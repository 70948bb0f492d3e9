import Skittermouse.Mesh.Calls

namespace Skittermouse.Mesh

open Skittermouse.Data Skittermouse.Core Skittermouse.Net Skittermouse.App

/-! # One explicit switch on a mesh with a past

A switch is one claim, broadcast once. Whether it ends as the claim that every
machine holds depends on what each machine held when it was issued, and that
includes what silent reverts have done to its clock.
-/

def claims (messages : List Bytes) : List OwnershipClaim :=
  messages.filterMap fun message => readClaim (seen message)

def NoClaimInFlight (net : Network) : Prop :=
  ∀ sender receiver, claims (transit net sender receiver) = []

def reverts (host : Machine) : Nat := host.trace.count .reverted

/-- Not a switch request, and no machine reverts. -/
def Undisturbed (hook : OwnerHook) (action : MeshAction) (net : Network) : Prop :=
  (∀ machine target, action ≠ .call machine (.requestSwitchTo target)) ∧
  ∀ id host after, net.find? id = some host → (meshStep hook action net).find? id = some after →
    reverts after = reverts host

def nextClaim (host : Machine) (target : PeerId) : OwnershipClaim :=
  { target, origin := host.node.self, sequence := host.node.ownership.clock + 1 }

/-- What a machine holds names the target once it has seen the claim: the claim
supersedes what it holds and names the target, or it is refused where the
target is already named. -/
def EndsAt (target : PeerId) (claim : OwnershipClaim) (host : Machine) : Prop :=
  if claimSupersedes claim host.node.ownership.current then claim.target = target
  else host.owner = target

instance (target : PeerId) (claim : OwnershipClaim) (host : Machine) :
    Decidable (EndsAt target claim host) :=
  inferInstanceAs (Decidable (if claimSupersedes claim host.node.ownership.current then
    claim.target = target else host.owner = target))

/-! ## What calls without a claim keep -/

theorem claims_append (first second : List Bytes) :
    claims (first ++ second) = claims first ++ claims second := List.filterMap_append

theorem claims_cons_none {message : Bytes} (rest : List Bytes)
    (other : readClaim (seen message) = none) : claims (message :: rest) = claims rest :=
  List.filterMap_cons_none other

theorem claims_cons_some {message : Bytes} {claim : OwnershipClaim} (rest : List Bytes)
    (found : readClaim (seen message) = some claim) :
    claims (message :: rest) = claim :: claims rest :=
  List.filterMap_cons_some found

theorem readClaim_input {event : InputEvent} (other : event.type ≠ MessageType.switchOwner.code) :
    readClaim (seen (encodeInputEvent event)) = none := by
  cases read : readClaim (seen (encodeInputEvent event)) with
  | none => rfl
  | some claim =>
      have code : (encodeInputEvent event)[1]? = some event.type := rfl
      rw [← seen_type, readClaim_type read] at code
      exact absurd (Option.some.inj code).symm other

theorem readClaim_make (type : MessageType) (other : type ≠ .switchOwner) (dx dy : Int16)
    (code down : UInt8) (ts : UInt32) :
    readClaim (seen (encodeInputEvent (InputPipeline.make type dx dy code down ts))) = none := by
  refine readClaim_input ?_
  change type.code ≠ MessageType.switchOwner.code
  cases type <;> first | contradiction | decide

theorem readClaim_claimMessage (claim : OwnershipClaim) :
    readClaim (seen (claimMessage claim)) = some (clipClaim claim) := by
  have short := encodeOwnershipClaim_length_le claim
  have whole : seen (claimMessage claim) = claimMessage claim := by
    refine List.take_of_length_le ?_
    rw [claimMessage, encodeVarMessage_length]
    unfold kVarHeaderSize Host.kPollBufferSize
    omega
  have decoded := @decodeMessage_encodeVarMessage .switchOwner (encodeOwnershipClaim claim)
    (by decide) rfl (by unfold kMaxVarPayload; omega) []
  rw [List.append_nil] at decoded
  have payload := decodeOwnershipClaim_encode claim []
  rw [List.append_nil] at payload
  rw [whole, readClaim, claimMessage, decoded]
  exact payload

variable {members : Set PeerId} {id source : PeerId} {hook : OwnerHook}
variable {host before after : Machine} {landed : OwnershipClaim}
variable {outs : PeerId → List OwnershipClaim} {count : Nat}

/-- Only `source` has claims on their way to this machine, and together with
what it holds they come to `landed`. -/
structure Steady (members : Set PeerId) (id source : PeerId) (landed : OwnershipClaim)
    (outs : PeerId → List OwnershipClaim) (count : Nat) (host : Machine) : Prop where
  reverts : reverts host = count
  outs : ∀ peer ∈ members, peer ≠ id → claims (host.outboxTo peer) = outs peer
  clean : ∀ sender, sender ≠ source → claims (host.inboxFrom sender) = []
  landed : (claims (host.inboxFrom source)).foldl (adopt OwnershipClaim.key)
    host.node.ownership.current = landed

theorem inboxFrom_congr (heap : after.heap = before.heap) (peer : PeerId) :
    after.inboxFrom peer = before.inboxFrom peer := by
  simp only [Host.inboxFrom, heap]

theorem outboxTo_congr (heap : after.heap = before.heap) (peer : PeerId) :
    after.outboxTo peer = before.outboxTo peer := by
  simp only [Host.outboxTo, heap]

namespace Steady

theorem congr (steady : Steady members id source landed outs count before)
    (heap : after.heap = before.heap) (ownership : after.node.ownership = before.node.ownership)
    (same : Mesh.reverts after = Mesh.reverts before) :
    Steady members id source landed outs count after := by
  refine ⟨same.trans steady.reverts, ?_, ?_, ?_⟩
  · intro peer inside different
    rw [outboxTo_congr heap]
    exact steady.outs peer inside different
  · intro sender apart
    rw [inboxFrom_congr heap]
    exact steady.clean sender apart
  · rw [inboxFrom_congr heap, ownership]
    exact steady.landed

theorem broadcast {message : Bytes} (steady : Steady members id source landed outs count host)
    (linked : Linked members id host) (other : readClaim (seen message) = none) :
    Steady members id source landed outs count (host.broadcast message) := by
  refine ⟨steady.reverts, ?_, ?_, ?_⟩
  · intro peer inside different
    rw [linked.outboxTo_broadcast message inside different, claims_append,
      claims_cons_none [] other]
    exact (List.append_nil _).trans (steady.outs peer inside different)
  · intro sender apart
    rw [linked.inboxFrom_broadcast]
    exact steady.clean sender apart
  · rw [linked.inboxFrom_broadcast]
    exact steady.landed

theorem broadcasts {messages : List Bytes} (steady : Steady members id source landed outs count host)
    (linked : Linked members id host)
    (others : ∀ message ∈ messages, readClaim (seen message) = none) :
    Steady members id source landed outs count (messages.foldl Host.broadcast host) := by
  induction messages generalizing host with
  | nil => exact steady
  | cons message rest ih =>
      exact ih (steady.broadcast linked (others message List.mem_cons_self))
        (linked.same (broadcast_sameLinks host message))
        fun other member => others other (List.mem_cons_of_mem _ member)

theorem releaseHeldKeys (steady : Steady members id source landed outs count host)
    (linked : Linked members id host) (ts : UInt32) :
    Steady members id source landed outs count (host.releaseHeldKeys ts) := by
  have emptied : Steady members id source landed outs count
      { host with node.pipeline := (host.node.pipeline.releaseAll ts).2 } :=
    steady.congr rfl rfl rfl
  refine emptied.broadcasts (linked.same ⟨rfl, rfl, rfl, fun _ => rfl⟩) fun message member => ?_
  obtain ⟨release, _, rfl⟩ := List.mem_map.mp member
  exact readClaim_make _ (by split <;> decide) 0 0 release.code 0 ts

theorem onOwnerChanged (steady : Steady members id source landed outs count host)
    (linked : Linked members id host) (owner : PeerId) :
    Steady members id source landed outs count (host.onOwnerChanged hook owner) := by
  have told : Steady members id source landed outs count (host.emit (.ownerChanged owner)) :=
    steady.congr rfl rfl (List.count_cons_of_ne (by simp))
  cases hook with
  | silent => exact told
  | releaseHeld =>
      simp only [Host.onOwnerChanged]
      split
      · exact told
      · exact told.releaseHeldKeys (linked.same ⟨rfl, rfl, rfl, fun _ => rfl⟩) _

theorem pop {sender : PeerId} {message : Bytes} {rest : List Bytes}
    (steady : Steady members id source landed outs count host)
    (waiting : host.inboxFrom sender = message :: rest)
    (other : readClaim (seen message) = none) :
    Steady members id source landed outs count (host.pop sender) := by
  have same : ∀ peer, claims ((host.pop sender).inboxFrom peer) = claims (host.inboxFrom peer) := by
    intro peer
    by_cases own : peer = sender
    · subst own
      rw [inboxFrom_pop_self, waiting, List.tail_cons, claims_cons_none rest other]
    · rw [Host.pop, (onWire_of_ne host _ own).1]
  refine ⟨steady.reverts, ?_, ?_, ?_⟩
  · intro peer inside different
    rw [outboxTo_pop]
    exact steady.outs peer inside different
  · intro peer apart
    rw [same]
    exact steady.clean peer apart
  · rw [same]
    exact steady.landed

theorem popClaim {sender : PeerId} {message : Bytes} {rest : List Bytes} {claim : OwnershipClaim}
    (data : Bytes) (now : UInt64) (steady : Steady members id source landed outs count host)
    (waiting : host.inboxFrom sender = message :: rest)
    (found : readClaim (seen message) = some claim) :
    Steady members id source landed outs count
      (((host.pop sender).hear sender data now).applyClaim claim) := by
  have queue : claims (host.inboxFrom sender) = claim :: claims rest := by
    rw [waiting, claims_cons_some rest found]
  have own : sender = source := by
    by_contra apart
    rw [steady.clean sender apart] at queue
    contradiction
  subst own
  refine ⟨?_, ?_, ?_, ?_⟩
  · rw [← steady.reverts]
    exact (List.count_cons_of_ne (by simp)).trans (List.count_cons_of_ne (by simp))
  · intro peer inside different
    rw [← steady.outs peer inside different, ← outboxTo_pop host sender peer]
    rfl
  · intro peer apart
    have kept := steady.clean peer apart
    rwa [← (onWire_of_ne host _ apart).1] at kept
  · have landed := steady.landed
    rw [queue, List.foldl_cons, ← OwnershipState.applyClaim_current] at landed
    have rest : claims ((host.pop sender).inboxFrom sender) = claims rest := by
      rw [inboxFrom_pop_self, waiting, List.tail_cons]
    rw [← rest] at landed
    exact landed

end Steady

/-- A machine that has reverted in the meantime is out of scope; any other is steady. -/
def Carries (members : Set PeerId) (id source : PeerId) (landed : OwnershipClaim)
    (outs : PeerId → List OwnershipClaim) (count : Nat) (host : Machine) : Prop :=
  count < reverts host ∨ Steady members id source landed outs count host

theorem reverts_mono (grown : before.trace <:+ after.trace) : reverts before ≤ reverts after :=
  grown.sublist.count_le _

theorem Carries.grow (carries : Carries members id source landed outs count before)
    (grown : before.trace <:+ after.trace)
    (steadily : Steady members id source landed outs count before →
      Steady members id source landed outs count after) :
    Carries members id source landed outs count after :=
  carries.imp (fun late => lt_of_lt_of_le late (reverts_mono grown)) steadily

theorem noted_reverts (noted : before.Noted after) : reverts after = reverts before := by
  obtain ⟨events, trace, notices⟩ := noted.trace
  have none : MeshEvent.reverted ∉ events := fun member => by
    have notice := notices _ member
    contradiction
  rw [reverts, trace, List.count_append, List.count_eq_zero_of_not_mem none, Nat.zero_add]
  rfl

theorem Steady.handle {sender : PeerId} {message : Bytes} {rest : List Bytes} (now : UInt64)
    (steady : Steady members id source landed outs count host) (linked : Linked members id host)
    (waiting : host.inboxFrom sender = message :: rest) :
    Steady members id source landed outs count
      ((host.pop sender).handle hook sender (seen message) now) := by
  have heard : readClaim (seen message) = none → Steady members id source landed outs count
      ((host.pop sender).hear sender (seen message) now) := fun other =>
    (steady.pop waiting other).congr rfl rfl (List.count_cons_of_ne (by simp))
  have outcome := Host.handle_outcome hook (host.pop sender) sender (seen message) now
  generalize (host.pop sender).handle hook sender (seen message) now = after at outcome ⊢
  cases outcome with
  | noted input claim noted =>
      exact (heard claim).congr noted.heap noted.frame.ownership (noted_reverts noted)
  | injected input claim sink => exact (heard claim).congr rfl rfl (List.count_cons_of_ne (by simp))
  | ignored input claim owner => exact (heard claim).congr rfl rfl (List.count_cons_of_ne (by simp))
  | claimed input found =>
      rename_i claim
      have applied := steady.popClaim (seen message) now waiting found
      have heardLinked : Linked members id ((host.pop sender).hear sender (seen message) now) :=
        (linked.same (.pop host sender)).same ⟨rfl, rfl, rfl, fun _ => rfl⟩
      have kept := heardLinked.same (.applyClaim _ claim)
      unfold Host.handleClaim
      dsimp only
      split
      · exact applied.onOwnerChanged kept _
      · exact applied

theorem failSafe_reverts (now : UInt64) :
    host.failSafe hook now = host ∨ reverts host < reverts (host.failSafe hook now) := by
  unfold Host.failSafe
  split
  · refine .inr (Nat.lt_of_lt_of_le ?_ (reverts_mono (Host.onOwnerChanged_suffix hook _ _)))
    have counted : reverts ((host.issueClaim host.node.self).2.emit .reverted) = reverts host + 1 := by
      refine List.count_cons_self.trans ?_
      exact congrArg (· + 1) (List.count_cons_of_ne (by simp))
    rw [counted]
    exact Nat.lt_succ_self _
  · exact .inl rfl

theorem CallRules.carries (members : Set PeerId) (id source : PeerId) (hook : OwnerHook)
    (landed : OwnershipClaim) (outs : PeerId → List OwnershipClaim) (count : Nat) :
    CallRules members id hook (Carries members id source landed outs count) where
  noted noted carries := carries.grow noted.frame.suffix fun steady =>
    steady.congr noted.heap noted.frame.ownership (noted_reverts noted)
  clocked now sent carries := carries.grow List.suffix_rfl fun steady => steady.congr rfl rfl rfl
  sent linked inert carries := carries.grow List.suffix_rfl fun steady =>
    steady.broadcast linked inert.1
  moved {host} dx dy ts linked carries := by
    refine carries.grow (Host.perform_suffix hook host (.forwardMouseMove dx dy ts)) fun steady => ?_
    unfold Host.forwardMouseMove
    split
    · exact (steady.congr rfl rfl rfl).broadcast (linked.same ⟨rfl, rfl, rfl, fun _ => rfl⟩)
        (readClaim_make .mouseMove (by decide) _ _ _ _ _)
    · exact steady
  clicked {host} button down ts linked carries := by
    refine carries.grow (Host.perform_suffix hook host (.forwardMouseButton button down ts)) fun steady => ?_
    unfold Host.forwardMouseButton
    split
    · have tracked : Steady members id source landed outs count
          { host with node.pipeline := (host.node.pipeline.onMouseButton button down ts).2 } :=
        steady.congr rfl rfl rfl
      exact tracked.broadcast (linked.same ⟨rfl, rfl, rfl, fun _ => rfl⟩)
        (readClaim_make .mouseButton (by decide) _ _ _ _ _)
    · exact steady
  typed {host} code down ts linked carries := by
    refine carries.grow (Host.perform_suffix hook host (.forwardKey code down ts)) fun steady => ?_
    unfold Host.forwardKey
    split
    · have tracked : Steady members id source landed outs count
          { host with node.pipeline := (host.node.pipeline.onKey code down ts).2 } :=
        steady.congr rfl rfl rfl
      exact tracked.broadcast (linked.same ⟨rfl, rfl, rfl, fun _ => rfl⟩)
        (readClaim_make .keyEvent (by decide) _ _ _ _ _)
    · exact steady
  released {host} ts linked carries := carries.grow (Host.perform_suffix hook host (.releaseHeldKeys ts))
    fun steady => steady.releaseHeldKeys linked ts
  skipped linked waiting empty carries := carries.grow List.suffix_rfl fun steady =>
    steady.pop waiting (by rw [empty]; rfl)
  received {host sender message rest} now linked waiting carries :=
    carries.grow (Host.handle_suffix (host.pop sender) (seen message)) fun steady =>
      steady.handle now linked waiting
  reverted {host} now linked carries := by
    rcases failSafe_reverts now with same | more
    · rw [same]
      exact carries
    · refine .inl (lt_of_le_of_lt ?_ more)
      rcases carries with late | steady
      · exact late.le
      · exact steady.reverts.ge

/-! ## The switch on the whole mesh -/

def landing (source : PeerId) (host : Machine) : OwnershipClaim :=
  (claims (host.inboxFrom source)).foldl (adopt OwnershipClaim.key) host.node.ownership.current

variable {net : Network} {members : Set PeerId} {final : PeerId → OwnershipClaim}

/-- Only `source` has claims under way, and they take every machine to `final`. -/
structure Settling (source : PeerId) (members : Set PeerId) (final : PeerId → OwnershipClaim)
    (net : Network) : Prop where
  meshed : Meshed net
  complete : membersOf net = members
  silent : ∀ id host, net.find? id = some host → id ≠ source →
    ∀ peer ∈ members, peer ≠ id → claims (host.outboxTo peer) = []
  clean : ∀ id host, net.find? id = some host →
    ∀ sender, sender ≠ source → claims (host.inboxFrom sender) = []
  lands : ∀ id host origin, net.find? id = some host → net.find? source = some origin →
    id ≠ source →
    (claims (origin.outboxTo id)).foldl (adopt OwnershipClaim.key) (landing source host) = final id
  own : ∀ origin, net.find? source = some origin → landing source origin = final source

namespace Settling

theorem replace {replaced : Machine} (settling : Settling source members final net)
    (found : net.find? id = some host) (linked : Linked members id replaced)
    (steady : Steady members id source (landing source host)
      (fun peer => claims (host.outboxTo peer)) count replaced) :
    Settling source members final (net.insert id replaced) := by
  have lookup : ∀ other new, (net.insert id replaced).find? other = some new →
      ∃ old, net.find? other = some old ∧ landing source new = landing source old ∧
        (∀ peer ∈ members, peer ≠ other → claims (new.outboxTo peer) = claims (old.outboxTo peer)) ∧
        ∀ sender, sender ≠ source → claims (new.inboxFrom sender) = [] := by
    intro other new newFound
    rw [OrdMap.find?_insert] at newFound
    split at newFound
    · rename_i same
      subst same
      cases newFound
      exact ⟨host, found, steady.landed, steady.outs, steady.clean⟩
    · exact ⟨new, newFound, rfl, fun _ _ _ => rfl, settling.clean other new newFound⟩
  refine ⟨settling.meshed.insert found (by rw [settling.complete]; exact linked),
    by rw [membersOf_insert found, settling.complete], ?_, ?_, ?_, ?_⟩
  · intro other new newFound apart peer inside different
    obtain ⟨old, oldFound, _, outs, _⟩ := lookup other new newFound
    rw [outs peer inside different]
    exact settling.silent other old oldFound apart peer inside different
  · intro other new newFound
    obtain ⟨old, oldFound, _, _, clean⟩ := lookup other new newFound
    exact clean
  · intro other new origin newFound originFound apart
    obtain ⟨old, oldFound, same, _, _⟩ := lookup other new newFound
    obtain ⟨oldOrigin, oldOriginFound, _, outs, _⟩ := lookup source origin originFound
    have inside : other ∈ members := by
      rw [← settling.complete]
      exact OrdMap.contains_iff.mpr ⟨old, oldFound⟩
    rw [same, outs other inside apart]
    exact settling.lands other old oldOrigin oldFound oldOriginFound apart
  · intro origin originFound
    obtain ⟨old, oldFound, same, _, _⟩ := lookup source origin originFound
    rw [same]
    exact settling.own old oldFound

theorem landing_congr {old new : Machine} (node : new.node = old.node)
    (inbox : new.inboxFrom source = old.inboxFrom source) :
    landing source new = landing source old := by
  simp only [landing, node, inbox]

/-- A link that carries a message moves it from one end of the count to the other. -/
theorem carry {sender receiver : PeerId} (settling : Settling source members final net) :
    Settling source members final (carry net sender receiver) := by
  by_cases idle : ∀ host, net.find? sender = some host → host.outboxTo receiver = []
  · rwa [carry_idle idle]
  simp only [not_forall] at idle
  obtain ⟨host, found, waiting⟩ := idle
  obtain ⟨message, rest, queue⟩ := List.exists_cons_of_ne_nil waiting
  obtain ⟨apart, receiverInside, spec⟩ := carry_spec settling.meshed found queue
  rw [settling.complete] at receiverInside
  have moved : claims (host.outboxTo receiver) = claims [message] ++ claims rest := by
    rw [queue, ← claims_append]
    rfl
  have harmless : sender ≠ source → claims [message] = [] ∧ claims rest = [] := by
    intro other
    have none := settling.silent sender host found other receiver receiverInside (Ne.symm apart)
    rwa [moved, List.append_eq_nil_iff] at none
  refine ⟨meshed_meshStep .silent (.carry sender receiver) settling.meshed,
    by rw [membersOf_carry, settling.complete], ?_, ?_, ?_, ?_⟩
  · intro id new newFound other peer inside different
    obtain ⟨old, oldFound, _, _, _, outs, _⟩ := spec id new newFound
    have kept := settling.silent id old oldFound other peer inside different
    rw [outs]
    split
    · rename_i both
      exact (harmless (by rw [← both.1]; exact other)).2
    · exact kept
  · intro id new newFound peer other
    obtain ⟨old, oldFound, _, _, _, _, boxes⟩ := spec id new newFound
    have kept := settling.clean id old oldFound peer other
    rw [boxes]
    split
    · rename_i both
      rw [both.2] at kept other
      rw [claims_append, kept, (harmless other).1]
      rfl
    · exact kept
  · intro id new newOrigin newFound originFound different
    obtain ⟨old, oldFound, node, _, _, _, boxes⟩ := spec id new newFound
    obtain ⟨origin, oldOriginFound, _, _, _, outs, _⟩ := spec source newOrigin originFound
    have kept := settling.lands id old origin oldFound oldOriginFound different
    by_cases both : id = receiver ∧ source = sender
    · obtain ⟨rfl, rfl⟩ := both
      rw [found] at oldOriginFound
      cases oldOriginFound
      rw [moved, List.foldl_append] at kept
      rw [outs, if_pos ⟨rfl, rfl⟩]
      have fuller : landing source new =
          (claims [message]).foldl (adopt OwnershipClaim.key) (landing source old) := by
        simp only [landing]
        rw [boxes, if_pos ⟨rfl, rfl⟩, claims_append, List.foldl_append, node]
      rw [fuller]
      exact kept
    · rw [outs, if_neg fun sent => both ⟨sent.2, sent.1⟩, landing_congr node]
      · exact kept
      · rw [boxes, if_neg both]
  · intro newOrigin originFound
    obtain ⟨origin, oldOriginFound, node, _, _, _, boxes⟩ := spec source newOrigin originFound
    rw [landing_congr node]
    · exact settling.own origin oldOriginFound
    · rw [boxes, if_neg]
      rintro ⟨rfl, rfl⟩
      exact apart rfl

theorem step {action : MeshAction} (settling : Settling source members final net)
    (undisturbed : Undisturbed hook action net) :
    Settling source members final (meshStep hook action net) := by
  cases action with
  | carry sender receiver => exact settling.carry
  | call machine call =>
      cases found : net.find? machine with
      | none =>
          have same : meshStep hook (.call machine call) net = net := by
            rw [meshStep, OrdMap.modify, found]
          rwa [same]
      | some host =>
          have linked := settling.meshed machine host found
          rw [settling.complete] at linked
          have start : Carries members machine source (landing source host)
              (fun peer => claims (host.outboxTo peer)) (reverts host) host :=
            .inr ⟨rfl, fun _ _ _ => rfl, settling.clean machine host found, rfl⟩
          obtain ⟨kept, carries⟩ := perform_rules (.carries members machine source hook _ _ _)
            linked start call fun target same =>
              absurd (congrArg _ same) (undisturbed.1 machine target)
          have stepped : meshStep hook (.call machine call) net =
              net.insert machine (host.perform hook call) := OrdMap.modify_eq_insert _ found
          have counted : reverts (host.perform hook call) = reverts host :=
            undisturbed.2 machine host _ found (by rw [stepped, OrdMap.find?_insert_self])
          rw [stepped]
          rcases carries with late | steady
          · exact absurd counted (ne_of_gt late)
          · exact settling.replace found kept steady

end Settling

/-! ## The claim is issued -/

theorem adopt_endsAt {target : PeerId} (claim : OwnershipClaim) (host : Machine) :
    (adopt OwnershipClaim.key host.node.ownership.current claim).target = target ↔
      EndsAt target claim host := by
  unfold adopt EndsAt
  by_cases newer : claimSupersedes claim host.node.ownership.current = true
  · rw [if_pos newer, if_pos (claimSupersedes_iff.mp newer)]
  · rw [if_neg newer, if_neg fun less => newer (claimSupersedes_iff.mpr less)]
    rfl

/-- Each machine on what it holds and the copy of the claim it is sent. -/
def switched (net : Network) (source : PeerId) (claim : OwnershipClaim) (id : PeerId) :
    OwnershipClaim :=
  match net.find? id with
  | none => claim
  | some host => adopt OwnershipClaim.key host.node.ownership.current
      (if id = source then claim else clipClaim claim)

theorem idle_machine (meshed : Meshed net) (idle : NoClaimInFlight net)
    (found : net.find? id = some host) :
    (∀ sender, claims (host.inboxFrom sender) = []) ∧
      ∀ peer ∈ membersOf net, claims (host.outboxTo peer) = [] := by
  have pair : ∀ {peer other}, net.find? peer = some other →
      claims (host.inboxFrom peer) = [] ∧ claims (host.outboxTo peer) = [] := by
    intro peer other otherFound
    have inward := idle peer id
    have outward := idle id peer
    simp only [transit, otherFound, found, claims_append, List.append_eq_nil_iff] at inward outward
    exact ⟨inward.1, outward.2⟩
  refine ⟨fun sender => ?_, fun peer inside => ?_⟩
  · by_cases inside : sender ∈ membersOf net
    · obtain ⟨other, otherFound⟩ := OrdMap.contains_iff.mp inside
      exact (pair otherFound).1
    · rw [Host.inboxFrom, (meshed id host found).absent sender (.inl inside)]
      rfl
  · obtain ⟨other, otherFound⟩ := OrdMap.contains_iff.mp inside
    exact (pair otherFound).2

theorem request_steady (hook : OwnerHook) {target : PeerId} (linked : Linked members id host)
    (reachable : target = id ∨ host.isPeerOnline target = true)
    (inbox : ∀ sender, claims (host.inboxFrom sender) = [])
    (outbox : ∀ peer ∈ members, claims (host.outboxTo peer) = []) :
    ∃ count, Steady members id id (adopt OwnershipClaim.key host.node.ownership.current
        (nextClaim host target)) (fun _ => [clipClaim (nextClaim host target)]) count
      (host.requestSwitchTo hook target) := by
  have possible : ¬(target ≠ host.node.self ∧ host.isPeerOnline target = false) := by
    rintro ⟨other, offline⟩
    rcases reachable with own | online
    · exact other (own.trans linked.named.symm)
    · rw [online] at offline
      contradiction
  have issued : host.issueClaim target = (nextClaim host target, host.applyClaim (nextClaim host target)) := by
    simp only [Host.issueClaim, OwnershipState.requestSwitchTo, nextClaim, linked.owned, linked.named,
      Host.applyClaim]
  have applied : Linked members id (host.applyClaim (nextClaim host target)) :=
    linked.same (.applyClaim _ _)
  have sent : Steady members id id (adopt OwnershipClaim.key host.node.ownership.current
      (nextClaim host target)) (fun _ => [clipClaim (nextClaim host target)])
      (reverts (host.applyClaim (nextClaim host target)))
      ((host.applyClaim (nextClaim host target)).broadcast (claimMessage (nextClaim host target))) := by
    refine ⟨rfl, ?_, ?_, ?_⟩
    · intro peer inside different
      rw [applied.outboxTo_broadcast _ inside different, claims_append,
        claims_cons_some [] (readClaim_claimMessage _)]
      exact congrArg (· ++ [clipClaim (nextClaim host target)]) (outbox peer inside)
    · intro sender _
      rw [applied.inboxFrom_broadcast]
      exact inbox sender
    · rw [applied.inboxFrom_broadcast]
      have empty : claims ((host.applyClaim (nextClaim host target)).inboxFrom id) = [] := inbox id
      rw [empty]
      exact OwnershipState.applyClaim_current
  refine ⟨reverts (host.applyClaim (nextClaim host target)), ?_⟩
  unfold Host.requestSwitchTo
  rw [if_neg possible, issued]
  dsimp only
  split
  · exact sent.onOwnerChanged (applied.same (broadcast_sameLinks _ _)) _
  · exact sent

theorem Settling.request (hook : OwnerHook) {target : PeerId} (meshed : Meshed net) (idle : NoClaimInFlight net)
    (found : net.find? source = some host)
    (reachable : target = source ∨ host.isPeerOnline target = true) :
    Settling source (membersOf net) (switched net source (nextClaim host target))
      (meshStep hook (.call source (.requestSwitchTo target)) net) := by
  have linked := meshed source host found
  obtain ⟨inbox, outbox⟩ := idle_machine meshed idle found
  obtain ⟨count, steady⟩ := request_steady hook linked reachable inbox outbox
  have stepped : meshStep hook (.call source (.requestSwitchTo target)) net =
      net.insert source (host.requestSwitchTo hook target) := OrdMap.modify_eq_insert _ found
  have lookup : ∀ {id other}, id ≠ source →
      (meshStep hook (.call source (.requestSwitchTo target)) net).find? id = some other →
      net.find? id = some other := by
    intro id other apart otherFound
    rwa [stepped, OrdMap.find?_insert_of_ne _ _ apart] at otherFound
  have atSource : ∀ {other},
      (meshStep hook (.call source (.requestSwitchTo target)) net).find? source = some other →
      other = host.requestSwitchTo hook target := by
    intro other otherFound
    rw [stepped, OrdMap.find?_insert_self] at otherFound
    exact (Option.some.inj otherFound).symm
  refine ⟨meshed_meshStep hook _ meshed, membersOf_meshStep hook _ net, ?_, ?_, ?_, ?_⟩
  · intro id other otherFound apart peer inside _
    exact (idle_machine meshed idle (lookup apart otherFound)).2 peer inside
  · intro id other otherFound sender _
    by_cases own : id = source
    · subst own
      rw [atSource otherFound]
      exact steady.clean sender ‹_›
    · exact (idle_machine meshed idle (lookup own otherFound)).1 sender
  · intro id other origin otherFound originFound apart
    have before := lookup apart otherFound
    have inside : id ∈ membersOf net := OrdMap.contains_iff.mpr ⟨other, before⟩
    rw [atSource originFound, steady.outs id inside apart]
    simp only [landing, (idle_machine meshed idle before).1 source, switched, before, if_neg apart,
      List.foldl_cons, List.foldl_nil]
  · intro origin originFound
    rw [atSource originFound]
    simp only [switched, found, if_true]
    exact steady.landed

/-- Once nothing is under way, what a machine comes to is what it holds. -/
theorem Settling.settled (settling : Settling source members final net)
    (delivered : NoClaimInFlight net) (present : source ∈ members)
    (found : net.find? id = some host) : host.node.ownership.current = final id := by
  obtain ⟨inbox, _⟩ := idle_machine settling.meshed delivered found
  by_cases own : id = source
  · subst own
    rw [← settling.own host found, landing, inbox id]
    rfl
  · rw [← settling.complete] at present
    obtain ⟨origin, originFound⟩ := OrdMap.contains_iff.mp present
    have inside : id ∈ membersOf net := OrdMap.contains_iff.mpr ⟨host, found⟩
    rw [← settling.lands id host origin found originFound own,
      (idle_machine settling.meshed delivered originFound).2 id inside, landing, inbox source]
    rfl

/-- After an undisturbed switch every machine names the target exactly when the
fresh claim supersedes what each machine held, wherever the target was not named. -/
theorem switch_agrees_iff (hook : OwnerHook) (history : List HistoryAction)
    (segment : List MeshAction) {target : PeerId}
    (found : (exec (historyStep hook) ∅ history).find? source = some host)
    (reachable : target = source ∨ host.isPeerOnline target = true)
    (idle : NoClaimInFlight (exec (historyStep hook) ∅ history))
    (undisturbed : Along (meshStep hook) (Undisturbed hook)
      (meshStep hook (.call source (.requestSwitchTo target)) (exec (historyStep hook) ∅ history))
      segment)
    (delivered : NoClaimInFlight (exec (meshStep hook)
      (meshStep hook (.call source (.requestSwitchTo target)) (exec (historyStep hook) ∅ history))
      segment)) :
    (∀ id other, (exec (meshStep hook)
        (meshStep hook (.call source (.requestSwitchTo target)) (exec (historyStep hook) ∅ history))
        segment).find? id = some other → other.owner = target) ↔
      EndsAt target (nextClaim host target) host ∧
      ∀ id other, id ≠ source → (exec (historyStep hook) ∅ history).find? id = some other →
        EndsAt target (clipClaim (nextClaim host target)) other := by
  have meshed := meshed_history hook history
  generalize exec (historyStep hook) ∅ history = net at *
  have settling := exec_invariant (fun _ _ settling undisturbed => settling.step undisturbed)
    (Settling.request hook meshed idle found reachable) undisturbed
  generalize exec (meshStep hook)
    (meshStep hook (.call source (.requestSwitchTo target)) net) segment = after at *
  have present : source ∈ membersOf net := OrdMap.contains_iff.mpr ⟨host, found⟩
  have survives : ∀ id other, net.find? id = some other → ∃ new, after.find? id = some new ∧
      new.owner = (switched net source (nextClaim host target) id).target := by
    intro id other otherFound
    have inside : id ∈ membersOf after := by
      rw [settling.complete]
      exact OrdMap.contains_iff.mpr ⟨other, otherFound⟩
    obtain ⟨new, newFound⟩ := OrdMap.contains_iff.mp inside
    exact ⟨new, newFound, congrArg OwnershipClaim.target (settling.settled delivered present newFound)⟩
  constructor
  · intro agreed
    refine ⟨?_, fun id other apart otherFound => ?_⟩
    · obtain ⟨new, newFound, owner⟩ := survives source host found
      rw [agreed source new newFound] at owner
      simp only [switched, found, if_true] at owner
      exact (adopt_endsAt _ _).mp owner.symm
    · obtain ⟨new, newFound, owner⟩ := survives id other otherFound
      rw [agreed id new newFound] at owner
      simp only [switched, otherFound, if_neg apart] at owner
      exact (adopt_endsAt _ _).mp owner.symm
  · rintro ⟨here, elsewhere⟩ id new newFound
    have inside : id ∈ membersOf net := by
      rw [← settling.complete]
      exact OrdMap.contains_iff.mpr ⟨new, newFound⟩
    obtain ⟨other, otherFound⟩ := OrdMap.contains_iff.mp inside
    obtain ⟨same, sameFound, owner⟩ := survives id other otherFound
    rw [newFound] at sameFound
    cases sameFound
    rw [owner]
    by_cases own : id = source
    · subst own
      rw [found] at otherFound
      cases otherFound
      simp only [switched, found, if_true]
      exact (adopt_endsAt _ _).mpr here
    · simp only [switched, otherFound, if_neg own]
      exact (adopt_endsAt _ _).mpr (elsewhere id other own otherFound)

theorem noClaimInFlight_of_keys
    (checked : ∀ sender ∈ net.entries.map Prod.fst, ∀ receiver ∈ net.entries.map Prod.fst,
      claims (transit net sender receiver) = []) : NoClaimInFlight net := by
  intro sender receiver
  by_cases present : net.contains sender = true ∧ net.contains receiver = true
  · exact checked sender (OrdMap.mem_keys.mpr present.1) receiver (OrdMap.mem_keys.mpr present.2)
  · rw [transit_of_absent present]
    rfl

theorem undisturbed_of_keys {action : MeshAction}
    (requests : ∀ machine target, action ≠ .call machine (.requestSwitchTo target))
    (checked : ∀ id ∈ net.entries.map Prod.fst,
      ((meshStep hook action net).find? id).map reverts = (net.find? id).map reverts) :
    Undisturbed hook action net := by
  refine ⟨requests, fun id host after found afterFound => ?_⟩
  have same := checked id (OrdMap.mem_keys.mpr (OrdMap.contains_iff.mpr ⟨host, found⟩))
  rw [found, afterFound] at same
  exact Option.some.inj same

/-- "A" drives "B", falls silent, and "B" takes control back. -/
def silentDriver : List HistoryAction :=
  [.start [65], .start [66], .act (.call [65] (.requestSwitchTo [65])), .act (.carry [65] [66]),
    .act (.call [66] (.poll 1000)), .act (.call [66] (.poll 5000))]

def deliverToB : List MeshAction := [.carry [65] [66], .call [66] (.poll 5001)]

/-- The silent revert has moved the clock of "B" to 2, where the next claim of
"A" ties with it and loses. -/
theorem switch_refused_after_revert :
    ∃ host, (exec (historyStep .silent) ∅ silentDriver).find? [65] = some host ∧
      NoClaimInFlight (exec (historyStep .silent) ∅ silentDriver) ∧
      Along (meshStep .silent) (Undisturbed .silent)
        (meshStep .silent (.call [65] (.requestSwitchTo [65]))
          (exec (historyStep .silent) ∅ silentDriver)) deliverToB ∧
      NoClaimInFlight (exec (meshStep .silent)
        (meshStep .silent (.call [65] (.requestSwitchTo [65]))
          (exec (historyStep .silent) ∅ silentDriver)) deliverToB) ∧
      ∃ other, (exec (meshStep .silent)
        (meshStep .silent (.call [65] (.requestSwitchTo [65]))
          (exec (historyStep .silent) ∅ silentDriver)) deliverToB).find? [66] = some other ∧
        other.owner ≠ [65] := by
  refine ⟨_, rfl, noClaimInFlight_of_keys (by decide),
    ⟨undisturbed_of_keys nofun (by decide), undisturbed_of_keys nofun (by decide), trivial⟩,
    noClaimInFlight_of_keys (by decide), _, rfl, by decide⟩

/-- Without the silence the same switch agrees. -/
theorem switch_agrees_when_heard :
    ((exec (meshStep .silent)
      (meshStep .silent (.call [65] (.requestSwitchTo [65]))
        (exec (historyStep .silent) ∅ (silentDriver.take 5))) deliverToB).entries.all
      fun entry => entry.2.owner == [65]) = true := by
  have agreed : ∀ id other, (exec (meshStep .silent)
      (meshStep .silent (.call [65] (.requestSwitchTo [65]))
        (exec (historyStep .silent) ∅ (silentDriver.take 5))) deliverToB).find? id = some other →
      other.owner = [65] := by
    refine (switch_agrees_iff .silent (silentDriver.take 5) deliverToB rfl (.inl rfl)
      (noClaimInFlight_of_keys (by decide))
      ⟨undisturbed_of_keys nofun (by decide), undisturbed_of_keys nofun (by decide), trivial⟩
      (noClaimInFlight_of_keys (by decide))).mpr ⟨by decide, ?_⟩
    have accepted : ∀ entry ∈ (exec (historyStep .silent) ∅ (silentDriver.take 5)).entries,
        entry.1 ≠ [65] → EndsAt [65] (clipClaim ⟨[65], [65], 2⟩) entry.2 := by decide
    exact fun id other apart found => accepted (id, other) (OrdMap.mem_entries.mpr found) apart
  rw [List.all_eq_true]
  intro entry inside
  exact beq_iff_eq.mpr (agreed entry.1 entry.2 (OrdMap.mem_entries.mp inside))

end Skittermouse.Mesh
