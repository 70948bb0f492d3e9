import Mathlib.Data.Finset.Insert
import Mathlib.Data.List.Pairwise
import Skittermouse.Core.OwnershipState
import Skittermouse.Data.Exec

namespace Skittermouse.Ownership

open Skittermouse.Data Skittermouse.Core

/-! # Convergence of the ownership claims

Any number of machines issue claims, and issued claims reach machines in any
order, late, and more than once. The network is the adversary here: a
delivery may pick any claim issued so far and any machine.
-/

structure Fleet where
  states : PeerId → OwnershipState
  issued : List OwnershipClaim
  /-- What each machine has applied, its own claims included. -/
  applied : PeerId → List OwnershipClaim

inductive Action where
  | requestSwitchTo (machine target : PeerId)
  | deliver (machine : PeerId) (index : Nat)
deriving DecidableEq

def Fleet.init : Fleet :=
  { states := OwnershipState.init, issued := [], applied := fun _ => [] }

variable (machines : Finset PeerId)

def Fleet.apply (fleet : Fleet) (machine : PeerId) (claim : OwnershipClaim)
    (issued : List OwnershipClaim) : Fleet :=
  { states := Function.update fleet.states machine ((fleet.states machine).applyClaim claim).2
    issued
    applied := Function.update fleet.applied machine (claim :: fleet.applied machine) }

def step : Action → Fleet → Fleet
  | .requestSwitchTo machine target, fleet =>
      if machine ∈ machines then
        let (claim, state) := (fleet.states machine).requestSwitchTo target
        { states := Function.update fleet.states machine state
          issued := fleet.issued ++ [claim]
          applied := Function.update fleet.applied machine (claim :: fleet.applied machine) }
      else fleet
  | .deliver machine index, fleet =>
      match fleet.issued[index]? with
      | some claim => if machine ∈ machines then fleet.apply machine claim fleet.issued else fleet
      | none => fleet

def run (actions : List Action) : Fleet := exec (step machines) Fleet.init actions

def Action.isRequest : Action → Bool
  | .requestSwitchTo _ _ => true
  | .deliver _ _ => false

def calls (actions : List Action) : Nat := actions.countP Action.isRequest

structure Consistent (fleet : Fleet) : Prop where
  self : ∀ machine, (fleet.states machine).self = machine
  current : ∀ machine, (fleet.states machine).Current
  latest : ∀ machine, IsLatest OwnershipClaim.key
    (insert (OwnershipState.init machine).current {claim | claim ∈ fleet.applied machine})
    (fleet.states machine).current
  appliedIssued : ∀ machine, ∀ claim ∈ fleet.applied machine, claim ∈ fleet.issued
  clockBound : ∀ machine, (fleet.states machine).clock.toNat ≤ fleet.issued.length
  /-- A machine's clock has reached every claim of its own. -/
  ownClaims : ∀ claim ∈ fleet.issued, claim.sequence ≤ (fleet.states claim.origin).clock
  sequenceBound : ∀ claim ∈ fleet.issued, claim.sequence.toNat ≤ fleet.issued.length
  positive : ∀ claim ∈ fleet.issued, 0 < claim.sequence
  unique : fleet.issued.Pairwise fun left right => left.key ≠ right.key

theorem Consistent.init : Consistent Fleet.init where
  self _ := rfl
  current _ := le_refl _
  latest machine := by simpa [Fleet.init] using IsLatest.singleton (OwnershipState.init machine).current
  appliedIssued _ _ member := absurd member List.not_mem_nil
  clockBound _ := Nat.zero_le _
  ownClaims _ member := absurd member List.not_mem_nil
  sequenceBound _ member := absurd member List.not_mem_nil
  positive _ member := absurd member List.not_mem_nil
  unique := .nil

variable {machines} {fleet : Fleet} {machine target : PeerId} {claim : OwnershipClaim}
  {issued : List OwnershipClaim}

/-- What one machine holds after applying a claim is the latest of what it has
applied, that claim included. -/
private theorem latest_apply {state : OwnershipState} {start : OwnershipClaim}
    {applied : List OwnershipClaim}
    (latest : IsLatest OwnershipClaim.key (insert start {other | other ∈ applied}) state.current) :
    IsLatest OwnershipClaim.key (insert start {other | other ∈ claim :: applied})
      (state.applyClaim claim).2.current := by
  have grown : (insert start {other | other ∈ claim :: applied} : Set OwnershipClaim) =
      insert claim (insert start {other | other ∈ applied}) := by
    ext other
    simp only [List.mem_cons, Set.mem_insert_iff, Set.mem_ofPred_eq]
    tauto
  rw [grown, OwnershipState.applyClaim_current]
  exact latest.adopt claim

/-- Applying a claim keeps a fleet consistent when the claim is in the log
afterwards and the log grew by nothing but a claim this machine issued. -/
theorem Consistent.apply (consistent : Consistent fleet)
    (grows : fleet.issued ⊆ issued) (longer : fleet.issued.length ≤ issued.length)
    (member : claim ∈ issued)
    (fresh : ∀ other ∈ issued, other ∈ fleet.issued ∨ other = claim ∧ claim.origin = machine)
    (bound : ∀ other ∈ issued, other.sequence.toNat ≤ issued.length)
    (positive : ∀ other ∈ issued, 0 < other.sequence)
    (unique : issued.Pairwise fun left right => left.key ≠ right.key) :
    Consistent (fleet.apply machine claim issued) where
  self other := by
    by_cases same : other = machine
    · subst same
      simpa [Fleet.apply] using consistent.self other
    · simpa [Fleet.apply, same] using consistent.self other
  current other := by
    by_cases same : other = machine
    · subst same
      simpa [Fleet.apply] using (consistent.current other).applyClaim claim
    · simpa [Fleet.apply, same] using consistent.current other
  latest other := by
    by_cases same : other = machine
    · subst same
      simpa [Fleet.apply] using latest_apply (consistent.latest other)
    · simpa [Fleet.apply, same] using consistent.latest other
  appliedIssued other := by
    by_cases same : other = machine
    · subst same
      simp only [Fleet.apply, Function.update_self, List.mem_cons]
      rintro held (rfl | inside)
      · exact member
      · exact grows (consistent.appliedIssued other held inside)
    · intro held inside
      simp only [Fleet.apply, Function.update_of_ne same] at inside
      exact grows (consistent.appliedIssued other held inside)
  clockBound other := by
    by_cases same : other = machine
    · subst same
      simp only [Fleet.apply, Function.update_self, OwnershipState.applyClaim_clock]
      rcases le_total (fleet.states other).clock claim.sequence with less | more
      · rw [max_eq_right less]
        exact bound claim member
      · rw [max_eq_left more]
        exact (consistent.clockBound other).trans longer
    · simpa [Fleet.apply, same] using (consistent.clockBound other).trans longer
  ownClaims other inside := by
    rcases fresh other inside with old | ⟨rfl, origin⟩
    · have reached := consistent.ownClaims other old
      by_cases same : other.origin = machine
      · subst same
        simpa [Fleet.apply] using .inl reached
      · simpa [Fleet.apply, same] using reached
    · subst origin
      simp [Fleet.apply]
  sequenceBound := bound
  positive := positive
  unique := unique

theorem Consistent.deliver (consistent : Consistent fleet) (member : claim ∈ fleet.issued) :
    Consistent (fleet.apply machine claim fleet.issued) :=
  consistent.apply (fun _ inside => inside) (le_refl _) member (fun _ inside => .inl inside)
    consistent.sequenceBound consistent.positive consistent.unique

/-- A freshly issued claim has a key that no earlier claim has: the issuer's
clock was past every claim of its own. -/
theorem Consistent.issue (consistent : Consistent fleet)
    (room : fleet.issued.length < 2 ^ 64 - 1) :
    Consistent (fleet.apply machine ((fleet.states machine).requestSwitchTo target).1
      (fleet.issued ++ [((fleet.states machine).requestSwitchTo target).1])) := by
  set claim := ((fleet.states machine).requestSwitchTo target).1 with issuedClaim
  have origin : claim.origin = machine := consistent.self machine
  have sequence : claim.sequence = (fleet.states machine).clock + 1 := rfl
  have clockBound := consistent.clockBound machine
  have clockRoom : (fleet.states machine).clock < UInt64.ofNat (2 ^ 64 - 1) := by
    rw [UInt64.lt_iff_toNat_lt]
    simp
    omega
  have newer := lt_succ_of_ne_last clockRoom.ne
  have sequenceNat : claim.sequence.toNat = (fleet.states machine).clock.toNat + 1 := by
    rw [sequence, UInt64.toNat_add]
    simp
    omega
  apply consistent.apply
  · exact List.subset_append_left _ _
  · simp
  · simp
  · intro other inside
    rcases List.mem_append.mp inside with old | last
    · exact .inl old
    · exact .inr ⟨by simpa using last, origin⟩
  · intro other inside
    rw [List.length_append, List.length_singleton]
    rcases List.mem_append.mp inside with old | last
    · exact (consistent.sequenceBound other old).trans (Nat.le_succ _)
    · rw [List.mem_singleton.mp last, sequenceNat]
      omega
  · intro other inside
    rcases List.mem_append.mp inside with old | last
    · exact consistent.positive other old
    · rw [List.mem_singleton.mp last, sequence]
      exact lt_of_le_of_lt (UInt64.zero_le) newer
  · refine List.pairwise_append.mpr ⟨consistent.unique, List.pairwise_singleton _ _, ?_⟩
    intro old member last lastMember same
    rw [List.mem_singleton.mp lastMember] at same
    obtain ⟨sameSequence, sameOrigin⟩ := Prod.mk.inj (toLex_inj.mp same)
    have reached := consistent.ownClaims old member
    rw [sameSequence, sameOrigin, origin, sequence] at reached
    exact absurd reached (not_le.mpr newer)

theorem step_consistent (action : Action) (consistent : Consistent fleet)
    (room : fleet.issued.length < 2 ^ 64 - 1) : Consistent (step machines action fleet) := by
  cases action with
  | requestSwitchTo machine target =>
      simp only [step]
      split
      · exact consistent.issue room
      · exact consistent
  | deliver machine index =>
      simp only [step]
      split
      · rename_i claim found
        split
        · exact consistent.deliver (List.mem_of_getElem? found)
        · exact consistent
      · exact consistent

theorem step_issued_length (machines : Finset PeerId) (action : Action) (fleet : Fleet) :
    (step machines action fleet).issued.length ≤
      fleet.issued.length + if action.isRequest then 1 else 0 := by
  cases action with
  | requestSwitchTo machine target =>
      simp only [step, Action.isRequest]
      split <;> simp
  | deliver machine index =>
      simp only [step, Action.isRequest]
      split
      · split <;> simp [Fleet.apply]
      · simp

theorem exec_consistent {actions : List Action} (consistent : Consistent fleet)
    (few : fleet.issued.length + calls actions < 2 ^ 64 - 1) :
    Consistent (exec (step machines) fleet actions) := by
  induction actions generalizing fleet with
  | nil => exact consistent
  | cons action rest ih =>
      have grown := step_issued_length machines action fleet
      simp only [calls, List.countP_cons] at few ih
      rw [exec_cons]
      exact ih (step_consistent action consistent (by omega)) (by omega)

/-- A machine that has applied every issued claim holds the latest of them. -/
theorem Consistent.latest_issued (consistent : Consistent fleet)
    (complete : ∀ claim ∈ fleet.issued, claim ∈ fleet.applied machine) :
    IsLatest OwnershipClaim.key
      (insert (OwnershipState.init machine).current {claim | claim ∈ fleet.issued})
      (fleet.states machine).current := by
  have same : {claim | claim ∈ fleet.applied machine} = {claim | claim ∈ fleet.issued} :=
    Set.ext fun claim => ⟨consistent.appliedIssued machine claim, complete claim⟩
  rw [← same]
  exact consistent.latest machine

theorem Consistent.key_injOn (consistent : Consistent fleet) :
    Set.InjOn OwnershipClaim.key {claim | claim ∈ fleet.issued} := by
  intro left leftMember right rightMember same
  have symmetric : Std.Symm fun left right : OwnershipClaim => left.key ≠ right.key :=
    ⟨fun _ _ apart => Ne.symm apart⟩
  by_contra different
  exact consistent.unique.forall leftMember rightMember different same

theorem Consistent.above (consistent : Consistent fleet) (some : fleet.issued ≠ [])
    (machine : PeerId) : ∃ claim ∈ {claim | claim ∈ fleet.issued},
      (OwnershipState.init machine).current.key < claim.key := by
  obtain ⟨claim, member⟩ := List.exists_mem_of_ne_nil _ some
  exact ⟨claim, member, Prod.Lex.toLex_lt_toLex.mpr (.inl (consistent.positive claim member))⟩

/-- Claims are identified by sequence and origin, and machines that have
applied every issued claim agree on the owner, which alone reports itself. -/
theorem ownership_converges (machines : Finset PeerId) (actions : List Action)
    (few : calls actions < 2 ^ 64 - 1) :
    (∀ left ∈ (run machines actions).issued, ∀ right ∈ (run machines actions).issued,
      left.sequence = right.sequence → left.origin = right.origin → left = right) ∧
    ((run machines actions).issued ≠ [] →
      (∀ machine ∈ machines, ∀ claim ∈ (run machines actions).issued,
        claim ∈ (run machines actions).applied machine) →
      ∃ winner ∈ (run machines actions).issued, ∀ machine ∈ machines,
        ((run machines actions).states machine).current = winner ∧
        ((run machines actions).states machine).owner = winner.target ∧
        (((run machines actions).states machine).isLocalOwner = true ↔
          machine = winner.target)) := by
  have consistent : Consistent (run machines actions) :=
    exec_consistent Consistent.init (by simpa [Fleet.init] using few)
  refine ⟨?_, ?_⟩
  · intro left leftMember right rightMember sequence origin
    apply consistent.key_injOn leftMember rightMember
    simp only [OwnershipClaim.key, sequence, origin]
  · intro some complete
    rcases machines.eq_empty_or_nonempty with rfl | ⟨first, firstMember⟩
    · obtain ⟨claim, member⟩ := List.exists_mem_of_ne_nil _ some
      exact ⟨claim, member, fun machine absent => absurd absent (Finset.notMem_empty machine)⟩
    · have firstLatest := consistent.latest_issued (complete first firstMember)
      refine ⟨_, firstLatest.mem_issued (consistent.above some first), ?_⟩
      intro machine machineMember
      have latest := consistent.latest_issued (complete machine machineMember)
      have agreed := latest.agree consistent.key_injOn firstLatest
        (consistent.above some machine) (consistent.above some first)
      refine ⟨agreed, congrArg OwnershipClaim.target agreed, ?_⟩
      rw [OwnershipState.isLocalOwner, agreed, consistent.self machine, beq_iff_eq]
      exact eq_comm

/-- Concurrent claims of two machines, delivered crosswise: the greater origin wins. -/
theorem ownership_converges_concurrent :
    let machines : Finset PeerId := {[65], [66]}
    let actions : List Action := [.requestSwitchTo [65] [67], .requestSwitchTo [66] [65],
      .deliver [65] 1, .deliver [65] 1, .deliver [66] 0]
    ∃ winner ∈ (run machines actions).issued, ∀ machine ∈ machines,
      ((run machines actions).states machine).current = winner ∧
      ((run machines actions).states machine).owner = winner.target ∧
      (((run machines actions).states machine).isLocalOwner = true ↔
        machine = winner.target) :=
  (ownership_converges {[65], [66]} [.requestSwitchTo [65] [67], .requestSwitchTo [66] [65],
    .deliver [65] 1, .deliver [65] 1, .deliver [66] 0] (by decide)).2 (by decide) (by decide)

end Skittermouse.Ownership
