import Mathlib.Data.Set.Function
import Skittermouse.Mesh.Books
import Skittermouse.Mesh.FailSafe

namespace Skittermouse.Mesh

open Skittermouse.Data Skittermouse.Core Skittermouse.Net Skittermouse.App

/-! # Clipboard echoes

A node and the clipboard of its machine. The OS answers every write, the node's
or the user's, with one notification that carries the text, in the order of the
writes and at any time after them.
-/

structure ClipboardWrite where
  text : Bytes
  remote : Bool
deriving DecidableEq

structure Desk (π τ : Type) [LinearOrder π] where
  host : Host π τ
  /-- The writes that are still to be notified, oldest first. -/
  pending : List ClipboardWrite
  applied : List Bytes
  written : List Bytes

inductive DeskAction (π τ : Type) [LinearOrder π] where
  | node (op : NodeOp π τ)
  | copy (text : Bytes)
  | notify

def sendsChange {π τ : Type} [LinearOrder π] (host : Host π τ) (text : Bytes) : Bool :=
  (host.node.clipboard.shouldBroadcastLocalChange text).1

section Desks

variable {π τ : Type} [LinearOrder π]

def Desk.init (π τ : Type) [LinearOrder π] (self : PeerId) : Desk π τ :=
  { host := .init π τ self, pending := [], applied := [], written := [] }

def deskStep [Transport τ] : DeskAction π τ → Desk π τ → Desk π τ
  | .node op, desk =>
      let after := nodeStep op desk.host
      let news := after.trace.take (after.trace.length - desk.host.trace.length)
      { host := after
        pending := desk.pending ++ (appliedTexts news).reverse.map fun text => ⟨text, true⟩
        applied := appliedTexts news ++ desk.applied
        written := appliedTexts news ++ desk.written }
  | .copy text, desk =>
      { desk with pending := desk.pending ++ [⟨text, false⟩], written := text :: desk.written }
  | .notify, desk => match desk.pending with
    | [] => desk
    | write :: rest =>
        { desk with host := desk.host.onLocalClipboardChange write.text, pending := rest, applied := [] }

/-- Only the OS tells the node of a change, and the texts so far have different hashes. -/
structure Honest (action : DeskAction π τ) (desk : Desk π τ) : Prop where
  alone : ∀ text, action ≠ .node (.call (.clipboardChange text))
  collisionFree : Set.InjOn ClipboardSync.hash {text | text ∈ desk.written}

def StaysQuiet (action : DeskAction π τ) (desk : Desk π τ) : Prop :=
  ∀ write rest, action = .notify → desk.pending = write :: rest → write.remote = true →
    sendsChange desk.host write.text = false

/-- A local change is sent unless a remote write of its text is still to be notified. -/
def SendsGenuine (action : DeskAction π τ) (desk : Desk π τ) : Prop :=
  ∀ write rest, action = .notify → desk.pending = write :: rest → write.remote = false →
    (∀ other ∈ rest, other.remote = true → other.text ≠ write.text) →
    sendsChange desk.host write.text = true

/-- A remote write is notified while its text is the last one applied since the
notification before. -/
def InTime (action : DeskAction π τ) (desk : Desk π τ) : Prop :=
  ∀ write rest, action = .notify → desk.pending = write :: rest → write.remote = true →
    desk.applied.head? = some write.text

/-- The guard waits for the last text applied since a notification, if any. -/
def Guards : List Bytes → ClipboardSync → Prop
  | [], clipboard => clipboard.hasPending = false
  | text :: _, clipboard => clipboard = ⟨ClipboardSync.hash text, true⟩

structure Waiting (desk : Desk π τ) : Prop where
  guards : Guards desk.applied desk.host.node.clipboard
  applied : ∀ text ∈ desk.applied, ⟨text, true⟩ ∈ desk.pending
  written : ∀ write ∈ desk.pending, write.text ∈ desk.written

theorem Guards.note {applied : List Bytes} {clipboard : ClipboardSync}
    (guards : Guards applied clipboard) (texts : List Bytes) :
    Guards (texts ++ applied) (noteTexts texts clipboard) := by
  cases texts with
  | nil => exact guards
  | cons text older => rfl

theorem Waiting.init (self : PeerId) : Waiting (Desk.init π τ self) := ⟨rfl, nofun, nofun⟩

variable {desk : Desk π τ} {action : DeskAction π τ}

theorem Waiting.sendsChange_iff (waiting : Waiting desk)
    (collisionFree : Set.InjOn ClipboardSync.hash {text | text ∈ desk.written})
    {text : Bytes} (written : text ∈ desk.written) :
    sendsChange desk.host text = false ↔ desk.applied.head? = some text := by
  have guards := waiting.guards
  unfold sendsChange ClipboardSync.shouldBroadcastLocalChange
  cases applied : desk.applied with
  | nil =>
      rw [applied] at guards
      have idle : desk.host.node.clipboard.hasPending = false := guards
      simp [idle]
  | cons last older =>
      rw [applied] at guards
      have pending : desk.host.node.clipboard = ⟨ClipboardSync.hash last, true⟩ := guards
      have noted : last ∈ desk.written :=
        waiting.written ⟨last, true⟩ (waiting.applied last (applied ▸ List.mem_cons_self))
      have same : ClipboardSync.hash text = ClipboardSync.hash last ↔ last = text := by
        constructor
        · intro hashes
          exact collisionFree noted written hashes.symm
        · rintro rfl
          rfl
      simp [pending, same]

theorem Waiting.quiet_iff (waiting : Waiting desk) (honest : Honest action desk) :
    StaysQuiet action desk ↔ InTime action desk := by
  have written : ∀ {write rest}, desk.pending = write :: rest → write.text ∈ desk.written :=
    fun queue => waiting.written _ (queue ▸ List.mem_cons_self)
  constructor
  · intro quiet write rest notify queue remote
    exact (waiting.sendsChange_iff honest.collisionFree (written queue)).mp
      (quiet write rest notify queue remote)
  · intro inTime write rest notify queue remote
    exact (waiting.sendsChange_iff honest.collisionFree (written queue)).mpr
      (inTime write rest notify queue remote)

/-- A local change is stopped only by a remote write of its text behind it. -/
theorem Waiting.sendsGenuine (waiting : Waiting desk) (honest : Honest action desk) :
    SendsGenuine action desk := by
  intro write rest notify queue own genuine
  rw [← Bool.not_eq_false]
  intro stopped
  have written := waiting.written write (queue ▸ List.mem_cons_self)
  have last := (waiting.sendsChange_iff honest.collisionFree written).mp stopped
  have pending := waiting.applied write.text (List.mem_of_mem_head? last)
  rw [queue, List.mem_cons] at pending
  -- What the guard waits for is still to be notified, so it stands behind this write.
  rcases pending with itself | behind
  · rw [← itself] at own
    contradiction
  · exact genuine _ behind rfl rfl

section Sending

variable [Transport τ]

theorem onLocalClipboardChange_heap (host : Host π τ) (text : Bytes) :
    (host.onLocalClipboardChange text).heap =
      if sendsChange host text then (host.broadcast (encodeVarMessage .clipboardUpdate text)).heap
      else host.heap := by
  by_cases sends : sendsChange host text = true
  · have sent : host.onLocalClipboardChange text = ({ host with
        node.clipboard := (host.node.clipboard.shouldBroadcastLocalChange text).2 } : Host π τ).broadcast
          (encodeVarMessage .clipboardUpdate text) := if_pos sends
    rw [sent, if_pos sends]
    rfl
  · have quiet : host.onLocalClipboardChange text = { host with
        node.clipboard := (host.node.clipboard.shouldBroadcastLocalChange text).2 } := if_neg sends
    rw [quiet, if_neg sends]

theorem onLocalClipboardChange_clipboard (host : Host π τ) (text : Bytes) :
    (host.onLocalClipboardChange text).node.clipboard =
      { host.node.clipboard with hasPending := false } := by
  simp only [Host.onLocalClipboardChange]
  split <;> rfl

theorem poll_noting (hook : OwnerHook) (host : Host π τ) (now : UInt64) :
    host.Noting (host.poll hook now) := by
  have drained := @Host.drains_keep π τ _ _ host.Noting now hook host.node.peers.entries
    (fun _ _ kept noting => noting.trans kept.clipboard)
    (fun _ _ noting => noting)
    (fun _ _ _ _ noting => noting.trans ⟨[_], rfl, rfl⟩)
    { host with node.now := now } ⟨[], rfl, rfl⟩
  obtain ⟨events, trace, clipboard⟩ := drained
  exact Host.Noting.trans ⟨events, trace, clipboard⟩ (Host.refresh_kept hook _ now).clipboard

theorem nodeStep_noting (op : NodeOp π τ) (alone : ∀ text, op ≠ .call (.clipboardChange text))
    (host : Host π τ) : host.Noting (nodeStep op host) := by
  cases op with
  | call call =>
      rcases Host.perform_kept .silent host call with ⟨priority, rfl⟩ | ⟨text, rfl⟩ | ⟨now, rfl⟩ | kept
      · exact .refl host
      · exact absurd rfl (alone text)
      · exact poll_noting .silent host now
      · exact kept.clipboard
  | addPeer id transport => exact .refl host
  | removePeer id =>
      have forgotten := (host.forgetPeer_kept id).clipboard
      exact forgotten.trans (Host.refresh_kept .silent (host.forgetPeer id) host.node.now).clipboard
  | setTimeouts timeout interval => exact .refl host
  | network heap => exact .refl host

theorem Waiting.step (waiting : Waiting desk) (honest : Honest action desk) :
    Waiting (deskStep action desk) := by
  cases action with
  | node op =>
      obtain ⟨events, trace, clipboard⟩ := nodeStep_noting op
        (fun text same => honest.alone text (congrArg DeskAction.node same)) desk.host
      have news : (nodeStep op desk.host).trace.take
          ((nodeStep op desk.host).trace.length - desk.host.trace.length) = events := by
        rw [trace]
        simp
      simp only [deskStep, news]
      refine ⟨by rw [clipboard]; exact waiting.guards.note _, fun text member => ?_,
        fun write member => ?_⟩
      · rcases List.mem_append.mp member with new | old
        · exact List.mem_append_right _ (List.mem_map_of_mem (List.mem_reverse.mpr new))
        · exact List.mem_append_left _ (waiting.applied text old)
      · rcases List.mem_append.mp member with old | new
        · exact List.mem_append_right _ (waiting.written write old)
        · obtain ⟨text, inside, rfl⟩ := List.mem_map.mp new
          exact List.mem_append_left _ (List.mem_reverse.mp inside)
  | copy text =>
      refine ⟨waiting.guards, fun other member => ?_, fun write member => ?_⟩
      · exact List.mem_append_left _ (waiting.applied other member)
      · rcases List.mem_append.mp member with old | new
        · exact List.mem_cons_of_mem _ (waiting.written write old)
        · rw [List.mem_singleton.mp new]
          exact List.mem_cons_self
  | notify =>
      cases queue : desk.pending with
      | nil => simpa only [deskStep, queue] using waiting
      | cons write rest =>
          simp only [deskStep, queue]
          refine ⟨?_, nofun, fun other member => ?_⟩
          · rw [onLocalClipboardChange_clipboard]
            rfl
          · exact waiting.written other (queue ▸ List.mem_cons_of_mem _ member)

/-- Local changes are always sent. No remote write is echoed exactly if each one
is notified before a further text is applied and with no notification between
it and its own. -/
theorem echo_free_iff {actions : List (DeskAction π τ)} (self : PeerId)
    (honest : Along deskStep Honest (.init π τ self) actions) :
    Along deskStep (fun action desk => StaysQuiet action desk ∧ SendsGenuine action desk)
      (.init π τ self) actions ↔ Along deskStep InTime (.init π τ self) actions := by
  have same : ∀ (action : DeskAction π τ) (desk : Desk π τ), Waiting desk → Honest action desk →
      ((StaysQuiet action desk ∧ SendsGenuine action desk) ↔ InTime action desk) := by
    intro action desk waiting honest
    rw [waiting.quiet_iff honest]
    exact and_iff_left (waiting.sendsGenuine honest)
  exact along_congr (fun _ _ => Waiting.step) same (.init self) honest

def updates (texts : List Bytes) : List (DeskAction Nat Wire) :=
  [.node (.addPeer [66] (some 0)),
    .node (.network (OrdMap.insert ∅ 0 ⟨0, true, texts.map (encodeVarMessage .clipboardUpdate), []⟩)),
    .node (.call (.poll 1000))]

theorem one_update_echo_free :
    Along deskStep (fun action desk => StaysQuiet action desk ∧ SendsGenuine action desk)
      (.init Nat Wire [65]) (updates [[49]] ++ [.notify, .copy [50], .notify]) := by
  have apart : ∀ first ∈ ([[50], [49]] : List Bytes), ∀ second ∈ ([[50], [49]] : List Bytes),
      ClipboardSync.hash first = ClipboardSync.hash second → first = second := by decide
  have honest : ∀ (action : DeskAction Nat Wire) (desk : Desk Nat Wire),
      (∀ text, action ≠ .node (.call (.clipboardChange text))) → desk.written ⊆ [[50], [49]] →
      Honest action desk :=
    fun _ _ alone few => ⟨alone, fun first one second other => apart first (few one) second (few other)⟩
  refine (echo_free_iff [65] ?_).mpr ?_
  · refine ⟨honest _ _ nofun ?_, honest _ _ nofun ?_, honest _ _ nofun ?_, honest _ _ nofun ?_,
      honest _ _ nofun ?_, honest _ _ nofun ?_, trivial⟩ <;> decide
  · refine ⟨nofun, nofun, nofun, ?_, nofun, ?_, trivial⟩
    · rintro write rest - ⟨⟩ -
      decide
    · rintro write rest - ⟨⟩ ⟨⟩

/-- Two updates in one poll: the echo of the first goes back to the peer. -/
theorem first_update_echoes :
    (exec deskStep (.init Nat Wire [65]) (updates [[49], [50]])).pending =
        [⟨[49], true⟩, ⟨[50], true⟩] ∧
      (exec deskStep (.init Nat Wire [65]) (updates [[49], [50]] ++ [.notify])).host.heap.find? 0 =
        some ⟨0, true, [], [encodeVarMessage .clipboardUpdate [49]]⟩ := by decide

end Sending

end Desks

end Skittermouse.Mesh
