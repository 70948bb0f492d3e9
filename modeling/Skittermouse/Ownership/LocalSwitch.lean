import Skittermouse.Data.Exec
import Skittermouse.Net.OwnershipCodec

namespace Skittermouse.Ownership

open Skittermouse.Data Skittermouse.Core Skittermouse.Net

/-! # Switching locally

One machine's state hears claims off the wire and is asked to switch. The wire
is any bytes at all, so every 64-bit sequence number can arrive.
-/

structure Logged where
  state : OwnershipState
  seen : List OwnershipClaim
deriving DecidableEq

inductive Turn where
  | hear (data : Bytes)
  | requestSwitchTo (target : PeerId)
deriving DecidableEq

def Logged.init (self : PeerId) : Logged := ⟨.init self, [(OwnershipState.init self).current]⟩

def turnStep : Turn → Logged → Logged
  | .hear data, logged => match decodeOwnershipClaim data with
    | none => logged
    | some claim => ⟨(logged.state.applyClaim claim).2, claim :: logged.seen⟩
  | .requestSwitchTo target, logged =>
      let (claim, state) := logged.state.requestSwitchTo target
      ⟨state, claim :: logged.seen⟩

def taken (self : PeerId) (turns : List Turn) : Logged :=
  exec turnStep (.init self) turns

/-- A switch made now holds here and supersedes everything seen before it. -/
def SwitchWins (logged : Logged) (target : PeerId) : Prop :=
  (logged.state.requestSwitchTo target).2.owner = target ∧
    ∀ earlier ∈ logged.seen,
      claimSupersedes (logged.state.requestSwitchTo target).1 earlier = true

instance (logged : Logged) (target : PeerId) : Decidable (SwitchWins logged target) :=
  inferInstanceAs (Decidable (_ ∧ _))

/-- The clock is the greatest sequence number seen. -/
structure Clocked (logged : Logged) : Prop where
  bound : ∀ claim ∈ logged.seen, claim.sequence ≤ logged.state.clock
  reached : ∃ claim ∈ logged.seen, claim.sequence = logged.state.clock
  current : logged.state.Current

variable {logged : Logged} {self target : PeerId}

theorem Clocked.init (self : PeerId) : Clocked (.init self) where
  bound := by simp [Logged.init, OwnershipState.init]
  reached := ⟨_, List.mem_cons_self, rfl⟩
  current := OwnershipState.init_current self

theorem Clocked.apply (clocked : Clocked logged) (claim : OwnershipClaim) :
    Clocked ⟨(logged.state.applyClaim claim).2, claim :: logged.seen⟩ where
  bound := by
    intro other member
    rw [OwnershipState.applyClaim_clock]
    rcases List.mem_cons.mp member with rfl | earlier
    · exact le_max_right _ _
    · exact (clocked.bound other earlier).trans (le_max_left _ _)
  reached := by
    rw [OwnershipState.applyClaim_clock]
    rcases le_total logged.state.clock claim.sequence with newer | older
    · exact ⟨claim, List.mem_cons_self, (max_eq_right newer).symm⟩
    · obtain ⟨other, member, clock⟩ := clocked.reached
      exact ⟨other, List.mem_cons_of_mem _ member, clock.trans (max_eq_left older).symm⟩
  current := clocked.current.applyClaim claim

theorem Clocked.step (clocked : Clocked logged) (turn : Turn) :
    Clocked (turnStep turn logged) := by
  cases turn with
  | hear data =>
      rw [turnStep]
      split
      · exact clocked
      · exact clocked.apply _
  | requestSwitchTo target => exact clocked.apply _

theorem Clocked.run (self : PeerId) (turns : List Turn) : Clocked (taken self turns) := by
  have preserved (turn : Turn) (logged : Logged) (clocked : Clocked logged) :
      Clocked (turnStep turn logged) := clocked.step turn
  exact exec_preserves preserved (Clocked.init self) turns

theorem Clocked.wins (clocked : Clocked logged)
    (room : logged.state.clock < UInt64.ofNat (2 ^ 64 - 1)) : SwitchWins logged target := by
  refine ⟨OwnershipState.requestSwitchTo_owner clocked.current room, ?_⟩
  intro earlier member
  have newer : earlier.sequence < logged.state.clock + 1 :=
    lt_of_le_of_lt (clocked.bound earlier member) (lt_succ_of_ne_last room.ne)
  exact claimSupersedes_iff.mpr (Prod.Lex.toLex_lt_toLex.mpr (.inl newer))

/-- From the last clock value the next claim is number zero, older than what
moved the clock there. -/
theorem Clocked.loses (clocked : Clocked logged)
    (last : logged.state.clock = UInt64.ofNat (2 ^ 64 - 1)) : ¬ SwitchWins logged target := by
  rintro ⟨_, supersedes⟩
  obtain ⟨claim, member, clock⟩ := clocked.reached
  have newer : claim.key < (logged.state.requestSwitchTo target).1.key :=
    claimSupersedes_iff.mp (supersedes claim member)
  rcases Prod.Lex.toLex_lt_toLex.mp newer with less | ⟨same, _⟩
  · change claim.sequence < logged.state.clock + 1 at less
    rw [clock, last] at less
    exact absurd less (by decide)
  · change claim.sequence = logged.state.clock + 1 at same
    rw [clock, last] at same
    exact absurd same (by decide)

/-- A local switch wins exactly while no claim seen so far carries the last
sequence number. -/
theorem local_switch_wins_iff (self target : PeerId) (turns : List Turn) :
    SwitchWins (taken self turns) target ↔
      ∀ earlier ∈ (taken self turns).seen, earlier.sequence ≠ UInt64.ofNat (2 ^ 64 - 1) := by
  have clocked := Clocked.run self turns
  constructor
  · intro wins earlier member top
    refine clocked.loses (le_antisymm ?_ (top ▸ clocked.bound earlier member)) wins
    exact UInt64.le_iff_toNat_le.mpr (Nat.le_of_lt_succ (UInt64.toNat_lt _))
  · intro below
    obtain ⟨claim, member, clock⟩ := clocked.reached
    refine clocked.wins (lt_of_le_of_ne ?_ (clock ▸ below claim member))
    exact UInt64.le_iff_toNat_le.mpr (Nat.le_of_lt_succ (UInt64.toNat_lt _))

/-- After one claim with the last sequence number a machine can no longer take
the input back. -/
theorem last_claim_blocks_switch :
    ¬ SwitchWins (taken [1] [.hear (encodeOwnershipClaim ⟨[2], [2], UInt64.ofNat (2 ^ 64 - 1)⟩)]) [1] := by
  decide

end Skittermouse.Ownership
