import Mathlib.Data.Prod.Lex
import Skittermouse.Core.EventTypes
import Skittermouse.Data.LatestWins

namespace Skittermouse.Core

open Skittermouse.Data

/-! The input-owner state machine. Sequence numbers are the source's 64-bit
unsigned integers, so the clock wraps where it wraps. -/

structure OwnershipClaim where
  target : PeerId
  origin : PeerId
  sequence : UInt64
deriving DecidableEq

def claimSupersedes (candidate current : OwnershipClaim) : Bool :=
  if candidate.sequence ≠ current.sequence then decide (candidate.sequence > current.sequence)
  -- Genuinely concurrent: the origin id breaks the tie.
  else decide (candidate.origin > current.origin)

structure OwnershipState where
  self : PeerId
  current : OwnershipClaim
  clock : UInt64
deriving DecidableEq

inductive ApplyResult where
  | adopted
  | superseded
deriving DecidableEq

namespace OwnershipState

def init (self : PeerId) : OwnershipState :=
  { self, current := { target := self, origin := self, sequence := 0 }, clock := 0 }

def owner (state : OwnershipState) : PeerId := state.current.target

def isLocalOwner (state : OwnershipState) : Bool := state.current.target == state.self

def applyClaim (state : OwnershipState) (claim : OwnershipClaim) : ApplyResult × OwnershipState :=
  let clock := if claim.sequence > state.clock then claim.sequence else state.clock
  if claimSupersedes claim state.current then
    (.adopted, { state with current := claim, clock })
  else (.superseded, { state with clock })

def requestSwitchTo (state : OwnershipState) (target : PeerId) : OwnershipClaim × OwnershipState :=
  let claim := { target, origin := state.self, sequence := state.clock + 1 }
  (claim, (state.applyClaim claim).2)

end OwnershipState

/-- The total order over claims: sequence first, then origin. -/
def OwnershipClaim.key (claim : OwnershipClaim) : UInt64 ×ₗ PeerId :=
  toLex (claim.sequence, claim.origin)

theorem claimSupersedes_iff {candidate current : OwnershipClaim} :
    claimSupersedes candidate current = true ↔ current.key < candidate.key := by
  unfold claimSupersedes OwnershipClaim.key
  rw [Prod.Lex.toLex_lt_toLex]
  split
  · rename_i different
    simp [Ne.symm different]
  · rename_i same
    simp [not_not.mp same]

namespace OwnershipState

variable {state : OwnershipState} {claim : OwnershipClaim} {target : PeerId}

@[simp] theorem applyClaim_self : (state.applyClaim claim).2.self = state.self := by
  unfold applyClaim
  dsimp only
  split <;> rfl

/-- Applying a claim is adopting it under the claims' order. -/
theorem applyClaim_current :
    (state.applyClaim claim).2.current = adopt OwnershipClaim.key state.current claim := by
  unfold applyClaim adopt
  dsimp only
  by_cases newer : claimSupersedes claim state.current = true
  · rw [if_pos newer, if_pos (claimSupersedes_iff.mp newer)]
  · rw [if_neg newer, if_neg fun less => newer (claimSupersedes_iff.mpr less)]

@[simp] theorem applyClaim_clock :
    (state.applyClaim claim).2.clock = max state.clock claim.sequence := by
  have clock : (state.applyClaim claim).2.clock =
      if claim.sequence > state.clock then claim.sequence else state.clock := by
    unfold applyClaim
    dsimp only
    split <;> rfl
  rw [clock]
  split
  · rename_i newer
    exact (max_eq_right newer.le).symm
  · rename_i older
    exact (max_eq_left (not_lt.mp older)).symm

@[simp] theorem requestSwitchTo_self : (state.requestSwitchTo target).2.self = state.self :=
  applyClaim_self

def Current (state : OwnershipState) : Prop := state.current.sequence ≤ state.clock

theorem init_current (self : PeerId) : (init self).Current := le_refl _

theorem Current.applyClaim (valid : state.Current) (claim : OwnershipClaim) :
    (state.applyClaim claim).2.Current := by
  unfold Current
  rw [applyClaim_clock, applyClaim_current, adopt]
  split
  · exact le_max_right _ _
  · exact valid.trans (le_max_left _ _)

theorem Current.requestSwitchTo (valid : state.Current) (target : PeerId) :
    (state.requestSwitchTo target).2.Current := valid.applyClaim _

/-- While the clock has room, a local switch is the newest claim known here
and is the one that holds afterwards. -/
theorem requestSwitchTo_current (valid : state.Current)
    (room : state.clock < UInt64.ofNat (2 ^ 64 - 1)) :
    (state.requestSwitchTo target).2.current = (state.requestSwitchTo target).1 := by
  have newer : state.current.sequence < state.clock + 1 :=
    lt_of_le_of_lt valid (lt_succ_of_ne_last room.ne)
  unfold requestSwitchTo
  rw [applyClaim_current, adopt, if_pos]
  exact Prod.Lex.toLex_lt_toLex.mpr (.inl newer)

theorem requestSwitchTo_owner (valid : state.Current)
    (room : state.clock < UInt64.ofNat (2 ^ 64 - 1)) :
    (state.requestSwitchTo target).2.owner = target := by
  rw [owner, requestSwitchTo_current valid room]
  rfl

end OwnershipState

end Skittermouse.Core
