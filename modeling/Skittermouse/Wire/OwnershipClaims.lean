import Skittermouse.Data.Buffer
import Skittermouse.Net.OwnershipCodec

namespace Skittermouse.Wire

open Skittermouse.Data Skittermouse.Core Skittermouse.Net

/-! # The ownership claim on the wire

`decodeOwnershipClaim` as it stands in the source: a position in a buffer of
hostile bytes, and a claim that is filled in as far as the decoder gets.
-/

def getStrAt (data : Bytes) (pos : Nat) : Checked (Option (Bytes × Nat)) := sizedAt data 1 pos

/-- Whether the claim is accepted, and what is in `out` afterwards. -/
def decodeOwnershipClaimInto (data : Bytes) (out : OwnershipClaim) : Checked (Bool × OwnershipClaim) := do
  match ← getStrAt data 0 with
  | none => return (false, out)
  | some (target, pos) =>
      let out := { out with target }
      match ← getStrAt data pos with
      | none => return (false, out)
      | some (origin, pos) =>
          let out := { out with origin }
          if pos + 8 > data.length then return (false, out)
          let sequence ← beAt data pos 0 8
          return (true, { out with sequence := UInt64.ofNat sequence })

/-- Two strings of at most 255 bytes and a 64-bit number. -/
def claimFormat : Format OwnershipClaim :=
  ((Format.sized (.bigEndian 1)).pair ((Format.sized (.bigEndian 1)).pair (.bigEndian 8))).retype
    (fun (target, origin, sequence) => { target, origin, sequence := UInt64.ofNat sequence })
    (fun claim => (claim.target, claim.origin, claim.sequence.toNat))
    (fun claim => by simp)
    (fun (target, origin, sequence) fits => by
      have small : sequence < 256 ^ 8 := fits.2.2
      simp only [UInt64.toNat_ofNat', Prod.mk.injEq, true_and]
      exact Nat.mod_eq_of_lt (by omega))

theorem claimFormat_fits (claim : OwnershipClaim) :
    claimFormat.Fits claim ↔ claim.target.length ≤ 255 ∧ claim.origin.length ≤ 255 := by
  have sequence := claim.sequence.toNat_lt
  simp only [claimFormat, Format.retype, Format.pair, Format.sized, Format.bigEndian]
  omega

theorem putStr_eq {text : Bytes} (short : text.length ≤ 255) :
    putStr text = (Format.sized (.bigEndian 1)).encode text := by
  have size : text.length % 256 = min text.length 255 := by omega
  simp only [putStr, Format.sized, Format.bigEndian, List.take_of_length_le short, beBytes, leBytes,
    List.reverse_singleton, List.singleton_append, size]

theorem claimFormat_encode {claim : OwnershipClaim} (fits : claimFormat.Fits claim) :
    claimFormat.encode claim = encodeOwnershipClaim claim := by
  obtain ⟨target, origin⟩ := (claimFormat_fits claim).mp fits
  rw [encodeOwnershipClaim, putStr_eq target, putStr_eq origin, List.append_assoc]
  rfl

theorem encodeOwnershipClaim_clip (claim : OwnershipClaim) :
    encodeOwnershipClaim (clipClaim claim) = encodeOwnershipClaim claim := by
  have clip (text : Bytes) : putStr (text.take 255) = putStr text := by
    rw [putStr, putStr, List.length_take, List.take_take, Nat.min_self, min_comm 255,
      min_eq_left (min_le_right _ _)]
  simp only [encodeOwnershipClaim, clipClaim, clip]

theorem clipClaim_fits (claim : OwnershipClaim) : claimFormat.Fits (clipClaim claim) := by
  simp [claimFormat_fits, clipClaim]

/-- The decoder of the source takes a claim off the front of its buffer, and
never reads behind it. -/
theorem decodeOwnershipClaimInto_decodes (out : OwnershipClaim) :
    Decodes claimFormat fun data => decodeOwnershipClaimInto data out := by
  intro data
  have target := @sizedAt_agrees data [] data 1 rfl
  simp only [decodeOwnershipClaimInto, getStrAt, claimFormat, Format.retype, Format.pair]
  rw [List.length_nil] at target
  generalize sizedAt data 1 0 = read at target ⊢
  generalize (Format.sized (Format.bigEndian 1)).take data = taken at target ⊢
  cases target with
  | none => exact ⟨false, out, rfl, .inr ⟨rfl, rfl⟩⟩
  | some target front rest split =>
      have origin := sizedAt_agrees 1 split
      simp only [checked_bind]
      generalize sizedAt data 1 front.length = read at origin ⊢
      generalize (Format.sized (Format.bigEndian 1)).take rest = taken at origin ⊢
      cases origin with
      | none => exact ⟨false, _, rfl, .inr ⟨rfl, rfl⟩⟩
      | some origin front rest split =>
          simp only [checked_bind]
          rw [Format.bigEndian_take]
          rcases read_cases split 8 with ⟨short, cut⟩ | ⟨field, left, found, number⟩
          · rw [if_pos short, cut]
            exact ⟨false, _, rfl, .inr ⟨rfl, rfl⟩⟩
          · rw [if_neg number.room, found, number.big]
            exact ⟨true, _, rfl, .inl ⟨rfl, left, rfl⟩⟩

theorem decodeOwnershipClaim_eq (data : Bytes) :
    decodeOwnershipClaim data = (claimFormat.take data).map Prod.fst := by
  have string (bytes : Bytes) : getStr bytes = (Format.sized (.bigEndian 1)).take bytes := by
    cases bytes with
    | nil => rfl
    | cons size rest =>
        have one : beValue [size] = size.toNat := by simp [beValue, leValue]
        have found : takeField 1 (size :: rest) = some ([size], rest) :=
          @takeField_append 1 [size] rest rfl
        simp only [getStr, Format.sized, Format.bigEndian, found, Option.map_some, one]
  simp only [decodeOwnershipClaim, string, claimFormat, Format.retype, Format.pair]
  cases (Format.sized (.bigEndian 1)).take data with
  | none => rfl
  | some target =>
      obtain ⟨target, rest⟩ := target
      cases found : (Format.sized (.bigEndian 1)).take rest with
      | none => simp [found]
      | some origin =>
          obtain ⟨origin, rest⟩ := origin
          simp only [found, Format.bigEndian_take]
          cases takeField 8 rest <;> rfl

/-- The claim that is decoded, from hostile bytes of any kind, is the one whose
encoding is in front of them. -/
theorem ownership_claim_exact :
    (∀ data out claim, decodeOwnershipClaimInto data out = .ok (true, claim) ↔
      claim.target.length ≤ 255 ∧ claim.origin.length ≤ 255 ∧ encodeOwnershipClaim claim <+: data) ∧
    (∀ claim front out, front <+: encodeOwnershipClaim claim → front ≠ encodeOwnershipClaim claim →
      ∃ left, decodeOwnershipClaimInto front out = .ok (false, left)) ∧
    ∀ data out, ∃ accepted left, decodeOwnershipClaimInto data out = .ok (accepted, left) := by
  refine ⟨fun data out claim => ?_, fun claim front out inside cut => ?_, fun data out => ?_⟩
  · rw [(decodeOwnershipClaimInto_decodes out).accepts_iff, ← and_assoc, ← claimFormat_fits]
    exact and_congr_right fun fits => by rw [claimFormat_encode fits]
  · have fits := clipClaim_fits claim
    rw [← encodeOwnershipClaim_clip, ← claimFormat_encode fits] at inside cut
    exact (decodeOwnershipClaimInto_decodes out).refuses_cut fits inside cut
  · exact (decodeOwnershipClaimInto_decodes out).inside data

/-- A claim of this kind loses its last byte on the way. -/
theorem clipped_claim_refused : ∃ left,
    decodeOwnershipClaimInto [1, 0x41, 1, 0x42, 0, 0, 0, 0, 0, 0, 0] ⟨[], [], 0⟩ = .ok (false, left) :=
  ownership_claim_exact.2.1 ⟨[0x41], [0x42], 7⟩ _ ⟨[], [], 0⟩ ⟨[7], by decide⟩ (by decide)

end Skittermouse.Wire
