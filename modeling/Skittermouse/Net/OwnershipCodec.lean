import Skittermouse.Core.OwnershipState
import Skittermouse.Net.MessageCodec

namespace Skittermouse.Net

open Skittermouse.Data Skittermouse.Core

/-- A length byte and at most 255 bytes of the string; a longer one is cut. -/
def putStr (text : Bytes) : Bytes :=
  UInt8.ofNat (min text.length 255) :: text.take 255

def getStr : Bytes → Option (Bytes × Bytes)
  | [] => none
  | size :: rest => takeField size.toNat rest

def encodeOwnershipClaim (claim : OwnershipClaim) : Bytes :=
  putStr claim.target ++ putStr claim.origin ++ beBytes 8 claim.sequence.toNat

def decodeOwnershipClaim (data : Bytes) : Option OwnershipClaim :=
  match getStr data with
  | none => none
  | some (target, rest) => match getStr rest with
    | none => none
    | some (origin, rest) => match takeField 8 rest with
      | none => none
      | some (sequence, _) => some { target, origin, sequence := UInt64.ofNat (beValue sequence) }

/-- What is left of a claim on the wire: ids keep their first 255 bytes. -/
def clipClaim (claim : OwnershipClaim) : OwnershipClaim :=
  { claim with target := claim.target.take 255, origin := claim.origin.take 255 }

theorem clipClaim_eq {claim : OwnershipClaim} (target : claim.target.length ≤ 255)
    (origin : claim.origin.length ≤ 255) : clipClaim claim = claim := by
  simp only [clipClaim, List.take_of_length_le target, List.take_of_length_le origin]

theorem getStr_putStr (text rest : Bytes) :
    getStr (putStr text ++ rest) = some (text.take 255, rest) := by
  have size : (UInt8.ofNat (min text.length 255)).toNat = (text.take 255).length := by
    simp
    omega
  exact takeField_append rest size.symm

theorem decodeOwnershipClaim_encode (claim : OwnershipClaim) (rest : Bytes) :
    decodeOwnershipClaim (encodeOwnershipClaim claim ++ rest) = some (clipClaim claim) := by
  have sequence : beValue (beBytes 8 claim.sequence.toNat) = claim.sequence.toNat :=
    beValue_beBytes_of_lt (by have := claim.sequence.toNat_lt; omega)
  simp only [encodeOwnershipClaim, List.append_assoc, decodeOwnershipClaim, getStr_putStr,
    takeField_append rest (beBytes_length 8 claim.sequence.toNat), sequence,
    UInt64.ofNat_toNat, clipClaim]

theorem encodeOwnershipClaim_length_le (claim : OwnershipClaim) :
    (encodeOwnershipClaim claim).length ≤ 520 := by
  simp [encodeOwnershipClaim, putStr]
  omega

def claimMessage (claim : OwnershipClaim) : Bytes :=
  encodeVarMessage .switchOwner (encodeOwnershipClaim claim)

end Skittermouse.Net
