import Skittermouse.Core.Config

namespace Skittermouse.Crypto

open Skittermouse.Data Skittermouse.Core

def base64Alphabet : Bytes :=
  textOf "ABCDEFGHIJKLMNOPQRSTUVWXYZabcdefghijklmnopqrstuvwxyz0123456789+/"

theorem base64Alphabet_length : base64Alphabet.length = 64 := by decide

def base64Letter (index : Fin 64) : UInt8 :=
  base64Alphabet.get (index.cast base64Alphabet_length.symm)

def sextet (n shift : UInt32) : Fin 64 :=
  ⟨(n >>> shift &&& 63).toNat, by
    rw [UInt32.toNat_and]
    exact Nat.lt_of_le_of_lt Nat.and_le_right (by decide)⟩

def base64Encode : Bytes → Bytes
  | first :: second :: third :: rest =>
      let n := first.toUInt32 <<< 16 ||| second.toUInt32 <<< 8 ||| third.toUInt32
      [base64Letter (sextet n 18), base64Letter (sextet n 12), base64Letter (sextet n 6),
        base64Letter (sextet n 0)] ++ base64Encode rest
  | [first] =>
      let n := first.toUInt32 <<< 16
      [base64Letter (sextet n 18), base64Letter (sextet n 12), equalsSign, equalsSign]
  | [first, second] =>
      let n := first.toUInt32 <<< 16 ||| second.toUInt32 <<< 8
      [base64Letter (sextet n 18), base64Letter (sextet n 12), base64Letter (sextet n 6), equalsSign]
  | [] => []

end Skittermouse.Crypto
