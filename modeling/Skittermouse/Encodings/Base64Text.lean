import Skittermouse.Crypto.Base64
import Skittermouse.Data.Bits

namespace Skittermouse.Encodings

open Skittermouse.Data Skittermouse.Core Skittermouse.Crypto

/-! Base64 text as the standard describes it: six bits a letter, padded to
groups of four letters. The reader below is the strict one. -/

def base64Value (letter : UInt8) : Option (Fin 64) :=
  if 65 ≤ letter ∧ letter ≤ 90 then some (Fin.ofNat 64 (letter.toNat - 65))
  else if 97 ≤ letter ∧ letter ≤ 122 then some (Fin.ofNat 64 (letter.toNat - 97 + 26))
  else if 48 ≤ letter ∧ letter ≤ 57 then some (Fin.ofNat 64 (letter.toNat - 48 + 52))
  else if letter = 43 then some 62
  else if letter = 47 then some 63
  else none

/-- Four letters are three bytes. -/
def fullQuantum (first second third fourth : UInt8) : Option Bytes := do
  let first ← base64Value first
  let second ← base64Value second
  let third ← base64Value third
  let fourth ← base64Value fourth
  some (beBytes 3 (((first.val * 64 + second) * 64 + third) * 64 + fourth))

/-- The last quantum, its fourth letter being padding. The bits that belong to
no byte are zero. -/
def paddedQuantum (first second third : UInt8) : Option Bytes := do
  let first ← base64Value first
  let second ← base64Value second
  if third = equalsSign then
    if second.val % 16 = 0 then some (beBytes 1 ((first.val * 64 + second) / 16)) else none
  else do
    let third ← base64Value third
    if third.val % 4 = 0 then some (beBytes 2 (((first.val * 64 + second) * 64 + third) / 4)) else none

def base64Decode : Bytes → Option Bytes
  | [] => some []
  | first :: second :: third :: fourth :: rest =>
      if fourth = equalsSign ∧ rest = [] then paddedQuantum first second third
      else do
        let bytes ← fullQuantum first second third fourth
        let more ← base64Decode rest
        some (bytes ++ more)
  | _ => none

theorem base64Value_letter (index : Fin 64) : base64Value (base64Letter index) = some index := by
  have all : ∀ index : Fin 64, base64Value (base64Letter index) = some index := by decide +kernel
  exact all index

theorem base64Value_eq_some {letter : UInt8} {index : Fin 64}
    (value : base64Value letter = some index) : letter = base64Letter index := by
  have all : ∀ byte : Fin 256, (base64Value (UInt8.ofNat byte.val)).map base64Letter =
      (base64Value (UInt8.ofNat byte.val)).map fun _ => UInt8.ofNat byte.val := by decide +kernel
  have same := all ⟨letter.toNat, letter.toNat_lt⟩
  rw [UInt8.ofNat_toNat, value] at same
  exact (Option.some.inj same).symm

theorem base64Letter_ne_equalsSign (index : Fin 64) : base64Letter index ≠ equalsSign := by
  intro padding
  have unread : base64Value equalsSign = none := by decide
  have value := base64Value_letter index
  rw [padding, unread] at value
  exact Option.some_ne_none index value.symm

theorem single_toNat (first : UInt8) : (first.toUInt32 <<< 16).toNat = first.toNat * 65536 := by
  have bound := first.toNat_lt
  rw [UInt32.toNat_shiftLeft, UInt8.toNat_toUInt32]
  simp only [UInt32.reduceToNat, Nat.reduceMod, Nat.shiftLeft_eq, Nat.reducePow]
  omega

theorem pair_toNat (first second : UInt8) :
    (first.toUInt32 <<< 16 ||| second.toUInt32 <<< 8).toNat =
      first.toNat * 65536 + second.toNat * 256 := by
  have bound := second.toNat_lt
  have shifted : (second.toUInt32 <<< 8).toNat = second.toNat * 256 := by
    rw [UInt32.toNat_shiftLeft, UInt8.toNat_toUInt32]
    simp only [UInt32.reduceToNat, Nat.reduceMod, Nat.shiftLeft_eq, Nat.reducePow]
    omega
  have below : second.toNat * 256 < 2 ^ 16 := by omega
  have joined := Nat.shiftLeft_add_eq_or_of_lt below first.toNat
  simp only [Nat.shiftLeft_eq, Nat.reducePow] at joined
  rw [UInt32.toNat_or, single_toNat, shifted, joined]

theorem group_toNat (first second third : UInt8) :
    (first.toUInt32 <<< 16 ||| second.toUInt32 <<< 8 ||| third.toUInt32).toNat =
      first.toNat * 65536 + second.toNat * 256 + third.toNat := by
  have joined := Nat.shiftLeft_add_eq_or_of_lt third.toNat_lt (first.toNat * 256 + second.toNat)
  simp only [Nat.shiftLeft_eq, Nat.reducePow] at joined
  rw [UInt32.toNat_or, pair_toNat, UInt8.toNat_toUInt32]
  rw [Nat.add_mul, Nat.mul_assoc] at joined
  exact joined.symm

theorem sextet_val (n : UInt32) {shift : UInt32} (small : shift.toNat < 32) :
    (sextet n shift).val = n.toNat / 2 ^ shift.toNat % 64 := by
  change (n >>> shift &&& 63).toNat = _
  rw [UInt32.toNat_and, UInt32.toNat_shiftRight, Nat.mod_eq_of_lt small, Nat.shiftRight_eq_div_pow]
  exact Nat.and_two_pow_sub_one_eq_mod _ 6

theorem sextets_val (n : UInt32) :
    (sextet n 18).val = n.toNat / 262144 % 64 ∧ (sextet n 12).val = n.toNat / 4096 % 64 ∧
      (sextet n 6).val = n.toNat / 64 % 64 ∧ (sextet n 0).val = n.toNat % 64 :=
  ⟨sextet_val n (by decide), sextet_val n (by decide), sextet_val n (by decide), by
    rw [sextet_val n (by decide)]
    exact congrArg (· % 64) (Nat.div_one _)⟩

def paddingLength (size : Nat) : Nat := (3 - size % 3) % 3

theorem paddingLength_add_three (size : Nat) : paddingLength (size + 3) = paddingLength size := by
  rw [paddingLength, paddingLength, Nat.add_mod_right]

/-- The sextets of a group are its twenty-four bits, as are its three bytes. -/
theorem bits_group {n : UInt32} {first second third : UInt8}
    (value : n.toNat = first.toNat * 65536 + second.toNat * 256 + third.toNat) :
    bitsOf 6 (sextet n 18).val ++ (bitsOf 6 (sextet n 12).val ++ (bitsOf 6 (sextet n 6).val ++
      bitsOf 6 (sextet n 0).val)) =
      bitsOf 8 first.toNat ++ (bitsOf 8 second.toNat ++ bitsOf 8 third.toNat) := by
  have secondBound := second.toNat_lt
  have thirdBound := third.toNat_lt
  obtain ⟨one, two, three, four⟩ := sextets_val n
  have letters : bitsOf 24 n.toNat = bitsOf 6 (sextet n 18).val ++ (bitsOf 6 (sextet n 12).val ++
      (bitsOf 6 (sextet n 6).val ++ bitsOf 6 (sextet n 0).val)) := by
    rw [one, two, three, four, bitsOf_add 6 18, bitsOf_add 6 12, bitsOf_add 6 6]
    simp only [← bitsOf_mod 6, Nat.reducePow, Nat.mod_mod]
  have bytes : bitsOf 24 n.toNat =
      bitsOf 8 first.toNat ++ (bitsOf 8 second.toNat ++ bitsOf 8 third.toNat) := by
    have high : n.toNat / 2 ^ 16 = first.toNat := by omega
    have middle : n.toNat / 2 ^ 8 % 2 ^ 8 = second.toNat % 2 ^ 8 := by omega
    have low : n.toNat % 2 ^ 8 = third.toNat % 2 ^ 8 := by omega
    rw [bitsOf_add 8 16, bitsOf_add 8 8, high, bitsOf_eq_of_mod middle, bitsOf_eq_of_mod low]
  exact letters.symm.trans bytes

theorem bits_pair {n : UInt32} {first second : UInt8}
    (value : n.toNat = first.toNat * 65536 + second.toNat * 256) :
    bitsOf 6 (sextet n 18).val ++ (bitsOf 6 (sextet n 12).val ++ bitsOf 6 (sextet n 6).val) =
      bitsOf 8 first.toNat ++ (bitsOf 8 second.toNat ++ List.replicate 2 false) := by
  have group := @bits_group n first second 0 (by rw [value, UInt8.toNat_zero, Nat.add_zero])
  have unused : (sextet n 0).val = 0 := by
    rw [(sextets_val n).2.2.2]
    omega
  have zeros : bitsOf 8 (UInt8.toNat 0) = List.replicate 2 false ++ bitsOf 6 0 := rfl
  rw [unused, zeros] at group
  simp only [← List.append_assoc] at group ⊢
  exact List.append_cancel_right group

theorem bits_single {n : UInt32} {first : UInt8} (value : n.toNat = first.toNat * 65536) :
    bitsOf 6 (sextet n 18).val ++ bitsOf 6 (sextet n 12).val =
      bitsOf 8 first.toNat ++ List.replicate 4 false := by
  have pair := @bits_pair n first 0 (by rw [value, UInt8.toNat_zero, Nat.zero_mul, Nat.add_zero])
  have unused : (sextet n 6).val = 0 := by
    rw [(sextets_val n).2.2.1]
    omega
  have zeros : bitsOf 8 (UInt8.toNat 0) ++ List.replicate 2 false =
      List.replicate 4 false ++ bitsOf 6 0 := rfl
  rw [unused, zeros] at pair
  simp only [← List.append_assoc] at pair ⊢
  exact List.append_cancel_right pair

/-- The letters carry the bits of the bytes, filled up with zeros to whole
letters. -/
theorem base64Encode_sextets (data : Bytes) : ∃ sextets : List (Fin 64),
    base64Encode data = sextets.map base64Letter ++
      List.replicate (paddingLength data.length) equalsSign ∧
    sextets.flatMap (fun index => bitsOf 6 index.val) =
      data.flatMap (fun byte => bitsOf 8 byte.toNat) ++
        List.replicate (2 * paddingLength data.length) false := by
  fun_induction base64Encode data with
  | case1 first second third rest n ih =>
      obtain ⟨sextets, text, bits⟩ := ih
      have padding : paddingLength (first :: second :: third :: rest).length =
          paddingLength rest.length := paddingLength_add_three rest.length
      rw [padding]
      have group : n.toNat = first.toNat * 65536 + second.toNat * 256 + third.toNat :=
        group_toNat first second third
      refine ⟨sextet n 18 :: sextet n 12 :: sextet n 6 :: sextet n 0 :: sextets, ?_, ?_⟩
      · simp [text]
      · have front := congrArg (· ++ sextets.flatMap fun index => bitsOf 6 index.val) (bits_group group)
        simp only [bits, List.append_assoc] at front
        simpa [bits] using front
  | case2 first n =>
      have group : n.toNat = first.toNat * 65536 := single_toNat first
      refine ⟨[sextet n 18, sextet n 12], rfl, ?_⟩
      simpa [paddingLength] using bits_single group
  | case3 first second n =>
      have group : n.toNat = first.toNat * 65536 + second.toNat * 256 := pair_toNat first second
      refine ⟨[sextet n 18, sextet n 12, sextet n 6], rfl, ?_⟩
      simpa [paddingLength] using bits_pair group
  | case4 => exact ⟨[], rfl, rfl⟩

theorem beValue_one (first : UInt8) : beValue [first] = first.toNat := by
  simp [beValue, leValue]

theorem beValue_two (first second : UInt8) :
    beValue [first, second] = first.toNat * 256 + second.toNat := by
  rw [beValue_cons, beValue_one, List.length_singleton, Nat.pow_one]

theorem beValue_three (first second third : UInt8) :
    beValue [first, second, third] = first.toNat * 65536 + second.toNat * 256 + third.toNat := by
  rw [beValue_cons, beValue_two, Nat.add_assoc]
  simp only [List.length_cons, List.length_nil, Nat.reduceAdd, Nat.reducePow]

theorem fullQuantum_group {n : UInt32} {first second third : UInt8}
    (value : n.toNat = first.toNat * 65536 + second.toNat * 256 + third.toNat) :
    fullQuantum (base64Letter (sextet n 18)) (base64Letter (sextet n 12))
      (base64Letter (sextet n 6)) (base64Letter (sextet n 0)) = some [first, second, third] := by
  have firstBound := first.toNat_lt
  have secondBound := second.toNat_lt
  have thirdBound := third.toNat_lt
  obtain ⟨one, two, three, four⟩ := sextets_val n
  have joined : (((sextet n 18).val * 64 + (sextet n 12).val) * 64 + (sextet n 6).val) * 64 +
      (sextet n 0).val = beValue [first, second, third] := by
    rw [one, two, three, four, beValue_three]
    omega
  simp only [fullQuantum, base64Value_letter, Option.bind_eq_bind, Option.bind_some, joined]
  exact congrArg some (beBytes_beValue [first, second, third])

theorem paddedQuantum_pair {n : UInt32} {first second : UInt8}
    (value : n.toNat = first.toNat * 65536 + second.toNat * 256) :
    paddedQuantum (base64Letter (sextet n 18)) (base64Letter (sextet n 12))
      (base64Letter (sextet n 6)) = some [first, second] := by
  have firstBound := first.toNat_lt
  have secondBound := second.toNat_lt
  obtain ⟨one, two, three, _⟩ := sextets_val n
  have unused : (sextet n 6).val % 4 = 0 := by omega
  have joined : (((sextet n 18).val * 64 + (sextet n 12).val) * 64 + (sextet n 6).val) / 4 =
      beValue [first, second] := by
    rw [one, two, three, beValue_two]
    omega
  simp only [paddedQuantum, base64Value_letter, Option.bind_eq_bind, Option.bind_some,
    if_neg (base64Letter_ne_equalsSign _), if_pos unused, joined]
  exact congrArg some (beBytes_beValue [first, second])

theorem paddedQuantum_single {n : UInt32} {first : UInt8} (value : n.toNat = first.toNat * 65536) :
    paddedQuantum (base64Letter (sextet n 18)) (base64Letter (sextet n 12)) equalsSign =
      some [first] := by
  have firstBound := first.toNat_lt
  obtain ⟨one, two, _⟩ := sextets_val n
  have unused : (sextet n 12).val % 16 = 0 := by omega
  have joined : ((sextet n 18).val * 64 + (sextet n 12).val) / 16 = beValue [first] := by
    rw [one, two, beValue_one]
    omega
  simp only [paddedQuantum, base64Value_letter, Option.bind_eq_bind, Option.bind_some, if_true,
    if_pos unused, joined]
  exact congrArg some (beBytes_beValue [first])

theorem base64Decode_encode (data : Bytes) : base64Decode (base64Encode data) = some data := by
  fun_induction base64Encode data with
  | case1 first second third rest n ih =>
      have group : n.toNat = first.toNat * 65536 + second.toNat * 256 + third.toNat :=
        group_toNat first second third
      have unpadded : ¬(base64Letter (sextet n 0) = equalsSign ∧ base64Encode rest = []) :=
        fun padded => base64Letter_ne_equalsSign _ padded.1
      simp [base64Decode, unpadded, fullQuantum_group group, ih]
  | case2 first n =>
      have group : n.toNat = first.toNat * 65536 := single_toNat first
      simp [base64Decode, paddedQuantum_single group]
  | case3 first second n =>
      have group : n.toNat = first.toNat * 65536 + second.toNat * 256 := pair_toNat first second
      simp [base64Decode, paddedQuantum_pair group]
  | case4 => rfl

theorem sextets_of_value {n : UInt32} {first second third fourth : Fin 64}
    (value : n.toNat = ((first.val * 64 + second) * 64 + third) * 64 + fourth) :
    sextet n 18 = first ∧ sextet n 12 = second ∧ sextet n 6 = third ∧ sextet n 0 = fourth := by
  obtain ⟨one, two, three, four⟩ := sextets_val n
  refine ⟨Fin.ext ?_, Fin.ext ?_, Fin.ext ?_, Fin.ext ?_⟩
  · rw [one]
    omega
  · rw [two]
    omega
  · rw [three]
    omega
  · rw [four]
    omega

theorem fullQuantum_sound {first second third fourth : UInt8} {bytes : Bytes}
    (read : fullQuantum first second third fourth = some bytes) (more : Bytes) :
    base64Encode (bytes ++ more) = [first, second, third, fourth] ++ base64Encode more := by
  simp only [fullQuantum, Option.bind_eq_bind, Option.bind_eq_some_iff, Option.some.injEq] at read
  obtain ⟨one, oneValue, two, twoValue, three, threeValue, four, fourValue, eq⟩ := read
  rw [base64Value_eq_some oneValue, base64Value_eq_some twoValue, base64Value_eq_some threeValue,
    base64Value_eq_some fourValue]
  have size : bytes.length = 3 := by rw [← eq, beBytes_length]
  obtain ⟨high, middle, low, rfl⟩ := List.length_eq_three.mp size
  have whole := congrArg beValue eq
  rw [beValue_beBytes_of_lt (by omega), beValue_three] at whole
  obtain ⟨isOne, isTwo, isThree, isFour⟩ :=
    sextets_of_value ((group_toNat high middle low).trans whole.symm)
  simp only [List.cons_append, List.nil_append, base64Encode, isOne, isTwo, isThree, isFour]

theorem paddedQuantum_sound {first second third : UInt8} {bytes : Bytes}
    (read : paddedQuantum first second third = some bytes) :
    base64Encode bytes = [first, second, third, equalsSign] := by
  simp only [paddedQuantum, Option.bind_eq_bind, Option.bind_eq_some_iff] at read
  obtain ⟨one, oneValue, two, twoValue, read⟩ := read
  rw [base64Value_eq_some oneValue, base64Value_eq_some twoValue]
  split at read
  case isTrue padding =>
    split at read
    case isFalse used => contradiction
    case isTrue unused =>
      have size : bytes.length = 1 := by rw [← Option.some.inj read, beBytes_length]
      obtain ⟨byte, rfl⟩ := List.length_eq_one_iff.mp size
      have whole := congrArg beValue (Option.some.inj read)
      rw [beValue_beBytes_of_lt (by omega), beValue_one] at whole
      have value : (byte.toUInt32 <<< 16).toNat =
          ((one.val * 64 + two) * 64 + (0 : Fin 64)) * 64 + (0 : Fin 64) := by
        rw [single_toNat, ← whole, Fin.val_zero]
        omega
      obtain ⟨isOne, isTwo, -, -⟩ := sextets_of_value value
      rw [base64Encode, padding, isOne, isTwo]
  case isFalse letter =>
    simp only [Option.bind_eq_some_iff] at read
    obtain ⟨three, threeValue, read⟩ := read
    rw [base64Value_eq_some threeValue]
    split at read
    case isFalse used => contradiction
    case isTrue unused =>
      have size : bytes.length = 2 := by rw [← Option.some.inj read, beBytes_length]
      obtain ⟨high, low, rfl⟩ := List.length_eq_two.mp size
      have whole := congrArg beValue (Option.some.inj read)
      rw [beValue_beBytes_of_lt (by omega), beValue_two] at whole
      have value : (high.toUInt32 <<< 16 ||| low.toUInt32 <<< 8).toNat =
          ((one.val * 64 + two) * 64 + three) * 64 + (0 : Fin 64) := by
        rw [pair_toNat, Fin.val_zero]
        omega
      obtain ⟨isOne, isTwo, isThree, -⟩ := sextets_of_value value
      rw [base64Encode, isOne, isTwo, isThree]

theorem base64Decode_sound {text data : Bytes} (read : base64Decode text = some data) :
    base64Encode data = text := by
  fun_induction base64Decode text generalizing data with
  | case1 =>
      rw [← Option.some.inj read]
      rfl
  | case2 first second third fourth rest last =>
      rw [paddedQuantum_sound read, last.1, last.2]
  | case3 first second third fourth rest inner ih =>
      simp only [Option.bind_eq_bind, Option.bind_eq_some_iff, Option.some.injEq] at read
      obtain ⟨bytes, front, more, later, eq⟩ := read
      rw [← eq, fullQuantum_sound front, ih later]
      rfl
  | case4 => contradiction

theorem base64Decode_iff {text data : Bytes} :
    base64Decode text = some data ↔ text = base64Encode data := by
  constructor
  · intro read
    exact (base64Decode_sound read).symm
  · rintro rfl
    exact base64Decode_encode data

theorem base64Encode_injective {data other : Bytes} (same : base64Encode other = base64Encode data) :
    other = data := by
  have read := base64Decode_encode other
  rw [same, base64Decode_encode data] at read
  exact (Option.some.inj read).symm

theorem base64Encode_length (data : Bytes) :
    (base64Encode data).length = 4 * ((data.length + 2) / 3) := by
  fun_induction base64Encode data with
  | case1 first second third rest n ih =>
      simp only [List.length_append, List.length_cons, List.length_nil, ih]
      omega
  | case2 first n => simp
  | case3 first second n => simp
  | case4 => rfl

/-- Base64 text of any byte string: its length, its letters with the padding
after them, the bits that the letters carry, and the way back. -/
theorem base64Encode_standard (data : Bytes) :
    (base64Encode data).length = 4 * ((data.length + 2) / 3) ∧
      (∃ sextets : List (Fin 64),
        base64Encode data = sextets.map base64Letter ++
          List.replicate (paddingLength data.length) equalsSign ∧
        equalsSign ∉ sextets.map base64Letter ∧
        sextets.flatMap (fun index => bitsOf 6 index.val) =
          data.flatMap (fun byte => bitsOf 8 byte.toNat) ++
            List.replicate (2 * paddingLength data.length) false) ∧
      (∀ text, base64Decode text = some data ↔ text = base64Encode data) ∧
      ∀ other, base64Encode other = base64Encode data → other = data := by
  obtain ⟨sextets, text, bits⟩ := base64Encode_sextets data
  have unpadded : equalsSign ∉ sextets.map base64Letter := by
    intro member
    obtain ⟨index, -, padding⟩ := List.mem_map.mp member
    exact base64Letter_ne_equalsSign index padding
  exact ⟨base64Encode_length data, ⟨sextets, text, unpadded, bits⟩, fun _ => base64Decode_iff,
    fun _ => base64Encode_injective⟩

example : base64Encode (textOf "foob") = textOf "Zm9vYg==" := by decide +kernel

end Skittermouse.Encodings
