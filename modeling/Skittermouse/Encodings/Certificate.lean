import Skittermouse.Crypto.X509SelfSigned
import Skittermouse.Data.Der

namespace Skittermouse.Encodings

open Skittermouse.Data Skittermouse.Core Skittermouse.Crypto

/-! The self-signed certificate, read back by a strict reader. -/

theorem leBytes_width {size : Nat} (nonzero : size ≠ 0) :
    leBytes (lengthWidth size) size = UInt8.ofNat (size % 256) ::
      if size / 256 = 0 then [] else leBytes (lengthWidth (size / 256)) (size / 256) := by
  by_cases last : size / 256 = 0
  · have one : lengthWidth size = 0 + 1 := lengthWidth_eq (by omega) (by omega)
    rw [if_pos last, one, leBytes, leBytes]
  · rw [if_neg last, lengthWidth_div last, leBytes]

theorem lowBytes_eq {room : Nat} {n : UInt64} (fits : n.toNat < 256 ^ room) :
    lowBytes room n = if n.toNat = 0 then [] else leBytes (lengthWidth n.toNat) n.toNat := by
  induction room generalizing n with
  | zero =>
      have zero : n.toNat = 0 := by omega
      rw [if_pos zero, lowBytes]
  | succ room ih =>
      have zero_iff : n = 0 ↔ n.toNat = 0 := UInt64.toNat_inj.symm
      by_cases zero : n.toNat = 0
      · rw [lowBytes, if_pos (zero_iff.mpr zero), if_pos zero]
      · have shifted : (n >>> 8).toNat = n.toNat / 256 := by
          rw [UInt64.toNat_shiftRight]
          exact Nat.shiftRight_eq_div_pow _ 8
        have low : (n &&& 0xFF).toUInt8 = UInt8.ofNat (n.toNat % 256) := by
          apply UInt8.toNat_inj.mp
          rw [UInt64.toNat_toUInt8, UInt64.toNat_and, UInt8.toNat_ofNat']
          exact congrArg (· % 256) (Nat.and_two_pow_sub_one_eq_mod _ 8)
        have rest := @ih (n >>> 8) (by rw [shifted]; rw [Nat.pow_succ] at fits; omega)
        rw [lowBytes, if_neg (mt zero_iff.mp zero), if_neg zero, leBytes_width zero, low, rest, shifted]

theorem marker_eq {count : Nat} (small : count < 128) :
    0x80 ||| UInt8.ofNat count = UInt8.ofNat (128 + count) := by
  have joined := Nat.two_pow_add_eq_or_of_lt (i := 7) small 1
  apply UInt8.toNat_inj.mp
  rw [UInt8.toNat_or, UInt8.toNat_ofNat', UInt8.toNat_ofNat', Nat.mod_eq_of_lt (by omega),
    Nat.mod_eq_of_lt (by omega)]
  exact joined.symm

theorem putLen_eq (out : Bytes) (n : UInt64) : putLen out n = out ++ lengthBytes n.toNat := by
  have limit : n < 0x80 ↔ n.toNat < 128 := UInt64.lt_iff_toNat_lt
  rw [putLen, lengthBytes]
  by_cases short : n.toNat < 128
  · have byte : n.toUInt8 = UInt8.ofNat n.toNat := rfl
    rw [if_pos (limit.mpr short), if_pos short, byte]
  · have tmp := @lowBytes_eq 8 n n.toNat_lt
    rw [if_neg (by omega)] at tmp
    have count : lengthWidth n.toNat ≤ 8 := lengthWidth_le (by omega) n.toNat_lt
    rw [if_neg (mt limit.mp short), if_neg short, tmp]
    simp only [leBytes_length, marker_eq (Nat.lt_of_le_of_lt count (by decide : 8 < 128))]
    rfl

theorem lengthBytes_length_le {size : Nat} (small : size < 2 ^ 64) :
    (lengthBytes size).length ≤ 9 := by
  rw [lengthBytes]
  split
  case isTrue => exact Nat.le_add_left 1 8
  case isFalse long =>
    have width : lengthWidth size ≤ 8 := lengthWidth_le (by omega) small
    rw [List.length_cons, beBytes_length]
    omega

theorem element_length_le {id : Tag × Bool} {content : Bytes} (small : content.length < 2 ^ 64) :
    (derElement.encode (id, content)).length ≤ content.length + 10 := by
  have header := lengthBytes_length_le small
  rw [derElement_encode, List.length_cons, List.length_append]
  omega

theorem tlv_eq {content : Bytes} (tag : Tag) (constructed : Bool) (small : content.length < 2 ^ 64) :
    tlv (tag.identifier constructed) content = derElement.encode ((tag, constructed), content) := by
  rw [tlv, putLen_eq, UInt64.toNat_ofNat_of_lt' small, derElement_encode, List.append_assoc]
  rfl

theorem concat_eq (parts : List Bytes) : concat parts = parts.flatten := by
  have joined : ∀ out : Bytes, parts.foldl (· ++ ·) out = out ++ parts.flatten := by
    induction parts with
    | nil => simp
    | cons part parts ih => simp [ih]
  exact joined []

theorem concat_encode (items : List Der) : concat (items.map Der.encode) = encodeItems items := by
  rw [concat_eq]
  induction items with
  | nil => rfl
  | cons item items ih => rw [List.map_cons, List.flatten_cons, ih, encodeItems]

/-- A nonnegative number in its shortest form: a zero in front only where the
next byte would otherwise make it negative. -/
def ShortestInteger (content : Bytes) : Prop :=
  ∃ first rest, content = first :: rest ∧ first.toNat < 128 ∧
    ∀ next more, first = 0 → rest = next :: more → 128 ≤ next.toNat

theorem high_bit (byte : UInt8) : byte &&& 0x80 ≠ 0 ↔ 128 ≤ byte.toNat := by
  have all : ∀ byte : Fin 256, UInt8.ofNat byte.val &&& 0x80 ≠ 0 ↔ 128 ≤ byte.val := by
    decide +kernel
  have this := all ⟨byte.toNat, byte.toNat_lt⟩
  rwa [UInt8.ofNat_toNat] at this

theorem beValue_zero (bytes : Bytes) : beValue (0 :: bytes) = beValue bytes := by
  rw [beValue_cons]
  simp

theorem stripZeros_value (be : Bytes) : beValue (stripZeros be) = beValue be := by
  fun_induction stripZeros be with
  | case1 second rest ih => rw [ih, beValue_zero]
  | case2 => rfl
  | case3 => rfl

theorem stripZeros_head {be rest : Bytes} {second : UInt8} :
    stripZeros be ≠ 0 :: second :: rest := by
  fun_induction stripZeros be with
  | case1 _ _ ih => exact ih
  | case2 first _ _ nonzero => exact fun same => nonzero (List.cons.inj same).1
  | case3 bytes short => exact fun same => short 0 second rest same

/-- An integer is written in its shortest form, whatever zeros it came with. -/
theorem integerFromBE_shortest (be : Bytes) :
    ∃ v, integerFromBE be = tlv 0x02 v ∧ beValue v = beValue be ∧ ShortestInteger v := by
  rw [integerFromBE]
  refine ⟨_, rfl, ?_⟩
  cases stripped : stripZeros be with
  | nil =>
      have value := stripZeros_value be
      rw [stripped] at value
      refine ⟨(beValue_zero []).trans value, 0, [], rfl, by decide, ?_⟩
      intro next more _ same
      exact nomatch same
  | cons first rest =>
      have value := stripZeros_value be
      rw [stripped] at value
      simp only [reduceCtorEq, if_false, List.headD_cons, high_bit]
      split
      case isTrue negative =>
        exact ⟨(beValue_zero _).trans value, 0, first :: rest, rfl, by decide, by
          rintro next more - same
          rwa [← (List.cons.inj same).1]⟩
      case isFalse positive =>
        refine ⟨value, first, rest, rfl, by omega, ?_⟩
        rintro next more rfl rfl
        exact absurd stripped stripZeros_head

def universal (number : Fin 31) : Tag := ⟨0, number⟩

def sequenceOf (items : List Der) : Der := .constructed (universal 16) items

def bitString (content : Bytes) : Der := .primitive (universal 3) content

def objectIdentifier (content : Bytes) : Der := .primitive (universal 6) content

def ecdsaWithSha256 : Der := sequenceOf [objectIdentifier [42, 134, 72, 206, 61, 4, 3, 2]]

def versionItem : Der := .constructed ⟨2, 0⟩ [.primitive (universal 2) [2]]

def serialItem : Der := .primitive (universal 2) [1]

def nameItem : Der :=
  sequenceOf [.constructed (universal 17) [sequenceOf [objectIdentifier [85, 4, 3],
    .primitive (universal 12) (textOf "Skittermouse")]]]

def validityItem (notBefore notAfter : Bytes) : Der :=
  sequenceOf [.primitive (universal 23) notBefore, .primitive (universal 23) notAfter]

def keyAlgorithmItem : Der :=
  sequenceOf [objectIdentifier [42, 134, 72, 206, 61, 2, 1],
    objectIdentifier [42, 134, 72, 206, 61, 3, 1, 7]]

def keyItem (publicPoint : Bytes) : Der := sequenceOf [keyAlgorithmItem, bitString (0 :: publicPoint)]

theorem sequence_encode {items : List Der} {parts : List Bytes} {bound : Nat}
    (same : parts = items.map Der.encode) (size : (encodeItems items).length ≤ bound)
    (small : bound < 2 ^ 64) :
    tlv 0x30 (concat parts) = (sequenceOf items).encode ∧
      (sequenceOf items).encode.length ≤ bound + 10 := by
  have fits : (encodeItems items).length < 2 ^ 64 := Nat.lt_of_le_of_lt size small
  have header := @element_length_le (universal 16, true) (encodeItems items) fits
  rw [same, concat_encode]
  exact ⟨tlv_eq (universal 16) true fits, header.trans (Nat.add_le_add_right size 10)⟩

theorem tlv_bitString {content : Bytes} (small : content.length < 2 ^ 64) :
    tlv 0x03 content = (bitString content).encode := tlv_eq (universal 3) false small

theorem ecdsaSha256_encode : ecdsaSha256 = ecdsaWithSha256.encode := by decide +kernel

theorem version_encode : version = versionItem.encode := by decide +kernel

theorem serial_encode : serial = serialItem.encode := by decide +kernel

theorem name_encode : name = nameItem.encode := by decide +kernel

theorem ecAlg_encode : ecAlg = keyAlgorithmItem.encode := by decide +kernel

theorem parts_length : versionItem.encode.length = 5 ∧ serialItem.encode.length = 3 ∧
    ecdsaWithSha256.encode.length = 12 ∧ nameItem.encode.length = 25 ∧
    keyAlgorithmItem.encode.length = 21 := by decide +kernel

theorem validity_encode {notBefore notAfter : Bytes} (beforeSize : notBefore.length = 13)
    (afterSize : notAfter.length = 13) :
    tlv 0x30 (concat [tlv 0x17 notBefore, tlv 0x17 notAfter]) =
        (validityItem notBefore notAfter).encode ∧
      (validityItem notBefore notAfter).encode.length ≤ 46 + 10 := by
  have before : tlv 0x17 notBefore = (Der.primitive (universal 23) notBefore).encode :=
    tlv_eq (universal 23) false (by omega)
  have after : tlv 0x17 notAfter = (Der.primitive (universal 23) notAfter).encode :=
    tlv_eq (universal 23) false (by omega)
  have beforeLength : (Der.primitive (universal 23) notBefore).encode.length ≤ notBefore.length + 10 :=
    element_length_le (by omega)
  have afterLength : (Der.primitive (universal 23) notAfter).encode.length ≤ notAfter.length + 10 :=
    element_length_le (by omega)
  apply sequence_encode
  · rw [before, after]
    rfl
  · simp only [encodeItems, List.length_append, List.length_nil]
    omega
  · decide

theorem key_encode {publicPoint : Bytes} (size : publicPoint.length = 65) :
    tlv 0x30 (concat [ecAlg, tlv 0x03 (0x00 :: publicPoint)]) = (keyItem publicPoint).encode ∧
      (keyItem publicPoint).encode.length ≤ 97 + 10 := by
  obtain ⟨-, -, -, -, algorithm⟩ := parts_length
  have content : (0x00 :: publicPoint).length = 66 := by rw [List.length_cons, size]
  have bitsLength : (bitString (0x00 :: publicPoint)).encode.length ≤ (0x00 :: publicPoint).length + 10 :=
    element_length_le (by omega)
  apply sequence_encode
  · rw [ecAlg_encode, tlv_bitString (by omega)]
    rfl
  · simp only [encodeItems, List.length_append, List.length_nil]
    omega
  · decide

/-- What is signed: the issuer and the subject are one name. -/
def tbsItem (publicPoint notBefore notAfter : Bytes) : Der :=
  sequenceOf [versionItem, serialItem, ecdsaWithSha256, nameItem, validityItem notBefore notAfter,
    nameItem, keyItem publicPoint]

def certificateItem (tbs : Der) (signature : Bytes) : Der :=
  sequenceOf [tbs, ecdsaWithSha256, bitString (0 :: signature)]

theorem tbsCertificate_encode {strftime : Int64 → Bytes} {publicPoint : Bytes}
    {notBefore notAfter : Int64} (size : publicPoint.length = 65)
    (beforeSize : (strftime notBefore).length = 13) (afterSize : (strftime notAfter).length = 13) :
    tbsCertificate strftime publicPoint notBefore notAfter =
        (tbsItem publicPoint (strftime notBefore) (strftime notAfter)).encode ∧
      (tbsItem publicPoint (strftime notBefore) (strftime notAfter)).encode.length ≤ 233 + 10 := by
  obtain ⟨versionLength, serialLength, algorithmLength, nameLength, -⟩ := parts_length
  obtain ⟨validity, validityLength⟩ := validity_encode beforeSize afterSize
  obtain ⟨key, keyLength⟩ := key_encode size
  simp only [tbsCertificate, utcTime]
  apply sequence_encode
  · rw [version_encode, serial_encode, ecdsaSha256_encode, name_encode, validity, key]
    rfl
  · simp only [encodeItems, List.length_append, List.length_nil]
    omega
  · decide

theorem certificate_encode {tbs : Der} {signature : Bytes} (tbsLength : tbs.encode.length ≤ 243)
    (small : signature.length < 2 ^ 63) :
    tlv 0x30 (concat [tbs.encode, ecdsaSha256, tlv 0x03 (0x00 :: signature)]) =
        (certificateItem tbs signature).encode ∧
      (certificateItem tbs signature).encode.length ≤ signature.length + 266 + 10 := by
  obtain ⟨-, -, algorithmLength, -, -⟩ := parts_length
  have content : (0x00 :: signature).length = signature.length + 1 := List.length_cons
  have bitsLength : (bitString (0x00 :: signature)).encode.length ≤ (0x00 :: signature).length + 10 :=
    element_length_le (by omega)
  apply sequence_encode
  · rw [ecdsaSha256_encode, tlv_bitString (by omega)]
    rfl
  · simp only [encodeItems, List.length_append, List.length_nil]
    omega
  · omega

/-- What a strict reader finds in a certificate. An element is encoded as the
bytes that it was read from. -/
def ReadsAsCertificate (publicPoint : Bytes) (sign : Bytes → ByteVector)
    (built : Bytes × List Bytes) : Prop :=
  ∃ (tbs : Bytes) (version serial issuer validity subject keyAlgorithm : Der),
    let signedItem := sequenceOf [version, serial, ecdsaWithSha256, issuer, validity, subject,
      sequenceOf [keyAlgorithm, bitString (0 :: publicPoint)]]
    built.2 = [tbs] ∧ signedItem.encode = tbs ∧ issuer = subject ∧
      readDer built.1 =
        some (sequenceOf [signedItem, ecdsaWithSha256, bitString (0 :: (sign tbs).val)])

/-- The certificate of every key and every signature is read by a strict
reader. What it holds to be signed is what was signed, byte for byte, with one
name on both sides and the key as it was given. -/
theorem buildSelfSignedP256Cert_read {strftime : Int64 → Bytes} {publicPoint : Bytes}
    {sign : Bytes → ByteVector} {notBefore notAfter : Int64}
    (size : publicPoint.length = 65) (uncompressed : publicPoint.head? = some 0x04)
    (signs : ∀ tbs, (sign tbs).val ≠ []) (utcText : ∀ epoch, (strftime epoch).length = 13) :
    ReadsAsCertificate publicPoint sign
      (buildSelfSignedP256Cert strftime publicPoint (some sign) notBefore notAfter) := by
  obtain ⟨tbsBytes, tbsLength⟩ :=
    @tbsCertificate_encode strftime publicPoint notBefore notAfter size (utcText _) (utcText _)
  let item := tbsItem publicPoint (strftime notBefore) (strftime notAfter)
  have small := (sign item.encode).property
  obtain ⟨certificate, length⟩ := certificate_encode tbsLength small
  have accepted : ¬(publicPoint.length ≠ 65 ∨ publicPoint.head? ≠ some 0x04) := by
    simp [size, uncompressed]
  have built : buildSelfSignedP256Cert strftime publicPoint (some sign) notBefore notAfter =
      ((certificateItem item (sign item.encode).val).encode, [item.encode]) := by
    rw [buildSelfSignedP256Cert]
    simp only [if_neg accepted, tbsBytes, if_neg (signs _)]
    exact congrArg (fun bytes => (bytes, [item.encode])) certificate
  have bound : 2 ^ 63 + 276 < 256 ^ 126 := by decide
  have fits : (certificateItem item (sign item.encode).val).encode.length < 256 ^ 126 :=
    Nat.lt_of_le_of_lt (Nat.le_trans length (by omega)) bound
  rw [built]
  exact ⟨item.encode, versionItem, serialItem, nameItem,
    validityItem (strftime notBefore) (strftime notAfter), nameItem, keyAlgorithmItem,
    rfl, rfl, rfl, (readDer_iff fits).mpr rfl⟩

theorem buildSelfSignedP256Cert_read_epoch :
    ReadsAsCertificate (0x04 :: List.replicate 64 0x11) (fun _ => ⟨[0x30, 0x00], by decide⟩)
      (buildSelfSignedP256Cert (fun _ => textOf "700101000000Z") (0x04 :: List.replicate 64 0x11)
        (some fun _ => ⟨[0x30, 0x00], by decide⟩) 0 0) :=
  buildSelfSignedP256Cert_read (by decide) rfl (fun _ => by decide) fun _ => by decide

end Skittermouse.Encodings
