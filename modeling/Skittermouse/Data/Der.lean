import Skittermouse.Data.Format

namespace Skittermouse.Data

/-! # Distinguished encoding rules

An element is an identifier, a length in its shortest form, and the content.
The content of a constructed element is elements again, up to its last byte.
-/

def lengthWidth (size : Nat) : Nat := size.log2 / 8 + 1

def lengthBytes (size : Nat) : Bytes :=
  if size < 128 then [UInt8.ofNat size]
  else UInt8.ofNat (128 + lengthWidth size) :: beBytes (lengthWidth size) size

/-- A long form is refused when a shorter one would do, or when it has more
than 126 bytes. -/
def takeLength : Bytes → Option (Nat × Bytes)
  | [] => none
  | first :: rest =>
      if first.toNat < 128 then some (first.toNat, rest)
      else if first.toNat = 255 then none
      else match takeField (first.toNat - 128) rest with
        | none => none
        | some (field, rest) =>
            if field.head? = some 0 ∨ beValue field < 128 then none else some (beValue field, rest)

theorem head_ne_zero_iff (byte : UInt8) (rest : Bytes) :
    byte ≠ 0 ↔ 256 ^ rest.length ≤ beValue (byte :: rest) := by
  rw [beValue_cons]
  have below := beValue_lt rest
  constructor
  · intro nonzero
    have positive : 1 ≤ byte.toNat := Nat.pos_of_ne_zero fun zero =>
      nonzero (UInt8.toNat_inj.mp zero)
    have scaled := Nat.mul_le_mul_right (256 ^ rest.length) positive
    omega
  · rintro large rfl
    have zero : (0 : UInt8).toNat = 0 := rfl
    rw [zero] at large
    omega

theorem pow_256 (width : Nat) : 256 ^ width = 2 ^ (8 * width) := by
  rw [Nat.pow_mul]

theorem lengthWidth_eq {size width : Nat} (low : 256 ^ width ≤ size) (high : size < 256 ^ (width + 1)) :
    lengthWidth size = width + 1 := by
  rw [pow_256] at low high
  have nonzero : size ≠ 0 := Nat.ne_of_gt (Nat.lt_of_lt_of_le (Nat.two_pow_pos _) low)
  have least := (Nat.le_log2 nonzero).mpr low
  have most := (Nat.log2_lt nonzero).mpr high
  rw [lengthWidth]
  omega

theorem lengthWidth_le {size width : Nat} (nonzero : size ≠ 0) (fits : size < 256 ^ width) :
    lengthWidth size ≤ width := by
  rw [pow_256] at fits
  have most := (Nat.log2_lt nonzero).mpr fits
  rw [lengthWidth]
  omega

theorem lt_lengthWidth (size : Nat) : size < 256 ^ lengthWidth size := by
  rw [pow_256, lengthWidth]
  have enough : 2 ^ (size.log2 + 1) ≤ 2 ^ (8 * (size.log2 / 8 + 1)) :=
    Nat.pow_le_pow_right (by decide) (by omega)
  exact Nat.lt_of_lt_of_le Nat.lt_log2_self enough

theorem lengthWidth_low {size : Nat} (nonzero : size ≠ 0) : 256 ^ (size.log2 / 8) ≤ size := by
  rw [pow_256, ← Nat.le_log2 nonzero]
  omega

theorem lengthWidth_div {size : Nat} (large : size / 256 ≠ 0) :
    lengthWidth size = lengthWidth (size / 256) + 1 := by
  have low := lengthWidth_low large
  have high := lt_lengthWidth (size / 256)
  apply lengthWidth_eq
  · rw [lengthWidth, Nat.pow_succ]
    omega
  · rw [Nat.pow_succ]
    omega

theorem beBytes_head {width size : Nat} (low : 256 ^ width ≤ size) (high : size < 256 ^ (width + 1)) :
    (beBytes (width + 1) size).head? ≠ some 0 := by
  have value := beValue_beBytes_of_lt high
  have length := beBytes_length (width + 1) size
  cases bytes : beBytes (width + 1) size with
  | nil =>
      rw [bytes] at length
      contradiction
  | cons byte rest =>
      rw [bytes] at value length
      have same : rest.length = width := Nat.succ.inj length
      rw [← same, ← value] at low
      intro zero
      exact (head_ne_zero_iff byte rest).mpr low (Option.some.inj zero)

theorem lengthWidth_beValue {field : Bytes} (minimal : field.head? ≠ some 0)
    (nonempty : field ≠ []) : lengthWidth (beValue field) = field.length := by
  cases field with
  | nil => contradiction
  | cons byte rest =>
      have nonzero : byte ≠ 0 := fun zero => minimal (congrArg some zero)
      have low := (head_ne_zero_iff byte rest).mp nonzero
      have high := beValue_lt (byte :: rest)
      rw [lengthWidth_eq low high, List.length_cons]

theorem lengthBytes_long {first : UInt8} {field : Bytes} (minimal : field.head? ≠ some 0)
    (large : ¬beValue field < 128) (count : 128 + field.length = first.toNat) :
    lengthBytes (beValue field) = first :: field := by
  have nonempty : field ≠ [] := by
    rintro rfl
    exact large (by decide)
  rw [lengthBytes, if_neg large, lengthWidth_beValue minimal nonempty, count, UInt8.ofNat_toNat,
    beBytes_beValue]

theorem takeLength_lengthBytes {size : Nat} (fits : size < 256 ^ 126) (rest : Bytes) :
    takeLength (lengthBytes size ++ rest) = some (size, rest) := by
  by_cases short : size < 128
  · have byte : (UInt8.ofNat size).toNat = size := by
      rw [UInt8.toNat_ofNat']
      omega
    rw [lengthBytes, if_pos short, List.singleton_append, takeLength, byte, if_pos short]
  · have width := lengthWidth_le (by omega) fits
    have low : 256 ^ (size.log2 / 8) ≤ size := lengthWidth_low (by omega)
    have high : size < 256 ^ lengthWidth size := lt_lengthWidth size
    have byte : (UInt8.ofNat (128 + lengthWidth size)).toNat = 128 + lengthWidth size := by
      rw [UInt8.toNat_ofNat']
      omega
    have minimal : ¬((beBytes (lengthWidth size) size).head? = some 0 ∨
        beValue (beBytes (lengthWidth size) size) < 128) := by
      rw [beValue_beBytes_of_lt high]
      exact not_or.mpr ⟨beBytes_head low high, short⟩
    have field := takeField_append rest (beBytes_length (lengthWidth size) size)
    rw [lengthBytes, if_neg short, List.cons_append, takeLength, byte, if_neg (by omega),
      if_neg (by omega), Nat.add_sub_cancel_left, field]
    simp only [if_neg minimal]
    rw [beValue_beBytes_of_lt high]

theorem takeLength_eq_some {bytes rest : Bytes} {size : Nat}
    (taken : takeLength bytes = some (size, rest)) :
    size < 256 ^ 126 ∧ bytes = lengthBytes size ++ rest := by
  cases bytes with
  | nil => contradiction
  | cons first bytes =>
      rw [takeLength] at taken
      split at taken
      case isTrue short =>
        obtain ⟨rfl, rfl⟩ := Prod.mk.inj (Option.some.inj taken)
        have below : 128 < 256 ^ 126 := by decide
        refine ⟨short.trans below, ?_⟩
        rw [lengthBytes, if_pos short, UInt8.ofNat_toNat, List.singleton_append]
      case isFalse long =>
        split at taken
        case isTrue => contradiction
        case isFalse reserved =>
          split at taken
          case h_1 => exact absurd taken.symm (Option.some_ne_none _)
          case h_2 field more found =>
            split at taken
            case isTrue => exact absurd taken.symm (Option.some_ne_none _)
            case isFalse minimal =>
              obtain ⟨nonzero, large⟩ := not_or.mp minimal
              obtain ⟨rfl, rfl⟩ := Prod.mk.inj (Option.some.inj taken)
              obtain ⟨rfl, count⟩ := takeField_eq_some found
              have bound := first.toNat_lt
              have whole : 128 + field.length = first.toNat := by omega
              have below : 256 ^ field.length ≤ 256 ^ 126 :=
                Nat.pow_le_pow_right (by decide) (by omega)
              refine ⟨Nat.lt_of_lt_of_le (beValue_lt field) below, ?_⟩
              rw [lengthBytes_long nonzero large whole, List.cons_append]

def derLength : Format Nat where
  Fits size := size < 256 ^ 126
  encode := lengthBytes
  take := takeLength
  take_encode rest fits := takeLength_lengthBytes fits rest
  encode_take := takeLength_eq_some

/-- The class and the number of an element, in the form that one byte holds. -/
structure Tag where
  cls : Fin 4
  number : Fin 31
deriving DecidableEq

/-- The sixth bit tells constructed elements from primitive ones. -/
def Tag.identifier (tag : Tag) (constructed : Bool) : UInt8 :=
  UInt8.ofNat (tag.cls.val * 64 + constructed.toNat * 32 + tag.number.val)

theorem Tag.identifier_toNat (tag : Tag) (constructed : Bool) : (tag.identifier constructed).toNat =
    tag.cls.val * 64 + constructed.toNat * 32 + tag.number.val := by
  have bit := constructed.toNat_le
  rw [Tag.identifier, UInt8.toNat_ofNat']
  omega

/-- Number 31 announces a longer identifier, which no element here has. -/
def takeIdentifier : Bytes → Option ((Tag × Bool) × Bytes)
  | [] => none
  | byte :: rest =>
      if single : byte.toNat % 32 < 31 then
        some ((⟨⟨byte.toNat / 64, by have bound := byte.toNat_lt; omega⟩, ⟨byte.toNat % 32, single⟩⟩,
          decide (byte.toNat / 32 % 2 = 1)), rest)
      else none

theorem takeIdentifier_identifier (tag : Tag) (constructed : Bool) (rest : Bytes) :
    takeIdentifier (tag.identifier constructed :: rest) = some ((tag, constructed), rest) := by
  have value := tag.identifier_toNat constructed
  have bit := constructed.toNat_le
  have cls : (tag.identifier constructed).toNat / 64 = tag.cls.val := by omega
  have number : (tag.identifier constructed).toNat % 32 = tag.number.val := by omega
  have middle : (tag.identifier constructed).toNat / 32 % 2 = constructed.toNat := by omega
  simp only [takeIdentifier, number, tag.number.isLt, dif_pos, cls, middle]
  cases constructed <;> rfl

theorem takeIdentifier_eq_some {bytes rest : Bytes} {tag : Tag} {constructed : Bool}
    (taken : takeIdentifier bytes = some ((tag, constructed), rest)) :
    bytes = tag.identifier constructed :: rest := by
  cases bytes with
  | nil => contradiction
  | cons byte bytes =>
      rw [takeIdentifier] at taken
      split at taken
      case isFalse => contradiction
      case isTrue single =>
        obtain ⟨same, rfl⟩ := Prod.mk.inj (Option.some.inj taken)
        obtain ⟨rfl, rfl⟩ := Prod.mk.inj same
        congr 1
        apply UInt8.toNat_inj.mp
        rw [Tag.identifier_toNat]
        rcases Nat.mod_two_eq_zero_or_one (byte.toNat / 32) with even | odd
        · simp [even]
          omega
        · simp [odd]
          omega

def derIdentifier : Format (Tag × Bool) where
  Fits _ := True
  encode both := [both.1.identifier both.2]
  take := takeIdentifier
  take_encode rest _ := takeIdentifier_identifier _ _ rest
  encode_take taken := ⟨trivial, takeIdentifier_eq_some taken⟩

def derElement : Format ((Tag × Bool) × Bytes) := derIdentifier.pair (Format.sized derLength)

inductive Der where
  | primitive (tag : Tag) (content : Bytes)
  | constructed (tag : Tag) (items : List Der)

mutual

def Der.encode : Der → Bytes
  | .primitive tag content => derElement.encode ((tag, false), content)
  | .constructed tag items => derElement.encode ((tag, true), encodeItems items)

def encodeItems : List Der → Bytes
  | [] => []
  | item :: items => item.encode ++ encodeItems items

end

/-- Elements up to the last byte. Each takes at least one, so as many rounds as
there are bytes suffice. -/
def readItems : Nat → Bytes → Option (List Der)
  | _, [] => some []
  | 0, _ :: _ => none
  | fuel + 1, byte :: bytes =>
      match derElement.take (byte :: bytes) with
      | none => none
      | some (((tag, false), content), rest) =>
          (readItems fuel rest).map (Der.primitive tag content :: ·)
      | some (((tag, true), content), rest) =>
          match readItems fuel content, readItems fuel rest with
          | some inner, some items => some (Der.constructed tag inner :: items)
          | _, _ => none

def readDer (bytes : Bytes) : Option Der :=
  match readItems bytes.length bytes with
  | some [item] => some item
  | _ => none

theorem derElement_encode (tag : Tag) (constructed : Bool) (content : Bytes) :
    derElement.encode ((tag, constructed), content) =
      tag.identifier constructed :: (lengthBytes content.length ++ content) := rfl

theorem derElement_take {tag : Tag} {constructed : Bool} {content : Bytes}
    (fits : content.length < 256 ^ 126) (rest : Bytes) :
    derElement.take (tag.identifier constructed :: (lengthBytes content.length ++ content ++ rest)) =
      some (((tag, constructed), content), rest) :=
  @Format.take_encode _ derElement ((tag, constructed), content) rest ⟨trivial, fits⟩

theorem readItems_primitive {fuel : Nat} {tag : Tag} {content rest : Bytes} {items : List Der}
    (fits : content.length < 256 ^ 126) (later : readItems fuel rest = some items) :
    readItems (fuel + 1) ((Der.primitive tag content).encode ++ rest) =
      some (Der.primitive tag content :: items) := by
  rw [Der.encode, derElement_encode, List.cons_append, readItems, derElement_take fits]
  simp only [later, Option.map_some]

theorem readItems_constructed {fuel : Nat} {tag : Tag} {rest : Bytes} {inner items : List Der}
    (fits : (encodeItems inner).length < 256 ^ 126)
    (inside : readItems fuel (encodeItems inner) = some inner)
    (later : readItems fuel rest = some items) :
    readItems (fuel + 1) ((Der.constructed tag inner).encode ++ rest) =
      some (Der.constructed tag inner :: items) := by
  rw [Der.encode, derElement_encode, List.cons_append, readItems, derElement_take fits]
  simp only [inside, later]

/-- Induction on the bound: the content of the first element and the elements
behind it are both shorter than the whole. -/
theorem readItems_encodeItems {fuel : Nat} {items : List Der}
    (enough : (encodeItems items).length ≤ fuel) (fits : (encodeItems items).length < 256 ^ 126) :
    readItems fuel (encodeItems items) = some items := by
  induction fuel generalizing items with
  | zero =>
      cases items with
      | nil => rfl
      | cons item items => cases item <;> simp [encodeItems, Der.encode, derElement_encode] at enough
  | succ fuel ih =>
      cases items with
      | nil => rfl
      | cons item items =>
          cases item with
          | primitive tag content =>
              simp only [encodeItems, Der.encode, derElement_encode, List.length_append,
                List.length_cons] at enough fits
              have later := @ih items (by omega) (by omega)
              exact readItems_primitive (by omega) later
          | constructed tag inner =>
              simp only [encodeItems, Der.encode, derElement_encode, List.length_append,
                List.length_cons] at enough fits
              have inside := @ih inner (by omega) (by omega)
              have later := @ih items (by omega) (by omega)
              exact readItems_constructed (by omega) inside later

/-- Whatever is read is the encoding of what it was read as. -/
theorem encodeItems_readItems {fuel : Nat} {bytes : Bytes} {items : List Der}
    (read : readItems fuel bytes = some items) : encodeItems items = bytes := by
  fun_induction readItems fuel bytes generalizing items with
  | case1 =>
      rw [← Option.some.inj read]
      rfl
  | case2 => contradiction
  | case3 => contradiction
  | case4 fuel byte bytes tag content rest taken ih =>
      obtain ⟨others, later, rfl⟩ := Option.map_eq_some_iff.mp read
      obtain ⟨-, eq⟩ := derElement.encode_take taken
      rw [eq, encodeItems, ih later, Der.encode]
  | case5 fuel byte bytes tag content rest taken inner others later inside contentIH restIH =>
      obtain rfl := Option.some.inj read
      obtain ⟨-, eq⟩ := derElement.encode_take taken
      rw [eq, encodeItems, restIH later, Der.encode, contentIH inside]
  | case6 => contradiction

theorem readDer_iff {bytes : Bytes} {item : Der} (fits : bytes.length < 256 ^ 126) :
    readDer bytes = some item ↔ bytes = item.encode := by
  have single : encodeItems [item] = item.encode := List.append_nil _
  constructor
  · intro read
    rw [readDer] at read
    split at read
    case h_1 other items =>
      rw [Option.some.inj read] at items
      rw [← encodeItems_readItems items, single]
    case h_2 => contradiction
  · rintro rfl
    have items := @readItems_encodeItems item.encode.length [item]
    rw [single] at items
    rw [readDer, items (Nat.le_refl _) fits]

end Skittermouse.Data
