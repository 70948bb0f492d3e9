import Skittermouse.Net.WolSender

namespace Skittermouse.Wire

open Skittermouse.Data Skittermouse.Net

/-! # The text of a hardware address

What `sscanf` lets pass for a number, as a grammar: the texts that `parseMac`
accepts are six of these with one separator between them.
-/

structure HexNumber (library : CLibrary) where
  blanks : Bytes
  sign : Option Bool
  mark : Option UInt8
  digits : Bytes
  blank : ∀ c ∈ blanks, isSpace c = true
  letter : ∀ c ∈ mark, c = 0x78 ∨ c = 0x58
  filled : digits = [] → mark.isSome = true ∧ library.bareMark = true
  hex : ∀ c ∈ digits, isHexDigit c = true

def signText : Option Bool → Bytes
  | none => []
  | some true => [minusSign]
  | some false => [plusSign]

def markText : Option UInt8 → Bytes
  | none => []
  | some letter => [zeroDigit, letter]

variable {library : CLibrary}

def HexNumber.text (number : HexNumber library) : Bytes :=
  number.blanks ++ (signText number.sign ++ (markText number.mark ++ number.digits))

def HexNumber.value (number : HexNumber library) : UInt32 :=
  storedHex library (number.sign.getD false) number.digits

/-- The six numbers of an address with the separator between them. -/
def separated (sep : UInt8) (numbers : List (HexNumber library)) : Bytes :=
  List.intercalate [sep] (numbers.map HexNumber.text)

def IsSeparator (sep : UInt8) : Prop := sep = colonChar ∨ sep = minusSign

def Ends (rest : Bytes) : Prop := rest = [] ∨ ∃ sep tail, rest = sep :: tail ∧ IsSeparator sep

variable {s rest : Bytes} {value : UInt32}

theorem isHexDigit_range {c : UInt8} (digit : isHexDigit c = true) : 0x30 ≤ c := by
  simp only [isHexDigit, isDigit, Bool.or_eq_true, Bool.and_eq_true, decide_eq_true_eq] at digit
  rcases digit with (⟨low, _⟩ | ⟨low, _⟩) | ⟨low, _⟩
  · exact low
  · exact UInt8.le_trans (by decide) low
  · exact UInt8.le_trans (by decide) low

theorem scanSign_sound (s : Bytes) :
    ∃ sign, s = signText sign ++ (scanSign s).2 ∧ sign.getD false = (scanSign s).1 := by
  cases s with
  | nil => exact ⟨none, rfl, rfl⟩
  | cons c rest =>
      simp only [scanSign]
      split
      · rename_i minus
        exact ⟨some true, by rw [minus]; rfl, rfl⟩
      · split
        · rename_i plus
          exact ⟨some false, by rw [plus]; rfl, rfl⟩
        · exact ⟨none, rfl, rfl⟩

theorem skipHexPrefix_sound (s : Bytes) :
    ∃ mark, s = markText mark ++ (skipHexPrefix s).2 ∧ mark.isSome = (skipHexPrefix s).1 ∧
      ∀ c ∈ mark, c = 0x78 ∨ c = 0x58 := by
  unfold skipHexPrefix
  split
  · rename_i zero x rest
    split
    · rename_i marked
      exact ⟨some x, by rw [marked.1]; rfl, rfl, fun c member => Option.mem_some.mp member ▸ marked.2⟩
    · exact ⟨none, rfl, rfl, fun c member => absurd member (Option.not_mem_none c)⟩
  · exact ⟨none, rfl, rfl, fun c member => absurd member (Option.not_mem_none c)⟩

/-- What `%x` takes is a number of the grammar. -/
theorem scanHex_sound (scanned : scanHex library s = some (value, rest)) :
    ∃ number : HexNumber library, s = number.text ++ rest ∧ number.value = value := by
  unfold scanHex at scanned
  dsimp only at scanned
  obtain ⟨sign, signed, negative⟩ := scanSign_sound (s.dropWhile isSpace)
  generalize scanSign (s.dropWhile isSpace) = behind at *
  obtain ⟨mark, marked, found, letter⟩ := skipHexPrefix_sound behind.2
  generalize skipHexPrefix behind.2 = number at *
  split at scanned
  · contradiction
  · rename_i filled
    obtain ⟨rfl, rfl⟩ := Prod.mk.inj (Option.some.inj scanned)
    refine ⟨⟨s.takeWhile isSpace, sign, mark, number.2.takeWhile isHexDigit, ?_, letter, ?_, ?_⟩,
      ?_, ?_⟩
    · exact List.all_eq_true.mp List.all_takeWhile
    · intro empty
      rw [found]
      exact Decidable.of_not_not fun bare => filled ⟨empty, bare⟩
    · exact List.all_eq_true.mp List.all_takeWhile
    · simp only [HexNumber.text, List.append_assoc, List.takeWhile_append_dropWhile]
      rw [← marked, ← signed, List.takeWhile_append_dropWhile]
    · rw [HexNumber.value, negative]

def Solid (s : Bytes) : Prop := ∃ c rest, s = c :: rest ∧ 0x30 ≤ c

theorem Solid.blank {c : UInt8} (solid : 0x30 ≤ c) : isSpace c = false := by
  rw [UInt8.le_iff_toNat_le] at solid
  simp only [isSpace, Bool.or_eq_false_iff, Bool.and_eq_false_iff, beq_eq_false_iff_ne, ne_eq,
    decide_eq_false_iff_not, UInt8.le_iff_toNat_le, ← UInt8.toNat_inj]
  simp only [UInt8.reduceToNat] at *
  omega

theorem Solid.sign {c : UInt8} (solid : 0x30 ≤ c) : c ≠ minusSign ∧ c ≠ plusSign :=
  ⟨fun same => absurd (same ▸ solid) (by decide), fun same => absurd (same ▸ solid) (by decide)⟩

theorem scanSign_text {behind : Bytes} (solid : Solid behind) (sign : Option Bool) :
    scanSign (signText sign ++ behind) = (sign.getD false, behind) := by
  obtain ⟨c, rest, rfl, digit⟩ := solid
  cases sign with
  | none =>
      obtain ⟨minus, plus⟩ := Solid.sign digit
      simp only [signText, List.nil_append, scanSign, if_neg minus, if_neg plus]
      rfl
  | some negative => cases negative <;> rfl

theorem dropWhile_blanks {behind : Bytes} (solid : Solid behind) {blanks : Bytes}
    (blank : ∀ c ∈ blanks, isSpace c = true) (sign : Option Bool) :
    (blanks ++ (signText sign ++ behind)).dropWhile isSpace = signText sign ++ behind := by
  rw [List.dropWhile_append_of_pos blank]
  obtain ⟨c, rest, rfl, digit⟩ := solid
  cases sign with
  | none => exact List.dropWhile_cons_of_neg (Bool.eq_false_iff.mp (Solid.blank digit))
  | some negative => cases negative <;> rfl

theorem Ends.letter (ends : Ends rest) {c : UInt8} {tail : Bytes} (behind : rest = c :: tail) :
    isHexDigit c = false ∧ ¬ (c = 0x78 ∨ c = 0x58) := by
  rcases ends with rfl | ⟨sep, _, rfl, separator⟩
  · contradiction
  · obtain ⟨rfl, _⟩ := List.cons.inj behind
    rcases separator with rfl | rfl <;> decide

theorem unmarked (ends : Ends rest) {digits tail : Bytes} {zero c : UInt8} (nonempty : digits ≠ [])
    (hex : ∀ c ∈ digits, isHexDigit c = true) (behind : digits ++ rest = zero :: c :: tail) :
    ¬ (c = 0x78 ∨ c = 0x58) := by
  cases digits with
  | nil => contradiction
  | cons first others =>
      obtain ⟨_, behind⟩ := List.cons.inj behind
      cases others with
      | nil => exact (ends.letter behind).2
      | cons second others =>
          obtain ⟨same, _⟩ := List.cons.inj behind
          have digit := hex second (List.mem_cons_of_mem _ List.mem_cons_self)
          rw [same] at digit
          rintro (rfl | rfl) <;> exact absurd digit (by decide)

theorem skipHexPrefix_digits (ends : Ends rest) {digits : Bytes} (nonempty : digits ≠ [])
    (hex : ∀ c ∈ digits, isHexDigit c = true) :
    skipHexPrefix (digits ++ rest) = (false, digits ++ rest) := by
  generalize behind : digits ++ rest = s
  unfold skipHexPrefix
  split
  · rw [if_neg fun marked => unmarked ends nonempty hex behind marked.2]
  · rfl

theorem skipHexPrefix_mark (ends : Ends rest) (number : HexNumber library) :
    skipHexPrefix (markText number.mark ++ (number.digits ++ rest)) =
      (number.mark.isSome, number.digits ++ rest) := by
  obtain ⟨_, _, mark, digits, _, letter, filled, hex⟩ := number
  cases mark with
  | none =>
      have nonempty : digits ≠ [] := fun empty => absurd (filled empty).1 Bool.false_ne_true
      exact skipHexPrefix_digits ends nonempty hex
  | some c => exact if_pos ⟨rfl, letter c rfl⟩

theorem mark_solid (number : HexNumber library) :
    Solid (markText number.mark ++ (number.digits ++ rest)) := by
  obtain ⟨_, _, mark, digits, _, _, filled, hex⟩ := number
  cases mark with
  | some c => exact ⟨zeroDigit, c :: (digits ++ rest), rfl, by decide⟩
  | none => cases digits with
    | nil => exact absurd (filled rfl).1 Bool.false_ne_true
    | cons first others =>
        exact ⟨first, others ++ rest, rfl, isHexDigit_range (hex first List.mem_cons_self)⟩

theorem takeWhile_digits (ends : Ends rest) {digits : Bytes}
    (hex : ∀ c ∈ digits, isHexDigit c = true) :
    (digits ++ rest).takeWhile isHexDigit = digits ∧ (digits ++ rest).dropWhile isHexDigit = rest := by
  rw [List.takeWhile_append_of_pos hex, List.dropWhile_append_of_pos hex]
  cases behind : rest with
  | nil => exact ⟨List.append_nil _, rfl⟩
  | cons c tail =>
      have other := Bool.eq_false_iff.mp (ends.letter behind).1
      rw [List.takeWhile_cons_of_neg other, List.dropWhile_cons_of_neg other]
      exact ⟨List.append_nil _, rfl⟩

/-- A number of the grammar is taken as a whole, up to a separator or the end. -/
theorem scanHex_text (number : HexNumber library) (ends : Ends rest) :
    scanHex library (number.text ++ rest) = some (number.value, rest) := by
  have solid := @mark_solid library rest number
  obtain ⟨taken, dropped⟩ := takeWhile_digits ends number.hex
  have filled : ¬ (number.digits = [] ∧ ¬ (number.mark.isSome = true ∧ library.bareMark = true)) :=
    fun bare => bare.2 (number.filled bare.1)
  simp only [scanHex, HexNumber.text, List.append_assoc, dropWhile_blanks solid number.blank,
    scanSign_text solid, skipHexPrefix_mark ends number, taken, dropped, if_neg filled]
  rfl

theorem separated_cons (sep : UInt8) (number : HexNumber library) {numbers : List (HexNumber library)}
    (more : numbers ≠ []) :
    separated sep (number :: numbers) = number.text ++ sep :: separated sep numbers := by
  rw [separated, List.map_cons, List.intercalate_cons_of_ne_nil (mt List.map_eq_nil_iff.mp more),
    List.append_assoc]
  rfl

theorem scanGroups_sound {sep : UInt8} {pairs : Nat} {values : List UInt32}
    (scanned : scanGroups library pairs s = some (values, List.replicate pairs sep)) :
    ∃ numbers : List (HexNumber library), numbers.length = pairs + 1 ∧
      numbers.map (HexNumber.value) = values ∧ s = separated sep numbers := by
  induction pairs generalizing s values with
  | zero =>
      simp only [scanGroups] at scanned
      split at scanned
      · rename_i value last
        obtain ⟨same, _⟩ := Prod.mk.inj (Option.some.inj scanned)
        obtain ⟨number, text, stored⟩ := scanHex_sound last
        exact ⟨[number], rfl, by rw [← same, ← stored]; rfl, by simpa [separated] using text⟩
      · contradiction
  | succ pairs ih =>
      simp only [scanGroups] at scanned
      split at scanned
      · rename_i value first rest head
        split at scanned
        · rename_i others seps tail
          obtain ⟨same, front⟩ := Prod.mk.inj (Option.some.inj scanned)
          obtain ⟨rfl, rfl⟩ := List.cons.inj front
          obtain ⟨number, text, stored⟩ := scanHex_sound head
          obtain ⟨numbers, length, values, joined⟩ := ih tail
          refine ⟨number :: numbers, by rw [List.length_cons, length], ?_, ?_⟩
          · rw [List.map_cons, stored, values, same]
          · have more : numbers ≠ [] := List.ne_nil_of_length_eq_add_one length
            rw [separated_cons _ number more, ← joined, text]
        · contradiction
      · contradiction

theorem scanGroups_separated {sep : UInt8}
    (separator : IsSeparator sep) {pairs : Nat} {numbers : List (HexNumber library)}
    (length : numbers.length = pairs + 1) :
    scanGroups library pairs (separated sep numbers) =
      some (numbers.map (HexNumber.value), List.replicate pairs sep) := by
  induction pairs generalizing numbers with
  | zero =>
      obtain ⟨number, rfl⟩ := List.length_eq_one_iff.mp length
      have scanned := scanHex_text number (.inl rfl)
      rw [List.append_nil] at scanned
      rw [separated, List.map_singleton, List.intercalate_singleton, scanGroups, scanned]
      rfl
  | succ pairs ih =>
      obtain ⟨number, others, rfl⟩ := List.exists_cons_of_length_eq_add_one length
      have rest := Nat.succ.inj length
      have more : others ≠ [] := List.ne_nil_of_length_eq_add_one rest
      have scanned := @scanHex_text library (sep :: separated sep others) number
        (.inr ⟨sep, _, rfl, separator⟩)
      rw [separated_cons sep number more, scanGroups, scanned]
      dsimp only
      rw [ih rest]
      rfl

theorem macOf_eq_some {values : List UInt32} {mac : Mac} :
    macOf values = some mac ↔
      values.length = 6 ∧ (∀ value ∈ values, value ≤ 255) ∧ mac.val = values.map UInt32.toUInt8 := by
  have small : values.all (· ≤ 255) = true ↔ ∀ value ∈ values, value ≤ 255 := by
    simp only [List.all_eq_true, decide_eq_true_eq]
  unfold macOf
  split
  · rename_i fits
    rw [Option.some.injEq, Subtype.ext_iff]
    exact ⟨fun same => ⟨fits.1, small.mp fits.2, same.symm⟩, fun ⟨_, _, same⟩ => same.symm⟩
  · rename_i unfit
    exact ⟨fun found => absurd found.symm (Option.some_ne_none _),
      fun ⟨six, bytes, _⟩ => absurd ⟨six, small.mpr bytes⟩ unfit⟩

/-- `parseMac` accepts exactly six numbers of the `%x` grammar, each of at most a
byte, with the same separator five times between them; and what comes out are
the numbers, whatever the C library does where one overflows or is a bare `0x`. -/
theorem mac_text_grammar (library : CLibrary) (s : Bytes) (mac : Mac) :
    parseMac library s = some mac ↔
      ∃ (sep : UInt8) (numbers : List (HexNumber library)), IsSeparator sep ∧ numbers.length = 6 ∧
        (∀ number ∈ numbers, number.value ≤ 255) ∧
        s.takeWhile (· ≠ 0) = separated sep numbers ∧
        mac.val = numbers.map fun number => (number.value).toUInt8 := by
  unfold parseMac
  constructor
  · intro parsed
    split at parsed
    · rename_i values seps scanned
      split at parsed
      · rename_i same
        obtain ⟨length, small, bytes⟩ := macOf_eq_some.mp parsed
        obtain ⟨sep, separator, rfl⟩ : ∃ sep, IsSeparator sep ∧ seps = List.replicate 5 sep :=
          same.elim (fun colons => ⟨_, .inl rfl, colons⟩) fun dashes => ⟨_, .inr rfl, dashes⟩
        obtain ⟨numbers, six, rfl, joined⟩ := scanGroups_sound scanned
        refine ⟨sep, numbers, separator, six, fun number member => ?_, joined, ?_⟩
        · exact small _ (List.mem_map_of_mem member)
        · rw [bytes, List.map_map]
          rfl
      · exact absurd parsed.symm (Option.some_ne_none _)
    · exact absurd parsed.symm (Option.some_ne_none _)
  · intro ⟨sep, numbers, separator, six, small, joined, bytes⟩
    rw [joined, scanGroups_separated separator six]
    dsimp only
    rw [if_pos (separator.imp (congrArg _) (congrArg _))]
    refine macOf_eq_some.mpr ⟨by rw [List.length_map, six], fun value member => ?_, ?_⟩
    · obtain ⟨number, inside, rfl⟩ := List.mem_map.mp member
      exact small number inside
    · rw [bytes, List.map_map]
      rfl

end Skittermouse.Wire
