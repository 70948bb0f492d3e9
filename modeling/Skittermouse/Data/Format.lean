import Skittermouse.Data.Words

namespace Skittermouse.Data

/-! # Self-delimiting formats

A format writes a value as bytes and takes one off the front of a byte string.
It carries both directions as laws, on the values that fit it, and formats are
put together from smaller ones.
-/

structure Format (α : Type u) where
  Fits : α → Prop
  encode : α → Bytes
  take : Bytes → Option (α × Bytes)
  take_encode : ∀ {value : α} (rest : Bytes), Fits value →
    take (encode value ++ rest) = some (value, rest)
  encode_take : ∀ {bytes rest : Bytes} {value : α}, take bytes = some (value, rest) →
    Fits value ∧ bytes = encode value ++ rest

namespace Format

variable {α : Type u} {β : Type v} {value : α} {bytes front rest : Bytes}

/-- What is taken depends on the bytes it was written as and on nothing behind them. -/
theorem takes_iff (format : Format α) : (∃ rest, format.take bytes = some (value, rest)) ↔
    format.Fits value ∧ format.encode value <+: bytes := by
  constructor
  · rintro ⟨rest, taken⟩
    obtain ⟨fits, rfl⟩ := format.encode_take taken
    exact ⟨fits, List.prefix_append _ rest⟩
  · rintro ⟨fits, rest, rfl⟩
    exact ⟨rest, format.take_encode rest fits⟩

/-- Nothing is taken from the front of an encoding that lacks some of it. -/
theorem take_cut (format : Format α) (fits : format.Fits value) (inside : front <+: format.encode value)
    (cut : front ≠ format.encode value) : format.take front = none := by
  cases taken : format.take front with
  | none => rfl
  | some found =>
      obtain ⟨other, left⟩ := found
      obtain ⟨behind, whole⟩ := inside
      obtain ⟨otherFits, rfl⟩ := format.encode_take taken
      have here := format.take_encode [] fits
      rw [List.append_nil, ← whole, List.append_assoc, format.take_encode _ otherFits] at here
      simp only [Option.some.injEq, Prod.mk.injEq, List.append_eq_nil_iff] at here
      exact absurd (by rw [← whole, here.2.2, List.append_nil]) cut

def littleEndian (width : Nat) : Format Nat where
  Fits value := value < 256 ^ width
  encode := leBytes width
  take bytes := (takeField width bytes).map fun (field, rest) => (leValue field, rest)
  take_encode rest fits := by
    simp only [takeField_append rest (leBytes_length width _), Option.map_some,
      leValue_leBytes_of_lt fits]
  encode_take taken := by
    obtain ⟨⟨field, left⟩, found, same⟩ := Option.map_eq_some_iff.mp taken
    obtain ⟨rfl, rfl⟩ := Prod.mk.inj same
    obtain ⟨rfl, rfl⟩ := takeField_eq_some found
    exact ⟨leValue_lt field, by rw [leBytes_leValue]⟩

def bigEndian (width : Nat) : Format Nat where
  Fits value := value < 256 ^ width
  encode := beBytes width
  take bytes := (takeField width bytes).map fun (field, rest) => (beValue field, rest)
  take_encode rest fits := by
    simp only [takeField_append rest (beBytes_length width _), Option.map_some,
      beValue_beBytes_of_lt fits]
  encode_take taken := by
    obtain ⟨⟨field, left⟩, found, same⟩ := Option.map_eq_some_iff.mp taken
    obtain ⟨rfl, rfl⟩ := Prod.mk.inj same
    obtain ⟨rfl, rfl⟩ := takeField_eq_some found
    exact ⟨beValue_lt field, by rw [beBytes_beValue]⟩

theorem littleEndian_take (width : Nat) : (littleEndian width).take bytes =
    (takeField width bytes).map fun (field, rest) => (leValue field, rest) := rfl

theorem bigEndian_take (width : Nat) : (bigEndian width).take bytes =
    (takeField width bytes).map fun (field, rest) => (beValue field, rest) := rfl

def marked (mark : Bytes) (format : Format α) : Format α where
  Fits := format.Fits
  encode value := mark ++ format.encode value
  take bytes := match takeField mark.length bytes with
    | none => none
    | some (field, rest) => if field = mark then format.take rest else none
  take_encode rest fits := by
    simp only [List.append_assoc, takeField_append _ (rfl : mark.length = mark.length), if_true,
      format.take_encode rest fits]
  encode_take taken := by
    split at taken
    · contradiction
    · rename_i field left found
      obtain ⟨rfl, _⟩ := takeField_eq_some found
      split at taken
      · rename_i same
        obtain ⟨fits, rfl⟩ := format.encode_take taken
        exact ⟨fits, by rw [same, List.append_assoc]⟩
      · contradiction

def sized (count : Format Nat) : Format Bytes where
  Fits text := count.Fits text.length
  encode text := count.encode text.length ++ text
  take bytes := match count.take bytes with
    | none => none
    | some (size, rest) => takeField size rest
  take_encode rest fits := by
    simp only [List.append_assoc, count.take_encode _ fits, takeField_append rest rfl]
  encode_take taken := by
    split at taken
    · contradiction
    · rename_i size left counted
      obtain ⟨fits, rfl⟩ := count.encode_take counted
      obtain ⟨rfl, rfl⟩ := takeField_eq_some taken
      exact ⟨fits, (List.append_assoc _ _ _).symm⟩

def pair (first : Format α) (second : Format β) : Format (α × β) where
  Fits both := first.Fits both.1 ∧ second.Fits both.2
  encode both := first.encode both.1 ++ second.encode both.2
  take bytes := match first.take bytes with
    | none => none
    | some (left, rest) => (second.take rest).map fun (right, rest) => ((left, right), rest)
  take_encode rest fits := by
    simp only [List.append_assoc, first.take_encode _ fits.1, second.take_encode rest fits.2,
      Option.map_some]
  encode_take taken := by
    split at taken
    · contradiction
    · rename_i left behind found
      obtain ⟨⟨right, last⟩, later, same⟩ := Option.map_eq_some_iff.mp taken
      obtain ⟨rfl, rfl⟩ := Prod.mk.inj same
      obtain ⟨leftFits, rfl⟩ := first.encode_take found
      obtain ⟨rightFits, rfl⟩ := second.encode_take later
      exact ⟨⟨leftFits, rightFits⟩, (List.append_assoc _ _ _).symm⟩

theorem pair_take (first : Format α) (second : Format β) : (first.pair second).take bytes =
    match first.take bytes with
    | none => none
    | some (left, rest) => (second.take rest).map fun (right, rest) => ((left, right), rest) := rfl

def retype (format : Format α) (wrap : α → β) (unwrap : β → α)
    (wrap_unwrap : ∀ value, wrap (unwrap value) = value)
    (unwrap_wrap : ∀ value, format.Fits value → unwrap (wrap value) = value) : Format β where
  Fits value := format.Fits (unwrap value)
  encode value := format.encode (unwrap value)
  take bytes := (format.take bytes).map fun (value, rest) => (wrap value, rest)
  take_encode rest fits := by
    simp only [format.take_encode rest fits, Option.map_some, wrap_unwrap]
  encode_take taken := by
    obtain ⟨⟨value, left⟩, found, same⟩ := Option.map_eq_some_iff.mp taken
    obtain ⟨rfl, rfl⟩ := Prod.mk.inj same
    obtain ⟨fits, rfl⟩ := format.encode_take found
    rw [unwrap_wrap value fits]
    exact ⟨fits, rfl⟩

theorem takeMany_sound (item : Format α) {count : Nat} {items : List α}
    (taken : takeMany item.take count bytes = some (items, rest)) :
    items.length = count ∧ (∀ value ∈ items, item.Fits value) ∧
      bytes = items.flatMap item.encode ++ rest := by
  induction count generalizing bytes items with
  | zero =>
      cases taken
      exact ⟨rfl, by simp, rfl⟩
  | succ count ih =>
      simp only [takeMany] at taken
      split at taken
      · contradiction
      · rename_i value left first
        split at taken
        · contradiction
        · rename_i others last later
          cases taken
          obtain ⟨fits, rfl⟩ := item.encode_take first
          obtain ⟨rfl, othersFit, rfl⟩ := ih later
          exact ⟨rfl, List.forall_mem_cons.mpr ⟨fits, othersFit⟩, by simp⟩

def counted (count : Format Nat) (item : Format α) : Format (List α) where
  Fits items := count.Fits items.length ∧ ∀ value ∈ items, item.Fits value
  encode items := count.encode items.length ++ items.flatMap item.encode
  take bytes := match count.take bytes with
    | none => none
    | some (size, rest) => takeMany item.take size rest
  take_encode rest fits := by
    have items := takeMany_flatMap (fun value member rest => item.take_encode rest (fits.2 value member)) rest
    simp only [List.append_assoc, count.take_encode _ fits.1, items]
  encode_take taken := by
    split at taken
    · contradiction
    · rename_i size left found
      obtain ⟨fits, rfl⟩ := count.encode_take found
      obtain ⟨rfl, itemsFit, rfl⟩ := takeMany_sound item taken
      exact ⟨⟨fits, itemsFit⟩, (List.append_assoc _ _ _).symm⟩

end Format

end Skittermouse.Data
