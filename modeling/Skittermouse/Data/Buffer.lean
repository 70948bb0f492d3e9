import Mathlib.Data.Nat.Bitwise
import Mathlib.Tactic.Ring
import Skittermouse.Data.Format

namespace Skittermouse.Data

/-! # Reading a buffer by position

A decoder in the source has a pointer and a length and keeps a position of its
own. Here every read names its position, and one at or past the end is an error
of its own kind, so a decoder without such an error has checked each of its
reads. A buffer is far shorter than the largest `size_t`, so positions do not
wrap.
-/

structure Overread where
  pos : Nat
deriving DecidableEq

abbrev Checked (α : Type u) := Except Overread α

def byteAt (data : Bytes) (pos : Nat) : Checked UInt8 :=
  match data[pos]? with
  | some byte => .ok byte
  | none => .error ⟨pos⟩

/-- The copy of `width` bytes. -/
def spanAt (data : Bytes) (pos : Nat) : Nat → Checked Bytes
  | 0 => .ok []
  | width + 1 => do
      let byte ← byteAt data pos
      let rest ← spanAt data (pos + 1) width
      return byte :: rest

/-- `value = (value << 8) | p[i]`, byte by byte. -/
def beAt (data : Bytes) (pos : Nat) (value : Nat) : Nat → Checked Nat
  | 0 => .ok value
  | width + 1 => do
      let byte ← byteAt data pos
      beAt data (pos + 1) (value <<< 8 ||| byte.toNat) width

/-- `value |= p[i] << (8 * i)`, byte by byte. -/
def leAt (data : Bytes) (pos : Nat) (value index : Nat) : Nat → Checked Nat
  | 0 => .ok value
  | width + 1 => do
      let byte ← byteAt data pos
      leAt data (pos + 1) (value ||| byte.toNat <<< (8 * index)) (index + 1) width

/-- The comparison with a fixed text, up to the first byte that differs. -/
def matchesAt (data : Bytes) (pos : Nat) : Bytes → Checked Bool
  | [] => .ok true
  | wanted :: rest => do
      let byte ← byteAt data pos
      if byte ≠ wanted then return false
      matchesAt data (pos + 1) rest

/-- A string behind its big-endian length, each part behind a bounds check. -/
def sizedAt (data : Bytes) (width pos : Nat) : Checked (Option (Bytes × Nat)) := do
  if pos + width > data.length then return none
  let size ← beAt data pos 0 width
  let pos := pos + width
  if pos + size > data.length then return none
  let text ← spanAt data pos size
  return some (text, pos + size)

/-- A counted loop that appends what it reads to `out` and gives up at the first
item that is cut short. -/
def manyAt (item : Nat → Checked (Option (α × Nat))) : Nat → Nat → List α → Checked (Bool × List α)
  | 0, _, out => .ok (true, out)
  | count + 1, pos, out => do
      match ← item pos with
      | none => return (false, out)
      | some (value, next) => manyAt item count next (out ++ [value])

/-- A read by position found what is taken off the front of the rest of the
buffer, and nothing where nothing is taken. -/
inductive Agrees (data : Bytes) : Checked (Option (α × Nat)) → Option (α × Bytes) → Prop where
  | none : Agrees data (.ok none) none
  | some (value : α) (front rest : Bytes) (split : data = front ++ rest) :
      Agrees data (.ok (some (value, front.length))) (some (value, rest))

variable {data front field rest : Bytes} {α : Type u}

@[simp] theorem checked_bind (value : α) (next : α → Checked β) :
    ((.ok value : Checked α) >>= next) = next value := rfl

@[simp] theorem checked_pure (value : α) : (pure value : Checked α) = .ok value := rfl

theorem byteAt_front (front rest : Bytes) (byte : UInt8) :
    byteAt (front ++ byte :: rest) front.length = .ok byte := by
  simp [byteAt]

theorem spanAt_front (front field rest : Bytes) :
    spanAt (front ++ (field ++ rest)) front.length field.length = .ok field := by
  induction field generalizing front with
  | nil => rfl
  | cons byte field ih =>
      have later := ih (front ++ [byte])
      simp only [List.append_assoc, List.singleton_append, List.length_append,
        List.length_singleton] at later
      simp only [List.cons_append, List.length_cons, spanAt, byteAt_front, checked_bind, later,
        checked_pure]

theorem spanAt_eq {pos width : Nat} (inside : pos + width ≤ data.length) :
    spanAt data pos width = .ok ((data.drop pos).take width) := by
  have read := spanAt_front (data.take pos) ((data.drop pos).take width) ((data.drop pos).drop width)
  rw [List.take_append_drop, List.take_append_drop, List.length_take, List.length_take,
    List.length_drop, min_eq_left (by omega : pos ≤ data.length),
    min_eq_left (by omega : width ≤ data.length - pos)] at read
  exact read

theorem beAt_front (front field rest : Bytes) (value : Nat) :
    beAt (front ++ (field ++ rest)) front.length value field.length =
      .ok (value * 256 ^ field.length + beValue field) := by
  induction field generalizing front value with
  | nil => simp [beAt, beValue, leValue]
  | cons byte field ih =>
      have later := ih (front ++ [byte]) (value <<< 8 ||| byte.toNat)
      simp only [List.append_assoc, List.singleton_append, List.length_append,
        List.length_singleton] at later
      have shifted : value <<< 8 ||| byte.toNat = value * 256 + byte.toNat := by
        rw [← Nat.shiftLeft_add_eq_or_of_lt byte.toNat_lt, Nat.shiftLeft_eq]
      simp only [List.cons_append, List.length_cons, beAt, byteAt_front, checked_bind, later]
      rw [shifted, beValue_cons, Nat.pow_succ]
      congr 1
      ring

theorem leAt_front (front field rest : Bytes) {value index : Nat} (below : value < 256 ^ index) :
    leAt (front ++ (field ++ rest)) front.length value index field.length =
      .ok (value + 256 ^ index * leValue field) := by
  induction field generalizing front value index with
  | nil => simp [leAt, leValue]
  | cons byte field ih =>
      have power : 256 ^ index = 2 ^ (8 * index) := by
        rw [Nat.pow_mul]
      have joined : value ||| byte.toNat <<< (8 * index) = value + 256 ^ index * byte.toNat := by
        rw [Nat.or_comm, ← Nat.shiftLeft_add_eq_or_of_lt (by rwa [← power]), Nat.shiftLeft_eq, power]
        ring
      have bound := byte.toNat_lt
      have below' : value + 256 ^ index * byte.toNat < 256 ^ (index + 1) := by
        calc value + 256 ^ index * byte.toNat
            < 256 ^ index + 256 ^ index * byte.toNat := by omega
          _ = 256 ^ index * (1 + byte.toNat) := by ring
          _ ≤ 256 ^ index * 256 := Nat.mul_le_mul_left _ (by omega)
          _ = 256 ^ (index + 1) := (Nat.pow_succ ..).symm
      have later := ih (front ++ [byte]) below'
      simp only [List.append_assoc, List.singleton_append, List.length_append,
        List.length_singleton] at later
      simp only [List.cons_append, List.length_cons, leAt, byteAt_front, checked_bind, joined, later]
      rw [leValue, Nat.pow_succ]
      congr 1
      ring

theorem matchesAt_front (front field rest : Bytes) {mark : Bytes} (size : field.length = mark.length) :
    matchesAt (front ++ (field ++ rest)) front.length mark = .ok (decide (field = mark)) := by
  induction field generalizing front mark with
  | nil =>
      rw [List.length_nil] at size
      rw [List.eq_nil_of_length_eq_zero size.symm]
      rfl
  | cons byte field ih =>
      cases mark with
      | nil => contradiction
      | cons wanted mark =>
          have later := ih (front ++ [byte]) (Nat.succ.inj size)
          simp only [List.append_assoc, List.singleton_append, List.length_append,
            List.length_singleton] at later
          simp only [List.cons_append, matchesAt, byteAt_front, checked_bind, later]
          by_cases same : byte = wanted
          · simp [same]
          · simp [same]

/-- A field of the buffer, in front of what is read next. Every way to read the
field finds it. -/
structure Lies (data front field rest : Bytes) (width : Nat) : Prop where
  split : data = (front ++ field) ++ rest
  room : ¬ front.length + width > data.length
  next : (front ++ field).length = front.length + width
  span : spanAt data front.length width = .ok field
  big : beAt data front.length 0 width = .ok (beValue field)
  little : leAt data front.length 0 0 width = .ok (leValue field)

theorem lies_front (front field rest : Bytes) :
    Lies (front ++ (field ++ rest)) front field rest field.length where
  split := (List.append_assoc _ _ _).symm
  room := by simp only [List.length_append]; omega
  next := List.length_append
  span := spanAt_front front field rest
  big := by rw [beAt_front, Nat.zero_mul, Nat.zero_add]
  little := by rw [leAt_front _ _ _ (by simp), Nat.pow_zero, Nat.one_mul, Nat.zero_add]

/-- The bounds check of a decoder and the cursor's say the same, and behind the
check lies the field that is read next. -/
theorem read_cases (split : data = front ++ rest) (width : Nat) :
    front.length + width > data.length ∧ takeField width rest = none ∨
      ∃ field left, takeField width rest = some (field, left) ∧ Lies data front field left width := by
  subst split
  by_cases room : width ≤ rest.length
  · right
    have whole := lies_front front (rest.take width) (rest.drop width)
    rw [List.take_append_drop, List.length_take, min_eq_left room] at whole
    exact ⟨_, _, if_pos room, whole⟩
  · left
    rw [List.length_append]
    exact ⟨by omega, if_neg room⟩

theorem Lies.matches {data front field rest mark : Bytes}
    (lies : Lies data front field rest mark.length) :
    matchesAt data front.length mark = .ok (decide (field = mark)) := by
  have size := lies.next
  rw [List.length_append] at size
  rw [lies.split, List.append_assoc]
  exact matchesAt_front front field rest (by omega)

theorem Lies.byte {data front field rest : Bytes} (lies : Lies data front field rest 1) :
    ∃ byte, field = [byte] ∧ byteAt data front.length = .ok byte := by
  have size := lies.next
  rw [List.length_append] at size
  obtain ⟨byte, rfl⟩ := List.length_eq_one_iff.mp (by omega : field.length = 1)
  refine ⟨byte, rfl, ?_⟩
  rw [lies.split, List.append_assoc]
  exact byteAt_front front rest byte

theorem sizedAt_agrees (width : Nat) (split : data = front ++ rest) :
    Agrees data (sizedAt data width front.length)
      ((Format.sized (Format.bigEndian width)).take rest) := by
  simp only [sizedAt, Format.sized, Format.bigEndian_take]
  rcases read_cases split width with ⟨short, cut⟩ | ⟨field, left, found, size⟩
  · rw [if_pos short, cut]
    exact .none
  · simp only [if_neg size.room, found, size.big, checked_bind, Option.map_some]
    rcases read_cases size.split (beValue field) with ⟨short, cut⟩ | ⟨text, behind, taken, string⟩
    · rw [← size.next, if_pos short, cut]
      exact .none
    · rw [← size.next, if_neg string.room, taken, string.span, ← string.next]
      exact .some _ _ _ string.split

/-- The loop reads what the counted list has, and never more items than there
are bytes for them. -/
theorem manyAt_front {item : Nat → Checked (Option (α × Nat))} (format : Format α) {least : Nat}
    (reads : ∀ front rest, data = front ++ rest → Agrees data (item front.length) (format.take rest))
    (wide : ∀ value, least ≤ (format.encode value).length) (count : Nat) (out : List α)
    (split : data = front ++ rest) :
    ∃ found, manyAt item count front.length out =
        .ok ((takeMany format.take count rest).isSome, out ++ found) ∧
      (∀ items left, takeMany format.take count rest = some (items, left) → items = found) ∧
      least * found.length ≤ rest.length := by
  induction count generalizing front rest out with
  | zero =>
      refine ⟨[], by rw [List.append_nil]; rfl, ?_, Nat.zero_le _⟩
      rintro items left ⟨⟩
      rfl
  | succ count ih =>
      have first := reads front rest split
      simp only [manyAt, takeMany]
      generalize item front.length = read at first ⊢
      generalize taken : format.take rest = found at first ⊢
      cases first with
      | none => exact ⟨[], by rw [List.append_nil]; rfl, by simp, Nat.zero_le _⟩
      | some value front' left split' =>
          obtain ⟨later, read, same, bound⟩ := ih (out ++ [value]) split'
          refine ⟨value :: later, ?_, ?_, ?_⟩
          · rw [checked_bind]
            simp only [read, List.append_assoc, List.singleton_append]
            cases takeMany format.take count left <;> rfl
          · intro items last all
            cases rest' : takeMany format.take count left with
            | none => simp [rest'] at all
            | some pair =>
                obtain ⟨others, last'⟩ := pair
                simp only [rest', Option.some.injEq, Prod.mk.injEq] at all
                rw [← all.1, same others last' rest']
          · obtain ⟨_, rfl⟩ := format.encode_take taken
            have size := wide value
            rw [List.length_cons, List.length_append, Nat.mul_add]
            omega

theorem manyAt_cases {item : Nat → Checked (Option (α × Nat))} (format : Format α) {least : Nat}
    (reads : ∀ front rest, data = front ++ rest → Agrees data (item front.length) (format.take rest))
    (wide : ∀ value, least ≤ (format.encode value).length) (count : Nat) (split : data = front ++ rest) :
    ∃ accepted found, manyAt item count front.length [] = .ok (accepted, found) ∧
      least * found.length ≤ data.length ∧
      ((accepted = true ∧ ∃ left, takeMany format.take count rest = some (found, left)) ∨
        accepted = false ∧ takeMany format.take count rest = none) := by
  obtain ⟨found, read, same, bound⟩ := manyAt_front format reads wide count [] split
  have inside : least * found.length ≤ data.length := by
    rw [split, List.length_append]
    omega
  cases taken : takeMany format.take count rest with
  | none => exact ⟨false, found, by rw [read, taken]; rfl, inside, .inr ⟨rfl, rfl⟩⟩
  | some pair =>
      obtain ⟨items, left⟩ := pair
      exact ⟨true, found, by rw [read, taken]; rfl, inside, .inl ⟨rfl, left, by rw [same _ _ taken]⟩⟩

/-- A counted list at the front of the buffer: the loop runs as often as the
field says that is read first. -/
theorem counted_cases {α : Type} {item : Nat → Checked (Option (α × Nat))} (format : Format α)
    {least : Nat}
    (reads : ∀ front rest, data = front ++ rest → Agrees data (item front.length) (format.take rest))
    (wide : ∀ value, least ≤ (format.encode value).length) {number : Format Nat} {width : Nat}
    {count : Checked Nat} (value : Bytes → Nat)
    (takes : ∀ bytes, number.take bytes =
      (takeField width bytes).map fun (field, rest) => (value field, rest))
    (found : ∀ field rest, Lies data [] field rest width → count = .ok (value field)) :
    ∃ accepted found, (if data.length < width then (pure (false, []) : Checked (Bool × List α))
        else do manyAt item (← count) width []) = .ok (accepted, found) ∧
      least * found.length ≤ data.length ∧
      ((accepted = true ∧ ∃ rest, (Format.counted number format).take data = some (found, rest)) ∨
        accepted = false ∧ (Format.counted number format).take data = none) := by
  simp only [Format.counted, takes]
  rcases @read_cases data [] data rfl width with ⟨short, cut⟩ | ⟨field, left, taken, lies⟩
  · rw [List.length_nil, Nat.zero_add] at short
    rw [if_pos short, cut]
    exact ⟨false, [], rfl, Nat.zero_le _, .inr ⟨rfl, rfl⟩⟩
  · have room := lies.room
    have next := lies.next
    rw [List.length_nil, Nat.zero_add] at room next
    rw [if_neg room, found field left lies, checked_bind, taken, ← next]
    exact manyAt_cases format reads wide (value field) lies.split

/-- The decoder accepts what the format takes off the front of the buffer, and
stays inside the buffer. On failure its output is not looked at. -/
def Decodes (format : Format α) (decode : Bytes → Checked (Bool × α)) : Prop :=
  ∀ data, ∃ accepted found, decode data = .ok (accepted, found) ∧
    ((accepted = true ∧ ∃ rest, format.take data = some (found, rest)) ∨
      accepted = false ∧ format.take data = none)

variable {format : Format α} {decode : Bytes → Checked (Bool × α)} {value : α}

theorem Decodes.accepts_iff (decodes : Decodes format decode) (data : Bytes) :
    decode data = .ok (true, value) ↔ format.Fits value ∧ format.encode value <+: data := by
  rw [← format.takes_iff]
  obtain ⟨accepted, found, decoded, ⟨rfl, rest, taken⟩ | ⟨rfl, nothing⟩⟩ := decodes data
  · rw [decoded, taken]
    simp
  · rw [decoded, nothing]
    simp

theorem Decodes.refuses_cut (decodes : Decodes format decode) (fits : format.Fits value)
    (inside : front <+: format.encode value) (cut : front ≠ format.encode value) :
    ∃ left, decode front = .ok (false, left) := by
  obtain ⟨accepted, found, decoded, ⟨rfl, rest, taken⟩ | ⟨rfl, _⟩⟩ := decodes front
  · rw [format.take_cut fits inside cut] at taken
    contradiction
  · exact ⟨found, decoded⟩

theorem Decodes.inside (decodes : Decodes format decode) (data : Bytes) :
    ∃ accepted found, decode data = .ok (accepted, found) := by
  obtain ⟨accepted, found, decoded, _⟩ := decodes data
  exact ⟨accepted, found, decoded⟩

end Skittermouse.Data
