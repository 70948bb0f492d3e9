import Mathlib.Order.Lattice
import Mathlib.Data.List.Forall2
import Mathlib.Data.List.Pairwise

namespace Skittermouse.Data

/-! Finite maps that iterate in key order.

The entry list is the representation as well as the iteration order, and the
structure carries the proof that its keys strictly increase. Clients reason
about `find?`; the list is only opened where a loop runs over it.
-/

/-- A finite map whose entries are kept in strictly increasing key order. -/
structure OrdMap (κ : Type u) (α : Type v) [LinearOrder κ] where
  entries : List (κ × α)
  sorted : entries.Pairwise fun left right => left.1 < right.1

namespace OrdMap

section Lists

variable {κ : Type u} {α : Type v} [LinearOrder κ]

def lookup (key : κ) : List (κ × α) → Option α
  | [] => none
  | (other, value) :: rest => if key = other then some value else lookup key rest

/-- Insertion at the key's place; an existing entry is overwritten. -/
def insertEntry (key : κ) (value : α) : List (κ × α) → List (κ × α)
  | [] => [(key, value)]
  | (other, held) :: rest =>
      if key < other then (key, value) :: (other, held) :: rest
      else if key = other then (key, value) :: rest
      else (other, held) :: insertEntry key value rest

def eraseEntry (key : κ) : List (κ × α) → List (κ × α)
  | [] => []
  | (other, held) :: rest => if key = other then rest else (other, held) :: eraseEntry key rest

theorem lookup_eq_none_of_lt {entries : List (κ × α)} {key : κ}
    (above : ∀ entry ∈ entries, key < entry.1) : lookup key entries = none := by
  induction entries with
  | nil => rfl
  | cons entry rest ih =>
      obtain ⟨other, value⟩ := entry
      have different : key ≠ other := (above (other, value) (by simp)).ne
      simp only [lookup, if_neg different]
      exact ih fun entry member => above entry (by simp [member])

theorem mem_insertEntry {entries : List (κ × α)} {key : κ} {value : α} {entry : κ × α}
    (member : entry ∈ insertEntry key value entries) :
    entry = (key, value) ∨ entry ∈ entries := by
  induction entries with
  | nil => simpa [insertEntry] using member
  | cons head rest ih =>
      obtain ⟨other, held⟩ := head
      simp only [insertEntry] at member
      split at member
      · simpa using member
      · split at member
        · rcases List.mem_cons.mp member with same | inside
          · exact .inl same
          · exact .inr (by simp [inside])
        · rcases List.mem_cons.mp member with same | inside
          · exact .inr (by simp [same])
          · exact (ih inside).imp_right fun found => by simp [found]

theorem insertEntry_sorted {entries : List (κ × α)} (key : κ) (value : α)
    (sorted : entries.Pairwise fun left right => left.1 < right.1) :
    (insertEntry key value entries).Pairwise fun left right => left.1 < right.1 := by
  induction entries with
  | nil => simp [insertEntry]
  | cons head rest ih =>
      obtain ⟨other, held⟩ := head
      obtain ⟨headBelow, restSorted⟩ := List.pairwise_cons.mp sorted
      simp only [insertEntry]
      split
      · rename_i below
        refine List.pairwise_cons.mpr ⟨?_, sorted⟩
        intro entry member
        rcases List.mem_cons.mp member with rfl | inside
        · exact below
        · exact below.trans (headBelow entry inside)
      · split
        · rename_i same
          subst same
          exact List.pairwise_cons.mpr ⟨headBelow, restSorted⟩
        · rename_i notBelow different
          refine List.pairwise_cons.mpr ⟨?_, ih restSorted⟩
          intro entry member
          rcases mem_insertEntry member with rfl | inside
          · exact lt_of_le_of_ne (not_lt.mp notBelow) (Ne.symm different)
          · exact headBelow entry inside

theorem eraseEntry_sublist (key : κ) (entries : List (κ × α)) :
    (eraseEntry key entries).Sublist entries := by
  induction entries with
  | nil => exact .slnil
  | cons head rest ih =>
      obtain ⟨other, held⟩ := head
      simp only [eraseEntry]
      split
      · exact .cons _ (.refl _)
      · exact .cons_cons _ ih

theorem lookup_insertEntry {entries : List (κ × α)} (key wanted : κ) (value : α)
    (sorted : entries.Pairwise fun left right => left.1 < right.1) :
    lookup wanted (insertEntry key value entries) =
      if wanted = key then some value else lookup wanted entries := by
  induction entries with
  | nil => simp [insertEntry, lookup]
  | cons head rest ih =>
      obtain ⟨other, held⟩ := head
      have tail := ih (List.pairwise_cons.mp sorted).2
      simp only [insertEntry]
      split
      · simp only [lookup]
      · split
        · rename_i same
          subst same
          simp only [lookup]
          split <;> rfl
        · rename_i different
          simp only [lookup, tail]
          by_cases found : wanted = other
          · subst found
            simp [Ne.symm different]
          · simp [found]

theorem insertEntry_lookup {entries : List (κ × α)} {key : κ} {value : α}
    (sorted : entries.Pairwise fun left right => left.1 < right.1)
    (found : lookup key entries = some value) : insertEntry key value entries = entries := by
  induction entries with
  | nil => contradiction
  | cons head rest ih =>
      obtain ⟨other, held⟩ := head
      obtain ⟨headBelow, restSorted⟩ := List.pairwise_cons.mp sorted
      simp only [lookup] at found
      split at found
      · rename_i same
        subst same
        cases found
        simp [insertEntry]
      · rename_i different
        have notBelow : ¬key < other := fun below => by
          rw [lookup_eq_none_of_lt fun entry member => below.trans (headBelow entry member)] at found
          contradiction
        simp only [insertEntry, if_neg notBelow, if_neg different, ih restSorted found]

theorem lookup_eraseEntry {entries : List (κ × α)} (key wanted : κ)
    (sorted : entries.Pairwise fun left right => left.1 < right.1) :
    lookup wanted (eraseEntry key entries) =
      if wanted = key then none else lookup wanted entries := by
  induction entries with
  | nil => simp [eraseEntry, lookup]
  | cons head rest ih =>
      obtain ⟨other, held⟩ := head
      obtain ⟨headBelow, restSorted⟩ := List.pairwise_cons.mp sorted
      simp only [eraseEntry]
      split
      · rename_i same
        subst same
        by_cases found : wanted = key
        · subst found
          rw [if_pos rfl]
          exact lookup_eq_none_of_lt headBelow
        · simp [lookup, found]
      · rename_i different
        simp only [lookup, ih restSorted]
        by_cases found : wanted = other
        · subst found
          simp [Ne.symm different]
        · simp [found]

theorem lookup_eq_some_iff {entries : List (κ × α)} {key : κ} {value : α}
    (sorted : entries.Pairwise fun left right => left.1 < right.1) :
    lookup key entries = some value ↔ (key, value) ∈ entries := by
  induction entries with
  | nil => simp [lookup]
  | cons head rest ih =>
      obtain ⟨other, held⟩ := head
      obtain ⟨headBelow, restSorted⟩ := List.pairwise_cons.mp sorted
      by_cases found : key = other
      · subst found
        have absent : (key, value) ∉ rest :=
          fun member => lt_irrefl key (headBelow (key, value) member)
        simp [lookup, absent, eq_comm]
      · simp [lookup, found, ih restSorted]

end Lists

variable {κ : Type u} {α : Type v} [LinearOrder κ]

def empty : OrdMap κ α := ⟨[], .nil⟩

instance : EmptyCollection (OrdMap κ α) := ⟨empty⟩

instance : Inhabited (OrdMap κ α) := ⟨empty⟩

def find? (map : OrdMap κ α) (key : κ) : Option α := lookup key map.entries

def insert (map : OrdMap κ α) (key : κ) (value : α) : OrdMap κ α :=
  ⟨insertEntry key value map.entries, insertEntry_sorted key value map.sorted⟩

def erase (map : OrdMap κ α) (key : κ) : OrdMap κ α :=
  ⟨eraseEntry key map.entries, map.sorted.sublist (eraseEntry_sublist key map.entries)⟩

def contains (map : OrdMap κ α) (key : κ) : Bool := (map.find? key).isSome

def modify (map : OrdMap κ α) (key : κ) (change : α → α) : OrdMap κ α :=
  match map.find? key with
  | some value => map.insert key (change value)
  | none => map

def mapValues (map : OrdMap κ α) (change : α → α) : OrdMap κ α :=
  ⟨map.entries.map fun entry => (entry.1, change entry.2), List.pairwise_map.mpr map.sorted⟩

@[simp] theorem find?_empty (key : κ) : (∅ : OrdMap κ α).find? key = none := rfl

@[simp] theorem entries_empty : (∅ : OrdMap κ α).entries = [] := rfl

theorem find?_insert (map : OrdMap κ α) (key wanted : κ) (value : α) :
    (map.insert key value).find? wanted = if wanted = key then some value else map.find? wanted :=
  lookup_insertEntry key wanted value map.sorted

@[simp] theorem find?_insert_self (map : OrdMap κ α) (key : κ) (value : α) :
    (map.insert key value).find? key = some value := by
  rw [find?_insert, if_pos rfl]

theorem find?_insert_of_ne (map : OrdMap κ α) {key wanted : κ} (value : α)
    (different : wanted ≠ key) : (map.insert key value).find? wanted = map.find? wanted := by
  rw [find?_insert, if_neg different]

theorem insert_find? {map : OrdMap κ α} {key : κ} {value : α} (found : map.find? key = some value) :
    map.insert key value = map := by
  obtain ⟨entries, sorted⟩ := map
  simp only [insert, mk.injEq]
  exact insertEntry_lookup sorted found

theorem modify_eq_insert {map : OrdMap κ α} {key : κ} {value : α} (change : α → α)
    (found : map.find? key = some value) : map.modify key change = map.insert key (change value) := by
  rw [modify, found]

theorem find?_erase (map : OrdMap κ α) (key wanted : κ) :
    (map.erase key).find? wanted = if wanted = key then none else map.find? wanted :=
  lookup_eraseEntry key wanted map.sorted

@[simp] theorem find?_erase_self (map : OrdMap κ α) (key : κ) :
    (map.erase key).find? key = none := by
  rw [find?_erase, if_pos rfl]

theorem find?_erase_of_ne (map : OrdMap κ α) {key wanted : κ} (different : wanted ≠ key) :
    (map.erase key).find? wanted = map.find? wanted := by
  rw [find?_erase, if_neg different]

theorem find?_modify (map : OrdMap κ α) (key wanted : κ) (change : α → α) :
    (map.modify key change).find? wanted =
      if wanted = key then (map.find? key).map change else map.find? wanted := by
  unfold modify
  split
  · rename_i value found
    rw [find?_insert]
    simp [found]
  · rename_i absent
    by_cases same : wanted = key
    · simp [same, absent]
    · simp [same]

theorem find?_modify_of_ne (map : OrdMap κ α) {key wanted : κ} (change : α → α)
    (different : wanted ≠ key) : (map.modify key change).find? wanted = map.find? wanted := by
  rw [find?_modify, if_neg different]

@[simp] theorem find?_modify_self (map : OrdMap κ α) (key : κ) (change : α → α) :
    (map.modify key change).find? key = (map.find? key).map change := by
  rw [find?_modify, if_pos rfl]

theorem find?_modify_isSome (map : OrdMap κ α) (key wanted : κ) (change : α → α) :
    ((map.modify key change).find? wanted).isSome = (map.find? wanted).isSome := by
  rw [find?_modify]
  split
  · rename_i same
    subst same
    cases map.find? wanted <;> rfl
  · rfl

theorem find?_mapValues (map : OrdMap κ α) (key : κ) (change : α → α) :
    (map.mapValues change).find? key = (map.find? key).map change := by
  obtain ⟨entries, sorted⟩ := map
  simp only [find?, mapValues]
  induction entries with
  | nil => rfl
  | cons entry rest ih =>
      have later := ih (List.pairwise_cons.mp sorted).2
      simp only [List.map_cons, lookup]
      split
      · rfl
      · exact later

theorem find?_foldl_modify_of_notMem (map : OrdMap κ α) {wanted : κ} (change : α → α)
    {keys : List κ} (apart : wanted ∉ keys) :
    (keys.foldl (fun map key => map.modify key change) map).find? wanted = map.find? wanted := by
  induction keys generalizing map with
  | nil => rfl
  | cons key rest ih =>
      obtain ⟨different, apart⟩ : wanted ≠ key ∧ wanted ∉ rest := by simpa using apart
      rw [List.foldl_cons, ih _ apart, find?_modify_of_ne _ _ different]

theorem find?_foldl_modify_of_mem (map : OrdMap κ α) {wanted : κ} (change : α → α)
    {keys : List κ} (distinct : keys.Nodup) (member : wanted ∈ keys) :
    (keys.foldl (fun map key => map.modify key change) map).find? wanted =
      (map.find? wanted).map change := by
  induction keys generalizing map with
  | nil => contradiction
  | cons key rest ih =>
      obtain ⟨fresh, distinct⟩ := List.nodup_cons.mp distinct
      rw [List.foldl_cons]
      by_cases same : wanted = key
      · subst same
        rw [find?_foldl_modify_of_notMem _ _ fresh, find?_modify_self]
      · rw [ih _ distinct (List.mem_of_ne_of_mem same member), find?_modify_of_ne _ _ same]

theorem mem_entries {map : OrdMap κ α} {key : κ} {value : α} :
    (key, value) ∈ map.entries ↔ map.find? key = some value :=
  (lookup_eq_some_iff map.sorted).symm

theorem contains_iff {map : OrdMap κ α} {key : κ} :
    map.contains key = true ↔ ∃ value, map.find? key = some value := by
  simp only [contains, Option.isSome_iff_exists]

theorem mem_keys {map : OrdMap κ α} {key : κ} :
    key ∈ map.entries.map Prod.fst ↔ map.contains key = true := by
  rw [contains_iff, List.mem_map]
  constructor
  · rintro ⟨⟨other, value⟩, member, rfl⟩
    exact ⟨value, mem_entries.mp member⟩
  · rintro ⟨value, found⟩
    exact ⟨(key, value), mem_entries.mpr found, rfl⟩

theorem contains_insert (map : OrdMap κ α) (key wanted : κ) (value : α) :
    (map.insert key value).contains wanted = true ↔ wanted = key ∨ map.contains wanted = true := by
  simp only [contains, find?_insert]
  split
  · rename_i same
    simp [same]
  · rename_i different
    simp [different]

theorem contains_erase (map : OrdMap κ α) (key wanted : κ) :
    (map.erase key).contains wanted = true ↔ wanted ≠ key ∧ map.contains wanted = true := by
  simp only [contains, find?_erase]
  split
  · rename_i same
    simp [same]
  · rename_i different
    simp [different]

theorem find?_erase_eq_some {map : OrdMap κ α} {key wanted : κ} {value : α} :
    (map.erase key).find? wanted = some value ↔ wanted ≠ key ∧ map.find? wanted = some value := by
  rw [find?_erase]
  split
  · rename_i same
    simp [same]
  · rename_i different
    simp [different]

theorem keys_nodup (map : OrdMap κ α) : (map.entries.map Prod.fst).Nodup := by
  have increasing : (map.entries.map Prod.fst).Pairwise (· < ·) :=
    List.pairwise_map.mpr map.sorted
  exact increasing.imp fun below => below.ne

section Related

variable {β : Type w} {R : α → β → Prop}

theorem related_head_le {left : List (κ × α)} {right : List (κ × β)} {key other : κ} {value : α}
    {held : β} (above : ∀ entry ∈ right, other < entry.1)
    (related : Option.Rel R (lookup key ((key, value) :: left)) (lookup key ((other, held) :: right))) :
    other ≤ key := by
  by_contra less
  have absent : lookup key right = none :=
    lookup_eq_none_of_lt fun entry member => (not_le.mp less).trans (above entry member)
  simp only [lookup, if_true, if_neg (not_le.mp less).ne, absent] at related
  contradiction

theorem forall₂_lookup {left : List (κ × α)} {right : List (κ × β)}
    (leftSorted : left.Pairwise fun one other => one.1 < other.1)
    (rightSorted : right.Pairwise fun one other => one.1 < other.1)
    (related : ∀ key, Option.Rel R (lookup key left) (lookup key right)) :
    List.Forall₂ (fun one other => one.1 = other.1 ∧ R one.2 other.2) left right := by
  induction left generalizing right with
  | nil =>
      cases right with
      | nil => exact .nil
      | cons entry right =>
          have first := related entry.1
          simp only [lookup, if_true] at first
          contradiction
  | cons entry left ih =>
      obtain ⟨key, value⟩ := entry
      obtain ⟨below, leftRest⟩ := List.pairwise_cons.mp leftSorted
      cases right with
      | nil =>
          have first := related key
          simp only [lookup, if_true] at first
          contradiction
      | cons entry right =>
          obtain ⟨other, held⟩ := entry
          obtain ⟨above, rightRest⟩ := List.pairwise_cons.mp rightSorted
          have swapped : Option.Rel (fun held value => R value held)
              (lookup other ((other, held) :: right)) (lookup other ((key, value) :: left)) := by
            have first := related other
            generalize lookup other ((key, value) :: left) = one at first ⊢
            generalize lookup other ((other, held) :: right) = two at first ⊢
            cases first with
            | none => exact .none
            | some first => exact .some first
          have same : key = other :=
            (related_head_le below swapped).antisymm (related_head_le above (related key))
          subst same
          have first := related key
          simp only [lookup, if_true] at first
          refine .cons ⟨rfl, ?_⟩ (ih leftRest rightRest fun wanted => ?_)
          · cases first with
            | some first => exact first
          · by_cases own : wanted = key
            · subst own
              rw [lookup_eq_none_of_lt below, lookup_eq_none_of_lt above]
              exact .none
            · have later := related wanted
              simpa only [lookup, if_neg own] using later

/-- Maps that relate key by key are walked through side by side. -/
theorem forall₂_entries {left : OrdMap κ α} {right : OrdMap κ β}
    (related : ∀ key, Option.Rel R (left.find? key) (right.find? key)) :
    List.Forall₂ (fun one other => one.1 = other.1 ∧ R one.2 other.2) left.entries right.entries :=
  forall₂_lookup left.sorted right.sorted related

theorem eq_of_find? {left right : OrdMap κ α} (same : ∀ key, left.find? key = right.find? key) :
    left = right := by
  have related (key : κ) : Option.Rel (· = ·) (left.find? key) (right.find? key) := by
    rw [same key]
    cases right.find? key with
    | none => exact .none
    | some value => exact .some rfl
  have entries : left.entries = right.entries := by
    rw [← List.forall₂_eq_eq_eq]
    exact (forall₂_entries related).imp fun one other pair => Prod.ext pair.1 pair.2
  cases left
  cases right
  congr

end Related

def emplace (map : OrdMap κ α) (key : κ) (value : α) : OrdMap κ α :=
  if map.contains key then map else map.insert key value

theorem find?_emplace (map : OrdMap κ α) (key wanted : κ) (value : α) :
    (map.emplace key value).find? wanted =
      (map.find? wanted).or (if wanted = key then some value else none) := by
  unfold emplace contains
  split
  · rename_i held
    split
    · rename_i same
      obtain ⟨old, found⟩ := Option.isSome_iff_exists.mp held
      rw [same, found, Option.some_or]
    · rw [Option.or_none]
  · rename_i absent
    rw [find?_insert]
    split
    · rename_i same
      rw [same, Option.not_isSome_iff_eq_none.mp absent, Option.none_or]
    · rw [Option.or_none]

/-- Emplacing one entry after another keeps the first of every key. -/
theorem find?_foldl_emplace (entries : List (κ × α)) (map : OrdMap κ α) (wanted : κ) :
    (entries.foldl (fun map entry => map.emplace entry.1 entry.2) map).find? wanted =
      (map.find? wanted).or (lookup wanted entries) := by
  induction entries generalizing map with
  | nil => rw [List.foldl_nil, lookup, Option.or_none]
  | cons entry entries ih =>
      rw [List.foldl_cons, ih, find?_emplace, Option.or_assoc, lookup]
      split
      · rw [Option.some_or]
      · rw [Option.none_or]

theorem foldl_emplace_entries (map : OrdMap κ α) :
    map.entries.foldl (fun map entry => map.emplace entry.1 entry.2) ∅ = map := by
  apply eq_of_find?
  intro key
  rw [find?_foldl_emplace, find?_empty, Option.none_or, find?]

end OrdMap

end Skittermouse.Data
