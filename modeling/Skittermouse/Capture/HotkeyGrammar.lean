import Skittermouse.Core.Hotkey

namespace Skittermouse.Capture

open Skittermouse.Data Skittermouse.Core Skittermouse.Platform

/-! # The grammar of hotkeys

A combination is split at its plus signs, and each token is trimmed and put in
lower case. The parser sums up the number behind an `f` before it looks at it,
so a long run of digits is the one place where its arithmetic can go wrong.
-/

def normal (raw : Bytes) : Bytes := lower (trim raw)

def tokens (s : Bytes) : List Bytes := (s.splitOn plusSign).map normal

def IsModifier (t : Bytes) : Prop := ∃ entry ∈ modifierNames, t = textOf entry.1

inductive KeyToken : Bytes → UInt16 → Prop where
  | letter (c : UInt8) (first : 0x61 ≤ c) (last : c ≤ 0x7A) :
      KeyToken [c] (UInt16.ofNat (0x41 + (c.toNat - 0x61)))
  | digit (c : UInt8) (digit : isDigit c = true) : KeyToken [c] (UInt16.ofNat (0x30 + digitOf c))
  | named (entry : String × UInt16) (member : entry ∈ keyNames) :
      KeyToken (textOf entry.1) entry.2
  | function (digits : Bytes) (some : digits ≠ []) (all : ∀ c ∈ digits, isDigit c = true)
      (first : 1 ≤ decimalValue 0 digits) (last : decimalValue 0 digits ≤ 24) :
      KeyToken (0x66 :: digits) (UInt16.ofNat (0x70 + (decimalValue 0 digits - 1)))

/-- Every token is a modifier, but for exactly one, which names a key. -/
def Grammatical (tokens : List Bytes) : Prop :=
  ∃ before t after, tokens = before ++ t :: after ∧ (∃ key, KeyToken t key) ∧
    ∀ other ∈ before ++ after, IsModifier other

/-- An `f` and a run of digits whose value is beyond every `int`. -/
def LongNumber (t : Bytes) : Prop :=
  ∃ digits rest, t = 0x66 :: (digits ++ rest) ∧ (∀ c ∈ digits, isDigit c = true) ∧
    kIntMax < decimalValue 0 digits

def flagIn (tokens : List Bytes) (flag : UInt32) : UInt32 :=
  if tokens.any fun t => named modifierNames t == some flag then flag else 0

def namedModifiers (tokens : List Bytes) : UInt32 :=
  flagIn tokens hotkeyModControl ||| flagIn tokens hotkeyModAlt ||| flagIn tokens hotkeyModShift |||
    flagIn tokens hotkeyModWin

variable {t : Bytes} {key : UInt16} {flag : UInt32}

/-! ## Tokens -/

theorem modifierNames_named : ∀ entry ∈ modifierNames,
    named modifierNames (textOf entry.1) = some entry.2 ∧ 3 ≤ (textOf entry.1).length ∧
      (textOf entry.1).head? ≠ some 0x66 := by
  decide

theorem keyNames_named : ∀ entry ∈ keyNames,
    named keyNames (textOf entry.1) = some entry.2 ∧ named modifierNames (textOf entry.1) = none ∧
      2 ≤ (textOf entry.1).length ∧ (textOf entry.1).head? ≠ some 0x66 ∧ entry.2 ≠ 0 := by
  decide

theorem named_eq_some {names : List (String × α)} {value : α} (found : named names t = some value) :
    ∃ entry ∈ names, t = textOf entry.1 ∧ entry.2 = value := by
  obtain ⟨entry, first, rfl⟩ := Option.map_eq_some_iff.mp found
  have same := List.find?_some first
  exact ⟨entry, List.mem_of_find?_eq_some first, (beq_iff_eq.mp same).symm, rfl⟩

theorem named_eq_none {names : List (String × α)} (other : ∀ entry ∈ names, t ≠ textOf entry.1) :
    named names t = none := by
  cases found : named names t with
  | none => rfl
  | some value =>
      obtain ⟨entry, member, same, _⟩ := named_eq_some found
      exact absurd same (other entry member)

theorem isModifier_iff : IsModifier t ↔ ∃ flag, named modifierNames t = some flag := by
  constructor
  · rintro ⟨entry, member, rfl⟩
    exact ⟨entry.2, (modifierNames_named entry member).1⟩
  · rintro ⟨flag, found⟩
    obtain ⟨entry, member, same, _⟩ := named_eq_some found
    exact ⟨entry, member, same⟩

/-! ## The number behind an `f` -/

theorem functionNumberFrom_none {n : Nat} {bytes : Bytes} (start : n ≤ kIntMax) :
    functionNumberFrom n bytes = none ↔ ∃ digits rest, bytes = digits ++ rest ∧
      (∀ c ∈ digits, isDigit c = true) ∧ kIntMax < decimalValue n digits := by
  induction bytes generalizing n with
  | nil =>
      refine iff_of_false (by simp [functionNumberFrom]) ?_
      rintro ⟨digits, rest, none, _, large⟩
      obtain ⟨rfl, _⟩ := List.append_eq_nil_iff.mp none.symm
      exact absurd large (not_lt.mpr start)
  | cons c rest ih =>
      rw [functionNumberFrom]
      by_cases digit : isDigit c = true
      · rw [if_neg (by simp [digit])]
        by_cases small : n * 10 + digitOf c ≤ kIntMax
        · rw [if_pos small, ih small]
          constructor
          · rintro ⟨digits, behind, rfl, all, large⟩
            exact ⟨c :: digits, behind, rfl, List.forall_mem_cons.mpr ⟨digit, all⟩, by
              rwa [decimalValue_cons]⟩
          · rintro ⟨digits, behind, same, all, large⟩
            cases digits with
            | nil => exact absurd large (not_lt.mpr start)
            | cons first digits =>
                obtain ⟨rfl, rfl⟩ := List.cons.inj same
                rw [decimalValue_cons] at large
                exact ⟨digits, behind, rfl, (List.forall_mem_cons.mp all).2, large⟩
        · rw [if_neg small]
          refine iff_of_true rfl ⟨[c], rest, rfl, by simpa using digit, ?_⟩
          rw [decimalValue_cons, decimalValue_nil]
          omega
      · rw [if_pos (by simpa using digit)]
        refine iff_of_false nofun ?_
        rintro ⟨digits, behind, same, all, large⟩
        cases digits with
        | nil => exact absurd large (not_lt.mpr start)
        | cons first digits =>
            obtain ⟨rfl, _⟩ := List.cons.inj same
            exact digit (List.forall_mem_cons.mp all).1

theorem functionNumberFrom_some {n m : Nat} {bytes : Bytes} (start : n ≤ kIntMax) :
    functionNumberFrom n bytes = some (some m) ↔
      (∀ c ∈ bytes, isDigit c = true) ∧ decimalValue n bytes = m ∧ m ≤ kIntMax := by
  induction bytes generalizing n with
  | nil =>
      simp only [functionNumberFrom, Option.some.injEq, decimalValue_nil, List.not_mem_nil,
        false_implies, implies_true, true_and]
      exact ⟨fun same => ⟨same, same ▸ start⟩, And.left⟩
  | cons c rest ih =>
      rw [functionNumberFrom, List.forall_mem_cons, decimalValue_cons]
      by_cases digit : isDigit c = true
      · rw [if_neg (by simp [digit])]
        by_cases small : n * 10 + digitOf c ≤ kIntMax
        · rw [if_pos small, ih small]
          simp [digit]
        · rw [if_neg small]
          refine iff_of_false nofun fun fits => ?_
          have grows := le_decimalValue (n * 10 + digitOf c) rest
          omega
      · rw [if_pos (by simpa using digit)]
        exact iff_of_false nofun fun all => digit all.1.1

/-! ## What a token is -/

theorem letterOrDigit_long (long : 2 ≤ t.length) : letterOrDigit t = none := by
  match t with
  | [] => rfl
  | [_] => contradiction
  | _ :: _ :: _ => rfl

theorem named_function {names : List (String × α)} {rest : Bytes}
    (apart : ∀ entry ∈ names, (textOf entry.1).head? ≠ some 0x66) :
    named names (0x66 :: rest) = none :=
  named_eq_none fun entry member same => apart entry member (by rw [← same]; rfl)

theorem keyFor_function (second : UInt8) (rest : Bytes) :
    keyFor (0x66 :: second :: rest) =
      (functionNumberFrom 0 (second :: rest)).map functionKey := by
  rw [keyFor.eq_def, letterOrDigit_long (by simp),
    named_function fun entry member => (keyNames_named entry member).2.2.2.1]
  exact if_pos rfl

theorem keyFor_none : keyFor t = none ↔ LongNumber t := by
  constructor
  · intro overflow
    rw [keyFor.eq_def] at overflow
    split at overflow
    · contradiction
    · contradiction
    · rename_i first second rest _ _
      split at overflow
      · rename_i function
        obtain ⟨digits, behind, same, all, large⟩ :=
          (functionNumberFrom_none (Nat.zero_le _)).mp (Option.map_eq_none_iff.mp overflow)
        exact ⟨digits, behind, by rw [function, same], all, large⟩
      · contradiction
    · contradiction
  · rintro ⟨digits, rest, rfl, all, large⟩
    cases digits with
    | nil => exact absurd large (by simp [kIntMax])
    | cons first digits =>
        rw [List.cons_append, keyFor_function, Option.map_eq_none_iff,
          functionNumberFrom_none (Nat.zero_le _)]
        exact ⟨first :: digits, rest, rfl, all, large⟩

theorem ofNat_ne_zero {code : Nat} (positive : 0 < code) (small : code < 2 ^ 16) :
    UInt16.ofNat code ≠ 0 := by
  intro same
  have value := congrArg UInt16.toNat same
  rw [UInt16.toNat_ofNat_of_lt' small] at value
  exact positive.ne' value

theorem letterOrDigit_some {vk : UInt16} (found : letterOrDigit t = some vk) :
    KeyToken t vk ∧ vk ≠ 0 := by
  unfold letterOrDigit at found
  split at found
  · rename_i c
    have bound := c.toNat_lt
    split at found
    · rename_i letter
      simp only [Bool.and_eq_true, decide_eq_true_eq] at letter
      cases found
      exact ⟨.letter c letter.1 letter.2, ofNat_ne_zero (by omega) (by omega)⟩
    · split at found
      · rename_i digit
        cases found
        exact ⟨.digit c digit, ofNat_ne_zero (by omega) (by rw [digitOf]; omega)⟩
      · contradiction
  · contradiction

theorem functionKey_of_ne_zero {number : Option Nat} (recognized : functionKey number ≠ 0) :
    ∃ n, number = some n ∧ 1 ≤ n ∧ n ≤ 24 := by
  cases number with
  | none => exact absurd rfl recognized
  | some n =>
      rw [functionKey] at recognized
      split at recognized
      · rename_i inside
        exact ⟨n, rfl, inside.1, inside.2⟩
      · exact absurd rfl recognized

theorem functionKey_some {n : Nat} (first : 1 ≤ n) (last : n ≤ 24) :
    functionKey (some n) = UInt16.ofNat (0x70 + (n - 1)) := if_pos ⟨first, last⟩

theorem keyToken_of_keyFor {vk : UInt16} (found : keyFor t = some vk) (recognized : vk ≠ 0) :
    KeyToken t vk := by
  rw [keyFor.eq_def] at found
  split at found
  · rename_i single
    cases found
    exact (letterOrDigit_some single).1
  · rename_i name
    cases found
    obtain ⟨entry, member, rfl, rfl⟩ := named_eq_some name
    exact .named entry member
  · rename_i first second rest _ _
    split at found
    · rename_i function
      obtain ⟨number, read, rfl⟩ := Option.map_eq_some_iff.mp found
      obtain ⟨n, rfl, first, last⟩ := functionKey_of_ne_zero recognized
      obtain ⟨all, rfl, _⟩ := (functionNumberFrom_some (Nat.zero_le _)).mp read
      rw [functionKey_some first last, function]
      exact .function _ (List.cons_ne_nil _ _) all first last
    · cases found
      exact absurd rfl recognized
  · cases found
    exact absurd rfl recognized

theorem keyFor_of_keyToken {vk : UInt16} (token : KeyToken t vk) : keyFor t = some vk ∧ vk ≠ 0 := by
  cases token with
  | letter c first last =>
      have bound := c.toNat_lt
      have found : letterOrDigit [c] = some (UInt16.ofNat (0x41 + (c.toNat - 0x61))) :=
        if_pos (by simp [first, last])
      rw [keyFor.eq_def, found]
      exact ⟨rfl, ofNat_ne_zero (by omega) (by omega)⟩
  | digit c digit =>
      have bound := c.toNat_lt
      have noLetter : ¬ (0x61 ≤ c && c ≤ 0x7A) = true := by
        simp only [isDigit, Bool.and_eq_true, decide_eq_true_eq, UInt8.le_iff_toNat_le] at digit ⊢
        simp only [zeroDigit, nineDigit, UInt8.reduceToNat] at digit ⊢
        omega
      have found : letterOrDigit [c] = some (UInt16.ofNat (0x30 + digitOf c)) := by
        rw [letterOrDigit, if_neg noLetter, if_pos digit]
      rw [keyFor.eq_def, found]
      exact ⟨rfl, ofNat_ne_zero (by omega) (by rw [digitOf]; omega)⟩
  | named entry member =>
      obtain ⟨found, _, long, _, recognized⟩ := keyNames_named entry member
      rw [keyFor.eq_def, letterOrDigit_long long, found]
      exact ⟨rfl, recognized⟩
  | function digits nonempty all first last =>
      cases digits with
      | nil => contradiction
      | cons second rest =>
          have read : functionNumberFrom 0 (second :: rest) =
              some (some (decimalValue 0 (second :: rest))) :=
            (functionNumberFrom_some (Nat.zero_le _)).mpr ⟨all, rfl, by rw [kIntMax]; omega⟩
          rw [keyFor_function, read, Option.map_some, functionKey_some first last]
          exact ⟨rfl, ofNat_ne_zero (by omega) (by omega)⟩

theorem keyFor_some {vk : UInt16} : keyFor t = some vk ∧ vk ≠ 0 ↔ KeyToken t vk :=
  ⟨fun read => keyToken_of_keyFor read.1 read.2, keyFor_of_keyToken⟩

theorem single_not_modifier (c : UInt8) : named modifierNames [c] = none :=
  named_eq_none fun entry member same => by
    have long := (modifierNames_named entry member).2.1
    rw [← same] at long
    contradiction

theorem keyToken_not_modifier (token : KeyToken t key) : named modifierNames t = none := by
  cases token with
  | letter c first last => exact single_not_modifier c
  | digit c digit => exact single_not_modifier c
  | named entry member => exact (keyNames_named entry member).2.1
  | function digits some all first last =>
      exact named_function fun entry member => (modifierNames_named entry member).2.2

theorem longNumber_not_modifier (long : LongNumber t) : named modifierNames t = none := by
  obtain ⟨digits, rest, rfl, _⟩ := long
  exact named_function fun entry member => (modifierNames_named entry member).2.2

/-! ## The union of the modifiers -/

theorem modifierNames_flags : ∀ entry ∈ modifierNames,
    entry.2 = hotkeyModControl ∨ entry.2 = hotkeyModAlt ∨ entry.2 = hotkeyModShift ∨
      entry.2 = hotkeyModWin := by
  decide

theorem namedModifiers_modifier {rest : List Bytes} (found : named modifierNames t = some flag) :
    namedModifiers (t :: rest) = flag ||| namedModifiers rest := by
  obtain ⟨entry, member, _, rfl⟩ := named_eq_some found
  have flags := modifierNames_flags entry member
  simp only [namedModifiers, flagIn, List.any_cons, found]
  generalize rest.any (fun t => named modifierNames t == some hotkeyModControl) = control
  generalize rest.any (fun t => named modifierNames t == some hotkeyModAlt) = alt
  generalize rest.any (fun t => named modifierNames t == some hotkeyModShift) = shift
  generalize rest.any (fun t => named modifierNames t == some hotkeyModWin) = win
  rcases flags with same | same | same | same <;> rw [same] <;>
    cases control <;> cases alt <;> cases shift <;> cases win <;> decide

theorem namedModifiers_other {rest : List Bytes} (other : named modifierNames t = none) :
    namedModifiers (t :: rest) = namedModifiers rest := by
  simp [namedModifiers, flagIn, other]

/-! ## Combinations -/

theorem grammatical_cons {rest : List Bytes} : Grammatical (t :: rest) ↔
    (IsModifier t ∧ Grammatical rest) ∨
      (∃ key, KeyToken t key) ∧ ∀ other ∈ rest, IsModifier other := by
  constructor
  · rintro ⟨before, chosen, after, whole, key, others⟩
    cases before with
    | nil =>
        obtain ⟨rfl, rfl⟩ := List.cons.inj whole
        exact .inr ⟨key, others⟩
    | cons first before =>
        obtain ⟨rfl, rfl⟩ := List.cons.inj whole
        rw [List.cons_append, List.forall_mem_cons] at others
        exact .inl ⟨others.1, before, chosen, after, rfl, key, others.2⟩
  · rintro (⟨modifier, before, chosen, after, rfl, key, others⟩ | ⟨key, others⟩)
    · exact ⟨t :: before, chosen, after, rfl, key, List.forall_mem_cons.mpr ⟨modifier, others⟩⟩
    · exact ⟨[], t, rest, rfl, key, others⟩

/-- What the loop still wants of the tokens that are left. -/
def Wanted (haveKey : Bool) (tokens : List Bytes) : Prop :=
  if haveKey then ∀ other ∈ tokens, IsModifier other else Grammatical tokens

/-- The loop comes to a number that overflows, past tokens that it takes. -/
def ReachesLong (haveKey : Bool) (tokens : List Bytes) : Prop :=
  ∃ before t after, tokens = before ++ t :: after ∧
    ((∀ other ∈ before, IsModifier other) ∨ Wanted haveKey before) ∧ LongNumber t

theorem wanted_nil {haveKey : Bool} : Wanted haveKey [] ↔ haveKey = true := by
  cases haveKey with
  | true => simp [Wanted]
  | false => simp [Wanted, Grammatical]

theorem wanted_cons {haveKey : Bool} {rest : List Bytes} : Wanted haveKey (t :: rest) ↔
    (IsModifier t ∧ Wanted haveKey rest) ∨
      haveKey = false ∧ (∃ key, KeyToken t key) ∧ Wanted true rest := by
  cases haveKey with
  | true => simp [Wanted]
  | false => simp [Wanted, grammatical_cons]

theorem reachesLong_nil {haveKey : Bool} : ¬ ReachesLong haveKey [] := by
  rintro ⟨before, t, after, whole, _⟩
  exact List.append_ne_nil_of_right_ne_nil before (List.cons_ne_nil t after) whole.symm

theorem reachesLong_cons {haveKey : Bool} {rest : List Bytes} : ReachesLong haveKey (t :: rest) ↔
    LongNumber t ∨ (IsModifier t ∧ ReachesLong haveKey rest) ∨
      haveKey = false ∧ (∃ key, KeyToken t key) ∧ ReachesLong true rest := by
  constructor
  · rintro ⟨before, chosen, after, whole, passed, long⟩
    cases before with
    | nil =>
        obtain ⟨rfl, rfl⟩ := List.cons.inj whole
        exact .inl long
    | cons first before =>
        obtain ⟨rfl, rfl⟩ := List.cons.inj whole
        right
        rw [List.forall_mem_cons, wanted_cons] at passed
        rcases passed with passed | passed | passed
        · exact .inl ⟨passed.1, before, chosen, after, rfl, .inl passed.2, long⟩
        · exact .inl ⟨passed.1, before, chosen, after, rfl, .inr passed.2, long⟩
        · exact .inr ⟨passed.1, passed.2.1, before, chosen, after, rfl, .inr passed.2.2, long⟩
  · rintro (long | ⟨modifier, before, chosen, after, rfl, passed, long⟩ |
      ⟨noKey, key, before, chosen, after, rfl, passed, long⟩)
    · exact ⟨[], t, rest, rfl, .inl (by simp), long⟩
    · refine ⟨t :: before, chosen, after, rfl, ?_, long⟩
      rw [List.forall_mem_cons, wanted_cons]
      exact passed.imp (fun others => ⟨modifier, others⟩) fun others => .inl ⟨modifier, others⟩
    · refine ⟨t :: before, chosen, after, rfl, .inr ?_, long⟩
      rw [wanted_cons]
      exact .inr ⟨noKey, key, passed.elim id id⟩

/-! ## The loop over the tokens -/

variable {hk : Hotkey} {haveKey : Bool} {raw : Bytes} {raws : List Bytes}

theorem parseTokens_cons : parseTokens hk haveKey (raw :: raws) =
    if normal raw = [] then some .init
    else match named modifierNames (normal raw) with
      | some flag => parseTokens { hk with modifiers := hk.modifiers ||| flag } haveKey raws
      | none => match keyFor (normal raw) with
        | none => none
        | some vk =>
            if vk = 0 then some .init
            else if haveKey then some .init
            else parseTokens { hk with key := vk } true raws := rfl

theorem parseTokens_modifier (found : named modifierNames (normal raw) = some flag) :
    parseTokens hk haveKey (raw :: raws) =
      parseTokens { hk with modifiers := hk.modifiers ||| flag } haveKey raws := by
  have nonempty : normal raw ≠ [] := by
    intro empty
    have nothing : named modifierNames [] = none := by decide
    rw [empty, nothing] at found
    contradiction
  rw [parseTokens_cons, if_neg nonempty, found]

theorem parseTokens_key (token : KeyToken (normal raw) key) :
    parseTokens hk haveKey (raw :: raws) =
      if haveKey then some .init else parseTokens { hk with key } true raws := by
  obtain ⟨read, recognized⟩ := keyFor_some.mpr token
  have nonempty : normal raw ≠ [] := by
    intro empty
    have nothing : keyFor [] = some 0 := rfl
    rw [empty, nothing] at read
    exact recognized (Option.some.inj read).symm
  rw [parseTokens_cons, if_neg nonempty, keyToken_not_modifier token]
  simp only [read, if_neg recognized]

theorem parseTokens_long (long : LongNumber (normal raw)) :
    parseTokens hk haveKey (raw :: raws) = none := by
  have nonempty : normal raw ≠ [] := by
    obtain ⟨digits, rest, same, _⟩ := long
    rw [same]
    exact List.cons_ne_nil _ _
  rw [parseTokens_cons, if_neg nonempty, longNumber_not_modifier long, keyFor_none.mpr long]

theorem parseTokens_other (noModifier : named modifierNames (normal raw) = none)
    (noKey : ¬ ∃ key, KeyToken (normal raw) key) (short : ¬ LongNumber (normal raw)) :
    parseTokens hk haveKey (raw :: raws) = some .init := by
  rw [parseTokens_cons, noModifier]
  split
  · rfl
  · cases read : keyFor (normal raw) with
    | none => exact absurd (keyFor_none.mp read) short
    | some vk =>
        have unknown : vk = 0 := by
          by_contra recognized
          exact noKey ⟨vk, keyFor_some.mp ⟨read, recognized⟩⟩
        simp only [if_pos unknown]

theorem token_cases (t : Bytes) : (∃ flag, named modifierNames t = some flag) ∨
    (∃ key, KeyToken t key) ∨ LongNumber t ∨
      named modifierNames t = none ∧ (¬ ∃ key, KeyToken t key) ∧ ¬ LongNumber t := by
  cases found : named modifierNames t with
  | some flag => exact .inl ⟨flag, rfl⟩
  | none =>
      by_cases token : ∃ key, KeyToken t key
      · exact .inr (.inl token)
      · by_cases long : LongNumber t
        · exact .inr (.inr (.inl long))
        · exact .inr (.inr (.inr ⟨rfl, token, long⟩))

theorem isModifier_iff_none : ¬ IsModifier t ↔ named modifierNames t = none := by
  rw [isModifier_iff, Option.eq_none_iff_forall_ne_some, not_exists]

theorem longNumber_not_key (long : LongNumber t) : ¬ ∃ key, KeyToken t key := by
  rintro ⟨key, token⟩
  have read := (keyFor_some.mpr token).1
  rw [keyFor_none.mpr long] at read
  contradiction

theorem modifier_not_key (found : named modifierNames t = some flag) :
    ¬ ∃ key, KeyToken t key := by
  rintro ⟨key, token⟩
  rw [keyToken_not_modifier token] at found
  contradiction

theorem modifier_not_long (found : named modifierNames t = some flag) : ¬ LongNumber t := by
  intro long
  rw [longNumber_not_modifier long] at found
  contradiction

theorem parseTokens_none :
    parseTokens hk haveKey raws = none ↔ ReachesLong haveKey (raws.map normal) := by
  induction raws generalizing hk haveKey with
  | nil => exact iff_of_false nofun reachesLong_nil
  | cons raw raws ih =>
      rw [List.map_cons, reachesLong_cons]
      rcases token_cases (normal raw) with ⟨flag, found⟩ | ⟨key, token⟩ | long | ⟨noModifier, noKey, short⟩
      · have modifier := isModifier_iff.mpr ⟨flag, found⟩
        rw [parseTokens_modifier found, ih]
        simp [modifier_not_key found, modifier_not_long found, modifier]
      · have noModifier := isModifier_iff_none.mpr (keyToken_not_modifier token)
        have short : ¬ LongNumber (normal raw) := fun long => longNumber_not_key long ⟨key, token⟩
        rw [parseTokens_key token]
        cases haveKey with
        | true => simp [noModifier, short]
        | false => simpa [noModifier, short, show ∃ key, KeyToken (normal raw) key from ⟨key, token⟩]
            using ih
      · rw [parseTokens_long long]
        exact iff_of_true rfl (.inl long)
      · rw [parseTokens_other noModifier noKey short]
        simp [isModifier_iff_none.mpr noModifier, noKey, short]

theorem parseTokens_valid {result : Hotkey} (parsed : parseTokens hk haveKey raws = some result)
    (valid : result.valid = true) : Wanted haveKey (raws.map normal) := by
  induction raws generalizing hk haveKey with
  | nil =>
      cases parsed
      exact wanted_nil.mpr valid
  | cons raw raws ih =>
      rw [List.map_cons, wanted_cons]
      rcases token_cases (normal raw) with ⟨flag, found⟩ | ⟨key, token⟩ | long | ⟨noModifier, noKey, short⟩
      · rw [parseTokens_modifier found] at parsed
        exact .inl ⟨isModifier_iff.mpr ⟨flag, found⟩, ih parsed⟩
      · rw [parseTokens_key token] at parsed
        cases haveKey with
        | true =>
            cases parsed
            contradiction
        | false => exact .inr ⟨rfl, ⟨key, token⟩, ih parsed⟩
      · rw [parseTokens_long long] at parsed
        contradiction
      · rw [parseTokens_other noModifier noKey short] at parsed
        cases parsed
        contradiction

theorem parseTokens_modifiers (others : ∀ other ∈ raws.map normal, IsModifier other) :
    parseTokens hk true raws = some {
      modifiers := hk.modifiers ||| namedModifiers (raws.map normal)
      key       := hk.key
      valid     := true } := by
  induction raws generalizing hk with
  | nil => simp [parseTokens, namedModifiers, flagIn]
  | cons raw raws ih =>
      rw [List.map_cons, List.forall_mem_cons] at others
      obtain ⟨flag, found⟩ := isModifier_iff.mp others.1
      rw [parseTokens_modifier found, ih others.2, List.map_cons, namedModifiers_modifier found,
        UInt32.or_assoc]

theorem parseTokens_grammatical (grammatical : Grammatical (raws.map normal)) :
    ∃ key, (∃ t ∈ raws.map normal, KeyToken t key) ∧
      parseTokens hk false raws = some {
        modifiers := hk.modifiers ||| namedModifiers (raws.map normal)
        key       := key
        valid     := true } := by
  induction raws generalizing hk with
  | nil =>
      obtain ⟨before, t, after, whole, _⟩ := grammatical
      exact absurd whole.symm (List.append_ne_nil_of_right_ne_nil before (List.cons_ne_nil t after))
  | cons raw raws ih =>
      rw [List.map_cons, grammatical_cons] at grammatical
      rw [List.map_cons]
      rcases grammatical with ⟨modifier, grammatical⟩ | ⟨⟨key, token⟩, others⟩
      · obtain ⟨flag, found⟩ := isModifier_iff.mp modifier
        obtain ⟨key, ⟨t, member, token⟩, parsed⟩ :=
          @ih { hk with modifiers := hk.modifiers ||| flag } grammatical
        refine ⟨key, ⟨t, List.mem_cons_of_mem _ member, token⟩, ?_⟩
        rw [parseTokens_modifier found, parsed, namedModifiers_modifier found, UInt32.or_assoc]
      · refine ⟨key, ⟨normal raw, List.mem_cons_self, token⟩, ?_⟩
        rw [parseTokens_key token, if_neg Bool.false_ne_true, parseTokens_modifiers others,
          namedModifiers_other (keyToken_not_modifier token)]

/-! ## Order, case and repetition -/

theorem lowerChar_cases (c : UInt8) : lowerChar c = c ∨
    0x41 ≤ c.toNat ∧ c.toNat ≤ 0x5A ∧ (lowerChar c).toNat = c.toNat + 0x20 := by
  unfold lowerChar
  split
  · rename_i upper
    simp only [Bool.and_eq_true, decide_eq_true_eq, UInt8.le_iff_toNat_le, UInt8.reduceToNat]
      at upper
    refine .inr ⟨upper.1, upper.2, ?_⟩
    simp only [UInt8.toNat_add, UInt8.toNat_sub, UInt8.reduceToNat]
    omega
  · exact .inl rfl

theorem lowerChar_idem (c : UInt8) : lowerChar (lowerChar c) = lowerChar c := by
  rcases lowerChar_cases (lowerChar c) with same | again
  · exact same
  · rcases lowerChar_cases c with same | upper
    · rw [same, same]
    · omega

theorem lowerChar_eq_iff {c low : UInt8} (small : low.toNat < 0x41) :
    lowerChar c = low ↔ c = low := by
  rcases lowerChar_cases c with same | upper
  · rw [same]
  · constructor
    · rintro rfl
      omega
    · rintro rfl
      omega

theorem lowerChar_plus (c : UInt8) : (lowerChar c == plusSign) = (c == plusSign) := by
  rw [Bool.eq_iff_iff, beq_iff_eq, beq_iff_eq, lowerChar_eq_iff (by decide)]

theorem isBlank_lowerChar (c : UInt8) : isBlank (lowerChar c) = isBlank c := by
  rw [Bool.eq_iff_iff, isBlank, isBlank, Bool.or_eq_true, Bool.or_eq_true, beq_iff_eq, beq_iff_eq,
    beq_iff_eq, beq_iff_eq, lowerChar_eq_iff (by decide), lowerChar_eq_iff (by decide)]

theorem splitOn_lower (s : Bytes) :
    (lower s).splitOn plusSign = (s.splitOn plusSign).map lower := by
  induction s with
  | nil => rfl
  | cons c rest ih =>
      rw [lower, List.map_cons, List.splitOn_cons_eq_if_modifyHead,
        List.splitOn_cons_eq_if_modifyHead, lowerChar_plus]
      rw [lower] at ih
      rw [ih]
      split
      · rfl
      · cases s : rest.splitOn plusSign with
        | nil => rfl
        | cons first others => rfl

theorem trim_lower (s : Bytes) : trim (lower s) = lower (trim s) := by
  have same : isBlank ∘ lowerChar = isBlank := funext isBlank_lowerChar
  rw [trim, lower, lower, List.dropWhile_map, same]
  rw [trim, List.rdropWhile, List.rdropWhile, ← List.map_reverse, List.dropWhile_map, same,
    List.map_reverse]

theorem lower_idem (s : Bytes) : lower (lower s) = lower s := by
  simp [lower, lowerChar_idem]

theorem tokens_lower (s : Bytes) : tokens (lower s) = tokens s := by
  rw [tokens, splitOn_lower, List.map_map, tokens]
  apply List.map_congr_left
  intro raw member
  simp only [Function.comp_apply, normal, trim_lower, lower_idem]

theorem flagIn_congr {these those : List Bytes} (same : ∀ t, t ∈ these ↔ t ∈ those)
    (flag : UInt32) : flagIn these flag = flagIn those flag := by
  have whether : (these.any fun t => named modifierNames t == some flag) =
      those.any fun t => named modifierNames t == some flag := by
    rw [Bool.eq_iff_iff, List.any_eq_true, List.any_eq_true]
    simp only [same]
  rw [flagIn, flagIn, whether]

theorem namedModifiers_congr {these those : List Bytes} (same : ∀ t, t ∈ these ↔ t ∈ those) :
    namedModifiers these = namedModifiers those := by
  simp only [namedModifiers, flagIn_congr same]

theorem keyToken_unique {other : UInt16} (this : KeyToken t key) (that : KeyToken t other) :
    key = other := by
  have read := (keyFor_some.mpr this).1
  rw [(keyFor_some.mpr that).1] at read
  exact (Option.some.inj read).symm

theorem grammatical_key {list : List Bytes} {other : Bytes} {second : UInt16}
    (grammatical : Grammatical list) (member : t ∈ list) (token : KeyToken t key)
    (again : other ∈ list) (twice : KeyToken other second) : key = second := by
  obtain ⟨before, chosen, after, rfl, _, others⟩ := grammatical
  have only : ∀ {t key}, t ∈ before ++ chosen :: after → KeyToken t key → t = chosen := by
    intro t key member token
    by_contra apart
    rw [List.mem_append, List.mem_cons] at member
    have modifier := others t (List.mem_append.mpr (member.imp id fun rest => rest.resolve_left apart))
    exact isModifier_iff_none.mpr (keyToken_not_modifier token) modifier
  rw [only member token] at token
  rw [only again twice] at twice
  exact keyToken_unique token twice

/-! ## What the parser makes of a text -/

/-- The parser reads the text without leaving the range of a type, takes exactly the
grammatical combinations, and finds in one the union of its modifiers and its key,
whatever the order and the case of the tokens and however often a modifier stands there. -/
def MeetsGrammar (s : Bytes) : Prop :=
  ∃ hk, parseHotkey s = some hk ∧ (hk.valid = true ↔ Grammatical (tokens s)) ∧
    (hk.valid = true →
      hk.modifiers = namedModifiers (tokens s) ∧ (∃ t ∈ tokens s, KeyToken t hk.key) ∧
        ∀ other, lower other = lower s ∨
          (Grammatical (tokens other) ∧ ∀ t, t ∈ tokens other ↔ t ∈ tokens s) →
            parseHotkey other = some hk)

theorem parseHotkey_grammatical {s : Bytes} (grammatical : Grammatical (tokens s)) :
    ∃ key, (∃ t ∈ tokens s, KeyToken t key) ∧ parseHotkey s = some {
      modifiers := namedModifiers (tokens s)
      key       := key
      valid     := true } := by
  obtain ⟨key, named, parsed⟩ := @parseTokens_grammatical .init _ grammatical
  refine ⟨key, named, ?_⟩
  rw [parseHotkey, parsed, Hotkey.init, UInt32.zero_or, tokens]

theorem parseHotkey_valid {s : Bytes} {hk : Hotkey} (parsed : parseHotkey s = some hk) :
    hk.valid = true ↔ Grammatical (tokens s) := by
  constructor
  · intro valid
    have complete := parseTokens_valid parsed valid
    simpa only [Wanted, if_neg Bool.false_ne_true, tokens] using complete
  · intro grammatical
    obtain ⟨key, _, again⟩ := parseHotkey_grammatical grammatical
    rw [again] at parsed
    cases parsed
    rfl

theorem parseHotkey_congr {s other : Bytes} (here : Grammatical (tokens s))
    (there : Grammatical (tokens other)) (same : ∀ t, t ∈ tokens other ↔ t ∈ tokens s) :
    parseHotkey other = parseHotkey s := by
  obtain ⟨key, ⟨t, member, token⟩, parsed⟩ := parseHotkey_grammatical here
  obtain ⟨second, ⟨u, again, twice⟩, reparsed⟩ := parseHotkey_grammatical there
  have equal : key = second := grammatical_key here member token ((same u).mp again) twice
  rw [parsed, reparsed, equal, namedModifiers_congr same]

/-- The parser meets its grammar on a text exactly where no token that it comes to is an
`f` with more digits than an `int` holds. -/
theorem hotkey_grammar_iff (s : Bytes) : MeetsGrammar s ↔
    ∀ before t after, tokens s = before ++ t :: after →
      ((∀ other ∈ before, IsModifier other) ∨ Grammatical before) → ¬ LongNumber t := by
  have reached : parseHotkey s = none ↔ ReachesLong false (tokens s) := parseTokens_none
  constructor
  · rintro ⟨hk, parsed, _⟩ before t after whole passed long
    have overflow := reached.mpr ⟨before, t, after, whole, passed, long⟩
    rw [overflow] at parsed
    contradiction
  · intro short
    cases parsed : parseHotkey s with
    | none =>
        obtain ⟨before, t, after, whole, passed, long⟩ := reached.mp parsed
        exact absurd long (short before t after whole passed)
    | some hk =>
        refine ⟨hk, parsed, parseHotkey_valid parsed, ?_⟩
        intro valid
        have grammatical := (parseHotkey_valid parsed).mp valid
        obtain ⟨key, token, again⟩ := parseHotkey_grammatical grammatical
        rw [parsed] at again
        cases again
        refine ⟨rfl, token, ?_⟩
        rintro other (same | ⟨there, same⟩)
        · have equal : tokens other = tokens s := by
            rw [← tokens_lower, same, tokens_lower]
          rw [← parsed, parseHotkey_congr grammatical (equal ▸ grammatical) (by simp [equal])]
        · rw [← parsed, parseHotkey_congr grammatical there same]

/-- The number behind the `f` overflows; wrapped around it is 1, the key F1. -/
theorem long_number_overflows : ¬ MeetsGrammar (textOf "F4294967297") := by
  rintro ⟨hk, parsed, _⟩
  have overflow : parseHotkey (textOf "F4294967297") = none := by decide
  rw [overflow] at parsed
  contradiction

end Skittermouse.Capture
