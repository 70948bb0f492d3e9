import Mathlib.Data.Set.Insert
import Mathlib.Data.List.Induction
import Mathlib.Order.BooleanAlgebra.Set

namespace Skittermouse.Data

/-! # Presses and releases

What a sequence of presses and releases leaves down. A release that is lost
leaves more down than one that arrives, and a lost press leaves less, so a
sequence is compared with another by inclusion of what they leave down.
-/

structure Stroke (κ : Type u) where
  key : κ
  down : Bool
deriving DecidableEq

variable {κ : Type u}

def Stroke.apply (held : Set κ) (stroke : Stroke κ) : Set κ :=
  if stroke.down then insert stroke.key held else held \ {stroke.key}

def replay (held : Set κ) (strokes : List (Stroke κ)) : Set κ := strokes.foldl Stroke.apply held

def Settled (strokes : List (Stroke κ)) : Prop :=
  ∀ before key later, strokes = before ++ ⟨key, true⟩ :: later → ⟨key, false⟩ ∈ later

variable {held other : Set κ} {stroke : Stroke κ} {strokes : List (Stroke κ)} {key : κ}

@[simp] theorem replay_nil : replay held [] = held := rfl

@[simp] theorem replay_cons : replay held (stroke :: strokes) = replay (stroke.apply held) strokes :=
  rfl

theorem replay_append (first second : List (Stroke κ)) :
    replay held (first ++ second) = replay (replay held first) second := List.foldl_append

theorem Stroke.apply_mono (stroke : Stroke κ) (less : held ⊆ other) :
    stroke.apply held ⊆ stroke.apply other := by
  unfold Stroke.apply
  split
  · exact Set.insert_subset_insert less
  · exact Set.sdiff_subset_sdiff_left less

theorem replay_mono (strokes : List (Stroke κ)) (less : held ⊆ other) :
    replay held strokes ⊆ replay other strokes := by
  induction strokes generalizing held other with
  | nil => exact less
  | cons stroke rest ih => exact ih (stroke.apply_mono less)

/-- Losing a press, or the release of a key that is up anyway, loses nothing
that is down. -/
theorem Stroke.subset_apply (harmless : stroke.down = false → stroke.key ∉ held) :
    held ⊆ stroke.apply held := by
  unfold Stroke.apply
  split
  · exact Set.subset_insert _ _
  · rename_i up
    rw [Set.sdiff_singleton_eq_self (harmless (Bool.not_eq_true _ ▸ up))]

theorem replay_releases (keys : List κ) :
    replay held (keys.map fun key => ⟨key, false⟩) = {key | key ∈ held ∧ key ∉ keys} := by
  induction keys generalizing held with
  | nil => simp
  | cons key rest ih =>
      rw [List.map_cons, replay_cons, ih]
      ext other
      simp only [Stroke.apply, Bool.false_eq_true, if_false, Set.mem_sdiff, Set.mem_singleton_iff,
        Set.mem_ofPred_eq, List.mem_cons, not_or, and_assoc]

/-- A key that was down and is up again has been released in between. -/
theorem released_of_up (down : key ∈ held) (up : key ∉ replay held strokes) :
    ⟨key, false⟩ ∈ strokes := by
  induction strokes generalizing held with
  | nil => exact absurd down up
  | cons stroke rest ih =>
      by_cases still : key ∈ stroke.apply held
      · exact List.mem_cons_of_mem _ (ih still up)
      · obtain ⟨other, pressed⟩ := stroke
        cases pressed with
        | true => exact absurd (Set.mem_insert_of_mem _ down) still
        | false =>
            have same : key = other := by
              by_contra apart
              exact still ⟨down, apart⟩
            rw [same]
            exact List.mem_cons_self

theorem settled_of_none_held (up : replay ∅ strokes = ∅) : Settled strokes := by
  rintro before key later rfl
  rw [replay_append, replay_cons] at up
  have pressed : key ∈ Stroke.apply (replay ∅ before) ⟨key, true⟩ := Set.mem_insert key _
  exact released_of_up pressed (by rw [up]; exact Set.notMem_empty key)

/-! ## Groups of keys

A group of keys watched through one switch that follows the last stroke of any
of them. The switch is on only while a key of the group is down, and it is off
with a key down when another key of the group was released meanwhile.
-/

def pressedLast (group : κ → Bool) (strokes : List (Stroke κ)) : Bool :=
  strokes.foldl (fun last stroke => if group stroke.key then stroke.down else last) false

def Holds (group : κ → Bool) (strokes : List (Stroke κ)) : Prop :=
  ∃ key, group key = true ∧ key ∈ replay ∅ strokes

def HalfReleased (group : κ → Bool) (strokes : List (Stroke κ)) : Prop :=
  Holds group strokes ∧ pressedLast group strokes = false

variable {group : κ → Bool}

theorem pressedLast_concat (group : κ → Bool) (strokes : List (Stroke κ)) (last : Stroke κ) :
    pressedLast group (strokes ++ [last]) =
      if group last.key then last.down else pressedLast group strokes := by
  simp [pressedLast, List.foldl_append]

theorem replay_concat (strokes : List (Stroke κ)) (last : Stroke κ) :
    replay held (strokes ++ [last]) = last.apply (replay held strokes) := by
  rw [replay_append, replay_cons, replay_nil]

theorem holds_of_pressedLast (pressed : pressedLast group strokes = true) : Holds group strokes := by
  induction strokes using List.reverseRecOn with
  | nil => exact absurd pressed (by simp [pressedLast])
  | append_singleton earlier last ih =>
      rw [pressedLast_concat] at pressed
      rw [Holds, replay_concat]
      split at pressed
      · rename_i inside
        refine ⟨last.key, inside, ?_⟩
        rw [Stroke.apply, if_pos pressed]
        exact Set.mem_insert _ _
      · rename_i outside
        obtain ⟨key, inside, down⟩ := ih pressed
        refine ⟨key, inside, ?_⟩
        unfold Stroke.apply
        split
        · exact Set.mem_insert_of_mem _ down
        · refine ⟨down, ?_⟩
          rintro rfl
          exact outside inside

/-- Away from a half release the switch tells whether a key of the group is down. -/
theorem pressedLast_iff_holds (whole : ¬ HalfReleased group strokes) :
    pressedLast group strokes = true ↔ Holds group strokes := by
  refine ⟨holds_of_pressedLast, fun holds => ?_⟩
  by_contra off
  exact whole ⟨holds, Bool.eq_false_of_not_eq_true off⟩

theorem HalfReleased.off (half : HalfReleased group strokes) : ¬ pressedLast group strokes = true :=
  Bool.eq_false_iff.mp half.2

/-- A chord over groups of keys: every required group, and no other, is on. -/
def Chord {ι : Type v} (required : ι → Bool) (on : ι → Prop) : Prop :=
  ∀ index, on index ↔ required index = true

/-- Half releases do not change the verdict on a chord: there are none, or a
group without one decides it, or a required group and another one are half
released at once. -/
def Decisive {ι : Type v} (groups : ι → κ → Bool) (required : ι → Bool)
    (strokes : List (Stroke κ)) : Prop :=
  (∀ index, ¬ HalfReleased (groups index) strokes) ∨
    (∃ index, ¬ HalfReleased (groups index) strokes ∧
      ¬ (Holds (groups index) strokes ↔ required index = true)) ∨
    (∃ index, HalfReleased (groups index) strokes ∧ required index = true) ∧
      ∃ index, HalfReleased (groups index) strokes ∧ required index = false

/-- The switches recognise a chord exactly when it is held, except where half
releases decide. -/
theorem chord_iff_decisive {ι : Type v} (groups : ι → κ → Bool) (required : ι → Bool)
    (strokes : List (Stroke κ)) :
    (Chord required (fun index => pressedLast (groups index) strokes = true) ↔
        Chord required fun index => Holds (groups index) strokes) ↔
      Decisive groups required strokes := by
  constructor
  · intro same
    by_cases whole : ∀ index, ¬ HalfReleased (groups index) strokes
    · exact .inl whole
    · obtain ⟨half, halfReleased⟩ := not_forall_not.mp whole
      refine .inr ?_
      by_contra undecided
      obtain ⟨agree, alike⟩ := not_or.mp undecided
      have others (index : ι) (whole : ¬ HalfReleased (groups index) strokes) :
          Holds (groups index) strokes ↔ required index = true := by
        by_contra differs
        exact agree ⟨index, whole, differs⟩
      -- All half released groups are required, or none is: one chord is there, the other not.
      by_cases needed : required half = true
      · have allNeeded (index : ι) (halfReleased : HalfReleased (groups index) strokes) :
            required index = true := by
          by_contra free
          exact alike ⟨⟨half, ‹_›, needed⟩, index, halfReleased, Bool.eq_false_of_not_eq_true free⟩
        have held : Chord required fun index => Holds (groups index) strokes := by
          intro index
          by_cases here : HalfReleased (groups index) strokes
          · exact iff_of_true here.1 (allNeeded index here)
          · exact others index here
        exact halfReleased.off ((same.mpr held half).mpr needed)
      · have noneNeeded (index : ι) (halfReleased : HalfReleased (groups index) strokes) :
            ¬ required index = true := fun wanted =>
          alike ⟨⟨index, halfReleased, wanted⟩, half, ‹_›, Bool.eq_false_of_not_eq_true needed⟩
        have switched : Chord required fun index => pressedLast (groups index) strokes = true := by
          intro index
          by_cases here : HalfReleased (groups index) strokes
          · exact iff_of_false here.off (noneNeeded index here)
          · exact (pressedLast_iff_holds here).trans (others index here)
        exact needed ((same.mp switched half).mp halfReleased.1)
  · rintro (whole | ⟨index, whole, differs⟩ | ⟨⟨needed, neededHalf, wanted⟩, free, freeHalf, unwanted⟩)
    · exact forall_congr' fun index => iff_congr (pressedLast_iff_holds (whole index)) Iff.rfl
    · refine iff_of_false (fun switched => differs ?_) fun held => differs (held index)
      exact (pressedLast_iff_holds whole).symm.trans (switched index)
    · refine iff_of_false (fun switched => neededHalf.off ((switched needed).mpr wanted)) ?_
      exact fun held => Bool.eq_false_iff.mp unwanted ((held free).mp freeHalf.1)

end Skittermouse.Data
