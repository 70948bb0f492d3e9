import Mathlib.Data.List.Basic

namespace Skittermouse.Data

/-! Frames out of a stream.

A decoder looks at the front of a buffer: it finds a frame there, asks for more
or fails. Once it has decided, what arrives behind does not change its mind, and
a frame is found as soon as all of it is there. From that alone the frames of a stream depend on the stream and not on how it
was cut, as long as nothing fails.
-/

inductive Decoded (φ : Type v) where
  | frame (value : φ) (consumed : Nat)
  | needMore
  | failed
deriving DecidableEq

structure StreamDecoder (β : Type u) (φ : Type v) where
  decode : List β → Decoded φ
  empty : decode [] = .needMore
  progress : ∀ {buffer value consumed}, decode buffer = .frame value consumed →
    0 < consumed ∧ consumed ≤ buffer.length
  stable : ∀ {buffer} more, decode buffer ≠ .needMore → decode (buffer ++ more) = decode buffer
  exact : ∀ {buffer value consumed}, decode buffer = .frame value consumed →
    decode (buffer.take consumed) = .frame value consumed

namespace StreamDecoder

variable {β : Type u} {φ : Type v} (decoder : StreamDecoder β φ)

/-- One frame is popped, if there is one; a buffer that fails is discarded. -/
def next (buffer : List β) : Option φ × List β :=
  match decoder.decode buffer with
  | .frame value consumed => (some value, buffer.drop consumed)
  | .needMore => (none, buffer)
  | .failed => (none, [])

/-- Frames are popped until there is none, in at most `fuel` rounds. -/
def drainFor : Nat → List β → List φ × List β
  | 0, buffer => ([], buffer)
  | fuel + 1, buffer => match decoder.next buffer with
    | (none, buffer) => ([], buffer)
    | (some value, buffer) =>
        let (values, buffer) := drainFor fuel buffer
        (value :: values, buffer)

/-- Every frame takes up some of the buffer, which bounds the rounds. -/
def drain (buffer : List β) : List φ × List β := decoder.drainFor (buffer.length + 1) buffer

/-- Each chunk is appended to the buffer, which is then drained. -/
def feedAll : List β → List (List β) → List φ × List β
  | buffer, [] => ([], buffer)
  | buffer, chunk :: chunks =>
      let (values, buffer) := decoder.drain (buffer ++ chunk)
      let (later, buffer) := feedAll buffer chunks
      (values ++ later, buffer)

/-- The frames at the front of a stream, and what is left where they end:
an incomplete frame, or nothing usable. -/
inductive Parses : List β → List φ → Option (List β) → Prop where
  | needMore {bytes : List β} (undecided : decoder.decode bytes = .needMore) :
      Parses bytes [] (some bytes)
  | failed {bytes : List β} (broken : decoder.decode bytes = .failed) : Parses bytes [] none
  | frame {bytes : List β} {value : φ} {consumed : Nat} {values : List φ} {rest : Option (List β)}
      (found : decoder.decode bytes = .frame value consumed)
      (behind : Parses (bytes.drop consumed) values rest) : Parses bytes (value :: values) rest

variable {decoder} {bytes more : List β} {values later : List φ} {rest : Option (List β)}

theorem parses_exists (decoder : StreamDecoder β φ) (bytes : List β) :
    ∃ values rest, decoder.Parses bytes values rest := by
  cases decided : decoder.decode bytes with
  | needMore => exact ⟨_, _, .needMore decided⟩
  | failed => exact ⟨_, _, .failed decided⟩
  | frame value consumed =>
      have bounds := decoder.progress decided
      have shorter : (bytes.drop consumed).length < bytes.length := by
        rw [List.length_drop]
        omega
      obtain ⟨values, rest, behind⟩ := parses_exists decoder (bytes.drop consumed)
      exact ⟨_, _, .frame decided behind⟩
termination_by bytes.length

theorem Parses.drainFor (parses : decoder.Parses bytes values rest) {fuel : Nat}
    (enough : bytes.length < fuel) : decoder.drainFor fuel bytes = (values, rest.getD []) := by
  induction parses generalizing fuel with
  | needMore undecided =>
      cases fuel with
      | zero => omega
      | succ fuel => simp only [StreamDecoder.drainFor, next, undecided, Option.getD_some]
  | failed broken =>
      cases fuel with
      | zero => omega
      | succ fuel => simp only [StreamDecoder.drainFor, next, broken, Option.getD_none]
  | frame found behind ih =>
      cases fuel with
      | zero => omega
      | succ fuel =>
          have bounds := decoder.progress found
          simp only [StreamDecoder.drainFor, next, found]
          rw [ih (by rw [List.length_drop]; omega)]

theorem Parses.drain (parses : decoder.Parses bytes values rest) :
    decoder.drain bytes = (values, rest.getD []) :=
  parses.drainFor (Nat.lt_succ_self _)

theorem next_waits (waits : decoder.decode bytes = .needMore) : decoder.next bytes = (none, bytes) := by
  simp only [StreamDecoder.next, waits]

theorem Parses.unique {otherRest : Option (List β)} (parses : decoder.Parses bytes values rest)
    (other : decoder.Parses bytes later otherRest) : values = later ∧ rest = otherRest := by
  induction parses generalizing later with
  | needMore undecided =>
      cases other with
      | needMore => exact ⟨rfl, rfl⟩
      | failed broken => rw [undecided] at broken; contradiction
      | frame found => rw [undecided] at found; contradiction
  | failed broken =>
      cases other with
      | needMore undecided => rw [broken] at undecided; contradiction
      | failed => exact ⟨rfl, rfl⟩
      | frame found => rw [broken] at found; contradiction
  | frame found behind ih =>
      cases other with
      | needMore undecided => rw [found] at undecided; contradiction
      | failed broken => rw [found] at broken; contradiction
      | frame otherFound otherBehind =>
          rw [found, Decoded.frame.injEq] at otherFound
          obtain ⟨rfl, rfl⟩ := otherFound
          obtain ⟨rfl, rfl⟩ := ih otherBehind
          exact ⟨rfl, rfl⟩

theorem decode_append_frame {value : φ} {consumed : Nat}
    (found : decoder.decode bytes = .frame value consumed) (more : List β) :
    decoder.decode (bytes ++ more) = .frame value consumed := by
  rw [decoder.stable more (by rw [found]; exact nofun), found]

theorem decode_append_failed (broken : decoder.decode bytes = .failed) (more : List β) :
    decoder.decode (bytes ++ more) = .failed := by
  rw [decoder.stable more (by rw [broken]; exact nofun), broken]

theorem decode_front {front behind : List β} {value : φ} {consumed : Nat}
    (found : decoder.decode (front ++ behind) = .frame value consumed)
    (within : consumed ≤ front.length) : decoder.decode front = .frame value consumed := by
  have whole := decoder.exact found
  rw [List.take_append_of_le_length within] at whole
  rw [← List.take_append_drop consumed front]
  exact decode_append_frame whole (front.drop consumed)

theorem decode_short {front behind : List β} {value : φ} {consumed : Nat}
    (found : decoder.decode (front ++ behind) = .frame value consumed)
    (short : front.length < consumed) : decoder.decode front = .needMore := by
  cases decided : decoder.decode front with
  | needMore => rfl
  | failed =>
      rw [decode_append_failed decided behind] at found
      contradiction
  | frame other size =>
      rw [decode_append_frame decided behind, Decoded.frame.injEq] at found
      have within := (decoder.progress decided).2
      omega

theorem decode_waits {front behind : List β} (waits : decoder.decode (front ++ behind) = .needMore) :
    decoder.decode front = .needMore := by
  by_contra decided
  rw [decoder.stable behind decided] at waits
  exact decided waits

theorem Parses.append {left : List β} (parses : decoder.Parses bytes values (some left))
    (further : decoder.Parses (left ++ more) later rest) :
    decoder.Parses (bytes ++ more) (values ++ later) rest := by
  generalize ended : some left = outcome at parses
  induction parses with
  | needMore undecided =>
      cases ended
      exact further
  | failed broken => contradiction
  | frame found behind ih =>
      have within := (decoder.progress found).2
      refine .frame (decode_append_frame found more) ?_
      rw [List.drop_append_of_le_length within]
      exact ih ended

theorem Parses.append_failed (parses : decoder.Parses bytes values none) (more : List β) :
    decoder.Parses (bytes ++ more) values none := by
  generalize ended : none = outcome at parses
  induction parses with
  | needMore undecided => contradiction
  | failed broken => exact .failed (decode_append_failed broken more)
  | frame found behind ih =>
      have within := (decoder.progress found).2
      refine .frame (decode_append_frame found more) ?_
      rw [List.drop_append_of_le_length within]
      exact ih ended

theorem Parses.front {left : List β} (parses : decoder.Parses (bytes ++ more) values (some left)) :
    ∃ first remaining second, decoder.Parses bytes first (some remaining) ∧
      decoder.Parses (remaining ++ more) second (some left) ∧ values = first ++ second := by
  obtain ⟨first, outcome, front⟩ := parses_exists decoder bytes
  cases outcome with
  | none => exact absurd (parses.unique (front.append_failed more)).2 nofun
  | some remaining =>
      obtain ⟨second, end_, behind⟩ := parses_exists decoder (remaining ++ more)
      obtain ⟨same, rfl⟩ := parses.unique (front.append behind)
      exact ⟨first, remaining, second, front, behind, same⟩

theorem Parses.waits {left : List β} (parses : decoder.Parses bytes values (some left)) :
    decoder.decode left = .needMore := by
  generalize ended : some left = outcome at parses
  induction parses with
  | needMore undecided =>
      cases ended
      exact undecided
  | failed broken => contradiction
  | frame found behind ih => exact ih ended

theorem next_drain (decoder : StreamDecoder β φ) (bytes : List β) :
    (decoder.next (decoder.drain bytes).2).1 = none := by
  obtain ⟨values, rest, parses⟩ := parses_exists decoder bytes
  rw [parses.drain]
  cases rest with
  | none => rw [Option.getD_none, next_waits decoder.empty]
  | some left => rw [Option.getD_some, next_waits parses.waits]

/-- The chunks of a stream that parses yield its frames, however it was cut. -/
theorem Parses.feedAll {chunks : List (List β)} {buffer left : List β}
    (waits : decoder.decode buffer = .needMore)
    (parses : decoder.Parses (buffer ++ chunks.flatten) values (some left)) :
    decoder.feedAll buffer chunks = (values, left) := by
  induction chunks generalizing buffer values with
  | nil =>
      rw [List.flatten_nil, List.append_nil] at parses
      obtain ⟨rfl, ended⟩ := parses.unique (.needMore waits)
      cases ended
      rfl
  | cons chunk chunks ih =>
      rw [List.flatten_cons, ← List.append_assoc] at parses
      obtain ⟨first, remaining, second, front, behind, rfl⟩ := parses.front
      have later := ih front.waits behind
      simp only [StreamDecoder.feedAll, front.drain, Option.getD_some, later]

theorem Parses.feedAll_front {chunks : List (List β)} {left : List β}
    (parses : decoder.Parses bytes values (some left)) (front : chunks.flatten <+: bytes) :
    (decoder.feedAll [] chunks).1 <+: values := by
  obtain ⟨more, rfl⟩ := front
  obtain ⟨first, remaining, second, arrived, _, rfl⟩ := parses.front
  have whole : decoder.Parses ([] ++ chunks.flatten) first (some remaining) := arrived
  rw [whole.feedAll decoder.empty]
  exact List.prefix_append first second

/-- What has been popped and what is buffered make up what has been fed. -/
def Accounts (decoder : StreamDecoder β φ) (fed : List β) (popped : List φ) (buffer : List β) : Prop :=
  ∀ more values rest, decoder.Parses (buffer ++ more) values rest →
    decoder.Parses (fed ++ more) (popped ++ values) rest

variable {fed buffer : List β} {popped : List φ}

theorem accounts_empty (decoder : StreamDecoder β φ) : decoder.Accounts [] [] [] :=
  fun _ _ _ parses => parses

theorem Accounts.feed (accounts : decoder.Accounts fed popped buffer) (chunk : List β) :
    decoder.Accounts (fed ++ chunk) popped (buffer ++ chunk) := by
  intro more values rest parses
  rw [List.append_assoc] at parses ⊢
  exact accounts (chunk ++ more) values rest parses

theorem Accounts.next {left : List β} (accounts : decoder.Accounts fed popped buffer)
    (parses : decoder.Parses (fed ++ more) values (some left)) :
    decoder.Accounts fed (popped ++ (decoder.next buffer).1.toList) (decoder.next buffer).2 := by
  unfold StreamDecoder.next
  split
  · rename_i value consumed found
    have within := (decoder.progress found).2
    intro further values rest behind
    rw [Option.toList_some, List.append_assoc]
    refine accounts further _ rest (.frame (decode_append_frame found further) ?_)
    rw [List.drop_append_of_le_length within]
    exact behind
  · rw [Option.toList_none, List.append_nil]
    exact accounts
  · rename_i broken
    have stuck := accounts more [] none (.failed (decode_append_failed broken more))
    exact absurd (parses.unique stuck).2 nofun

theorem Accounts.popped_front {left : List β} (accounts : decoder.Accounts fed popped buffer)
    (parses : decoder.Parses (fed ++ more) values (some left)) : popped <+: values := by
  obtain ⟨later, rest, behind⟩ := parses_exists decoder (buffer ++ more)
  rw [(parses.unique (accounts more later rest behind)).1]
  exact List.prefix_append popped later

theorem Accounts.drain {left : List β} (accounts : decoder.Accounts fed popped buffer)
    (parses : decoder.Parses fed values (some left)) :
    popped ++ (decoder.drain buffer).1 = values ∧ (decoder.drain buffer).2 = left := by
  obtain ⟨later, rest, behind⟩ := parses_exists decoder buffer
  have whole := accounts [] later rest (by rw [List.append_nil]; exact behind)
  rw [List.append_nil] at whole
  obtain ⟨rfl, ended⟩ := parses.unique whole
  cases ended
  rw [behind.drain]
  exact ⟨rfl, rfl⟩

/-! ## Streams that fail

What arrives in one piece with the bytes that fail is discarded with them; what
arrives later is parsed afresh.
-/

theorem feedAll_silent {chunks : List (List β)} {buffer : List β}
    (silent : ∀ behind, behind <:+ buffer ++ chunks.flatten → ∀ value consumed,
      decoder.decode behind ≠ .frame value consumed) :
    (decoder.feedAll buffer chunks).1 = [] := by
  induction chunks generalizing buffer with
  | nil => rfl
  | cons chunk chunks ih =>
      rw [List.flatten_cons, ← List.append_assoc] at silent
      have whole := silent _ List.suffix_rfl
      cases decided : decoder.decode (buffer ++ chunk) with
      | frame value consumed =>
          exact absurd (decode_append_frame decided chunks.flatten) (whole value consumed)
      | needMore =>
          have later := ih silent
          simp only [StreamDecoder.feedAll, (Parses.needMore decided).drain, Option.getD_some,
            later, List.append_nil]
      | failed =>
          have later := @ih [] fun behind suffix =>
            silent behind (suffix.trans (List.suffix_append _ _))
          simp only [StreamDecoder.feedAll, (Parses.failed decided).drain, Option.getD_none,
            later, List.append_nil]

/-- Where a stream fails, no frame starts in what arrives later. -/
def Abandoned (decoder : StreamDecoder β φ) (stream : List β) : Prop :=
  ∀ front behind, stream = front ++ behind → (∃ values, decoder.Parses front values none) →
    ∀ value consumed, decoder.decode behind ≠ .frame value consumed

theorem Abandoned.left {left : List β} (abandoned : decoder.Abandoned (bytes ++ more))
    (parses : decoder.Parses bytes values (some left)) : decoder.Abandoned (left ++ more) := by
  intro front behind cut broken
  obtain ⟨failing, fails⟩ := broken
  rcases List.append_eq_append_iff.mp cut with ⟨middle, rfl, rfl⟩ | ⟨middle, rfl, rfl⟩
  · exact abandoned (bytes ++ middle) behind (List.append_assoc _ _ _).symm
      ⟨values ++ failing, parses.append fails⟩
  · exact absurd ((Parses.needMore parses.waits).unique (fails.append_failed middle)).2 nofun

/-- The frames of a stream that is abandoned where it fails do not depend on the cuts. -/
theorem Abandoned.feedAll {chunks : List (List β)} {buffer : List β}
    (waits : decoder.decode buffer = .needMore)
    (abandoned : decoder.Abandoned (buffer ++ chunks.flatten))
    (parses : decoder.Parses (buffer ++ chunks.flatten) values rest) :
    (decoder.feedAll buffer chunks).1 = values := by
  induction chunks generalizing buffer values rest with
  | nil =>
      rw [List.flatten_nil, List.append_nil] at parses
      exact ((Parses.needMore waits).unique parses).1
  | cons chunk chunks ih =>
      rw [List.flatten_cons, ← List.append_assoc] at parses abandoned
      obtain ⟨first, outcome, front⟩ := parses_exists decoder (buffer ++ chunk)
      cases outcome with
      | none =>
          have silent := @feedAll_silent _ _ decoder chunks [] fun behind suffix => by
            obtain ⟨skipped, joined⟩ := suffix
            rw [List.nil_append] at joined
            refine abandoned (buffer ++ chunk ++ skipped) behind ?_
              ⟨first, front.append_failed skipped⟩
            rw [List.append_assoc _ skipped, joined]
          have same := (parses.unique (front.append_failed chunks.flatten)).1
          simp only [StreamDecoder.feedAll, front.drain, Option.getD_none, silent, List.append_nil,
            same]
      | some left =>
          obtain ⟨second, end_, behind⟩ := parses_exists decoder (left ++ chunks.flatten)
          have later := ih front.waits (abandoned.left front) behind
          have same := (parses.unique (front.append behind)).1
          simp only [StreamDecoder.feedAll, front.drain, Option.getD_some, later, same]

theorem feedAll_cut {front behind : List β} {value : φ} {consumed : Nat}
    (failing : decoder.Parses front values none)
    (found : decoder.decode behind = .frame value consumed) :
    (decoder.feedAll [] [front, behind]).1 ≠ (decoder.feedAll [] [front ++ behind]).1 := by
  obtain ⟨later, rest, parses⟩ := parses_exists decoder (behind.drop consumed)
  have second := Parses.frame found parses
  simp only [StreamDecoder.feedAll, List.nil_append, failing.drain, Option.getD_none, second.drain,
    (failing.append_failed behind).drain, List.append_nil]
  intro same
  exact List.cons_ne_nil _ _ (List.append_right_eq_self.mp same)

/-- Exactly the streams whose frames do not depend on the cuts. -/
theorem feedAll_cuts_iff (decoder : StreamDecoder β φ) (stream : List β) :
    (∀ left right : List (List β), left.flatten = stream → right.flatten = stream →
      (decoder.feedAll [] left).1 = (decoder.feedAll [] right).1) ↔ decoder.Abandoned stream := by
  constructor
  · rintro agree front behind rfl ⟨values, failing⟩ value consumed found
    exact feedAll_cut failing found (agree [front, behind] [front ++ behind]
      (by rw [List.flatten_cons, List.flatten_singleton]) List.flatten_singleton)
  · rintro abandoned left right rfl joined
    obtain ⟨values, rest, parses⟩ := parses_exists decoder left.flatten
    have yields : ∀ chunks : List (List β), chunks.flatten = left.flatten →
        (decoder.feedAll [] chunks).1 = values := fun chunks same => by
      rw [← same] at abandoned parses
      have whole : decoder.Abandoned ([] ++ chunks.flatten) := abandoned
      exact whole.feedAll decoder.empty parses
    rw [yields left rfl, yields right joined]

end StreamDecoder

end Skittermouse.Data
