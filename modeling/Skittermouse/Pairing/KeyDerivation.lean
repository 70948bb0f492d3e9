import Skittermouse.Data.Loop
import Skittermouse.Pairing.EcdhHandshake

namespace Skittermouse.Pairing

open Skittermouse.Data Skittermouse.Core Skittermouse.Net

/-! Key derivation against its standard: extract a key, then chain blocks.

The result is reserved before the first block is made. The few dozen bytes that a
round works with are taken to find room.
-/

section

variable (crypto : Crypto)

/-- A salt that is absent or empty stands for 32 zero bytes. -/
def extractKey (salt : Option Bytes) (ikm : Bytes) : Bytes :=
  match salt with
  | none | some [] => (crypto.hmacSha256 (List.replicate 32 0) ikm).val
  | some salt => (crypto.hmacSha256 salt ikm).val

def expandBlock (prk info : Bytes) : Nat → Bytes
  | 0 => []
  | i + 1 => (crypto.hmacSha256 prk (expandBlock prk info i ++ info ++ [UInt8.ofNat (i + 1)])).val

def expandBlocks (prk info : Bytes) (count : Nat) : Bytes :=
  (List.range count).flatMap fun i => expandBlock crypto prk info (i + 1)

structure Expansion where
  block : Bytes
  okm : Bytes
  counter : UInt8

def expandGoing (okmLen : Nat) (expansion : Expansion) : Bool :=
  expansion.okm.length < okmLen ∧ expansion.counter ≠ 0

def expandRound (prk : Bytes) (info : Option Bytes) (okmLen : Nat) (expansion : Expansion) :
    Expansion :=
  let input := expansion.block ++ info.getD [] ++ [expansion.counter]
  let block := (crypto.hmacSha256 prk input).val
  let take := if expansion.okm.length + block.length ≤ okmLen then block.length
    else okmLen - expansion.okm.length
  { block   := block
    okm     := expansion.okm ++ block.take take
    counter := expansion.counter + 1 }

inductive Derivation where
  | returned (okm : Bytes)
  | threw
  | unfinished
deriving DecidableEq

/-- The derivation with pointers that may be null, within a bound on the
rounds of its loop. -/
def hkdfWithin (memory rounds : Nat) (ikm : Bytes) (salt info : Option Bytes) (okmLen : UInt64) :
    Derivation :=
  let saltUse := if salt.getD [] = [] then List.replicate 32 0 else salt.getD []
  let prk := (crypto.hmacSha256 saltUse ikm).val
  if kMaxRequest < okmLen.toNat ∨ memory < okmLen.toNat then .threw
  else
    match whileLoop (expandGoing okmLen.toNat) (expandRound crypto prk info okmLen.toNat) rounds
      ⟨[], [], 1⟩ with
    | some last => .returned last.okm
    | none => .unfinished

end

section

variable {crypto : Crypto} {prk info : Bytes}

theorem expandBlock_succ_length (i : Nat) : (expandBlock crypto prk info (i + 1)).length = 32 :=
  (crypto.hmacSha256 prk _).property

theorem expandBlocks_succ (count : Nat) : expandBlocks crypto prk info (count + 1) =
    expandBlocks crypto prk info count ++ expandBlock crypto prk info (count + 1) := by
  rw [expandBlocks, List.range_succ, List.flatMap_append]
  simp [expandBlocks]

theorem expandBlocks_length (count : Nat) : (expandBlocks crypto prk info count).length = 32 * count := by
  induction count with
  | zero => rfl
  | succ count ih =>
      rw [expandBlocks_succ, List.length_append, ih, expandBlock_succ_length]
      omega

theorem expandBlocks_more {count more : Nat} (below : count ≤ more) :
    expandBlocks crypto prk info count <+: expandBlocks crypto prk info more := by
  induction below with
  | refl => exact List.prefix_rfl
  | step _ ih =>
      rw [expandBlocks_succ]
      exact ih.trans (List.prefix_append _ _)

theorem expandBlocks_take {okmLen count more : Nat} (below : count ≤ more)
    (enough : okmLen ≤ 32 * count) :
    (expandBlocks crypto prk info more).take okmLen =
      (expandBlocks crypto prk info count).take okmLen := by
  obtain ⟨rest, joined⟩ := @expandBlocks_more crypto prk info count more below
  have room : okmLen ≤ (expandBlocks crypto prk info count).length := by
    rw [expandBlocks_length]
    exact enough
  rw [← joined, List.take_append_of_le_length room]

/-- After `i` rounds the output is the first bytes of `i` blocks. The counter
is one byte, so it is zero after 255 of them. -/
def Expanded (crypto : Crypto) (prk info : Bytes) (okmLen : Nat) (expansion : Expansion) : Prop :=
  ∃ i ≤ 255, expansion.counter.toNat = (i + 1) % 256 ∧
    expansion.block = expandBlock crypto prk info i ∧
    expansion.okm = (expandBlocks crypto prk info i).take okmLen

def roundsLeft (expansion : Expansion) : Nat := (256 - expansion.counter.toNat) % 256

theorem expandGoing_iff {okmLen : Nat} {expansion : Expansion} :
    expandGoing okmLen expansion = true ↔
      expansion.okm.length < okmLen ∧ expansion.counter.toNat ≠ 0 := by
  rw [expandGoing, decide_eq_true_iff]
  exact and_congr_right fun _ => not_congr UInt8.toNat_inj.symm

theorem expandRound_okm (crypto : Crypto) (prk : Bytes) (info : Option Bytes) (okmLen : Nat)
    (expansion : Expansion) : (expandRound crypto prk info okmLen expansion).okm =
      expansion.okm ++ (expandRound crypto prk info okmLen expansion).block.take
        (okmLen - expansion.okm.length) := by
  simp only [expandRound]
  split
  case isTrue fits =>
    rw [List.take_length, List.take_of_length_le (by omega)]
  case isFalse => rfl

theorem expandRound_expanded {info : Option Bytes} {okmLen : Nat} {expansion : Expansion}
    (expanded : Expanded crypto prk (info.getD []) okmLen expansion)
    (goes : expandGoing okmLen expansion = true) :
    Expanded crypto prk (info.getD []) okmLen (expandRound crypto prk info okmLen expansion) ∧
      roundsLeft (expandRound crypto prk info okmLen expansion) < roundsLeft expansion := by
  obtain ⟨i, bound, counter, block, okm⟩ := expanded
  obtain ⟨short, nonzero⟩ := expandGoing_iff.mp goes
  have next : (expandRound crypto prk info okmLen expansion).counter.toNat = (i + 2) % 256 := by
    change (expansion.counter + 1).toNat = _
    rw [UInt8.toNat_add, counter]
    simp only [UInt8.reduceToNat]
    omega
  have number : expansion.counter = UInt8.ofNat (i + 1) := by
    apply UInt8.toNat_inj.mp
    rw [counter, UInt8.toNat_ofNat']
  have chained : (expandRound crypto prk info okmLen expansion).block =
      expandBlock crypto prk (info.getD []) (i + 1) := by
    rw [expandBlock, ← block, ← number]
    rfl
  -- The output is still short, so it holds every block in full.
  have full : expansion.okm = expandBlocks crypto prk (info.getD []) i := by
    rw [okm, List.length_take] at short
    rw [okm, List.take_of_length_le (by omega)]
  refine ⟨⟨i + 1, by omega, next, chained, ?_⟩, ?_⟩
  · have whole := okm.symm.trans full
    rw [expandRound_okm, chained, full, expandBlocks_succ, List.take_append, whole]
  · rw [roundsLeft, roundsLeft, next]
    omega

theorem extractKey_eq (salt : Option Bytes) (ikm : Bytes) : extractKey crypto salt ikm =
    (crypto.hmacSha256 (if salt.getD [] = [] then List.replicate 32 0 else salt.getD []) ikm).val := by
  cases salt with
  | none => rfl
  | some salt => cases salt <;> rfl

theorem expandLoop_blocks (crypto : Crypto) {rounds : Nat} (enough : 255 ≤ rounds) (prk : Bytes)
    (info : Option Bytes) (okmLen : Nat) :
    ∃ last, whileLoop (expandGoing okmLen) (expandRound crypto prk info okmLen) rounds ⟨[], [], 1⟩ =
        some last ∧
      last.okm = (expandBlocks crypto prk (info.getD []) 255).take okmLen := by
  have start : Expanded crypto prk (info.getD []) okmLen ⟨[], [], 1⟩ :=
    ⟨0, Nat.zero_le 255, rfl, rfl, List.take_nil.symm⟩
  obtain ⟨last, ended, ⟨i, bound, counter, -, okm⟩, stopped⟩ :=
    whileLoop_total roundsLeft (fun _ expanded goes => expandRound_expanded expanded goes) start enough
  refine ⟨last, ended, ?_⟩
  rw [okm]
  rcases Nat.lt_or_eq_of_le bound with more | done
  · have stops : ¬(last.okm.length < okmLen ∧ last.counter.toNat ≠ 0) := by
      rw [← expandGoing_iff, stopped]
      exact Bool.false_ne_true
    have size := congrArg List.length okm
    rw [List.length_take, expandBlocks_length] at size
    rw [expandBlocks_take bound (by omega)]
  · rw [done]

theorem expandFor_of_loop {info : Option Bytes} {okmLen rounds : Nat} {expansion last : Expansion}
    (ended : whileLoop (expandGoing okmLen) (expandRound crypto prk info okmLen) rounds expansion =
      some last) :
    expandFor crypto prk (info.getD []) okmLen rounds expansion.block expansion.okm
      expansion.counter = last.okm := by
  induction rounds generalizing expansion with
  | zero =>
      rw [whileLoop] at ended
      split at ended
      case isTrue => contradiction
      case isFalse => rw [← Option.some.inj ended, expandFor]
  | succ rounds ih =>
      rw [whileLoop] at ended
      split at ended
      case isTrue goes =>
        have next := ih ended
        rw [expandRound_okm] at next
        rw [expandFor, if_pos (of_decide_eq_true goes)]
        exact next
      case isFalse stops =>
        rw [← Option.some.inj ended, expandFor, if_neg fun goes => stops (decide_eq_true goes)]

theorem hkdfReserved_blocks (crypto : Crypto) (ikm : Bytes) (salt info : Option Bytes) (okmLen : Nat) :
    hkdfReserved crypto ikm (salt.getD []) (info.getD []) okmLen =
      (expandBlocks crypto (extractKey crypto salt ikm) (info.getD []) 255).take okmLen := by
  obtain ⟨last, ended, okm⟩ :=
    expandLoop_blocks crypto (Nat.le_refl 255) (extractKey crypto salt ikm) info okmLen
  rw [← okm, hkdfReserved, ← extractKey_eq]
  exact expandFor_of_loop ended

theorem hkdfWithin_eq (crypto : Crypto) (memory : Nat) {rounds : Nat} (enough : 255 ≤ rounds) (ikm : Bytes)
    (salt info : Option Bytes) (okmLen : UInt64) :
    hkdfWithin crypto memory rounds ikm salt info okmLen =
      match hkdfSha256 crypto memory ikm (salt.getD []) (info.getD []) okmLen with
      | some okm => .returned okm
      | none => .threw := by
  rw [hkdfWithin, hkdfSha256]
  by_cases room : okmLen.toNat ≤ kMaxRequest ∧ okmLen.toNat ≤ memory
  · obtain ⟨last, ended, okm⟩ :=
      expandLoop_blocks crypto enough (extractKey crypto salt ikm) info okmLen.toNat
    rw [if_pos room, if_neg (by omega), ← extractKey_eq, ended, hkdfReserved_blocks, ← okm]
  · rw [if_neg room, if_pos (by omega)]

theorem hkdfSha256_some {crypto : Crypto} {memory : Nat} {okmLen : UInt64}
    (fits : okmLen.toNat ≤ kMaxRequest) (granted : okmLen.toNat ≤ memory) (ikm salt info : Bytes) :
    hkdfSha256 crypto memory ikm salt info okmLen =
      some (hkdfReserved crypto ikm salt info okmLen.toNat) :=
  if_pos ⟨fits, granted⟩

/-- Where the result can be reserved, the derivation ends within 255 rounds. Its result
is the standard's, and what is asked for beyond 255 blocks is left out. -/
theorem hkdfSha256_standard (crypto : Crypto) (memory : Nat) (ikm : Bytes) (salt info : Option Bytes)
    (okmLen : UInt64) (fits : okmLen.toNat ≤ kMaxRequest) (granted : okmLen.toNat ≤ memory) :
    ∃ okm, hkdfSha256 crypto memory ikm (salt.getD []) (info.getD []) okmLen = some okm ∧
      (∀ rounds ≥ 255, hkdfWithin crypto memory rounds ikm salt info okmLen = .returned okm) ∧
      okm = (expandBlocks crypto (extractKey crypto salt ikm) (info.getD []) 255).take
        (min okmLen.toNat 8160) ∧
      okm.length = min okmLen.toNat 8160 ∧
      ∀ shorter ≤ okmLen, ∃ short,
        hkdfSha256 crypto memory ikm (salt.getD []) (info.getD []) shorter = some short ∧
          short <+: okm := by
  have size := @expandBlocks_length crypto (extractKey crypto salt ikm) (info.getD []) 255
  have blocks := hkdfReserved_blocks crypto ikm salt info okmLen.toNat
  have derived := @hkdfSha256_some crypto memory okmLen fits granted ikm (salt.getD []) (info.getD [])
  refine ⟨_, derived, fun rounds enough => ?_, ?_, ?_, fun shorter below => ?_⟩
  · rw [hkdfWithin_eq crypto memory enough, derived]
  · rw [blocks, List.take_eq_take_iff, size]
    omega
  · rw [blocks, List.length_take, size]
  · have less : shorter.toNat ≤ okmLen.toNat := UInt64.le_iff_toNat_le.mp below
    refine ⟨_, hkdfSha256_some (less.trans fits) (less.trans granted) _ _ _, ?_⟩
    rw [blocks, hkdfReserved_blocks crypto ikm salt info shorter.toNat]
    exact List.take_prefix_take_left less

theorem key_of_forty_bytes :
    ∃ okm, hkdfSha256 plainCrypto 64 [1] [] [] 40 = some okm ∧ okm.length = min 40 8160 := by
  obtain ⟨okm, derived, _, _, size, _⟩ :=
    hkdfSha256_standard plainCrypto 64 [1] none none 40 (by decide) (by decide)
  exact ⟨okm, derived, size⟩

/-- A result of 2^63 bytes is beyond any vector, and nothing is returned. -/
theorem huge_result_throws :
    hkdfSha256 plainCrypto (2 ^ 64) [1] [] [] 0x8000000000000000 = none ∧
      hkdfWithin plainCrypto (2 ^ 64) 255 [1] none none 0x8000000000000000 = .threw := by
  have beyond : kMaxRequest < UInt64.toNat 0x8000000000000000 := by decide
  refine ⟨if_neg fun room => not_le.mpr beyond room.1, ?_⟩
  rw [hkdfWithin, if_pos (.inl beyond)]

theorem expandBlocks_one : expandBlocks crypto prk info 1 = expandBlock crypto prk info 1 :=
  expandBlocks_succ 0

theorem derivePsk_block (crypto : Crypto) {handshake : EcdhHandshake} (idA idB : PeerId)
    (has : handshake.shared.length = kSharedLen) :
    (handshake.derivePsk crypto idA idB).map Subtype.val = some (expandBlock crypto
      (extractKey crypto (some (EcdhHandshake.pskSalt idA idB)) handshake.shared)
      EcdhHandshake.pskInfo 1) := by
  have first := hkdfReserved_blocks crypto handshake.shared (some (EcdhHandshake.pskSalt idA idB))
    (some EcdhHandshake.pskInfo) 32
  rw [@expandBlocks_take crypto _ _ 32 1 255 (by omega) (by omega), expandBlocks_one,
    List.take_of_length_le (expandBlock_succ_length 0).le] at first
  obtain ⟨psk, derived, key⟩ := EcdhHandshake.derivePsk_shared crypto idA idB has
  rw [hkdfSha256_some (by decide) (by decide)] at key
  rw [derived]
  exact key.symm.trans (congrArg some first)

end

end Skittermouse.Pairing
