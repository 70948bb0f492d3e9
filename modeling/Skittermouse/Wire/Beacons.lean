import Skittermouse.Net.DiscoveryBeacon

namespace Skittermouse.Wire

open Skittermouse.Data Skittermouse.Net

/-! # The discovery beacon on the wire

The packets come from anyone on the network. Every length in them is checked
before anything behind it is read.
-/

/-- The magic, three strings of at most 65535 bytes, and the fixed tail. -/
def beaconFormat : Format Beacon :=
  (Format.marked kMagic ((Format.sized (.bigEndian 2)).pair ((Format.sized (.bigEndian 2)).pair
    ((Format.sized (.bigEndian 2)).pair ((Format.bigEndian 2).pair
      ((Format.bigEndian 1).pair (.bigEndian 1))))))).retype
    (fun (machineName, machineId, ip, port, os, wolCapable) =>
      { machineName, machineId, ip, port := UInt16.ofNat port, os := UInt8.ofNat os,
        wolCapable := UInt8.ofNat wolCapable })
    (fun beacon => (beacon.machineName, beacon.machineId, beacon.ip, beacon.port.toNat,
      beacon.os.toNat, beacon.wolCapable.toNat))
    (fun beacon => by simp)
    (fun (machineName, machineId, ip, port, os, wolCapable) fits => by
      obtain ⟨_, _, _, port, os, wolCapable⟩ := fits
      simp only [Format.bigEndian] at port os wolCapable
      simp only [UInt16.toNat_ofNat', UInt8.toNat_ofNat', Prod.mk.injEq, true_and]
      omega)

theorem beaconFormat_fits (beacon : Beacon) : beaconFormat.Fits beacon ↔
    beacon.machineName.length ≤ 0xFFFF ∧ beacon.machineId.length ≤ 0xFFFF ∧
      beacon.ip.length ≤ 0xFFFF := by
  have port := beacon.port.toNat_lt
  have os := beacon.os.toNat_lt
  have wolCapable := beacon.wolCapable.toNat_lt
  simp only [beaconFormat, Format.retype, Format.marked, Format.pair, Format.sized, Format.bigEndian]
  omega

theorem beaconPutStr_eq {text : Bytes} (short : text.length ≤ 0xFFFF) :
    beaconPutStr text = (Format.sized (.bigEndian 2)).encode text := by
  rw [beaconPutStr, min_eq_left short, List.take_of_length_le short]
  rfl

theorem beaconFormat_encode {beacon : Beacon} (fits : beaconFormat.Fits beacon) :
    beaconFormat.encode beacon = encodeBeacon beacon := by
  obtain ⟨machineName, machineId, ip⟩ := (beaconFormat_fits beacon).mp fits
  have byte (value : UInt8) : [value] = beBytes 1 value.toNat := by
    have small := value.toNat_lt
    simp [beBytes, leBytes, Nat.mod_eq_of_lt small]
  rw [encodeBeacon, beaconPutStr_eq machineName, beaconPutStr_eq machineId, beaconPutStr_eq ip,
    ← List.singleton_append, byte, byte]
  rfl

def clipBeacon (beacon : Beacon) : Beacon :=
  { beacon with
    machineName := beacon.machineName.take 0xFFFF
    machineId := beacon.machineId.take 0xFFFF
    ip := beacon.ip.take 0xFFFF }

theorem clipBeacon_fits (beacon : Beacon) : beaconFormat.Fits (clipBeacon beacon) := by
  simp [beaconFormat_fits, clipBeacon]

theorem encodeBeacon_clip (beacon : Beacon) :
    encodeBeacon (clipBeacon beacon) = encodeBeacon beacon := by
  have clip (text : Bytes) : beaconPutStr (text.take 0xFFFF) = beaconPutStr text := by
    rw [beaconPutStr, beaconPutStr, List.length_take, List.take_take, Nat.min_self, min_comm 0xFFFF,
      min_eq_left (min_le_right _ _)]
  simp only [encodeBeacon, clipBeacon, clip]

theorem lastTwo_cases {data front rest : Bytes} (split : data = front ++ rest) :
    front.length + 2 > data.length ∧ ((Format.bigEndian 1).pair (.bigEndian 1)).take rest = none ∨
      ∃ first second left, ¬ front.length + 2 > data.length ∧
        byteAt data front.length = .ok first ∧ byteAt data (front.length + 1) = .ok second ∧
        ((Format.bigEndian 1).pair (.bigEndian 1)).take rest =
          some ((first.toNat, second.toNat), left) := by
  have value (byte : UInt8) : beValue [byte] = byte.toNat := by simp [beValue, leValue]
  simp only [Format.pair, Format.bigEndian_take]
  rcases read_cases split 1 with ⟨short, cut⟩ | ⟨field, left, found, first⟩
  · simp only [cut]
    exact .inl ⟨by omega, rfl⟩
  · have next := first.next
    rcases read_cases first.split 1 with ⟨short, cut⟩ | ⟨other, last, taken, second⟩
    · simp only [found, Option.map_some, cut]
      exact .inl ⟨by omega, rfl⟩
    · have room := second.room
      obtain ⟨one, rfl, oneRead⟩ := first.byte
      obtain ⟨two, rfl, twoRead⟩ := second.byte
      rw [next] at twoRead
      simp only [found, Option.map_some, taken, value]
      exact .inr ⟨one, two, last, by omega, oneRead, twoRead, rfl⟩

theorem decodeBeacon_decodes (out : Beacon) :
    Decodes beaconFormat fun data => decodeBeacon data out := by
  intro data
  simp only [decodeBeacon, beaconGetStr, beaconFormat, Format.retype, Format.marked]
  rcases @read_cases data [] data rfl kMagic.length with ⟨short, cut⟩ | ⟨mark, left, found, magic⟩
  · have short : data.length < 4 := short
    rw [if_pos short, cut]
    exact ⟨false, out, rfl, .inr ⟨rfl, rfl⟩⟩
  · have room : ¬ data.length < 4 := magic.room
    have next : mark.length = 4 := magic.next
    have same : matchesAt data 0 kMagic = _ := magic.matches
    rw [if_neg room, same, checked_bind, found]
    by_cases right : mark = kMagic
    · simp only [right, decide_true, Bool.not_true, Bool.false_eq_true, if_false, if_true]
      have machineName := sizedAt_agrees 2 magic.split
      rw [List.nil_append, next] at machineName
      rw [Format.pair_take]
      generalize sizedAt data 2 4 = read at machineName ⊢
      generalize (Format.sized (Format.bigEndian 2)).take left = taken at machineName ⊢
      cases machineName with
      | none => exact ⟨false, out, rfl, .inr ⟨rfl, rfl⟩⟩
      | some machineName front rest split =>
          have machineId := sizedAt_agrees 2 split
          simp only [checked_bind]
          rw [Format.pair_take]
          generalize sizedAt data 2 front.length = read at machineId ⊢
          generalize (Format.sized (Format.bigEndian 2)).take rest = taken at machineId ⊢
          cases machineId with
          | none => exact ⟨false, _, rfl, .inr ⟨rfl, rfl⟩⟩
          | some machineId front rest split =>
              have ip := sizedAt_agrees 2 split
              simp only [checked_bind]
              rw [Format.pair_take]
              generalize sizedAt data 2 front.length = read at ip ⊢
              generalize (Format.sized (Format.bigEndian 2)).take rest = taken at ip ⊢
              cases ip with
              | none => exact ⟨false, _, rfl, .inr ⟨rfl, rfl⟩⟩
              | some ip front rest split =>
                  simp only [checked_bind]
                  rw [Format.pair_take, Format.bigEndian_take]
                  rcases read_cases split 2 with ⟨short, cut⟩ | ⟨field, left, found, port⟩
                  · rw [if_pos short, cut]
                    exact ⟨false, _, rfl, .inr ⟨rfl, rfl⟩⟩
                  · simp only [if_neg port.room, found, port.big, checked_bind, Option.map_some]
                    rw [← port.next]
                    rcases lastTwo_cases port.split with
                      ⟨short, cut⟩ | ⟨os, wolCapable, last, room, osRead, wolRead, taken⟩
                    · rw [if_pos short, cut]
                      exact ⟨false, _, rfl, .inr ⟨rfl, rfl⟩⟩
                    · rw [if_neg room, osRead, checked_bind, wolRead, checked_bind, taken]
                      refine ⟨true, _, rfl, .inl ⟨rfl, last, ?_⟩⟩
                      simp
    · simp only [right, decide_false, Bool.not_false, if_true, if_false]
      exact ⟨false, out, rfl, .inr ⟨rfl, rfl⟩⟩

/-- The beacon that is decoded, from a packet of any kind, is the one whose
encoding is in front of it. -/
theorem beacon_exact :
    (∀ data out beacon, decodeBeacon data out = .ok (true, beacon) ↔
      (beacon.machineName.length ≤ 0xFFFF ∧ beacon.machineId.length ≤ 0xFFFF ∧
        beacon.ip.length ≤ 0xFFFF) ∧ encodeBeacon beacon <+: data) ∧
    (∀ beacon front out, front <+: encodeBeacon beacon → front ≠ encodeBeacon beacon →
      ∃ left, decodeBeacon front out = .ok (false, left)) ∧
    (∀ data out, ¬ kMagic <+: data → ∃ left, decodeBeacon data out = .ok (false, left)) ∧
    ∀ data out, ∃ accepted left, decodeBeacon data out = .ok (accepted, left) := by
  refine ⟨fun data out beacon => ?_, fun beacon front out inside cut => ?_,
    fun data out unmarked => ?_, fun data out => ?_⟩
  · rw [(decodeBeacon_decodes out).accepts_iff, ← beaconFormat_fits]
    exact and_congr_right fun fits => by rw [beaconFormat_encode fits]
  · have fits := clipBeacon_fits beacon
    rw [← encodeBeacon_clip, ← beaconFormat_encode fits] at inside cut
    exact (decodeBeacon_decodes out).refuses_cut fits inside cut
  · obtain ⟨accepted, left, decoded⟩ := (decodeBeacon_decodes out).inside data
    cases accepted with
    | false => exact ⟨left, decoded⟩
    | true =>
        obtain ⟨_, inside⟩ := (decodeBeacon_decodes out).accepts_iff data |>.mp decoded
        exact absurd ((List.prefix_append kMagic _).trans inside) unmarked
  · exact (decodeBeacon_decodes out).inside data

def emptyBeacon : Beacon := ⟨[], [], [], 0, 0, 0⟩

/-- A packet of another protocol, and a beacon without its last byte. -/
theorem other_packets_refused :
    (∃ left, decodeBeacon [0x58, 0x58, 0x58, 0x58, 0, 0] emptyBeacon = .ok (false, left)) ∧
      ∃ left, decodeBeacon (kMagic ++ [0, 1, 0x41, 0, 0, 0, 0, 0x1E, 0x61, 0]) emptyBeacon =
        .ok (false, left) :=
  ⟨beacon_exact.2.2.1 _ emptyBeacon (by decide),
    beacon_exact.2.1 ⟨[0x41], [], [], 7777, 0, 1⟩ _ emptyBeacon ⟨[1], by decide⟩ (by decide)⟩

end Skittermouse.Wire
