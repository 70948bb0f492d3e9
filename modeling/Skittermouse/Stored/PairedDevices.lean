import Skittermouse.Core.Config
import Skittermouse.Data.Keyed

namespace Skittermouse.Stored

open Skittermouse.Data Skittermouse.Core

/-! # The devices that have been paired

Every pairing goes through `addDevice`, which keeps the devices by their ids and
lists for the election whoever the user has not removed from it.
-/

def removedOnly (ineligible : List PeerId) : Config := { Config.init with ineligible }

def pairedAfter (ineligible : List PeerId) (added : List PairedDevice) : Config :=
  added.foldl Config.addDevice (removedOnly ineligible)

/-- The devices stand in the order of their first pairing, each as it was added last,
and the election's list is theirs without the removed machines. -/
structure Bookkept (ineligible : List PeerId) (added : List PairedDevice) (c : Config) : Prop where
  distinct : (c.devices.map PairedDevice.id).Nodup
  inOrder : c.devices.map PairedDevice.id = (added.map PairedDevice.id).eraseDups
  eligible : c.priority = (c.devices.map PairedDevice.id).filter (· ∉ ineligible)
  once : c.priority.Nodup
  latest : ∀ id, c.findDevice id = added.reverse.find? fun device => device.id == id

/-- A device that is added again takes its own place, and nothing else changes. -/
def ReplacesOnly (c : Config) (device : PairedDevice) : Prop :=
  device.id ∈ c.devices.map PairedDevice.id → c.addDevice device = { c with
    devices := c.devices.map fun held => if held.id == device.id then device else held }

variable {c : Config} {device : PairedDevice} {ineligible : List PeerId} {added : List PairedDevice}

theorem addDevice_devices : (c.addDevice device).devices = put PairedDevice.id device c.devices := by
  simp only [Config.addDevice]
  induction c.devices with
  | nil => rfl
  | cons held rest ih =>
      rw [put, List.any_cons, List.findIdx_cons]
      by_cases same : (held.id == device.id) = true
      · simp [same]
      · rw [Bool.not_eq_true] at same
        rw [same, Bool.false_or, if_neg Bool.false_ne_true, ← ih]
        split
        · simp
        · simp

/-- The election's list is that of the devices, without the removed machines. -/
def Eligible (c : Config) : Prop :=
  c.priority = (c.devices.map PairedDevice.id).filter (· ∉ c.ineligible)

theorem Eligible.mem_priority (eligible : Eligible c) {id : PeerId} :
    id ∈ c.priority ↔ id ∈ c.devices.map PairedDevice.id ∧ id ∉ c.ineligible := by
  rw [eligible, List.mem_filter, decide_eq_true_eq]

theorem Eligible.priority_of_mem (eligible : Eligible c)
    (there : device.id ∈ c.devices.map PairedDevice.id) :
    (c.addDevice device).priority = c.priority := by
  have noNew : ¬(device.id ∉ c.priority ∧ device.id ∉ c.ineligible) := by
    rw [eligible.mem_priority]
    tauto
  simp only [Config.addDevice, if_neg noNew]

theorem Eligible.addDevice (eligible : Eligible c) : Eligible (c.addDevice device) := by
  have same : (c.addDevice device).ineligible = c.ineligible := rfl
  rw [Eligible, addDevice_devices, same]
  by_cases there : device.id ∈ c.devices.map PairedDevice.id
  · rw [map_key_put_of_mem there, eligible.priority_of_mem there, eligible]
  · rw [put_of_notMem there, List.map_append, List.filter_append, ← eligible, List.map_singleton]
    have unlisted : device.id ∉ c.priority := fun listed => there (eligible.mem_priority.mp listed).1
    by_cases removed : device.id ∈ c.ineligible
    · simp [Config.addDevice, removed]
    · simp [Config.addDevice, removed, unlisted]

theorem pairedAfter_run (ineligible : List PeerId) (added : List PairedDevice) :
    (pairedAfter ineligible added).ineligible = ineligible ∧
      (pairedAfter ineligible added).devices = exec (put PairedDevice.id) [] added ∧
      Eligible (pairedAfter ineligible added) := by
  induction added using List.reverseRecOn with
  | nil => exact ⟨rfl, rfl, rfl⟩
  | append_singleton earlier last ih =>
      obtain ⟨removed, devices, eligible⟩ := ih
      have next : pairedAfter ineligible (earlier ++ [last]) =
          (pairedAfter ineligible earlier).addDevice last := by
        rw [pairedAfter, List.foldl_append, List.foldl_cons, List.foldl_nil, pairedAfter]
      rw [next, addDevice_devices, exec_concat, devices]
      exact ⟨removed, rfl, eligible.addDevice⟩

theorem replacesOnly_of (distinct : (c.devices.map PairedDevice.id).Nodup) (eligible : Eligible c)
    (device : PairedDevice) : ReplacesOnly c device := by
  intro there
  have devices : (c.addDevice device).devices =
      c.devices.map fun held => if held.id == device.id then device else held := by
    rw [addDevice_devices, put_of_mem distinct there]
  have priority := eligible.priority_of_mem there
  rw [← devices]
  have fields : c.addDevice device = { c with
      devices  := (c.addDevice device).devices
      priority := (c.addDevice device).priority } := rfl
  rw [fields, priority]

/-- Whatever is added to a fresh configuration, the books are in order, and whoever
is added again only takes its own place. -/
theorem pairing_bookkept (ineligible : List PeerId) (added : List PairedDevice) :
    Bookkept ineligible added (pairedAfter ineligible added) ∧
      ∀ device, ReplacesOnly (pairedAfter ineligible added) device := by
  obtain ⟨removed, devices, eligible⟩ := pairedAfter_run ineligible added
  have distinct : ((pairedAfter ineligible added).devices.map PairedDevice.id).Nodup := by
    rw [devices]
    exact nodup_puts added
  have listed : (pairedAfter ineligible added).priority =
      ((pairedAfter ineligible added).devices.map PairedDevice.id).filter (· ∉ ineligible) := by
    rw [eligible, removed]
  refine ⟨⟨distinct, ?_, listed, ?_, ?_⟩, replacesOnly_of distinct eligible⟩
  · rw [devices, map_key_puts]
  · rw [listed]
    exact distinct.filter _
  · intro id
    rw [Config.findDevice, devices, find?_puts]

end Skittermouse.Stored
