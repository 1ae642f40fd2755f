import PhylaRam.Library.Fields
import PhylaRam.Library.Json
import PhylaRam.Verify.Schema

/-!
# Reading a map from JSON

The derived `Deserialize` instances of `schema.rs`, applied to a JSON value. A struct is
an object, or an array of its fields in the order of their declaration. Unknown members
are ignored; a known one may occur once only, and may be missing if it has a default.
-/

namespace PhylaRam.Verify

open Json (Value)

section Decoding

variable {α : Type}

def readString : Value → Option Str
  | .string s => some s
  | _ => none

def readBool : Value → Option Bool
  | .bool b => some b
  | _ => none

def readU32 : Value → Option UInt32
  | .number n => if n < 2 ^ 32 then some (.ofNat n) else none
  | _ => none

def readU64 : Value → Option UInt64
  | .number n => if n < 2 ^ 64 then some (.ofNat n) else none
  | _ => none

/-- An `Option`: null is `None`. -/
def readOption (read : Value → Option α) : Value → Option (Option α)
  | .null => some none
  | v => (read v).map some

/-- A `Vec`. -/
def readVec (read : Value → Option α) : Value → Option (List α)
  | .array vs => vs.mapM read
  | _ => none

abbrev Members := List (Str × Value)

/-- The members of a struct with these fields. -/
def structMembers (fields : List String) : Value → Option Members
  | .object ms => some ms
  | .array vs => if vs.length ≤ fields.length then some ((fields.map str).zip vs) else none
  | _ => none

/-- The members with a name: more than one is an error. -/
def findField (ms : Members) (name : String) : Option (Option Value) :=
  match ms.filter fun m => m.1 == str name with
  | [] => some none
  | [m] => some (some m.2)
  | _ => none

def required (ms : Members) (name : String) (read : Value → Option α) : Option α := do
  match ← findField ms name with
  | some v => read v
  | none => none

/-- A field with `#[serde(default)]`. -/
def defaulted (ms : Members) (name : String) (default : α) (read : Value → Option α) :
    Option α := do
  match ← findField ms name with
  | some v => read v
  | none => some default

/-- The next step of a decoder that has succeeded so far. -/
theorem bind_eq {β : Type} {x : Option α} {a : α} {f : α → Option β} {result : Option β}
    (first : x = some a) (next : f a = result) : (x >>= f) = result := by
  rw [first]
  exact next

theorem findField_absent {ms : Members} {name : String} (absent : str name ∉ ms.map Prod.fst) :
    findField ms name = some none := by
  rw [findField, Fields.filter_absent absent]

theorem findField_eq {ms : Members} {name : String} {v : Value} (once : (ms.map Prod.fst).Nodup)
    (k : Nat) (found : ms[k]? = some (str name, v)) : findField ms name = some (some v) := by
  rw [findField, Fields.filter_member once (List.mem_of_getElem? found)]

theorem required_eq {ms : Members} {name : String} {v : Value} {a : α} {read : Value → Option α}
    (once : (ms.map Prod.fst).Nodup) (k : Nat) (found : ms[k]? = some (str name, v))
    (reads : read v = some a) : required ms name read = some a := by
  rw [required, findField_eq once k found]
  exact reads

theorem defaulted_eq {ms : Members} {name : String} {v : Value} {a default : α}
    {read : Value → Option α} (once : (ms.map Prod.fst).Nodup) (k : Nat)
    (found : ms[k]? = some (str name, v)) (reads : read v = some a) :
    defaulted ms name default read = some a := by
  rw [defaulted, findField_eq once k found]
  exact reads

theorem defaulted_absent {ms : Members} {name : String} {default : α} {read : Value → Option α}
    (absent : str name ∉ ms.map Prod.fst) : defaulted ms name default read = some default := by
  rw [defaulted, findField_absent absent]
  rfl

theorem readString_string (s : Str) : readString (.string s) = some s := rfl

theorem readBool_bool (b : Bool) : readBool (.bool b) = some b := rfl

theorem readU32_number (n : UInt32) : readU32 (.number n.toNat) = some n := by
  rw [readU32, if_pos n.toNat_lt, UInt32.ofNat_toNat]

theorem readU64_number (n : UInt64) : readU64 (.number n.toNat) = some n := by
  rw [readU64, if_pos n.toNat_lt, UInt64.ofNat_toNat]

theorem readOption_string (s : Str) : readOption readString (.string s) = some (some s) := rfl

theorem readOption_number32 (n : UInt32) : readOption readU32 (.number n.toNat) = some (some n) :=
  congrArg (Option.map some) (readU32_number n)

theorem readOption_number64 (n : UInt64) : readOption readU64 (.number n.toNat) = some (some n) :=
  congrArg (Option.map some) (readU64_number n)

theorem readVec_map {β : Type} {read : Value → Option α} {value : β → Value} {result : β → α}
    (each : ∀ b, read (value b) = some (result b)) (bs : List β) :
    readVec read (.array (bs.map value)) = some (bs.map result) := by
  rw [readVec]
  induction bs with
  | nil => rfl
  | cons b bs ih =>
      rw [List.map_cons, List.mapM_cons, each, ih]
      rfl

end Decoding

def RangeEntry.ofJson (v : Value) : Option RangeEntry := do
  let ms ← structMembers ["driver_run", "start", "length"] v
  let driverRun ← required ms "driver_run" readU32
  let start ← required ms "start" readString
  let length ← required ms "length" readU64
  pure { driverRun, start, length }

def UnreadableEntry.ofJson (v : Value) : Option UnreadableEntry := do
  let ms ← structMembers ["start", "length", "ntstatus"] v
  let start ← required ms "start" readString
  let length ← required ms "length" readU64
  let ntstatus ← required ms "ntstatus" readString
  pure { start, length, ntstatus }

def KernelHintsMap.ofJson (v : Value) : Option KernelHintsMap := do
  let ms ← structMembers ["hypervisor_present", "directory_table_base", "kpcr_address",
    "kernel_base", "kernel_size", "major_version", "minor_version", "build_number",
    "processors"] v
  let hypervisorPresent ← defaulted ms "hypervisor_present" false readBool
  let directoryTableBase ← defaulted ms "directory_table_base" none (readOption readString)
  let kpcrAddress ← defaulted ms "kpcr_address" none (readOption readString)
  let kernelBase ← defaulted ms "kernel_base" none (readOption readString)
  let kernelSize ← defaulted ms "kernel_size" none (readOption readU64)
  let majorVersion ← defaulted ms "major_version" none (readOption readU32)
  let minorVersion ← defaulted ms "minor_version" none (readOption readU32)
  let buildNumber ← defaulted ms "build_number" none (readOption readU32)
  let processors ← defaulted ms "processors" none (readOption readU32)
  pure { hypervisorPresent, directoryTableBase, kpcrAddress, kernelBase, kernelSize,
         majorVersion, minorVersion, buildNumber, processors }

def MapFile.ofJson (v : Value) : Option MapFile := do
  let ms ← structMembers ["producer", "producer_version", "schema", "status", "logical_size",
    "physical_bytes", "acquired_bytes", "unreadable_bytes", "topology_changed", "sha256",
    "kernel_hints", "ranges", "unreadable"] v
  let producer ← required ms "producer" readString
  let producerVersion ← required ms "producer_version" readString
  let schema ← required ms "schema" readString
  let status ← required ms "status" readString
  let logicalSize ← required ms "logical_size" readU64
  let physicalBytes ← required ms "physical_bytes" readU64
  let acquiredBytes ← required ms "acquired_bytes" readU64
  let unreadableBytes ← required ms "unreadable_bytes" readU64
  let topologyChanged ← required ms "topology_changed" readBool
  let sha256 ← required ms "sha256" readString
  let kernelHints ← defaulted ms "kernel_hints" none (readOption KernelHintsMap.ofJson)
  let ranges ← required ms "ranges" (readVec RangeEntry.ofJson)
  let unreadable ← required ms "unreadable" (readVec UnreadableEntry.ofJson)
  pure { producer, producerVersion, schema, status, logicalSize, physicalBytes, acquiredBytes,
         unreadableBytes, topologyChanged, sha256, kernelHints, ranges, unreadable }

end PhylaRam.Verify
