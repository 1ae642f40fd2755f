import PhylaRam.Library.Pool
import PhylaRam.Library.Program
import PhylaRam.Shared.Protocol

/-!
# The driver's state and the kernel routines it calls

The types of `driver/driver.h`. The physical range tables that
`MmGetPhysicalMemoryRangesEx2` allocates live in a pool; a pointer is the name of a
block. The answers of the kernel's own routines during one callback are parameters of
the callback, so nothing is assumed about the machine: its table may change and its
routines may fail between any two calls.

`copies` is an observation that the driver never reads: the calls of `MmCopyMemory`.
-/

namespace PhylaRam

abbrev NtStatus := Int32

def ntSuccess (status : NtStatus) : Bool := 0 ≤ status

def statusSuccess : NtStatus := 0
def statusInvalidParameter : NtStatus := (0xC000000D : UInt32).toInt32
def statusInvalidDeviceRequest : NtStatus := (0xC0000010 : UInt32).toInt32
def statusBufferTooSmall : NtStatus := (0xC0000023 : UInt32).toInt32
def statusIntegerOverflow : NtStatus := (0xC0000095 : UInt32).toInt32
def statusInsufficientResources : NtStatus := (0xC000009A : UInt32).toInt32
def statusInvalidUserBuffer : NtStatus := (0xC00000E8 : UInt32).toInt32
def statusInvalidDeviceState : NtStatus := (0xC0000184 : UInt32).toInt32
def statusNotFound : NtStatus := (0xC0000225 : UInt32).toInt32

/-- `APC_LEVEL`. -/
def apcLevel : UInt8 := 1

/-- `MAXULONG`. -/
def maxUlong : UInt64 := 0xFFFFFFFF

/-- `PHYSICAL_MEMORY_RANGE`; the driver reads both fields as unsigned. -/
@[ext] structure PhysicalMemoryRange where
  baseAddress : UInt64
  numberOfBytes : UInt64
deriving DecidableEq, Repr

/-- What `MmCopyMemory` stores: the bytes at the head of the target buffer, their
claimed number and the status it returns. -/
structure Transfer where
  bytes : List Byte
  copied : UInt64
  status : NtStatus
deriving DecidableEq, Repr

/-- What the kernel's routines answer during one callback. `ranges` is the array that
`MmGetPhysicalMemoryRangesEx2` returns, up to its last entry, or `NULL`. -/
structure KernelCalls where
  irql : UInt8
  ranges : Option (List PhysicalMemoryRange)
  copyMemory : UInt64 → UInt32 → Transfer
  hints : PhylaKernelHints

/-- `PHYLA_FILE_CONTEXT`. -/
structure PhylaFileContext where
  ranges : Option Nat := none
  runCount : UInt32 := 0
  totalBytes : UInt64 := 0
  highestPhysicalEnd : UInt64 := 0
  sessionEnded : Bool := false
deriving DecidableEq, Repr

/-- One call of `MmCopyMemory`. -/
structure MemoryCopy where
  physicalAddress : UInt64
  length : UInt32
  transfer : Transfer
deriving DecidableEq, Repr

structure Driver where
  context : PhylaFileContext := {}
  pool : Pool (List PhysicalMemoryRange) := {}
  copies : List MemoryCopy := []

/-- How a callback ends other than by `STATUS_SUCCESS`. -/
inductive Fault
  | status (status : NtStatus)
  /-- It never returns. -/
  | hangs
deriving DecidableEq

abbrev DriverM := EStateM Fault Driver

/-- `return status;` with an error status. -/
def failWith {α : Type} (status : NtStatus) : DriverM α := throw (.status status)

/-- `if (!NT_SUCCESS(status)) return status;` -/
def ntCheck (status : NtStatus) : DriverM Unit :=
  if ntSuccess status then pure () else failWith status

def setContext (f : PhylaFileContext → PhylaFileContext) : DriverM Unit :=
  modify fun d => { d with context := f d.context }

/-- `MmGetPhysicalMemoryRangesEx2(NULL, 0)`. -/
def mmGetPhysicalMemoryRanges (calls : KernelCalls) : DriverM (Option Nat) :=
  modifyGet fun d =>
    match calls.ranges with
    | none => (none, d)
    | some entries => (some d.pool.next, { d with pool := d.pool.allocate entries })

/-- `ExFreePool`. -/
def exFreePool (block : Nat) : DriverM Unit :=
  modify fun d => { d with pool := d.pool.free block }

/-- The entries behind a pointer. A released block would read as anything; that it is
never read is a theorem. -/
def rangesAt (block : Nat) : DriverM (List PhysicalMemoryRange) :=
  modifyGet fun d => ((d.pool.content? block).getD [], { d with pool := d.pool.read block })

/-- `Ranges[i]`; the zero entry follows the last one. -/
def entryAt (entries : List PhysicalMemoryRange) (i : UInt32) : PhysicalMemoryRange :=
  entries.getD i.toNat ⟨0, 0⟩

end PhylaRam
