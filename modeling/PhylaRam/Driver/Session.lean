import PhylaRam.Driver.Basic

/-!
# Sessions of the driver

This module follows `driver/session.c` and `driver/memory.c`. Pointers that the source
compares with `NULL` and that its callers never pass as such are values here.
-/

namespace PhylaRam

/-- `PhylaCountRanges`, from the entry at index `count`. A counter that wraps reads the
array from its start again, so the loop does not end: `none`. -/
def phylaCountRanges : List PhysicalMemoryRange → UInt32 → Option UInt32
  | [], count => some count
  | range :: rest, count =>
      if range.baseAddress != 0 || range.numberOfBytes != 0 then
        if count + 1 = 0 then none else phylaCountRanges rest (count + 1)
      else some count

/-- The loop of `PhylaSummarizeRanges`: the total and the highest end. -/
def summarizeRanges : List PhysicalMemoryRange → UInt64 × UInt64 → UInt64 × UInt64
  | [], sums => sums
  | range :: rest, (total, highest) =>
      if range.numberOfBytes > uint64Max - range.baseAddress then
        summarizeRanges rest (total, highest)
      else
        let last := range.baseAddress + range.numberOfBytes
        summarizeRanges rest
          (if uint64Max - total ≥ range.numberOfBytes then total + range.numberOfBytes else total,
            if last > highest then last else highest)

def phylaSummarizeRanges (ranges : List PhysicalMemoryRange) (count : UInt32) :
    UInt64 × UInt64 :=
  summarizeRanges (ranges.take count.toNat) (0, 0)

def phylaRangesEqual (a : List PhysicalMemoryRange) (countA : UInt32)
    (b : List PhysicalMemoryRange) (countB : UInt32) : Bool :=
  if countA != countB then false
  else (List.range countA.toNat).all fun i =>
    (entryAt a i.toUInt32).baseAddress == (entryAt b i.toUInt32).baseAddress &&
      (entryAt a i.toUInt32).numberOfBytes == (entryAt b i.toUInt32).numberOfBytes

/-- `PhylaCountRanges(Ranges)`. -/
def countAt (block : Nat) : DriverM UInt32 := do
  let entries ← rangesAt block
  match phylaCountRanges entries 0 with
  | none => throw .hangs
  | some count => pure count

def phylaSessionBegin (calls : KernelCalls) : DriverM Unit := do
  match ← mmGetPhysicalMemoryRanges calls with
  | none => failWith statusInsufficientResources
  | some ranges =>
      let count ← countAt ranges
      if count = 0 then do
        exFreePool ranges
        failWith statusNotFound
      else do
        let entries ← rangesAt ranges
        let (total, highest) := phylaSummarizeRanges entries count
        setContext fun _ =>
          { ranges := some ranges
            runCount := count
            totalBytes := total
            highestPhysicalEnd := highest
            sessionEnded := false }

def phylaSessionRelease : DriverM Unit := do
  let context := (← get).context
  match context.ranges with
  | some rangesToFree => exFreePool rangesToFree
  | none => pure ()
  setContext fun _ =>
    { ranges := none
      runCount := 0
      totalBytes := 0
      highestPhysicalEnd := 0
      sessionEnded := true }

/-- `Context->Ranges`, where `Context->Ranges == NULL || Context->SessionEnded` makes the
source return `STATUS_INVALID_DEVICE_STATE`. -/
def openRanges : DriverM Nat := do
  let context := (← get).context
  match context.ranges with
  | some ranges => if context.sessionEnded then failWith statusInvalidDeviceState else pure ranges
  | none => failWith statusInvalidDeviceState

/-- `PhylaSessionEnd`: `TopologyChanged` and `CurrentRunCount`. -/
def phylaSessionEnd (calls : KernelCalls) : DriverM (Bool × UInt32) := do
  let ranges ← openRanges
  match ← mmGetPhysicalMemoryRanges calls with
  | none => failWith statusInsufficientResources
  | some current =>
      let currentCount ← countAt current
      let captured ← rangesAt ranges
      let present ← rangesAt current
      let runCount := (← get).context.runCount
      exFreePool current
      setContext fun context => { context with sessionEnded := true }
      pure (!phylaRangesEqual captured runCount present currentCount, currentCount)

/-- `MmCopyMemory`. -/
def mmCopyMemory (calls : KernelCalls) (physicalAddress : UInt64) (length : UInt32) :
    DriverM Transfer :=
  modifyGet fun d =>
    let transfer := calls.copyMemory physicalAddress length
    (transfer, { d with copies := d.copies ++ [⟨physicalAddress, length, transfer⟩] })

/-- The checks of `PhylaCopyRun` on its request that need no table. -/
def requestInvalid (context : PhylaFileContext) (request : PhylaReadRequest)
    (payloadCapacity : UInt32) : Bool :=
  request.runIndex ≥ context.runCount || request.length == 0 ||
    request.length > phylaMaxTransfer || request.length > payloadCapacity

/-- The checks of `PhylaCopyRun` against the run it reads. -/
def requestOutside (base runLength : UInt64) (request : PhylaReadRequest) : Bool :=
  request.offsetWithinRun > runLength ||
    request.length.toUInt64 > runLength - request.offsetWithinRun ||
    request.offsetWithinRun > uint64Max - base

/-- `PhylaCopyRun`: the result header and what was stored at the head of the payload. -/
def phylaCopyRun (calls : KernelCalls) (request : PhylaReadRequest) (payloadCapacity : UInt32) :
    DriverM (PhylaReadResult × List Byte) := do
  if calls.irql > apcLevel then failWith statusInvalidDeviceState
  else do
    let ranges ← openRanges
    let context := (← get).context
    if requestInvalid context request payloadCapacity then failWith statusInvalidParameter
    else do
      let run := entryAt (← rangesAt ranges) request.runIndex
      if requestOutside run.baseAddress run.numberOfBytes request then
        failWith statusInvalidParameter
      else do
        let physicalAddress := run.baseAddress + request.offsetWithinRun
        let transfer ← mmCopyMemory calls physicalAddress request.length
        let copied := if transfer.copied > maxUlong then maxUlong else transfer.copied
        pure (
          { version := phylaProtocolVersion
            headerSize := sizeofReadResult
            physicalAddress := physicalAddress
            requestedLength := request.length
            bytesCopied := copied.toUInt32
            copyStatus := transfer.status },
          transfer.bytes)

/-- `PhylaQueryKernelHints`; the machine's registers are among the answers of the kernel. -/
def phylaQueryKernelHints (calls : KernelCalls) : DriverM PhylaKernelHints :=
  pure { calls.hints with version := phylaProtocolVersion, reserved := 0, reserved2 := 0 }

end PhylaRam
