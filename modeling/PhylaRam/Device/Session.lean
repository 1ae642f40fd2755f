import PhylaRam.Driver.Lifecycle
import PhylaRam.Win32.FileSystem
import Mathlib.Data.List.Sort

/-!
# The client of the driver

This module follows `cli/device.cpp`. The handle of a `DeviceSession` names a file object
of the driver, whose callbacks answer every `DeviceIoControl`. The history of the file
object is part of the state and never read by the program.
-/

namespace PhylaRam

open Program

/-- The machine that the driver runs on: what the kernel answers during the n-th callback,
whether opening the device fails, and the Win32 error of a status. -/
structure Machine where
  kernel : Nat → KernelCalls
  openFailure : Nat → Option UInt32
  dosError : NtStatus → UInt32

structure DeviceSession where
  handle : Bool := false
  lastError : UInt32 := errorSuccess
  /-- `ioBuffer_` after the result header. -/
  payload : List Byte := []
  driver : History Driver DriverEvent := { now := {} }
  tick : Nat := 0

abbrev DeviceM := EStateM Unit DeviceSession

namespace DeviceSession

/-- `lastError_ = error; return false;` -/
def reject {α : Type} (error : UInt32) : DeviceM α := do
  modify fun s => { s with lastError := error }
  throw ()

def requireHandle : DeviceM Unit := do
  if (← get).handle then pure () else reject errorInvalidHandle

/-- The file object after one more callback. -/
def recorded (d : Driver) (e : DriverEvent) (s : DeviceSession) : DeviceSession :=
  { s with
    driver := ⟨d, s.driver.past ++ [(s.driver.now, e)]⟩
    tick := s.tick + 1 }

variable (machine : Machine)

/-- `DeviceIoControl` with `lastError_ = GetLastError(); return false;` on failure. A
callback that never returns is a call that never returns; nothing follows it. -/
def deviceIoControl (ioControlCode : UInt32) (input : PhylaReadRequest)
    (inputLength outputLength : UInt64) : DeviceM (UInt32 × Option Reply) := do
  let s ← get
  let calls := machine.kernel s.tick
  let request := deliver input inputLength outputLength
  match phylaEvtIoDeviceControl calls request ioControlCode s.driver.now with
  | none => throw ()
  | some (completion, d) => do
      set (recorded d (.deviceControl calls request ioControlCode) s)
      if ntSuccess completion.status then
        pure (completion.information.toUInt32, completion.reply)
      else reject (machine.dosError completion.status)

/-- A request without input. -/
def noInput : PhylaReadRequest := ⟨0, 0, 0⟩

/-- The loop that checks and numbers the ranges. -/
def collectRuns : List PhylaMemoryRun → UInt32 → Option (List MemoryRun)
  | [], _ => some []
  | raw :: rest, i =>
      if raw.numberOfBytes = 0 ∨ raw.baseAddress > uint64Max - raw.numberOfBytes then none
      else (collectRuns rest (i + 1)).map (⟨i, raw.baseAddress, raw.numberOfBytes⟩ :: ·)

/-- Some run begins before the end of its predecessor. -/
def runsOverlap : List MemoryRun → Bool
  | previous :: run :: rest =>
      previous.base + previous.length > run.base || runsOverlap (run :: rest)
  | _ => false

/-- `std::sort` by base. Runs of one base are in some order, and the loop after the sort
rejects them in every order. -/
def sortRuns (runs : List MemoryRun) : List MemoryRun :=
  runs.insertionSort fun a b => a.base ≤ b.base

def maxRunCount : UInt32 := 1024 * 1024

/-- The second half of `Query`: the ranges. -/
def queryRanges (info : PhylaQueryInfo) : DeviceM Topology := do
  let expectedBytes := info.runCount.toUInt64 * sizeofMemoryRun
  let (returned, reply) ← deviceIoControl machine ioctlPhylaGetRanges noInput 0 expectedBytes
  let raw := match reply with
    | some (.ranges runs) => runs
    | _ => List.replicate info.runCount.toNat ⟨0, 0⟩
  if returned ≠ expectedBytes.toUInt32 then reject errorInvalidData
  else
    match collectRuns raw 0 with
    | none => reject errorInvalidData
    | some runs =>
        if runsOverlap (sortRuns runs) then reject errorInvalidData
        else pure ⟨info.highestPhysicalEnd, info.totalBytes, sortRuns runs⟩

def query : DeviceM Topology := do
  requireHandle
  let (returned, reply) ← deviceIoControl machine ioctlPhylaQueryInfo noInput 0 sizeofQueryInfo
  let info : PhylaQueryInfo := match reply with
    | some (.queryInfo info) => info
    | _ => ⟨0, 0, 0, 0⟩
  if returned ≠ sizeofQueryInfo.toUInt32 ∨ info.version ≠ phylaProtocolVersion then
    reject errorInvalidData
  else if info.runCount = 0 ∨ info.runCount > maxRunCount then reject errorInvalidData
  else queryRanges machine info

def queryHints : DeviceM KernelHints := do
  requireHandle
  let (returned, reply) ←
    deviceIoControl machine ioctlPhylaQueryHints noInput 0 sizeofKernelHints
  let raw : PhylaKernelHints := match reply with
    | some (.hints hints) => hints
    | _ => ⟨0, 0, 0, 0, 0, 0, 0, 0, 0, 0, 0, 0⟩
  if returned ≠ sizeofKernelHints.toUInt32 ∨ raw.version ≠ phylaProtocolVersion then
    reject errorInvalidData
  else
    pure
      { available := true
        hypervisorPresent := raw.hypervisorPresent != 0
        majorVersion := raw.majorVersion
        minorVersion := raw.minorVersion
        buildNumber := raw.buildNumber
        numberOfProcessors := raw.numberOfProcessors
        directoryTableBase := raw.directoryTableBase
        kpcrAddress := raw.kpcrAddress
        kernelBase := raw.kernelBase
        kernelSize := raw.kernelSize }

/-- The reply to a `READ_RUN` as it stands in `ioBuffer_`, where earlier replies may have
left bytes behind the payload. -/
def storePayload (bytes : List Byte) : DeviceM (List Byte) :=
  modifyGet fun s =>
    let payload := bytes ++ s.payload.drop bytes.length
    (payload, { s with payload := payload })

def read (runIndex : UInt32) (offset : UInt64) (length : UInt32) : DeviceM ReadResult := do
  requireHandle
  if length = 0 ∨ length > phylaMaxTransfer then reject errorInvalidParameter
  else do
    let neededCapacity := sizeofReadResult.toUInt64 + length.toUInt64
    let (returned, reply) ← deviceIoControl machine ioctlPhylaReadRun
      ⟨runIndex, length, offset⟩ sizeofReadRequest neededCapacity
    if returned < sizeofReadResult then reject errorInvalidData
    else
      match reply with
      | some (.readRun header bytes) => do
          let payload ← storePayload bytes
          if header.version ≠ phylaProtocolVersion ∨ header.headerSize ≠ sizeofReadResult ∨
              header.bytesCopied > length ∨
              returned.toUInt64 ≠ sizeofReadResult.toUInt64 + header.bytesCopied.toUInt64 then
            reject errorInvalidData
          else
            pure
              { physicalAddress := header.physicalAddress
                requested := header.requestedLength
                copied := header.bytesCopied
                copyStatus := header.copyStatus
                data := payload.take header.bytesCopied.toNat }
      | _ => reject errorInvalidData

def endSession : DeviceM Bool := do
  requireHandle
  let (returned, reply) ← deviceIoControl machine ioctlPhylaEndSession noInput 0 sizeofEndResult
  let endResult : PhylaEndResult := match reply with
    | some (.ended result) => result
    | _ => ⟨0, 0, 0, 0⟩
  if returned ≠ sizeofEndResult.toUInt32 ∨ endResult.version ≠ phylaProtocolVersion then
    reject errorInvalidData
  else pure (endResult.topologyChanged != 0)

/-- `handle_.Reset()`: the last handle of the file object is closed. -/
def close (s : DeviceSession) : DeviceSession :=
  if s.handle then
    let cleaned := recorded (phylaEvtFileCleanup s.driver.now) .fileCleanup s
    { recorded (phylaEvtFileClose cleaned.driver.now) .fileClose cleaned with handle := false }
  else s

/-- `Open`: `CreateFileW` makes a new file object. -/
def openDevice (s : DeviceSession) : Bool × DeviceSession :=
  let closed := close s
  let calls := machine.kernel closed.tick
  let s' := { closed with tick := closed.tick + 1 }
  match machine.openFailure closed.tick with
  | some error => (false, { s' with lastError := error })
  | none =>
      match phylaEvtFileCreate calls {} with
      | none => (false, s')
      | some (status, d) =>
          if ntSuccess status then
            (true, { s' with
              handle := true
              driver := ⟨d, [({}, .fileCreate calls)]⟩ })
          else (false, { s' with lastError := machine.dosError status })

/-- A method that stores its result through a reference parameter and returns a flag. -/
def method {α : Type} (x : DeviceM α) (s : DeviceSession) : Option α × DeviceSession :=
  match x s with
  | .ok a s => (some a, s)
  | .error _ s => (none, s)

end DeviceSession

def deviceSession (machine : Machine) : IDeviceSession DeviceSession where
  openSession := DeviceSession.openDevice machine
  close := DeviceSession.close
  query := DeviceSession.method (DeviceSession.query machine)
  queryHints s :=
    let (hints, s) := DeviceSession.method (DeviceSession.queryHints machine) s
    ((hints.isSome, hints.getD {}), s)
  read runIndex offset length := DeviceSession.method (DeviceSession.read machine runIndex offset length)
  endSession := DeviceSession.method (DeviceSession.endSession machine)
  lastError s := s.lastError

end PhylaRam
