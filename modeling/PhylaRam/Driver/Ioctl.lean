import PhylaRam.Driver.Session

/-!
# The driver's callbacks

This module follows `driver/ioctl.c` and the file callbacks of `driver/driver.c`. A
request carries the answers of the framework's retrieval routines, which may fail. The
framework serializes the callbacks of the device, so each runs from one state to the next.
-/

namespace PhylaRam

/-- An `MDL`: whether it can be mapped, and its byte count. -/
structure Mdl where
  mapped : Bool
  byteCount : UInt32
deriving DecidableEq, Repr

/-- A `WDFREQUEST`. The statuses are those of `WdfRequestRetrieveInputBuffer`,
`WdfRequestRetrieveOutputBuffer` (for a minimal size) and
`WdfRequestRetrieveOutputWdmMdl`. -/
structure WdfRequest where
  fileObject : Bool
  input : PhylaReadRequest
  inputStatus : UInt64 → NtStatus
  outputStatus : UInt64 → NtStatus
  outputMdl : NtStatus × Option Mdl
  outputBufferLength : UInt64

/-- A request that reaches the driver intact, with buffers of the given sizes. -/
def deliver (input : PhylaReadRequest) (inputLength outputLength : UInt64) : WdfRequest where
  fileObject := true
  input := input
  inputStatus minimum := if inputLength < minimum then statusBufferTooSmall else statusSuccess
  outputStatus minimum := if outputLength < minimum then statusBufferTooSmall else statusSuccess
  outputMdl := (statusSuccess, some ⟨true, outputLength.toUInt32⟩)
  outputBufferLength := outputLength

/-- What a handler leaves in the output buffer. -/
inductive Reply
  | queryInfo (info : PhylaQueryInfo)
  | ranges (runs : List PhylaMemoryRun)
  | readRun (result : PhylaReadResult) (payload : List Byte)
  | ended (result : PhylaEndResult)
  | hints (hints : PhylaKernelHints)
deriving DecidableEq

/-- `PhylaRequestFileContext` and the `ctx == NULL` test of the handlers. -/
def requestFileContext (request : WdfRequest) : DriverM Unit :=
  if request.fileObject then pure () else failWith statusInvalidDeviceState

def phylaHandleQueryInfo (request : WdfRequest) : DriverM (Reply × UInt64) := do
  requestFileContext request
  let _ ← openRanges
  if request.outputBufferLength < sizeofQueryInfo then failWith statusBufferTooSmall
  else do
    ntCheck (request.outputStatus sizeofQueryInfo)
    let context := (← get).context
    pure (
      .queryInfo
        { version := phylaProtocolVersion
          runCount := context.runCount
          totalBytes := context.totalBytes
          highestPhysicalEnd := context.highestPhysicalEnd },
      sizeofQueryInfo)

def phylaHandleGetRanges (request : WdfRequest) : DriverM (Reply × UInt64) := do
  requestFileContext request
  let ranges ← openRanges
  let runCount := (← get).context.runCount
  if runCount.toUInt64 > uint64Max / sizeofMemoryRun then failWith statusIntegerOverflow
  else do
    let required := runCount.toUInt64 * sizeofMemoryRun
    if request.outputBufferLength < required then failWith statusBufferTooSmall
    else do
      ntCheck (request.outputStatus required)
      let entries ← rangesAt ranges
      pure (
        .ranges ((List.range runCount.toNat).map fun i =>
          { baseAddress := (entryAt entries i.toUInt32).baseAddress
            numberOfBytes := (entryAt entries i.toUInt32).numberOfBytes }),
        required)

def phylaHandleReadRun (calls : KernelCalls) (request : WdfRequest) :
    DriverM (Reply × UInt64) := do
  requestFileContext request
  let _ ← openRanges
  ntCheck (request.inputStatus sizeofReadRequest)
  ntCheck request.outputMdl.1
  match request.outputMdl.2 with
  | none => failWith statusInvalidUserBuffer
  | some mdl =>
      if !mdl.mapped then failWith statusInsufficientResources
      else do
        let outputLength :=
          if request.outputBufferLength < mdl.byteCount.toUInt64 then
            request.outputBufferLength.toUInt32
          else mdl.byteCount
        if outputLength < sizeofReadResult then failWith statusBufferTooSmall
        else do
          let (result, payload) ← phylaCopyRun calls request.input (outputLength - sizeofReadResult)
          pure (.readRun result payload, sizeofReadResult.toUInt64 + result.bytesCopied.toUInt64)

def phylaHandleEndSession (calls : KernelCalls) (request : WdfRequest) :
    DriverM (Reply × UInt64) := do
  requestFileContext request
  if request.outputBufferLength < sizeofEndResult then failWith statusBufferTooSmall
  else do
    ntCheck (request.outputStatus sizeofEndResult)
    let (changed, currentCount) ← phylaSessionEnd calls
    pure (
      .ended
        { version := phylaProtocolVersion
          topologyChanged := if changed then 1 else 0
          currentRunCount := currentCount
          reserved := 0 },
      sizeofEndResult)

def phylaHandleQueryHints (calls : KernelCalls) (request : WdfRequest) :
    DriverM (Reply × UInt64) :=
  if request.outputBufferLength < sizeofKernelHints then failWith statusBufferTooSmall
  else do
    ntCheck (request.outputStatus sizeofKernelHints)
    let hints ← phylaQueryKernelHints calls
    pure (.hints hints, sizeofKernelHints)

/-- The `switch` of `PhylaEvtIoDeviceControl`. -/
def handleDeviceControl (calls : KernelCalls) (request : WdfRequest) (ioControlCode : UInt32) :
    DriverM (Reply × UInt64) :=
  if ioControlCode = ioctlPhylaQueryInfo then phylaHandleQueryInfo request
  else if ioControlCode = ioctlPhylaGetRanges then phylaHandleGetRanges request
  else if ioControlCode = ioctlPhylaReadRun then phylaHandleReadRun calls request
  else if ioControlCode = ioctlPhylaEndSession then phylaHandleEndSession calls request
  else if ioControlCode = ioctlPhylaQueryHints then phylaHandleQueryHints calls request
  else failWith statusInvalidDeviceRequest

/-- How a request is completed: `WdfRequestCompleteWithInformation`, and what stands in
its output buffer. -/
structure Completion where
  status : NtStatus
  information : UInt64
  reply : Option Reply
deriving DecidableEq

/-- The end of `PhylaEvtIoDeviceControl`. `none` is a callback that never returns. -/
def completeRequest :
    EStateM.Result Fault Driver (Reply × UInt64) → Option (Completion × Driver)
  | .ok (reply, bytesReturned) d => some (⟨statusSuccess, bytesReturned, some reply⟩, d)
  | .error (.status status) d => some (⟨status, 0, none⟩, d)
  | .error .hangs _ => none

def phylaEvtIoDeviceControl (calls : KernelCalls) (request : WdfRequest)
    (ioControlCode : UInt32) (d : Driver) : Option (Completion × Driver) :=
  completeRequest (handleDeviceControl calls request ioControlCode d)

/-- `PhylaEvtFileCreate`: the status with which the create request is completed. -/
def phylaEvtFileCreate (calls : KernelCalls) (d : Driver) : Option (NtStatus × Driver) :=
  match phylaSessionBegin calls { d with context := {} } with
  | .ok () d => some (statusSuccess, d)
  | .error (.status status) d => some (status, d)
  | .error .hangs _ => none

def phylaEvtFileCleanup (d : Driver) : Driver := Program.final (phylaSessionRelease d)

/-- `PhylaEvtFileClose` makes no second lifecycle transition. -/
def phylaEvtFileClose (d : Driver) : Driver := d

end PhylaRam
