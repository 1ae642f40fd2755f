import PhylaRam.Library.Word
import PhylaRam.Shared.Interfaces

/-!
# The acquisition engine

This module follows `cli/acquire.cpp`. `acquire` is the function `Acquire`; the
bodies of its two nested loops and the chain of conditions that both read paths
share have definitions of their own. A C++ `return false` is a stop, and the
state it carries is what the caller's references hold at that moment.

Two components of the state are observations, never read by the program: `calls`
lists the calls made so far, and the reason of a stop says which of the source's
`return false` conditions fired. Progress reporting has no effect on the result
and is left out. The monotonic clock appears only as the number of polling
intervals that `PaceTransfer` waits.
-/

namespace PhylaRam

open Program (Flow)

/-- The reason behind a `return false` of `Acquire`. -/
inductive StopCause
  | query
  | cancelled
  | device
  | reply
  | writer
  | hasher
  | endSession
  | guard
deriving DecidableEq, Repr

/-- The calls `Acquire` makes, with their arguments and what `Read` answered. -/
inductive Call
  | read (runIndex : UInt32) (offset : UInt64) (length : UInt32) (reply : Option ReadResult)
  | writeAt (offset : UInt64) (data : List Byte)
  | update (data : List Byte)
  | updateZeros (length : UInt64)
  | addUnreadable (start length : UInt64) (status : Int32)
  | endSession
deriving DecidableEq, Repr

structure AcquisitionConfig where
  rateLimitMBps : UInt32 := 0
  format : OutputFormat := .raw
  metadata : EvidenceMetadata := {}
deriving DecidableEq, Repr

/-- The cancel flag, as other threads set it, and the clock. `cancelled` is one
load of the flag; `waits` counts the polling intervals until the transfer of so
many bytes is due at the given rate. -/
structure Environment (κ : Type) where
  cancelled : κ → Bool × κ
  waits : UInt64 → UInt32 → κ → Nat

/-- The objects `Acquire` is called with. -/
structure Collaborators (δ ω η κ : Type) where
  device : IDeviceSession δ
  writer : IRawWriter ω
  hasher : IHasher η
  environment : Environment κ
  config : AcquisitionConfig

/-- The states of the collaborators and the local variables of `Acquire`. -/
structure AcquireState (δ ω η κ : Type) where
  device : δ
  writer : ω
  hasher : η
  environment : κ
  summary : AcquisitionSummary := {}
  hashPosition : UInt64 := 0
  offsetWithinRun : UInt64 := 0
  processedPhysicalBytes : UInt64 := 0
  transferredBytes : UInt64 := 0
  calls : List Call := []

abbrev AcquireM (δ ω η κ : Type) := EStateM StopCause (AcquireState δ ω η κ)

def checkedAdd (value increment : UInt64) : Option UInt64 :=
  if increment > uint64Max - value then none else some (value + increment)

/-- The condition under which `AddUnreadable` extends the previous span. -/
def extendsSpan (previous : UnreadableSpan) (start length : UInt64) (status : Int32) : Bool :=
  previous.start ≤ uint64Max - previous.length &&
    previous.start + previous.length == start &&
    previous.status == status &&
    previous.length ≤ uint64Max - length

def pushUnreadable (spans : List UnreadableSpan) (start length : UInt64) (status : Int32) :
    List UnreadableSpan :=
  match spans.getLast? with
  | some previous =>
      if extendsSpan previous start length status then
        spans.dropLast ++ [{ previous with length := previous.length + length }]
      else spans ++ [⟨start, length, status⟩]
  | none => spans ++ [⟨start, length, status⟩]

def addUnreadable (summary : AcquisitionSummary) (start length : UInt64) (status : Int32) :
    Option AcquisitionSummary :=
  if length = 0 then none
  else
    match checkedAdd summary.unreadableBytes length with
    | none => none
    | some total =>
        some { summary with
          unreadableBytes := total
          unreadable := pushUnreadable summary.unreadable start length status }

def validateReadResult (result : ReadResult) (expectedPhysicalAddress : UInt64)
    (requestedBytes : UInt32) : Bool :=
  result.physicalAddress == expectedPhysicalAddress &&
    result.requested == requestedBytes &&
    result.copied ≤ requestedBytes &&
    result.data.length == result.copied.toNat

variable {δ ω η κ : Type}

/-- The waiting loop of `PaceTransfer` and the load after it. -/
def pollCancelled (env : Environment κ) : Nat → κ → Bool × κ
  | 0, k =>
      let (cancelled, k) := env.cancelled k
      (!cancelled, k)
  | n + 1, k =>
      let (cancelled, k) := env.cancelled k
      if cancelled then (false, k) else pollCancelled env n k

def paceTransfer (env : Environment κ) (bytesTransferred : UInt64) (rateLimitMBps : UInt32)
    (k : κ) : Bool × κ :=
  if rateLimitMBps = 0 then (true, k)
  else pollCancelled env (env.waits bytesTransferred rateLimitMBps k) k

/-- A condition of an `||` chain that makes `Acquire` return false. -/
def require (condition : Bool) (cause : StopCause) : AcquireM δ ω η κ Unit :=
  if condition then pure () else throw cause

def record (call : Call) : AcquireM δ ω η κ Unit :=
  modify fun s => { s with calls := s.calls ++ [call] }

variable (C : Collaborators δ ω η κ)

/-- `if (cancelled.load()) return false`. -/
def checkCancelled : AcquireM δ ω η κ Unit := do
  let cancelled ← modifyGet fun s =>
    let (cancelled, k) := C.environment.cancelled s.environment
    (cancelled, { s with environment := k })
  require (!cancelled) .cancelled

/-- `device.Read` followed by `ValidateReadResult`. -/
def readRun (run : MemoryRun) (requestedBytes : UInt32) : AcquireM δ ω η κ ReadResult := do
  let s ← get
  let (reply, device) := C.device.read run.driverIndex s.offsetWithinRun requestedBytes s.device
  set { s with device := device }
  record (.read run.driverIndex s.offsetWithinRun requestedBytes reply)
  match reply with
  | none => throw .device
  | some result =>
      require (validateReadResult result (run.base + s.offsetWithinRun) requestedBytes) .reply
      pure result

def updateZeros (length : UInt64) : AcquireM δ ω η κ Unit := do
  record (.updateZeros length)
  let accepted ← modifyGet fun s =>
    let (accepted, hasher) := C.hasher.updateZeros length s.hasher
    (accepted, { s with hasher := hasher })
  require accepted .hasher

def update (data : List Byte) : AcquireM δ ω η κ Unit := do
  record (.update data)
  let accepted ← modifyGet fun s =>
    let (accepted, hasher) := C.hasher.update data s.hasher
    (accepted, { s with hasher := hasher })
  require accepted .hasher

def writeAt (offset : UInt64) (data : List Byte) : AcquireM δ ω η κ Unit := do
  record (.writeAt offset data)
  let accepted ← modifyGet fun s =>
    let (accepted, writer) := C.writer.writeAt offset data s.writer
    (accepted, { s with writer := writer })
  require accepted .writer

def hashZerosTo (nextPhysicalAddress : UInt64) : AcquireM δ ω η κ Unit := do
  let s ← get
  require (s.hashPosition ≤ nextPhysicalAddress) .guard
  if s.hashPosition < nextPhysicalAddress then
    updateZeros C (nextPhysicalAddress - s.hashPosition)
  modify fun s => { s with hashPosition := nextPhysicalAddress }

/-- `CheckedAdd` on one of the 64-bit counters of the state. -/
def advance (counter : AcquireState δ ω η κ → UInt64)
    (store : UInt64 → AcquireState δ ω η κ → AcquireState δ ω η κ) (increment : UInt64) :
    AcquireM δ ω η κ Unit := do
  match checkedAdd (counter (← get)) increment with
  | none => throw .guard
  | some value => modify (store value)

def pace : AcquireM δ ω η κ Unit := do
  let onTime ← modifyGet fun s =>
    let (onTime, k) := paceTransfer C.environment s.transferredBytes C.config.rateLimitMBps
      s.environment
    (onTime, { s with environment := k })
  require onTime .cancelled

/-- The condition chain for the bytes a read returned, the same on both paths. -/
def keepBytes (result : ReadResult) : AcquireM δ ω η κ Unit := do
  let copied := result.copied.toUInt64
  hashZerosTo C result.physicalAddress
  writeAt C result.physicalAddress result.data
  update C result.data
  advance (·.hashPosition) (fun v s => { s with hashPosition := v }) copied
  advance (·.offsetWithinRun) (fun v s => { s with offsetWithinRun := v }) copied
  advance (·.processedPhysicalBytes) (fun v s => { s with processedPhysicalBytes := v }) copied
  advance (·.summary.acquiredBytes)
    (fun v s => { s with summary := { s.summary with acquiredBytes := v } }) copied
  advance (·.transferredBytes) (fun v s => { s with transferredBytes := v }) copied
  pace C

/-- The call of `AddUnreadable` on the summary. -/
def recordUnreadable (start length : UInt64) (status : Int32) : AcquireM δ ω η κ Unit := do
  record (.addUnreadable start length status)
  match addUnreadable (← get).summary start length status with
  | none => throw .guard
  | some summary => modify fun s => { s with summary := summary }

def skipUnreadable (physicalAddress pageRequestBytes : UInt64) (status : Int32) :
    AcquireM δ ω η κ Unit := do
  recordUnreadable physicalAddress pageRequestBytes status
  advance (·.processedPhysicalBytes) (fun v s => { s with processedPhysicalBytes := v })
    pageRequestBytes
  advance (·.offsetWithinRun) (fun v s => { s with offsetWithinRun := v }) pageRequestBytes

def bulkRequestBytes (run : MemoryRun) (offsetWithinRun : UInt64) : UInt32 :=
  (min phylaMaxTransfer.toUInt64 (run.length - offsetWithinRun)).toUInt32

def bytesToPageBoundary (physicalAddress : UInt64) : UInt64 :=
  phylaPageSize.toUInt64 - (physicalAddress &&& (phylaPageSize - 1).toUInt64)

def pageRequestBytes (physicalAddress remaining : UInt64) : UInt32 :=
  (min (bytesToPageBoundary physicalAddress) remaining).toUInt32

/-- The page loop's treatment of an accepted reply. -/
def keepOrSkip (physicalAddress : UInt64) (requested : UInt32) (result : ReadResult) :
    AcquireM δ ω η κ Flow :=
  if result.copied ≠ 0 then do
    keepBytes C result
    pure (if result.copied = requested then .leave else .again)
  else do
    skipUnreadable physicalAddress requested.toUInt64 result.copyStatus
    pure .again

/-- The size of the page loop's request at the current offset. -/
def pageRequest (run : MemoryRun) (chunkEnd : UInt64) (s : AcquireState δ ω η κ) : UInt32 :=
  pageRequestBytes (run.base + s.offsetWithinRun) (chunkEnd - s.offsetWithinRun)

/-- One iteration of the page loop. -/
def pageBody (run : MemoryRun) (chunkEnd : UInt64) : AcquireM δ ω η κ Flow := do
  checkCancelled C
  let s ← get
  let result ← readRun C run (pageRequest run chunkEnd s)
  keepOrSkip C (run.base + s.offsetWithinRun) (pageRequest run chunkEnd s) result

end PhylaRam
