import PhylaRam.Acquire.Basic
import PhylaRam.Library.SideBySide

/-!
# The acquisition of the mock test

This module follows the function `Acquire` that `tests/test_mock_acquire.cpp` defines for
itself. It differs from the shipped one: the sums are not checked, a reply is checked for its
address only, the flag is loaded before each run, and there may be no hasher. A device that
answers with more than it was asked for can keep its loops busy for ever, so they are cut off
after a number of iterations.
-/

namespace PhylaRam

open Program (Flow)

namespace MockAcquire

inductive Stop
  /-- `return false`. -/
  | refused
  | outOfFuel
deriving DecidableEq, Repr

/-- The states of the collaborators, the local variables and the calls made so far. -/
structure State (δ ω η κ : Type) where
  device : δ
  writer : ω
  hasher : η
  environment : κ
  summary : AcquisitionSummary := {}
  hashPosition : UInt64 := 0
  processedPhysical : UInt64 := 0
  offset : UInt64 := 0
  calls : List Call := []

variable {δ ω η κ : Type}

abbrev Mock (δ ω η κ : Type) := EStateM Stop (State δ ω η κ)

def demand (condition : Bool) : Mock δ ω η κ Unit :=
  if condition then pure () else throw .refused

def record (call : Call) : Mock δ ω η κ Unit :=
  modify fun t => { t with calls := t.calls ++ [call] }

/-- The span list of `AddUnreadable`; the sums wrap around. -/
def pushUnreadable (spans : List UnreadableSpan) (start length : UInt64) (status : Int32) :
    List UnreadableSpan :=
  match spans.getLast? with
  | some last =>
      if last.status == status && last.start + last.length == start then
        spans.dropLast ++ [{ last with length := last.length + length }]
      else spans ++ [⟨start, length, status⟩]
  | none => spans ++ [⟨start, length, status⟩]

def addUnreadable (summary : AcquisitionSummary) (start length : UInt64) (status : Int32) :
    AcquisitionSummary :=
  { summary with
    unreadable := pushUnreadable summary.unreadable start length status
    unreadableBytes := summary.unreadableBytes + length }

-- `hashing` says whether there is a hasher
variable (C : Collaborators δ ω η κ) (hashing : Bool)

def checkCancelled : Mock δ ω η κ Unit := do
  let cancelled ← modifyGet fun t =>
    let (cancelled, k) := C.environment.cancelled t.environment
    (cancelled, { t with environment := k })
  demand (!cancelled)

def read (run : MemoryRun) (wanted : UInt32) : Mock δ ω η κ ReadResult := do
  let t ← get
  let (reply, device) := C.device.read run.driverIndex t.offset wanted t.device
  set { t with device := device }
  record (.read run.driverIndex t.offset wanted reply)
  match reply with
  | none => throw .refused
  | some rr => pure rr

def updateZeros (length : UInt64) : Mock δ ω η κ Unit := do
  record (.updateZeros length)
  let accepted ← modifyGet fun t =>
    let (accepted, hasher) := C.hasher.updateZeros length t.hasher
    (accepted, { t with hasher := hasher })
  demand accepted

def update (data : List Byte) : Mock δ ω η κ Unit := do
  record (.update data)
  let accepted ← modifyGet fun t =>
    let (accepted, hasher) := C.hasher.update data t.hasher
    (accepted, { t with hasher := hasher })
  demand accepted

def writeAt (offset : UInt64) (data : List Byte) : Mock δ ω η κ Unit := do
  record (.writeAt offset data)
  let accepted ← modifyGet fun t =>
    let (accepted, writer) := C.writer.writeAt offset data t.writer
    (accepted, { t with writer := writer })
  demand accepted

def hashZerosTo (next : UInt64) : Mock δ ω η κ Unit :=
  if hashing then do
    let t ← get
    demand (t.hashPosition ≤ next)
    if t.hashPosition < next then
      updateZeros C (next - t.hashPosition)
    modify fun t => { t with hashPosition := next }
  else modify fun t => { t with hashPosition := next }

/-- The counters after the bytes of a reply have been kept. -/
def count (copied : UInt64) : Mock δ ω η κ Unit :=
  modify fun t => { t with
    hashPosition := t.hashPosition + copied
    offset := t.offset + copied
    processedPhysical := t.processedPhysical + copied
    summary := { t.summary with acquiredBytes := t.summary.acquiredBytes + copied } }

/-- What both loops do with the bytes of a reply: so many of its buffer as it says. -/
def keep (rr : ReadResult) : Mock δ ω η κ Unit := do
  hashZerosTo C hashing rr.physicalAddress
  writeAt C rr.physicalAddress (rr.data.take rr.copied.toNat)
  if hashing then
    update C (rr.data.take rr.copied.toNat)
  count rr.copied.toUInt64

def keepCopied (rr : ReadResult) : Mock δ ω η κ Unit :=
  if rr.copied ≠ 0 then keep C hashing rr else pure ()

def skip (physical pageRemainder : UInt64) (status : Int32) : Mock δ ω η κ Unit := do
  record (.addUnreadable physical pageRemainder status)
  modify fun t => { t with
    summary := addUnreadable t.summary physical pageRemainder status
    processedPhysical := t.processedPhysical + pageRemainder
    offset := t.offset + pageRemainder }

/-- One turn of `while (offset < chunkEnd)`. -/
def pageBody (run : MemoryRun) (chunkEnd : UInt64) : Mock δ ω η κ Flow := do
  checkCancelled C
  let t ← get
  let physical := run.base + t.offset
  let pageRemainder := pageRequestBytes physical (chunkEnd - t.offset)
  let page ← read C run pageRemainder
  demand (page.physicalAddress == physical)
  if page.copied ≠ 0 then do
    keep C hashing page
    pure (if page.copied = pageRemainder then .leave else .again)
  else do
    skip physical pageRemainder.toUInt64 page.copyStatus
    pure .again

variable (fuel : Nat)

def isolate (run : MemoryRun) (wanted : UInt32) (rr : ReadResult) : Mock δ ω η κ Unit :=
  if rr.copied ≠ wanted then do
    let offset := (← get).offset
    let chunkEnd := min run.length (offset + (wanted - rr.copied).toUInt64)
    Program.boundedLoop .outOfFuel (fun t => decide (t.offset < chunkEnd))
      (pageBody C hashing run chunkEnd) fuel
  else pure ()

/-- One turn of `while (offset < run.length)`. -/
def chunkBody (run : MemoryRun) : Mock δ ω η κ Unit := do
  checkCancelled C
  let t ← get
  let wanted := bulkRequestBytes run t.offset
  let rr ← read C run wanted
  demand (rr.physicalAddress == run.base + t.offset && rr.requested == wanted)
  keepCopied C hashing rr
  isolate C hashing fuel run wanted rr

def acquireRuns : List MemoryRun → Mock δ ω η κ Unit
  | [] => pure ()
  | run :: rest => do
      checkCancelled C
      modify fun t => { t with offset := 0 }
      Program.boundedLoop .outOfFuel (fun t => decide (t.offset < run.length))
        (do chunkBody C hashing fuel run; pure .again) fuel
      acquireRuns rest

/-- The query, the hints and the start of the summary. -/
def beginSummary : Mock δ ω η κ Topology := do
  let answer ← modifyGet fun t =>
    let (answer, device) := C.device.query t.device
    (answer, { t with device := device })
  match answer with
  | none => throw .refused
  | some topology => do
      modify fun t =>
        let ((_, hints), device) := C.device.queryHints t.device
        { t with
          device := device
          summary := { t.summary with
            hints := hints
            logicalSize := topology.highestEnd
            physicalBytes := topology.totalBytes
            ranges := topology.runs } }
      pure topology

def endSession : Mock δ ω η κ Unit := do
  record .endSession
  let answer ← modifyGet fun t =>
    let (answer, device) := C.device.endSession t.device
    (answer, { t with device := device })
  match answer with
  | none => throw .refused
  | some changed =>
      modify fun t => { t with
        summary := { t.summary with topologyChanged := changed, completed := true } }

/-- The collaborators' states at the call, a fresh summary and local variables at zero. -/
def State.start (device : δ) (writer : ω) (hasher : η) (environment : κ) : State δ ω η κ :=
  { device, writer, hasher, environment }

def acquire : Mock δ ω η κ Unit := do
  let topology ← beginSummary C
  acquireRuns C hashing fuel topology.runs
  hashZerosTo C hashing (← get).summary.logicalSize
  endSession C

end MockAcquire

end PhylaRam
