import PhylaRam.Acquire.Engine
import PhylaRam.Evidence.Map
import PhylaRam.Evidence.Sha256
import PhylaRam.Win32.Path
import PhylaRam.Writer.E01
import PhylaRam.Writer.Raw
import PhylaRam.Writer.Zdmp

/-!
# The evidence transaction

This module follows `cli/evidence_transaction.cpp`. Its state is the one of `Acquire`,
whose writer carries the world. An early `return` of the source is a stop that carries the
result; the writer's destructor runs on every way out.
-/

namespace PhylaRam

open Program

structure EvidencePaths where
  rawFinal : WString
  rawPartial : WString
  mapFinal : WString
  mapPartial : WString
  hashFinal : WString
  hashPartial : WString
deriving DecidableEq, Repr

def buildEvidencePaths (outputPath : WString) : EvidencePaths where
  rawFinal := outputPath
  rawPartial := outputPath ++ wide ".partial"
  mapFinal := outputPath ++ wide ".map.json"
  mapPartial := outputPath ++ wide ".map.json.partial"
  hashFinal := outputPath ++ wide ".sha256"
  hashPartial := outputPath ++ wide ".sha256.partial"

inductive EvidenceCaptureStatus
  | complete
  | incomplete
  | cancelled
  | failed
deriving DecidableEq, Repr

structure EvidenceCaptureResult where
  status : EvidenceCaptureStatus := .failed
  summary : AcquisitionSummary := {}
  error : WString := []
  systemError : UInt32 := errorSuccess
deriving DecidableEq

def EvidenceCaptureResult.hasFinalizedBundle (result : EvidenceCaptureResult) : Bool :=
  result.status == .complete || result.status == .incomplete

theorem hasFinalizedBundle_iff {result : EvidenceCaptureResult} :
    result.hasFinalizedBundle = true ↔ result.status = .complete ∨ result.status = .incomplete := by
  rw [EvidenceCaptureResult.hasFinalizedBundle, Bool.or_eq_true, beq_iff_eq, beq_iff_eq]

def failure (message : String) (systemError : UInt32) : EvidenceCaptureResult :=
  { status := .failed, error := wide message, systemError }

/-- The status of a capture that published its bundle. -/
def publishedStatus (summary : AcquisitionSummary) : EvidenceCaptureStatus :=
  if summary.topologyChanged = true ∨ summary.unreadableBytes ≠ 0 then .incomplete else .complete

/-- The byte accounting that `CaptureEvidenceToFile` refuses to publish. -/
def accountingViolated (summary : AcquisitionSummary) : Bool :=
  summary.acquiredBytes > uint64Max - summary.unreadableBytes ||
    summary.acquiredBytes + summary.unreadableBytes != summary.physicalBytes

/-- The format of the output: an extension decides where the configuration says RAW. -/
def outputFormat (outputPath : WString) (format : OutputFormat) : OutputFormat :=
  let ext := (Path.extension outputPath).map fun c =>
    if 0x41 ≤ c && c ≤ 0x5A then c + 0x20 else c
  if format = .raw then
    if ext = wide ".zdmp" ∨ ext = wide ".dmp" then .zdmp
    else if ext = wide ".e01" then .e01
    else format
  else format

/-! ### Files -/

def pathExists (path : WString) (w : World) : Bool × World := getFileAttributesW path w

/-- An `||` chain of `PathExists`. -/
def anyExists : List WString → World → Bool × World
  | [], w => (false, w)
  | path :: rest, w =>
      match pathExists path w with
      | (true, w) => (true, w)
      | (false, w) => anyExists rest w

def deleteIfPresent (path : WString) (w : World) : World :=
  if path = [] then w else (deleteFileW path w).2

namespace EvidencePaths

def removeStagingFiles (paths : EvidencePaths) (w : World) : World :=
  deleteIfPresent paths.hashPartial (deleteIfPresent paths.mapPartial
    (deleteIfPresent paths.rawPartial w))

def removeFinalizedSidecars (paths : EvidencePaths) (w : World) : World :=
  deleteIfPresent paths.hashFinal (deleteIfPresent paths.mapFinal w)

def hasAnyCollision (paths : EvidencePaths) : World → Bool × World :=
  anyExists [paths.rawFinal, paths.rawPartial, paths.mapFinal, paths.mapPartial,
    paths.hashFinal, paths.hashPartial]

end EvidencePaths

/-! ### The phases -/

variable {δ κ μ : Type}

abbrev TransactionState (δ κ μ : Type) := AcquireState δ (WriterState μ × World) Sha256 κ

abbrev TransactionM (δ κ μ : Type) := EStateM EvidenceCaptureResult (TransactionState δ κ μ)

def onWorld {α : Type} (call : World → α × World) : TransactionM δ κ μ α :=
  modifyGet fun s => ((call s.writer.2).1, { s with writer := (s.writer.1, (call s.writer.2).2) })

def changeWorld (f : World → World) : TransactionM δ κ μ Unit := onWorld fun w => ((), f w)

/-- A milestone of the transaction in the history of the world. -/
def note (milestone : Milestone) : TransactionM δ κ μ Unit :=
  changeWorld fun w => w.perform (.note milestone)

def demand (condition : Bool) (result : EvidenceCaptureResult) : TransactionM δ κ μ Unit :=
  if condition then pure () else throw result

/-- `if (cancelled.load())`. -/
def loadCancelled (environment : Environment κ) : TransactionM δ κ μ Bool :=
  modifyGet fun s =>
    let (cancelled, k) := environment.cancelled s.environment
    (cancelled, { s with environment := k })

variable (C : Collaborators δ (WriterState μ × World) Sha256 κ) (paths : EvidencePaths)

def closeWriter : TransactionM δ κ μ Unit := modify fun s => { s with writer := C.writer.close s.writer }

def refuseCollision : TransactionM δ κ μ Unit := do
  let collision ← onWorld paths.hasAnyCollision
  demand (!collision)
    (failure "Refusing to overwrite an existing evidence file or staging file." errorFileExists)

def queryTopology : TransactionM δ κ μ Topology := do
  let answer ← modifyGet fun s =>
    let (answer, device) := C.device.query s.device
    (answer, { s with device := device })
  match answer with
  | some topology => pure topology
  | none =>
      throw (failure "Unable to query the frozen physical-memory topology."
        (C.device.lastError (← get).device))

def initializeHasher : TransactionM δ κ μ Unit := do
  let initialized ← modifyGet fun s =>
    let (initialized, hasher) := C.hasher.initializeHasher s.hasher
    (initialized, { s with hasher := hasher })
  demand initialized (failure "Unable to initialize SHA-256." errorSuccess)

/-- The hints as `QueryHints` leaves them, whatever it returns. -/
def configureWriter (topology : Topology) : TransactionM δ κ μ Unit := do
  let hints ← modifyGet fun s =>
    let ((_, hints), device) := C.device.queryHints s.device
    (hints, { s with device := device })
  modify fun s =>
    { s with writer := C.writer.configure topology.runs hints C.config.metadata s.writer }

def openImage (topology : Topology) : TransactionM δ κ μ Unit := do
  let opened ← modifyGet fun s =>
    let (opened, writer) := C.writer.preflightAndOpen paths.rawPartial topology.highestEnd
      topology.totalBytes s.writer
    (opened, { s with writer := writer })
  demand opened (failure "Unable to create and preflight the staged evidence image."
    (C.writer.lastError (← get).writer))

/-- The result of an acquisition that returned false: the flag is loaded twice. -/
def acquisitionFailed : TransactionM δ κ μ Unit := do
  closeWriter C
  changeWorld paths.removeStagingFiles
  let cancelled ← loadCancelled C.environment
  let cancelledAgain ← loadCancelled C.environment
  let s ← get
  throw {
    status := if cancelled then .cancelled else .failed
    summary := s.summary
    error := wide (if cancelledAgain then "Memory acquisition was cancelled."
      else "Memory acquisition failed before a complete evidence transaction could be finalized.")
    systemError := C.device.lastError s.device }

/-- The call of `Acquire`, which starts with its own local variables. -/
def acquireImage : TransactionM δ κ μ Unit := do
  let s ← get
  let outcome := acquire C (.start s.device s.writer s.hasher s.environment)
  set (final outcome)
  if returned outcome then pure () else acquisitionFailed C paths

def finishHash : TransactionM δ κ μ Unit := do
  let answer ← modifyGet fun s =>
    let (answer, hasher) := C.hasher.finish s.hasher
    (answer, { s with hasher := hasher })
  match answer with
  | some sha256 =>
      modify fun s => { s with summary := { s.summary with sha256 := sha256 } }
      note (.digest sha256)
  | none => do
      closeWriter C
      changeWorld paths.removeStagingFiles
      throw (failure "SHA-256 finalization failed; no evidence bundle was published." errorSuccess)

def flushImage : TransactionM δ κ μ Unit := do
  let flushed ← modifyGet fun s =>
    let (flushed, writer) := C.writer.flushAndClose s.writer
    (flushed, { s with writer := writer })
  if flushed then note .imageFlushed
  else do
    let writeError := C.writer.lastError (← get).writer
    changeWorld paths.removeStagingFiles
    throw (failure ("The staged evidence image could not be flushed durably; " ++
      "no evidence bundle was published.") writeError)

def checkAccounting : TransactionM δ κ μ Unit := do
  if accountingViolated (← get).summary then
    changeWorld paths.removeStagingFiles
    throw (failure ("Acquisition byte accounting violated an internal forensic invariant; " ++
      "no evidence bundle was published.") errorInvalidData)

/-- A sidecar that must be written, or nothing is published. -/
def writeStaged (call : World → Bool × World) (message : String) : TransactionM δ κ μ Unit := do
  let written ← onWorld call
  if written then pure ()
  else do
    changeWorld paths.removeStagingFiles
    throw (failure message errorSuccess)

def writeMap : TransactionM δ κ μ Unit := do
  let s ← get
  writeStaged paths (writeMapJson paths.mapPartial s.summary)
    "The provenance map could not be written durably; no evidence bundle was published."

def writeSidecar : TransactionM δ κ μ Unit := do
  let s ← get
  writeStaged paths
    (writeSha256Sidecar paths.hashPartial (Path.filename paths.rawFinal) s.summary.sha256)
    "The SHA-256 sidecar could not be written durably; no evidence bundle was published."

/-- A promotion; when it fails, the staging files and what `rollBack` names are removed. -/
def promote (stagingPath finalPath : WString) (rollBack : World → World) (message : String) :
    TransactionM δ κ μ Unit := do
  let promoted ← onWorld (promoteStagingFile stagingPath finalPath)
  if promoted then pure ()
  else do
    let promotionError := (← get).writer.2.lastError
    changeWorld fun w => rollBack (paths.removeStagingFiles w)
    throw (failure message promotionError)

def publish : TransactionM δ κ μ EvidenceCaptureResult := do
  promote paths paths.mapPartial paths.mapFinal id
    "The provenance map could not be promoted to its final name."
  promote paths paths.hashPartial paths.hashFinal paths.removeFinalizedSidecars
    "The SHA-256 sidecar could not be promoted to its final name."
  promote paths paths.rawPartial paths.rawFinal paths.removeFinalizedSidecars
    "The RAW image could not be promoted to its final name."
  let s ← get
  pure { status := publishedStatus s.summary, summary := s.summary }

def captureBody : TransactionM δ κ μ EvidenceCaptureResult := do
  refuseCollision paths
  let topology ← queryTopology C
  initializeHasher C
  configureWriter C topology
  openImage C paths topology
  acquireImage C paths
  finishHash C paths
  flushImage C paths
  checkAccounting paths
  writeMap paths
  writeSidecar paths
  publish paths

/-- The phases before the call of `Acquire`. -/
def prepare : TransactionM δ κ μ Unit := do
  refuseCollision paths
  let topology ← queryTopology C
  initializeHasher C
  configureWriter C topology
  openImage C paths topology

/-- The phases after it. -/
def conclude : TransactionM δ κ μ EvidenceCaptureResult := do
  finishHash C paths
  flushImage C paths
  checkAccounting paths
  writeMap paths
  writeSidecar paths
  publish paths

theorem captureBody_eq :
    captureBody C paths = (do prepare C paths; acquireImage C paths; conclude C paths) := by
  simp only [captureBody, prepare, conclude, bind_assoc]

/-- The transaction with one of the writers. -/
def captureWith (s : TransactionState δ κ μ) : EvidenceCaptureResult × TransactionState δ κ μ :=
  match captureBody C paths s with
  | .ok result t => (result, { t with writer := C.writer.close t.writer })
  | .error result t => (result, { t with writer := C.writer.close t.writer })

/-! ### The whole transaction -/

/-- What the capture is given and what it leaves: the device, the cancel flag, the hash
library and the files. -/
structure Host (δ κ : Type) where
  device : δ
  environment : κ
  hasher : Sha256
  world : World

/-- The state of a capture with a new writer. -/
def Host.start (host : Host δ κ) (members : μ) : TransactionState δ κ μ :=
  .start host.device ({ members }, host.world) host.hasher host.environment

def TransactionState.host (s : TransactionState δ κ μ) : Host δ κ :=
  ⟨s.device, s.environment, s.hasher, s.writer.2⟩

/-- The result of a capture and the host it leaves behind. -/
def runCapture (C : Collaborators δ (WriterState μ × World) Sha256 κ) (paths : EvidencePaths)
    (members : μ) (host : Host δ κ) : EvidenceCaptureResult × Host δ κ :=
  let (result, s) := captureWith C paths (host.start members)
  (result, s.host)

def captureEvidenceToFile (device : IDeviceSession δ) (environment : Environment κ)
    (sha256 : List Byte → List Byte) (config : AcquisitionConfig) (outputPath : WString)
    (host : Host δ κ) : EvidenceCaptureResult × Host δ κ :=
  if outputPath = [] ∨ outputPath = wide "-" then
    (failure ("A filesystem evidence path is required. Raw stdout acquisition is not supported " ++
      "because it cannot preserve unreadable-byte provenance.") errorInvalidParameter, host)
  else
    let paths := buildEvidencePaths outputPath
    let hasher := sha256Hasher sha256
    match outputFormat outputPath config.format with
    | .zdmp => runCapture ⟨device, zdmpWriter, hasher, environment, config⟩ paths {} host
    | .e01 => runCapture ⟨device, e01Writer, hasher, environment, config⟩ paths {} host
    | .raw => runCapture ⟨device, rawWriter, hasher, environment, config⟩ paths {} host

/-- A capture without a path is refused, and each format has its own writer. -/
theorem captureEvidenceToFile_cases {device : IDeviceSession δ} {environment : Environment κ}
    {sha256 : List Byte → List Byte} {config : AcquisitionConfig} {outputPath : WString}
    {host : Host δ κ} {motive : EvidenceCaptureResult × Host δ κ → Prop}
    (unnamed : outputPath = [] ∨ outputPath = wide "-" → ∀ result,
      result.hasFinalizedBundle = false → motive (result, host))
    (raw : outputFormat outputPath config.format = .raw →
      motive (runCapture ⟨device, rawWriter, sha256Hasher sha256, environment, config⟩
        (buildEvidencePaths outputPath) {} host))
    (zdmp : outputFormat outputPath config.format = .zdmp →
      motive (runCapture ⟨device, zdmpWriter, sha256Hasher sha256, environment, config⟩
        (buildEvidencePaths outputPath) {} host))
    (e01 : outputFormat outputPath config.format = .e01 →
      motive (runCapture ⟨device, e01Writer, sha256Hasher sha256, environment, config⟩
        (buildEvidencePaths outputPath) {} host)) :
    motive (captureEvidenceToFile device environment sha256 config outputPath host) := by
  rw [captureEvidenceToFile]
  split
  · next no => exact unnamed no _ rfl
  · dsimp only
    split
    · next format => exact zdmp format
    · next format => exact e01 format
    · next format => exact raw format

end PhylaRam
