import PhylaRam.Evidence.Transaction
import PhylaRam.Library.Pool

/-!
# The main window and its worker

This module follows `cli/gui.cpp`: the message handlers of `MainWindow` and the thread that
`StartWorker` creates. A step is what one thread does between two points at which the other one
can be observed. The user interface may also take messages while a modal box is on the screen, so
handlers nest: `boxes` are the modal loops that have been entered, the innermost one first.

The objects that the threads hand to each other are blocks of a pool, so that every use and every
release is on record. What is only painted is left out, except for the progress, and so are the
messages of the boxes that announce a success.
-/

namespace PhylaRam

inductive WorkerOperation
  | capture
  | dryRun
deriving DecidableEq, Repr

structure ProgressPayload where
  completedBytes : UInt64 := 0
  totalBytes : UInt64 := 0
  etaSeconds : UInt32 := 0
deriving DecidableEq, Repr

structure WorkerResult where
  operation : WorkerOperation := .capture
  capture : EvidenceCaptureResult := {}
  dryRunSucceeded : Bool := false
  highestPhysicalEnd : UInt64 := 0
  totalPhysicalBytes : UInt64 := 0
  ranges : List MemoryRun := []
  hints : KernelHints := {}
  topologyChanged : Bool := false
  error : WString := []
  cleanupError : UInt32 := errorSuccess
deriving DecidableEq

namespace Gui

/-- What is created with `new`. -/
inductive Object
  | progress (payload : ProgressPayload)
  | result (result : WorkerResult)
deriving DecidableEq

/-- `kMessageProgress` and `kMessageWorkerDone`, each with the block that `lParam` points to. -/
inductive Message
  | progress (payload : Nat)
  | workerDone (result : Nat)
deriving DecidableEq, Repr

/-- Where the worker stands. -/
inductive Thread
  | starting (operation : WorkerOperation)
  | working (operation : WorkerOperation) (result : Nat)
  /-- In `PostProgress`, before `PostMessageW`. -/
  | posting (result payload : Nat)
  /-- Before the last `PostMessageW`. -/
  | reporting (result : Nat)
  | returning
  | returned
deriving DecidableEq, Repr

inductive Icon
  | information
  | warning
  | error
deriving DecidableEq, Repr

/-- What is shown at the end of an operation. -/
structure Notice where
  status : WString
  caption : WString
  icon : Icon
  /-- The message, if it is about a failure. -/
  message : WString := []
deriving DecidableEq

/-- The modal loops. -/
inductive Box
  | browsing
  /-- The destination is missing. -/
  | warning
  | showing (result : Nat) (notice : Notice)
deriving DecidableEq

/-- What follows `worker_.join()`. -/
inductive Joining
  | start (operation : WorkerOperation) (outputPath : WString)
  | done (result : Nat)
  | exit
deriving DecidableEq

/-- The thread of the user interface. -/
inductive Ui
  | pumping
  | joining (next : Joining)
  | left
deriving DecidableEq

end Gui

/-- The state of the two threads and what they share. -/
structure Gui where
  /-- `window_` has not been destroyed. -/
  window : Bool := true
  /-- The thread behind `worker_`, while it is joinable. -/
  worker : Option Gui.Thread := none
  cancelled : Bool := false
  working : Bool := false
  closing : Bool := false
  /-- `destination_`, `browse_`, `start_`, `dryRun_` and `rate_` are enabled. -/
  inputsEnabled : Bool := true
  cancelEnabled : Bool := false
  completedBytes : UInt64 := 0
  totalBytes : UInt64 := 0
  currentEtaSec : UInt32 := 0
  queue : List Gui.Message := []
  boxes : List Gui.Box := []
  ui : Gui.Ui := .pumping
  /-- `PostQuitMessage` has been called. -/
  quit : Bool := false
  objects : Pool Gui.Object := {}
  /-- A pointer has been taken for one to another type. -/
  misread : Bool := false
deriving DecidableEq

namespace Gui

/-! ### Messages to the user -/

def decimal (value : UInt32) : WString := (Nat.toDigits 10 value.toNat).map fun c => c.val.toUInt16

/-- `ShowCaptureResult`. -/
def showCaptureResult (result : WorkerResult) : Notice :=
  let capture := result.capture
  if capture.status = .complete then
    { status := wide "Capture complete and cryptographically finalized."
      caption := wide "PhylaRAM — Capture Finalized"
      icon := if result.cleanupError = errorSuccess then .information else .warning }
  else if capture.status = .incomplete then
    { status := wide "Capture finalized as incomplete; review provenance map."
      caption := wide "PhylaRAM — Incomplete Capture"
      icon := .warning }
  else
    let message := if capture.error = [] then
      wide "The capture did not produce a finalized evidence bundle." else capture.error
    let message := if capture.systemError ≠ errorSuccess then
      message ++ wide "\nSystem error: " ++ decimal capture.systemError ++ wide "." else message
    let message := if result.cleanupError ≠ errorSuccess then
      message ++ wide "\nDriver cleanup error: " ++ decimal result.cleanupError ++ wide "."
      else message
    { status := if capture.status = .cancelled then
        wide "Acquisition cancelled by user. Partial files cleaned."
        else wide "Acquisition failed. No evidence files produced."
      caption := wide "PhylaRAM — Status"
      icon := if capture.status = .cancelled then .warning else .error
      message }

/-- `ShowDryRunResult`. -/
def showDryRunResult (result : WorkerResult) : Notice :=
  if !result.dryRunSucceeded || result.error ≠ [] then
    let message := if result.error = [] then wide "Dry-run inspection failed." else result.error
    { status := wide "Topology inspection failed."
      caption := wide "PhylaRAM — Inspection Failed"
      icon := .error
      message := if result.cleanupError ≠ errorSuccess then
        message ++ wide "\nDriver cleanup error: " ++ decimal result.cleanupError ++ wide "."
        else message }
  else
    { status := if result.topologyChanged then
        wide "Inspection complete; topology changed during session."
        else wide "Inspection complete. Physical topology and hints verified."
      caption := wide "PhylaRAM — Inspection Complete"
      icon := if result.topologyChanged || result.cleanupError ≠ errorSuccess then .warning
        else .information }

/-- The result as `HandleWorkerDone` shows it. An operation that failed before the capture is a
failed capture. -/
def amended (result : WorkerResult) : WorkerResult :=
  if result.error ≠ [] ∧ result.operation = .capture ∧ result.capture.error = [] then
    { result with capture := { result.capture with status := .failed, error := result.error } }
  else result

def noticeOf (result : WorkerResult) : Notice :=
  if (amended result).operation = .capture then showCaptureResult (amended result)
  else showDryRunResult (amended result)

/-! ### Handlers -/

/-- `SetWorking`. -/
def setWorking (working : Bool) (s : Gui) : Gui :=
  { s with working, inputsEnabled := !working, cancelEnabled := working }

/-- `DestroyWindow` empties the queue, and `WM_DESTROY` asks the message loop to end. -/
def destroyWindow (s : Gui) : Gui := { s with window := false, queue := [], quit := true }

/-- `StartWorker` behind the join. -/
def launch (operation : WorkerOperation) (outputPath : WString) (s : Gui) : Gui :=
  if operation = .capture ∧ outputPath = [] then { s with boxes := .warning :: s.boxes }
  else
    { s.setWorking true with
      cancelled := false
      completedBytes := 0
      totalBytes := 0
      currentEtaSec := 0
      worker := some (.starting operation) }

/-- `StartWorker`. The text of the destination is read behind the join, which cannot change it. -/
def startWorker (operation : WorkerOperation) (outputPath : WString) (s : Gui) : Gui :=
  if s.working then s
  else if s.worker.isSome then { s with ui := .joining (.start operation outputPath) }
  else s.launch operation outputPath

/-- The button of `kControlCancel`. -/
def pressCancel (s : Gui) : Gui :=
  if s.working then { s with cancelled := true, cancelEnabled := false } else s

/-- `WM_CLOSE`. -/
def close (s : Gui) : Gui :=
  if s.working then { s with closing := true, cancelled := true, cancelEnabled := false }
  else s.destroyWindow

/-- `kMessageProgress`. -/
def handleProgress (payload : Nat) (s : Gui) : Gui :=
  match s.objects.content? payload with
  | some (.progress p) =>
      { s with
        completedBytes := p.completedBytes
        totalBytes := p.totalBytes
        currentEtaSec := p.etaSeconds
        objects := (s.objects.read payload).free payload }
  | _ => { s with misread := true }

/-- `HandleWorkerDone` behind the join. -/
def workerDone (result : Nat) (s : Gui) : Gui :=
  let s := s.setWorking false
  if s.closing then { s with objects := s.objects.free result }.destroyWindow
  else
    match s.objects.content? result with
    | some (.result r) =>
        { s with
          objects := s.objects.read result
          boxes := .showing result (noticeOf r) :: s.boxes }
    | _ => { s with misread := true }

/-- `HandleWorkerDone`. -/
def handleWorkerDone (result : Nat) (s : Gui) : Gui :=
  if s.worker.isSome then { s with ui := .joining (.done result) } else s.workerDone result

/-- The next message of the queue. -/
def dispatch (s : Gui) : Option Gui :=
  match s.queue with
  | [] => none
  | .progress payload :: rest => some ({ s with queue := rest }.handleProgress payload)
  | .workerDone result :: rest => some ({ s with queue := rest }.handleWorkerDone result)

/-- The innermost modal loop ends, and its handler returns. -/
def dismiss (s : Gui) : Option Gui :=
  match s.boxes with
  | [] => none
  | .showing result _ :: rest => some { s with boxes := rest, objects := s.objects.free result }
  | _ :: rest => some { s with boxes := rest }

/-- `GetMessageW` returns 0, and `~MainWindow` runs. -/
def leave (s : Gui) : Option Gui :=
  if s.quit ∧ s.boxes = [] then
    some { s with cancelled := true, ui := if s.worker.isSome then .joining .exit else .left }
  else none

/-- `worker_.join()` returns. -/
def joined (s : Gui) : Option Gui :=
  match s.ui, s.worker with
  | .joining next, some .returned =>
      let s := { s with worker := none, ui := .pumping }
      match next with
      | .start operation outputPath => some (s.launch operation outputPath)
      | .done result => some (s.workerDone result)
      | .exit => some { s with ui := .left }
  | _, _ => none

/-! ### The worker -/

/-- `PostMessageW` to `window_`. The caller keeps the object where the message is not accepted,
as it must be where there is no window. -/
def postMessage (message : Message) (accepted : Bool) (s : Gui) : Option (Bool × Gui) :=
  if accepted then
    if s.window then some (true, { s with queue := s.queue ++ [message] }) else none
  else some (false, s)

/-- `new WorkerResult`. -/
def enter (s : Gui) : Option Gui :=
  match s.worker with
  | some (.starting operation) =>
      some { s with
        objects := s.objects.allocate (.result { operation })
        worker := some (.working operation s.objects.next) }
  | _ => none

/-- `PostProgress`, which only a capture calls. -/
def report (payload : ProgressPayload) (s : Gui) : Option Gui :=
  match s.worker with
  | some (.working .capture result) =>
      some { s with
        objects := s.objects.allocate (.progress payload)
        worker := some (.posting result s.objects.next) }
  | _ => none

def postProgress (accepted : Bool) (s : Gui) : Option Gui :=
  match s.worker with
  | some (.posting result payload) =>
      (s.postMessage (.progress payload) accepted).map fun (posted, s) =>
        { s with
          objects := if posted then s.objects else s.objects.free payload
          worker := some (.working .capture result) }
  | _ => none

/-- The operation has ended, the device is closed and the driver has been removed. -/
def complete (outcome : WorkerResult) (s : Gui) : Option Gui :=
  match s.worker with
  | some (.working operation result) =>
      if outcome.operation = operation then
        some { s with
          objects := s.objects.write result (.result outcome)
          worker := some (.reporting result) }
      else none
  | _ => none

def postDone (accepted : Bool) (s : Gui) : Option Gui :=
  match s.worker with
  | some (.reporting result) =>
      (s.postMessage (.workerDone result) accepted).map fun (posted, s) =>
        { s with
          objects := if posted then s.objects else s.objects.free result
          worker := some .returning }
  | _ => none

/-! ### Steps -/

/-- Something the user or another process does to the window, unless the thread of the user
interface waits in a join. -/
inductive Input
  | startWorker (operation : WorkerOperation) (outputPath : WString)
  | cancel
  | browse
  | close
deriving DecidableEq

inductive Event
  | input (input : Input)
  | dispatch
  | dismiss
  | leave
  | joined
  | enter
  /-- `cancelled_.load()`. -/
  | load (value : Bool)
  | report (payload : ProgressPayload)
  | postProgress (accepted : Bool)
  | complete (outcome : WorkerResult)
  | postDone (accepted : Bool)
  | threadReturns
deriving DecidableEq

def handle : Input → Gui → Gui
  | .startWorker operation outputPath, s => s.startWorker operation outputPath
  | .cancel, s => s.pressCancel
  | .browse, s => { s with boxes := .browsing :: s.boxes }
  | .close, s => s.close

def step (s : Gui) : Event → Option Gui
  | .input input => if s.ui = .pumping ∧ s.window then some (s.handle input) else none
  | .dispatch => if s.ui = .pumping then s.dispatch else none
  | .dismiss => if s.ui = .pumping then s.dismiss else none
  | .leave => if s.ui = .pumping then s.leave else none
  | .joined => s.joined
  | .enter => s.enter
  | .load value =>
      match s.worker with
      | some (.working .capture _) => if value = s.cancelled then some s else none
      | _ => none
  | .report payload => s.report payload
  | .postProgress accepted => s.postProgress accepted
  | .complete outcome => s.complete outcome
  | .postDone accepted => s.postDone accepted
  | .threadReturns =>
      if s.worker = some .returning then some { s with worker := some .returned } else none

end Gui

end PhylaRam
