import PhylaRam.Cli.Capture
import PhylaRam.Gui.Runs

/-!
# What the worker does and what the user is told

`runWorker` follows the function of the thread in `MainWindow::StartWorker`. It is what
`RunCapture` and `RunDryRun` do on the command line, but its result is a message on the screen.
What the message says of the evidence is true, also where the driver could not be removed.
-/

namespace PhylaRam

open Program Transition

variable {δ κ : Type}

namespace Gui

/-- What the worker finds. The texts of the errors that are not modelled are not empty. -/
structure Desktop (δ κ : Type) where
  administrator : Bool := true
  /-- The reason that `IsSupportedWindows` gives. -/
  unsupported : Option { reason : WString // reason ≠ [] } := none
  /-- What `DriverRuntime::Start` reports if it fails. -/
  startError : { text : WString // text ≠ [] } := ⟨wide "OpenSCManagerW failed", by decide⟩
  console : Console δ κ

/-- What stands in the way of any operation. -/
def privilegeError (desktop : Desktop δ κ) : WString :=
  if !desktop.administrator then wide "PhylaRAM requires Administrator privileges."
  else match desktop.unsupported with
    | some reason => reason
    | none => []

def openError (error : UInt32) : WString :=
  wide "Unable to open \\\\.\\PhylaRAM (Error " ++ decimal error ++ wide ")."

def inspectionError (error : UInt32) : WString :=
  wide "Dry-run topology inspection failed. (Error " ++ decimal error ++ wide ")."

/-- `device.Close()` and `runtime.Stop()`. -/
def conclude (device : IDeviceSession δ) (runtime : DriverRuntime) (result : WorkerResult)
    (console : Console δ κ) : WorkerResult × Console δ κ :=
  let (cleanupError, console) := CommandLine.removeDriver runtime
    { console with host := { console.host with device := device.close console.host.device } }
  ({ result with cleanupError }, console)

/-- The dry run. After a failed `Query` nobody looks at the ranges. -/
def inspect (device : IDeviceSession δ) (result : WorkerResult) (console : Console δ κ) :
    WorkerResult × Console δ κ :=
  let (topology, d) := device.query console.host.device
  let ((hintsOk, hints), d) := device.queryHints d
  let (changed, d) := device.endSession d
  let console := { console with host := { console.host with device := d } }
  let result := { result with
    highestPhysicalEnd := (topology.map Topology.highestEnd).getD 0
    totalPhysicalBytes := (topology.map Topology.totalBytes).getD 0
    ranges := (topology.map Topology.runs).getD []
    hints := if hintsOk then hints else {}
    topologyChanged := changed.getD false }
  if topology.isNone || changed.isNone then
    ({ result with error := inspectionError (device.lastError d) }, console)
  else ({ result with dryRunSucceeded := true }, console)

def runWorker (device : IDeviceSession δ) (environment : Environment κ)
    (sha256 : List Byte → List Byte) (operation : WorkerOperation) (outputPath : WString)
    (rateLimit : UInt32) (desktop : Desktop δ κ) : WorkerResult × Console δ κ :=
  let result : WorkerResult := { operation }
  if privilegeError desktop ≠ [] then
    conclude device .idle { result with error := privilegeError desktop } desktop.console
  else
    match DriverRuntime.start .idle desktop.console.service with
    | ((false, runtime), service) =>
        conclude device runtime { result with error := desktop.startError }
          { desktop.console with service }
    | ((true, runtime), service) =>
        let console := { desktop.console with service }
        match device.openSession console.host.device with
        | (false, d) =>
            conclude device runtime { result with error := openError (device.lastError d) }
              { console with host := { console.host with device := d } }
        | (true, d) =>
            let console := { console with host := { console.host with device := d } }
            match operation with
            | .dryRun =>
                let (result, console) := inspect device result console
                conclude device runtime result console
            | .capture =>
                let (capture, host) := captureEvidenceToFile device environment sha256
                  { rateLimitMBps := rateLimit } outputPath console.host
                conclude device runtime { result with capture } { console with host }

/-! ### Notices -/

/-- What a notice says of the bundle is true. -/
structure NoticeTells (paths : EvidencePaths) (w u : World) (notice : Notice) : Prop where
  complete : notice.caption = wide "PhylaRAM — Capture Finalized" ↔
    PublishedBundle paths w u (Verify.str "complete")
  incomplete : notice.caption = wide "PhylaRAM — Incomplete Capture" ↔
    PublishedBundle paths w u (Verify.str "incomplete")
  failed : notice.caption = wide "PhylaRAM — Status" → ¬Promoted paths w u

section Notices

variable {paths : EvidencePaths} {w u : World} {result : WorkerResult}

theorem caption_showCaptureResult (result : WorkerResult) :
    (showCaptureResult result).caption =
      if result.capture.status = .complete then wide "PhylaRAM — Capture Finalized"
      else if result.capture.status = .incomplete then wide "PhylaRAM — Incomplete Capture"
      else wide "PhylaRAM — Status" := by
  rw [showCaptureResult]
  split
  · rfl
  · split
    · rfl
    · rfl

/-- The three captions differ. -/
theorem captions_nodup : [wide "PhylaRAM — Capture Finalized", wide "PhylaRAM — Incomplete Capture",
    wide "PhylaRAM — Status"].Nodup := by
  decide +kernel

theorem noticeTells_of_withheld (unfinished : result.capture.hasFinalizedBundle = false)
    (none : ¬Promoted paths w u) : NoticeTells paths w u (showCaptureResult result) := by
  simp only [EvidenceCaptureResult.hasFinalizedBundle, Bool.or_eq_false_iff, beq_eq_false_iff_ne]
    at unfinished
  have caption : (showCaptureResult result).caption = wide "PhylaRAM — Status" := by
    rw [caption_showCaptureResult, if_neg unfinished.1, if_neg unfinished.2]
  have different := captions_nodup
  simp only [List.nodup_cons, List.mem_cons, not_or] at different
  refine ⟨iff_of_false ?_ fun h => none h.promoted, iff_of_false ?_ fun h => none h.promoted,
    fun _ => none⟩
  · rw [caption]
    exact Ne.symm different.1.2.1
  · rw [caption]
    exact Ne.symm different.2.1.1

theorem noticeTells_of_published {summary : AcquisitionSummary}
    (status : result.capture.status = publishedStatus summary)
    (published : PublishedBundle paths w u (Map.statusText summary)) :
    NoticeTells paths w u (showCaptureResult result) := by
  have different := captions_nodup
  simp only [List.nodup_cons, List.mem_cons, not_or] at different
  have apart : Verify.str "complete" ≠ Verify.str "incomplete" := by decide +kernel
  rw [statusText_eq] at published
  have caption := caption_showCaptureResult result
  rw [status] at caption
  cases same : publishedStatus summary with
  | complete =>
      rw [same, if_neg (by decide)] at published
      rw [same, if_pos rfl] at caption
      refine ⟨iff_of_true caption published, iff_of_false ?_ fun h => apart (published.status_eq h),
        fun no => ?_⟩
      · rw [caption]
        exact different.1.1
      · rw [caption] at no
        exact (different.1.2.1 no).elim
  | incomplete =>
      rw [same, if_pos rfl] at published
      rw [same, if_neg (by decide), if_pos rfl] at caption
      refine ⟨iff_of_false ?_ fun h => apart (h.status_eq published), iff_of_true caption published,
        fun no => ?_⟩
      · rw [caption]
        exact Ne.symm different.1.1
      · rw [caption] at no
        exact (different.2.1.1 no).elim
  | cancelled | failed =>
      rw [publishedStatus] at same
      split at same <;> cases same

theorem noticeTells_of_fate (distinct : paths.names.Nodup) (fate : Fate paths w result.capture u) :
    NoticeTells paths w u (showCaptureResult result) := by
  cases fate with
  | withheld none runs =>
      exact noticeTells_of_withheld none (Promoted.not_preparing distinct runs)
  | published status finished =>
      exact noticeTells_of_published status (finished.published distinct)

/-- Without an error of its own, the result is shown as it is. -/
theorem noticeOf_capture (free : result.error = []) (operation : result.operation = .capture) :
    noticeOf result = showCaptureResult result := by
  have same : amended result = result := if_neg fun no => no.1 free
  rw [noticeOf, same, if_pos operation]

end Notices

/-! ### The worker of a capture -/

/-- How the worker of a capture ends: before the capture, or with what `CaptureEvidenceToFile` has
made of the files. -/
inductive Ending (paths : EvidencePaths) (w : World) (result : WorkerResult) (u : World) : Prop
  | stopped (error : result.error ≠ []) (uncaptured : result.capture.error = []) (unchanged : u = w)
  | captured (free : result.error = []) (fate : Fate paths w result.capture u)

/-- An operation that was stopped before the capture is shown as a failure of the capture. -/
theorem noticeTells_of_ending {paths : EvidencePaths} {w u : World} {result : WorkerResult}
    (distinct : paths.names.Nodup) (operation : result.operation = .capture)
    (ending : Ending paths w result u) : NoticeTells paths w u (noticeOf result) := by
  cases ending with
  | stopped error uncaptured unchanged =>
      have same : amended result = { result with
          capture := { result.capture with status := .failed, error := result.error } } :=
        if_pos ⟨error, operation, uncaptured⟩
      rw [noticeOf, same, if_pos operation, unchanged]
      exact noticeTells_of_withheld rfl (Promoted.not_preparing distinct .refl)
  | captured free fate =>
      rw [noticeOf_capture free operation]
      exact noticeTells_of_fate distinct fate

section Capture

variable (device : IDeviceSession δ) (environment : Environment κ) (sha256 : List Byte → List Byte)
  (outputPath : WString) (rateLimit : UInt32) (desktop : Desktop δ κ)

theorem operation_runWorker (operation : WorkerOperation) :
    (runWorker device environment sha256 operation outputPath rateLimit desktop).1.operation =
      operation := by
  rw [runWorker]
  split
  · rfl
  · split
    · rfl
    · dsimp only
      split
      · rfl
      · cases operation with
        | dryRun =>
            dsimp only [inspect]
            split
            · rfl
            · rfl
        | capture => rfl

theorem runWorker_ending :
    Ending (buildEvidencePaths outputPath) desktop.console.host.world
      (runWorker device environment sha256 .capture outputPath rateLimit desktop).1
      (runWorker device environment sha256 .capture outputPath rateLimit desktop).2.host.world := by
  rw [runWorker]
  split
  · next stopped => exact .stopped stopped rfl rfl
  · split
    · next runtime service started => exact .stopped desktop.startError.property rfl rfl
    · next runtime service started =>
        dsimp only
        split
        · next d opened =>
            refine .stopped ?_ rfl rfl
            exact List.append_ne_nil_of_left_ne_nil (List.append_ne_nil_of_left_ne_nil (by decide) _) _
        · next d opened =>
            exact .captured rfl (capture_fate device environment sha256
              { rateLimitMBps := rateLimit } outputPath { desktop.console.host with device := d })

/-- The notice at the end of a capture tells what has become of the bundle. -/
theorem worker_notice_tells (device : IDeviceSession δ) (environment : Environment κ)
    (sha256 : List Byte → List Byte) (outputPath : WString) (rateLimit : UInt32)
    (desktop : Desktop δ κ) :
    NoticeTells (buildEvidencePaths outputPath) desktop.console.host.world
      (runWorker device environment sha256 .capture outputPath rateLimit desktop).2.host.world
      (noticeOf (runWorker device environment sha256 .capture outputPath rateLimit desktop).1) :=
  noticeTells_of_ending (buildEvidencePaths_nodup outputPath)
    (operation_runWorker device environment sha256 outputPath rateLimit desktop .capture)
    (runWorker_ending device environment sha256 outputPath rateLimit desktop)

/-- The outcome of a worker that was asked for an output file and found this desktop. -/
def WorkerEnds (outcome : WorkerResult) : Prop :=
  outcome = (runWorker device environment sha256 outcome.operation outputPath rateLimit desktop).1

end Capture

/-- In a run of the window whose outcomes are those of its workers, a box about a capture tells
what has become of the bundle of that capture. -/
theorem shown_capture_tells {device : IDeviceSession δ} {environment : Environment κ}
    {sha256 : List Byte → List Byte} {es : List Event} {s : Gui} (run : Run step {} es s)
    (worked : ∀ outcome, .complete outcome ∈ es → ∃ outputPath rateLimit desktop,
      WorkerEnds device environment sha256 outputPath rateLimit desktop outcome)
    {result : Nat} {notice : Notice} (shown : .showing result notice ∈ s.boxes) :
    ∃ outcome, .complete outcome ∈ es ∧ notice = noticeOf outcome ∧
      (outcome.operation = .capture → ∃ outputPath rateLimit desktop,
        WorkerEnds device environment sha256 outputPath rateLimit desktop outcome ∧
        NoticeTells (buildEvidencePaths outputPath) desktop.console.host.world
          (runWorker device environment sha256 .capture outputPath rateLimit desktop).2.host.world
          notice) := by
  have h : Invariant (fun outcome => .complete outcome ∈ es) s :=
    invariant_of_run run fun _ member => member
  obtain ⟨outcome, completed, same⟩ := h.shown shown
  refine ⟨outcome, completed, same, fun operation => ?_⟩
  obtain ⟨outputPath, rateLimit, desktop, ended⟩ := worked outcome completed
  have ending := runWorker_ending device environment sha256 outputPath rateLimit desktop
  rw [← operation, ← ended] at ending
  refine ⟨outputPath, rateLimit, desktop, ended, ?_⟩
  rw [same, ← operation]
  exact noticeTells_of_ending (buildEvidencePaths_nodup outputPath) operation ending

end Gui

end PhylaRam
