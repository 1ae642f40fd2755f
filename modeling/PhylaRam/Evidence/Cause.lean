import PhylaRam.Acquire.Guards
import PhylaRam.Evidence.Transaction

/-!
# The reported cause of a failed acquisition

`Acquire` returns false for many reasons and `CaptureEvidenceToFile` sees none of them. It
loads the flag again and asks the device for its last error. The result is true to the cause
exactly where the flag has not been set in between and no error of the writer is lost.
-/

namespace PhylaRam

open Program

variable {δ ω η κ μ : Type}

/-- Other threads only ever set the flag: a load that finds it set is followed by such loads. -/
def Environment.OneWay (environment : Environment κ) : Prop :=
  ∀ k, (environment.cancelled k).1 = true →
    (environment.cancelled (environment.cancelled k).2).1 = true

/-! ### Where a cancellation comes from -/

section Cancellation

variable {C : Collaborators δ ω η κ}

/-- A cancellation has just seen the flag. -/
def FlagSeen (C : Collaborators δ ω η κ) (cause : StopCause) (t : AcquireState δ ω η κ) : Prop :=
  cause = .cancelled → ∃ k, C.environment.cancelled k = (true, t.environment)

theorem Refused.flagSeen {runs : List MemoryRun} {cause : StopCause} {s t : AcquireState δ ω η κ}
    (refused : cause.outer = true → Refused C runs s cause t) : FlagSeen C cause t := by
  rintro rfl
  obtain ⟨m, -, set⟩ := refused rfl
  exact ⟨m.environment, set⟩

theorem acquire_seesFlag : Stops (FlagSeen C) (acquire C) := by
  intro s
  cases asked : (C.device.query s.device).1 with
  | none =>
      simp only [acquire, beginSummary, WP.bind_iff, WP.modify_iff, WP.modifyGet_iff, asked]
      intro same
      cases same
  | some topology => exact (acquire_blames asked).mono (fun _ _ h => h) fun _ _ => Refused.flagSeen

end Cancellation

/-! ### The report -/

section Report

variable (C : Collaborators δ (WriterState μ × World) Sha256 κ) (paths : EvidencePaths)

/-- An `Acquire` that returned false in a capture: why, and what it left behind. -/
structure StoppedAcquire (δ κ : Type) where
  cause : StopCause
  device : δ
  environment : κ
  /-- What `LastError` of the writer says at that moment. -/
  writerError : UInt32
deriving DecidableEq

/-- The stop of `Acquire` in a capture with one of the writers, if that is how it goes. -/
def stoppedWith (members : μ) (host : Host δ κ) : Option (StoppedAcquire δ κ) :=
  match prepare C paths (host.start members) with
  | .error _ _ => none
  | .ok _ m =>
      match acquire C (.start m.device m.writer m.hasher m.environment) with
      | .ok _ _ => none
      | .error cause t => some ⟨cause, t.device, t.environment, C.writer.lastError t.writer⟩

/-- What the result of a capture owes to the flag and the device after `Acquire` has stopped. -/
structure Reported (stop : StoppedAcquire δ κ) (result : EvidenceCaptureResult) : Prop where
  status : result.status =
    if (C.environment.cancelled stop.environment).1 then .cancelled else .failed
  systemError : result.systemError = C.device.lastError stop.device
  seen : stop.cause = .cancelled → ∃ k, C.environment.cancelled k = (true, stop.environment)

variable {C paths}

theorem acquireImage_stopped {m : TransactionState δ κ μ} {cause : StopCause}
    {t : TransactionState δ κ μ} {post : Unit → TransactionState δ κ μ → Prop}
    (failed : acquire C (.start m.device m.writer m.hasher m.environment) = .error cause t)
    (seen : FlagSeen C cause t) :
    WP (acquireImage C paths) post
      (fun result _ => Reported C ⟨cause, t.device, t.environment, C.writer.lastError t.writer⟩
        result) m := by
  simp only [acquireImage, WP.bind_iff, WP.get_iff, WP.set_iff, failed, final_error,
    returned_error, acquisitionFailed, closeWriter, changeWorld, onWorld, loadCancelled,
    WP.modify_iff, WP.modifyGet_iff, Bool.false_eq_true, if_false, WP.throw_iff]
  exact ⟨rfl, rfl, seen⟩

theorem runCapture_stopped {members : μ} {host : Host δ κ} {stop : StoppedAcquire δ κ}
    (stopped : stoppedWith C paths members host = some stop) :
    Reported C stop (runCapture C paths members host).1 := by
  rw [stoppedWith] at stopped
  cases prepared : prepare C paths (host.start members) with
  | error result m =>
      rw [prepared] at stopped
      cases stopped
  | ok a m =>
      rw [prepared] at stopped
      dsimp only at stopped
      cases failed : acquire C (.start m.device m.writer m.hasher m.environment) with
      | ok a t =>
          rw [failed] at stopped
          cases stopped
      | error cause t =>
          rw [failed] at stopped
          obtain rfl := Option.some.inj stopped
          have seen := (acquire_seesFlag (C := C) _).of_error failed
          have body : WP (captureBody C paths) (fun _ _ => False)
              (fun result _ => Reported C ⟨cause, t.device, t.environment,
                C.writer.lastError t.writer⟩ result) (host.start members) := by
            rw [captureBody_eq, WP.bind_iff]
            unfold WP
            rw [prepared]
            exact WP.bind_iff.mpr (acquireImage_stopped failed seen)
          cases ran : captureBody C paths (host.start members) with
          | ok result u => exact (body.of_ok ran).elim
          | error result u =>
              rw [runCapture, captureWith, ran]
              exact body.of_error ran

end Report

section Cause

variable (device : IDeviceSession δ) (environment : Environment κ) (sha256 : List Byte → List Byte)
  (config : AcquisitionConfig) (outputPath : WString) (host : Host δ κ)

/-- The stop of `Acquire` in `CaptureEvidenceToFile`. -/
def stoppedAcquire : Option (StoppedAcquire δ κ) :=
  if outputPath = [] ∨ outputPath = wide "-" then none
  else
    let paths := buildEvidencePaths outputPath
    let hasher := sha256Hasher sha256
    match outputFormat outputPath config.format with
    | .zdmp => stoppedWith ⟨device, zdmpWriter, hasher, environment, config⟩ paths {} host
    | .e01 => stoppedWith ⟨device, e01Writer, hasher, environment, config⟩ paths {} host
    | .raw => stoppedWith ⟨device, rawWriter, hasher, environment, config⟩ paths {} host

/-- The result is cancelled if and only if a cancellation check has stopped `Acquire`, and
otherwise failed, with the last error of the component whose call failed. -/
structure NamesCause (stop : StoppedAcquire δ κ) (result : EvidenceCaptureResult) : Prop where
  cancelled : result.status = .cancelled ↔ stop.cause = .cancelled
  failed : stop.cause ≠ .cancelled → result.status = .failed
  deviceError : stop.cause = .query ∨ stop.cause = .device ∨ stop.cause = .endSession →
    result.systemError = device.lastError stop.device
  writerError : stop.cause = .writer → result.systemError = stop.writerError

/-- After a stop the flag stays clear, unless it was the reason, and the device happens to have
the error of a failed `WriteAt`. -/
structure Undisturbed (stop : StoppedAcquire δ κ) : Prop where
  flag : stop.cause ≠ .cancelled → (environment.cancelled stop.environment).1 = false
  error : stop.cause = .writer → device.lastError stop.device = stop.writerError

variable {device environment sha256 config outputPath host} {stop : StoppedAcquire δ κ}

theorem reported_names_cause_iff (oneWay : environment.OneWay) {result : EvidenceCaptureResult}
    (status : result.status =
      if (environment.cancelled stop.environment).1 then .cancelled else .failed)
    (systemError : result.systemError = device.lastError stop.device)
    (seen : stop.cause = .cancelled → ∃ k, environment.cancelled k = (true, stop.environment)) :
    NamesCause device stop result ↔ Undisturbed device environment stop := by
  constructor
  · intro names
    refine ⟨fun other => ?_, fun writer => systemError.symm.trans (names.writerError writer)⟩
    have failed := names.failed other
    rw [status] at failed
    cases set : (environment.cancelled stop.environment).1 with
    | false => rfl
    | true =>
        rw [set] at failed
        cases failed
  · intro undisturbed
    refine ⟨?_, fun other => ?_, fun _ => systemError, fun writer => ?_⟩
    · rw [status]
      constructor
      · intro cancelled
        by_contra other
        rw [undisturbed.flag other] at cancelled
        cases cancelled
      · intro same
        obtain ⟨k, set⟩ := seen same
        have again := oneWay k (congrArg Prod.fst set)
        rw [set] at again
        rw [if_pos again]
    · rw [status, undisturbed.flag other]
      rfl
    · rw [systemError, undisturbed.error writer]

/-- The reported cause is the true one exactly where nothing has disturbed the report. -/
theorem capture_names_cause_iff (oneWay : environment.OneWay)
    (stopped : stoppedAcquire device environment sha256 config outputPath host = some stop) :
    NamesCause device stop
        (captureEvidenceToFile device environment sha256 config outputPath host).1 ↔
      Undisturbed device environment stop := by
  rw [stoppedAcquire] at stopped
  rw [captureEvidenceToFile]
  split at stopped
  · cases stopped
  · next named =>
      rw [if_neg named]
      dsimp only at stopped ⊢
      cases format : outputFormat outputPath config.format with
      | zdmp | e01 | raw =>
          rw [format] at stopped
          have reported := runCapture_stopped stopped
          exact reported_names_cause_iff oneWay reported.status reported.systemError reported.seen

end Cause

/-- Sixteen bytes at address zero, and a run that the device does not know. -/
def sixteenBytes (driverIndex : UInt32) : MockDeviceSession where
  mockHighestEnd := 16
  mockTotalBytes := 16
  mockRuns := [⟨driverIndex, 0, 16⟩]

/-- An empty volume; the call at one moment fails for want of space. -/
def fullAt (moment : Nat) : World where
  files := ⟨fun _ => none, []⟩
  oracle n := { freeBytes := 0x100000000, failure := if n = moment then some errorDiskFull else none }

/-- A capture of which the first `WriteFile` finds the volume full. -/
def fullVolume : Host MockDeviceSession Unit :=
  ⟨sixteenBytes 0, (), { fails := fun _ => false }, fullAt 13⟩

/-- Another thread sets the flag after its first load. -/
def lateFlag : Environment Nat where
  cancelled loads := (decide (0 < loads), loads + 1)
  waits _ _ _ := 0

/-- A capture of which the first `Read` fails. -/
def lostDevice : Host MockDeviceSession Nat :=
  ⟨sixteenBytes 7, 0, { fails := fun _ => false }, fullAt 99⟩

theorem capture_names_cause_iff_full_disk :
    NamesCause mockDeviceSession ⟨.writer, sixteenBytes 0, (), errorDiskFull⟩
        (captureEvidenceToFile mockDeviceSession quietEnvironment id {} (wide "memory.raw")
          fullVolume).1 ↔
      Undisturbed mockDeviceSession quietEnvironment
        ⟨.writer, sixteenBytes 0, (), errorDiskFull⟩ :=
  capture_names_cause_iff (fun _ set => by cases set)
    (show stoppedAcquire mockDeviceSession quietEnvironment id {} (wide "memory.raw") fullVolume = _
      by decide +kernel)

/-- A full disk is reported without its error, and a lost device as a cancellation. -/
theorem capture_misnames_cause :
    (∃ stop, stoppedAcquire mockDeviceSession quietEnvironment id {} (wide "memory.raw")
        fullVolume = some stop ∧
      ¬NamesCause mockDeviceSession stop (captureEvidenceToFile mockDeviceSession quietEnvironment
        id {} (wide "memory.raw") fullVolume).1) ∧
    ∃ stop, stoppedAcquire mockDeviceSession lateFlag id {} (wide "memory.raw")
        lostDevice = some stop ∧
      ¬NamesCause mockDeviceSession stop (captureEvidenceToFile mockDeviceSession lateFlag
        id {} (wide "memory.raw") lostDevice).1 := by
  refine ⟨⟨⟨.writer, sixteenBytes 0, (), errorDiskFull⟩, by decide +kernel, fun names => ?_⟩,
    ⟨⟨.device, sixteenBytes 7, 1, errorSuccess⟩, by decide +kernel, fun names => ?_⟩⟩
  · have lost : (captureEvidenceToFile mockDeviceSession quietEnvironment id {}
        (wide "memory.raw") fullVolume).1.systemError = errorSuccess := by decide +kernel
    cases lost.symm.trans (names.writerError rfl)
  · have wrong : (captureEvidenceToFile mockDeviceSession lateFlag id {}
        (wide "memory.raw") lostDevice).1.status = .cancelled := by decide +kernel
    cases names.cancelled.mp wrong

end PhylaRam
