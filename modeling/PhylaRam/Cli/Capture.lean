import PhylaRam.Cli.CommandLine
import PhylaRam.Evidence.Publication
import PhylaRam.Evidence.RoundTrip
import PhylaRam.Service.Cleanup

/-!
# The exit code of a capture

`runCapture` follows the function of that name in `cli/main.cpp`. It installs the driver, opens
the device, captures, and removes the driver again. The exit code depends on the result of the
capture and on the removal, which comes after the bundle has been published.
-/

namespace PhylaRam

open Program

variable {δ κ : Type}

/-- What `RunCapture` works with. The flag is clear in the environment of the host. -/
structure Console (δ κ : Type) where
  service : ServiceWorld
  host : Host δ κ
  /-- The last error of the thread when the driver is removed. -/
  lastError : UInt32

/-- The `AcquisitionConfig` made of the options. -/
def CliOptions.config (options : CliOptions) : AcquisitionConfig where
  rateLimitMBps := options.rateLimitMBps
  format := options.format
  metadata := options.metadata

namespace CommandLine

/-- `runtime.Stop()`: its error and what it leaves. -/
def removeDriver (runtime : DriverRuntime) (console : Console δ κ) : UInt32 × Console δ κ :=
  let ((error, _), service) := runtime.stop { console.service with lastError := console.lastError }
  (error, { console with service := service })

def exitCode (result : EvidenceCaptureResult) (cleanupError : UInt32) : Int :=
  if result.hasFinalizedBundle then
    if cleanupError ≠ errorSuccess then 1
    else if result.status = .incomplete then 2
    else 0
  else 1

def runCapture (device : IDeviceSession δ) (environment : Environment κ)
    (sha256 : List Byte → List Byte) (options : CliOptions) (console : Console δ κ) :
    Int × Console δ κ :=
  match DriverRuntime.start .idle console.service with
  | ((false, _), service) => (1, { console with service := service })
  | ((true, runtime), service) =>
      let console := { console with service := service }
      match device.openSession console.host.device with
      | (false, d) =>
          (1, (removeDriver runtime { console with host := { console.host with device := d } }).2)
      | (true, d) =>
          let (result, host) := captureEvidenceToFile device environment sha256 options.config
            options.outputPath { console.host with device := d }
          let host := { host with device := device.close host.device }
          let (cleanupError, console) := removeDriver runtime { console with host := host }
          (exitCode result cleanupError, console)

end CommandLine

/-! ### Published bundles -/

/-- The status that a reader of the map finds. -/
def MapSays (content : List Byte) (status : Verify.Str) : Prop :=
  ∃ text map, content = Verify.Str.bytes text ∧ Decodes text map ∧ map.status = status

/-- A map has one status. -/
theorem MapSays.unique {content : List Byte} {status status' : Verify.Str}
    (h : MapSays content status) (h' : MapSays content status') : status = status' := by
  obtain ⟨text, map, encoded, ⟨value, denotes, read⟩, rfl⟩ := h
  obtain ⟨text', map', encoded', ⟨value', denotes', read'⟩, rfl⟩ := h'
  have first : content.toByteArray.utf8Decode? = some text.toArray :=
    Verify.utf8Decode_eq_some.mpr encoded
  have second : content.toByteArray.utf8Decode? = some text'.toArray :=
    Verify.utf8Decode_eq_some.mpr encoded'
  obtain rfl : text = text' := by simpa using first.symm.trans second
  obtain rfl := denotes.unique denotes'
  rw [Option.some.inj (read.symm.trans read')]

/-- The map of a summary says whether it is complete. -/
theorem mapSays_mapText {summary : AcquisitionSummary} (acceptable : Map.acceptable summary = true) :
    MapSays (Map.ascii (Map.mapText summary)) (Map.statusText summary) := by
  obtain ⟨encoded, decodes⟩ := mapText_decodes acceptable
  exact ⟨_, _, encoded, decodes, rfl⟩

/-- Between the two worlds, an image was given its final name. -/
def Promoted (paths : EvidencePaths) (w u : World) : Prop :=
  ∃ more, u.files.past = w.files.past ++ more ∧ ∃ files, (files, paths.promotion) ∈ more

/-- Between the two worlds, a bundle was published, and it is there with a map of that status. -/
structure PublishedBundle (paths : EvidencePaths) (w u : World) (status : Verify.Str) : Prop where
  promoted : Promoted paths w u
  image : (u.files.now paths.rawFinal).isSome
  sidecar : (u.files.now paths.hashFinal).isSome
  map : ∃ node, u.files.now paths.mapFinal = some node ∧ MapSays node.content status

section Bundles

variable {paths : EvidencePaths} {w u : World} {summary : AcquisitionSummary}

theorem Local.ne_rename {path source target : WString} {files : Files} {e : Effect}
    (h : Local path files e) : e ≠ .rename source target := by
  cases h with
  | touches h => cases h <;> intro same <;> cases same
  | create | truncate | close | delete =>
      intro same
      cases same

theorem EvidencePaths.Prepares.ne_promotion (distinct : paths.names.Nodup) {files : Files}
    {e : Effect} (h : paths.Prepares files e) : e ≠ paths.promotion := by
  simp only [EvidencePaths.names, List.nodup_cons, List.mem_cons, not_or] at distinct
  obtain ⟨-, ⟨-, map_ne, -, hash_ne, -⟩, -⟩ := distinct
  cases h with
  | image h | map h | sidecar h => exact h.ne_rename
  | note | withdrawMap | withdrawSidecar =>
      intro same
      cases same
  | promoteMap =>
      intro same
      exact map_ne (Effect.rename.inj same).1.symm
  | promoteSidecar =>
      intro same
      exact hash_ne (Effect.rename.inj same).1.symm

theorem Promoted.not_preparing (distinct : paths.names.Nodup) (runs : Runs paths.Prepares w u) :
    ¬Promoted paths w u := by
  rintro ⟨more, split, files, member⟩
  obtain ⟨more', split', each⟩ := runs.past
  obtain rfl := List.append_cancel_left (split.symm.trans split')
  cases each _ member with
  | inl own => exact own.ne_promotion distinct rfl
  | inr other =>
      obtain ⟨path, content, same, -⟩ := other
      cases same

/-- What the final rename publishes. -/
theorem Finished.published {m : World} (distinct : paths.names.Nodup)
    (finished : Finished paths summary w m) :
    PublishedBundle paths w (m.perform paths.promotion) (Map.statusText summary) := by
  obtain ⟨⟨node, image⟩, map, sidecar⟩ := finished.finals distinct
  obtain ⟨more, split, -⟩ := finished.runs.past
  refine ⟨⟨more ++ [(m.files.now, paths.promotion)], ?_, m.files.now,
    List.mem_append_right _ (List.mem_singleton_self _)⟩, ?_, ?_, _, map,
    mapSays_mapText finished.acceptable⟩
  · rw [← List.append_assoc, ← split]
    rfl
  · rw [image]
    rfl
  · rw [sidecar]
    rfl

theorem PublishedBundle.status_eq {status status' : Verify.Str}
    (h : PublishedBundle paths w u status) (h' : PublishedBundle paths w u status') :
    status = status' := by
  obtain ⟨node, present, first⟩ := h.map
  obtain ⟨node', present', second⟩ := h'.map
  obtain rfl := Option.some.inj (present.symm.trans present')
  exact first.unique second

end Bundles

/-! ### The exit code -/

/-- The exit code tells what has become of the bundle. -/
structure ExitTells (paths : EvidencePaths) (w u : World) (code : Int) : Prop where
  complete : code = 0 ↔ PublishedBundle paths w u (Verify.str "complete")
  incomplete : code = 2 ↔ PublishedBundle paths w u (Verify.str "incomplete")
  failed : code = 1 → ¬Promoted paths w u

section ExitCode

variable {paths : EvidencePaths} {w u : World}

theorem ExitTells.of_withheld (none : ¬Promoted paths w u) : ExitTells paths w u 1 where
  complete := iff_of_false (by decide) fun h => none h.promoted
  incomplete := iff_of_false (by decide) fun h => none h.promoted
  failed _ := none

theorem statusText_eq (summary : AcquisitionSummary) :
    Map.statusText summary = if publishedStatus summary = .incomplete then
      Verify.str "incomplete" else Verify.str "complete" := by
  simp only [Map.statusText, publishedStatus, or_comm (a := summary.unreadableBytes ≠ 0)]
  split <;> rfl

/-- Of a published bundle only the code of its status is true. -/
theorem exitTells_published_iff {summary : AcquisitionSummary} {code : Int}
    (published : PublishedBundle paths w u (Map.statusText summary)) :
    ExitTells paths w u code ↔
      code = if publishedStatus summary = .incomplete then 2 else 0 := by
  have different : Verify.str "complete" ≠ Verify.str "incomplete" := by decide +kernel
  rw [statusText_eq] at published
  constructor
  · intro tells
    split at published
    · next incomplete => rw [if_pos incomplete, tells.incomplete.mpr published]
    · next complete => rw [if_neg complete, tells.complete.mpr published]
  · rintro rfl
    split at published
    · next incomplete =>
        rw [if_pos incomplete]
        exact ⟨iff_of_false (by decide) fun h => different (h.status_eq published),
          iff_of_true rfl published, fun no => by cases no⟩
    · next complete =>
        rw [if_neg complete]
        exact ⟨iff_of_true rfl published,
          iff_of_false (by decide) fun h => different (published.status_eq h), fun no => by cases no⟩

theorem exitCode_tells_iff {result : EvidenceCaptureResult} (distinct : paths.names.Nodup)
    (fate : Fate paths w result u) (cleanupError : UInt32) :
    ExitTells paths w u (CommandLine.exitCode result cleanupError) ↔
      ¬(result.hasFinalizedBundle = true ∧ cleanupError ≠ errorSuccess) := by
  rw [CommandLine.exitCode]
  cases fate with
  | withheld none runs =>
      rw [none]
      exact iff_of_true (.of_withheld (Promoted.not_preparing distinct runs)) fun late => by cases late.1
  | published status finished =>
      have finalized := hasFinalizedBundle_of_published status
      rw [exitTells_published_iff (finished.published distinct), if_pos finalized, ← status]
      by_cases failed : cleanupError = errorSuccess
      · rw [if_neg (not_not.mpr failed)]
        exact iff_of_true rfl fun late => late.2 failed
      · rw [if_pos failed]
        refine iff_of_false (fun same => ?_) fun no => no ⟨finalized, failed⟩
        split at same <;> cases same

/-- A capture has finalized a bundle exactly if it has given an image its final name. -/
theorem Fate.promoted_iff {result : EvidenceCaptureResult} (distinct : paths.names.Nodup)
    (fate : Fate paths w result u) :
    Promoted paths w u ↔ result.hasFinalizedBundle = true := by
  cases fate with
  | withheld none runs =>
      refine iff_of_false (Promoted.not_preparing distinct runs) ?_
      rw [none]
      exact Bool.false_ne_true
  | published status finished =>
      exact iff_of_true (finished.published distinct).promoted (hasFinalizedBundle_of_published status)

end ExitCode

section Runs

variable (device : IDeviceSession δ) (environment : Environment κ) (sha256 : List Byte → List Byte)
  (options : CliOptions) (console : Console δ κ)

/-- The driver is installed and the device opens, the capture gives an image its final name, and
after that the replies of the system do not tell that the driver is gone. -/
def CleanupFailsLate : Prop :=
  ∃ runtime service d, DriverRuntime.start .idle console.service = ((true, runtime), service) ∧
    device.openSession console.host.device = (true, d) ∧
    Promoted (buildEvidencePaths options.outputPath) console.host.world
      (captureEvidenceToFile device environment sha256 options.config options.outputPath
        { console.host with device := d }).2.world ∧
    let w := { service with lastError := console.lastError }
    ¬runtime.SeenGone w (runtime.stop w).2

variable {device environment sha256 options console}

/-- The bundle that the capture finalizes stays where it is while the driver is removed. -/
theorem runCapture_promoted {runtime : DriverRuntime} {service : ServiceWorld} {d : δ}
    (started : DriverRuntime.start .idle console.service = ((true, runtime), service))
    (opened : device.openSession console.host.device = (true, d))
    (finalized : (captureEvidenceToFile device environment sha256 options.config
      options.outputPath { console.host with device := d }).1.hasFinalizedBundle = true) :
    Promoted (buildEvidencePaths options.outputPath) console.host.world
      (CommandLine.runCapture device environment sha256 options console).2.host.world := by
  have fate := capture_fate device environment sha256 options.config options.outputPath
    { console.host with device := d }
  rw [CommandLine.runCapture, started]
  dsimp only
  rw [opened]
  exact (fate.promoted_iff (buildEvidencePaths_nodup _)).mpr finalized

/-- The exit code is right unless the driver cannot be removed after a publication. -/
theorem exit_code_tells_iff :
    ExitTells (buildEvidencePaths options.outputPath) console.host.world
        (CommandLine.runCapture device environment sha256 options console).2.host.world
        (CommandLine.runCapture device environment sha256 options console).1 ↔
      ¬CleanupFailsLate device environment sha256 options console := by
  have distinct := buildEvidencePaths_nodup options.outputPath
  have nothing : ¬Promoted (buildEvidencePaths options.outputPath) console.host.world
      console.host.world := Promoted.not_preparing distinct .refl
  rw [CommandLine.runCapture]
  rcases started : DriverRuntime.start .idle console.service with ⟨⟨ok, runtime⟩, service⟩
  cases ok with
  | false =>
      refine iff_of_true (.of_withheld nothing) ?_
      rintro ⟨runtime', service', d, started', -⟩
      rw [started] at started'
      cases started'
  | true =>
      dsimp only
      rcases opened : device.openSession console.host.device with ⟨ok, d⟩
      cases ok with
      | false =>
          refine iff_of_true (.of_withheld nothing) ?_
          rintro ⟨runtime', service', d', -, opened', -⟩
          rw [opened] at opened'
          cases opened'
      | true =>
          have fate := capture_fate device environment sha256 options.config options.outputPath
            { console.host with device := d }
          have finalized := fate.promoted_iff distinct
          have removed := stop_success_iff (start_serviceStarted started)
            (w := { service with lastError := console.lastError })
          have late : CleanupFailsLate device environment sha256 options console ↔
              (captureEvidenceToFile device environment sha256 options.config options.outputPath
                { console.host with device := d }).1.hasFinalizedBundle = true ∧
              (runtime.stop { service with lastError := console.lastError }).1.1 ≠ errorSuccess := by
            rw [← finalized, Ne, removed]
            constructor
            · rintro ⟨runtime', service', d', started', opened', promoted, failed⟩
              rw [started] at started'
              rw [opened] at opened'
              cases started'
              cases opened'
              exact ⟨promoted, failed⟩
            · rintro ⟨promoted, failed⟩
              exact ⟨runtime, service, d, started, opened, promoted, failed⟩
          rw [late]
          exact exitCode_tells_iff distinct fate _

end Runs

/-- No service of that name is left from before, the driver starts, and the service manager
cannot be opened again. -/
def unremovableDriver : ServiceWorld where
  oracle
    | 21 => { failure := some ⟨errorServiceDoesNotExist, by decide⟩ }
    | 25 => { state := serviceRunning }
    | 26 => { failure := some ⟨errorAccessDenied, by decide⟩ }
    | _ => {}

/-- The command line that captures to `memory.raw` on that host. -/
def smallConsole : Console MockDeviceSession Unit := ⟨unremovableDriver, smallHost, 0⟩

/-- A complete bundle is published, and the exit code is the one of a failure. -/
theorem published_bundle_exits_with_failure :
    (CommandLine.runCapture mockDeviceSession quietEnvironment (fun _ => List.replicate 32 0)
        { outputPath := wide "memory.raw" } smallConsole).1 = 1 ∧
      ¬ExitTells (buildEvidencePaths (wide "memory.raw")) smallConsole.host.world
        (CommandLine.runCapture mockDeviceSession quietEnvironment (fun _ => List.replicate 32 0)
          { outputPath := wide "memory.raw" } smallConsole).2.host.world
        (CommandLine.runCapture mockDeviceSession quietEnvironment (fun _ => List.replicate 32 0)
          { outputPath := wide "memory.raw" } smallConsole).1 := by
  have code : (CommandLine.runCapture mockDeviceSession quietEnvironment
      (fun _ => List.replicate 32 0) { outputPath := wide "memory.raw" } smallConsole).1 = 1 := by
    decide +kernel
  refine ⟨code, fun tells => tells.failed code ?_⟩
  have starts : (DriverRuntime.start .idle smallConsole.service).1.1 = true := by decide +kernel
  rcases started : DriverRuntime.start .idle smallConsole.service with ⟨⟨ok, runtime⟩, service⟩
  rw [started] at starts
  obtain rfl : ok = true := starts
  have opened : mockDeviceSession.openSession smallConsole.host.device =
      (true, smallConsole.host.device) := by rfl
  refine runCapture_promoted started opened ?_
  decide +kernel

end PhylaRam
