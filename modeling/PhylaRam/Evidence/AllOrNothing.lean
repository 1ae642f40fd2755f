import PhylaRam.Evidence.Conduct
import PhylaRam.Tests.Mock
import PhylaRam.Writer.Opening

/-!
# All or nothing

An undisturbed capture leaves the three files of a complete bundle, or none of its six names. The
exception is a ZDMP or an E01 image whose header cannot be written: its `PreflightAndOpen` fails
after it has created the staging file, and nobody removes that file.
-/

namespace PhylaRam

open Program

/-- What a capture promises about the files it leaves. -/
structure AllOrNothing (paths : EvidencePaths) (result : EvidenceCaptureResult) (u : World) :
    Prop where
  all : result.status = .complete ∨ result.status = .incomplete → ∀ name ∈ paths.names,
    (u.files.now name).isSome = true ↔ name ∈ [paths.rawFinal, paths.mapFinal, paths.hashFinal]
  nothing : result.status = .failed ∨ result.status = .cancelled → ∀ name ∈ paths.names,
    u.files.now name = none

section Results

variable {paths : EvidencePaths} {result : EvidenceCaptureResult} {u : World}

theorem hasFinalizedBundle_eq_false : result.hasFinalizedBundle = false ↔
    result.status = .failed ∨ result.status = .cancelled := by
  rw [EvidenceCaptureResult.hasFinalizedBundle]
  cases result.status <;> decide

/-- Without a bundle, the promise is that nothing is left. -/
theorem allOrNothing_iff_of_failed (failed : result.hasFinalizedBundle = false) :
    AllOrNothing paths result u ↔ ∀ name ∈ paths.names, u.files.now name = none := by
  constructor
  · intro promise
    exact promise.nothing (hasFinalizedBundle_eq_false.mp failed)
  · intro absent
    refine ⟨fun done => ?_, fun _ => absent⟩
    cases failed.symm.trans (hasFinalizedBundle_iff.mpr done)

theorem allOrNothing_of_finalized (finalized : result.hasFinalizedBundle = true)
    (tidy : Tidy paths [paths.rawFinal, paths.mapFinal, paths.hashFinal] u)
    (finals : ∀ name ∈ [paths.rawFinal, paths.mapFinal, paths.hashFinal],
      (u.files.now name).isSome = true) : AllOrNothing paths result u where
  all _ name named := by
    refine ⟨fun there => ?_, finals name⟩
    by_contra unlisted
    rw [tidy.absent name named unlisted] at there
    cases there
  nothing failed := by
    cases (hasFinalizedBundle_eq_false.mpr failed).symm.trans finalized

end Results

variable {δ κ μ : Type}

section Runs

variable (C : Collaborators δ (WriterState μ × World) Sha256 κ) (paths : EvidencePaths)

/-- Where `PreflightAndOpen` is called, its `CreateFileW` succeeds, but not all of the writes behind
it. -/
def OpensInVain (demands : μ → List Demand) (s : TransactionState δ κ μ) : Prop :=
  ∃ topology t, approach C paths s = .ok topology t ∧
    BeginsInVain (demands t.writer.1.members) t.writer.2

variable {C paths} {K : Creator → Prop} {s t : TransactionState δ κ μ} {topology : Topology}

theorem closedWorld_absent_iff {path : WString} {writer : WriterState μ × World} :
    (closedWorld writer).files.now path = none ↔ writer.2.files.now path = none := by
  cases opened : writer.1.file with
  | none => rw [closedWorld_of_none opened]
  | some file =>
      rw [closedWorld_of_some opened]
      by_cases same : path = file.path
      · subst same
        rw [World.perform_files, Effect.apply, Files.modify, Function.update_self,
          Option.map_eq_none_iff]
      · rw [World.perform_files, Effect.apply, Files.modify_of_ne same]

/-- A capture ends where `PreflightAndOpen` fails. -/
theorem captureBody_of_notOpened {writer : WriterState μ × World}
    (approached : approach C paths s = .ok topology t)
    (failed : C.writer.preflightAndOpen paths.rawPartial topology.highestEnd topology.totalBytes
      t.writer = (false, writer)) :
    ∃ result, captureBody C paths s = .error result { t with writer := writer } := by
  have opening : WP (openImage C paths topology) (fun _ _ => False)
      (fun _ u => u = { t with writer := writer }) t := by
    rw [openImage, WP.bind_iff, WP.modifyGet_iff, WP.bind_iff, WP.get_iff, demand, WP.ite_iff]
    refine ⟨fun opened => ?_, fun _ => ?_⟩
    · exact Bool.false_ne_true ((congrArg Prod.fst failed).symm.trans opened)
    · exact congrArg (fun writer => { t with writer := writer }) (congrArg Prod.snd failed)
  obtain ⟨result, _, stopped, rfl⟩ := opening.stops
  refine ⟨result, ?_⟩
  rw [captureBody_eq, prepare_eq, bind_assoc]
  simp only [bind, EStateM.bind, approached, stopped]

/-- `PreflightAndOpen` fails and leaves its file where the environment is as `late` says. -/
def Leaves (C : Collaborators δ (WriterState μ × World) Sha256 κ) (paths : EvidencePaths)
    (late : WriterState μ × World → Prop) : Prop :=
  ∀ writer logicalSize expected, writer.1.file = none → writer.2.Solitary →
    writer.2.DeletionsSucceed → writer.2.files.now paths.rawPartial = none →
      (late writer ↔
        (C.writer.preflightAndOpen paths.rawPartial logicalSize expected writer).1 = false ∧
        (C.writer.preflightAndOpen paths.rawPartial logicalSize expected writer).2.2.files.now
          paths.rawPartial ≠ none)

theorem Fate.finals {w u : World} {result : EvidenceCaptureResult} (distinct : paths.names.Nodup)
    (fate : Fate paths w result u) (finalized : result.hasFinalizedBundle = true) :
    ∀ name ∈ [paths.rawFinal, paths.mapFinal, paths.hashFinal],
      (u.files.now name).isSome = true := by
  cases fate with
  | withheld none => cases none.symm.trans finalized
  | published status finished =>
      obtain ⟨⟨node, image⟩, map, sidecar⟩ := finished.finals distinct
      simp only [List.forall_mem_cons, List.not_mem_nil, false_imp_iff, implies_true,
        image, map, sidecar, Option.isSome_some, and_self]

/-- How the capture ends tells what it leaves. -/
theorem Ending.allOrNothing {w u : World} {result : EvidenceCaptureResult} (quiet : Quiet paths w)
    (ending : Ending C K paths w s result.hasFinalizedBundle u)
    (finals : result.hasFinalizedBundle = true →
      ∀ name ∈ [paths.rawFinal, paths.mapFinal, paths.hashFinal],
        (u.files.now name).isSome = true)
    (removed : ∀ t : TransactionState δ κ μ, NotOpened C K paths w s t →
      t.writer.2.files.now paths.rawPartial = none) : AllOrNothing paths result u := by
  generalize same : result.hasFinalizedBundle = finalized at ending
  cases ending with
  | delivered h => exact allOrNothing_of_finalized same (h.tidy quiet) (finals same)
  | vacant runs tidy =>
      exact (allOrNothing_iff_of_failed same).mpr fun name named =>
        (tidy quiet).absent name named nofun
  | @notOpened t h =>
      refine (allOrNothing_iff_of_failed same).mpr fun name named => ?_
      rw [closedWorld_absent_iff]
      by_cases image : name = paths.rawPartial
      · exact image ▸ removed t h
      · exact (h.conduct.tidy quiet).absent name named fun member =>
          image (List.mem_singleton.mp member)

/-- An undisturbed capture keeps its promise unless `PreflightAndOpen` leaves its file behind. -/
theorem runCapture_allOrNothing_iff (staging : Staging C.writer) (tending : Tending C.writer K)
    (proper : paths.Proper) {members : μ} {host : Host δ κ} (quiet : Quiet paths host.world)
    {late : WriterState μ × World → Prop} (leaves : Leaves C paths late) :
    AllOrNothing paths (runCapture C paths members host).1
        (runCapture C paths members host).2.world ↔
      ¬∃ topology t, approach C paths (host.start members) = .ok topology t ∧ late t.writer := by
  have idle : IdleFile paths.rawPartial host.world.files.now :=
    .of_none (quiet.absent _ EvidencePaths.rawPartial_mem)
  have ending := runCapture_ending proper staging tending members host idle
  have start : Vacant K paths host.world (host.start members) :=
    ⟨⟨.of_none rfl idle, .refl, fun quiet => quiet.tidy⟩, rfl⟩
  -- what `leaves` says of the state in which `PreflightAndOpen` is called
  have left {t : TransactionState δ κ μ} (vacant : Vacant K paths host.world t)
      (topology : Topology) := leaves t.writer topology.highestEnd topology.totalBytes
    vacant.unmanned (vacant.runs.solitary quiet.alone)
    (vacant.runs.deletionsSucceed quiet.deletions)
    ((vacant.tidy quiet).absent _ EvidencePaths.rawPartial_mem nofun)
  constructor
  · rintro promise ⟨topology, t, approached, late⟩
    have vacant := (approach_vacant staging _ start).of_ok approached
    obtain ⟨failed, present⟩ := (left vacant topology).mp late
    have opened : C.writer.preflightAndOpen paths.rawPartial topology.highestEnd
        topology.totalBytes t.writer = (false, (C.writer.preflightAndOpen paths.rawPartial
          topology.highestEnd topology.totalBytes t.writer).2) := Prod.ext failed rfl
    obtain ⟨result, stopped⟩ := captureBody_of_notOpened approached opened
    have finalized := (captureBody_declines _).of_error stopped
    rw [runCapture, captureWith, stopped] at promise
    have gone := (allOrNothing_iff_of_failed finalized).mp promise _ EvidencePaths.rawPartial_mem
    refine present ?_
    rw [← closedWorld_absent_iff, ← tending.releases.closes]
    exact gone
  · intro never
    refine ending.allOrNothing quiet
      ((runCapture_fate staging proper.nodup members host).finals proper.nodup) fun u h => ?_
    obtain ⟨topology, t, approached, vacant, opened⟩ := h.opening
    by_contra present
    refine never ⟨topology, t, approached, (left vacant topology).mpr ?_⟩
    rw [opened]
    exact ⟨rfl, present⟩

end Runs

section Writers

variable {device : IDeviceSession δ} {hasher : IHasher Sha256} {environment : Environment κ}
  {config : AcquisitionConfig} {paths : EvidencePaths}

/-- The RAW writer removes a file that it cannot use. -/
theorem rawWriter_leaves :
    Leaves ⟨device, rawWriter, hasher, environment, config⟩ paths fun _ => False := by
  intro writer logicalSize expected unmanned alone deletions absent
  refine iff_of_false id ?_
  rintro ⟨failed, present⟩
  obtain ⟨_, -, removed⟩ := (RawWriter.preflightAndOpen_removes
    ⟨alone, deletions, unmanned, absent⟩ logicalSize expected).of_stopped failed
  exact present removed

theorem zdmpWriter_leaves :
    Leaves ⟨device, zdmpWriter, hasher, environment, config⟩ paths fun writer =>
      BeginsInVain ZdmpWriter.headerDemands writer.2 := by
  intro writer logicalSize expected unmanned alone _ absent
  refine beginsInVain_iff alone absent
    (ZdmpWriter.preflightAndOpen_returned alone unmanned absent logicalSize expected) fun failed => ?_
  obtain ⟨_, -, leaves⟩ := (ZdmpWriter.preflightAndOpen_leaves alone unmanned absent
    logicalSize expected).of_stopped failed
  exact leaves

theorem e01Writer_leaves :
    Leaves ⟨device, e01Writer, hasher, environment, config⟩ paths fun writer =>
      BeginsInVain (E01Writer.preambleDemands writer.1.members.metadata) writer.2 := by
  intro writer logicalSize expected unmanned alone _ absent
  refine beginsInVain_iff alone absent
    (E01Writer.preflightAndOpen_returned alone unmanned absent logicalSize expected) fun failed => ?_
  obtain ⟨_, -, leaves⟩ := (E01Writer.preflightAndOpen_leaves alone unmanned absent
    logicalSize expected).of_stopped failed
  exact leaves

end Writers

section Formats

variable (device : IDeviceSession δ) (environment : Environment κ)
  (sha256 : List Byte → List Byte) (config : AcquisitionConfig) (outputPath : WString)
  (host : Host δ κ)

/-- The capture writes a ZDMP or an E01 image, and the environment lets `PreflightAndOpen` create
the staging file but not write all of the header. -/
def StagingAbandoned : Prop :=
  (outputPath ≠ [] ∧ outputPath ≠ wide "-") ∧
    match outputFormat outputPath config.format with
    | .raw => False
    | .zdmp => OpensInVain ⟨device, zdmpWriter, sha256Hasher sha256, environment, config⟩
        (buildEvidencePaths outputPath) (fun _ => ZdmpWriter.headerDemands) (host.start {})
    | .e01 => OpensInVain ⟨device, e01Writer, sha256Hasher sha256, environment, config⟩
        (buildEvidencePaths outputPath) (fun m => E01Writer.preambleDemands m.metadata)
        (host.start {})

variable {device environment sha256 config outputPath host}

/-- Undisturbed, a capture leaves the whole bundle or nothing if and only if it does not abandon
its staging file. -/
theorem capture_allOrNothing_iff (quiet : Quiet (buildEvidencePaths outputPath) host.world) :
    AllOrNothing (buildEvidencePaths outputPath)
        (captureEvidenceToFile device environment sha256 config outputPath host).1
        (captureEvidenceToFile device environment sha256 config outputPath host).2.world ↔
      ¬StagingAbandoned device environment sha256 config outputPath host := by
  have proper := buildEvidencePaths_proper outputPath
  rw [captureEvidenceToFile, StagingAbandoned]
  split
  · next unnamed =>
      refine iff_of_true ((allOrNothing_iff_of_failed rfl).mpr quiet.absent) ?_
      rintro ⟨⟨named, stdout⟩, -⟩
      exact unnamed.elim named stdout
  · next named =>
      dsimp only
      rw [not_or] at named
      rw [and_iff_right named]
      split
      · next format =>
          rw [format]
          exact runCapture_allOrNothing_iff
            (C := ⟨device, zdmpWriter, sha256Hasher sha256, environment, config⟩)
            zdmpWriter_staging zdmpWriter_tending proper quiet zdmpWriter_leaves
      · next format =>
          rw [format]
          exact runCapture_allOrNothing_iff
            (C := ⟨device, e01Writer, sha256Hasher sha256, environment, config⟩)
            e01Writer_staging e01Writer_tending proper quiet e01Writer_leaves
      · next format =>
          rw [format]
          refine iff_of_true ((runCapture_allOrNothing_iff
            (C := ⟨device, rawWriter, sha256Hasher sha256, environment, config⟩)
            rawWriter_staging rawWriter_tending proper quiet rawWriter_leaves).mpr ?_) id
          rintro ⟨-, -, -, no⟩
          exact no

end Formats

/-- No call fails but the eighth one, the `WriteFile` of a ZDMP header: the volume is full. -/
def fullHeader : Host MockDeviceSession Unit :=
  { smallHost with world := { smallHost.world with
      oracle n := { failure := if n = 7 then some errorDiskFull else none } } }

theorem fullHeader_quiet : Quiet (buildEvidencePaths (wide "memory.zdmp")) fullHeader.world where
  alone _ := rfl
  deletions _ := rfl
  absent _ _ := rfl

theorem capture_allOrNothing_iff_full_header :
    AllOrNothing (buildEvidencePaths (wide "memory.zdmp"))
        (captureEvidenceToFile mockDeviceSession quietEnvironment (fun _ => List.replicate 32 0) {}
          (wide "memory.zdmp") fullHeader).1
        (captureEvidenceToFile mockDeviceSession quietEnvironment (fun _ => List.replicate 32 0) {}
          (wide "memory.zdmp") fullHeader).2.world ↔
      ¬StagingAbandoned mockDeviceSession quietEnvironment (fun _ => List.replicate 32 0) {}
        (wide "memory.zdmp") fullHeader :=
  capture_allOrNothing_iff fullHeader_quiet

/-- A capture that fails while it writes the header leaves its staging file. -/
theorem capture_leaves_staging_file :
    Quiet (buildEvidencePaths (wide "memory.zdmp")) fullHeader.world ∧
      ¬AllOrNothing (buildEvidencePaths (wide "memory.zdmp"))
        (captureEvidenceToFile mockDeviceSession quietEnvironment (fun _ => List.replicate 32 0) {}
          (wide "memory.zdmp") fullHeader).1
        (captureEvidenceToFile mockDeviceSession quietEnvironment (fun _ => List.replicate 32 0) {}
          (wide "memory.zdmp") fullHeader).2.world := by
  have failed : (captureEvidenceToFile mockDeviceSession quietEnvironment
      (fun _ => List.replicate 32 0) {} (wide "memory.zdmp") fullHeader).1.status = .failed := by
    decide +kernel
  have left : ((captureEvidenceToFile mockDeviceSession quietEnvironment
      (fun _ => List.replicate 32 0) {} (wide "memory.zdmp") fullHeader).2.world.files.now
        (wide "memory.zdmp.partial")).isSome = true := by decide +kernel
  refine ⟨fullHeader_quiet, fun promise => ?_⟩
  have gone := promise.nothing (.inl failed) (wide "memory.zdmp.partial") (by decide +kernel)
  rw [gone] at left
  cases left

end PhylaRam
