import PhylaRam.Acquire.Maintain
import PhylaRam.Evidence.Files
import PhylaRam.Evidence.Transaction
import PhylaRam.Tests.Mock
import PhylaRam.Writer.Staging

/-!
# The publication of a bundle

A capture with any of the writers works on its three staging files, publishes and withdraws the
sidecars, and renames the image at the very end. `Published` describes the world in which that
rename takes place. A capture that fails has not made it.
-/

namespace PhylaRam

open Program

namespace EvidencePaths

/-- The rename that gives the image its final name. -/
def promotion (paths : EvidencePaths) : Effect := .rename paths.rawPartial paths.rawFinal

/-- The effects of a capture that come before it. -/
inductive Prepares (paths : EvidencePaths) : Files → Effect → Prop
  | image {files : Files} {e : Effect} (h : Local paths.rawPartial files e) : Prepares paths files e
  | map {files : Files} {e : Effect} (h : Local paths.mapPartial files e) : Prepares paths files e
  | sidecar {files : Files} {e : Effect} (h : Local paths.hashPartial files e) :
      Prepares paths files e
  | note (files : Files) (milestone : Milestone) : Prepares paths files (.note milestone)
  | promoteMap (files : Files) : Prepares paths files (.rename paths.mapPartial paths.mapFinal)
  | promoteSidecar (files : Files) :
      Prepares paths files (.rename paths.hashPartial paths.hashFinal)
  | withdrawMap (files : Files) : Prepares paths files (.delete paths.mapFinal)
  | withdrawSidecar (files : Files) : Prepares paths files (.delete paths.hashFinal)

/-- The six names of a bundle. -/
def names (paths : EvidencePaths) : List WString :=
  [paths.rawFinal, paths.rawPartial, paths.mapFinal, paths.mapPartial, paths.hashFinal,
    paths.hashPartial]

end EvidencePaths

/-- The suffixes tell the six names apart. -/
theorem buildEvidencePaths_nodup (outputPath : WString) :
    (buildEvidencePaths outputPath).names.Nodup := by
  have suffixes : (buildEvidencePaths outputPath).names =
      [[], wide ".partial", wide ".map.json", wide ".map.json.partial", wide ".sha256",
        wide ".sha256.partial"].map (outputPath ++ ·) := by
    simp only [EvidencePaths.names, buildEvidencePaths, List.map_cons, List.map_nil,
      List.append_nil]
  rw [suffixes]
  exact List.Nodup.map (List.append_right_injective outputPath) (by decide)

section Worlds

variable {A : Files → Effect → Prop} {w : World} {paths : EvidencePaths}

theorem deleteIfPresent_runs {path : WString} (allowed : ∀ files, A files (.delete path)) :
    Runs A w (deleteIfPresent path w) := by
  rw [deleteIfPresent]
  split
  · exact .refl
  · rcases deleteFileW_cases path w with ⟨error, h, -⟩ | ⟨node, -, -, h⟩ <;> rw [h]
    · exact w.failed_runs error
    · exact .effect w.enter_runs (.inl (allowed _))

theorem removeStagingFiles_runs : Runs paths.Prepares w (paths.removeStagingFiles w) :=
  (deleteIfPresent_runs fun _ => .image (.delete _)).trans <|
    (deleteIfPresent_runs fun _ => .map (.delete _)).trans <|
      deleteIfPresent_runs fun _ => .sidecar (.delete _)

theorem removeFinalizedSidecars_runs : Runs paths.Prepares w (paths.removeFinalizedSidecars w) :=
  (deleteIfPresent_runs fun _ => .withdrawMap _).trans <|
    deleteIfPresent_runs fun _ => .withdrawSidecar _

theorem anyExists_runs (names : List WString) (w : World) : Runs A w (anyExists names w).2 := by
  induction names generalizing w with
  | nil => exact .refl
  | cons path rest ih =>
      rw [anyExists, pathExists]
      rcases getFileAttributesW_cases path w with ⟨error, h⟩ | ⟨-, h⟩ <;> rw [h]
      · exact (w.failed_runs error).trans (ih _)
      · exact w.enter_runs

/-- The effects of writing a sidecar. -/
theorem Map.AtomicWrite.runs {path : WString} {content : NString} {result : Bool × World}
    (h : AtomicWrite path content w result) : Runs (Local path) w result.2 := by
  have touched {u v : World} (wrote : Wrote path w u v) : Runs (Local path) w v :=
    (Runs.effect wrote.waits.runs (.inl (.create _))).trans
      (wrote.writes.mono fun _ _ touches => .touches touches)
  cases h with
  | refused waits => exact waits.runs
  | abandoned wrote =>
      exact (Runs.effect (touched wrote) (.inl (.close _))).trans deleteFileW_local
  | @written u v node wrote present complete own =>
      have entered : Runs (Local path) w v.enter := (touched wrote).trans v.enter_runs
      exact .effect (.effect entered (.inl (.touches (.flush _)))) (.inl (.close _))

theorem writeMapJson_runs (path : WString) (summary : AcquisitionSummary) (w : World) :
    Runs (Local path) w (writeMapJson path summary w).2 := by
  rw [writeMapJson]
  split
  · exact (Map.writeAtomicString_spec _ _ w).runs
  · exact .refl

theorem writeSha256Sidecar_runs (path rawFileName : WString) (sha256 : NString) (w : World) :
    Runs (Local path) w (writeSha256Sidecar path rawFileName sha256 w).2 := by
  rw [writeSha256Sidecar]
  split
  · exact (Map.writeAtomicString_spec _ _ w).runs
  · exact .refl

end Worlds

/-! ### The phases -/

variable {δ κ μ α : Type}

/-- Nothing is promoted yet, and a handle of the writer is one of the staged image. -/
structure Preparing (paths : EvidencePaths) (w : World) (s : TransactionState δ κ μ) : Prop where
  owns : ∀ file, s.writer.1.file = some file → file.path = paths.rawPartial
  runs : Runs paths.Prepares w s.writer.2

section Phases

variable {C : Collaborators δ (WriterState μ × World) Sha256 κ} {paths : EvidencePaths} {w : World}
  {s t : TransactionState δ κ μ}

/-- The writer has acted on the staged image. -/
theorem Preparing.stage (h : Preparing paths w s) (staged : Staged paths.rawPartial s.writer.2 t.writer) :
    Preparing paths w t :=
  ⟨staged.owns, h.runs.trans (staged.runs.mono fun _ _ e => .image e)⟩

theorem Preparing.staged (h : Preparing paths w s) : Staged paths.rawPartial s.writer.2 s.writer :=
  ⟨h.owns, .refl⟩

theorem onWorld_preparing {call : World → α × World}
    (within : ∀ u, Runs paths.Prepares u (call u).2) :
    Keeps (Preparing paths w) (onWorld call : TransactionM δ κ μ α) :=
  .modifyGet fun s h => ⟨h.owns, h.runs.trans (within s.writer.2)⟩

theorem changeWorld_preparing {f : World → World} (within : ∀ u, Runs paths.Prepares u (f u)) :
    Keeps (Preparing paths w) (changeWorld f : TransactionM δ κ μ Unit) := onWorld_preparing within

theorem removal_preparing :
    Keeps (Preparing paths w) (changeWorld paths.removeStagingFiles : TransactionM δ κ μ Unit) :=
  changeWorld_preparing fun _ => removeStagingFiles_runs

theorem demand_preparing (condition : Bool) (result : EvidenceCaptureResult) :
    Keeps (Preparing paths w) (demand condition result : TransactionM δ κ μ Unit) :=
  .ite (fun _ => .pure _) fun _ => .throw _

theorem prepare_preparing (staging : Staging C.writer) : Keeps (Preparing paths w) (prepare C paths) := by
  refine .bind (.bind (onWorld_preparing fun u => anyExists_runs _ u) fun _ => demand_preparing _ _)
    fun _ => .bind ?query fun topology => .bind ?hasher fun _ => .bind ?configure fun _ => ?openImage
  case query =>
    refine .bind (.modifyGet fun _ h => ⟨h.owns, h.runs⟩) fun answer => ?_
    cases answer with
    | some topology => exact .pure _
    | none => exact .bind .get fun _ => .throw _
  case hasher => exact .bind (.modifyGet fun _ h => ⟨h.owns, h.runs⟩) fun _ => demand_preparing _ _
  case configure =>
    refine .bind (.modifyGet fun _ h => ⟨h.owns, h.runs⟩) fun hints => .modify fun s h => ?_
    obtain ⟨file, world⟩ := staging.configure topology.runs hints C.config.metadata s.writer
    exact ⟨fun f same => h.owns f (file.symm.trans same), world.symm ▸ h.runs⟩
  case openImage =>
    refine .bind (.modifyGet fun s h => ?_) fun _ => .bind .get fun _ => demand_preparing _ _
    exact h.stage (staging.preflightAndOpen _ _ _ _ _ h.staged)

theorem closeWriter_preparing (staging : Staging C.writer) : Keeps (Preparing paths w) (closeWriter C) :=
  .modify fun _ h => h.stage (staging.close _ _ _ h.staged)

/-- `Acquire` keeps what `WriteAt` keeps. -/
theorem acquire_keeps_writer {P : WriterState μ × World → Prop}
    (written : ∀ offset data writer, P writer → P (C.writer.writeAt offset data writer).2)
    {s : TransactionState δ κ μ} (h : P s.writer) : P (final (acquire C s)).writer := by
  have sustains (topology : Topology) :
      WriterSustains C topology.runs (fun _ writer => P writer) (fun _ writer => P writer) :=
    ⟨fun _ _ _ _ h => h, fun _ _ h => h, fun _ _ _ _ writer _ _ r _ _ h _ => written _ _ writer h,
      fun _ _ _ _ writer _ _ r _ _ h _ => written _ _ writer h⟩
  exact (acquire_writes (fun topology _ => sustains topology) h fun _ _ h => h).final

theorem acquireImage_preparing (staging : Staging C.writer) :
    Keeps (Preparing paths w) (acquireImage C paths) := by
  intro s h
  simp only [acquireImage, WP.bind_iff, WP.get_iff, WP.set_iff]
  have acquired : Preparing paths w
      (final (acquire C (.start s.device s.writer s.hasher s.environment))) :=
    h.stage (acquire_keeps_writer (s := .start s.device s.writer s.hasher s.environment)
      (fun _ _ _ => staging.writeAt _ _ _ _ _) h.staged)
  rw [WP.ite_iff]
  refine ⟨fun _ => acquired, fun _ => ?_⟩
  have failed : Keeps (Preparing paths w) (acquisitionFailed C paths) :=
    .bind (closeWriter_preparing staging) fun _ => .bind removal_preparing fun _ =>
      .bind (.modifyGet fun _ h => ⟨h.owns, h.runs⟩) fun _ =>
        .bind (.modifyGet fun _ h => ⟨h.owns, h.runs⟩) fun _ => .bind .get fun _ => .throw _
  exact failed _ acquired

/-- The milestone was reached between the two worlds. -/
def Noted (milestone : Milestone) (w u : World) : Prop :=
  ∃ more, u.files.past = w.files.past ++ more ∧ ∃ files, (files, .note milestone) ∈ more

theorem Noted.runs {A : Files → Effect → Prop} {milestone : Milestone} {u v : World}
    (noted : Noted milestone w u) (runs : Runs A u v) : Noted milestone w v := by
  obtain ⟨more, split, files, member⟩ := noted
  obtain ⟨later, split', -⟩ := runs.past
  refine ⟨more ++ later, ?_, files, List.mem_append_left _ member⟩
  rw [split', split, List.append_assoc]

theorem Preparing.noted (h : Preparing paths w s) (milestone : Milestone) :
    Noted milestone w (s.writer.2.perform (.note milestone)) := by
  obtain ⟨more, split, -⟩ := h.runs.past
  refine ⟨more ++ [(s.writer.2.files.now, .note milestone)], ?_, s.writer.2.files.now,
    List.mem_append_right _ (List.mem_singleton_self _)⟩
  rw [← List.append_assoc, ← split]
  rfl

/-- The capture gives up. -/
def Aborts (paths : EvidencePaths) (w : World) (x : TransactionM δ κ μ α) : Prop :=
  ∀ s, Preparing paths w s → WP x (fun _ _ => False) (fun _ t => Preparing paths w t) s

namespace Aborts

variable {β : Type} {x : TransactionM δ κ μ α}

theorem stop (result : EvidenceCaptureResult) :
    Aborts paths w (throw result : TransactionM δ κ μ α) := fun _ h => h

theorem after {y : TransactionM δ κ μ β} {f : β → TransactionM δ κ μ α}
    (first : Keeps (Preparing paths w) y) (rest : ∀ b, Aborts paths w (f b)) :
    Aborts paths w (y >>= f) := fun s h =>
  WP.bind_iff.mpr ((first s h).mono (fun b t => rest b t) fun _ _ h => h)

/-- The staging files are removed before the failure is reported. -/
theorem removal (result : EvidenceCaptureResult) : Aborts paths w (do
    changeWorld paths.removeStagingFiles
    throw result : TransactionM δ κ μ α) := after removal_preparing fun _ => stop _

theorem wp (aborts : Aborts paths w x) (h : Preparing paths w s)
    {post : α → TransactionState δ κ μ → Prop} :
    WP x post (fun _ t => Preparing paths w t) s :=
  (aborts s h).mono (fun _ _ no => no.elim) fun _ _ h => h

end Aborts

theorem finishHash_wp (staging : Staging C.writer) (h : Preparing paths w s) :
    WP (finishHash C paths)
      (fun _ t => Preparing paths w t ∧ Noted (.digest t.summary.sha256) w t.writer.2)
      (fun _ t => Preparing paths w t) s := by
  have finished : Preparing paths w { s with hasher := (C.hasher.finish s.hasher).2 } :=
    ⟨h.owns, h.runs⟩
  rw [finishHash, WP.bind_iff, WP.modifyGet_iff]
  dsimp only
  cases (C.hasher.finish s.hasher).1 with
  | some sha256 => exact ⟨⟨h.owns, .effect h.runs (.inl (.note _ _))⟩, h.noted _⟩
  | none => exact (Aborts.after (closeWriter_preparing staging) fun _ => .removal _).wp finished

/-- The staged image is complete and no longer open. -/
structure Sealed (paths : EvidencePaths) (w : World) (s : TransactionState δ κ μ) : Prop
    extends Preparing paths w s where
  closed : s.writer.1.file = none
  digest : Noted (.digest s.summary.sha256) w s.writer.2
  flushed : Noted .imageFlushed w s.writer.2

/-- Calls on the world leave the image sealed. -/
theorem Sealed.then {u : World} (h : Sealed paths w s) (runs : Runs paths.Prepares s.writer.2 u) :
    Sealed paths w { s with writer := (s.writer.1, u) } :=
  ⟨⟨h.owns, h.runs.trans runs⟩, h.closed, h.digest.runs runs, h.flushed.runs runs⟩

theorem flushImage_wp (staging : Staging C.writer) (h : Preparing paths w s)
    (digest : Noted (.digest s.summary.sha256) w s.writer.2) :
    WP (flushImage C paths) (fun _ t => Sealed paths w t) (fun _ t => Preparing paths w t) s := by
  have staged := staging.flushAndClose _ _ _ h.staged
  have flushed : Preparing paths w { s with writer := (C.writer.flushAndClose s.writer).2 } :=
    h.stage staged
  rw [flushImage, WP.bind_iff, WP.modifyGet_iff, WP.ite_iff]
  refine ⟨fun ok => ?_, fun _ => ?_⟩
  · have later : Runs paths.Prepares s.writer.2
        ((C.writer.flushAndClose s.writer).2.2.perform (.note .imageFlushed)) :=
      .effect (staged.runs.mono fun _ _ e => .image e) (.inl (.note _ _))
    exact ⟨⟨flushed.owns, h.runs.trans later⟩, staging.released _ ok, digest.runs later,
      flushed.noted _⟩
  · exact (Aborts.after .get fun _ => .removal _).wp flushed

theorem checkAccounting_wp (h : Sealed paths w s) :
    WP (checkAccounting paths) (fun _ t => Sealed paths w t ∧ accountingViolated t.summary = false)
      (fun _ t => Preparing paths w t) s := by
  rw [checkAccounting, WP.bind_iff, WP.get_iff, WP.ite_iff]
  exact ⟨fun _ => (Aborts.removal _).wp h.toPreparing,
    fun holds => ⟨h, Bool.not_eq_true _ ▸ holds⟩⟩

/-- A file that this program has written, flushed and closed. -/
def finishedFile (content : List Byte) : FileNode := ⟨content, true, .capture, false⟩

/-- A staged sidecar, if the call that writes it succeeds. -/
theorem writeStaged_wp {call : World → Bool × World} {message : String} (h : Sealed paths w s)
    (within : ∀ u, Runs paths.Prepares u (call u).2) :
    WP (writeStaged paths call message)
      (fun _ t => (call s.writer.2).1 = true ∧ Sealed paths w t ∧
        t = { s with writer := (s.writer.1, (call s.writer.2).2) })
      (fun _ t => Preparing paths w t) s := by
  have written := h.then (within s.writer.2)
  rw [writeStaged, WP.bind_iff, onWorld, WP.modifyGet_iff, WP.ite_iff]
  exact ⟨fun ok => ⟨ok, written, rfl⟩, fun _ => (Aborts.removal _).wp written.toPreparing⟩

theorem writeMap_wp (h : Sealed paths w s) :
    WP (writeMap paths)
      (fun _ t => Sealed paths w t ∧ t.summary = s.summary ∧ Map.acceptable s.summary = true ∧
        t.writer.2.files.now paths.mapPartial =
          some (finishedFile (Map.ascii (Map.mapText s.summary))))
      (fun _ t => Preparing paths w t) s := by
  rw [writeMap, WP.bind_iff, WP.get_iff]
  refine (writeStaged_wp h fun u => (writeMapJson_runs _ _ u).mono fun _ _ e => .map e).mono ?_
    (fun _ _ h => h)
  rintro - _ ⟨ok, written, rfl⟩
  refine ⟨written, rfl, ?_⟩
  show Map.acceptable s.summary = true ∧
    (writeMapJson paths.mapPartial s.summary s.writer.2).2.files.now paths.mapPartial = _
  rw [writeMapJson] at ok ⊢
  split at ok
  · next acceptable =>
      rw [if_pos acceptable]
      exact ⟨acceptable, (Map.writeAtomicString_spec _ _ _).node ok⟩
  · cases ok

theorem writeSidecar_wp (h : Sealed paths w s) {map : FileNode} (distinct : paths.names.Nodup)
    (present : s.writer.2.files.now paths.mapPartial = some map) :
    WP (writeSidecar paths)
      (fun _ t => Sealed paths w t ∧ t.summary = s.summary ∧
        t.writer.2.files.now paths.mapPartial = some map ∧
        t.writer.2.files.now paths.hashPartial = some (finishedFile
          (sidecarText (Map.narrowUtf8 (Path.filename paths.rawFinal)) s.summary.sha256)))
      (fun _ t => Preparing paths w t) s := by
  have other : paths.mapPartial ≠ paths.hashPartial := by
    simp only [EvidencePaths.names, List.nodup_cons, List.mem_cons, not_or] at distinct
    exact distinct.2.2.2.1.2.1
  rw [writeSidecar, WP.bind_iff, WP.get_iff]
  refine (writeStaged_wp h fun u => (writeSha256Sidecar_runs _ _ _ u).mono
    fun _ _ e => .sidecar e).mono ?_ (fun _ _ h => h)
  rintro - _ ⟨ok, written, rfl⟩
  refine ⟨written, rfl, (writeSha256Sidecar_runs _ _ _ _).local_other other present, ?_⟩
  show (writeSha256Sidecar paths.hashPartial (Path.filename paths.rawFinal) s.summary.sha256
    s.writer.2).2.files.now paths.hashPartial = _
  rw [writeSha256Sidecar] at ok ⊢
  split at ok
  · next named =>
      rw [if_pos named]
      exact (Map.writeAtomicString_spec _ _ _).node ok
  · cases ok

/-- The world in which the image gets its final name: both sidecars have theirs, and all that
the bundle promises holds already. -/
structure Finished (paths : EvidencePaths) (summary : AcquisitionSummary) (w m : World) : Prop where
  runs : Runs paths.Prepares w m
  image : ∃ node, m.files.now paths.rawPartial = some node ∧ node.opened = false
  free : m.files.now paths.rawFinal = none
  map : m.files.now paths.mapFinal = some (finishedFile (Map.ascii (Map.mapText summary)))
  sidecar : m.files.now paths.hashFinal = some (finishedFile
    (sidecarText (Map.narrowUtf8 (Path.filename paths.rawFinal)) summary.sha256))
  digest : Noted (.digest summary.sha256) w m
  flushed : Noted .imageFlushed w m
  acceptable : Map.acceptable summary = true
  accounted : accountingViolated summary = false

/-- A promotion that succeeds, and one that does not. -/
theorem promote_wp {stagingPath finalPath : WString} {rollBack : World → World} {message : String}
    (h : Sealed paths w s) (undo : ∀ u, Runs paths.Prepares u (rollBack u))
    {post : Unit → TransactionState δ κ μ → Prop}
    (promoted : ∀ node, s.writer.2.enter.files.now stagingPath = some node →
      node.opened = false → s.writer.2.enter.files.now finalPath = none →
      post () { s with
        writer := (s.writer.1, s.writer.2.enter.perform (.rename stagingPath finalPath)) }) :
    WP (promote paths stagingPath finalPath rollBack message) post
      (fun _ t => Preparing paths w t) s := by
  rw [promote, WP.bind_iff, onWorld, WP.modifyGet_iff, promoteStagingFile, WP.ite_iff]
  rcases moveFileExW_cases stagingPath finalPath s.writer.2 with
    ⟨error, moved⟩ | ⟨node, present, closed, free, moved⟩ <;> rw [moved]
  · refine ⟨nofun, fun _ => ?_⟩
    have failed : Preparing paths w { s with
        writer := (s.writer.1, s.writer.2.enter.setLastError error) } :=
      ⟨h.owns, h.runs.trans (s.writer.2.failed_runs error)⟩
    refine (Aborts.after .get fun _ => .after (changeWorld_preparing fun u => ?_)
      fun _ => .stop _).wp failed
    exact removeStagingFiles_runs.trans (undo _)
  · exact ⟨fun _ => promoted node present closed free, fun no => (no rfl).elim⟩

/-- A renamed file is found under its new name. -/
theorem rename_target {files : Files} {source target : WString} (ne : target ≠ source) :
    (Effect.rename source target).apply files target = files source :=
  (Function.update_of_ne ne _ _).trans (Function.update_self _ _ _)

theorem rename_other {files : Files} {source target path : WString} (source_ne : path ≠ source)
    (target_ne : path ≠ target) : (Effect.rename source target).apply files path = files path :=
  (Function.update_of_ne source_ne _ _).trans (Function.update_of_ne target_ne _ _)

theorem publish_wp (distinct : paths.names.Nodup) (h : Sealed paths w s)
    (acceptable : Map.acceptable s.summary = true)
    (accounted : accountingViolated s.summary = false)
    (map : s.writer.2.files.now paths.mapPartial =
      some (finishedFile (Map.ascii (Map.mapText s.summary))))
    (sidecar : s.writer.2.files.now paths.hashPartial = some (finishedFile
      (sidecarText (Map.narrowUtf8 (Path.filename paths.rawFinal)) s.summary.sha256))) :
    WP (publish paths)
      (fun result t => result.status = publishedStatus s.summary ∧ t.writer.1.file = none ∧
        ∃ m, Finished paths s.summary w m ∧ t.writer.2 = m.perform paths.promotion)
      (fun _ t => Preparing paths w t) s := by
  simp only [EvidencePaths.names, List.nodup_cons, List.mem_cons, not_or] at distinct
  obtain ⟨-, -, ⟨map_ne, final_ne, final_ne', -⟩, ⟨staged_ne, staged_ne', -⟩,
    ⟨hash_ne, -⟩, -⟩ := distinct
  rw [publish, WP.bind_iff]
  refine promote_wp h (fun _ => .refl) fun _ _ _ _ => ?_
  have first := h.then (.effect s.writer.2.enter_runs
    (.inl (EvidencePaths.Prepares.promoteMap _)))
  have mapped : (s.writer.2.enter.perform (.rename paths.mapPartial paths.mapFinal)).files.now
      paths.mapFinal = some (finishedFile (Map.ascii (Map.mapText s.summary))) :=
    (rename_target map_ne).trans (World.enter_of_some map)
  have waiting : (s.writer.2.enter.perform (.rename paths.mapPartial paths.mapFinal)).files.now
      paths.hashPartial = _ :=
    (rename_other (Ne.symm staged_ne') (Ne.symm final_ne')).trans (World.enter_of_some sidecar)
  rw [WP.bind_iff]
  refine promote_wp first (fun _ => removeFinalizedSidecars_runs) fun _ _ _ _ => ?_
  have second := first.then (.effect (World.enter_runs _)
    (.inl (EvidencePaths.Prepares.promoteSidecar _)))
  have mapped' := (rename_other final_ne' final_ne).trans (World.enter_of_some mapped)
  have named := (rename_target hash_ne).trans (World.enter_of_some waiting)
  rw [WP.bind_iff]
  refine promote_wp second (fun _ => removeFinalizedSidecars_runs) fun node image closed free => ?_
  have entered := World.enter_runs (A := paths.Prepares)
    ((s.writer.2.enter.perform (.rename paths.mapPartial paths.mapFinal)).enter.perform
      (.rename paths.hashPartial paths.hashFinal))
  exact ⟨rfl, h.closed, _, {
    runs := second.runs.trans entered
    image := ⟨node, image, closed⟩
    free := free
    map := World.enter_of_some mapped'
    sidecar := World.enter_of_some named
    digest := second.digest.runs entered
    flushed := second.flushed.runs entered
    acceptable := acceptable
    accounted := accounted }, rfl⟩

/-- The phases after `Acquire`. -/
theorem conclude_wp (staging : Staging C.writer) (distinct : paths.names.Nodup)
    (h : Preparing paths w s) :
    WP (conclude C paths)
      (fun result t => ∃ summary m, result.status = publishedStatus summary ∧
        t.writer.1.file = none ∧ Finished paths summary w m ∧ t.writer.2 = m.perform paths.promotion)
      (fun _ t => Preparing paths w t) s := by
  rw [conclude, WP.bind_iff]
  refine (finishHash_wp staging h).mono ?_ (fun _ _ h => h)
  rintro - t ⟨h, digest⟩
  rw [WP.bind_iff]
  refine (flushImage_wp staging h digest).mono ?_ (fun _ _ h => h)
  rintro - t h
  rw [WP.bind_iff]
  refine (checkAccounting_wp h).mono ?_ (fun _ _ h => h)
  rintro - t ⟨h, accounted⟩
  rw [WP.bind_iff]
  refine (writeMap_wp h).mono ?_ (fun _ _ h => h)
  rintro - u ⟨h, same, acceptable, map⟩
  rw [← same] at accounted acceptable map
  rw [WP.bind_iff]
  refine (writeSidecar_wp h distinct map).mono ?_ (fun _ _ h => h)
  rintro - v ⟨h, same, map, sidecar⟩
  rw [← same] at accounted acceptable map sidecar
  refine (publish_wp distinct h acceptable accounted map sidecar).mono ?_ (fun _ _ h => h)
  rintro result t ⟨status, closed, m, finished, world⟩
  exact ⟨v.summary, m, status, closed, finished, world⟩

/-- The three final files after the last rename. -/
theorem Finished.finals (distinct : paths.names.Nodup) {summary : AcquisitionSummary} {m : World}
    (finished : Finished paths summary w m) :
    (∃ node, (m.perform paths.promotion).files.now paths.rawFinal = some node) ∧
      (m.perform paths.promotion).files.now paths.mapFinal =
        some (finishedFile (Map.ascii (Map.mapText summary))) ∧
      (m.perform paths.promotion).files.now paths.hashFinal = some (finishedFile
        (sidecarText (Map.narrowUtf8 (Path.filename paths.rawFinal)) summary.sha256)) := by
  simp only [EvidencePaths.names, List.nodup_cons, List.mem_cons, not_or] at distinct
  obtain ⟨⟨raw_ne, raw_map, -, raw_hash, -⟩, ⟨partial_map, -, partial_hash, -⟩, -⟩ := distinct
  obtain ⟨node, image, -⟩ := finished.image
  exact ⟨⟨node, (rename_target raw_ne).trans image⟩,
    (rename_other (Ne.symm partial_map) (Ne.symm raw_map)).trans finished.map,
    (rename_other (Ne.symm partial_hash) (Ne.symm raw_hash)).trans finished.sidecar⟩

theorem hasFinalizedBundle_of_published {result : EvidenceCaptureResult}
    {summary : AcquisitionSummary} (status : result.status = publishedStatus summary) :
    result.hasFinalizedBundle = true := by
  rw [EvidenceCaptureResult.hasFinalizedBundle, status, publishedStatus]
  split <;> rfl

/-! ### Failures -/

/-- The result of every failure says that there is no bundle. -/
abbrev Declines (x : TransactionM δ κ μ α) : Prop :=
  Stops (fun result _ => result.hasFinalizedBundle = false) x

theorem demand_declines (condition : Bool) (message : String) (error : UInt32) :
    Declines (demand condition (failure message error) : TransactionM δ κ μ Unit) :=
  .ite (.pure _) (.throw fun _ => rfl)

theorem removal_declines (message : String) (error : UInt32) : Declines (do
    changeWorld paths.removeStagingFiles
    throw (failure message error) : TransactionM δ κ μ α) :=
  .bind (.modifyGet _) fun _ => .throw fun _ => rfl

theorem prepare_declines : Declines (prepare C paths) := by
  refine .bind (.bind (.modifyGet _) fun _ => demand_declines _ _ _) fun _ => .bind
    (.bind (.modifyGet _) fun answer => ?_) fun _ =>
    .bind (.bind (.modifyGet _) fun _ => demand_declines _ _ _) fun _ =>
    .bind (.bind (.modifyGet _) fun _ => .modify _) fun _ =>
    .bind (.modifyGet _) fun _ => .bind .get fun _ => demand_declines _ _ _
  cases answer with
  | some topology => exact .pure _
  | none => exact .bind .get fun _ => .throw fun _ => rfl

theorem acquireImage_declines : Declines (acquireImage C paths) := by
  refine .bind .get fun s => .bind (.set _) fun _ => .ite (.pure _) ?_
  refine .bind (.modify _) fun _ => .bind (.modifyGet _) fun _ => .bind (.modifyGet _) fun cancelled =>
    .bind (.modifyGet _) fun _ => .bind .get fun t => .throw fun _ => ?_
  cases cancelled <;> rfl

theorem writeStaged_declines (call : World → Bool × World) (message : String) :
    Declines (writeStaged paths call message : TransactionM δ κ μ Unit) :=
  .bind (.modifyGet _) fun _ => .ite (.pure _) (removal_declines _ _)

theorem promote_declines (stagingPath finalPath : WString) (rollBack : World → World)
    (message : String) :
    Declines (promote paths stagingPath finalPath rollBack message : TransactionM δ κ μ Unit) :=
  .bind (.modifyGet _) fun _ => .ite (.pure _) <| .bind .get fun _ => .bind (.modifyGet _)
    fun _ => .throw fun _ => rfl

theorem conclude_declines : Declines (conclude C paths) := by
  refine .bind (.bind (.modifyGet _) fun answer => ?_) fun _ => .bind (.bind (.modifyGet _) fun _ =>
    .ite (.modifyGet _) (.bind .get fun _ => removal_declines _ _)) fun _ =>
    .bind (.bind .get fun _ => .ite (removal_declines _ _) (.pure _)) fun _ =>
    .bind (.bind .get fun _ => writeStaged_declines _ _) fun _ =>
    .bind (.bind .get fun _ => writeStaged_declines _ _) fun _ =>
    .bind (promote_declines _ _ _ _) fun _ => .bind (promote_declines _ _ _ _) fun _ =>
    .bind (promote_declines _ _ _ _) fun _ => .bind .get fun _ => .pure _
  cases answer with
  | some sha256 => exact .bind (.modify _) fun _ => .modifyGet _
  | none => exact .bind (.modify _) fun _ => removal_declines _ _

theorem captureBody_declines : Declines (captureBody C paths) := by
  rw [captureBody_eq]
  exact .bind prepare_declines fun _ => .bind acquireImage_declines fun _ => conclude_declines

end Phases

/-! ### The whole capture -/

/-- A capture has published its bundle and reports the status of it, or it has not and reports
that. -/
inductive Fate (paths : EvidencePaths) (w : World) (result : EvidenceCaptureResult) :
    World → Prop
  | published {summary : AcquisitionSummary} {m : World}
      (status : result.status = publishedStatus summary) (finished : Finished paths summary w m) :
      Fate paths w result (m.perform paths.promotion)
  | withheld {u : World} (none : result.hasFinalizedBundle = false)
      (runs : Runs paths.Prepares w u) : Fate paths w result u

theorem runCapture_fate {C : Collaborators δ (WriterState μ × World) Sha256 κ}
    {paths : EvidencePaths} (staging : Staging C.writer) (distinct : paths.names.Nodup)
    (members : μ) (host : Host δ κ) :
    Fate paths host.world (runCapture C paths members host).1
      (runCapture C paths members host).2.world := by
  have start : Preparing paths host.world (host.start members) := ⟨nofun, .refl⟩
  have body : WP (captureBody C paths)
      (fun result t => ∃ summary m, result.status = publishedStatus summary ∧
        t.writer.1.file = none ∧ Finished paths summary host.world m ∧
        t.writer.2 = m.perform paths.promotion)
      (fun _ t => Preparing paths host.world t) (host.start members) := by
    rw [captureBody_eq, WP.bind_iff]
    refine (prepare_preparing staging _ start).mono (fun _ t h => ?_) (fun _ _ h => h)
    rw [WP.bind_iff]
    exact (acquireImage_preparing staging _ h).mono (fun _ u h => conclude_wp staging distinct h)
      (fun _ _ h => h)
  rw [runCapture, captureWith]
  cases ran : captureBody C paths (host.start members) with
  | ok result t =>
      obtain ⟨summary, m, status, closed, finished, world⟩ := body.of_ok ran
      have unchanged : (C.writer.close t.writer).2 = m.perform paths.promotion :=
        (staging.closed _ closed).trans world
      show Fate paths host.world result (C.writer.close t.writer).2
      rw [unchanged]
      exact .published status finished
  | error result t =>
      have given_up := body.of_error ran
      exact .withheld ((captureBody_declines _).of_error ran)
        (closeWriter_preparing (C := C) staging t given_up).final.runs

theorem capture_fate (device : IDeviceSession δ) (environment : Environment κ)
    (sha256 : List Byte → List Byte) (config : AcquisitionConfig) (outputPath : WString)
    (host : Host δ κ) :
    Fate (buildEvidencePaths outputPath) host.world
      (captureEvidenceToFile device environment sha256 config outputPath host).1
      (captureEvidenceToFile device environment sha256 config outputPath host).2.world := by
  have distinct := buildEvidencePaths_nodup outputPath
  refine captureEvidenceToFile_cases
    (motive := fun r => Fate (buildEvidencePaths outputPath) host.world r.1 r.2.world)
    (fun _ _ none => .withheld none .refl) (fun _ => ?_) (fun _ => ?_) (fun _ => ?_)
  · exact runCapture_fate rawWriter_staging distinct _ _
  · exact runCapture_fate zdmpWriter_staging distinct _ _
  · exact runCapture_fate e01Writer_staging distinct _ _

/-- Sixteen bytes of memory and an empty volume. -/
def smallHost : Host MockDeviceSession Unit where
  device := { mockHighestEnd := 16, mockTotalBytes := 16, mockRuns := [⟨0, 0, 16⟩] }
  environment := ()
  hasher := { fails := fun _ => false }
  world := { files := ⟨fun _ => none, []⟩, oracle := fun _ => { freeBytes := 0x100000000 } }

end PhylaRam
