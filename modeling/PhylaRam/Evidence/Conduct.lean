import PhylaRam.Evidence.Publication
import PhylaRam.Writer.Tending

/-!
# The six names during a capture

`Conduct` follows which names of a bundle may exist from one phase of a capture to the next, and
records why each effect of the capture concerns a file of its own. When a capture gives up, the
cleanup leaves none of the names, if no other process interferes and deletions succeed.
-/

namespace PhylaRam

open Program

namespace EvidencePaths

/-- The effects of a capture. The image belongs to its writer, a target of a rename is free, and
the map that is withdrawn is the one of this capture. -/
inductive Conducts (paths : EvidencePaths) (K : Creator → Prop) : Files → Effect → Prop
  | image {files : Files} {e : Effect} (h : Tends K paths.rawPartial files e) :
      Conducts paths K files e
  | map {files : Files} {e : Effect} (h : Local paths.mapPartial files e) :
      Conducts paths K files e
  | sidecar {files : Files} {e : Effect} (h : Local paths.hashPartial files e) :
      Conducts paths K files e
  | note (files : Files) (milestone : Milestone) : Conducts paths K files (.note milestone)
  | promoteMap {files : Files} (free : files paths.mapFinal = none) :
      Conducts paths K files (.rename paths.mapPartial paths.mapFinal)
  | promoteSidecar {files : Files} (free : files paths.hashFinal = none) :
      Conducts paths K files (.rename paths.hashPartial paths.hashFinal)
  | promoteImage {files : Files} {node : FileNode} (present : files paths.rawPartial = some node)
      (mine : K node.creator) (free : files paths.rawFinal = none) :
      Conducts paths K files paths.promotion
  | withdrawMap {files : Files} {node : FileNode} (present : files paths.mapFinal = some node)
      (mine : node.creator = .capture) : Conducts paths K files (.delete paths.mapFinal)
  | withdrawSidecar (files : Files) : Conducts paths K files (.delete paths.hashFinal)

/-- The names are six different ones, and those that are deleted are not empty. -/
structure Proper (paths : EvidencePaths) : Prop where
  nodup : paths.names.Nodup
  rawPartial : paths.rawPartial ≠ []
  mapPartial : paths.mapPartial ≠ []
  hashPartial : paths.hashPartial ≠ []
  mapFinal : paths.mapFinal ≠ []
  hashFinal : paths.hashFinal ≠ []

end EvidencePaths

theorem buildEvidencePaths_proper (outputPath : WString) :
    (buildEvidencePaths outputPath).Proper where
  nodup := buildEvidencePaths_nodup outputPath
  rawPartial := List.append_ne_nil_of_right_ne_nil _ (by decide)
  mapPartial := List.append_ne_nil_of_right_ne_nil _ (by decide)
  hashPartial := List.append_ne_nil_of_right_ne_nil _ (by decide)
  mapFinal := List.append_ne_nil_of_right_ne_nil _ (by decide)
  hashFinal := List.append_ne_nil_of_right_ne_nil _ (by decide)

section Worlds

variable {A : Files → Effect → Prop} {K : Creator → Prop} {paths : EvidencePaths} {w u : World}

/-- No other process touches the names, none of them exists, and deletions succeed. -/
structure Quiet (paths : EvidencePaths) (w : World) : Prop where
  alone : w.Solitary
  deletions : w.DeletionsSucceed
  absent : ∀ name ∈ paths.names, w.files.now name = none

/-- Of the names at most the listed ones exist, and only the image may be open. -/
structure Tidy (paths : EvidencePaths) (listed : List WString) (u : World) : Prop where
  absent : ∀ name ∈ paths.names, name ∉ listed → u.files.now name = none
  idle : ∀ name ∈ paths.names, name ≠ paths.rawPartial → IdleFile name u.files.now

theorem IdleFile.of_none {path : WString} {files : Files} (absent : files path = none) :
    IdleFile path files := fun node present => by cases absent.symm.trans present

theorem Quiet.tidy (quiet : Quiet paths w) : Tidy paths [] w :=
  ⟨fun name member _ => quiet.absent name member,
    fun name member _ => .of_none (quiet.absent name member)⟩

/-- Effects that leave the file of that name alone. -/
def Elsewhere (path : WString) (files : Files) (e : Effect) : Prop :=
  e.apply files path = files path

theorem Runs.elsewhere {path : WString} (h : Runs (Elsewhere path) w u) (alone : w.Solitary) :
    u.files.now path = w.files.now path :=
  h.preserves (P := fun files => files path = w.files.now path) (fun _ _ same e => e.trans same)
    (fun _ _ _ theirs => (theirs.not_solitary alone).elim) rfl

/-- An idle file stays idle under effects elsewhere. -/
theorem IdleFile.elsewhere {path : WString} (idle : IdleFile path w.files.now)
    (h : Runs (Elsewhere path) w u) : IdleFile path u.files.now :=
  h.preserves (P := fun files => IdleFile path files)
    (fun _ _ idle e node present => idle node (e.symm.trans present))
    (fun _ _ idle theirs => idle.intrusion theirs) idle

/-- A file stays as it is under effects elsewhere. -/
theorem Runs.stays {path : WString} (h : Runs (Elsewhere path) w u) {node : FileNode}
    (present : w.files.now path = some node) : u.files.now path = some node :=
  h.preserves (P := fun files => files path = some node) (fun _ _ present e => e.trans present)
    (fun _ _ present theirs => theirs.apply_of_some present) present

theorem Runs.local_elsewhere {path other : WString} (h : Runs (Local path) w u)
    (ne : other ≠ path) : Runs (Elsewhere other) w u := h.mono fun _ _ e => e.other ne

/-- What happens to one listed file changes nothing about the others. -/
theorem Tidy.local {listed : List WString} {path : WString} (tidy : Tidy paths listed w)
    (alone : w.Solitary) (h : Runs (Local path) w u) (member : path ∈ listed)
    (idle : path ≠ paths.rawPartial → IdleFile path u.files.now) : Tidy paths listed u where
  absent name named unlisted := by
    have ne : name ≠ path := fun same => unlisted (same ▸ member)
    exact ((h.local_elsewhere ne).elsewhere alone).trans (tidy.absent name named unlisted)
  idle name named ne := by
    by_cases same : name = path
    · subst same
      exact idle ne
    · exact (tidy.idle name named ne).elsewhere (h.local_elsewhere same)

theorem Tidy.mono {listed listed' : List WString} (tidy : Tidy paths listed u)
    (le : ∀ name ∈ listed, name ∈ listed') : Tidy paths listed' u :=
  ⟨fun name named unlisted => tidy.absent name named fun member => unlisted (le name member),
    tidy.idle⟩

/-- A closed file has moved to another name. -/
theorem Tidy.renamed {listed listed' : List WString} {source target : WString} {node : FileNode}
    (tidy : Tidy paths listed w) (present : w.files.now source = some node)
    (closed : node.opened = false) (ne : target ≠ source)
    (rest : ∀ name ∈ listed, name ∈ listed' ∨ name = source) (member : target ∈ listed') :
    Tidy paths listed' (w.perform (.rename source target)) where
  absent name named unlisted := by
    have other : name ≠ target := fun same => unlisted (same ▸ member)
    by_cases same : name = source
    · subst same
      exact Function.update_self _ _ _
    · refine (rename_other same other).trans (tidy.absent name named fun no => ?_)
      cases rest name no with
      | inl member => exact unlisted member
      | inr moved => exact same moved
  idle name named ne' := by
    by_cases gone : name = source
    · subst gone
      exact .of_none (Function.update_self _ _ _)
    · by_cases new : name = target
      · subst new
        intro other moved
        obtain rfl := Option.some.inj (present.symm.trans ((rename_target ne).symm.trans moved))
        exact closed
      · intro other moved
        exact tidy.idle name named ne' other ((rename_other gone new).symm.trans moved)

/-! ### Removals -/

/-- The deletion of a file that is there: the file may be told when the deletion is judged. -/
theorem deleteIfPresent_own {path : WString} {node : FileNode}
    (present : w.files.now path = some node)
    (allowed : ∀ files, files path = some node → A files (.delete path)) :
    Runs A w (deleteIfPresent path w) := by
  rw [deleteIfPresent]
  split
  · exact .refl
  · rcases deleteFileW_cases path w with ⟨error, h, -⟩ | ⟨-, -, -, h⟩ <;> rw [h]
    · exact w.failed_runs error
    · exact .effect w.enter_runs (.inl (allowed _ (World.enter_of_some present)))

theorem deleteIfPresent_local (path : WString) : Runs (Local path) w (deleteIfPresent path w) :=
  deleteIfPresent_runs fun _ => .delete _

theorem deleteIfPresent_removes {path : WString} (named : path ≠ [])
    (deletions : w.DeletionsSucceed) (idle : IdleFile path w.files.now) :
    (deleteIfPresent path w).files.now path = none := by
  rw [deleteIfPresent, if_neg named]
  exact deleteFileW_removes deletions idle

/-- A deletion opens no file. -/
theorem Runs.deletes_idle {path other : WString} (h : Runs (fun _ e => e = .delete path) w u)
    (idle : IdleFile other w.files.now) : IdleFile other u.files.now := by
  refine h.preserves (P := fun files => IdleFile other files) ?_
    (fun _ _ idle theirs => idle.intrusion theirs) idle
  rintro files _ idle rfl
  by_cases same : other = path
  · subst same
    exact .of_none (Function.update_self _ _ _)
  · intro node present
    exact idle node ((Function.update_of_ne same _ _).symm.trans present)

theorem deleteIfPresent_idle {path other : WString} (idle : IdleFile other w.files.now) :
    IdleFile other (deleteIfPresent path w).files.now := by
  have deletes : Runs (fun _ e => e = .delete path) w (deleteIfPresent path w) :=
    deleteIfPresent_runs fun _ => rfl
  exact deletes.deletes_idle idle

/-- Where deletions succeed, a deleted name is not listed any more. -/
theorem Tidy.deleted {listed listed' : List WString} {path : WString}
    (tidy : Tidy paths listed w) (alone : w.Solitary) (deletions : w.DeletionsSucceed)
    (named : path ≠ []) (idle : IdleFile path w.files.now)
    (rest : ∀ name ∈ listed, name ∈ listed' ∨ name = path) :
    Tidy paths listed' (deleteIfPresent path w) where
  absent name member unlisted := by
    by_cases same : name = path
    · subst same
      exact deleteIfPresent_removes named deletions idle
    · have unlisted' : name ∉ listed := fun no => by
        cases rest name no with
        | inl member => exact unlisted member
        | inr deleted => exact same deleted
      exact (((deleteIfPresent_local path).local_elsewhere same).elsewhere alone).trans
        (tidy.absent name member unlisted')
  idle name member ne := deleteIfPresent_idle (tidy.idle name member ne)

namespace EvidencePaths

variable {node : FileNode}

theorem rawPartial_mem : paths.rawPartial ∈ paths.names := by simp [names]

theorem mapPartial_mem : paths.mapPartial ∈ paths.names := by simp [names]

theorem hashPartial_mem : paths.hashPartial ∈ paths.names := by simp [names]

theorem mapFinal_mem : paths.mapFinal ∈ paths.names := by simp [names]

theorem hashFinal_mem : paths.hashFinal ∈ paths.names := by simp [names]

/-- The removal of the staging files deletes an image in the hands of the capture. -/
theorem removeStagingFiles_conducts (present : w.files.now paths.rawPartial = some node)
    (mine : K node.creator) : Runs (paths.Conducts K) w (paths.removeStagingFiles w) :=
  (deleteIfPresent_own present fun _ present => .image (.delete present mine)).trans <|
    (deleteIfPresent_runs fun _ => .map (.delete _)).trans <|
      deleteIfPresent_runs fun _ => .sidecar (.delete _)

theorem removeStagingFiles_tidy (proper : paths.Proper) {listed listed' : List WString}
    (tidy : Tidy paths listed w) (alone : w.Solitary) (deletions : w.DeletionsSucceed)
    (closed : IdleFile paths.rawPartial w.files.now)
    (rest : ∀ name ∈ listed, name ∈ listed' ∨
      name ∈ [paths.rawPartial, paths.mapPartial, paths.hashPartial]) :
    Tidy paths listed' (paths.removeStagingFiles w) := by
  have nodup := proper.nodup
  simp only [names, List.nodup_cons, List.mem_cons, not_or] at nodup
  obtain ⟨-, ⟨-, map_ne, -, hash_ne, -⟩, -⟩ := nodup
  have first : Tidy paths (listed' ++ [paths.mapPartial, paths.hashPartial]) _ :=
    tidy.deleted alone deletions proper.rawPartial closed fun name member => by
      have := rest name member
      simp only [List.mem_append, List.mem_cons, List.not_mem_nil, or_false] at this ⊢
      tauto
  have ran := deleteIfPresent_local (w := w) paths.rawPartial
  have second : Tidy paths (listed' ++ [paths.hashPartial]) _ :=
    first.deleted (ran.solitary alone) (ran.deletionsSucceed deletions) proper.mapPartial
      (first.idle _ mapPartial_mem (Ne.symm map_ne)) fun name member => by
        simp only [List.mem_append, List.mem_cons, List.not_mem_nil, or_false] at member ⊢
        tauto
  have ran' := deleteIfPresent_local (w := deleteIfPresent paths.rawPartial w) paths.mapPartial
  refine second.deleted (ran'.solitary (ran.solitary alone))
    (ran'.deletionsSucceed (ran.deletionsSucceed deletions)) proper.hashPartial
    (second.idle _ hashPartial_mem (Ne.symm hash_ne)) fun name member => ?_
  simpa using member

theorem removeStagingFiles_idle {path : WString} (idle : IdleFile path w.files.now) :
    IdleFile path (paths.removeStagingFiles w).files.now :=
  deleteIfPresent_idle (deleteIfPresent_idle (deleteIfPresent_idle idle))

/-- The removal of the sidecars deletes a map of this capture. -/
theorem removeFinalizedSidecars_conducts (present : w.files.now paths.mapFinal = some node)
    (mine : node.creator = .capture) :
    Runs (paths.Conducts K) w (paths.removeFinalizedSidecars w) :=
  (deleteIfPresent_own present fun _ present => .withdrawMap present mine).trans <|
    deleteIfPresent_runs fun _ => .withdrawSidecar _

theorem removeFinalizedSidecars_tidy (proper : paths.Proper)
    (tidy : Tidy paths [paths.mapFinal, paths.hashFinal] w) (alone : w.Solitary)
    (deletions : w.DeletionsSucceed) : Tidy paths [] (paths.removeFinalizedSidecars w) := by
  have nodup := proper.nodup
  simp only [names, List.nodup_cons, List.mem_cons, not_or] at nodup
  obtain ⟨-, ⟨map_ne, -, hash_ne, -⟩, -⟩ := nodup
  have first : Tidy paths [paths.hashFinal] _ :=
    tidy.deleted alone deletions proper.mapFinal (tidy.idle _ mapFinal_mem (Ne.symm map_ne))
      fun name member => by
        simp only [List.mem_cons, List.not_mem_nil, or_false] at member ⊢
        exact member.symm
  have ran := deleteIfPresent_local (w := w) paths.mapFinal
  refine first.deleted (ran.solitary alone) (ran.deletionsSucceed deletions) proper.hashFinal
    (first.idle _ hashFinal_mem (Ne.symm hash_ne)) fun name member => ?_
  simpa using member

end EvidencePaths

end Worlds

/-! ### Sidecars -/

section Sidecars

variable {path : WString} {w : World}

theorem IdleFile.close (files : Files) : IdleFile path ((Effect.close path).apply files) := by
  intro node present
  rw [Effect.apply, Files.modify, Function.update_self, Option.map_eq_some_iff] at present
  obtain ⟨node', -, rfl⟩ := present
  rfl

theorem Map.AtomicWrite.idle {content : NString} {result : Bool × World}
    (h : AtomicWrite path content w result) (idle : IdleFile path w.files.now) :
    IdleFile path result.2.files.now := by
  cases h with
  | refused waits => exact idle.waits waits
  | @abandoned u v wrote =>
      have deletes : Runs (fun _ e => e = .delete path) (v.perform (.close path))
          (deleteFileW path (v.perform (.close path))).2 := by
        rcases deleteFileW_cases path (v.perform (.close path)) with
          ⟨error, deleted, -⟩ | ⟨-, -, -, deleted⟩ <;> rw [deleted]
        · exact World.failed_runs _ _
        · exact .effect (World.enter_runs _) (.inl rfl)
      exact deletes.deletes_idle (IdleFile.close v.files.now)
  | written => exact IdleFile.close _

/-- A call that writes a sidecar: it acts on one name, leaves nothing open and its result is a
file of this program. -/
structure WritesSidecar (path : WString) (call : World → Bool × World) : Prop where
  within : ∀ w, Runs (Local path) w (call w).2
  idle : ∀ w, IdleFile path w.files.now → IdleFile path (call w).2.files.now
  node : ∀ w, (call w).1 = true → ∃ content,
    (call w).2.files.now path = some (finishedFile content)

theorem writeMapJson_writes (path : WString) (summary : AcquisitionSummary) :
    WritesSidecar path (writeMapJson path summary) where
  within := writeMapJson_runs path summary
  idle w idle := by
    rw [writeMapJson]
    split
    · exact (Map.writeAtomicString_spec _ _ w).idle idle
    · exact idle
  node w ok := by
    rw [writeMapJson] at ok ⊢
    split at ok
    · next acceptable =>
        rw [if_pos acceptable]
        exact ⟨_, (Map.writeAtomicString_spec _ _ _).node ok⟩
    · cases ok

theorem writeSha256Sidecar_writes (path rawFileName : WString) (sha256 : NString) :
    WritesSidecar path (writeSha256Sidecar path rawFileName sha256) where
  within := writeSha256Sidecar_runs path rawFileName sha256
  idle w idle := by
    rw [writeSha256Sidecar]
    split
    · exact (Map.writeAtomicString_spec _ _ w).idle idle
    · exact idle
  node w ok := by
    rw [writeSha256Sidecar] at ok ⊢
    split at ok
    · next named =>
        rw [if_pos named]
        exact ⟨_, (Map.writeAtomicString_spec _ _ _).node ok⟩
    · cases ok

end Sidecars

/-! ### The phases -/

variable {δ κ μ α : Type}

/-- The capture up to this state: the handle of the writer is in order, the effects are the ones
of `Conducts`, and undisturbed at most the listed names exist. -/
structure Conduct (K : Creator → Prop) (paths : EvidencePaths) (w : World)
    (listed : List WString) (s : TransactionState δ κ μ) : Prop where
  hand : InHand K paths.rawPartial s.writer
  runs : Runs (paths.Conducts K) w s.writer.2
  tidy : Quiet paths w → Tidy paths listed s.writer.2

/-- Nothing of a bundle is there. -/
structure Vacant (K : Creator → Prop) (paths : EvidencePaths) (w : World)
    (s : TransactionState δ κ μ) : Prop extends Conduct K paths w [] s where
  unmanned : s.writer.1.file = none

/-- The staged image is there. -/
structure Staffed (K : Creator → Prop) (paths : EvidencePaths) (w : World)
    (listed : List WString) (s : TransactionState δ κ μ) : Prop
    extends Conduct K paths w listed s where
  image : Present K paths.rawPartial s.writer

section Phases

variable {C : Collaborators δ (WriterState μ × World) Sha256 κ} {K : Creator → Prop}
  {paths : EvidencePaths} {w : World} {listed : List WString} {s t : TransactionState δ κ μ}

theorem Conduct.waits (h : Conduct K paths w listed s) {u : World} (runs : Waits s.writer.2 u) :
    Conduct K paths w listed { s with writer := (s.writer.1, u) } where
  hand := h.hand.waits runs
  runs := h.runs.trans runs.runs
  tidy quiet := by
    have same := runs.files_eq (h.runs.solitary quiet.alone)
    exact ⟨fun name member unlisted => (congrFun same name).trans
      ((h.tidy quiet).absent name member unlisted),
      fun name member ne => ((h.tidy quiet).idle name member ne).waits runs⟩

/-- The writer has acted on its file. -/
theorem Conduct.tend (h : Conduct K paths w listed s)
    (tended : Tended K paths.rawPartial s.writer.2 t.writer) {listed' : List WString}
    (more : ∀ name ∈ listed, name ∈ listed') (staged : paths.rawPartial ∈ listed') :
    Conduct K paths w listed' t where
  hand := tended.toInHand
  runs := h.runs.trans (tended.runs.mono fun _ _ e => .image e)
  tidy quiet := ((h.tidy quiet).mono more).local (h.runs.solitary quiet.alone)
    (tended.runs.mono fun _ _ e => e.toLocal) staged fun ne => (ne rfl).elim

theorem Conduct.tended (h : Conduct K paths w listed s) :
    Tended K paths.rawPartial s.writer.2 s.writer := ⟨h.hand, .refl⟩

/-- The phases before the staging file is created. -/
def approach (C : Collaborators δ (WriterState μ × World) Sha256 κ) (paths : EvidencePaths) :
    TransactionM δ κ μ Topology := do
  refuseCollision paths
  let topology ← queryTopology C
  initializeHasher C
  configureWriter C topology
  pure topology

theorem prepare_eq : prepare C paths = (do
    let topology ← approach C paths
    openImage C paths topology) := by
  simp only [prepare, approach, bind_assoc, pure_bind]

theorem approach_vacant (staging : Staging C.writer) :
    Keeps (Vacant K paths w) (approach C paths) := by
  refine .bind (.bind (.modifyGet fun s h => ?collision) fun _ =>
    .ite (fun _ => .pure _) fun _ => .throw _) fun _ => .bind ?query fun topology =>
      .bind ?hasher fun _ => .bind ?configure fun _ => .pure _
  case collision => exact ⟨h.waits (anyExists_runs _ _), h.unmanned⟩
  case query =>
    refine .bind (.modifyGet fun _ h => ⟨⟨h.hand, h.runs, h.tidy⟩, h.unmanned⟩) fun answer => ?_
    cases answer with
    | some topology => exact .pure _
    | none => exact .bind .get fun _ => .throw _
  case hasher =>
    exact .bind (.modifyGet fun _ h => ⟨⟨h.hand, h.runs, h.tidy⟩, h.unmanned⟩) fun _ =>
      .ite (fun _ => .pure _) fun _ => .throw _
  case configure =>
    refine .bind (.modifyGet fun _ h => ⟨⟨h.hand, h.runs, h.tidy⟩, h.unmanned⟩) fun hints =>
      .modify fun s h => ?_
    obtain ⟨file, world⟩ := staging.configure topology.runs hints C.config.metadata s.writer
    have idle : IdleFile paths.rawPartial s.writer.2.files.now := h.hand.idle h.unmanned
    exact ⟨⟨.of_none (file.trans h.unmanned) (world.symm ▸ idle), world.symm ▸ h.runs,
      world.symm ▸ h.tidy⟩, file.trans h.unmanned⟩

/-- What `PreflightAndOpen` leaves, whether or not it succeeds. -/
theorem openImage_staffs (tending : Tending C.writer K) {topology : Topology}
    (h : Vacant K paths w s) :
    WP (openImage C paths topology) (fun _ t => Staffed K paths w [paths.rawPartial] t)
      (fun _ t => Conduct K paths w [paths.rawPartial] t ∧
        (C.writer.preflightAndOpen paths.rawPartial topology.highestEnd topology.totalBytes
          s.writer) = (false, t.writer)) s := by
  have tended := (tending.obeys paths.rawPartial s.writer.2).preflightAndOpen topology.highestEnd
    topology.totalBytes _ h.tended
  have opened := tending.opened paths.rawPartial topology.highestEnd topology.totalBytes
    s.writer.2 s.writer h.tended
  rw [openImage, WP.bind_iff, WP.modifyGet_iff]
  have conduct (t : TransactionState δ κ μ) (same : t.writer = (C.writer.preflightAndOpen
      paths.rawPartial topology.highestEnd topology.totalBytes s.writer).2) :
      Conduct K paths w [paths.rawPartial] t :=
    h.tend (same ▸ tended) nofun (List.mem_singleton_self _)
  rw [WP.bind_iff, WP.get_iff, demand, WP.ite_iff]
  refine ⟨fun ok => ⟨conduct _ rfl, opened ok⟩, fun failed => ⟨conduct _ rfl, ?_⟩⟩
  exact Prod.ext (Bool.not_eq_true _ ▸ failed) rfl

/-! ### Giving up -/

/-- The writer has given up the handle of the staged image. -/
theorem Staffed.closed (tending : Tending C.writer K)
    (h : Staffed K paths w [paths.rawPartial] s) :
    Staffed K paths w [paths.rawPartial] { s with writer := C.writer.close s.writer } := by
  have tended := (tending.obeys paths.rawPartial s.writer.2).close _ h.tended
  exact ⟨h.tend tended (fun _ member => member) (List.mem_singleton_self _),
    tending.closed _ _ h.image⟩

/-- The cleanup: the staging files are removed, and after them what the roll back names. -/
theorem Staffed.cleanup (proper : paths.Proper) (h : Staffed K paths w listed s)
    (unmanned : s.writer.1.file = none) (rollBack : World → World) {listed' : List WString}
    (rest : ∀ name ∈ listed, name ∈ listed' ∨
      name ∈ [paths.rawPartial, paths.mapPartial, paths.hashPartial])
    (idle : ∀ u, IdleFile paths.rawPartial u.files.now →
      IdleFile paths.rawPartial (rollBack u).files.now)
    (runs : Runs (paths.Conducts K) (paths.removeStagingFiles s.writer.2)
      (rollBack (paths.removeStagingFiles s.writer.2)))
    (tidy : ∀ u, u.Solitary → u.DeletionsSucceed → Tidy paths listed' u →
      Tidy paths [] (rollBack u)) :
    Vacant K paths w
      { s with writer := (s.writer.1, rollBack (paths.removeStagingFiles s.writer.2)) } := by
  obtain ⟨node, present, mine⟩ := h.image
  have closed := h.hand.idle unmanned
  have removed := h.runs.trans (EvidencePaths.removeStagingFiles_conducts present mine)
  refine ⟨⟨.of_none unmanned (idle _ (EvidencePaths.removeStagingFiles_idle closed)),
    removed.trans runs, fun quiet => ?_⟩, unmanned⟩
  exact tidy _ (removed.solitary quiet.alone) (removed.deletionsSucceed quiet.deletions)
    (EvidencePaths.removeStagingFiles_tidy proper (h.tidy quiet) (h.runs.solitary quiet.alone)
      (h.runs.deletionsSucceed quiet.deletions) closed rest)

/-- Where only staging files exist, their removal leaves nothing. -/
theorem Staffed.vacate (proper : paths.Proper) (h : Staffed K paths w listed s)
    (unmanned : s.writer.1.file = none)
    (staged : ∀ name ∈ listed, name ∈ [paths.rawPartial, paths.mapPartial, paths.hashPartial]) :
    Vacant K paths w { s with writer := (s.writer.1, paths.removeStagingFiles s.writer.2) } :=
  h.cleanup proper unmanned id (fun name member => .inr (staged name member))
    (fun _ idle => idle) .refl fun _ _ _ tidy => tidy

theorem acquireImage_staffs (proper : paths.Proper) (tending : Tending C.writer K)
    (h : Staffed K paths w [paths.rawPartial] s) :
    WP (acquireImage C paths) (fun _ t => Staffed K paths w [paths.rawPartial] t)
      (fun _ t => Vacant K paths w t) s := by
  simp only [acquireImage, WP.bind_iff, WP.get_iff, WP.set_iff]
  have tended := acquire_keeps_writer (C := C)
    (s := .start s.device s.writer s.hasher s.environment)
    (fun _ _ _ => (tending.obeys paths.rawPartial s.writer.2).writeAt _ _ _) h.tended
  have image := acquire_keeps_writer (C := C)
    (s := .start s.device s.writer s.hasher s.environment)
    (fun _ _ _ => tending.written paths.rawPartial _ _ _) h.image
  have acquired : Staffed K paths w [paths.rawPartial]
      (final (acquire C (.start s.device s.writer s.hasher s.environment))) :=
    ⟨h.tend tended (fun _ member => member) (List.mem_singleton_self _), image⟩
  rw [WP.ite_iff]
  refine ⟨fun _ => acquired, fun _ => ?_⟩
  have vacant := (acquired.closed tending).vacate proper (tending.releases.close _) (by simp)
  exact ⟨⟨vacant.hand, vacant.runs, vacant.tidy⟩, vacant.unmanned⟩

/-- A milestone changes no file. -/
theorem Conduct.note (h : Conduct K paths w listed s) (milestone : Milestone) :
    Conduct K paths w listed
      { s with writer := (s.writer.1, s.writer.2.perform (.note milestone)) } :=
  ⟨⟨h.hand.held, h.hand.idle⟩, .effect h.runs (.inl (.note _ _)), fun quiet =>
    ⟨(h.tidy quiet).absent, (h.tidy quiet).idle⟩⟩

theorem finishHash_staffs (proper : paths.Proper) (tending : Tending C.writer K)
    (h : Staffed K paths w [paths.rawPartial] s) :
    WP (finishHash C paths) (fun _ t => Staffed K paths w [paths.rawPartial] t)
      (fun _ t => Vacant K paths w t) s := by
  rw [finishHash, WP.bind_iff, WP.modifyGet_iff]
  dsimp only
  have finished : Staffed K paths w [paths.rawPartial]
      { s with hasher := (C.hasher.finish s.hasher).2 } := ⟨⟨h.hand, h.runs, h.tidy⟩, h.image⟩
  cases (C.hasher.finish s.hasher).1 with
  | some sha256 =>
      have noted := h.toConduct.note (.digest sha256)
      exact ⟨⟨noted.hand, noted.runs, noted.tidy⟩, h.image⟩
  | none => exact (finished.closed tending).vacate proper (tending.releases.close _) (by simp)

/-- The image as it was when `FlushAndClose` succeeded. -/
def FlushedAs (paths : EvidencePaths) (w u : World) (node : FileNode) : Prop :=
  ∃ more files, u.files.past = w.files.past ++ more ∧ (files, .note .imageFlushed) ∈ more ∧
    files paths.rawPartial = some node

theorem FlushedAs.runs {A : Files → Effect → Prop} {u v : World} {node : FileNode}
    (flushed : FlushedAs paths w u node) (runs : Runs A u v) : FlushedAs paths w v node := by
  obtain ⟨more, files, split, member, present⟩ := flushed
  obtain ⟨later, split', -⟩ := runs.past
  refine ⟨more ++ later, files, ?_, List.mem_append_left _ member, present⟩
  rw [split', split, List.append_assoc]

/-- The image is complete and closed, and stays as it is. -/
structure Settled (K : Creator → Prop) (paths : EvidencePaths) (w : World) (node : FileNode)
    (listed : List WString) (s : TransactionState δ κ μ) : Prop
    extends Conduct K paths w listed s where
  unmanned : s.writer.1.file = none
  present : s.writer.2.files.now paths.rawPartial = some node
  mine : K node.creator
  flushed : FlushedAs paths w s.writer.2 node

theorem Settled.staffed {node : FileNode} (h : Settled K paths w node listed s) :
    Staffed K paths w listed s := ⟨h.toConduct, node, h.present, h.mine⟩

theorem flushImage_settles (proper : paths.Proper) (tending : Tending C.writer K)
    (h : Staffed K paths w [paths.rawPartial] s) :
    WP (flushImage C paths) (fun _ t => ∃ node, Settled K paths w node [paths.rawPartial] t)
      (fun _ t => Vacant K paths w t) s := by
  have tended := (tending.obeys paths.rawPartial s.writer.2).flushAndClose _ h.tended
  have flushed : Staffed K paths w [paths.rawPartial]
      { s with writer := (C.writer.flushAndClose s.writer).2 } :=
    ⟨h.tend tended (fun _ member => member) (List.mem_singleton_self _),
      tending.flushed _ _ h.image⟩
  have unmanned := tending.releases.flushAndClose s.writer
  rw [flushImage, WP.bind_iff, WP.modifyGet_iff, WP.ite_iff]
  refine ⟨fun _ => ?_, fun _ => flushed.vacate proper unmanned (by simp)⟩
  obtain ⟨node, present, mine⟩ := flushed.image
  obtain ⟨more, split, -⟩ := flushed.runs.past
  refine ⟨node, flushed.toConduct.note .imageFlushed, unmanned, present, mine,
    more ++ [((C.writer.flushAndClose s.writer).2.2.files.now, .note .imageFlushed)], _, ?_,
    List.mem_append_right _ (List.mem_singleton_self _), present⟩
  rw [← List.append_assoc, ← split]
  rfl

section Finishing

variable {node : FileNode}

theorem checkAccounting_settles (proper : paths.Proper)
    (h : Settled K paths w node [paths.rawPartial] s) :
    WP (checkAccounting paths) (fun _ t => Settled K paths w node [paths.rawPartial] t)
      (fun _ t => Vacant K paths w t) s := by
  rw [checkAccounting, WP.bind_iff, WP.get_iff, WP.ite_iff]
  exact ⟨fun _ => h.staffed.vacate proper h.unmanned (by simp), fun _ => h⟩

/-- The capture goes on with another file than the image. -/
theorem Settled.on {path : WString} {listed' : List WString} {u : World}
    (h : Settled K paths w node listed s) (ne : paths.rawPartial ≠ path)
    (runs : Runs (Local path) s.writer.2 u)
    (conducts : ∀ files e, Local path files e → paths.Conducts K files e)
    (idle : IdleFile path s.writer.2.files.now → IdleFile path u.files.now)
    (named : path ∈ paths.names) (more : ∀ name ∈ listed, name ∈ listed')
    (member : path ∈ listed') :
    Settled K paths w node listed' { s with writer := (s.writer.1, u) } where
  hand := .of_none h.unmanned ((h.hand.idle h.unmanned).elsewhere (runs.local_elsewhere ne))
  runs := h.runs.trans (runs.mono conducts)
  tidy quiet := ((h.tidy quiet).mono more).local (h.runs.solitary quiet.alone) runs member
    fun ne => idle ((h.tidy quiet).idle _ named ne)
  unmanned := h.unmanned
  present := (runs.local_elsewhere ne).stays h.present
  mine := h.mine
  flushed := h.flushed.runs runs

/-- A sidecar is written next to the image, or everything is removed again. -/
theorem writeStaged_settles (proper : paths.Proper) (h : Settled K paths w node listed s)
    {path : WString} {call : World → Bool × World} {message : String}
    (writes : WritesSidecar path call) (ne : paths.rawPartial ≠ path)
    (conducts : ∀ files e, Local path files e → paths.Conducts K files e)
    (named : path ∈ paths.names)
    (staged : ∀ name ∈ listed ++ [path],
      name ∈ [paths.rawPartial, paths.mapPartial, paths.hashPartial]) :
    WP (writeStaged paths call message)
      (fun _ t => Settled K paths w node (listed ++ [path]) t ∧
        (∃ content, t.writer.2.files.now path = some (finishedFile content)) ∧
        Runs (Local path) s.writer.2 t.writer.2)
      (fun _ t => Vacant K paths w t) s := by
  have written := h.on ne (writes.within _) conducts (writes.idle _) named
    (fun _ member => List.mem_append_left _ member)
    (List.mem_append_right _ (List.mem_singleton_self _))
  rw [writeStaged, WP.bind_iff, onWorld, WP.modifyGet_iff, WP.ite_iff]
  exact ⟨fun ok => ⟨written, writes.node _ ok, writes.within _⟩,
    fun _ => written.staffed.vacate proper written.unmanned staged⟩

theorem writeMap_settles (proper : paths.Proper) (h : Settled K paths w node [paths.rawPartial] s) :
    WP (writeMap paths)
      (fun _ t => Settled K paths w node [paths.rawPartial, paths.mapPartial] t ∧
        ∃ content, t.writer.2.files.now paths.mapPartial = some (finishedFile content))
      (fun _ t => Vacant K paths w t) s := by
  have nodup := proper.nodup
  simp only [EvidencePaths.names, List.nodup_cons, List.mem_cons, not_or] at nodup
  rw [writeMap, WP.bind_iff, WP.get_iff]
  exact (writeStaged_settles proper h (writeMapJson_writes _ _) nodup.2.1.2.1
    (fun _ _ => .map) EvidencePaths.mapPartial_mem (by simp)).mono
      (fun _ _ h => ⟨h.1, h.2.1⟩) fun _ _ h => h

theorem writeSidecar_settles (proper : paths.Proper)
    (h : Settled K paths w node [paths.rawPartial, paths.mapPartial] s) {content : List Byte}
    (map : s.writer.2.files.now paths.mapPartial = some (finishedFile content)) :
    WP (writeSidecar paths)
      (fun _ t => Settled K paths w node [paths.rawPartial, paths.mapPartial, paths.hashPartial] t ∧
        t.writer.2.files.now paths.mapPartial = some (finishedFile content))
      (fun _ t => Vacant K paths w t) s := by
  have nodup := proper.nodup
  simp only [EvidencePaths.names, List.nodup_cons, List.mem_cons, not_or] at nodup
  rw [writeSidecar, WP.bind_iff, WP.get_iff]
  refine (writeStaged_settles proper h (writeSha256Sidecar_writes _ _ _) nodup.2.1.2.2.2.1
    (fun _ _ => .sidecar) EvidencePaths.hashPartial_mem (by simp)).mono ?_ fun _ _ h => h
  rintro - t ⟨laid, -, runs⟩
  exact ⟨laid, (runs.local_elsewhere nodup.2.2.2.1.2.1).stays map⟩

theorem Settled.waits (h : Settled K paths w node listed s) {u : World} (runs : Waits s.writer.2 u) :
    Settled K paths w node listed { s with writer := (s.writer.1, u) } where
  toConduct := h.toConduct.waits runs
  unmanned := h.unmanned
  present := (runs.runs (A := Elsewhere paths.rawPartial)).stays h.present
  mine := h.mine
  flushed := h.flushed.runs runs

/-- A sidecar gets its final name. -/
theorem Settled.renamed {source target : WString} {moved : FileNode} {listed' : List WString}
    (h : Settled K paths w node listed s) (present : s.writer.2.files.now source = some moved)
    (closed : moved.opened = false)
    (conducts : paths.Conducts K s.writer.2.files.now (.rename source target))
    (ne : target ≠ source) (source_ne : paths.rawPartial ≠ source)
    (target_ne : paths.rawPartial ≠ target)
    (rest : ∀ name ∈ listed, name ∈ listed' ∨ name = source) (member : target ∈ listed') :
    Settled K paths w node listed'
      { s with writer := (s.writer.1, s.writer.2.perform (.rename source target)) } where
  hand := .of_none h.unmanned fun other found =>
    h.hand.idle h.unmanned other ((rename_other source_ne target_ne).symm.trans found)
  runs := .effect h.runs (.inl conducts)
  tidy quiet := (h.tidy quiet).renamed present closed ne rest member
  unmanned := h.unmanned
  present := (rename_other source_ne target_ne).trans h.present
  mine := h.mine
  flushed := h.flushed.runs (.effect .refl (.inl conducts))

/-- A promotion that fails leaves nothing. -/
theorem promote_settles {source target : WString} {rollBack : World → World} {message : String}
    (undone : ∀ u, Waits s.writer.2 u → Vacant K paths w
      { s with writer := (s.writer.1, rollBack (paths.removeStagingFiles u)) })
    {post : Unit → TransactionState δ κ μ → Prop}
    (promoted : ∀ moved, s.writer.2.enter.files.now source = some moved →
      moved.opened = false → s.writer.2.enter.files.now target = none →
      post () { s with
        writer := (s.writer.1, s.writer.2.enter.perform (.rename source target)) }) :
    WP (promote paths source target rollBack message) post (fun _ t => Vacant K paths w t) s := by
  rw [promote, WP.bind_iff, onWorld, WP.modifyGet_iff, promoteStagingFile, WP.ite_iff]
  rcases moveFileExW_cases source target s.writer.2 with
    ⟨error, moved⟩ | ⟨node, present, closed, free, moved⟩ <;> rw [moved]
  · exact ⟨fun no => (Bool.false_ne_true no).elim, fun _ => undone _ (s.writer.2.failed_runs error)⟩
  · exact ⟨fun _ => promoted node present closed free, fun no => (no rfl).elim⟩

/-- A later promotion that fails removes the sidecars after the staging files. -/
theorem Settled.withdraw (proper : paths.Proper) (h : Settled K paths w node listed s)
    {content : List Byte}
    (map : s.writer.2.files.now paths.mapFinal = some (finishedFile content))
    (rest : ∀ name ∈ listed, name ∈ [paths.mapFinal, paths.hashFinal] ∨
      name ∈ [paths.rawPartial, paths.mapPartial, paths.hashPartial]) :
    Vacant K paths w { s with writer :=
      (s.writer.1, paths.removeFinalizedSidecars (paths.removeStagingFiles s.writer.2)) } := by
  have nodup := proper.nodup
  simp only [EvidencePaths.names, List.nodup_cons, List.mem_cons, not_or] at nodup
  obtain ⟨-, ⟨raw_ne, -⟩, ⟨map_ne, -, hash_ne, -⟩, -⟩ := nodup
  have apart : Runs (Elsewhere paths.mapFinal) s.writer.2
      (paths.removeStagingFiles s.writer.2) :=
    ((deleteIfPresent_local _).local_elsewhere (Ne.symm raw_ne)).trans <|
      ((deleteIfPresent_local _).local_elsewhere map_ne).trans <|
        (deleteIfPresent_local _).local_elsewhere hash_ne
  exact h.staffed.cleanup proper h.unmanned _ rest
    (fun u idle => deleteIfPresent_idle (deleteIfPresent_idle idle))
    (EvidencePaths.removeFinalizedSidecars_conducts (apart.stays map) rfl)
    fun u alone deletions tidy =>
      EvidencePaths.removeFinalizedSidecars_tidy proper tidy alone deletions

/-- A bundle that has been delivered. -/
structure Delivered (K : Creator → Prop) (paths : EvidencePaths) (w u : World) : Prop where
  runs : Runs (paths.Conducts K) w u
  image : ∃ node, u.files.now paths.rawFinal = some node ∧ FlushedAs paths w u node
  tidy : Quiet paths w → Tidy paths [paths.rawFinal, paths.mapFinal, paths.hashFinal] u

theorem publish_delivers (proper : paths.Proper)
    (h : Settled K paths w node [paths.rawPartial, paths.mapPartial, paths.hashPartial] s)
    {content : List Byte}
    (map : s.writer.2.files.now paths.mapPartial = some (finishedFile content)) :
    WP (publish paths)
      (fun result t => result.hasFinalizedBundle = true ∧ t.writer.1.file = none ∧
        Delivered K paths w t.writer.2)
      (fun _ t => Vacant K paths w t) s := by
  have nodup := proper.nodup
  simp only [EvidencePaths.names, List.nodup_cons, List.mem_cons, not_or] at nodup
  obtain ⟨⟨raw_ne, -⟩, ⟨partial_map, partial_map', partial_hash, partial_hash', -⟩,
    ⟨map_ne, map_hash, map_hash', -⟩, -, ⟨hash_ne, -⟩, -⟩ := nodup
  rw [publish, WP.bind_iff]
  refine promote_settles (fun u waits => ?_) fun moved present closed free => ?_
  · exact (h.waits waits).staffed.vacate proper h.unmanned (by simp)
  have entered := h.waits (World.enter_runs _)
  obtain rfl := Option.some.inj (present.symm.trans (World.enter_of_some map))
  have first : Settled K paths w node [paths.rawPartial, paths.mapFinal, paths.hashPartial] _ :=
    entered.renamed present closed (.promoteMap free) map_ne partial_map' partial_map (by simp)
      (by simp)
  have map : (s.writer.2.enter.perform (.rename paths.mapPartial paths.mapFinal)).files.now
      paths.mapFinal = some (finishedFile content) := (rename_target map_ne).trans present
  rw [WP.bind_iff]
  refine promote_settles (fun u waits => ?_) fun moved present closed free => ?_
  · exact (first.waits waits).withdraw proper
      ((waits.runs (A := Elsewhere paths.mapFinal)).stays map) (by simp)
  have entered := first.waits (World.enter_runs _)
  have second : Settled K paths w node [paths.rawPartial, paths.mapFinal, paths.hashFinal] _ :=
    entered.renamed present closed (.promoteSidecar free) hash_ne partial_hash' partial_hash
      (by simp) (by simp)
  have map : ((s.writer.2.enter.perform (.rename paths.mapPartial paths.mapFinal)).enter.perform
      (.rename paths.hashPartial paths.hashFinal)).files.now paths.mapFinal =
        some (finishedFile content) :=
    (rename_other map_hash' map_hash).trans (World.enter_of_some map)
  rw [WP.bind_iff]
  refine promote_settles (fun u waits => ?_) fun moved present closed free => ?_
  · exact (second.waits waits).withdraw proper
      ((waits.runs (A := Elsewhere paths.mapFinal)).stays map) (by simp)
  have entered := second.waits (World.enter_runs _)
  obtain rfl := Option.some.inj (present.symm.trans entered.present)
  have delivers := EvidencePaths.Conducts.promoteImage present entered.mine free
  exact ⟨hasFinalizedBundle_of_published rfl, h.unmanned, .effect entered.runs (.inl delivers),
    ⟨moved, (rename_target raw_ne).trans present,
      entered.flushed.runs (.effect .refl (.inl delivers))⟩,
    fun quiet => (entered.tidy quiet).renamed present closed raw_ne (by simp) (by simp)⟩

theorem conclude_delivers (proper : paths.Proper) (tending : Tending C.writer K)
    (h : Staffed K paths w [paths.rawPartial] s) :
    WP (conclude C paths)
      (fun result t => result.hasFinalizedBundle = true ∧ t.writer.1.file = none ∧
        Delivered K paths w t.writer.2)
      (fun _ t => Vacant K paths w t) s := by
  rw [conclude, WP.bind_iff]
  refine (finishHash_staffs proper tending h).mono (fun _ t h => ?_) fun _ _ h => h
  rw [WP.bind_iff]
  refine (flushImage_settles proper tending h).mono ?_ fun _ _ h => h
  rintro - t ⟨node, h⟩
  rw [WP.bind_iff]
  refine (checkAccounting_settles proper h).mono (fun _ t h => ?_) fun _ _ h => h
  rw [WP.bind_iff]
  refine (writeMap_settles proper h).mono ?_ fun _ _ h => h
  rintro - t ⟨h, content, map⟩
  rw [WP.bind_iff]
  refine (writeSidecar_settles proper h map).mono ?_ fun _ _ h => h
  rintro - t ⟨h, map⟩
  exact publish_delivers proper h map

end Finishing

/-- `PreflightAndOpen` has failed, and this is the state it has left. -/
structure NotOpened (C : Collaborators δ (WriterState μ × World) Sha256 κ) (K : Creator → Prop)
    (paths : EvidencePaths) (w : World) (s u : TransactionState δ κ μ) : Prop where
  conduct : Conduct K paths w [paths.rawPartial] u
  opening : ∃ topology t, approach C paths s = .ok topology t ∧ Vacant K paths w t ∧
    C.writer.preflightAndOpen paths.rawPartial topology.highestEnd topology.totalBytes t.writer =
      (false, u.writer)

theorem captureBody_conduct (proper : paths.Proper) (staging : Staging C.writer)
    (tending : Tending C.writer K) (h : Vacant K paths w s) :
    WP (captureBody C paths)
      (fun result t => result.hasFinalizedBundle = true ∧ t.writer.1.file = none ∧
        Delivered K paths w t.writer.2)
      (fun _ t => Vacant K paths w t ∨ NotOpened C K paths w s t) s := by
  rw [captureBody_eq, prepare_eq, bind_assoc, WP.bind_iff]
  refine (approach_vacant staging s h).traced.mono ?_ fun _ t h => .inl h.2
  rintro topology t ⟨ran, vacant⟩
  rw [WP.bind_iff]
  refine (openImage_staffs tending vacant).mono (fun _ u h => ?_) fun _ u h =>
    .inr ⟨h.1, topology, t, ran, vacant, h.2⟩
  rw [WP.bind_iff]
  exact (acquireImage_staffs proper tending h).mono (fun _ _ h =>
    (conclude_delivers proper tending h).mono (fun _ _ h => h) fun _ _ h => .inl h)
    fun _ _ h => .inl h

end Phases

/-! ### The whole capture -/

/-- How a capture ends: with a bundle, with nothing, or with what `PreflightAndOpen` left. -/
inductive Ending (C : Collaborators δ (WriterState μ × World) Sha256 κ) (K : Creator → Prop)
    (paths : EvidencePaths) (w : World) (s : TransactionState δ κ μ) : Bool → World → Prop
  | delivered {u : World} (h : Delivered K paths w u) : Ending C K paths w s true u
  | vacant {u : World} (runs : Runs (paths.Conducts K) w u)
      (tidy : Quiet paths w → Tidy paths [] u) : Ending C K paths w s false u
  | notOpened {u : TransactionState δ κ μ} (h : NotOpened C K paths w s u) :
      Ending C K paths w s false (closedWorld u.writer)

section Endings

variable {C : Collaborators δ (WriterState μ × World) Sha256 κ} {K : Creator → Prop}
  {paths : EvidencePaths}

theorem runCapture_ending (proper : paths.Proper) (staging : Staging C.writer)
    (tending : Tending C.writer K) (members : μ) (host : Host δ κ)
    (idle : IdleFile paths.rawPartial host.world.files.now) :
    Ending C K paths host.world (host.start members)
      (runCapture C paths members host).1.hasFinalizedBundle
      (runCapture C paths members host).2.world := by
  have start : Vacant K paths host.world (host.start members) :=
    ⟨⟨.of_none rfl idle, .refl, fun quiet => quiet.tidy⟩, rfl⟩
  have body := captureBody_conduct proper staging tending start
  rw [runCapture, captureWith]
  cases ran : captureBody C paths (host.start members) with
  | ok result t =>
      obtain ⟨finalized, unmanned, delivered⟩ := body.of_ok ran
      show Ending C K paths host.world _ result.hasFinalizedBundle (C.writer.close t.writer).2
      rw [finalized, staging.closed _ unmanned]
      exact .delivered delivered
  | error result t =>
      have finalized := (captureBody_declines _).of_error ran
      show Ending C K paths host.world _ result.hasFinalizedBundle (C.writer.close t.writer).2
      rw [finalized]
      cases body.of_error ran with
      | inl h =>
          rw [staging.closed _ h.unmanned]
          exact .vacant h.runs h.tidy
      | inr h =>
          rw [tending.releases.closes]
          exact .notOpened h

theorem Ending.of_finalized {w u : World} {s : TransactionState δ κ μ} {finalized : Bool}
    (h : Ending C K paths w s finalized u) (done : finalized = true) : Delivered K paths w u := by
  cases h with
  | delivered h => exact h
  | vacant => cases done
  | notOpened => cases done

theorem Ending.runs {w u : World} {s : TransactionState δ κ μ} {finalized : Bool}
    (h : Ending C K paths w s finalized u) : Runs (paths.Conducts K) w u := by
  cases h with
  | delivered h => exact h.runs
  | vacant runs => exact runs
  | notOpened h =>
      have closed := h.conduct.tended.closedWorld.1
      exact h.conduct.runs.trans (closed.mono fun _ _ e => .image e)

end Endings

end PhylaRam
