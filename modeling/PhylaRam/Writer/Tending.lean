import PhylaRam.Writer.Staging

/-!
# The staging file in the hands of its writer

`Tended` says more than `Staged`: a handle of the writer is the one of an existing file that is
open, a writer without a handle has left nothing open, and the writer changes only files whose
creator `K` admits. The RAW writer creates its file, so its files are the ones of this program;
the other two open whatever they find under the name.
-/

namespace PhylaRam

open Program

variable {K : Creator → Prop} {path : WString}

/-- The effects of a writer on its file: it creates it under a free name, or the file is there
and `K` admits its creator. -/
inductive Tends (K : Creator → Prop) (path : WString) : Files → Effect → Prop
  | create {files : Files} (free : files path = none) : Tends K path files (.create path)
  | truncate {files : Files} {node : FileNode} (present : files path = some node)
      (mine : K node.creator) : Tends K path files (.truncate path)
  | touches {files : Files} {node : FileNode} {e : Effect} (present : files path = some node)
      (mine : K node.creator) (h : Touches path files e) : Tends K path files e
  | close {files : Files} {node : FileNode} (present : files path = some node)
      (mine : K node.creator) : Tends K path files (.close path)
  | delete {files : Files} {node : FileNode} (present : files path = some node)
      (mine : K node.creator) : Tends K path files (.delete path)

theorem Tends.toLocal {files : Files} {e : Effect} (h : Tends K path files e) :
    Local path files e := by
  cases h with
  | create => exact .create _
  | truncate => exact .truncate _
  | touches present mine h => exact .touches h
  | close => exact .close _
  | delete => exact .delete _

/-! ### Open files -/

/-- The file is there and open, and `K` admits its creator. -/
def OpenFile (K : Creator → Prop) (path : WString) (files : Files) : Prop :=
  ∃ node, files path = some node ∧ node.opened = true ∧ K node.creator

/-- The file, if there is one, is not open. -/
def IdleFile (path : WString) (files : Files) : Prop :=
  ∀ node, files path = some node → node.opened = false

section Files

variable {files : Files} {e : Effect} {oracle : Nat → Choice} {w u : World}

theorem OpenFile.intrusion (h : OpenFile K path files) (theirs : Intrusion oracle files e) :
    OpenFile K path (e.apply files) := by
  obtain ⟨node, present, opened, mine⟩ := h
  exact ⟨node, theirs.apply_of_some present, opened, mine⟩

theorem IdleFile.intrusion (h : IdleFile path files) (theirs : Intrusion oracle files e) :
    IdleFile path (e.apply files) := by
  obtain ⟨other, content, rfl, free, -⟩ := theirs
  intro node present
  by_cases same : path = other
  · subst same
    rw [Effect.apply, Function.update_self] at present
    cases present
    rfl
  · rw [Effect.apply, Function.update_of_ne same] at present
    exact h node present

/-- Using an open file leaves it open. -/
theorem Runs.tends (h : Runs (Touches path) w u) (opened : OpenFile K path w.files.now) :
    Runs (Tends K path) w u ∧ OpenFile K path u.files.now := by
  refine h.under ?_ (fun _ _ opened theirs => opened.intrusion theirs) opened
  rintro files e ⟨node, present, opened, mine⟩ touches
  obtain ⟨node', present', creator, same⟩ := touches.self present
  exact ⟨⟨node', present', same.trans opened, creator.symm ▸ mine⟩, .touches present mine touches⟩

theorem OpenFile.waits (opened : OpenFile K path w.files.now) (runs : Waits w u) :
    OpenFile K path u.files.now :=
  runs.preserves (fun _ _ _ no => no.elim) (fun _ _ h theirs => h.intrusion theirs) opened

theorem IdleFile.waits (idle : IdleFile path w.files.now) (runs : Waits w u) :
    IdleFile path u.files.now :=
  runs.preserves (fun _ _ _ no => no.elim) (fun _ _ h theirs => h.intrusion theirs) idle

/-- A file that has been closed. -/
theorem OpenFile.close (h : OpenFile K path w.files.now) :
    Runs (Tends K path) w (w.perform (.close path)) ∧
      IdleFile path (w.perform (.close path)).files.now ∧
      ∃ node, (w.perform (.close path)).files.now path = some node ∧ K node.creator := by
  obtain ⟨node, present, -, mine⟩ := h
  have closed := Files.modify_self (f := fun node => { node with opened := false }) present
  refine ⟨.effect .refl (.inl (.close present mine)), fun node' present' => ?_, _, closed, mine⟩
  obtain rfl := Option.some.inj (closed.symm.trans present')
  rfl

end Files

/-! ### Writers -/

section Writers

variable {μ : Type}

/-- The handle of the writer is the one of its open file. -/
structure InHand (K : Creator → Prop) (path : WString) (s : WriterState μ × World) : Prop where
  held : ∀ file, s.1.file = some file → file.path = path ∧ OpenFile K path s.2.files.now
  idle : s.1.file = none → IdleFile path s.2.files.now

theorem InHand.waits {s : WriterState μ × World} {u : World} (h : InHand K path s)
    (runs : Waits s.2 u) : InHand K path (s.1, u) where
  held file opened := ⟨(h.held file opened).1, (h.held file opened).2.waits runs⟩
  idle unmanned := (h.idle unmanned).waits runs

/-- The writer has acted on its own file only, and its handle is in order. -/
structure Tended (K : Creator → Prop) (path : WString) (w : World) (s : WriterState μ × World) :
    Prop extends InHand K path s where
  runs : Runs (Tends K path) w s.2

variable {w : World} {s : WriterState μ × World}

theorem InHand.of_none (none : s.1.file = none) (idle : IdleFile path s.2.files.now) :
    InHand K path s where
  held file opened := by cases none.symm.trans opened
  idle _ := idle

theorem InHand.of_some {file : Handle} (opened : s.1.file = some file) (own : file.path = path)
    (open' : OpenFile K path s.2.files.now) : InHand K path s where
  held other same := by
    obtain rfl := Option.some.inj (opened.symm.trans same)
    exact ⟨own, open'⟩
  idle none := by cases none.symm.trans opened

/-- Closing the handle, if there is one. -/
theorem Tended.closedWorld (h : Tended K path w s) :
    Runs (Tends K path) w (closedWorld s) ∧ IdleFile path (closedWorld s).files.now := by
  cases opened : s.1.file with
  | none =>
      rw [closedWorld_of_none opened]
      exact ⟨h.runs, h.idle opened⟩
  | some file =>
      obtain ⟨rfl, open'⟩ := h.held file opened
      rw [closedWorld_of_some opened]
      exact ⟨h.runs.trans open'.close.1, open'.close.2.1⟩

/-- An invariant of the three writers. Only `CREATE_ALWAYS` opens the file of another process. -/
theorem tended_opening {disposition : CreationDisposition} (own : K .capture)
    (others : disposition = .createAlways → ∀ creator, K creator) :
    Opening path disposition (Tended (μ := μ) K path w) where
  settle _ same h :=
    ⟨⟨fun file opened => h.held file (same.symm.trans opened),
      fun none => h.idle (same.symm.trans none)⟩, h.runs⟩
  waits runs h := ⟨h.toInHand.waits runs, h.runs.trans runs.runs⟩
  uses opened same runs h := by
    obtain ⟨rfl, open'⟩ := h.held _ opened
    obtain ⟨tends, open'⟩ := runs.tends open'
    exact ⟨.of_some rfl same open', h.runs.trans tends⟩
  closes h := ⟨.of_none rfl h.closedWorld.2, h.closedWorld.1⟩
  opens {s} h := by
    cases opened : s.1.file with
    | none =>
        have idle := (h.idle opened).waits s.2.enter_runs
        have runs := h.runs.trans (s.2.enter_runs (A := Tends K path))
        rw [closedWorld_of_none opened]
        rcases createFileW_cases path disposition s.2 with ⟨error, created, -⟩ |
          ⟨-, free, created⟩ | ⟨-, always, node, present, -, created⟩ <;> rw [created]
        · exact ⟨.of_none rfl idle, World.setLastError_runs runs error⟩
        · have fresh : OpenFile K path (s.2.enter.perform (.create path)).files.now :=
            ⟨_, Function.update_self _ _ _, rfl, own⟩
          exact ⟨.of_some rfl rfl fresh, .effect runs (.inl (.create free))⟩
        · have mine := others always node.creator
          have emptied : OpenFile K path (s.2.enter.perform (.truncate path)).files.now :=
            ⟨_, Files.modify_self present, rfl, mine⟩
          exact ⟨.of_some rfl rfl emptied,
            World.setLastError_runs (.effect runs (.inl (.truncate present mine))) _⟩
    | some file =>
        obtain ⟨rfl, node, present, locked, mine⟩ := h.held file opened
        have present' := World.enter_of_some present
        rcases createFileW_cases file.path disposition s.2 with ⟨error, created, -⟩ |
          ⟨-, free, -⟩ | ⟨-, -, node', found, closed, -⟩
        · have failed : Tended K file.path w (s.1, s.2.enter.setLastError error) :=
            ⟨.of_some opened rfl ⟨node, present', locked, mine⟩,
              h.runs.trans (s.2.failed_runs error)⟩
          rw [created]
          exact ⟨.of_none rfl failed.closedWorld.2, failed.closedWorld.1⟩
        · cases free.symm.trans present'
        · obtain rfl := Option.some.inj (found.symm.trans present')
          cases closed.symm.trans locked
  discards {s} file writer opened none h := by
    obtain ⟨rfl, open'⟩ := h.held file opened
    obtain ⟨runs, idle, node, present, mine⟩ := open'.close
    rw [closedWorld_of_some opened]
    have runs := h.runs.trans runs
    rcases deleteFileW_cases file.path (s.2.perform (.close file.path)) with
      ⟨error, deleted, -⟩ | ⟨-, -, -, deleted⟩ <;> rw [deleted]
    · exact ⟨.of_none none (idle.waits (World.failed_runs _ _)), runs.trans (World.failed_runs _ _)⟩
    · have present := World.enter_of_some present
      refine ⟨.of_none none fun node' present' => ?_,
        .effect (runs.trans (World.enter_runs _)) (.inl (.delete present mine))⟩
      rw [World.perform_files, Effect.apply, Function.update_self] at present'
      cases present'

/-- The staging file is there, and `K` admits its creator. -/
def Present (K : Creator → Prop) (path : WString) (s : WriterState μ × World) : Prop :=
  ∃ node, s.2.files.now path = some node ∧ K node.creator

theorem Tended.present (h : Tended K path w s) (manned : Manned s) : Present K path s := by
  obtain ⟨file, opened⟩ := Option.isSome_iff_exists.mp manned
  obtain ⟨-, node, present, -, mine⟩ := h.held file opened
  exact ⟨node, present, mine⟩

/-- Only a deletion makes the file disappear. -/
theorem present_closing : Closing (Present (μ := μ) K path) where
  settle _ _ h := h
  waits runs := by
    rintro ⟨node, present, mine⟩
    have stays := runs.preserves (P := fun files => files path = some node)
      (fun _ _ _ no => no.elim) (fun _ _ present theirs => theirs.apply_of_some present) present
    exact ⟨node, stays, mine⟩
  uses {s} file _ _ _ _ runs := by
    refine runs.preserves (P := fun files => ∃ node, files path = some node ∧ K node.creator)
      ?_ ?_
    · rintro files e ⟨node, present, mine⟩ touches
      by_cases same : path = file.path
      · subst same
        obtain ⟨node', present', creator, -⟩ := touches.self present
        exact ⟨node', present', creator.symm ▸ mine⟩
      · exact ⟨node, (touches.other same).trans present, mine⟩
    · rintro files e ⟨node, present, mine⟩ theirs
      exact ⟨node, theirs.apply_of_some present, mine⟩
  closes {s} := by
    rintro ⟨node, present, mine⟩
    cases opened : s.1.file with
    | none =>
        rw [closedWorld_of_none opened]
        exact ⟨node, present, mine⟩
    | some file =>
        rw [closedWorld_of_some opened]
        by_cases same : path = file.path
        · subst same
          exact ⟨_, Files.modify_self present, mine⟩
        · exact ⟨node, (Files.modify_of_ne same).trans present, mine⟩

/-- What the transaction relies on besides `Staging`. -/
structure Tending (W : IRawWriter (WriterState μ × World)) (K : Creator → Prop) : Prop where
  obeys : ∀ path w, Obeys W path (Tended K path w)
  opened : ∀ path logicalSize expected w s, Tended K path w s →
    (W.preflightAndOpen path logicalSize expected s).1 = true →
      Present K path (W.preflightAndOpen path logicalSize expected s).2
  written : ∀ path offset data s, Present K path s → Present K path (W.writeAt offset data s).2
  flushed : ∀ path s, Present K path s → Present K path (W.flushAndClose s).2
  closed : ∀ path s, Present K path s → Present K path (W.close s)
  releases : Releases W

end Writers

/-- The files that this program has created. -/
def ByCapture (creator : Creator) : Prop := creator = .capture

/-- Any files. -/
def ByAnyone (_ : Creator) : Prop := True

section Formats

variable {w : World}

theorem created_opening {μ : Type} : Opening path .createNew (Tended (μ := μ) ByCapture path w) :=
  tended_opening rfl nofun

theorem found_opening {μ : Type} : Opening path .createAlways (Tended (μ := μ) ByAnyone path w) :=
  tended_opening trivial fun _ _ => trivial

/-- The RAW writer has files of this program only. -/
theorem rawWriter_tending : Tending rawWriter ByCapture where
  obeys _ _ := rawWriter_obeys created_opening
  opened _ _ _ _ _ h ok := by
    obtain ⟨_, _, tended, manned⟩ :=
      (RawWriter.preflightAndOpen_wp created_opening _ _ h).of_returned ok
    exact tended.present manned
  written _ _ _ _ h := (RawWriter.writeAt_keeps present_closing.toUsage _ _).final h
  flushed _ _ h := (RawWriter.flushAndClose_keeps present_closing).final h
  closed _ _ h := (RawWriter.close_keeps present_closing).final h
  releases := rawWriter_releases

theorem zdmpWriter_tending : Tending zdmpWriter ByAnyone where
  obeys _ _ := zdmpWriter_obeys found_opening
  opened _ _ _ _ _ h ok := by
    obtain ⟨_, _, tended, manned⟩ :=
      (ZdmpWriter.preflightAndOpen_wp found_opening _ _ h).of_returned ok
    exact tended.present manned
  written _ _ _ _ h := (ZdmpWriter.writeAt_keeps present_closing.toUsage _ _).final h
  flushed _ _ h := (ZdmpWriter.flushAndClose_keeps present_closing).final h
  closed _ _ h := (ZdmpWriter.close_keeps present_closing).final h
  releases := zdmpWriter_releases

theorem e01Writer_tending : Tending e01Writer ByAnyone where
  obeys _ _ := e01Writer_obeys found_opening
  opened _ _ _ _ _ h ok := by
    obtain ⟨_, _, tended, manned⟩ :=
      (E01Writer.preflightAndOpen_wp found_opening _ _ h).of_returned ok
    exact tended.present manned
  written _ _ _ _ h := (E01Writer.writeAt_keeps present_closing.toUsage _ _).final h
  flushed _ _ h := (E01Writer.flushAndClose_keeps present_closing).final h
  closed _ _ h := (E01Writer.close_keeps present_closing).final h
  releases := e01Writer_releases

end Formats

/-! ### A file that is not there -/

section Absent

variable {w u : World}

/-- Where no other process acts, waiting changes nothing. -/
theorem Waits.files_eq (runs : Waits w u) (alone : w.Solitary) : u.files.now = w.files.now :=
  runs.preserves (P := fun files => files = w.files.now) (fun _ _ _ no => no.elim)
    (fun _ _ _ theirs => (theirs.not_solitary alone).elim) rfl

theorem deleteFileW_removes (deletions : w.DeletionsSucceed) (idle : IdleFile path w.files.now) :
    (deleteFileW path w).2.files.now path = none := by
  rcases deleteFileW_cases path w with ⟨error, deleted, cause⟩ | ⟨-, -, -, deleted⟩ <;> rw [deleted]
  · rcases cause with failed | absent | ⟨node, present, locked⟩
    · cases (deletions w.tick).symm.trans failed
    · exact absent
    · cases ((idle.waits w.enter_runs) node present).symm.trans locked
  · exact Function.update_self _ _ _

/-- A file that could not be opened was not created. -/
theorem createFileW_waits {disposition : CreationDisposition}
    (failed : ¬(createFileW path disposition w).1.isSome = true) :
    Waits w (createFileW path disposition w).2 := by
  rcases createFileW_cases path disposition w with ⟨error, h, -⟩ | ⟨-, -, h⟩ | ⟨-, -, _, -, -, h⟩ <;>
    rw [h] at failed ⊢
  · exact w.failed_runs error
  · exact (failed rfl).elim
  · exact (failed rfl).elim

variable {μ : Type} {s : WriterState μ × World}

theorem tended_discards (deletions : w.DeletionsSucceed) :
    Discards (μ := μ) path (Tended K path w) fun t => t.2.files.now path = none := by
  intro s file writer _ _ h
  obtain ⟨runs, idle⟩ := h.closedWorld
  exact deleteFileW_removes (runs.deletionsSucceed deletions) idle

/-- What `PreflightAndOpen` of the ZDMP and the E01 writer leave when they fail: the file, once it
has been created. -/
theorem openStaging_leaves {x : WriterM μ Unit} (alone : s.2.Solitary)
    (unmanned : s.1.file = none) (absent : s.2.files.now path = none)
    (keeps : Keeps (fun t => Tended ByAnyone path s.2 t ∧ Manned t) x) :
    WP (do
      (do
        let file ← win32 (createFileW path .createAlways)
        resetFile file
        if file.isSome then pure () else refuseWithLastError : WriterM μ Unit)
      x) (fun _ _ => True)
      (fun _ t => t.2.files.now path = none ↔
        ¬(createFileW path .createAlways s.2).1.isSome = true) s := by
  have idle : IdleFile path s.2.files.now := fun node present => by cases absent.symm.trans present
  have start : Tended ByAnyone path s.2 s := ⟨.of_none unmanned idle, .refl⟩
  rw [WP.bind_iff, openStaging_iff]
  refine ⟨fun created => ?_, fun failed => ?_⟩
  · refine (keeps _ ⟨found_opening.opens start, created⟩).mono (fun _ _ _ => trivial) fun _ t h => ?_
    obtain ⟨node, present, -⟩ := h.1.present h.2
    exact iff_of_false (fun no => by cases no.symm.trans present) (not_not_intro created)
  · rw [closedWorld_of_none unmanned]
    have same := (createFileW_waits failed).files_eq alone
    exact iff_of_true ((congrFun same path).trans absent) failed

theorem ZdmpWriter.preflightAndOpen_leaves {s : ZdmpWriter × World} (alone : s.2.Solitary)
    (unmanned : s.1.file = none) (absent : s.2.files.now path = none)
    (logicalSize expected : UInt64) :
    WP (preflightAndOpen path logicalSize expected) (fun _ _ => True)
      (fun _ t => t.2.files.now path = none ↔
        ¬(createFileW path .createAlways s.2).1.isSome = true) s := by
  rw [preflightAndOpen, WP.bind_iff, setMembers_wp]
  exact openStaging_leaves (s := (_, s.2)) alone unmanned absent
    (.bind .get fun _ => writeExactly_keeps found_opening.toUsage.manned _)

theorem E01Writer.preflightAndOpen_leaves {s : E01Writer × World} (alone : s.2.Solitary)
    (unmanned : s.1.file = none) (absent : s.2.files.now path = none)
    (logicalSize expected : UInt64) :
    WP (preflightAndOpen path logicalSize expected) (fun _ _ => True)
      (fun _ t => t.2.files.now path = none ↔
        ¬(createFileW path .createAlways s.2).1.isSome = true) s := by
  rw [preflightAndOpen, WP.bind_iff, setMembers_wp]
  exact openStaging_leaves (s := (_, s.2)) alone unmanned absent
    (writePreamble_keeps found_opening.toUsage.manned)

/-- The RAW writer before its staging file is created. -/
structure Unopened (path : WString) (s : RawWriter × World) : Prop where
  alone : s.2.Solitary
  deletions : s.2.DeletionsSucceed
  unmanned : s.1.file = none
  absent : s.2.files.now path = none

theorem unopened_usage : Usage (Unopened path) where
  settle _ same h := ⟨h.alone, h.deletions, same.trans h.unmanned, h.absent⟩
  waits runs h := ⟨runs.solitary h.alone, runs.deletionsSucceed h.deletions, h.unmanned,
    (congrFun (runs.files_eq h.alone) path).trans h.absent⟩
  uses opened _ _ h := by cases h.unmanned.symm.trans opened

/-- The RAW writer leaves no staging file behind when it fails. -/
theorem RawWriter.preflightAndOpen_removes {s : RawWriter × World} (h : Unopened path s)
    (logicalSize expected : UInt64) :
    WP (preflightAndOpen path logicalSize expected) (fun _ _ => True)
      (fun _ t => t.2.files.now path = none) s := by
  have closed : Unopened path (⟨none, errorSuccess, {}⟩, closedWorld s) := by
    rw [closedWorld_of_none h.unmanned]
    exact ⟨h.alone, h.deletions, rfl, h.absent⟩
  rw [preflightAndOpen, WP.bind_iff, close, WP.bind_iff, resetFile_wp, setMembers_wp, WP.bind_iff,
    WP.modify_iff, WP.ite_iff]
  refine ⟨fun _ => closed.absent, fun _ => ?_⟩
  rw [WP.bind_iff]
  refine (findVolume_keeps unopened_usage _ closed).mono (fun _ t h => ?_) fun _ _ h => h.absent
  rw [WP.bind_iff]
  refine (checkVolume_keeps unopened_usage _ _ _ _ h).mono (fun _ t h => ?_) fun _ _ h => h.absent
  have idle : IdleFile path t.2.files.now := fun node present => by
    cases h.absent.symm.trans present
  have start : Tended ByCapture path t.2 t := ⟨.of_none h.unmanned idle, .refl⟩
  have usage : Usage fun u : RawWriter × World => Tended ByCapture path t.2 u :=
    created_opening.toUsage
  have discards : Discards path (Tended ByCapture path t.2) fun u : RawWriter × World =>
      u.2.files.now path = none := tended_discards h.deletions
  rw [WP.bind_iff, createStaging, openStaging_iff]
  refine ⟨fun created => ?_, fun failed => ?_⟩
  · rw [WP.bind_iff]
    exact (makeSparse_wp usage discards _ ⟨created_opening.opens start, created⟩).mono
      (fun _ _ h => (setSize_wp usage discards _ h).mono (fun _ _ _ => trivial) fun _ _ h => h)
      fun _ _ h => h
  · rw [closedWorld_of_none h.unmanned]
    exact (congrFun ((createFileW_waits failed).files_eq h.alone) path).trans h.absent

end Absent

end PhylaRam
