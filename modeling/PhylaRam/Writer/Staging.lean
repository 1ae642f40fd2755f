import PhylaRam.Writer.E01
import PhylaRam.Writer.Raw
import PhylaRam.Writer.Zdmp

/-!
# An image writer touches its staging file only

An invariant of a writer and its world needs a few closure properties, which `Opening` collects,
and all methods of the three writers keep it. One such invariant is that only the staging file is
touched. `Staging` collects what the transaction relies on, whatever the format: the calls of a
writer act on the file of the name it was opened with, a successful `FlushAndClose` gives up the
handle, and a writer without a handle has nothing to close. All three writers satisfy it.
-/

namespace PhylaRam

open Program

/-- The effects that concern one name and rename nothing. -/
inductive Local (path : WString) : Files → Effect → Prop
  | create (files : Files) : Local path files (.create path)
  | truncate (files : Files) : Local path files (.truncate path)
  | touches {files : Files} {e : Effect} (h : Touches path files e) : Local path files e
  | close (files : Files) : Local path files (.close path)
  | delete (files : Files) : Local path files (.delete path)

theorem Local.other {path other : WString} {files : Files} {e : Effect} (h : Local path files e)
    (ne : other ≠ path) : e.apply files other = files other := by
  cases h with
  | create => exact Function.update_of_ne ne _ _
  | truncate => exact Files.modify_of_ne ne
  | touches h => exact h.other ne
  | close => exact Files.modify_of_ne ne
  | delete => exact Function.update_of_ne ne _ _

/-- A file of another name stays as it is. -/
theorem Runs.local_other {path other : WString} {w u : World} (h : Runs (Local path) w u)
    (ne : other ≠ path) {node : FileNode} (present : w.files.now other = some node) :
    u.files.now other = some node := by
  refine h.preserves (P := fun files => files other = some node) ?_ ?_ present
  · intro files e present within
    rw [within.other ne, present]
  · intro files e present intrusion
    exact intrusion.apply_of_some present

/-! ### Calls -/

section Calls

variable {path : WString} {w : World}

theorem createFileW_local (disposition : CreationDisposition) :
    Runs (Local path) w (createFileW path disposition w).2 ∧
      ∀ file, (createFileW path disposition w).1 = some file → file.path = path := by
  rcases createFileW_cases path disposition w with
    ⟨error, h, -⟩ | ⟨-, -, h⟩ | ⟨-, -, node, -, -, h⟩ <;> rw [h]
  · exact ⟨w.failed_runs error, fun file no => by cases no⟩
  · refine ⟨.effect w.enter_runs (.inl (.create _)), fun file same => ?_⟩
    cases same
    rfl
  · refine ⟨World.setLastError_runs (.effect w.enter_runs (.inl (.truncate _))) _,
      fun file same => ?_⟩
    cases same
    rfl

theorem deleteFileW_local : Runs (Local path) w (deleteFileW path w).2 := by
  rcases deleteFileW_cases path w with ⟨error, h, -⟩ | ⟨node, -, -, h⟩ <;> rw [h]
  · exact w.failed_runs error
  · exact .effect w.enter_runs (.inl (.delete _))

theorem askEnvironment_waits {α : Type} (answer : Choice → α) :
    Waits w (askEnvironment answer w).2 := by
  rcases askEnvironment_cases answer w with ⟨error, h⟩ | h <;> rw [h]
  · exact w.failed_runs error
  · exact w.enter_runs

theorem closeHandle_local (file : Handle) (own : file.path = path) :
    Runs (Local path) w (closeHandle file w) :=
  .effect .refl (.inl (own ▸ .close _))

end Calls

/-! ### Methods -/

section Methods

variable {μ α : Type}

/-- What holds of a writer while it uses the handle it has. -/
structure Usage (P : WriterState μ × World → Prop) : Prop where
  settle : ∀ {s : WriterState μ × World} (writer : WriterState μ), writer.file = s.1.file →
    P s → P (writer, s.2)
  waits : ∀ {s : WriterState μ × World} {u : World}, Waits s.2 u → P s → P (s.1, u)
  uses : ∀ {s : WriterState μ × World} {file moved : Handle} {u : World},
    s.1.file = some file → moved.path = file.path → Runs (Touches file.path) s.2 u →
      P s → P ({ s.1 with file := some moved }, u)

/-- What holds also when it gives up the handle. -/
structure Closing (P : WriterState μ × World → Prop) : Prop extends Usage P where
  closes : ∀ {s : WriterState μ × World}, P s → P ({ s.1 with file := none }, closedWorld s)

/-- From `P` to `Q` by closing the staging file and deleting it. -/
def Discards (path : WString) (P Q : WriterState μ × World → Prop) : Prop :=
  ∀ ⦃s : WriterState μ × World⦄ ⦃file : Handle⦄ (writer : WriterState μ), s.1.file = some file →
    writer.file = none → P s → Q (writer, (deleteFileW path (closedWorld s)).2)

/-- What holds also when it opens its staging file, or closes and deletes it again. -/
structure Opening (path : WString) (disposition : CreationDisposition)
    (P : WriterState μ × World → Prop) : Prop extends Closing P where
  opens : ∀ {s : WriterState μ × World}, P s →
    P ({ s.1 with file := (createFileW path disposition s.2).1 },
      closedWorld (s.1, (createFileW path disposition s.2).2))
  discards : Discards path P P

/-- The writer has a handle. -/
def Manned (s : WriterState μ × World) : Prop := s.1.file.isSome = true

/-- Using the handle does not give it up. -/
theorem Usage.manned {P : WriterState μ × World → Prop} (usage : Usage P) :
    Usage fun s => P s ∧ Manned s where
  settle writer same h := ⟨usage.settle writer same h.1, (congrArg Option.isSome same).trans h.2⟩
  waits runs h := ⟨usage.waits runs h.1, h.2⟩
  uses opened own runs h := ⟨usage.uses opened own runs h.1, rfl⟩

section Uses

variable {P : WriterState μ × World → Prop} (usage : Usage P)

include usage

theorem win32_keeps {call : World → α × World} (within : ∀ u, Waits u (call u).2) :
    Keeps P (win32 call : WriterM μ α) :=
  .modifyGet fun s h => usage.waits (within s.2) h

theorem refuse_keeps (error : UInt32) : Keeps P (refuse error : WriterM μ α) :=
  .bind (.modify fun _ h => usage.settle _ rfl h) fun _ => .throw _

theorem refuseWithLastError_keeps : Keeps P (refuseWithLastError : WriterM μ α) :=
  .bind (.modify fun _ h => usage.settle _ rfl h) fun _ => .throw _

theorem setMembers_keeps (f : μ → μ) : Keeps P (setMembers f) :=
  .modify fun _ h => usage.settle _ rfl h

/-- A call on the handle does not stop the method. -/
theorem onFile_using {failed : α} {call : Handle → World → (α × Handle) × World}
    (within : ∀ file u, Runs (Touches file.path) u (call file u).2 ∧
      (call file u).1.2.path = file.path) {s : WriterState μ × World} (h : P s)
    {stop : Unit → WriterState μ × World → Prop} :
    WP (onFile failed call) (fun _ t => P t) stop s := by
  rw [onFile, WP.modifyGet_iff]
  cases opened : s.1.file with
  | none =>
      have silent : Waits s.2 (s.2.setLastError errorInvalidHandle) := .silent .refl rfl rfl
      exact usage.waits silent h
  | some file =>
      obtain ⟨runs, same⟩ := within file s.2
      exact usage.uses opened same runs h

theorem onFile_keeps {failed : α} {call : Handle → World → (α × Handle) × World}
    (within : ∀ file u, Runs (Touches file.path) u (call file u).2 ∧
      (call file u).1.2.path = file.path) :
    Keeps P (onFile failed call : WriterM μ α) := fun _ h => onFile_using usage within h

theorem seekFile_using (offset : UInt64) {s : WriterState μ × World} (h : P s)
    {stop : Unit → WriterState μ × World → Prop} :
    WP (seekFile offset) (fun _ t => P t) stop s := by
  refine onFile_using usage (fun file u => ?_) h
  rcases setFilePointerEx_cases file offset u with ⟨error, h⟩ | h <;> rw [h]
  · exact ⟨u.failed_runs error, rfl⟩
  · exact ⟨u.enter_runs, rfl⟩

theorem seekFile_keeps (offset : UInt64) : Keeps P (seekFile offset : WriterM μ Bool) :=
  fun _ h => seekFile_using usage offset h

theorem endFile_using {s : WriterState μ × World} (h : P s)
    {stop : Unit → WriterState μ × World → Prop} : WP endFile (fun _ t => P t) stop s := by
  refine onFile_using usage (fun file u => ?_) h
  rcases setEndOfFile_cases file u with ⟨error, h⟩ | h <;> rw [h]
  · exact ⟨u.failed_runs error, rfl⟩
  · exact ⟨.effect u.enter_runs (.inl (.setEnd _ _)), rfl⟩

theorem flushFile_keeps : Keeps P (flushFile : WriterM μ Bool) := by
  refine onFile_keeps usage fun file u => ?_
  rcases flushFileBuffers_cases file u with ⟨error, h⟩ | h <;> rw [h]
  · exact ⟨u.failed_runs error, rfl⟩
  · exact ⟨.effect u.enter_runs (.inl (.flush _)), rfl⟩

theorem writeOnce_keeps (data : List Byte) : Keeps P (writeOnce data : WriterM μ (Option Nat)) := by
  refine onFile_keeps usage fun file u => ?_
  rcases writeFile_cases file data u with ⟨error, -, h⟩ | ⟨-, -, h⟩ | ⟨-, -, h⟩ <;> rw [h]
  · exact ⟨u.failed_runs error, rfl⟩
  · exact ⟨u.enter_runs, rfl⟩
  · exact ⟨.effect u.enter_runs (.inl (.write _ _ _)), rfl⟩

theorem writeExactly_keeps (data : List Byte) : Keeps P (writeExactly data : WriterM μ Unit) :=
  .bind (writeOnce_keeps usage data) fun _ =>
    .ite (fun _ => .pure _) fun _ => refuseWithLastError_keeps usage

/-- A loop of writes on the handle. -/
theorem writeLoop_keeps (chunkBytes : Nat) (data : List Byte) :
    Keeps P (onFile false fun file => writeLoop chunkBytes file data : WriterM μ Bool) := by
  refine onFile_keeps usage fun file u => ?_
  have loop := writeLoop_spec chunkBytes file data u
  exact ⟨loop.runs, loop.path⟩

end Uses

theorem resetFile_keeps {P : WriterState μ × World → Prop} (closing : Closing P) :
    Keeps P (resetFile none : WriterM μ Unit) := .modify fun _ h => closing.closes h

/-- `file_.Reset(CreateFileW(..))`: a method goes on with a handle only. -/
theorem openStaging_iff {path : WString} {disposition : CreationDisposition}
    {s : WriterState μ × World} {post stop : Unit → WriterState μ × World → Prop} :
    WP (do
      let file ← win32 (createFileW path disposition)
      resetFile file
      if file.isSome then pure () else refuseWithLastError : WriterM μ Unit) post stop s ↔
      ((createFileW path disposition s.2).1.isSome = true →
        post () ({ s.1 with file := (createFileW path disposition s.2).1 },
          closedWorld (s.1, (createFileW path disposition s.2).2))) ∧
      (¬(createFileW path disposition s.2).1.isSome = true →
        stop () ({ s.1 with
            file := (createFileW path disposition s.2).1
            lastError := (closedWorld (s.1, (createFileW path disposition s.2).2)).lastError },
          closedWorld (s.1, (createFileW path disposition s.2).2))) := by
  rw [WP.bind_iff, win32_wp, WP.bind_iff, resetFile_wp, WP.ite_iff, WP.pure_iff,
    refuseWithLastError_wp]

theorem openStaging_wp {P : WriterState μ × World → Prop} {path : WString}
    {disposition : CreationDisposition} (opening : Opening path disposition P)
    {s : WriterState μ × World} (h : P s) :
    WP (do
      let file ← win32 (createFileW path disposition)
      resetFile file
      if file.isSome then pure () else refuseWithLastError : WriterM μ Unit)
      (fun _ t => P t ∧ Manned t) (fun _ t => P t) s := by
  have opened := opening.opens h
  have failed := opening.settle { s.1 with
    file := (createFileW path disposition s.2).1
    lastError := (closedWorld (s.1, (createFileW path disposition s.2).2)).lastError } rfl opened
  exact openStaging_iff.mpr ⟨fun some => ⟨opened, some⟩, fun _ => failed⟩

end Methods

/-! ### Writers -/

section Writers

variable {path : WString}

section Raw

variable {P : RawWriter × World → Prop}

namespace RawWriter

theorem close_keeps (closing : Closing P) : Keeps P close :=
  .bind (resetFile_keeps closing) fun _ => setMembers_keeps closing.toUsage _

/-- A staging file that cannot be used is closed and deleted. -/
theorem discardStaging_wp {Q : RawWriter × World → Prop} (discards : Discards path P Q)
    {s : RawWriter × World} (h : P s) (manned : Manned s)
    {post : Unit → RawWriter × World → Prop} :
    WP (discardStaging path) post (fun _ t => Q t) s := by
  obtain ⟨file, opened⟩ := Option.isSome_iff_exists.mp manned
  simp only [discardStaging, close, WP.bind_iff, WP.modify_iff, resetFile_wp, setMembers_wp,
    win32_wp, WP.throw_iff]
  exact discards (s := s) { s.1 with file := none, lastError := s.2.lastError, members := {} }
    opened rfl h

theorem resolveVolumeRoot_waits (u : World) : Waits u (resolveVolumeRoot path u).2 := by
  rw [resolveVolumeRoot]
  split
  · split
    · exact .refl
    · dsimp only
      split
      · split
        · exact .refl
        · exact .refl
      · split
        · exact .refl
        · exact .refl
  · exact askEnvironment_waits _

theorem findVolume_keeps (usage : Usage P) : Keeps P (findVolume path) := by
  refine .bind (win32_keeps usage fun u => resolveVolumeRoot_waits u) fun answer => ?_
  cases answer with
  | some volumeRoot => exact .pure _
  | none => exact .bind .get fun _ => refuse_keeps usage _

theorem checkVolume_keeps (usage : Usage P) (volumeRoot : WString)
    (logicalSize expectedPhysicalBytes : UInt64) :
    Keeps P (checkVolume volumeRoot logicalSize expectedPhysicalBytes) := by
  refine .bind (win32_keeps usage fun _ => askEnvironment_waits _) fun answer => ?_
  cases answer with
  | none => exact refuseWithLastError_keeps usage
  | some volume =>
      dsimp only
      split
      · exact refuse_keeps usage _
      · generalize (if (volume.1 &&& fileSupportsSparseFiles != 0) = true then
          expectedPhysicalBytes else logicalSize) = payloadBytes
        split
        · exact refuse_keeps usage _
        refine .bind (win32_keeps usage fun _ => askEnvironment_waits _) fun free => ?_
        cases free with
        | none => exact refuseWithLastError_keeps usage
        | some freeBytes =>
            dsimp only
            split
            · exact refuse_keeps usage _
            · exact .pure _

section Discards

variable {Q : RawWriter × World → Prop} (usage : Usage P) (discards : Discards path P Q)
  {s : RawWriter × World}

include usage discards

theorem makeSparse_wp (supportsSparse : Bool) (h : P s ∧ Manned s) :
    WP (makeSparse path supportsSparse) (fun _ t => P t ∧ Manned t) (fun _ t => Q t) s := by
  rw [makeSparse, WP.ite_iff]
  refine ⟨fun _ => ?_, fun _ => h⟩
  rw [WP.bind_iff]
  refine (onFile_using usage.manned (fun _ _ => ⟨(askEnvironment_waits _).runs, rfl⟩) h).mono
    (fun done t h => ?_) fun _ _ h => h
  rw [WP.ite_iff]
  exact ⟨fun _ => usage.manned.settle _ rfl h, fun _ => discardStaging_wp discards h.1 h.2⟩

theorem setSize_wp (logicalSize : UInt64) (h : P s ∧ Manned s) :
    WP (setSize path logicalSize) (fun _ t => P t ∧ Manned t) (fun _ t => Q t) s := by
  have ends (ended : Bool) {t : RawWriter × World} (h : P t ∧ Manned t) :
      WP (if ended then setMembers fun m : RawMembers => { m with logicalSize := logicalSize }
        else discardStaging path) (fun _ t => P t ∧ Manned t) (fun _ t => Q t) t :=
    WP.ite_iff.mpr
      ⟨fun _ => usage.manned.settle _ rfl h, fun _ => discardStaging_wp discards h.1 h.2⟩
  rw [setSize, WP.bind_iff]
  refine (seekFile_using usage.manned _ h).mono (fun moved t h => ?_) fun _ _ h => h
  dsimp only
  rw [WP.ite_iff]
  refine ⟨fun _ => ?_, fun _ => ends false h⟩
  rw [WP.bind_iff]
  exact (endFile_using usage.manned h).mono (fun ended _ h => ends ended h) fun _ _ h => h

end Discards

/-- The writer has a handle where `PreflightAndOpen` succeeds. -/
theorem preflightAndOpen_wp (opening : Opening path .createNew P) (logicalSize expected : UInt64)
    {s : RawWriter × World} (h : P s) :
    WP (preflightAndOpen path logicalSize expected) (fun _ t => P t ∧ Manned t) (fun _ t => P t)
      s := by
  have usage := opening.toUsage
  rw [preflightAndOpen, WP.bind_iff]
  refine (close_keeps opening.toClosing _ h).mono (fun _ t h => ?_) fun _ _ h => h
  rw [WP.bind_iff, WP.modify_iff, WP.ite_iff]
  have started : P ({ t.1 with lastError := errorSuccess }, t.2) := opening.settle _ rfl h
  refine ⟨fun _ => usage.settle _ rfl started, fun _ => ?_⟩
  rw [WP.bind_iff]
  refine (findVolume_keeps usage _ started).mono (fun _ _ h => ?_) fun _ _ h => h
  rw [WP.bind_iff]
  refine (checkVolume_keeps usage _ _ _ _ h).mono (fun _ _ h => ?_) fun _ _ h => h
  rw [WP.bind_iff]
  refine (openStaging_wp opening h).mono (fun _ _ h => ?_) fun _ _ h => h
  rw [WP.bind_iff]
  exact (makeSparse_wp usage opening.discards _ h).mono
    (fun _ _ h => setSize_wp usage opening.discards _ h) fun _ _ h => h

theorem writeAt_keeps (usage : Usage P) (offset : UInt64) (data : List Byte) :
    Keeps P (writeAt offset data) := by
  have ends (written : Bool) : Keeps P
      (if written then pure () else refuseWithLastError : WriterM RawMembers Unit) :=
    .ite (fun _ => .pure _) fun _ => refuseWithLastError_keeps usage
  exact .bind .get fun _ => .ite (fun _ => refuse_keeps usage _) fun _ =>
    .ite (fun _ => refuse_keeps usage _) fun _ => .bind (seekFile_keeps usage _) fun _ =>
      .ite (fun _ => .bind (writeLoop_keeps usage _ _) ends) fun _ => .bind (.pure _) ends

theorem release_keeps (closing : Closing P) : Keeps P release :=
  .bind (resetFile_keeps closing) fun _ => setMembers_keeps closing.toUsage _

theorem flushAndClose_keeps (closing : Closing P) : Keeps P flushAndClose :=
  .bind .get fun _ => .ite (fun _ => refuse_keeps closing.toUsage _) fun _ =>
    .bind (flushFile_keeps closing.toUsage) fun _ => .ite (fun _ => release_keeps closing) fun _ =>
      .bind (.modify fun _ h => closing.settle _ rfl h) fun _ =>
        .bind (release_keeps closing) fun _ => .throw _

end RawWriter

end Raw

section Zdmp

variable {P : ZdmpWriter × World → Prop}

namespace ZdmpWriter

theorem preflightAndOpen_wp (opening : Opening path .createAlways P)
    (logicalSize expected : UInt64) {s : ZdmpWriter × World} (h : P s) :
    WP (preflightAndOpen path logicalSize expected) (fun _ t => P t ∧ Manned t) (fun _ t => P t)
      s := by
  have sized : P ({ s.1 with members :=
      { s.1.members with totalPhysicalBytes := expected } }, s.2) := opening.settle _ rfl h
  rw [preflightAndOpen, WP.bind_iff, setMembers_wp, WP.bind_iff]
  refine (openStaging_wp opening sized).mono (fun _ t h => ?_) fun _ _ h => h
  rw [WP.bind_iff, WP.get_iff]
  exact (writeExactly_keeps opening.toUsage.manned _ _ h).mono (fun _ _ h => h) fun _ _ h => h.1

theorem writeAll_keeps (usage : Usage P) (data : List Byte) : Keeps P (writeAll data) := by
  induction data using writeAll.induct with
  | case1 =>
      rw [writeAll]
      exact .pure _
  | case2 data nonempty ih =>
      rw [writeAll, if_neg nonempty]
      exact .bind (writeExactly_keeps usage _) fun _ => ih

theorem writeAt_keeps (usage : Usage P) (offset : UInt64) (data : List Byte) :
    Keeps P (writeAt offset data) :=
  .bind .get fun _ => .ite (fun _ => .throw _) fun _ => .bind (seekFile_keeps usage _) fun _ =>
    .ite (fun _ => writeAll_keeps usage _) fun _ => refuseWithLastError_keeps usage

theorem close_keeps (closing : Closing P) : Keeps P close := resetFile_keeps closing

theorem flushAndClose_keeps (closing : Closing P) : Keeps P flushAndClose :=
  .bind .get fun _ => .ite (fun _ => .pure _) fun _ => .bind (flushFile_keeps closing.toUsage)
    fun _ => .ite (fun _ => close_keeps closing) fun _ =>
      .bind (.modify fun _ h => closing.settle _ rfl h) fun _ =>
        .bind (close_keeps closing) fun _ => .throw _

end ZdmpWriter

end Zdmp

section E01

variable {P : E01Writer × World → Prop}

namespace E01Writer

theorem emit_keeps (usage : Usage P) (data : List Byte) : Keeps P (emit data) :=
  .bind (writeExactly_keeps usage data) fun _ => setMembers_keeps usage _

theorem writeSection_keeps (usage : Usage P) (type : String) (data : List Byte) (size : UInt64) :
    Keeps P (writeSection type data size) :=
  .bind .get fun _ => .bind (emit_keeps usage _) fun _ => .bind (emit_keeps usage _) fun _ =>
    emit_keeps usage _

theorem writePreamble_keeps (usage : Usage P) : Keeps P writePreamble := by
  refine .bind (setMembers_keeps usage _) fun _ => .bind (emit_keeps usage _) fun _ => ?_
  refine .bind (.bind .get fun _ => writeSection_keeps usage _ _ _) fun _ => ?_
  refine .bind (.bind .get fun _ => ?_) fun _ => emit_keeps usage _
  exact .bind (writeSection_keeps usage _ _ _) fun _ => setMembers_keeps usage _

theorem preflightAndOpen_wp (opening : Opening path .createAlways P)
    (logicalSize expected : UInt64) {s : E01Writer × World} (h : P s) :
    WP (preflightAndOpen path logicalSize expected) (fun _ t => P t ∧ Manned t) (fun _ t => P t)
      s := by
  have emptied : P ({ s.1 with members := { s.1.members with
      totalPhysicalBytes := expected, chunkBuffer := [], chunkTableOffsets := [] } }, s.2) :=
    opening.settle _ rfl h
  rw [preflightAndOpen, WP.bind_iff, setMembers_wp, WP.bind_iff]
  refine (openStaging_wp opening emptied).mono (fun _ t h => ?_) fun _ _ h => h
  exact (writePreamble_keeps opening.toUsage.manned _ h).mono (fun _ _ h => h) fun _ _ h => h.1

theorem flushActiveChunk_keeps (usage : Usage P) : Keeps P flushActiveChunk :=
  .bind .get fun _ => .ite (fun _ => .pure _) fun _ => .bind (setMembers_keeps usage _) fun _ =>
    .bind (emit_keeps usage _) fun _ => .bind (emit_keeps usage _) fun _ =>
      setMembers_keeps usage _

theorem fillBuffers_keeps (usage : Usage P) (turns : Nat) (data : List Byte) :
    Keeps P (fillBuffers turns data) := by
  induction turns generalizing data with
  | zero => exact .pure _
  | succ turns ih =>
      refine .ite (fun _ => .pure _) fun _ => .bind .get fun _ => .bind ?_ fun _ => ih _
      exact .bind (setMembers_keeps usage _) fun _ => .bind .get fun _ =>
        .ite (fun _ => flushActiveChunk_keeps usage) fun _ => .pure _

theorem writeAt_keeps (usage : Usage P) (offset : UInt64) (data : List Byte) :
    Keeps P (writeAt offset data) :=
  .bind .get fun _ => .ite (fun _ => .throw _) fun _ => fillBuffers_keeps usage _ _

theorem writeTrailer_keeps (usage : Usage P) : Keeps P writeTrailer := by
  refine .bind (flushActiveChunk_keeps usage) fun _ => .bind ?header fun _ => .bind ?table fun _ =>
    .bind ?hash fun _ => .bind (emit_keeps usage _) fun _ => .bind (flushFile_keeps usage) fun _ =>
      .ite (fun _ => .pure _) fun _ => refuseWithLastError_keeps usage
  case header =>
    exact .bind .get fun _ => .bind (seekFile_keeps usage _) fun _ =>
      .bind (writeOnce_keeps usage _) fun _ => .bind (seekFile_keeps usage _) fun _ => .pure _
  case table =>
    exact .bind .get fun _ => .bind (emit_keeps usage _) fun _ =>
      .ite (fun _ => emit_keeps usage _) fun _ => .bind (emit_keeps usage _) fun _ =>
        emit_keeps usage _
  case hash => exact .bind .get fun _ => .bind (emit_keeps usage _) fun _ => emit_keeps usage _

theorem close_keeps (closing : Closing P) : Keeps P close := resetFile_keeps closing

theorem flushAndClose_keeps (closing : Closing P) : Keeps P flushAndClose :=
  .bind .get fun _ => .ite (fun _ => .pure _) fun _ =>
    .bind (.tryCatch (writeTrailer_keeps closing.toUsage) fun _ =>
      .bind (close_keeps closing) fun _ => .throw _) fun _ => close_keeps closing

end E01Writer

end E01

end Writers

/-! ### The calls of the transaction -/

/-- Every call of a writer keeps the invariant. -/
structure Obeys {μ : Type} (W : IRawWriter (WriterState μ × World)) (path : WString)
    (P : WriterState μ × World → Prop) : Prop where
  configure : ∀ runs hints metadata s, P s → P (W.configure runs hints metadata s)
  preflightAndOpen : ∀ logicalSize expected s, P s →
    P (W.preflightAndOpen path logicalSize expected s).2
  writeAt : ∀ offset data s, P s → P (W.writeAt offset data s).2
  flushAndClose : ∀ s, P s → P (W.flushAndClose s).2
  close : ∀ s, P s → P (W.close s)

section Obey

variable {path : WString}

theorem rawWriter_obeys {P : RawWriter × World → Prop} (opening : Opening path .createNew P) :
    Obeys rawWriter path P where
  configure _ _ _ _ h := h
  preflightAndOpen _ _ _ h :=
    ((RawWriter.preflightAndOpen_wp opening _ _ h).mono (fun _ _ h => h.1) fun _ _ h => h).final
  writeAt _ _ _ h := (RawWriter.writeAt_keeps opening.toUsage _ _).final h
  flushAndClose _ h := (RawWriter.flushAndClose_keeps opening.toClosing).final h
  close _ h := (RawWriter.close_keeps opening.toClosing).final h

theorem zdmpWriter_obeys {P : ZdmpWriter × World → Prop}
    (opening : Opening path .createAlways P) : Obeys zdmpWriter path P where
  configure _ _ _ _ h := opening.settle _ rfl h
  preflightAndOpen _ _ _ h :=
    ((ZdmpWriter.preflightAndOpen_wp opening _ _ h).mono (fun _ _ h => h.1) fun _ _ h => h).final
  writeAt _ _ _ h := (ZdmpWriter.writeAt_keeps opening.toUsage _ _).final h
  flushAndClose _ h := (ZdmpWriter.flushAndClose_keeps opening.toClosing).final h
  close _ h := (ZdmpWriter.close_keeps opening.toClosing).final h

theorem e01Writer_obeys {P : E01Writer × World → Prop}
    (opening : Opening path .createAlways P) : Obeys e01Writer path P where
  configure _ _ _ _ h := opening.settle _ rfl h
  preflightAndOpen _ _ _ h :=
    ((E01Writer.preflightAndOpen_wp opening _ _ h).mono (fun _ _ h => h.1) fun _ _ h => h).final
  writeAt _ _ _ h := (E01Writer.writeAt_keeps opening.toUsage _ _).final h
  flushAndClose _ h := (E01Writer.flushAndClose_keeps opening.toClosing).final h
  close _ h := (E01Writer.close_keeps opening.toClosing).final h

end Obey

section Staged

variable {μ : Type} {path : WString} {w : World}

/-- The writer has acted on its staging file only, and any handle it holds is of that file. -/
structure Staged (path : WString) (w : World) (s : WriterState μ × World) : Prop where
  owns : ∀ file, s.1.file = some file → file.path = path
  runs : Runs (Local path) w s.2

/-- Closing the handle, if there is one. -/
theorem Staged.closedWorld {s : WriterState μ × World} (h : Staged path w s) :
    Runs (Local path) w (closedWorld s) := by
  cases opened : s.1.file with
  | none =>
      rw [closedWorld_of_none opened]
      exact h.runs
  | some file =>
      rw [closedWorld_of_some opened]
      exact h.runs.trans (closeHandle_local file (h.owns file opened))

theorem staged_opening (disposition : CreationDisposition) :
    Opening path disposition (Staged (μ := μ) path w) where
  settle _ same h := ⟨fun file opened => h.owns file (same.symm.trans opened), h.runs⟩
  waits runs h := ⟨h.owns, h.runs.trans runs.runs⟩
  uses opened own runs h := by
    have path := h.owns _ opened
    refine ⟨fun file moved => ?_, h.runs.trans (runs.mono fun _ _ e => .touches (path ▸ e))⟩
    cases moved
    exact own.trans path
  closes h := ⟨nofun, h.closedWorld⟩
  opens {s} h := by
    have created : Runs (Local path) s.2 (createFileW path disposition s.2).2 ∧ _ :=
      createFileW_local disposition
    have kept : Staged path w (s.1, (createFileW path disposition s.2).2) :=
      ⟨h.owns, h.runs.trans created.1⟩
    exact ⟨created.2, kept.closedWorld⟩
  discards _ _ writer _ none h := by
    refine ⟨fun file opened => ?_, h.closedWorld.trans deleteFileW_local⟩
    cases none.symm.trans opened

end Staged

/-- What the transaction relies on in a writer. -/
structure Staging {μ : Type} (W : IRawWriter (WriterState μ × World)) : Prop where
  configure : ∀ runs hints metadata s, (W.configure runs hints metadata s).1.file = s.1.file ∧
    (W.configure runs hints metadata s).2 = s.2
  preflightAndOpen : ∀ path logicalSize expected w s, Staged path w s →
    Staged path w (W.preflightAndOpen path logicalSize expected s).2
  writeAt : ∀ path offset data w s, Staged path w s →
    Staged path w (W.writeAt offset data s).2
  flushAndClose : ∀ path w s, Staged path w s → Staged path w (W.flushAndClose s).2
  released : ∀ s, (W.flushAndClose s).1 = true → (W.flushAndClose s).2.1.file = none
  close : ∀ path w s, Staged path w s → Staged path w (W.close s)
  closed : ∀ s, s.1.file = none → (W.close s).2 = s.2

/-- After these calls a writer has no handle. -/
structure Releases {μ : Type} (W : IRawWriter (WriterState μ × World)) : Prop where
  flushAndClose : ∀ s, (W.flushAndClose s).2.1.file = none
  close : ∀ s, (W.close s).1.file = none
  closes : ∀ s, (W.close s).2 = closedWorld s

theorem Staging.of_obeys {μ : Type} {W : IRawWriter (WriterState μ × World)}
    (obeys : ∀ path w, Obeys W path (Staged path w)) (releases : Releases W)
    (configure : ∀ runs hints metadata s, (W.configure runs hints metadata s).1.file = s.1.file ∧
      (W.configure runs hints metadata s).2 = s.2)
    (closed : ∀ s, s.1.file = none → (W.close s).2 = s.2) : Staging W where
  configure := configure
  preflightAndOpen path _ _ w _ h := (obeys path w).preflightAndOpen _ _ _ h
  writeAt path _ _ w _ h := (obeys path w).writeAt _ _ _ h
  flushAndClose path w _ h := (obeys path w).flushAndClose _ h
  released s _ := releases.flushAndClose s
  close path w _ h := (obeys path w).close _ h
  closed := closed

section Formats

variable {μ : Type} {s : WriterState μ × World}

theorem onFile_always {α : Type} {failed : α} {call : Handle → World → (α × Handle) × World}
    {post : α → WriterState μ × World → Prop} {stop : Unit → WriterState μ × World → Prop}
    (h : ∀ a t, post a t) : WP (onFile failed call) post stop s := h _ _

theorem rawWriter_releases : Releases rawWriter where
  flushAndClose s := by
    refine WP.final (x := RawWriter.flushAndClose) (P := fun t => t.1.file = none) ?_
    rw [RawWriter.flushAndClose, WP.bind_iff, WP.get_iff, WP.ite_iff]
    refine ⟨fun none => Option.isNone_iff_eq_none.mp none, fun _ => ?_⟩
    rw [WP.bind_iff]
    refine onFile_always fun flushed t => ?_
    rw [WP.ite_iff]
    exact ⟨fun _ => rfl, fun _ => rfl⟩
  close _ := rfl
  closes _ := rfl

theorem zdmpWriter_releases : Releases zdmpWriter where
  flushAndClose s := by
    refine WP.final (x := ZdmpWriter.flushAndClose) (P := fun t => t.1.file = none) ?_
    rw [ZdmpWriter.flushAndClose, WP.bind_iff, WP.get_iff, WP.ite_iff]
    refine ⟨fun none => Option.isNone_iff_eq_none.mp none, fun _ => ?_⟩
    rw [WP.bind_iff]
    refine onFile_always fun flushed t => ?_
    rw [WP.ite_iff]
    exact ⟨fun _ => rfl, fun _ => rfl⟩
  close _ := rfl
  closes _ := rfl

theorem e01Writer_releases : Releases e01Writer where
  flushAndClose s := by
    refine WP.final (x := E01Writer.flushAndClose) (P := fun t => t.1.file = none) ?_
    rw [E01Writer.flushAndClose, WP.bind_iff, WP.get_iff, WP.ite_iff]
    refine ⟨fun none => Option.isNone_iff_eq_none.mp none, fun _ => ?_⟩
    rw [WP.bind_iff, WP.tryCatch_iff]
    exact .always (fun _ _ => rfl) fun _ _ => rfl
  close _ := rfl
  closes _ := rfl

end Formats

theorem rawWriter_staging : Staging rawWriter :=
  .of_obeys (fun _ _ => rawWriter_obeys (staged_opening _)) rawWriter_releases
    (fun _ _ _ _ => ⟨rfl, rfl⟩) fun _ none => closedWorld_of_none none

theorem zdmpWriter_staging : Staging zdmpWriter :=
  .of_obeys (fun _ _ => zdmpWriter_obeys (staged_opening _)) zdmpWriter_releases
    (fun _ _ _ _ => ⟨rfl, rfl⟩) fun _ none => closedWorld_of_none none

theorem e01Writer_staging : Staging e01Writer :=
  .of_obeys (fun _ _ => e01Writer_obeys (staged_opening _)) e01Writer_releases
    (fun _ _ _ _ => ⟨rfl, rfl⟩) fun _ none => closedWorld_of_none none

end PhylaRam
