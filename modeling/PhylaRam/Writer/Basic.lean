import PhylaRam.Library.Program
import PhylaRam.Win32.Rules

/-!
# What the image writers have in common

The three implementations of `IRawWriter` own a file handle (`file_`) and a last
error (`lastError_`); `WriterState` adds the members of the class at hand. A method
is a program on the writer and the world that stops where the source returns false.

The loop around `WriteFile` is the one of `RawWriter::WriteAt` and of
`WriteAtomicString`.
-/

namespace PhylaRam

open Program

/-- An image writer: its handle, its last error and its other members. -/
structure WriterState (μ : Type) where
  file : Option Handle := none
  lastError : UInt32 := errorSuccess
  members : μ

abbrev WriterM (μ : Type) := EStateM Unit (WriterState μ × World)

section Calls

variable {μ α : Type}

/-- A Win32 call that does not use the handle. -/
def win32 (call : World → α × World) : WriterM μ α :=
  modifyGet fun s => ((call s.2).1, s.1, (call s.2).2)

/-- `lastError_ = error; return false;` -/
def refuse (error : UInt32) : WriterM μ α := do
  modify fun s => ({ s.1 with lastError := error }, s.2)
  throw ()

/-- `lastError_ = GetLastError(); return false;` -/
def refuseWithLastError : WriterM μ α := do
  modify fun s => ({ s.1 with lastError := s.2.lastError }, s.2)
  throw ()

def setMembers (f : μ → μ) : WriterM μ Unit :=
  modify fun s => ({ s.1 with members := f s.1.members }, s.2)

/-- The world after the writer's handle, if any, has been closed. -/
def closedWorld (s : WriterState μ × World) : World :=
  match s.1.file with
  | some file => closeHandle file s.2
  | none => s.2

/-- `file_.Reset(file)`: the previous handle is closed. -/
def resetFile (file : Option Handle) : WriterM μ Unit :=
  modify fun s => ({ s.1 with file := file }, closedWorld s)

/-- A call on the handle, which may move its file pointer. -/
def onFile (failed : α) (call : Handle → World → (α × Handle) × World) : WriterM μ α :=
  modifyGet fun s =>
    match s.1.file with
    | none => (failed, s.1, s.2.setLastError errorInvalidHandle)
    | some file =>
        ((call file s.2).1.1, { s.1 with file := some (call file s.2).1.2 }, (call file s.2).2)

def seekFile (offset : UInt64) : WriterM μ Bool :=
  onFile false fun file w =>
    match setFilePointerEx file offset w with
    | (some file, w) => ((true, file), w)
    | (none, w) => ((false, file), w)

def endFile : WriterM μ Bool :=
  onFile false fun file w => (((setEndOfFile file w).1, file), (setEndOfFile file w).2)

def flushFile : WriterM μ Bool :=
  onFile false fun file w => (((flushFileBuffers file w).1, file), (flushFileBuffers file w).2)

/-- One `WriteFile`: the number of bytes written. -/
def writeOnce (data : List Byte) : WriterM μ (Option Nat) :=
  onFile none fun file w =>
    match writeFile file data w with
    | (some (written, file), w) => ((some written, file), w)
    | (none, w) => ((none, file), w)

/-- `if (!WriteFile(..) || written != size) { lastError_ = GetLastError(); return false; }` -/
def writeExactly (data : List Byte) : WriterM μ Unit := do
  let written ← writeOnce data
  if written = some data.length then pure () else refuseWithLastError

/-- A method that returns a flag, as a function on the object and the world. -/
def WriterM.method (x : WriterM μ Unit) (s : WriterState μ × World) :
    Bool × (WriterState μ × World) :=
  (returned (x s), final (x s))

end Calls

/-- The loop around `WriteFile`, which continues after short writes. -/
def writeLoop (chunkBytes : Nat) (file : Handle) (data : List Byte) (w : World) :
    (Bool × Handle) × World :=
  if data = [] then ((true, file), w)
  else
    match writeFile file (data.take chunkBytes) w with
    | (none, w) => ((false, file), w)
    | (some (0, file), w) => ((false, file), w)
    | (some (written + 1, file), w) => writeLoop chunkBytes file (data.drop (written + 1)) w
termination_by data.length
decreasing_by
  rw [List.length_drop]
  have := List.length_pos_iff.mpr ‹data ≠ []›
  omega

/-- What the loop does to the file, whether or not it completes. -/
structure WriteLoop (file : Handle) (data : List Byte) (w : World)
    (result : (Bool × Handle) × World) : Prop where
  stores : Runs (Stores file.path file.position data) w result.2
  path : result.1.2.path = file.path
  content : result.1.1 = true → ∀ node, w.files.now file.path = some node →
    file.position ≤ node.content.length → ∃ node', result.2.files.now file.path = some node' ∧
      node'.content = Image.patch 0 node.content file.position data ∧ node.SameFile node'

theorem WriteLoop.runs {file : Handle} {data : List Byte} {w : World}
    {result : (Bool × Handle) × World} (h : WriteLoop file data w result) :
    Runs (Touches file.path) w result.2 :=
  h.stores.mono fun _ _ stores => stores.touches

theorem writeLoop_spec (chunkBytes : Nat) (file : Handle) (data : List Byte) (w : World) :
    WriteLoop file data w (writeLoop chunkBytes file data w) := by
  induction file, data, w using writeLoop.induct chunkBytes with
  | case1 file w =>
      rw [writeLoop, if_pos rfl]
      refine ⟨.refl, rfl, fun _ node present within => ⟨node, present, ?_, rfl, rfl⟩⟩
      rw [Image.patch_nil 0 within]
  | case2 file data w nonempty w' failed =>
      rw [writeLoop, if_neg nonempty, failed]
      exact ⟨writeFile_failed failed, rfl, fun h => by cases h⟩
  | case3 file data w nonempty file' w' stalled =>
      rw [writeLoop, if_neg nonempty, stalled]
      obtain ⟨rfl, runs⟩ := writeFile_stalled (A := Stores file.path file.position data) stalled
      exact ⟨runs, rfl, fun h => by cases h⟩
  | case4 file data w nonempty written file' w' wrote ih =>
      rw [writeLoop, if_neg nonempty, wrote]
      obtain ⟨le, rfl, rfl⟩ := writeFile_wrote wrote
      have take : (data.take chunkBytes).take (written + 1) = data.take (written + 1) := by
        rw [List.take_take, Nat.min_eq_left (le.trans (List.length_take_le _ _))]
      have length : (data.take (written + 1)).length = written + 1 :=
        List.length_take_of_le (le.trans (List.length_take_le' _ _))
      rw [take] at ih ⊢
      have first : Runs (Stores file.path file.position data) w
          (w.enter.perform (.write file.path file.position (data.take (written + 1)))) :=
        .effect w.enter_runs (.inl (.write _ 0 _))
      have rest := ih.stores.mono (B := Stores file.path file.position data) (by
        intro files e stores
        cases stores with
        | write skip count =>
            rw [List.drop_drop, Nat.add_assoc]
            exact .write files (written + 1 + skip) count)
      refine ⟨first.trans rest, ih.path, fun ok node present within => ?_⟩
      have now := Files.modify_self (f := fun node => { node with
        content := Image.patch 0 node.content file.position (data.take (written + 1))
        flushed := false }) (World.enter_of_some present)
      obtain ⟨node', present', content', same⟩ := ih.content ok _ now (by
        change file.position + (written + 1) ≤ (Image.patch 0 _ _ _).length
        rw [Image.length_patch, length]
        exact Nat.le_max_right _ _)
      refine ⟨node', present', ?_, same⟩
      rw [content']
      change Image.patch 0 (Image.patch 0 _ _ _) (file.position + (written + 1)) _ = _
      have join := Image.patch_append 0 node.content file.position (data.take (written + 1))
        (data.drop (written + 1))
      rwa [length, List.take_append_drop] at join

/-! ### Rules -/

/-- The writer holds the handle of `path`. -/
def FileOpen {μ : Type} (path : WString) (s : WriterState μ × World) : Prop :=
  ∃ file, s.1.file = some file ∧ file.path = path

section Rules

variable {μ α : Type} {s : WriterState μ × World} {stop : Unit → WriterState μ × World → Prop}

@[simp] theorem win32_wp {call : World → α × World}
    {post : α → WriterState μ × World → Prop} :
    WP (win32 call) post stop s ↔ post (call s.2).1 (s.1, (call s.2).2) := Iff.rfl

@[simp] theorem refuse_wp {error : UInt32} {post : α → WriterState μ × World → Prop} :
    WP (refuse error) post stop s ↔ stop () ({ s.1 with lastError := error }, s.2) := Iff.rfl

@[simp] theorem refuseWithLastError_wp {post : α → WriterState μ × World → Prop} :
    WP refuseWithLastError post stop s ↔
      stop () ({ s.1 with lastError := s.2.lastError }, s.2) := Iff.rfl

@[simp] theorem setMembers_wp {f : μ → μ} {post : Unit → WriterState μ × World → Prop} :
    WP (setMembers f) post stop s ↔ post () ({ s.1 with members := f s.1.members }, s.2) := Iff.rfl

@[simp] theorem resetFile_wp {file : Option Handle}
    {post : Unit → WriterState μ × World → Prop} :
    WP (resetFile file) post stop s ↔ post () ({ s.1 with file := file }, closedWorld s) := Iff.rfl

theorem closedWorld_of_some {writer : WriterState μ} {world : World} {file : Handle}
    (opened : writer.file = some file) :
    closedWorld (writer, world) = world.perform (.close file.path) := by
  rw [closedWorld, opened]
  rfl

theorem closedWorld_of_none {writer : WriterState μ} {world : World}
    (closed : writer.file = none) : closedWorld (writer, world) = world := by
  rw [closedWorld, closed]

theorem onFile_wp {failed : α} {call : Handle → World → (α × Handle) × World} {file : Handle}
    (opened : s.1.file = some file) {post : α → WriterState μ × World → Prop} :
    WP (onFile failed call) post stop s ↔
      post (call file s.2).1.1
        ({ s.1 with file := some (call file s.2).1.2 }, (call file s.2).2) := by
  change post _ _ ↔ _
  rw [opened]

/-- Moving the file pointer changes no file. -/
theorem seekFile_wp {offset : UInt64} {file : Handle} (opened : s.1.file = some file)
    {post : Bool → WriterState μ × World → Prop}
    (moved : post true
      ({ s.1 with file := some { file with position := offset.toNat } }, s.2.enter))
    (failed : ∀ error, post false
      ({ s.1 with file := some file }, s.2.enter.setLastError error)) :
    WP (seekFile offset) post stop s := by
  rw [seekFile, onFile_wp opened]
  rcases setFilePointerEx_cases file offset s.2 with ⟨error, h⟩ | h <;> rw [h]
  · exact failed error
  · exact moved

/-- A `WriteFile` that must be complete. Where it fails or is short, a part of the data may
have been written. -/
theorem writeExactly_wp {data : List Byte} (nonempty : data ≠ []) {file : Handle}
    (opened : s.1.file = some file) {post : Unit → WriterState μ × World → Prop}
    (wrote : post () ({ s.1 with
        file := some { file with position := file.position + data.length } },
      s.2.enter.perform (.write file.path file.position data)))
    (failed : ∀ error position u, Runs (Stores file.path file.position data) s.2 u →
      stop () ({ s.1 with file := some { file with position }, lastError := error }, u)) :
    WP (writeExactly data) post stop s := by
  have same : some file = some { file with position := file.position } := rfl
  have positive := List.length_pos_iff.mpr nonempty
  rw [writeExactly, WP.bind_iff, writeOnce, onFile_wp opened]
  rcases writeFile_cases file data s.2 with ⟨error, -, h⟩ | ⟨-, none, h⟩ | ⟨-, _, h⟩ <;> rw [h]
  · rw [if_neg (fun no => by cases no), refuseWithLastError_wp, same]
    exact failed _ _ _ (s.2.failed_runs error)
  · have short : (some 0 : Option Nat) ≠ some data.length := fun same => by
      have := Option.some.inj same
      omega
    rw [if_neg short, refuseWithLastError_wp, same]
    exact failed _ _ _ s.2.enter_runs
  · by_cases complete : writeCount data s.2 = data.length
    · rw [complete, if_pos rfl, WP.pure_iff, List.take_length]
      exact wrote
    · rw [if_neg (fun yes => complete (Option.some.inj yes)), refuseWithLastError_wp]
      refine failed _ _ _ (.effect s.2.enter_runs (.inl ?_))
      exact .write _ 0 (writeCount data s.2)

/-- Closing the previous handle does not touch the content of a file. -/
theorem closedWorld_content (writer : WriterState μ) {world : World} {path : WString}
    {node : FileNode} (present : world.files.now path = some node) :
    ∃ node', (closedWorld (writer, world)).files.now path = some node' ∧
      node'.content = node.content := by
  cases opened : writer.file with
  | none =>
      rw [closedWorld_of_none opened]
      exact ⟨node, present, rfl⟩
  | some file =>
      rw [closedWorld_of_some opened]
      by_cases same : path = file.path
      · subst same
        exact ⟨_, Files.modify_self present, rfl⟩
      · exact ⟨node, (Files.modify_of_ne same).trans present, rfl⟩

theorem closedWorld_oracle (s : WriterState μ × World) : (closedWorld s).oracle = s.2.oracle := by
  rw [closedWorld]
  split <;> rfl

/-- A file that is opened with `CREATE_ALWAYS` is empty. -/
theorem createAlways_wp {path : WString} :
    WP (do
      let file ← win32 (createFileW path .createAlways)
      resetFile file
      if file.isSome then pure () else refuseWithLastError : WriterM μ Unit)
      (fun _ t => t.1 = { s.1 with file := some ⟨path, 0⟩ } ∧ t.2.oracle = s.2.oracle ∧
        ∃ node, t.2.files.now path = some node ∧ node.content = [])
      (fun _ _ => True) s := by
  have closing : ∀ {world : World}, world.oracle = s.2.oracle →
      (∃ node, world.files.now path = some node ∧ node.content = []) →
      (closedWorld (s.1, world)).oracle = s.2.oracle ∧
        ∃ node, (closedWorld (s.1, world)).files.now path = some node ∧ node.content = [] := by
    rintro world same ⟨node, present, empty⟩
    obtain ⟨node', present', content⟩ := closedWorld_content s.1 present
    exact ⟨(closedWorld_oracle _).trans same, node', present', content.trans empty⟩
  rw [WP.bind_iff, win32_wp, WP.bind_iff, resetFile_wp]
  rcases createFileW_cases path .createAlways s.2 with ⟨error, h, -⟩ | ⟨-, -, h⟩ |
    ⟨-, -, node, present, -, h⟩ <;> rw [h]
  · trivial
  · exact ⟨rfl, closing s.2.enter_oracle ⟨_, Function.update_self _ _ _, rfl⟩⟩
  · exact ⟨rfl, closing s.2.enter_oracle ⟨_, Files.modify_self present, rfl⟩⟩

section Reliable

variable {file : Handle} (reliable : s.2.Reliable) (opened : s.1.file = some file)

include reliable opened

theorem seekFile_reliable {offset : UInt64} (small : offset.toNat < 2 ^ 63)
    {post : Bool → WriterState μ × World → Prop} :
    WP (seekFile offset) post stop s ↔
      post true ({ s.1 with file := some { file with position := offset.toNat } }, s.2.enter) := by
  rw [seekFile, onFile_wp opened, reliable.setFilePointerEx _ small]

theorem writeOnce_reliable {data : List Byte} (nonempty : data ≠ [])
    (short : data.length < 2 ^ 32) {post : Option Nat → WriterState μ × World → Prop} :
    WP (writeOnce data) post stop s ↔
      post (some data.length)
        ({ s.1 with file := some { file with position := file.position + data.length } },
          s.2.enter.perform (.write file.path file.position data)) := by
  rw [writeOnce, onFile_wp opened, reliable.writeFile _ nonempty short]

/-- The only reason to refuse a buffer is that it is too long for one call. -/
theorem writeExactly_reliable {data : List Byte} (nonempty : data ≠ [])
    {post : Unit → WriterState μ × World → Prop}
    (wrote : data.length < 2 ^ 32 → post ()
      ({ s.1 with file := some { file with position := file.position + data.length } },
        s.2.enter.perform (.write file.path file.position data)))
    (long : 2 ^ 32 ≤ data.length → ∀ t, stop () t) :
    WP (writeExactly data) post stop s := by
  rw [writeExactly, WP.bind_iff]
  by_cases short : data.length < 2 ^ 32
  · rw [writeOnce_reliable reliable opened nonempty short, if_pos rfl, WP.pure_iff]
    exact wrote short
  · have long := long (Nat.le_of_not_lt short)
    have partly : ∀ count ≤ 2 ^ 32 - 1, some count ≠ some data.length := by
      intro count small same
      have := Option.some.inj same
      omega
    have limit : writeCount data s.2 ≤ 2 ^ 32 - 1 :=
      Nat.le_trans (Nat.min_le_left _ _) (Nat.le_of_eq (reliable _).2)
    rw [writeOnce, onFile_wp opened]
    rcases writeFile_cases file data s.2 with ⟨error, failed, -⟩ | ⟨-, -, h⟩ | ⟨-, -, h⟩
    · rw [reliable.failure] at failed
      cases failed
    · rw [h]
      show WP (if some 0 = some data.length then _ else _) _ _ _
      rw [if_neg (partly 0 (Nat.zero_le _))]
      exact long _
    · rw [h]
      show WP (if some (writeCount data s.2) = some data.length then _ else _) _ _ _
      rw [if_neg (partly _ limit)]
      exact long _

theorem flushFile_reliable {post : Bool → WriterState μ × World → Prop} :
    WP flushFile post stop s ↔
      post true ({ s.1 with file := some file }, s.2.enter.perform (.flush file.path)) := by
  rw [flushFile, onFile_wp opened, reliable.flushFileBuffers]

end Reliable

end Rules

end PhylaRam
