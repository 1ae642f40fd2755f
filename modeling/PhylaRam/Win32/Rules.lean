import PhylaRam.Win32.FileSystem

/-!
# Rules for file-system calls

`Runs A w w'` says that the program got from `w` to `w'` by effects that `A` allows,
mixed with files that other processes created; both sides are tracked by one history.
Each call has one rule, which names its effect. Invariants of the files, and facts
about every effect of a run, follow from `A` by the induction in `Runs.invariant`.
-/

namespace PhylaRam

/-- Another process creates a file under a free name. In a solitary world none does. -/
def Intrusion (oracle : Nat → Choice) (files : Files) (e : Effect) : Prop :=
  ∃ path content, e = .intrude path content ∧ files path = none ∧
    ∃ n, (path, content) ∈ (oracle n).intruders

/-- From `w` to a world by effects of the program that `A` allows and intrusions. -/
inductive Runs (A : Files → Effect → Prop) (w : World) : World → Prop
  | refl : Runs A w w
  | silent {u u' : World} (before : Runs A w u) (files : u'.files = u.files)
      (oracle : u'.oracle = u.oracle) : Runs A w u'
  | effect {u : World} {e : Effect} (before : Runs A w u)
      (allowed : A u.files.now e ∨ Intrusion u.oracle u.files.now e) : Runs A w (u.perform e)

namespace Runs

variable {A B : Files → Effect → Prop} {w u v : World}

theorem oracle (h : Runs A w u) : u.oracle = w.oracle := by
  induction h with
  | refl => rfl
  | silent _ _ oracle ih => exact oracle.trans ih
  | effect _ _ ih => exact ih

theorem trans (h : Runs A w u) (h' : Runs A u v) : Runs A w v := by
  induction h' with
  | refl => exact h
  | silent _ files oracle ih => exact .silent ih files oracle
  | effect _ allowed ih => exact .effect ih allowed

theorem mono (h : Runs A w u) (imp : ∀ files e, A files e → B files e) : Runs B w u := by
  induction h with
  | refl => exact .refl
  | silent _ files oracle ih => exact .silent ih files oracle
  | effect _ allowed ih => exact .effect ih (allowed.imp_left (imp _ _))

/-- An invariant of the files, kept by the allowed effects and by intrusions, holds in
every recorded state; it may be assumed when an effect is judged. -/
theorem invariant (h : Runs A w u) {P : Files → Prop} {Q : Files → Effect → Prop}
    (own : ∀ files e, P files → A files e → P (e.apply files) ∧ Q files e)
    (other : ∀ files e, P files → Intrusion w.oracle files e → P (e.apply files) ∧ Q files e)
    (always : w.files.Always P) (every : w.files.Every Q) :
    u.files.Always P ∧ u.files.Every Q := by
  induction h with
  | refl => exact ⟨always, every⟩
  | silent _ files _ ih => rwa [files]
  | @effect u e before allowed ih =>
      have next : P (e.apply u.files.now) ∧ Q u.files.now e := by
        rcases allowed with mine | theirs
        · exact own _ _ ih.1.2 mine
        · exact other _ _ ih.1.2 (before.oracle ▸ theirs)
      exact ⟨ih.1.perform next.1, History.every_perform.mpr ⟨ih.2, next.2⟩⟩

/-- The invariant alone, about the last state only. -/
theorem preserves (h : Runs A w u) {P : Files → Prop}
    (own : ∀ files e, P files → A files e → P (e.apply files))
    (other : ∀ files e, P files → Intrusion w.oracle files e → P (e.apply files))
    (start : P w.files.now) : P u.files.now := by
  induction h with
  | refl => exact start
  | silent _ files _ ih => rwa [files]
  | @effect u e before allowed ih =>
      rcases allowed with mine | theirs
      · exact own _ _ ih mine
      · exact other _ _ ih (before.oracle ▸ theirs)

/-- Under an invariant of the files, what the effects have in common besides. -/
theorem under (h : Runs A w u) {P : Files → Prop}
    (own : ∀ files e, P files → A files e → P (e.apply files) ∧ B files e)
    (other : ∀ files e, P files → Intrusion w.oracle files e → P (e.apply files))
    (start : P w.files.now) : Runs B w u ∧ P u.files.now := by
  induction h with
  | refl => exact ⟨.refl, start⟩
  | silent _ files oracle ih => exact ⟨.silent ih.1 files oracle, files ▸ ih.2⟩
  | @effect u e before allowed ih =>
      rcases allowed with mine | theirs
      · have next := own _ _ ih.2 mine
        exact ⟨.effect ih.1 (.inl next.2), next.1⟩
      · exact ⟨.effect ih.1 (.inr theirs), other _ _ ih.2 (before.oracle ▸ theirs)⟩

/-- The effects of a run, each with the files it met. -/
theorem past (h : Runs A w u) :
    ∃ more, u.files.past = w.files.past ++ more ∧
      ∀ entry ∈ more, A entry.1 entry.2 ∨ Intrusion w.oracle entry.1 entry.2 := by
  induction h with
  | refl => exact ⟨[], (List.append_nil _).symm, fun entry member => nomatch member⟩
  | silent _ files _ ih => rwa [files]
  | @effect u e before allowed ih =>
      obtain ⟨more, split, each⟩ := ih
      refine ⟨more ++ [(u.files.now, e)], ?_, fun entry member => ?_⟩
      · change u.files.past ++ [(u.files.now, e)] = _
        rw [split, List.append_assoc]
      · cases List.mem_append.mp member with
        | inl old => exact each entry old
        | inr new =>
            rw [List.mem_singleton.mp new]
            exact before.oracle ▸ allowed

theorem solitary (h : Runs A w u) (alone : w.Solitary) : u.Solitary := by
  rw [World.Solitary, h.oracle]
  exact alone

theorem deletionsSucceed (h : Runs A w u) (deletions : w.DeletionsSucceed) :
    u.DeletionsSucceed := by
  rw [World.DeletionsSucceed, h.oracle]
  exact deletions

end Runs

/-- Only other processes act. -/
abbrev Waits (w u : World) : Prop := Runs (fun _ _ => False) w u

theorem Waits.runs {A : Files → Effect → Prop} {w u : World} (h : Waits w u) : Runs A w u :=
  h.mono fun _ _ no => no.elim

theorem Intrusion.not_solitary {w : World} {files : Files} {e : Effect}
    (h : Intrusion w.oracle files e) : ¬w.Solitary := by
  rintro alone
  obtain ⟨path, content, -, -, n, member⟩ := h
  rw [alone n] at member
  cases member

/-- An existing file is not affected by other processes. -/
theorem Intrusion.apply_of_some {oracle : Nat → Choice} {files : Files} {e : Effect}
    (h : Intrusion oracle files e) {path : WString} {node : FileNode}
    (present : files path = some node) : e.apply files path = some node := by
  obtain ⟨other, content, rfl, free, -⟩ := h
  have ne : path ≠ other := by
    rintro rfl
    rw [free] at present
    cases present
  exact (Function.update_of_ne ne _ _).trans present

namespace World

variable {w : World} {A : Files → Effect → Prop}

theorem intrude_runs (w : World) {file : WString × List Byte}
    (asked : ∃ n, file ∈ (w.oracle n).intruders) : Runs A w (w.intrude file) := by
  unfold intrude
  split
  · exact .refl
  · next free =>
      rw [Option.not_isSome_iff_eq_none] at free
      exact .effect .refl (.inr ⟨file.1, file.2, rfl, free, asked⟩)

/-- Entering a call only lets other processes act. -/
theorem enter_runs (w : World) : Runs A w w.enter := by
  have fold : ∀ (files : List (WString × List Byte)) (u : World),
      (∀ file ∈ files, ∃ n, file ∈ (u.oracle n).intruders) → Runs A u (files.foldl intrude u) := by
    intro files
    induction files with
    | nil => exact fun u _ => .refl
    | cons file files ih =>
        intro u asked
        have first : Runs A u (u.intrude file) :=
          u.intrude_runs (asked file List.mem_cons_self)
        refine first.trans (ih _ fun next member => ?_)
        rw [first.oracle]
        exact asked next (List.mem_cons_of_mem _ member)
  have begins : Runs A w { w with tick := w.tick + 1 } := .silent .refl rfl rfl
  exact begins.trans (fold _ _ fun file member => ⟨w.tick, member⟩)

theorem enter_of_some {path : WString} {node : FileNode} (h : w.files.now path = some node) :
    w.enter.files.now path = some node :=
  (enter_runs (A := fun _ _ => False) w).preserves (fun _ _ _ no => no.elim)
    (fun _ _ present intrusion => intrusion.apply_of_some present) h

@[simp] theorem enter_oracle : w.enter.oracle = w.oracle :=
  (enter_runs (A := fun _ _ => False) w).oracle

theorem setLastError_runs {u : World} (h : Runs A w u) (error : UInt32) :
    Runs A w (u.setLastError error) := .silent h rfl rfl

theorem failed_runs (w : World) (error : UInt32) : Runs A w (w.enter.setLastError error) :=
  setLastError_runs (enter_runs w) error

@[simp] theorem enter_tick : w.enter.tick = w.tick + 1 := by
  have fold : ∀ (files : List (WString × List Byte)) (u : World),
      (files.foldl intrude u).tick = u.tick := by
    intro files
    induction files with
    | nil => exact fun u => rfl
    | cons file files ih =>
        intro u
        rw [List.foldl_cons, ih, intrude]
        split <;> rfl
  exact fold _ _

@[simp] theorem perform_oracle (e : Effect) : (w.perform e).oracle = w.oracle := rfl

@[simp] theorem perform_tick (e : Effect) : (w.perform e).tick = w.tick := rfl

@[simp] theorem perform_files (e : Effect) :
    (w.perform e).files.now = e.apply w.files.now := rfl

@[simp] theorem setLastError_files (error : UInt32) : (w.setLastError error).files = w.files := rfl

@[simp] theorem setLastError_oracle (error : UInt32) :
    (w.setLastError error).oracle = w.oracle := rfl

@[simp] theorem setLastError_tick (error : UInt32) : (w.setLastError error).tick = w.tick := rfl

end World

/-- The content of the file of that name, if there is one. -/
def World.content (w : World) (path : WString) : Option (List Byte) :=
  (w.files.now path).map FileNode.content

/-! ### Effects on one open file -/

/-- The effects of writing to an open file. -/
inductive Touches (path : WString) : Files → Effect → Prop
  | write (files : Files) (offset : Nat) (data : List Byte) :
      Touches path files (.write path offset data)
  | setEnd (files : Files) (size : Nat) : Touches path files (.setEnd path size)
  | flush (files : Files) : Touches path files (.flush path)

/-- Writing a part of `data`, whose first byte belongs at `start`. -/
inductive Stores (path : WString) (start : Nat) (data : List Byte) : Files → Effect → Prop
  | write (files : Files) (skip count : Nat) :
      Stores path start data files (.write path (start + skip) ((data.drop skip).take count))

theorem Stores.touches {path : WString} {start : Nat} {data : List Byte} {files : Files}
    {e : Effect} (h : Stores path start data files e) : Touches path files e := by
  cases h
  exact .write _ _ _

/-- A change that keeps the file, its creator and its handle. -/
def FileNode.SameFile (node node' : FileNode) : Prop :=
  node'.creator = node.creator ∧ node'.opened = node.opened

theorem Files.modify_self {path : WString} {f : FileNode → FileNode} {files : Files}
    {node : FileNode} (present : files path = some node) :
    files.modify path f path = some (f node) := by
  rw [Files.modify, Function.update_self, present]
  rfl

theorem Files.modify_of_ne {path other : WString} {f : FileNode → FileNode} {files : Files}
    (ne : other ≠ path) : files.modify path f other = files other :=
  Function.update_of_ne ne _ _

theorem Touches.self {path : WString} {files : Files} {e : Effect} (h : Touches path files e)
    {node : FileNode} (present : files path = some node) :
    ∃ node', e.apply files path = some node' ∧ node.SameFile node' := by
  cases h <;> exact ⟨_, Files.modify_self present, rfl, rfl⟩

theorem Touches.other {path other : WString} {files : Files} {e : Effect}
    (h : Touches path files e) (ne : other ≠ path) : e.apply files other = files other := by
  cases h <;> exact Files.modify_of_ne ne

/-! ### The outcomes of each call -/

section Calls

theorem createFileW_cases (path : WString) (disposition : CreationDisposition) (w : World) :
    (∃ error, createFileW path disposition w = (none, w.enter.setLastError error) ∧
      (w.choice.failure = some error ∨ w.enter.files.now path ≠ none)) ∨
    (w.choice.failure = none ∧ w.enter.files.now path = none ∧
      createFileW path disposition w = (some ⟨path, 0⟩, w.enter.perform (.create path))) ∨
    (w.choice.failure = none ∧ disposition = .createAlways ∧
      ∃ node, w.enter.files.now path = some node ∧ node.opened = false ∧
        createFileW path disposition w = (some ⟨path, 0⟩,
          (w.enter.perform (.truncate path)).setLastError errorAlreadyExists)) := by
  unfold createFileW
  cases failure : w.choice.failure with
  | some error => exact .inl ⟨error, rfl, .inl rfl⟩
  | none =>
      cases present : w.enter.files.now path with
      | none => exact .inr (.inl ⟨rfl, rfl, rfl⟩)
      | some node =>
          cases disposition with
          | createNew => exact .inl ⟨_, rfl, .inr (by simp)⟩
          | createAlways =>
              cases opened : node.opened with
              | true => exact .inl ⟨errorSharingViolation, by simp [opened], .inr (by simp)⟩
              | false => exact .inr (.inr ⟨rfl, rfl, node, rfl, opened, by simp [opened]⟩)

/-- What `WriteFile` writes when it does not fail. -/
def writeCount (data : List Byte) (w : World) : Nat := min w.choice.limit data.length

theorem writeFile_cases (file : Handle) (data : List Byte) (w : World) :
    (∃ error, w.choice.failure = some error ∧
      writeFile file data w = (none, w.enter.setLastError error)) ∨
    (w.choice.failure = none ∧ writeCount data w = 0 ∧
      writeFile file data w = (some (0, file), w.enter)) ∨
    (w.choice.failure = none ∧ 0 < writeCount data w ∧
      writeFile file data w =
        (some (writeCount data w, { file with position := file.position + writeCount data w }),
          w.enter.perform (.write file.path file.position (data.take (writeCount data w))))) := by
  unfold writeFile
  cases failure : w.choice.failure with
  | some error => exact .inl ⟨error, rfl, rfl⟩
  | none =>
      by_cases zero : writeCount data w = 0
      · exact .inr (.inl ⟨rfl, zero, if_pos zero⟩)
      · exact .inr (.inr ⟨rfl, Nat.pos_of_ne_zero zero, if_neg zero⟩)

theorem writeFile_failed {file : Handle} {data : List Byte} {w u : World}
    {A : Files → Effect → Prop} (h : writeFile file data w = (none, u)) : Runs A w u := by
  rcases writeFile_cases file data w with ⟨error, -, h'⟩ | ⟨-, -, h'⟩ | ⟨-, -, h'⟩ <;>
    rw [h'] at h <;> cases h
  exact w.failed_runs error

theorem writeFile_stalled {file file' : Handle} {data : List Byte} {w u : World}
    {A : Files → Effect → Prop} (h : writeFile file data w = (some (0, file'), u)) :
    file' = file ∧ Runs A w u := by
  rcases writeFile_cases file data w with ⟨_, -, h'⟩ | ⟨-, -, h'⟩ | ⟨-, positive, h'⟩ <;>
    rw [h'] at h
  · cases h
  · cases h
    exact ⟨rfl, w.enter_runs⟩
  · simp only [Prod.mk.injEq, Option.some.injEq] at h
    omega

theorem writeFile_wrote {file file' : Handle} {data : List Byte} {written : Nat} {w u : World}
    (h : writeFile file data w = (some (written + 1, file'), u)) :
    written + 1 ≤ data.length ∧
      file' = { file with position := file.position + (written + 1) } ∧
      u = w.enter.perform (.write file.path file.position (data.take (written + 1))) := by
  rcases writeFile_cases file data w with ⟨_, -, h'⟩ | ⟨-, -, h'⟩ | ⟨-, -, h'⟩ <;>
    rw [h'] at h <;> simp only [Prod.mk.injEq, Option.some.injEq, reduceCtorEq, false_and] at h
  obtain ⟨⟨count, rfl⟩, rfl⟩ := h
  rw [count]
  exact ⟨count ▸ Nat.min_le_right _ _, rfl, rfl⟩

theorem setFilePointerEx_cases (file : Handle) (offset : UInt64) (w : World) :
    (∃ error, setFilePointerEx file offset w = (none, w.enter.setLastError error)) ∨
    setFilePointerEx file offset w = (some { file with position := offset.toNat }, w.enter) := by
  unfold setFilePointerEx
  cases w.choice.failure with
  | some error => exact .inl ⟨error, rfl⟩
  | none =>
      dsimp only
      split
      · exact .inl ⟨_, rfl⟩
      · exact .inr rfl

theorem setEndOfFile_cases (file : Handle) (w : World) :
    (∃ error, setEndOfFile file w = (false, w.enter.setLastError error)) ∨
    setEndOfFile file w = (true, w.enter.perform (.setEnd file.path file.position)) := by
  unfold setEndOfFile
  cases w.choice.failure with
  | some error => exact .inl ⟨error, rfl⟩
  | none => exact .inr rfl

theorem flushFileBuffers_cases (file : Handle) (w : World) :
    (∃ error, flushFileBuffers file w = (false, w.enter.setLastError error)) ∨
    flushFileBuffers file w = (true, w.enter.perform (.flush file.path)) := by
  unfold flushFileBuffers
  cases w.choice.failure with
  | some error => exact .inl ⟨error, rfl⟩
  | none => exact .inr rfl

theorem deleteFileW_cases (path : WString) (w : World) :
    (∃ error, deleteFileW path w = (false, w.enter.setLastError error) ∧
      (w.choice.deletionFailure = some error ∨ w.enter.files.now path = none ∨
        ∃ node, w.enter.files.now path = some node ∧ node.opened = true)) ∨
    ∃ node, w.enter.files.now path = some node ∧ node.opened = false ∧
      deleteFileW path w = (true, w.enter.perform (.delete path)) := by
  unfold deleteFileW
  cases w.choice.deletionFailure with
  | some error => exact .inl ⟨error, rfl, .inl rfl⟩
  | none =>
      cases present : w.enter.files.now path with
      | none => exact .inl ⟨_, rfl, .inr (.inl rfl)⟩
      | some node =>
          cases opened : node.opened with
          | true =>
              exact .inl ⟨errorSharingViolation, by simp [opened], .inr (.inr ⟨node, rfl, opened⟩)⟩
          | false => exact .inr ⟨node, rfl, opened, by simp [opened]⟩

theorem moveFileExW_cases (source target : WString) (w : World) :
    (∃ error, moveFileExW source target w = (false, w.enter.setLastError error)) ∨
    ∃ node, w.enter.files.now source = some node ∧ node.opened = false ∧
      w.enter.files.now target = none ∧
      moveFileExW source target w = (true, w.enter.perform (.rename source target)) := by
  unfold moveFileExW
  cases w.choice.failure with
  | some error => exact .inl ⟨error, rfl⟩
  | none =>
      cases present : w.enter.files.now source with
      | none => exact .inl ⟨_, rfl⟩
      | some node =>
          cases opened : node.opened with
          | true => exact .inl ⟨errorSharingViolation, by simp [opened]⟩
          | false =>
              cases taken : w.enter.files.now target with
              | some other => exact .inl ⟨errorAlreadyExists, by simp [opened]⟩
              | none => exact .inr ⟨node, rfl, opened, rfl, by simp [opened]⟩

theorem getFileAttributesW_cases (path : WString) (w : World) :
    (∃ error, getFileAttributesW path w = (false, w.enter.setLastError error)) ∨
    (w.enter.files.now path ≠ none ∧ getFileAttributesW path w = (true, w.enter)) := by
  unfold getFileAttributesW
  cases w.choice.failure with
  | some error => exact .inl ⟨error, rfl⟩
  | none =>
      cases present : w.enter.files.now path with
      | none => exact .inl ⟨_, rfl⟩
      | some node => exact .inr ⟨by simp, rfl⟩

theorem askEnvironment_cases {α : Type} (answer : Choice → α) (w : World) :
    (∃ error, askEnvironment answer w = (none, w.enter.setLastError error)) ∨
    askEnvironment answer w = (some (answer w.choice), w.enter) := by
  unfold askEnvironment
  cases w.choice.failure with
  | some error => exact .inl ⟨error, rfl⟩
  | none => exact .inr rfl

end Calls

/-! ### An environment in which every call succeeds -/

/-- No call fails, and `WriteFile` writes as much as its 32-bit count can say. -/
def World.Reliable (w : World) : Prop :=
  ∀ n, (w.oracle n).failure = none ∧ (w.oracle n).limit = 2 ^ 32 - 1

namespace World.Reliable

variable {w : World}

theorem failure (h : w.Reliable) : w.choice.failure = none := (h w.tick).1

theorem of_oracle {u : World} (h : w.Reliable) (same : u.oracle = w.oracle) : u.Reliable := by
  rw [World.Reliable, same]
  exact h

theorem enter (h : w.Reliable) : w.enter.Reliable := h.of_oracle w.enter_oracle

theorem perform (h : w.Reliable) (e : Effect) : (w.perform e).Reliable := h.of_oracle rfl

theorem writeFile (h : w.Reliable) (file : Handle) {data : List Byte} (nonempty : data ≠ [])
    (short : data.length < 2 ^ 32) :
    PhylaRam.writeFile file data w =
      (some (data.length, { file with position := file.position + data.length }),
        w.enter.perform (.write file.path file.position data)) := by
  have count : min w.choice.limit data.length = data.length := by
    rw [World.choice, (h w.tick).2]
    omega
  rw [PhylaRam.writeFile, h.failure]
  simp only [count, List.take_length, List.length_eq_zero_iff, if_neg nonempty]

theorem setFilePointerEx (h : w.Reliable) (file : Handle) {offset : UInt64}
    (small : offset.toNat < 2 ^ 63) :
    PhylaRam.setFilePointerEx file offset w =
      (some { file with position := offset.toNat }, w.enter) := by
  rw [PhylaRam.setFilePointerEx, h.failure]
  exact if_neg (Nat.not_le_of_lt small)

theorem flushFileBuffers (h : w.Reliable) (file : Handle) :
    PhylaRam.flushFileBuffers file w = (true, w.enter.perform (.flush file.path)) := by
  rw [PhylaRam.flushFileBuffers, h.failure]

end World.Reliable

end PhylaRam
