import PhylaRam.Writer.Basic

/-!
# Programs whose calls are granted

A demand is what one call of the file system needs to succeed in full, and `Granted` says
that the environment meets the demands of the calls to come. A program on an open file that
checks every call has one effect on the file: it returns where all its demands are met, with
the same content in every such environment, and stops elsewhere.
-/

namespace PhylaRam

open Program

/-- What a call needs in order to succeed in full. -/
inductive Demand
  | write (length : Nat)
  | seek (offset : UInt64)
  | flush
deriving DecidableEq, Repr

def Demand.Met (choice : Choice) : Demand → Prop
  | .write length => choice.failure = none ∧ length ≤ choice.limit
  | .seek offset => choice.failure = none ∧ offset.toNat < 2 ^ 63
  | .flush => choice.failure = none

/-- From that call on the environment meets the demands one after the other. -/
def Granted (oracle : Nat → Choice) : Nat → List Demand → Prop
  | _, [] => True
  | tick, demand :: demands => demand.Met (oracle tick) ∧ Granted oracle (tick + 1) demands

theorem granted_append {oracle : Nat → Choice} {tick : Nat} {first later : List Demand} :
    Granted oracle tick (first ++ later) ↔
      Granted oracle tick first ∧ Granted oracle (tick + first.length) later := by
  induction first generalizing tick with
  | nil => exact ⟨fun h => ⟨trivial, h⟩, fun h => h.2⟩
  | cons demand first ih =>
      rw [List.cons_append, Granted, Granted, ih, and_assoc, List.length_cons,
        Nat.add_assoc, Nat.add_comm 1]

/-- An open file and the members of its writer. -/
structure Tape (μ : Type) where
  content : List Byte
  position : Nat
  members : μ

variable {μ α : Type} {path : WString} {tape tape' tape'' : Tape μ} {data : List Byte}
  {s t : WriterState μ × World}

/-- The writer holds the file of that name, and this is what it has of it. -/
structure Holding (path : WString) (tape : Tape μ) (s : WriterState μ × World) : Prop where
  file : s.1.file = some ⟨path, tape.position⟩
  members : s.1.members = tape.members
  content : s.2.content path = some tape.content

/-- So many calls have been made in between. -/
structure Elapsed (calls : Nat) (s t : WriterState μ × World) : Prop where
  oracle : t.2.oracle = s.2.oracle
  tick : t.2.tick = s.2.tick + calls

theorem Elapsed.trans {calls more : Nat} {u : WriterState μ × World} (h : Elapsed calls s t)
    (h' : Elapsed more t u) : Elapsed (calls + more) s u :=
  ⟨h'.oracle.trans h.oracle, by rw [h'.tick, h.tick, Nat.add_assoc]⟩

section Content

variable {w : World} {content : List Byte}

theorem World.content_enter (h : w.content path = some content) :
    w.enter.content path = some content := by
  rw [World.content, Option.map_eq_some_iff] at h ⊢
  obtain ⟨node, present, same⟩ := h
  exact ⟨node, World.enter_of_some present, same⟩

theorem World.content_write (h : w.content path = some content) (offset : Nat) :
    (w.enter.perform (.write path offset data)).content path =
      some (Image.patch 0 content offset data) := by
  have entered := World.content_enter h
  rw [World.content, Option.map_eq_some_iff] at entered ⊢
  obtain ⟨node, present, rfl⟩ := entered
  exact ⟨_, Files.modify_self present, rfl⟩

theorem World.content_flush (h : w.content path = some content) :
    (w.enter.perform (.flush path)).content path = some content := by
  have entered := World.content_enter h
  rw [World.content, Option.map_eq_some_iff] at entered ⊢
  obtain ⟨node, present, rfl⟩ := entered
  exact ⟨_, Files.modify_self present, rfl⟩

end Content

section Calls

variable (h : Holding path tape s)

include h

/-- One `WriteFile`, whose result the caller may ignore: it is complete exactly if the demand
is met, and otherwise it leaves some part of the data. -/
theorem writeOnce_holding (nonempty : data ≠ []) :
    WP (writeOnce data)
      (fun written t => Elapsed 1 s t ∧
        (written = some data.length ↔ (Demand.write data.length).Met s.2.choice) ∧
        (∃ content position, Holding path ⟨content, position, tape.members⟩ t) ∧
        ((Demand.write data.length).Met s.2.choice → Holding path
          ⟨Image.patch 0 tape.content tape.position data, tape.position + data.length,
            tape.members⟩ t))
      (fun _ _ => False) s := by
  have positive := List.length_pos_iff.mpr nonempty
  have elapsed : s.2.enter.oracle = s.2.oracle ∧ s.2.enter.tick = s.2.tick + 1 :=
    ⟨s.2.enter_oracle, s.2.enter_tick⟩
  have kept := World.content_enter h.content
  rw [writeOnce, onFile_wp h.file]
  rcases writeFile_cases ⟨path, tape.position⟩ data s.2 with ⟨error, failed, e⟩ | ⟨fine, none, e⟩ |
    ⟨fine, some, e⟩ <;> rw [e]
  · have unmet : ¬(Demand.write data.length).Met s.2.choice := by
      rintro ⟨fine, -⟩
      rw [fine] at failed
      cases failed
    have short : (Option.none : Option Nat) = Option.some data.length ↔
        (Demand.write data.length).Met s.2.choice := by
      constructor
      · intro no
        cases no
      · exact fun met => (unmet met).elim
    exact ⟨⟨elapsed.1, elapsed.2⟩, short, ⟨_, _, rfl, h.members, kept⟩, fun met => (unmet met).elim⟩
  · have unmet : ¬(Demand.write data.length).Met s.2.choice := by
      rintro ⟨-, enough⟩
      rw [writeCount, Nat.min_eq_right enough] at none
      omega
    have short : Option.some 0 = Option.some data.length ↔
        (Demand.write data.length).Met s.2.choice := by
      constructor
      · intro no
        have zero := Option.some.inj no
        omega
      · exact fun met => (unmet met).elim
    exact ⟨⟨elapsed.1, elapsed.2⟩, short, ⟨_, _, rfl, h.members, kept⟩, fun met => (unmet met).elim⟩
  · refine ⟨⟨elapsed.1, elapsed.2⟩, ?_, ⟨_, _, rfl, h.members, World.content_write h.content _⟩,
      fun met => ?_⟩
    · rw [Option.some_inj, writeCount]
      constructor
      · exact fun whole => ⟨fine, Nat.le_trans whole.symm.le (Nat.min_le_left _ _)⟩
      · exact fun met => Nat.min_eq_right met.2
    · have complete : writeCount data s.2 = data.length := Nat.min_eq_right met.2
      have written : (s.2.enter.perform (.write path tape.position
          (data.take (writeCount data s.2)))).content path = _ :=
        World.content_write h.content tape.position
      rw [complete, List.take_length] at written ⊢
      exact ⟨rfl, h.members, written⟩

/-- One `SetFilePointerEx` from the beginning of the file. -/
theorem seekFile_holding (offset : UInt64) :
    WP (seekFile offset)
      (fun _ t => Elapsed 1 s t ∧
        (∃ position, Holding path ⟨tape.content, position, tape.members⟩ t) ∧
        ((Demand.seek offset).Met s.2.choice →
          Holding path ⟨tape.content, offset.toNat, tape.members⟩ t))
      (fun _ _ => False) s := by
  have kept := World.content_enter h.content
  rw [seekFile, onFile_wp h.file, setFilePointerEx]
  cases failure : s.2.choice.failure with
  | some error =>
      refine ⟨⟨s.2.enter_oracle, s.2.enter_tick⟩, ⟨_, rfl, h.members, kept⟩, fun met => ?_⟩
      cases failure.symm.trans met.1
  | none =>
      dsimp only
      by_cases large : 2 ^ 63 ≤ offset.toNat
      · rw [if_pos large]
        refine ⟨⟨s.2.enter_oracle, s.2.enter_tick⟩, ⟨_, rfl, h.members, kept⟩, fun met => ?_⟩
        exact absurd met.2 (Nat.not_lt_of_le large)
      · rw [if_neg large]
        exact ⟨⟨s.2.enter_oracle, s.2.enter_tick⟩, ⟨_, rfl, h.members, kept⟩,
          fun _ => ⟨rfl, h.members, kept⟩⟩

theorem flushFile_holding :
    WP flushFile
      (fun flushed t => Elapsed 1 s t ∧ (flushed = true ↔ Demand.flush.Met s.2.choice) ∧
        Holding path tape t)
      (fun _ _ => False) s := by
  rw [flushFile, onFile_wp h.file, flushFileBuffers]
  cases failure : s.2.choice.failure with
  | some error =>
      refine ⟨⟨s.2.enter_oracle, s.2.enter_tick⟩, ?_, rfl, h.members,
        World.content_enter h.content⟩
      constructor
      · intro no
        cases no
      · intro met
        cases failure.symm.trans met
  | none =>
      exact ⟨⟨s.2.enter_oracle, s.2.enter_tick⟩, ⟨fun _ => failure, fun _ => rfl⟩, rfl, h.members,
        World.content_flush h.content⟩

end Calls

/-- The program turns one tape into the other exactly where its demands are met. -/
def Performs (path : WString) (tape : Tape μ) (demands : List Demand) (x : WriterM μ Unit)
    (tape' : Tape μ) : Prop :=
  ∀ s, Holding path tape s →
    WP x (fun _ t => Granted s.2.oracle s.2.tick demands ∧ Holding path tape' t ∧
        Elapsed demands.length s t)
      (fun _ _ => ¬Granted s.2.oracle s.2.tick demands) s

namespace Performs

variable {x y : WriterM μ Unit} {demands more : List Demand}

theorem bind (first : Performs path tape demands x tape') (next : Performs path tape' more y tape'') :
    Performs path tape (demands ++ more) (x >>= fun _ => y) tape'' := by
  intro s h
  rw [WP.bind_iff]
  refine (first s h).mono ?_ fun _ t no granted => no (granted_append.mp granted).1
  rintro - t ⟨granted, held, later⟩
  have same : Granted t.2.oracle t.2.tick more ↔
      Granted s.2.oracle (s.2.tick + demands.length) more := by rw [later.oracle, later.tick]
  refine (next t held).mono ?_ fun _ u no granted => no (same.mpr (granted_append.mp granted).2)
  rintro - u ⟨granted', held', later'⟩
  refine ⟨granted_append.mpr ⟨granted, same.mp granted'⟩, held', ?_⟩
  rw [List.length_append]
  exact later.trans later'

theorem nothing : Performs path tape [] (pure () : WriterM μ Unit) tape :=
  fun _ h => ⟨trivial, h, rfl, rfl⟩

theorem setMembers (f : μ → μ) :
    Performs path tape [] (setMembers f) { tape with members := f tape.members } := by
  intro s h
  rw [setMembers_wp]
  exact ⟨trivial, ⟨h.file, congrArg f h.members, h.content⟩, rfl, rfl⟩

/-- A program that looks at the members of its writer. -/
theorem get {k : WriterState μ × World → WriterM μ Unit}
    (next : ∀ s, s.1.members = tape.members → Performs path tape demands (k s) tape') :
    Performs path tape demands (do let s ← get; k s) tape' := by
  intro s h
  rw [WP.bind_iff, WP.get_iff]
  exact next s h.members s h

/-- A buffer that must be written in one call. -/
theorem writeExactly (nonempty : data ≠ []) :
    Performs path tape [.write data.length] (writeExactly data)
      ⟨Image.patch 0 tape.content tape.position data, tape.position + data.length,
        tape.members⟩ := by
  intro s h
  rw [PhylaRam.writeExactly, WP.bind_iff]
  refine (writeOnce_holding h nonempty).mono ?_ fun _ _ no => no.elim
  rintro written t ⟨elapsed, whole, -, held⟩
  by_cases complete : written = some data.length
  · rw [if_pos complete]
    have met := whole.mp complete
    exact ⟨⟨met, trivial⟩, held met, elapsed⟩
  · rw [if_neg complete]
    exact fun granted => complete (whole.mpr granted.1)

/-- `if (!FlushFileBuffers(..)) { lastError_ = GetLastError(); return false; }` -/
theorem flushFile :
    Performs path tape [.flush]
      (do
        let flushed ← PhylaRam.flushFile
        if flushed then pure () else refuseWithLastError : WriterM μ Unit) tape := by
  intro s h
  rw [WP.bind_iff]
  refine (flushFile_holding h).mono ?_ fun _ _ no => no.elim
  rintro flushed t ⟨elapsed, met, held⟩
  cases flushed with
  | true => exact ⟨⟨met.mp rfl, trivial⟩, held, elapsed⟩
  | false => exact fun granted => Bool.false_ne_true (met.mpr granted.1)

end Performs

end PhylaRam
