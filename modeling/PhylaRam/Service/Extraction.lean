import PhylaRam.Service.Cleanup

/-!
# What the extraction of the driver leaves behind

Up to the creation of the file an extraction makes a bounded number of calls and creates nothing
else than directories. When it succeeds, the new file has got every byte of the driver. When it
fails, there is no new file, or one attempt was made to delete it.
-/

namespace PhylaRam

open Program DriverResource

variable {w t u : ServiceWorld} {path : WString}

/-! ### Bounded observations -/

/-- So many calls at the most, none of which creates a file or a service. -/
structure Modest (n : Nat) (events : List ServiceEvent) : Prop where
  few : events.length ≤ n
  creates : ∀ event ∈ events, event.call.creates = false

section Modest

variable {m n : Nat} {call : ServiceCall}

theorem Modest.append {first later : List ServiceEvent} (h : Modest m first)
    (h' : Modest n later) : Modest (m + n) (first ++ later) := by
  refine ⟨?_, List.forall_mem_append.mpr ⟨h.creates, h'.creates⟩⟩
  rw [List.length_append]
  exact Nat.add_le_add h.few h'.few

theorem Modest.more {events : List ServiceEvent} (h : Modest m events) (le : m ≤ n) :
    Modest n events := ⟨h.few.trans le, h.creates⟩

theorem modest_nil : Modest 0 [] := ⟨Nat.le_refl 0, fun _ no => absurd no List.not_mem_nil⟩

/-- What both parts of a run are. -/
theorem Observed.modest (h : Observed (Modest m) w t) (h' : Observed (Modest n) t u) :
    Observed (Modest (m + n)) w u := h.trans h' fun _ _ => .append

theorem Observed.more (h : Observed (Modest m) w t) (le : m ≤ n) : Observed (Modest n) w t :=
  h.mono fun _ modest => modest.more le

/-- Two descriptions of one period. -/
theorem Observed.and {P Q : List ServiceEvent → Prop} (h : Observed P w t) (h' : Observed Q w t) :
    Observed (fun events => P events ∧ Q events) w t := by
  obtain ⟨events, grown, holds⟩ := h
  obtain ⟨events', grown', holds'⟩ := h'
  obtain rfl := List.append_cancel_left (grown.symm.trans grown')
  exact ⟨events, grown, holds, holds'⟩

theorem observed_none (w : ServiceWorld) : Observed (Modest 0) w w :=
  ⟨[], (List.append_nil _).symm, modest_nil⟩

theorem modest_after (call : ServiceCall) (other : call.creates = false) (w : ServiceWorld) :
    Observed (Modest 1) w (w.after call) := by
  refine (observed_after call w).mono ?_
  rintro _ rfl
  refine ⟨Nat.le_refl 1, fun event among => ?_⟩
  obtain rfl := List.mem_singleton.mp among
  exact other

end Modest

/-! ### The calls before the file -/

/-- However the command ends, it has made so many calls at the most and has created nothing. -/
def Costs {α : Type} (n : Nat) (x : Extraction α) : Prop :=
  ∀ w, WP x (fun _ t => Observed (Modest n) w t) (fun _ t => Observed (Modest n) w t) w

namespace Costs

variable {α β : Type} {m n : Nat} {x : Extraction α}

theorem pure (a : α) : Costs 0 (pure a : Extraction α) := observed_none

theorem get : Costs 0 (get : Extraction ServiceWorld) := observed_none

theorem bind {f : α → Extraction β} (first : Costs m x) (next : ∀ a, Costs n (f a)) :
    Costs (m + n) (x >>= f) := fun w =>
  WP.bind_iff.mpr ((first w).mono
    (fun a t seen => (next a t).mono (fun _ _ => seen.modest) fun _ _ => seen.modest)
    fun _ _ seen => seen.more (Nat.le_add_right m n))

theorem attempt {call : ServiceCall} (other : call.creates = false) : Costs 1 (attempt call) :=
  modest_after call other

theorem refuseIf (c : Prop) [Decidable c] : Costs 0 (refuseIf c) := fun w =>
  WP.ite_iff.mpr ⟨fun _ => observed_none w, fun _ => observed_none w⟩

theorem demand {call : ServiceCall} (other : call.creates = false) : Costs 1 (demand call) :=
  (attempt other).bind fun _ => refuseIf _

theorem getFileAttributes (path : WString) : Costs 1 (getFileAttributes path) :=
  get.bind fun _ => (attempt rfl).bind fun _ => pure _

theorem applyProtectedAdminDacl (path : WString) : Costs 3 (applyProtectedAdminDacl path) :=
  (demand rfl).bind fun _ => (demand rfl).bind fun _ => demand rfl

theorem createSecureDirectory (directory : WString) : Costs 6 (createSecureDirectory directory) :=
  (demand rfl).bind fun _ => (attempt rfl).bind fun _ => get.bind fun _ =>
    (refuseIf _).bind fun _ => (getFileAttributes directory).bind fun _ =>
      (refuseIf _).bind fun _ => applyProtectedAdminDacl directory

theorem baseDirectory : Costs 0 baseDirectory := by
  intro w
  rw [DriverResource.baseDirectory, WP.bind_iff, WP.get_iff, WP.ite_iff]
  refine ⟨fun _ => observed_none w, fun _ => ?_⟩
  rw [WP.ite_iff]
  exact ⟨fun _ => observed_none w, fun _ => observed_none w⟩

theorem generateUnpredictableDriverPath : Costs 13 generateUnpredictableDriverPath :=
  have resolved : Costs 12 resolveExtractionDirectory :=
    baseDirectory.bind fun _ => (createSecureDirectory _).bind fun _ =>
      (createSecureDirectory _).bind fun _ => pure _
  resolved.bind fun _ => get.bind fun _ => (demand rfl).bind fun _ => pure _

theorem lockDriver : Costs 3 lockDriver :=
  (demand rfl).bind fun _ => (demand rfl).bind fun _ => get.bind fun _ => (demand rfl).bind fun _ =>
    (refuseIf _).bind fun _ => pure _

end Costs

theorem demand_wp {call : ServiceCall} {post : Unit → ServiceWorld → Prop}
    {stop : Unit → ServiceWorld → Prop}
    (succeeds : w.choice.failure.isNone = true → post () (w.after call))
    (fails : w.choice.failure.isNone = false → stop () (w.after call)) :
    WP (DriverResource.demand call) post stop w := by
  rw [DriverResource.demand, WP.bind_iff, DriverResource.attempt, WP.modifyGet_iff,
    DriverResource.refuseIf, WP.ite_iff]
  exact ⟨fun no => fails (Bool.not_eq_true _ ▸ no), fun yes => succeeds (not_not.mp yes)⟩

theorem lockDriver_wp (w : ServiceWorld) :
    WP lockDriver (fun size t => size = w.resourceSize.toNat ∧ Observed (Modest 3) w t)
      (fun _ t => Observed (Modest 3) w t) w := by
  have value : WP lockDriver (fun size _ => size = w.resourceSize.toNat) (fun _ _ => True) w := by
    rw [lockDriver, WP.bind_iff]
    refine demand_wp (fun _ => ?_) fun _ => trivial
    rw [WP.bind_iff]
    refine demand_wp (fun _ => ?_) fun _ => trivial
    rw [WP.bind_iff, WP.get_iff, WP.bind_iff]
    refine demand_wp (fun _ => ?_) fun _ => trivial
    rw [WP.bind_iff, DriverResource.refuseIf, WP.ite_iff]
    exact ⟨fun _ => trivial, fun _ => rfl⟩
  exact (value.and (Costs.lockDriver w)).mono (fun _ _ h => h) fun _ _ h => h.2

/-! ### The bytes of the file -/

/-- So many bytes were written, by calls that each wrote something. -/
inductive Writes : Nat → List ServiceEvent → Prop
  | nil : Writes 0 []
  | cons {written rest : Nat} {write : ServiceEvent} {later : List ServiceEvent}
      (call : write.call = .writeFile written) (clean : write.failure = none)
      (progress : written ≠ 0) (more : Writes rest later) :
      Writes (written + rest) (write :: later)

theorem Writes.length_le {size : Nat} {events : List ServiceEvent} (h : Writes size events) :
    events.length ≤ size := by
  induction h with
  | nil => exact Nat.le_refl 0
  | cons call clean progress more ih =>
      rw [List.length_cons]
      omega

/-- An attempt to delete the file comes last. -/
def Withdrawn (size : Nat) (path : WString) (events : List ServiceEvent) : Prop :=
  events.length ≤ size + 1 ∧ ∃ before delete, events = before ++ [delete] ∧
    delete.call = .deleteFile path

theorem discard_wp (path : WString) (w : ServiceWorld) :
    WP (discard path) (fun _ _ => False) (fun _ t => Observed (Withdrawn 0 path) w t) w :=
  ⟨_, rfl, Nat.le_refl 1, [], _, rfl, rfl⟩

theorem Withdrawn.cons {m n : Nat} {event : ServiceEvent} {events : List ServiceEvent}
    (h : Withdrawn m path events) (le : m < n) : Withdrawn n path (event :: events) := by
  obtain ⟨few, before, delete, rfl, call⟩ := h
  refine ⟨?_, event :: before, delete, rfl, call⟩
  rw [List.length_cons]
  omega

theorem Withdrawn.more {m n : Nat} {events : List ServiceEvent} (h : Withdrawn m path events)
    (le : m ≤ n) : Withdrawn n path events :=
  ⟨h.1.trans (Nat.succ_le_succ le), h.2⟩

theorem Withdrawn.after_writes {m n : Nat} {writes events : List ServiceEvent}
    (h : Withdrawn n path events) (wrote : Writes m writes) :
    Withdrawn (m + n) path (writes ++ events) := by
  obtain ⟨few, before, delete, rfl, call⟩ := h
  have short := wrote.length_le
  refine ⟨?_, writes ++ before, delete, (List.append_assoc ..).symm, call⟩
  rw [List.length_append]
  omega

theorem writeLoop_wp (path : WString) (size : Nat) (w : ServiceWorld) :
    WP (writeLoop path size) (fun _ t => Observed (Writes size) w t)
      (fun _ t => Observed (Withdrawn size path) w t) w := by
  induction size using Nat.strongRecOn generalizing w with
  | ind size ih =>
      rw [writeLoop]
      by_cases done : size = 0
      · rw [if_pos done]
        exact ⟨[], (List.append_nil _).symm, done ▸ .nil⟩
      · rw [if_neg done]
        have wrote := observed_after (.writeFile (min w.choice.written size)) w
        rw [WP.bind_iff, DriverResource.writeFile, WP.bind_iff, WP.get_iff, WP.bind_iff,
          DriverResource.attempt, WP.modifyGet_iff, WP.pure_iff]
        dsimp only
        rw [WP.ite_iff]
        constructor
        · intro failed
          refine (discard_wp path _).mono (fun _ _ no => no.elim) fun _ t withdrawn => ?_
          refine wrote.trans withdrawn ?_
          rintro _ _ rfl withdrawn
          exact withdrawn.cons (Nat.pos_of_ne_zero done)
        · intro succeeded
          obtain ⟨clean, progress⟩ := not_or.mp succeeded
          have answered := (after_succeeded (.writeFile (min w.choice.written size))
            (not_not.mp clean)).2
          have split : min w.choice.written size + (size - min w.choice.written size) = size := by
            omega
          refine (ih _ (by omega) _).mono (fun _ t more => ?_) fun _ t withdrawn => ?_
          · refine wrote.trans more ?_
            rintro _ _ rfl more
            have all := Writes.cons rfl answered progress more
            rwa [split] at all
          · refine wrote.trans withdrawn ?_
            rintro _ _ rfl withdrawn
            exact withdrawn.cons (by omega)

/-! ### What an extraction tells -/

/-- The driver was written to a new file: so many bytes, which were flushed. -/
inductive Extracted (size : Nat) (path : WString) : List ServiceEvent → Prop
  | mk {before writes : List ServiceEvent} {create flush : ServiceEvent} (early : Modest 17 before)
      (creates : create.call = .createFile path) (created : create.failure = none)
      (wrote : Writes size writes) (flushes : flush.call = .flushFile)
      (flushed : flush.failure = none) : Extracted size path (before ++ create :: (writes ++ [flush]))

/-- No file was created, or an attempt to delete it comes last. -/
inductive Unextracted : List ServiceEvent → Prop
  | uncreated {events : List ServiceEvent}
      (none : ∀ event ∈ events, ∀ path, event.call = .createFile path → event.failure ≠ none) :
      Unextracted events
  | withdrawn {before after : List ServiceEvent} {create delete : ServiceEvent} {path : WString}
      (created : create.call = .createFile path) (deleted : delete.call = .deleteFile path) :
      Unextracted (before ++ create :: (after ++ [delete]))

theorem Extracted.length_le {size : Nat} {events : List ServiceEvent}
    (h : Extracted size path events) : events.length ≤ size + 19 := by
  obtain ⟨early, -, -, wrote, -, -⟩ := h
  have bounds := And.intro early.few wrote.length_le
  simp only [List.length_append, List.length_cons, List.length_nil]
  omega

theorem Unextracted.of_modest {n : Nat} {events : List ServiceEvent} (h : Modest n events) :
    Unextracted events := by
  refine .uncreated fun event among path call => ?_
  have other := h.creates event among
  rw [call] at other
  cases other

theorem Withdrawn.unextracted {size : Nat} {before later : List ServiceEvent}
    {create : ServiceEvent} (h : Withdrawn (size + 1) path later) (few : Modest 17 before)
    (created : create.call = .createFile path) :
    (before ++ [create] ++ later).length ≤ size + 20 ∧ Unextracted (before ++ [create] ++ later) := by
  obtain ⟨bound, after, delete, rfl, deleted⟩ := h
  have early := few.few
  refine ⟨?_, ?_⟩
  · rw [List.length_append, List.length_append, List.length_singleton]
    omega
  · rw [List.append_assoc, List.singleton_append]
    exact .withdrawn created deleted

/-- How an extraction ends. -/
theorem extractEmbeddedDriver_wp (w : ServiceWorld) :
    WP extractEmbeddedDriver
      (fun path t => Observed (Extracted w.resourceSize.toNat path) w t)
      (fun _ t => Observed (fun events => events.length ≤ w.resourceSize.toNat + 20 ∧
        Unextracted events) w t) w := by
  have modest {n : Nat} {t : ServiceWorld} (le : n ≤ 20) (seen : Observed (Modest n) w t) :
      Observed (fun events => events.length ≤ w.resourceSize.toNat + 20 ∧ Unextracted events) w t :=
    seen.mono fun _ few => ⟨few.few.trans (le.trans (Nat.le_add_left 20 _)), .of_modest few⟩
  rw [extractEmbeddedDriver, WP.bind_iff]
  refine (lockDriver_wp w).mono ?_ fun _ t locked => modest (by decide) locked
  rintro _ t ⟨rfl, locked⟩
  rw [WP.bind_iff]
  refine (Costs.generateUnpredictableDriverPath t).mono (fun path t named => ?_)
    fun _ t named => modest (by decide) (locked.modest named)
  rw [WP.bind_iff]
  refine (Costs.demand rfl t).mono (fun _ t secured => ?_)
    fun _ t secured => modest (by decide) ((locked.modest named).modest secured)
  have early := (locked.modest named).modest secured
  have creation := early.trans (observed_after (.createFile path.val) t)
    (R := fun events => ∃ before, events = before ++ [t.event (.createFile path.val)] ∧
      Modest 17 before) fun before _ modest same => ⟨before, same ▸ rfl, modest⟩
  have withdraw {v : ServiceWorld} {n : Nat} (le : n ≤ w.resourceSize.toNat + 1)
      (withdrawn : Observed (Withdrawn n path.val) (t.after (.createFile path.val)) v) :
      Observed (fun events => events.length ≤ w.resourceSize.toNat + 20 ∧ Unextracted events)
        w v := by
    refine creation.trans withdrawn ?_
    rintro _ later ⟨before, rfl, few⟩ withdrawn
    exact (withdrawn.more le).unextracted few rfl
  rw [WP.bind_iff]
  refine demand_wp (fun created => ?_) fun refused => ?_
  · have clean := (after_succeeded (.createFile path.val) created).2
    rw [WP.bind_iff]
    refine (writeLoop_wp path _ _).mono (fun _ u written => ?_)
      fun _ _ withdrawn => withdraw (Nat.le_succ _) withdrawn
    rw [WP.bind_iff, DriverResource.attempt, WP.modifyGet_iff]
    dsimp only
    have flush := observed_after .flushFile u
    rw [WP.ite_iff]
    constructor
    · intro failed
      rw [WP.bind_iff]
      refine (discard_wp path _).mono (fun _ _ no => no.elim) fun _ v withdrawn => ?_
      refine withdraw (Nat.le_refl _) (written.trans (flush.trans withdrawn
        (R := Withdrawn 1 path.val) ?_) ?_)
      · rintro _ _ rfl withdrawn
        exact withdrawn.cons Nat.one_pos
      · intro writes _ wrote withdrawn
        exact withdrawn.after_writes wrote
    · intro succeeded
      have flushed := (after_succeeded .flushFile (not_not.mp succeeded)).2
      refine creation.trans (written.trans flush (R := fun events => ∃ writes,
        events = writes ++ [u.event .flushFile] ∧ Writes w.resourceSize.toNat writes) ?_) ?_
      · rintro writes _ wrote rfl
        exact ⟨writes, rfl, wrote⟩
      · rintro _ _ ⟨before, rfl, few⟩ ⟨writes, rfl, wrote⟩
        rw [List.append_assoc, List.singleton_append]
        exact .mk few rfl clean wrote rfl flushed
  · have failed := (after_failed (.createFile path.val) refused).2
    refine creation.mono ?_
    rintro _ ⟨before, rfl, few⟩
    refine ⟨?_, .uncreated fun event among other call => ?_⟩
    · rw [List.length_append, List.length_singleton]
      exact (Nat.succ_le_succ few.few).trans (by omega)
    · rcases List.mem_append.mp among with early | last
      · have creates := few.creates event early
        rw [call] at creates
        cases creates
      · rw [List.mem_singleton.mp last, failed]
        exact Option.some_ne_none _

end PhylaRam
