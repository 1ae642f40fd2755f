import PhylaRam.Acquire.Refusal
import PhylaRam.Acquire.Success

/-!
# Only collaborators stop the engine

Over a valid topology the engine's own conditions hold in every execution, whatever the
collaborators answer. So behind every `return false` there is a call that a collaborator refused,
and `acquire_refused` finds it.
-/

namespace PhylaRam

open Program Relation Interval

variable {δ ω η κ : Type} {C : Collaborators δ ω η κ} {runs : List MemoryRun} {run : MemoryRun}
  {s t : AcquireState δ ω η κ}

/-- None of the engine's own conditions is the cause. -/
def Outside (cause : StopCause) (_ : AcquireState δ ω η κ) : Prop := cause.outer = true

section Commands

variable {r : ReadResult}

theorem outside_update {data : List Byte} :
    WP (update C data) (fun _ t => t = { s with
        hasher := (C.hasher.update data s.hasher).2
        calls := s.calls ++ [.update data] })
      Outside s := by
  simp only [update, WP.bind_iff, record_wp, WP.modifyGet_iff, require_wp]
  exact ⟨fun _ => trivial, fun _ => rfl⟩

theorem outside_writeAt {offset : UInt64} {data : List Byte} :
    WP (writeAt C offset data) (fun _ t => t = { s with
        writer := (C.writer.writeAt offset data s.writer).2
        calls := s.calls ++ [.writeAt offset data] })
      Outside s := by
  simp only [writeAt, WP.bind_iff, record_wp, WP.modifyGet_iff, require_wp]
  exact ⟨fun _ => trivial, fun _ => rfl⟩

theorem outside_hashZerosTo {next : UInt64} (ordered : s.hashPosition.toNat ≤ next.toNat) :
    WP (hashZerosTo C next) (fun _ t => t = afterGap C next s) Outside s := by
  simp only [hashZerosTo, WP.bind_iff, WP.get_iff, require_wp, decide_eq_true_eq,
    UInt64.le_iff_toNat_le]
  refine ⟨fun _ => ?_, fun behind => (behind ordered).elim⟩
  by_cases gap : s.hashPosition < next
  · simp only [if_pos gap, updateZeros, WP.bind_iff, record_wp, WP.modifyGet_iff, require_wp,
      WP.modify_iff]
    refine ⟨fun _ => ?_, fun _ => rfl⟩
    simp [afterGap, gapReply, gapCalls, gap]
  · simp only [if_neg gap, WP.modify_iff]
    simp [afterGap, gapReply, gapCalls, gap]

theorem outside_pace : WP (pace C) (fun _ _ => True) Outside s := by
  simp only [pace, WP.bind_iff, WP.modifyGet_iff, require_wp]
  exact ⟨fun _ => trivial, fun _ => rfl⟩

theorem outside_advance {counter : AcquireState δ ω η κ → UInt64}
    {store : UInt64 → AcquireState δ ω η κ → AcquireState δ ω η κ} {increment : UInt64}
    {next : AcquireM δ ω η κ Unit} (fits : (counter s).toNat + increment.toNat < 2 ^ 64)
    (h : WP next (fun _ _ => True) Outside (store (counter s + increment) s)) :
    WP (advance counter store increment >>= fun _ => next) (fun _ _ => True) Outside s :=
  WP.bind_iff.mpr ((advance_guarded counter store increment s).wp fits h)

/-- With room for the bytes, only the hasher, the writer and the clock can stop `keepBytes`. -/
theorem outside_keepBytes (room : Room r s) :
    WP (keepBytes C r) (fun _ _ => True) Outside s := by
  have size := UInt32.toNat_toUInt64 r.copied
  have address := room.address_fits
  have offset := room.offset_fits
  have processed := room.processed_fits
  have acquired := room.acquired_fits
  have transferred := room.transferred_fits
  rw [← size] at address offset processed acquired transferred
  unfold keepBytes
  rw [WP.bind_iff]
  refine (outside_hashZerosTo room.ordered).mono ?_ (fun _ _ refused => refused)
  rintro - _ rfl
  rw [WP.bind_iff]
  refine outside_writeAt.mono ?_ (fun _ _ refused => refused)
  rintro - _ rfl
  rw [WP.bind_iff]
  refine outside_update.mono ?_ (fun _ _ refused => refused)
  rintro - _ rfl
  exact outside_advance address <| outside_advance offset <| outside_advance processed <|
    outside_advance acquired <| outside_advance transferred outside_pace

/-- A load of the flag and a read, as both loops begin. -/
theorem outside_request {size : AcquireState δ ω η κ → UInt32}
    {post : AcquireState δ ω η κ → ReadResult → AcquireState δ ω η κ → Prop}
    (answered : ∀ r, Answers C run (size (afterLoad C s)) s r →
      post (afterLoad C s) r (afterRequest C run (size (afterLoad C s)) s)) :
    WP (checkCancelled C) (fun _ m => WP (readRun C run (size m)) (post m) Outside m)
      Outside s := by
  rw [checkCancelled_wp]
  refine ⟨fun clear => ?_, fun _ => rfl⟩
  rw [readRun_wp]
  exact ⟨fun r reply => ⟨fun valid => answered r ⟨clear, reply, valid⟩, fun _ => rfl⟩, fun _ => rfl⟩

theorem outside_endSession : WP (endSession C) (fun _ _ => True) Outside s := by
  simp only [endSession, WP.bind_iff, record_wp, WP.modifyGet_iff]
  cases (C.device.endSession s.device).1 with
  | none => rfl
  | some changed => trivial

end Commands

section Loops

theorem outside_pageBody (valid : run.Valid) {chunkEnd : UInt64}
    (before : s.offsetWithinRun.toNat < chunkEnd.toNat)
    (within : chunkEnd.toNat ≤ run.length.toNat) (counted : Counted run s) :
    WP (pageBody C run chunkEnd) (fun _ t => Counted run t) Outside s := by
  have stops : WP (pageBody C run chunkEnd) (fun _ _ => True) Outside s := by
    have request : Request run s (pageRequest run chunkEnd s) :=
      (pageRequest_spec valid before within).1
    have same : pageRequest run chunkEnd (afterLoad C s) = pageRequest run chunkEnd s := rfl
    simp only [pageBody, WP.bind_iff, WP.get_iff]
    refine outside_request fun r answers => ?_
    rw [same] at answers ⊢
    rw [keepOrSkip, WP.ite_iff]
    refine ⟨fun _ => ?_, fun _ => ?_⟩ <;> rw [WP.bind_iff]
    · exact outside_keepBytes (counted.room valid request answers)
    · have can := counted.skip (C := C) valid request
      generalize (pageRequest run chunkEnd s).toUInt64 = length at can ⊢
      exact (skipUnreadable_guarded _ _ _ _).wp can trivial
  refine (stops.and (pageBody_wp C run chunkEnd s)).mono (fun flow t h => ?_)
    (fun _ _ h => h.1)
  exact (h.2.toStep valid before within).counted valid counted

theorem outside_pageLoop (valid : run.Valid) {chunkEnd : UInt64}
    (within : chunkEnd.toNat ≤ run.length.toNat) (counted : Counted run s) :
    WP (pageLoop C run chunkEnd) (fun _ t => Counted run t) Outside s := by
  refine whileLoop_wp (Counted run) (Counted run) counted ?_ (fun _ h _ => h)
  intro u h before
  rw [decide_eq_true_eq, UInt64.lt_iff_toNat_lt] at before
  refine (outside_pageBody valid before within h).mono (fun flow t h => ?_) (fun _ _ h => h)
  cases flow <;> exact h

theorem outside_isolateWindow (valid : run.Valid) {requested : UInt32} {r : ReadResult}
    (le : r.copied.toNat ≤ requested.toNat) (counted : Counted run s)
    (within : s.offsetWithinRun.toNat + (requested.toNat - r.copied.toNat) ≤ run.length.toNat) :
    WP (isolateWindow C run requested r) (fun _ t => Counted run t) Outside s := by
  have fits := valid.fits
  rw [isolateWindow, WP.ite_iff]
  refine ⟨fun _ => ?_, fun _ => counted⟩
  simp only [WP.bind_iff, WP.get_iff, require_wp, decide_eq_true_eq, uint64Max,
    Word.le_max_sub_iff, Word.toNat_sub32_of_le le]
  refine ⟨fun window => outside_pageLoop valid ?_ counted, fun overflow => by omega⟩
  rw [windowEnd_toNat le (by omega)]
  exact Nat.min_le_left _ _

theorem outside_chunkBody (valid : run.Valid)
    (before : s.offsetWithinRun.toNat < run.length.toNat)    (counted : Counted run s) :
    WP (chunkBody C run) (fun _ t => Counted run t) Outside s := by
  have request : Request run s (bulkRequestBytes run s.offsetWithinRun) := bulkRequest_spec before
  have same : bulkRequestBytes run (afterLoad C s).offsetWithinRun =
      bulkRequestBytes run s.offsetWithinRun := rfl
  simp only [chunkBody, WP.bind_iff, WP.get_iff]
  refine outside_request fun r answers => ?_
  rw [same] at answers ⊢
  have room := counted.room valid request answers
  have within := request.within
  have kept : WP (keepCopied C r) (fun _ _ => True) Outside
      (afterRequest C run (bulkRequestBytes run s.offsetWithinRun) s) := by
    rw [keepCopied, WP.ite_iff]
    exact ⟨fun _ => outside_keepBytes room, fun _ => trivial⟩
  refine (kept.and (keepCopied_guarded r _)).mono ?_ (fun _ _ h => h.1)
  rintro - _ ⟨-, can, rfl⟩
  have moved := keepCopied_offset can
  change _ = s.offsetWithinRun.toNat + r.copied.toNat at moved
  have le : r.copied.toNat ≤ (bulkRequestBytes run s.offsetWithinRun).toNat :=
    answers.valid.copied_le
  refine outside_isolateWindow valid le ?_ (by rw [moved]; omega)
  exact (Step.first request answers can).counted valid counted

theorem outside_runLoop (valid : run.Valid) (counted : Counted run s) :
    WP (runLoop C run) (fun _ t => Counted run t) Outside s := by
  refine whileLoop_wp (Counted run) (Counted run) counted ?_ (fun _ h _ => h)
  intro u h before
  rw [decide_eq_true_eq, UInt64.lt_iff_toNat_lt] at before
  rw [WP.bind_iff]
  exact outside_chunkBody valid before h

/-- Over ordered runs the counters stay below the end of the last run. -/
theorem outside_acquireRuns {rest : List MemoryRun} (valid : ∀ run ∈ rest, run.Valid)
    (ordered : Ordered (runIntervals rest)) {lo hi : Nat}
    (above : ∀ run ∈ rest, lo ≤ run.base.toNat) (below : ∀ run ∈ rest, run.interval.stop ≤ hi)
    (le : lo ≤ hi) (under : Under lo s) :
    WP (acquireRuns C rest) (fun _ t => Under hi t) Outside s := by
  induction rest generalizing s lo with
  | nil => exact under.mono le
  | cons run rest ih =>
      obtain ⟨before, later⟩ := ordered_cons.mp ordered
      have runValid := valid run List.mem_cons_self
      simp only [acquireRuns, acquireRun, WP.bind_iff, require_wp, WP.modify_iff, runValid_iff]
      refine ⟨fun _ => ?_, fun invalid => (invalid runValid).elim⟩
      have start := counted_atRunStart (under.mono (above run List.mem_cons_self))
      refine (outside_runLoop runValid start).mono (fun _ t counted => ?_) (fun _ _ h => h)
      have end_le : run.base.toNat + t.offsetWithinRun.toNat ≤ run.interval.stop :=
        Nat.add_le_add_left counted.within _
      refine ih (fun r member => valid r (List.mem_cons_of_mem _ member)) later
        (fun r member => ?_) (fun r member => below r (List.mem_cons_of_mem _ member))
        (below run List.mem_cons_self) (counted.under.mono end_le)
      exact before r.interval (List.mem_map_of_mem member)

end Loops

/-- Over a valid topology no condition of the engine itself stops `Acquire`. -/
theorem acquire_outside {topology : Topology} (valid : topology.Valid)
    (asked : (C.device.query s.device).1 = some topology) (position : s.hashPosition = 0)
    (processed : s.processedPhysicalBytes = 0) (transferred : s.transferredBytes = 0) :
    WP (acquire C) (fun _ _ => True) Outside s := by
  have under : Under 0 (afterQuery C topology s) := under_afterQuery position processed transferred
  simp only [acquire, beginSummary, WP.bind_iff, WP.modify_iff, WP.modifyGet_iff, asked,
    require_wp, WP.pure_iff, WP.get_iff, usable_iff]
  refine ⟨fun _ => ?_, fun unusable => (unusable valid.usable).elim⟩
  have loop := outside_acquireRuns (C := C) valid.runs valid.ordered (fun _ _ => Nat.zero_le _)
    valid.highestEnd_le (Nat.zero_le _) under
  refine (loop.and (acquireRuns_trace C topology.runs (afterQuery C topology s))).mono ?_
    (fun _ _ h => h.1)
  rintro - m ⟨low, traversal⟩
  have size : m.summary.logicalSize = topology.highestEnd := traversal.sameTopology.logicalSize
  refine (outside_hashZerosTo (by rw [size]; exact low.hashed)).mono ?_ (fun _ _ h => h)
  rintro - _ rfl
  exact outside_endSession

/-- Over a valid topology `Acquire` returns true unless a collaborator refuses a call. -/
theorem acquire_refused {topology : Topology} (valid : topology.Valid)
    (asked : (C.device.query s.device).1 = some topology) (position : s.hashPosition = 0)
    (processed : s.processedPhysicalBytes = 0) (transferred : s.transferredBytes = 0) :
    WP (acquire C) (fun _ _ => True) (Refused C topology.runs (afterQuery C topology s)) s :=
  ((acquire_outside valid asked position processed transferred).and (acquire_blames asked)).mono
    (fun _ _ _ => trivial) fun _ _ h => h.2 h.1

end PhylaRam
