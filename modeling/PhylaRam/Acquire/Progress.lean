import PhylaRam.Acquire.Maintain
import PhylaRam.Acquire.Partition

/-!
# Progress against any device

Nothing is assumed of the replies here. Every outer iteration moves the position within the
run, and every read of the page loop is paid for by a byte it passes, so a run costs at most
two reads for each of its bytes: one as part of a window and one as part of a page.
-/

namespace PhylaRam

open Program Interval

variable {δ ω η κ α β : Type} {C : Collaborators δ ω η κ}

def Call.isRead : Call → Bool
  | .read .. => true
  | _ => false

/-- The number of `Read` calls. -/
def reads (calls : List Call) : Nat := calls.countP Call.isRead

@[simp] theorem reads_append (calls more : List Call) :
    reads (calls ++ more) = reads calls + reads more := List.countP_append

section Commands

variable {n m : Nat} {r : ReadResult} {s : AcquireState δ ω η κ}

/-- The position within the run and the number of reads made so far. -/
def At (n m : Nat) (s : AcquireState δ ω η κ) : Prop :=
  s.offsetWithinRun.toNat = n ∧ reads s.calls = m

theorem record_at {call : Call} (other : call.isRead = false) :
    Keeps (At n m) (record call : AcquireM δ ω η κ Unit) := by
  have none : reads [call] = 0 := by simp [reads, other]
  refine .modify fun s h => ⟨h.1, Eq.trans ?_ h.2⟩
  show reads (s.calls ++ [call]) = reads s.calls
  rw [reads_append, none]
  rfl

theorem checkCancelled_at : Keeps (At n m) (checkCancelled C) :=
  .bind (.modifyGet fun _ h => h) fun _ => require_keeps

theorem updateZeros_at (length : UInt64) : Keeps (At n m) (updateZeros C length) :=
  .bind (record_at rfl) fun _ => .bind (.modifyGet fun _ h => h) fun _ => require_keeps

theorem update_at (data : List Byte) : Keeps (At n m) (update C data) :=
  .bind (record_at rfl) fun _ => .bind (.modifyGet fun _ h => h) fun _ => require_keeps

theorem writeAt_at (offset : UInt64) (data : List Byte) : Keeps (At n m) (writeAt C offset data) :=
  .bind (record_at rfl) fun _ => .bind (.modifyGet fun _ h => h) fun _ => require_keeps

theorem pace_at : Keeps (At n m) (pace C) :=
  .bind (.modifyGet fun _ h => h) fun _ => require_keeps

theorem hashZerosTo_at (next : UInt64) : Keeps (At n m) (hashZerosTo C next) := by
  refine .bind .get fun s => .bind require_keeps fun _ => ?_
  split
  · exact .bind (updateZeros_at _) fun _ => .modify fun _ h => h
  · exact .modify fun _ h => h

theorem advance_at {counter : AcquireState δ ω η κ → UInt64}
    {store : UInt64 → AcquireState δ ω η κ → AcquireState δ ω η κ} {increment : UInt64}
    (offset : ∀ v s, (store v s).offsetWithinRun = s.offsetWithinRun)
    (calls : ∀ v s, (store v s).calls = s.calls) :
    Keeps (At n m) (advance counter store increment) := by
  refine .bind .get fun s => ?_
  split
  · exact .throw _
  · refine .modify fun s h => ?_
    rwa [At, offset, calls]

theorem recordUnreadable_at (start length : UInt64) (status : Int32) :
    Keeps (At n m) (recordUnreadable start length status : AcquireM δ ω η κ Unit) := by
  refine .bind (record_at rfl) fun _ => .bind .get fun s => ?_
  split
  · exact .throw _
  · exact .modify fun _ h => h

/-- The position moves by `length`, unless the program stops before. -/
def Moves (length : Nat) (x : AcquireM δ ω η κ α) : Prop :=
  ∀ n m s, At n m s →
    WP x (fun _ => At (n + length) m) (fun _ t => At n m t ∨ At (n + length) m t) s

theorem Moves.after {length : Nat} {x : AcquireM δ ω η κ α} {y : α → AcquireM δ ω η κ β}
    (stays : ∀ n m, Keeps (At n m) x) (moves : ∀ a, Moves length (y a)) :
    Moves length (x >>= y) := by
  intro n m s h
  rw [WP.bind_iff]
  exact (stays n m s h).mono (fun a t => moves a n m t) (fun _ _ same => .inl same)

theorem Moves.before {length : Nat} {x : AcquireM δ ω η κ α} {y : α → AcquireM δ ω η κ β}
    (moves : Moves length x) (stays : ∀ a n m, Keeps (At n m) (y a)) :
    Moves length (x >>= y) := by
  intro n m s h
  rw [WP.bind_iff]
  refine (moves n m s h).mono (fun a t moved => ?_) (fun _ _ h => h)
  exact (stays a _ m t moved).mono (fun _ _ h => h) (fun _ _ h => .inr h)

/-- The one counter that is the position. -/
theorem advance_moves (increment : UInt64) :
    Moves increment.toNat (advance (·.offsetWithinRun)
      (fun v s => { s with offsetWithinRun := v }) increment : AcquireM δ ω η κ Unit) := by
  intro n m s h
  refine (advance_wp _ _ increment s).mono ?_ ?_
  · rintro - - ⟨fits, rfl⟩
    refine ⟨?_, h.2⟩
    rw [← h.1]
    exact Word.toNat_add_of_lt fits
  · rintro - t ⟨-, same⟩
    exact .inl (same ▸ h)

theorem keepBytes_moves (r : ReadResult) : Moves r.copied.toNat (keepBytes C r) := by
  rw [← UInt32.toNat_toUInt64]
  exact .after (fun _ _ => hashZerosTo_at _) fun _ =>
    .after (fun _ _ => writeAt_at _ _) fun _ =>
    .after (fun _ _ => update_at _) fun _ =>
    .after (fun _ _ => advance_at (fun _ _ => rfl) fun _ _ => rfl) fun _ =>
    .before (advance_moves _) fun _ _ _ =>
    .bind (advance_at (fun _ _ => rfl) fun _ _ => rfl) fun _ =>
    .bind (advance_at (fun _ _ => rfl) fun _ _ => rfl) fun _ =>
    .bind (advance_at (fun _ _ => rfl) fun _ _ => rfl) fun _ => pace_at

theorem skipUnreadable_moves (address length : UInt64) (status : Int32) :
    Moves length.toNat (skipUnreadable address length status : AcquireM δ ω η κ Unit) :=
  .after (fun _ _ => recordUnreadable_at _ _ _) fun _ =>
    .after (fun _ _ => advance_at (fun _ _ => rfl) fun _ _ => rfl) fun _ => advance_moves _

/-- A read is counted, whatever comes of it. -/
theorem readRun_reads {run : MemoryRun} {requested : UInt32} (h : At n m s) :
    WP (readRun C run requested)
      (fun r t => r.copied.toNat ≤ requested.toNat ∧ At n (m + 1) t) (fun _ => At n (m + 1)) s := by
  have counted : At n (m + 1) (afterRead C run requested s) := by
    refine ⟨h.1, ?_⟩
    show reads (s.calls ++ [_]) = m + 1
    rw [reads_append, h.2]
    rfl
  rw [readRun_wp]
  exact ⟨fun r _ => ⟨fun valid => ⟨valid.copied_le, counted⟩, fun _ => counted⟩, fun _ => counted⟩

end Commands

/-! ### The loops -/

section Loops

variable {run : MemoryRun} {s : AcquireState δ ω η κ} {chunkEnd : UInt64}

/-- The bytes passed between `s` and `t` pay for the reads, at so many reads for a byte. -/
structure Paid (rate limit : Nat) (s t : AcquireState δ ω η κ) : Prop where
  advanced : s.offsetWithinRun.toNat < t.offsetWithinRun.toNat
  within : t.offsetWithinRun.toNat ≤ limit
  reads_le : reads t.calls + rate * s.offsetWithinRun.toNat ≤
    reads s.calls + rate * t.offsetWithinRun.toNat

/-- The bytes from `s` to the limit pay for the reads up to `t`. -/
structure Covered (rate limit : Nat) (s t : AcquireState δ ω η κ) : Prop where
  within : t.offsetWithinRun.toNat ≤ limit
  reads_le : reads t.calls + rate * s.offsetWithinRun.toNat ≤ reads s.calls + rate * limit

/-- The program pays for its reads if it returns, and its reads are covered if it stops. -/
def Spends (rate limit : Nat) (x : AcquireM δ ω η κ α) (s : AcquireState δ ω η κ) : Prop :=
  WP x (fun _ => Paid rate limit s) (fun _ => Covered rate limit s) s

theorem Paid.trans {rate limit : Nat} {s t u : AcquireState δ ω η κ} (h : Paid rate limit s t)
    (h' : Paid rate limit t u) : Paid rate limit s u where
  advanced := Nat.lt_trans h.advanced h'.advanced
  within := h'.within
  reads_le := by
    have first := h.reads_le
    have second := h'.reads_le
    omega

theorem Paid.covered {rate limit : Nat} {s t u : AcquireState δ ω η κ} (h : Paid rate limit s t)
    (h' : Covered rate limit t u) : Covered rate limit s u where
  within := h'.within
  reads_le := by
    have first := h.reads_le
    have second := h'.reads_le
    omega

/-- A loop up to the limit spends what its iterations spend. -/
theorem whileLoop_spends {rate limit : Nat} {condition : AcquireState δ ω η κ → Bool}
    {body : AcquireM δ ω η κ Flow} {variant : AcquireState δ ω η κ → Nat}
    {decreases : ∀ s t, condition s = true → body s = .ok .again t → variant t < variant s}
    (test : ∀ u, condition u = true ↔ u.offsetWithinRun.toNat < limit)
    (iteration : ∀ u, u.offsetWithinRun.toNat < limit → Spends rate limit body u)
    (before : s.offsetWithinRun.toNat < limit) :
    Spends rate limit (whileLoop condition body variant decreases) s := by
  refine whileLoop_wp (fun u => u = s ∨ Paid rate limit s u) _ (.inl rfl) ?_ ?_
  · intro u sofar more
    refine (iteration u ((test u).mp more)).mono (fun flow v paid => ?_) (fun _ v covered => ?_)
    · have total : Paid rate limit s v := by
        cases sofar with
        | inl same => exact same ▸ paid
        | inr sofar => exact sofar.trans paid
      cases flow with
      | again => exact .inr total
      | leave => exact total
    · cases sofar with
      | inl same => exact same ▸ covered
      | inr sofar => exact sofar.covered covered
  · rintro u (rfl | paid) stopped
    · exact (stopped ((test u).mpr before)).elim
    · exact paid

theorem pageRequest_le (run : MemoryRun) (before : s.offsetWithinRun.toNat < chunkEnd.toNat) :
    0 < (pageRequest run chunkEnd s).toNat ∧
      s.offsetWithinRun.toNat + (pageRequest run chunkEnd s).toNat ≤ chunkEnd.toNat := by
  have size := pageRequestBytes_toNat (run.base + s.offsetWithinRun) (chunkEnd - s.offsetWithinRun)
  have page := Nat.mod_lt (run.base + s.offsetWithinRun).toNat (show 0 < 4096 by decide)
  rw [Word.toNat_sub_of_le (Nat.le_of_lt before)] at size
  rw [pageRequest]
  omega

/-- A kept or skipped reply moves the position by at least one byte. -/
theorem keepOrSkip_moves (address : UInt64) {requested : UInt32} {r : ReadResult}
    (positive : 0 < requested.toNat) (le : r.copied.toNat ≤ requested.toNat) :
    ∃ length, 0 < length ∧ length ≤ requested.toNat ∧
      Moves length (keepOrSkip C address requested r) := by
  unfold keepOrSkip
  split
  · next copied =>
      exact ⟨r.copied.toNat, Word.pos_iff32.mp copied, le,
        .before (keepBytes_moves r) fun _ _ _ => .pure _⟩
  · refine ⟨requested.toNat, positive, Nat.le_refl _, ?_⟩
    rw [← UInt32.toNat_toUInt64]
    exact .before (skipUnreadable_moves _ _ _) fun _ _ _ => .pure _

/-- One read, and at least one byte for it. -/
theorem pageBody_spends (before : s.offsetWithinRun.toNat < chunkEnd.toNat) :
    Spends 1 chunkEnd.toNat (pageBody C run chunkEnd) s := by
  simp only [Spends, pageBody, WP.bind_iff, WP.get_iff]
  refine (checkCancelled_at s ⟨rfl, rfl⟩).mono ?_ ?_
  · rintro - u ⟨offset, count⟩
    obtain ⟨positive, within⟩ := pageRequest_le (s := u) run (offset ▸ before)
    refine (readRun_reads ⟨offset, count⟩).mono ?_ ?_
    · rintro r v ⟨le, read⟩
      obtain ⟨length, some, few, moves⟩ := keepOrSkip_moves (C := C)
        (run.base + u.offsetWithinRun) positive le
      refine (moves _ _ v read).mono ?_ ?_
      · rintro - t ⟨offset', count'⟩
        exact ⟨by omega, by omega, by omega⟩
      · rintro - t (⟨offset', count'⟩ | ⟨offset', count'⟩)
        · exact ⟨by omega, by omega⟩
        · exact ⟨by omega, by omega⟩
    · rintro - v ⟨offset', count'⟩
      exact ⟨by omega, by omega⟩
  · rintro - u ⟨offset, count⟩
    exact ⟨by omega, by omega⟩

/-- The page loop reads once for each byte it passes, at most. -/
theorem pageLoop_spends (before : s.offsetWithinRun.toNat < chunkEnd.toNat) :
    Spends 1 chunkEnd.toNat (pageLoop C run chunkEnd) s := by
  refine whileLoop_spends (fun u => ?_) (fun u more => pageBody_spends more) before
  rw [decide_eq_true_eq, UInt64.lt_iff_toNat_lt]

theorem isolateWindow_spends {requested : UInt32} {r : ReadResult}
    (le : r.copied.toNat ≤ requested.toNat) (partly : r.copied ≠ requested)
    (within : s.offsetWithinRun.toNat + (requested.toNat - r.copied.toNat) ≤ run.length.toNat) :
    Spends 1 run.length.toNat (isolateWindow C run requested r) s := by
  have ne : r.copied.toNat ≠ requested.toNat := fun same => partly (UInt32.toNat_inj.mp same)
  have fits := Nat.lt_of_le_of_lt within run.length.toNat_lt
  have window : (min run.length _).toNat = _ := windowEnd_toNat le fits
  simp only [Spends, isolateWindow, if_pos partly, WP.bind_iff, WP.get_iff, require_wp,
    decide_eq_true_eq, uint64Max, Word.le_max_sub_iff, Word.toNat_sub32_of_le le]
  refine ⟨fun _ => ?_, fun wraps => ?_⟩
  · refine (pageLoop_spends (by omega)).mono ?_ ?_
    · rintro - t ⟨advanced, reached, paid⟩
      exact ⟨advanced, by omega, paid⟩
    · rintro - t ⟨reached, covered⟩
      exact ⟨by omega, by omega⟩
  · omega

theorem keepCopied_moves (r : ReadResult) : Moves r.copied.toNat (keepCopied C r) := by
  rw [keepCopied]
  split
  · exact keepBytes_moves r
  · next zero =>
      intro n m s h
      rw [not_not.mp zero]
      exact h

/-- The window read of an outer iteration is paid for by the byte that the iteration passes
in any case. -/
theorem chunkBody_spends (before : s.offsetWithinRun.toNat < run.length.toNat) :
    Spends 2 run.length.toNat (chunkBody C run) s := by
  have most : phylaMaxTransfer.toNat = 2 ^ 24 := rfl
  simp only [Spends, chunkBody, WP.bind_iff, WP.get_iff]
  refine (checkCancelled_at s ⟨rfl, rfl⟩).mono ?_ ?_
  · rintro - u ⟨offset, count⟩
    have size : (bulkRequestBytes run u.offsetWithinRun).toNat =
        min phylaMaxTransfer.toNat (run.length.toNat - u.offsetWithinRun.toNat) :=
      bulkRequestBytes_toNat (by omega)
    refine (readRun_reads ⟨offset, count⟩).mono ?_ ?_
    · rintro r v ⟨le, read⟩
      refine (keepCopied_moves r _ _ v read).mono ?_ ?_
      · rintro - w ⟨kept, count'⟩
        by_cases full : r.copied = bulkRequestBytes run u.offsetWithinRun
        · have whole := congrArg UInt32.toNat full
          rw [isolateWindow, if_neg (not_not_intro full), WP.pure_iff]
          exact ⟨by omega, by omega, by omega⟩
        · refine (isolateWindow_spends le full (by omega)).mono ?_ ?_
          · rintro - t ⟨advanced, reached, paid⟩
            exact ⟨by omega, reached, by omega⟩
          · rintro - t ⟨reached, covered⟩
            exact ⟨reached, by omega⟩
      · rintro - w (⟨kept, count'⟩ | ⟨kept, count'⟩)
        · exact ⟨by omega, by omega⟩
        · exact ⟨by omega, by omega⟩
    · rintro - v ⟨offset', count'⟩
      exact ⟨by omega, by omega⟩
  · rintro - u ⟨offset, count⟩
    exact ⟨by omega, by omega⟩

theorem runLoop_spends (before : s.offsetWithinRun.toNat < run.length.toNat) :
    Spends 2 run.length.toNat (runLoop C run) s := by
  refine whileLoop_spends (fun u => ?_) (fun u more => ?_) before
  · rw [decide_eq_true_eq, UInt64.lt_iff_toNat_lt]
  · exact WP.bind_iff.mpr (chunkBody_spends more)

theorem acquireRun_reads (run : MemoryRun) (s : AcquireState δ ω η κ) :
    WP (acquireRun C run) (fun _ t => reads t.calls ≤ reads s.calls + 2 * run.length.toNat)
      (fun _ t => reads t.calls ≤ reads s.calls + 2 * run.length.toNat) s := by
  simp only [acquireRun, WP.bind_iff, require_wp, WP.modify_iff, runValid_iff]
  refine ⟨fun valid => ?_, fun _ => Nat.le_add_right _ _⟩
  refine (runLoop_spends (s := atRunStart s) valid.nonempty).mono ?_ ?_
  · rintro - t ⟨-, reached, paid⟩
    exact Nat.le_trans paid (Nat.add_le_add_left (Nat.mul_le_mul_left 2 reached) _)
  · rintro - t ⟨-, covered⟩
    exact covered

theorem acquireRuns_reads (runs : List MemoryRun) (s : AcquireState δ ω η κ) :
    WP (acquireRuns C runs) (fun _ t => reads t.calls ≤ reads s.calls + 2 * total (runIntervals runs))
      (fun _ t => reads t.calls ≤ reads s.calls + 2 * total (runIntervals runs)) s := by
  induction runs generalizing s with
  | nil => exact Nat.le_refl _
  | cons run rest ih =>
      have sum : total (runIntervals (run :: rest)) =
          run.length.toNat + total (runIntervals rest) := rfl
      rw [acquireRuns, WP.bind_iff, sum]
      refine (acquireRun_reads run s).mono (fun _ t first => ?_) (fun _ t first => by omega)
      exact (ih t).mono (fun _ u later => by omega) (fun _ u later => by omega)

end Loops

/-! ### The whole acquisition -/

theorem acquire_reads {s : AcquireState δ ω η κ} {topology : Topology}
    (asked : (C.device.query s.device).1 = some topology) :
    WP (acquire C)
      (fun _ t => reads t.calls ≤ reads s.calls + 2 * total (runIntervals topology.runs))
      (fun _ t => reads t.calls ≤ reads s.calls + 2 * total (runIntervals topology.runs)) s := by
  simp only [acquire, beginSummary, WP.bind_iff, WP.modify_iff, WP.modifyGet_iff, asked,
    require_wp, WP.pure_iff, WP.get_iff]
  refine ⟨fun _ => ?_, fun _ => Nat.le_add_right _ _⟩
  refine (acquireRuns_reads topology.runs (afterQuery C topology s)).mono (fun _ t few => ?_)
    (fun _ _ few => few)
  refine (hashZerosTo_at _ t ⟨rfl, rfl⟩).mono (fun _ u same => ?_) (fun _ u same => ?_)
  · have ending : Keeps (At t.offsetWithinRun.toNat (reads t.calls)) (endSession C) := by
      refine .bind (record_at rfl) fun _ => .bind (.modifyGet fun _ h => h) fun answer => ?_
      split
      · exact .throw _
      · exact .modify fun _ h => h
    exact (ending u same).mono (fun _ v same => same.2 ▸ few) (fun _ v same => same.2 ▸ few)
  · exact same.2 ▸ few

/-- Both loops over the run end within a number of iterations that is known beforehand, and
each outer iteration moves the position forward within the run. -/
structure Progresses (C : Collaborators δ ω η κ) (run : MemoryRun) : Prop where
  outer : ∀ s, ∃ n ≤ run.length.toNat - s.offsetWithinRun.toNat,
    Iterates (fun s => s.offsetWithinRun < run.length) (do chunkBody C run; pure .again) s n
      (runLoop C run s)
  inner : ∀ chunkEnd s, ∃ n ≤ chunkEnd.toNat - s.offsetWithinRun.toNat,
    Iterates (fun s => s.offsetWithinRun < chunkEnd) (pageBody C run chunkEnd) s n
      (pageLoop C run chunkEnd s)
  advances : ∀ s, s.offsetWithinRun.toNat < run.length.toNat → WP (chunkBody C run)
    (fun _ t => s.offsetWithinRun.toNat < t.offsetWithinRun.toNat ∧
      t.offsetWithinRun.toNat ≤ run.length.toNat)
    (fun _ t => t.offsetWithinRun.toNat ≤ run.length.toNat) s

theorem progresses (C : Collaborators δ ω η κ) (run : MemoryRun) : Progresses C run where
  outer s := by
    refine whileLoop_iterates (fun u => run.length.toNat - u.offsetWithinRun.toNat) _
      (fun u more => ?_) s
    rw [decide_eq_true_eq, UInt64.lt_iff_toNat_lt] at more
    omega
  inner chunkEnd s := by
    refine whileLoop_iterates (fun u => chunkEnd.toNat - u.offsetWithinRun.toNat) _
      (fun u more => ?_) s
    rw [decide_eq_true_eq, UInt64.lt_iff_toNat_lt] at more
    omega
  advances s before := (chunkBody_spends before).mono
    (fun _ _ paid => ⟨paid.advanced, paid.within⟩) (fun _ _ covered => covered.within)

/-- Whatever the device answers, the loops of `Acquire` end, each outer iteration moves
forward within its run, and there are at most two reads for each physical byte. -/
theorem acquire_progresses (s : AcquireState δ ω η κ) {topology : Topology}
    (asked : (C.device.query s.device).1 = some topology) :
    (∀ run ∈ topology.runs, Progresses C run) ∧
      reads (final (acquire C s)).calls ≤
        reads s.calls + 2 * total (runIntervals topology.runs) :=
  ⟨fun run _ => progresses C run, (acquire_reads asked).final⟩

theorem acquire_progresses_faulty_page :
    (∀ run ∈ mockFaultyPage.mockRuns, Progresses mockCollaborators run) ∧
      reads (final (acquire mockCollaborators (.start mockFaultyPage {} {} ()))).calls ≤
        0 + 2 * total (runIntervals mockFaultyPage.mockRuns) :=
  acquire_progresses (C := mockCollaborators) (AcquireState.start mockFaultyPage {} {} ())
    (show _ = some ⟨_, _, mockFaultyPage.mockRuns⟩ from rfl)

end PhylaRam
