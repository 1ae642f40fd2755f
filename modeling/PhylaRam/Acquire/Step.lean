import PhylaRam.Acquire.Basic

/-!
# What one read of the acquisition engine does

Each helper of the engine has one specification here, and nothing later unfolds
it. `afterRead`, `afterKeep` and `afterSkip` are the exact state changes of an
accepted read, of the condition chain that keeps its bytes, and of the record of
an unreadable page. The guards that protect these changes are stated over
unbounded numbers.
-/

namespace PhylaRam

open Program

variable {δ ω η κ : Type} (C : Collaborators δ ω η κ)

/-- The reply passed `ValidateReadResult`. -/
structure ReadResult.Valid (r : ReadResult) (address : UInt64) (requested : UInt32) : Prop where
  address_eq : r.physicalAddress = address
  requested_eq : r.requested = requested
  copied_le : r.copied.toNat ≤ requested.toNat
  data_length : r.data.length = r.copied.toNat

theorem validateReadResult_iff {r : ReadResult} {address : UInt64} {requested : UInt32} :
    validateReadResult r address requested = true ↔ r.Valid address requested := by
  simp only [validateReadResult, Bool.and_eq_true, beq_iff_eq, decide_eq_true_eq,
    UInt32.le_iff_toNat_le]
  constructor
  · rintro ⟨⟨⟨address_eq, requested_eq⟩, copied_le⟩, data_length⟩
    exact ⟨address_eq, requested_eq, copied_le, data_length⟩
  · rintro ⟨address_eq, requested_eq, copied_le, data_length⟩
    exact ⟨⟨⟨address_eq, requested_eq⟩, copied_le⟩, data_length⟩

theorem checkedAdd_eq_some {value increment sum : UInt64} :
    checkedAdd value increment = some sum ↔
      value.toNat + increment.toNat < 2 ^ 64 ∧ sum = value + increment := by
  unfold checkedAdd
  split
  · next overflow =>
      rw [gt_iff_lt, ← UInt64.not_le, uint64Max, Word.le_max_sub_iff] at overflow
      exact ⟨fun none => (by cases none), fun fits => (overflow fits.1).elim⟩
  · next fits =>
      rw [gt_iff_lt, UInt64.not_lt, uint64Max, Word.le_max_sub_iff] at fits
      exact ⟨fun same => ⟨fits, (Option.some.inj same).symm⟩, fun same => same.2 ▸ rfl⟩

theorem checkedAdd_of_lt {value increment : UInt64}
    (h : value.toNat + increment.toNat < 2 ^ 64) :
    checkedAdd value increment = some (value + increment) :=
  checkedAdd_eq_some.mpr ⟨h, rfl⟩

theorem bulkRequestBytes_toNat {run : MemoryRun} {offset : UInt64}
    (h : offset.toNat ≤ run.length.toNat) :
    (bulkRequestBytes run offset).toNat =
      min phylaMaxTransfer.toNat (run.length.toNat - offset.toNat) := by
  have hmax : phylaMaxTransfer.toUInt64.toNat = 2 ^ 24 := rfl
  have hmax' : phylaMaxTransfer.toNat = 2 ^ 24 := rfl
  rw [bulkRequestBytes, Word.toNat_toUInt32_of_lt] <;>
    rw [Word.toNat_min, Word.toNat_sub_of_le h, hmax]
  · rw [hmax']
  · omega

theorem bytesToPageBoundary_toNat (address : UInt64) :
    (bytesToPageBoundary address).toNat = 4096 - address.toNat % 4096 := by
  have hpage : phylaPageSize.toUInt64.toNat = 4096 := rfl
  have hmask : (phylaPageSize - 1).toUInt64.toNat = 2 ^ 12 - 1 := rfl
  have hand : (address &&& (phylaPageSize - 1).toUInt64).toNat = address.toNat % 4096 := by
    rw [UInt64.toNat_and, hmask, Nat.and_two_pow_sub_one_eq_mod]
  rw [bytesToPageBoundary, Word.toNat_sub_of_le, hpage, hand]
  rw [hpage, hand]
  exact Nat.le_of_lt (Nat.mod_lt _ (by decide))

theorem pageRequestBytes_toNat (address remaining : UInt64) :
    (pageRequestBytes address remaining).toNat =
      min (4096 - address.toNat % 4096) remaining.toNat := by
  rw [pageRequestBytes, Word.toNat_toUInt32_of_lt] <;>
    rw [Word.toNat_min, bytesToPageBoundary_toNat]
  omega

section Rules

variable {s : AcquireState δ ω η κ} {stop : StopCause → AcquireState δ ω η κ → Prop}

@[simp] theorem require_wp {condition : Bool} {cause : StopCause}
    {post : Unit → AcquireState δ ω η κ → Prop} :
    WP (require condition cause) post stop s ↔
      (condition = true → post () s) ∧ (¬condition = true → stop cause s) := by
  simp [require]

@[simp] theorem record_wp {call : Call} {post : Unit → AcquireState δ ω η κ → Prop} :
    WP (record call) post stop s ↔ post () { s with calls := s.calls ++ [call] } := Iff.rfl

/-- A counter that would overflow stops the program and changes nothing. -/
theorem advance_wp (counter : AcquireState δ ω η κ → UInt64)
    (store : UInt64 → AcquireState δ ω η κ → AcquireState δ ω η κ) (increment : UInt64)
    (s : AcquireState δ ω η κ) :
    WP (advance counter store increment)
      (fun _ t => (counter s).toNat + increment.toNat < 2 ^ 64 ∧
        t = store (counter s + increment) s)
      (fun _ t => ¬(counter s).toNat + increment.toNat < 2 ^ 64 ∧ t = s) s := by
  simp only [advance, WP.bind_iff, WP.get_iff]
  cases h : checkedAdd (counter s) increment with
  | none =>
      rw [WP.throw_iff]
      refine ⟨fun fits => ?_, rfl⟩
      rw [checkedAdd_of_lt fits] at h
      cases h
  | some value =>
      obtain ⟨fits, rfl⟩ := checkedAdd_eq_some.mp h
      exact ⟨fits, rfl⟩

theorem advance_guarded (counter : AcquireState δ ω η κ → UInt64)
    (store : UInt64 → AcquireState δ ω η κ → AcquireState δ ω η κ) (increment : UInt64)
    (s : AcquireState δ ω η κ) :
    Guarded (advance counter store increment) s
      ((counter s).toNat + increment.toNat < 2 ^ 64) (store (counter s + increment) s) :=
  (advance_wp counter store increment s).mono (fun _ _ h => h) (fun _ _ h => h.1)

/-- The state after a load of the cancel flag. -/
def afterLoad (s : AcquireState δ ω η κ) : AcquireState δ ω η κ :=
  { s with environment := (C.environment.cancelled s.environment).2 }

theorem checkCancelled_wp {post : Unit → AcquireState δ ω η κ → Prop} :
    WP (checkCancelled C) post stop s ↔
      ((C.environment.cancelled s.environment).1 = false → post () (afterLoad C s)) ∧
      ((C.environment.cancelled s.environment).1 = true → stop .cancelled (afterLoad C s)) := by
  simp [checkCancelled, afterLoad]

/-- The state after a `Read` at the current offset, whatever it answered. -/
def afterRead (run : MemoryRun) (requested : UInt32) (s : AcquireState δ ω η κ) :
    AcquireState δ ω η κ :=
  { s with
    device := (C.device.read run.driverIndex s.offsetWithinRun requested s.device).2
    calls := s.calls ++ [.read run.driverIndex s.offsetWithinRun requested
      (C.device.read run.driverIndex s.offsetWithinRun requested s.device).1] }

theorem readRun_wp {run : MemoryRun} {requested : UInt32}
    {post : ReadResult → AcquireState δ ω η κ → Prop} :
    WP (readRun C run requested) post stop s ↔
      (∀ r, (C.device.read run.driverIndex s.offsetWithinRun requested s.device).1 = some r →
        (r.Valid (run.base + s.offsetWithinRun) requested → post r (afterRead C run requested s)) ∧
        (¬r.Valid (run.base + s.offsetWithinRun) requested →
          stop .reply (afterRead C run requested s))) ∧
      ((C.device.read run.driverIndex s.offsetWithinRun requested s.device).1 = none →
        stop .device (afterRead C run requested s)) := by
  simp only [readRun, WP.bind_iff, WP.get_iff, WP.set_iff, record_wp]
  cases h : (C.device.read run.driverIndex s.offsetWithinRun requested s.device).1 with
  | none => simp [afterRead, h]
  | some r => simp [afterRead, h, ← validateReadResult_iff]

end Rules

/-- The zeros `hashZerosTo` feeds to the hasher before `next`. -/
def gapCalls (next : UInt64) (s : AcquireState δ ω η κ) : List Call :=
  if s.hashPosition < next then [.updateZeros (next - s.hashPosition)] else []

def gapReply (next : UInt64) (s : AcquireState δ ω η κ) : Bool × η :=
  if s.hashPosition < next then C.hasher.updateZeros (next - s.hashPosition) s.hasher
  else (true, s.hasher)

/-- `hashZerosTo` neither runs backwards nor meets a failing hasher. -/
structure CanHash (next : UInt64) (s : AcquireState δ ω η κ) : Prop where
  ordered : s.hashPosition.toNat ≤ next.toNat
  accepted : (gapReply C next s).1 = true

def afterGap (next : UInt64) (s : AcquireState δ ω η κ) : AcquireState δ ω η κ :=
  { s with
    hasher := (gapReply C next s).2
    hashPosition := next
    calls := s.calls ++ gapCalls next s }

theorem hashZerosTo_guarded (next : UInt64) (s : AcquireState δ ω η κ) :
    Guarded (hashZerosTo C next) s (CanHash C next s) (afterGap C next s) := by
  simp only [Guarded, hashZerosTo, WP.bind_iff, WP.get_iff, require_wp, decide_eq_true_eq,
    UInt64.le_iff_toNat_le]
  refine ⟨fun ordered => ?_, fun behind can => behind can.ordered⟩
  by_cases hgap : s.hashPosition < next
  · simp only [if_pos hgap, updateZeros, WP.bind_iff, record_wp, WP.modifyGet_iff, require_wp,
      WP.modify_iff]
    refine ⟨fun accepted => ⟨⟨ordered, ?_⟩, ?_⟩, fun rejected can => rejected ?_⟩
    · simpa [gapReply, hgap] using accepted
    · simp [afterGap, gapReply, gapCalls, hgap]
    · simpa [gapReply, hgap] using can.accepted
  · simp only [if_neg hgap, WP.modify_iff]
    refine ⟨⟨ordered, ?_⟩, ?_⟩ <;> simp [afterGap, gapReply, gapCalls, hgap]

theorem writeAt_guarded (offset : UInt64) (data : List Byte) (s : AcquireState δ ω η κ) :
    Guarded (writeAt C offset data) s ((C.writer.writeAt offset data s.writer).1 = true)
      { s with
        writer := (C.writer.writeAt offset data s.writer).2
        calls := s.calls ++ [.writeAt offset data] } := by
  simp [Guarded, writeAt]

theorem update_guarded (data : List Byte) (s : AcquireState δ ω η κ) :
    Guarded (update C data) s ((C.hasher.update data s.hasher).1 = true)
      { s with
        hasher := (C.hasher.update data s.hasher).2
        calls := s.calls ++ [.update data] } := by
  simp [Guarded, update]

theorem pace_guarded (s : AcquireState δ ω η κ) :
    Guarded (pace C) s
      ((paceTransfer C.environment s.transferredBytes C.config.rateLimitMBps
        s.environment).1 = true)
      { s with
        environment := (paceTransfer C.environment s.transferredBytes C.config.rateLimitMBps
          s.environment).2 } := by
  simp [Guarded, pace]

/-- Every condition of the chain in `keepBytes` holds. -/
structure CanKeep (r : ReadResult) (s : AcquireState δ ω η κ) : Prop where
  hashable : CanHash C r.physicalAddress s
  written : (C.writer.writeAt r.physicalAddress r.data s.writer).1 = true
  hashed : (C.hasher.update r.data (gapReply C r.physicalAddress s).2).1 = true
  address_fits : r.physicalAddress.toNat + r.copied.toNat < 2 ^ 64
  offset_fits : s.offsetWithinRun.toNat + r.copied.toNat < 2 ^ 64
  processed_fits : s.processedPhysicalBytes.toNat + r.copied.toNat < 2 ^ 64
  acquired_fits : s.summary.acquiredBytes.toNat + r.copied.toNat < 2 ^ 64
  transferred_fits : s.transferredBytes.toNat + r.copied.toNat < 2 ^ 64
  onTime : (paceTransfer C.environment (s.transferredBytes + r.copied.toUInt64)
    C.config.rateLimitMBps s.environment).1 = true

/-- The state after the bytes of `r` have been hashed, written and counted. -/
def afterKeep (r : ReadResult) (s : AcquireState δ ω η κ) : AcquireState δ ω η κ :=
  { s with
    writer := (C.writer.writeAt r.physicalAddress r.data s.writer).2
    hasher := (C.hasher.update r.data (gapReply C r.physicalAddress s).2).2
    environment := (paceTransfer C.environment (s.transferredBytes + r.copied.toUInt64)
      C.config.rateLimitMBps s.environment).2
    hashPosition := r.physicalAddress + r.copied.toUInt64
    offsetWithinRun := s.offsetWithinRun + r.copied.toUInt64
    processedPhysicalBytes := s.processedPhysicalBytes + r.copied.toUInt64
    summary := { s.summary with
      acquiredBytes := s.summary.acquiredBytes + r.copied.toUInt64 }
    transferredBytes := s.transferredBytes + r.copied.toUInt64
    calls := s.calls ++ gapCalls r.physicalAddress s ++
      [.writeAt r.physicalAddress r.data] ++ [.update r.data] }

theorem keepBytes_guarded (r : ReadResult) (s : AcquireState δ ω η κ) :
    Guarded (keepBytes C r) s (CanKeep C r s) (afterKeep C r s) := by
  unfold keepBytes
  refine Guarded.congr
    ((hashZerosTo_guarded C _ _).seq fun _ =>
      (writeAt_guarded C _ _ _).seq fun _ =>
      (update_guarded C _ _).seq fun _ =>
      (advance_guarded _ _ _ _).seq fun _ =>
      (advance_guarded _ _ _ _).seq fun _ =>
      (advance_guarded _ _ _ _).seq fun _ =>
      (advance_guarded _ _ _ _).seq fun _ =>
      (advance_guarded _ _ _ _).seq fun _ => pace_guarded C _) ?_ rfl
  simp only [UInt32.toNat_toUInt64]
  constructor
  · rintro ⟨hashable, written, hashed, address, offset, processed, acquired, transferred, onTime⟩
    exact ⟨hashable, written, hashed, address, offset, processed, acquired, transferred, onTime⟩
  · intro can
    exact ⟨can.hashable, can.written, can.hashed, can.address_fits, can.offset_fits,
      can.processed_fits, can.acquired_fits, can.transferred_fits, can.onTime⟩

/-- `AddUnreadable` and the two counters after it succeed. -/
structure CanSkip (length : UInt64) (s : AcquireState δ ω η κ) : Prop where
  nonempty : 0 < length.toNat
  unreadable_fits : s.summary.unreadableBytes.toNat + length.toNat < 2 ^ 64
  processed_fits : s.processedPhysicalBytes.toNat + length.toNat < 2 ^ 64
  offset_fits : s.offsetWithinRun.toNat + length.toNat < 2 ^ 64

/-- The state after an interval has been recorded as unreadable. -/
def afterSkip (start length : UInt64) (status : Int32) (s : AcquireState δ ω η κ) :
    AcquireState δ ω η κ :=
  { s with
    summary := { s.summary with
      unreadableBytes := s.summary.unreadableBytes + length
      unreadable := pushUnreadable s.summary.unreadable start length status }
    processedPhysicalBytes := s.processedPhysicalBytes + length
    offsetWithinRun := s.offsetWithinRun + length
    calls := s.calls ++ [.addUnreadable start length status] }

theorem addUnreadable_eq_some {summary summary' : AcquisitionSummary} {start length : UInt64}
    {status : Int32} :
    addUnreadable summary start length status = some summary' ↔
      (0 < length.toNat ∧ summary.unreadableBytes.toNat + length.toNat < 2 ^ 64) ∧
      summary' = { summary with
        unreadableBytes := summary.unreadableBytes + length
        unreadable := pushUnreadable summary.unreadable start length status } := by
  unfold addUnreadable
  by_cases hzero : length = 0
  · simp [hzero]
  · rw [if_neg hzero]
    have hpos := Word.pos_iff.mp hzero
    cases hadd : checkedAdd summary.unreadableBytes length with
    | none =>
        have hfull : ¬summary.unreadableBytes.toNat + length.toNat < 2 ^ 64 := fun fits => by
          rw [checkedAdd_of_lt fits] at hadd
          cases hadd
        exact ⟨fun none => (by cases none), fun fits => (hfull fits.1.2).elim⟩
    | some total =>
        obtain ⟨fits, rfl⟩ := checkedAdd_eq_some.mp hadd
        exact ⟨fun same => ⟨⟨hpos, fits⟩, (Option.some.inj same).symm⟩, fun same => same.2 ▸ rfl⟩

theorem recordUnreadable_guarded (start length : UInt64) (status : Int32)
    (s : AcquireState δ ω η κ) :
    Guarded (recordUnreadable start length status) s
      (0 < length.toNat ∧ s.summary.unreadableBytes.toNat + length.toNat < 2 ^ 64)
      { s with
        calls := s.calls ++ [.addUnreadable start length status]
        summary := { s.summary with
          unreadableBytes := s.summary.unreadableBytes + length
          unreadable := pushUnreadable s.summary.unreadable start length status } } := by
  simp only [Guarded, recordUnreadable, WP.bind_iff, record_wp, WP.get_iff]
  cases hadd : addUnreadable s.summary start length status with
  | none =>
      rw [WP.throw_iff]
      intro can
      rw [addUnreadable_eq_some.mpr ⟨can, rfl⟩] at hadd
      cases hadd
  | some summary =>
      obtain ⟨can, rfl⟩ := addUnreadable_eq_some.mp hadd
      exact ⟨can, rfl⟩

theorem skipUnreadable_guarded (start length : UInt64) (status : Int32)
    (s : AcquireState δ ω η κ) :
    Guarded (skipUnreadable start length status) s (CanSkip length s)
      (afterSkip start length status s) := by
  unfold skipUnreadable
  refine Guarded.congr
    ((recordUnreadable_guarded _ _ _ _).seq fun _ =>
      (advance_guarded _ _ _ _).seq fun _ => advance_guarded _ _ _ _) ?_ rfl
  constructor
  · rintro ⟨⟨nonempty, unreadable⟩, processed, offset⟩
    exact ⟨nonempty, unreadable, processed, offset⟩
  · intro can
    exact ⟨⟨can.nonempty, can.unreadable_fits⟩, can.processed_fits, can.offset_fits⟩

/-- The state in which the reply to a read of `requested` bytes is examined: the
cancel flag has been loaded and the read has been made. -/
def afterRequest (run : MemoryRun) (requested : UInt32) (s : AcquireState δ ω η κ) :
    AcquireState δ ω η κ :=
  afterRead C run requested (afterLoad C s)

/-- The flag is clear and the read at the current offset is answered by `r`. -/
structure Answers (run : MemoryRun) (requested : UInt32) (s : AcquireState δ ω η κ)
    (r : ReadResult) : Prop where
  clear : (C.environment.cancelled s.environment).1 = false
  reply : (C.device.read run.driverIndex s.offsetWithinRun requested s.device).1 = some r
  valid : r.Valid (run.base + s.offsetWithinRun) requested

theorem Answers.unique {C : Collaborators δ ω η κ} {run : MemoryRun} {requested : UInt32}
    {s : AcquireState δ ω η κ} {r r' : ReadResult} (h : Answers C run requested s r)
    (h' : Answers C run requested s r') : r = r' :=
  Option.some.inj (h.reply.symm.trans h'.reply)

/-- A load of the flag followed by a read whose size depends on the offset, as both
loops begin. Without an acceptable answer the engine stops. -/
theorem request_wp {run : MemoryRun} {size : AcquireState δ ω η κ → UInt32}
    {s : AcquireState δ ω η κ}
    {post : AcquireState δ ω η κ → ReadResult → AcquireState δ ω η κ → Prop}
    {stop : StopCause → AcquireState δ ω η κ → Prop}
    (hpost : ∀ r, Answers C run (size (afterLoad C s)) s r →
      post (afterLoad C s) r (afterRequest C run (size (afterLoad C s)) s))
    (hstop : (∀ r, ¬Answers C run (size (afterLoad C s)) s r) → ∀ cause t, stop cause t) :
    WP (checkCancelled C) (fun _ m => WP (readRun C run (size m)) (post m) stop m) stop s := by
  rw [checkCancelled_wp]
  refine ⟨fun clear => ?_, fun set => hstop (fun r h => by simp [h.clear] at set) _ _⟩
  rw [readRun_wp]
  refine ⟨fun r reply => ⟨fun valid => hpost r ⟨clear, reply, valid⟩, fun invalid => ?_⟩,
    fun failed => ?_⟩
  · refine hstop (fun r' h => ?_) _ _
    exact invalid (Option.some.inj (reply.symm.trans h.reply) ▸ h.valid)
  · refine hstop (fun r h => ?_) _ _
    exact absurd (failed.symm.trans h.reply) (by simp)

/-- What one completed iteration of the page loop has done. -/
inductive PageStep (run : MemoryRun) (chunkEnd : UInt64) (s : AcquireState δ ω η κ) :
    Flow → AcquireState δ ω η κ → Prop
  | keep {r : ReadResult} (answers : Answers C run (pageRequest run chunkEnd s) s r)
      (copied : r.copied ≠ 0)
      (can : CanKeep C r (afterRequest C run (pageRequest run chunkEnd s) s)) :
      PageStep run chunkEnd s (if r.copied = pageRequest run chunkEnd s then .leave else .again)
        (afterKeep C r (afterRequest C run (pageRequest run chunkEnd s) s))
  | skip {r : ReadResult} (answers : Answers C run (pageRequest run chunkEnd s) s r)
      (copied : r.copied = 0)
      (can : CanSkip (pageRequest run chunkEnd s).toUInt64
        (afterRequest C run (pageRequest run chunkEnd s) s)) :
      PageStep run chunkEnd s .again
        (afterSkip (run.base + s.offsetWithinRun) (pageRequest run chunkEnd s).toUInt64
          r.copyStatus (afterRequest C run (pageRequest run chunkEnd s) s))

theorem keepOrSkip_wp {run : MemoryRun} {chunkEnd : UInt64} {s : AcquireState δ ω η κ}
    {r : ReadResult} (answers : Answers C run (pageRequest run chunkEnd s) s r) :
    WP (keepOrSkip C (run.base + s.offsetWithinRun) (pageRequest run chunkEnd s) r)
      (PageStep C run chunkEnd s) (fun _ _ => ∀ flow t, ¬PageStep C run chunkEnd s flow t)
      (afterRequest C run (pageRequest run chunkEnd s) s) := by
  rw [keepOrSkip, WP.ite_iff]
  refine ⟨fun copied => ?_, fun copied => ?_⟩ <;> rw [WP.bind_iff]
  · refine (keepBytes_guarded C r _).mono ?_ ?_
    · rintro - _ ⟨can, rfl⟩
      exact PageStep.keep answers copied can
    · rintro - - cannot flow t (⟨answers', -, can⟩ | ⟨answers', copied', -⟩)
      · exact cannot (answers.unique answers' ▸ can)
      · exact copied (answers.unique answers' ▸ copied')
  · have zero : r.copied = 0 := by simpa using copied
    refine (skipUnreadable_guarded _ _ _ _).mono ?_ ?_
    · rintro - _ ⟨can, rfl⟩
      exact PageStep.skip answers zero can
    · rintro - - cannot flow t (⟨answers', copied', -⟩ | ⟨-, -, can⟩)
      · exact copied' (answers.unique answers' ▸ zero)
      · exact cannot can

theorem pageBody_wp (run : MemoryRun) (chunkEnd : UInt64) (s : AcquireState δ ω η κ) :
    WP (pageBody C run chunkEnd) (PageStep C run chunkEnd s)
      (fun _ _ => ∀ flow t, ¬PageStep C run chunkEnd s flow t) s := by
  simp only [pageBody, WP.bind_iff, WP.get_iff]
  refine request_wp C ?_ ?_
  · intro r answers
    exact keepOrSkip_wp C (show Answers C run (pageRequest run chunkEnd s) s r from answers)
  · rintro none - - flow t (⟨answers, -⟩ | ⟨answers, -⟩) <;> exact none _ answers

end PhylaRam
