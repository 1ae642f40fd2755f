import PhylaRam.Acquire.Guards
import PhylaRam.Tests.Mock
import PhylaRam.Tests.MockAcquire

/-!
# The tested acquisition is the shipped one

Over ordered runs the checks that only the shipped `Acquire` makes cannot fail, and its spans
never end beyond the current address. So both functions go through the same states, one command
at a time: they make the same calls and end with the same result.
-/

namespace PhylaRam

open Program Interval

variable {δ ω η κ : Type} {C : Collaborators δ ω η κ}

namespace MockAcquire

/-- The two functions have reached the same point. -/
structure Agrees (s : AcquireState δ ω η κ) (t : State δ ω η κ) : Prop where
  device : t.device = s.device
  writer : t.writer = s.writer
  hasher : t.hasher = s.hasher
  summary : t.summary = s.summary
  hashPosition : t.hashPosition = s.hashPosition
  offset : t.offset = s.offsetWithinRun
  calls : t.calls = s.calls

/-- Both functions return, or both return false after the same calls, unless the shipped one
refuses a reply. -/
abbrev Beside {α β : Type} (x : AcquireM δ ω η κ α) (y : Mock δ ω η κ β)
    (post : α → AcquireState δ ω η κ → β → State δ ω η κ → Prop) (s : AcquireState δ ω η κ)
    (t : State δ ω η κ) : Prop :=
  SideBySide (· = StopCause.reply) x y post (fun u e v => e = .refused ∧ v.calls = u.calls) s t

@[simp] theorem demand_wp {condition : Bool} {post : Unit → State δ ω η κ → Prop}
    {stop : Stop → State δ ω η κ → Prop} {t : State δ ω η κ} :
    WP (demand condition) post stop t ↔
      (condition = true → post () t) ∧ (¬condition = true → stop .refused t) := by
  simp [demand]

section Commands

variable {s : AcquireState δ ω η κ} {t : State δ ω η κ} {run : MemoryRun}

theorem demand_beside {condition condition' : Bool} (cause : StopCause)
    (same : condition' = condition) (calls : t.calls = s.calls) :
    Beside (require condition cause) (demand condition')
      (fun _ u _ v => condition = true ∧ u = s ∧ v = t) s t := by
  subst same
  simp only [Beside, SideBySide, require_wp, demand_wp]
  exact ⟨fun holds => ⟨fun _ => ⟨holds, trivial, trivial⟩, fun no => (no holds).elim⟩,
    fun fails => .inr ⟨fun yes => (fails yes).elim, fun _ => ⟨trivial, calls⟩⟩⟩

theorem demand_holds {condition : Bool} (holds : condition = true) :
    demand condition t = .ok () t := by
  rw [demand, if_pos holds]
  rfl

theorem checkCancelled_beside (unset : ∀ k, (C.environment.cancelled k).1 = false)
    (agrees : Agrees s t) :
    Beside (PhylaRam.checkCancelled C) (checkCancelled C)
      (fun _ u _ v => u = afterLoad C s ∧ Agrees u v) s t := by
  rw [Beside, SideBySide, checkCancelled_wp]
  refine ⟨fun _ => ?_, fun set => ?_⟩
  · simp only [checkCancelled, WP.bind_iff, WP.modifyGet_iff, demand_wp, unset, Bool.not_false]
    exact ⟨fun _ => ⟨trivial, agrees.device, agrees.writer, agrees.hasher, agrees.summary,
      agrees.hashPosition, agrees.offset, agrees.calls⟩, fun no => (no trivial).elim⟩
  · rw [unset] at set
    cases set

/-- A load of the flag that only the tested function makes. -/
theorem checkCancelled_alone (unset : ∀ k, (C.environment.cancelled k).1 = false)
    (agrees : Agrees s t) : ∃ v, checkCancelled C t = .ok () v ∧ Agrees s v := by
  have ran : WP (checkCancelled C) (fun _ v => Agrees s v) (fun _ _ => False) t := by
    simp only [checkCancelled, WP.bind_iff, WP.modifyGet_iff, demand_wp, unset, Bool.not_false]
    exact ⟨fun _ => ⟨agrees.device, agrees.writer, agrees.hasher, agrees.summary,
      agrees.hashPosition, agrees.offset, agrees.calls⟩, fun no => (no trivial).elim⟩
  obtain ⟨_, v, ran, agrees⟩ := ran.returns
  exact ⟨v, ran, agrees⟩

theorem read_beside (requested : UInt32) (agrees : Agrees s t) :
    Beside (readRun C run requested) (read C run requested)
      (fun r u rr v => rr = r ∧
        (C.device.read run.driverIndex s.offsetWithinRun requested s.device).1 = some r ∧
        r.Valid (run.base + s.offsetWithinRun) requested ∧ u = afterRead C run requested s ∧
        Agrees u v) s t := by
  rw [Beside, SideBySide, readRun_wp]
  have same : C.device.read run.driverIndex t.offset requested t.device =
      C.device.read run.driverIndex s.offsetWithinRun requested s.device := by
    rw [agrees.offset, agrees.device]
  have reached : Agrees (afterRead C run requested s)
      { t with
        device := (C.device.read run.driverIndex s.offsetWithinRun requested s.device).2
        calls := t.calls ++ [.read run.driverIndex t.offset requested
          (C.device.read run.driverIndex s.offsetWithinRun requested s.device).1] } := by
    refine ⟨rfl, agrees.writer, agrees.hasher, agrees.summary, agrees.hashPosition, agrees.offset, ?_⟩
    rw [agrees.calls, agrees.offset]
    rfl
  refine ⟨fun r reply => ⟨fun valid => ?_, fun _ => .inl rfl⟩, fun failed => .inr ?_⟩
  · rw [reply] at reached
    simp only [read, record, WP.bind_iff, WP.get_iff, WP.set_iff, WP.modify_iff, same, reply,
      WP.pure_iff]
    exact ⟨trivial, trivial, valid, trivial, reached⟩
  · simp only [read, record, WP.bind_iff, WP.get_iff, WP.set_iff, WP.modify_iff, same, failed,
      WP.throw_iff]
    rw [failed] at reached
    exact ⟨trivial, reached.calls⟩

theorem updateZeros_beside (length : UInt64) (agrees : Agrees s t) :
    Beside (PhylaRam.updateZeros C length) (updateZeros C length)
      (fun _ u _ v => u = { s with
          hasher := (C.hasher.updateZeros length s.hasher).2
          calls := s.calls ++ [.updateZeros length] } ∧ Agrees u v) s t := by
  simp only [Beside, SideBySide, PhylaRam.updateZeros, updateZeros, record, WP.bind_iff, record_wp,
    WP.modify_iff, WP.modifyGet_iff, require_wp, demand_wp, agrees.hasher, agrees.calls]
  refine ⟨fun accepted => ⟨fun _ => ?_, fun no => (no accepted).elim⟩,
    fun refused => .inr ⟨fun yes => (refused yes).elim, fun _ => ⟨trivial, trivial⟩⟩⟩
  exact ⟨trivial, agrees.device, agrees.writer, rfl, agrees.summary, agrees.hashPosition,
    agrees.offset, rfl⟩

theorem update_beside (data : List Byte) (agrees : Agrees s t) :
    Beside (PhylaRam.update C data) (update C data)
      (fun _ u _ v => u = { s with
          hasher := (C.hasher.update data s.hasher).2
          calls := s.calls ++ [.update data] } ∧ Agrees u v) s t := by
  simp only [Beside, SideBySide, PhylaRam.update, update, record, WP.bind_iff, record_wp,
    WP.modify_iff, WP.modifyGet_iff, require_wp, demand_wp, agrees.hasher, agrees.calls]
  refine ⟨fun accepted => ⟨fun _ => ?_, fun no => (no accepted).elim⟩,
    fun refused => .inr ⟨fun yes => (refused yes).elim, fun _ => ⟨trivial, trivial⟩⟩⟩
  exact ⟨trivial, agrees.device, agrees.writer, rfl, agrees.summary, agrees.hashPosition,
    agrees.offset, rfl⟩

theorem writeAt_beside (offset : UInt64) (data : List Byte) (agrees : Agrees s t) :
    Beside (PhylaRam.writeAt C offset data) (writeAt C offset data)
      (fun _ u _ v => u = { s with
          writer := (C.writer.writeAt offset data s.writer).2
          calls := s.calls ++ [.writeAt offset data] } ∧ Agrees u v) s t := by
  simp only [Beside, SideBySide, PhylaRam.writeAt, writeAt, record, WP.bind_iff, record_wp,
    WP.modify_iff, WP.modifyGet_iff, require_wp, demand_wp, agrees.writer, agrees.calls]
  refine ⟨fun accepted => ⟨fun _ => ?_, fun no => (no accepted).elim⟩,
    fun refused => .inr ⟨fun yes => (refused yes).elim, fun _ => ⟨trivial, trivial⟩⟩⟩
  exact ⟨trivial, agrees.device, rfl, agrees.hasher, agrees.summary, agrees.hashPosition,
    agrees.offset, rfl⟩

/-- The state after the position has been moved. -/
theorem Agrees.moved (agrees : Agrees s t) (next : UInt64) :
    Agrees { s with hashPosition := next } { t with hashPosition := next } :=
  ⟨agrees.device, agrees.writer, agrees.hasher, agrees.summary, rfl, agrees.offset, agrees.calls⟩

theorem hashZerosTo_beside (next : UInt64) (agrees : Agrees s t) :
    Beside (PhylaRam.hashZerosTo C next) (hashZerosTo C true next)
      (fun _ u _ v => u = afterGap C next s ∧ Agrees u v) s t := by
  rw [PhylaRam.hashZerosTo, hashZerosTo, if_pos rfl]
  refine .get (.bind (demand_beside .guard (by rw [agrees.hashPosition]) agrees.calls) ?_)
  rintro - u - v ⟨ordered, rfl, rfl⟩
  rw [agrees.hashPosition]
  by_cases gap : u.hashPosition < next
  · rw [if_pos gap, if_pos gap]
    refine .bind (updateZeros_beside _ agrees) ?_
    rintro - _ - v ⟨rfl, agrees⟩
    refine .modify ⟨?_, agrees.moved next⟩
    simp [afterGap, gapReply, gapCalls, gap]
  · rw [if_neg gap, if_neg gap]
    refine .modify ⟨?_, agrees.moved next⟩
    simp [afterGap, gapReply, gapCalls, gap]

variable {r : ReadResult}

/-- A sum that only the shipped function checks. -/
theorem advance_beside {counter : AcquireState δ ω η κ → UInt64}
    {store : UInt64 → AcquireState δ ω η κ → AcquireState δ ω η κ} {increment : UInt64}
    {next : AcquireM δ ω η κ Unit} {y : Mock δ ω η κ Unit}
    {post : Unit → AcquireState δ ω η κ → Unit → State δ ω η κ → Prop}
    (fits : (counter s).toNat + increment.toNat < 2 ^ 64)
    (rest : Beside next y post (store (counter s + increment) s) t) :
    Beside (advance counter store increment >>= fun _ => next) y post s t :=
  .left ((advance_guarded counter store increment s).wp fits rest)

/-- The counters and the clock at the end of the condition chain of `keepBytes`. -/
def afterCounters (C : Collaborators δ ω η κ) (copied : UInt64) (s : AcquireState δ ω η κ) :
    AcquireState δ ω η κ :=
  { s with
    environment := (paceTransfer C.environment (s.transferredBytes + copied)
      C.config.rateLimitMBps s.environment).2
    hashPosition := s.hashPosition + copied
    offsetWithinRun := s.offsetWithinRun + copied
    processedPhysicalBytes := s.processedPhysicalBytes + copied
    summary := { s.summary with acquiredBytes := s.summary.acquiredBytes + copied }
    transferredBytes := s.transferredBytes + copied }

theorem Agrees.counters (agrees : Agrees s t) (copied : UInt64) :
    Agrees (afterCounters C copied s) { t with
      hashPosition := t.hashPosition + copied
      offset := t.offset + copied
      processedPhysical := t.processedPhysical + copied
      summary := { t.summary with acquiredBytes := t.summary.acquiredBytes + copied } } where
  device := agrees.device
  writer := agrees.writer
  hasher := agrees.hasher
  summary := by
    show { t.summary with acquiredBytes := t.summary.acquiredBytes + copied } =
      { s.summary with acquiredBytes := s.summary.acquiredBytes + copied }
    rw [agrees.summary]
  hashPosition := congrArg (· + copied) agrees.hashPosition
  offset := congrArg (· + copied) agrees.offset
  calls := agrees.calls

/-- Without a rate limit the two count the bytes alike, as long as every counter has room. -/
theorem counters_beside (unlimited : C.config.rateLimitMBps = 0) {copied : UInt64}
    (address : s.hashPosition.toNat + copied.toNat < 2 ^ 64)
    (offset : s.offsetWithinRun.toNat + copied.toNat < 2 ^ 64)
    (processed : s.processedPhysicalBytes.toNat + copied.toNat < 2 ^ 64)
    (acquired : s.summary.acquiredBytes.toNat + copied.toNat < 2 ^ 64)
    (transferred : s.transferredBytes.toNat + copied.toNat < 2 ^ 64) (agrees : Agrees s t) :
    Beside (do
        advance (·.hashPosition) (fun v s => { s with hashPosition := v }) copied
        advance (·.offsetWithinRun) (fun v s => { s with offsetWithinRun := v }) copied
        advance (·.processedPhysicalBytes) (fun v s => { s with processedPhysicalBytes := v }) copied
        advance (·.summary.acquiredBytes)
          (fun v s => { s with summary := { s.summary with acquiredBytes := v } }) copied
        advance (·.transferredBytes) (fun v s => { s with transferredBytes := v }) copied
        pace C)
      (count copied) (fun _ u _ v => u = afterCounters C copied s ∧ Agrees u v) s t := by
  refine advance_beside address <| advance_beside offset <| advance_beside processed <|
    advance_beside acquired <| advance_beside transferred ?_
  refine (pace_guarded C _).wp ?_ ⟨rfl, agrees.counters copied⟩
  rw [paceTransfer, if_pos unlimited]

/-- With room for the bytes and without a rate limit, both functions keep them in one way. -/
theorem keep_beside (unlimited : C.config.rateLimitMBps = 0) (room : Room r s)
    (whole : r.data.length = r.copied.toNat) (agrees : Agrees s t) :
    Beside (keepBytes C r) (keep C true r) (fun _ u _ v => u = afterKeep C r s ∧ Agrees u v) s t := by
  have data : r.data.take r.copied.toNat = r.data := by rw [← whole, List.take_length]
  have address := room.address_fits
  have offset := room.offset_fits
  have processed := room.processed_fits
  have acquired := room.acquired_fits
  have transferred := room.transferred_fits
  rw [← UInt32.toNat_toUInt64] at address offset processed acquired transferred
  rw [keepBytes, keep, data, if_pos rfl]
  refine .bind (hashZerosTo_beside _ agrees) ?_
  rintro - _ - v ⟨rfl, agrees⟩
  refine .bind (writeAt_beside _ _ agrees) ?_
  rintro - _ - v ⟨rfl, agrees⟩
  refine .bind (update_beside _ agrees) ?_
  rintro - _ - v ⟨rfl, agrees⟩
  exact counters_beside unlimited address offset processed acquired transferred agrees

/-- The last span ends by `bound`. -/
def SpanEnds (bound : Nat) (s : AcquireState δ ω η κ) : Prop :=
  ∀ span, s.summary.unreadable.getLast? = some span →
    span.start.toNat + span.length.toNat ≤ bound

/-- A span that does not wrap around is extended by both functions or by neither. -/
theorem pushUnreadable_eq {spans : List UnreadableSpan} {start length : UInt64} {status : Int32}
    (ends : ∀ span, spans.getLast? = some span →
      span.start.toNat + span.length.toNat ≤ start.toNat)
    (fits : start.toNat + length.toNat < 2 ^ 64) :
    pushUnreadable spans start length status =
      PhylaRam.pushUnreadable spans start length status := by
  rw [pushUnreadable, PhylaRam.pushUnreadable]
  cases last : spans.getLast? with
  | none => rfl
  | some previous =>
      have bound := ends previous last
      have small := start.toNat_lt
      have first : previous.start ≤ uint64Max - previous.length := by
        rw [uint64Max, Word.le_max_sub_iff]
        omega
      have second : previous.length ≤ uint64Max - length := by
        rw [uint64Max, Word.le_max_sub_iff]
        omega
      have same : (previous.status == status && previous.start + previous.length == start) =
          extendsSpan previous start length status := by
        rw [extendsSpan, decide_eq_true first, decide_eq_true second, Bool.true_and, Bool.and_true,
          Bool.and_comm]
      dsimp only
      rw [same]

/-- The recorded span is the last one, or the end of it. -/
theorem pushUnreadable_ends {spans : List UnreadableSpan} {start length : UInt64} {status : Int32}
    {span : UnreadableSpan}
    (ends : ∀ span, spans.getLast? = some span →
      span.start.toNat + span.length.toNat ≤ start.toNat)
    (last : (PhylaRam.pushUnreadable spans start length status).getLast? = some span) :
    span.start.toNat + span.length.toNat ≤ start.toNat + length.toNat := by
  rw [PhylaRam.pushUnreadable] at last
  cases before : spans.getLast? with
  | none =>
      rw [before] at last
      dsimp only at last
      rw [List.getLast?_concat, Option.some.injEq] at last
      rw [← last]
  | some previous =>
      have bound := ends previous before
      rw [before] at last
      dsimp only at last
      split at last <;> rw [List.getLast?_concat, Option.some.injEq] at last <;> rw [← last]
      have grown : (previous.length + length).toNat ≤ previous.length.toNat + length.toNat := by
        rw [UInt64.toNat_add]
        exact Nat.mod_le _ _
      show previous.start.toNat + (previous.length + length).toNat ≤ _
      omega

theorem skip_beside {physical length : UInt64} {status : Int32} (can : CanSkip length s)
    (ends : SpanEnds physical.toNat s) (fits : physical.toNat + length.toNat < 2 ^ 64)
    (agrees : Agrees s t) :
    Beside (skipUnreadable physical length status) (skip physical length status)
      (fun _ u _ v => u = afterSkip physical length status s ∧ Agrees u v) s t := by
  refine (skipUnreadable_guarded _ _ _ _).wp can ⟨rfl, ?_⟩
  refine ⟨agrees.device, agrees.writer, agrees.hasher, ?_, agrees.hashPosition, ?_, ?_⟩
  · show addUnreadable t.summary physical length status = _
    rw [addUnreadable, agrees.summary, pushUnreadable_eq ends fits]
    rfl
  · show t.offset + length = _
    rw [agrees.offset]
    rfl
  · show t.calls ++ _ = _
    rw [agrees.calls]
    rfl

/-- Both page loops treat a reply alike. -/
theorem keepOrSkip_beside {physical : UInt64} {requested : UInt32}
    (unlimited : C.config.rateLimitMBps = 0) (room : Room r s)
    (whole : r.data.length = r.copied.toNat) (can : CanSkip requested.toUInt64 s)
    (ends : SpanEnds physical.toNat s) (fits : physical.toNat + requested.toNat < 2 ^ 64)
    (agrees : Agrees s t) :
    Beside (keepOrSkip C physical requested r)
      (if r.copied ≠ 0 then do
        keep C true r
        pure (if r.copied = requested then Flow.leave else .again)
      else do
        skip physical requested.toUInt64 r.copyStatus
        pure .again)
      (fun flow u flow' v => flow' = flow ∧ Agrees u v) s t := by
  rw [keepOrSkip]
  by_cases copied : r.copied ≠ 0
  · rw [if_pos copied, if_pos copied]
    refine .bind (keep_beside unlimited room whole agrees) ?_
    rintro - _ - v ⟨rfl, agrees⟩
    exact ⟨rfl, agrees⟩
  · rw [← UInt32.toNat_toUInt64] at fits
    rw [if_neg copied, if_neg copied]
    refine .bind (skip_beside can ends fits agrees) ?_
    rintro - _ - v ⟨rfl, agrees⟩
    exact ⟨rfl, agrees⟩

/-- A load of the flag and a read, as the bodies of both loops begin. -/
theorem request_beside {α : Type} (unset : ∀ k, (C.environment.cancelled k).1 = false)
    {size : AcquireState δ ω η κ → UInt32} {size' : State δ ω η κ → UInt32}
    (same : ∀ s t, Agrees s t → size' t = size s)
    {f : AcquireState δ ω η κ → ReadResult → AcquireM δ ω η κ α}
    {g : State δ ω η κ → ReadResult → Mock δ ω η κ α}
    {post : α → AcquireState δ ω η κ → α → State δ ω η κ → Prop} (agrees : Agrees s t)
    (answered : ∀ r asked v, Answers C run (size (afterLoad C s)) s r →
      asked.offset = s.offsetWithinRun →
      Agrees (afterRequest C run (size (afterLoad C s)) s) v →
      Beside (f (afterLoad C s) r) (g asked r) post
        (afterRequest C run (size (afterLoad C s)) s) v) :
    Beside
      (do
        PhylaRam.checkCancelled C
        let s ← get
        let r ← readRun C run (size s)
        f s r)
      (do
        checkCancelled C
        let t ← get
        let r ← read C run (size' t)
        g t r)
      post s t := by
  refine .bind (checkCancelled_beside unset agrees) ?_
  rintro - _ - asked ⟨rfl, agrees⟩
  refine .get ?_
  rw [same _ _ agrees]
  refine .bind (read_beside _ agrees) ?_
  rintro r _ _ v ⟨rfl, reply, valid, rfl, reached⟩
  exact answered _ _ _ ⟨unset _, reply, valid⟩ agrees.offset reached

end Commands

/-! ### The loops -/

section Loops

variable {s : AcquireState δ ω η κ} {t : State δ ω η κ} {run : MemoryRun}

theorem SpanEnds.mono {bound bound' : Nat} (h : SpanEnds bound s) (le : bound ≤ bound') :
    SpanEnds bound' s := fun span last => (h span last).trans le

/-- No step records a span beyond the address it has reached. -/
theorem Step.spanEnds {u : AcquireState δ ω η κ} (valid : run.Valid) (step : Step C run s u)
    (within : s.offsetWithinRun.toNat ≤ run.length.toNat)
    (h : SpanEnds (run.base.toNat + s.offsetWithinRun.toNat) s) :
    SpanEnds (run.base.toNat + u.offsetWithinRun.toNat) u := by
  cases step with
  | probe request answers copied => exact h
  | keep request answers copied can =>
      rw [afterKeep_offset can]
      exact SpanEnds.mono h (Nat.add_le_add_left (Nat.le_add_right _ _) _)
  | @skip requested r request page answers copied can =>
      have address := address_toNat valid within
      intro span last
      rw [afterSkip_offset can, ← Nat.add_assoc]
      show _ ≤ run.base.toNat + s.offsetWithinRun.toNat + _
      rw [← address] at h ⊢
      exact pushUnreadable_ends h last

/-- The invariant of the loops over a run. -/
structure InStep (run : MemoryRun) (s : AcquireState δ ω η κ) (t : State δ ω η κ) : Prop where
  agrees : Agrees s t
  counted : Counted run s
  ends : SpanEnds (run.base.toNat + s.offsetWithinRun.toNat) s

theorem pageBody_agrees (unset : ∀ k, (C.environment.cancelled k).1 = false)
    (unlimited : C.config.rateLimitMBps = 0) (valid : run.Valid) {chunkEnd : UInt64}
    (before : s.offsetWithinRun.toNat < chunkEnd.toNat)
    (within : chunkEnd.toNat ≤ run.length.toNat) (h : InStep run s t) :
    Beside (PhylaRam.pageBody C run chunkEnd) (pageBody C true run chunkEnd)
      (fun flow u flow' v => flow' = flow ∧ Agrees u v) s t := by
  have request : Request run s (pageRequest run chunkEnd s) :=
    (pageRequest_spec valid before within).1
  refine request_beside unset (fun _ _ agrees => ?_) h.agrees ?_
  · rw [pageRequest, agrees.offset]
  intro r asked v answers offset agrees
  rw [offset]
  refine .right (demand_holds (beq_iff_eq.mpr answers.valid.address_eq)) ?_
  have address := address_toNat valid h.counted.within
  have inside := request.within
  refine keepOrSkip_beside unlimited (h.counted.room valid request answers)
    answers.valid.data_length (h.counted.skip valid request) ?_ ?_ agrees
  · show SpanEnds (run.base + s.offsetWithinRun).toNat _
    rw [address]
    exact h.ends
  · show (run.base + s.offsetWithinRun).toNat + (pageRequest run chunkEnd s).toNat < 2 ^ 64
    have := valid.fits
    rw [address]
    omega

/-- One turn of the page loops. -/
theorem pageBody_beside (unset : ∀ k, (C.environment.cancelled k).1 = false)
    (unlimited : C.config.rateLimitMBps = 0) (valid : run.Valid) {chunkEnd : UInt64}
    (before : s.offsetWithinRun.toNat < chunkEnd.toNat)
    (within : chunkEnd.toNat ≤ run.length.toNat) (h : InStep run s t) :
    Beside (PhylaRam.pageBody C run chunkEnd) (pageBody C true run chunkEnd)
      (fun flow u flow' v => flow' = flow ∧ InStep run u v) s t := by
  refine ((pageBody_agrees unset unlimited valid before within h).and
    (pageBody_wp C run chunkEnd s)).mono ?_
  rintro flow u flow' v ⟨⟨same, agrees⟩, page⟩
  have step := page.toStep valid before within
  exact ⟨same, agrees, step.counted valid h.counted,
    Step.spanEnds valid step h.counted.within h.ends⟩

theorem pageLoop_beside (unset : ∀ k, (C.environment.cancelled k).1 = false)
    (unlimited : C.config.rateLimitMBps = 0) (valid : run.Valid) {chunkEnd : UInt64}
    (within : chunkEnd.toNat ≤ run.length.toNat) (h : InStep run s t) {fuel : Nat}
    (enough : 2 ^ 64 ≤ fuel) :
    Beside (pageLoop C run chunkEnd)
      (boundedLoop .outOfFuel (fun t => decide (t.offset < chunkEnd))
        (pageBody C true run chunkEnd) fuel)
      (fun _ u _ v => InStep run u v) s t := by
  have small := chunkEnd.toNat_lt
  refine SideBySide.loop (fun u v h => ?_) (fun u before => ?_) (fun u v h before => ?_) h ?_
  · rw [h.agrees.offset]
  · rw [decide_eq_true_eq, UInt64.lt_iff_toNat_lt] at before
    omega
  · rw [decide_eq_true_eq, UInt64.lt_iff_toNat_lt] at before
    exact pageBody_beside unset unlimited valid before within h
  · omega

theorem keepCopied_beside {r : ReadResult} (unlimited : C.config.rateLimitMBps = 0)
    (room : Room r s) (whole : r.data.length = r.copied.toNat) (agrees : Agrees s t) :
    Beside (PhylaRam.keepCopied C r) (keepCopied C true r) (fun _ u _ v => Agrees u v) s t := by
  rw [PhylaRam.keepCopied, keepCopied]
  refine .ite (fun _ => ?_) fun _ => agrees
  exact (keep_beside unlimited room whole agrees).mono fun _ _ _ _ h => h.2

theorem isolate_beside (unset : ∀ k, (C.environment.cancelled k).1 = false)
    (unlimited : C.config.rateLimitMBps = 0) (valid : run.Valid) {requested : UInt32}
    {r : ReadResult} (le : r.copied.toNat ≤ requested.toNat)
    (within : s.offsetWithinRun.toNat + (requested.toNat - r.copied.toNat) ≤ run.length.toNat)
    (h : InStep run s t) {fuel : Nat} (enough : 2 ^ 64 ≤ fuel) :
    Beside (isolateWindow C run requested r) (isolate C true fuel run requested r)
      (fun _ u _ v => InStep run u v) s t := by
  have fits := valid.fits
  rw [isolateWindow, isolate]
  refine .ite (fun _ => .get ?_) fun _ => h
  rw [h.agrees.offset]
  refine .left ?_
  simp only [require_wp, decide_eq_true_eq, uint64Max, Word.le_max_sub_iff,
    Word.toNat_sub32_of_le le]
  refine ⟨fun _ => pageLoop_beside unset unlimited valid ?_ h enough, fun overflow => by omega⟩
  rw [windowEnd_toNat le (by omega)]
  exact Nat.min_le_left _ _

/-- One turn of the loops over a run. -/
theorem chunkBody_beside (unset : ∀ k, (C.environment.cancelled k).1 = false)
    (unlimited : C.config.rateLimitMBps = 0) (valid : run.Valid)
    (before : s.offsetWithinRun.toNat < run.length.toNat) (h : InStep run s t) {fuel : Nat}
    (enough : 2 ^ 64 ≤ fuel) :
    Beside (PhylaRam.chunkBody C run) (chunkBody C true fuel run)
      (fun _ u _ v => InStep run u v) s t := by
  have request : Request run s (bulkRequestBytes run s.offsetWithinRun) := bulkRequest_spec before
  refine request_beside unset (fun _ _ agrees => ?_) h.agrees ?_
  · rw [agrees.offset]
  intro r asked v answers offset agrees
  have within := request.within
  have le : r.copied.toNat ≤ (bulkRequestBytes run s.offsetWithinRun).toNat :=
    answers.valid.copied_le
  rw [offset]
  refine .right (demand_holds ?_) ?_
  · rw [Bool.and_eq_true, beq_iff_eq, beq_iff_eq]
    exact ⟨answers.valid.address_eq, answers.valid.requested_eq⟩
  refine .bind ((keepCopied_beside unlimited (h.counted.room valid request answers)
    answers.valid.data_length agrees).and (keepCopied_guarded r _)) ?_
  rintro - _ - w ⟨agrees, can, rfl⟩
  have moved := keepCopied_offset can
  change _ = s.offsetWithinRun.toNat + r.copied.toNat at moved
  have step := Step.first request answers can
  refine isolate_beside unset unlimited valid le (by rw [moved]; omega)
    ⟨agrees, step.counted valid h.counted, Step.spanEnds valid step h.counted.within h.ends⟩ enough

theorem runLoop_beside (unset : ∀ k, (C.environment.cancelled k).1 = false)
    (unlimited : C.config.rateLimitMBps = 0) (valid : run.Valid) (h : InStep run s t) {fuel : Nat}
    (enough : 2 ^ 64 ≤ fuel) :
    Beside (runLoop C run)
      (boundedLoop .outOfFuel (fun t => decide (t.offset < run.length))
        (do chunkBody C true fuel run; pure .again) fuel)
      (fun _ u _ v => InStep run u v) s t := by
  have small := run.length.toNat_lt
  refine SideBySide.loop (fun u v h => ?_) (fun u before => ?_) (fun u v h before => ?_) h ?_
  · rw [h.agrees.offset]
  · rw [decide_eq_true_eq, UInt64.lt_iff_toNat_lt] at before
    omega
  · rw [decide_eq_true_eq, UInt64.lt_iff_toNat_lt] at before
    refine .bind (chunkBody_beside unset unlimited valid before h enough) ?_
    intro _ _ _ _ h
    exact ⟨rfl, h⟩
  · omega

/-- The state in which both functions come to a run. -/
structure BetweenRuns (lo : Nat) (s : AcquireState δ ω η κ) (t : State δ ω η κ) : Prop where
  agrees : Agrees s t
  under : Under lo s
  ends : SpanEnds lo s

theorem BetweenRuns.enter {lo : Nat} (h : BetweenRuns lo s t) (le : lo ≤ run.base.toNat) :
    InStep run (atRunStart s) { t with offset := 0 } where
  agrees := ⟨h.agrees.device, h.agrees.writer, h.agrees.hasher, h.agrees.summary,
    h.agrees.hashPosition, rfl, h.agrees.calls⟩
  counted := counted_atRunStart (h.under.mono le)
  ends span last := (h.ends span last).trans le

theorem InStep.leave (h : InStep run s t) : BetweenRuns run.interval.stop s t :=
  have end_le : run.base.toNat + s.offsetWithinRun.toNat ≤ run.interval.stop :=
    Nat.add_le_add_left h.counted.within _
  ⟨h.agrees, h.counted.under.mono end_le, SpanEnds.mono h.ends end_le⟩

theorem acquireRuns_beside (unset : ∀ k, (C.environment.cancelled k).1 = false)
    (unlimited : C.config.rateLimitMBps = 0) {runs : List MemoryRun}
    (valid : ∀ run ∈ runs, run.Valid) (ordered : Ordered (runIntervals runs)) {lo : Nat}
    (above : ∀ run ∈ runs, lo ≤ run.base.toNat) (h : BetweenRuns lo s t) {fuel : Nat}
    (enough : 2 ^ 64 ≤ fuel) :
    Beside (PhylaRam.acquireRuns C runs) (acquireRuns C true fuel runs)
      (fun _ u _ v => Agrees u v) s t := by
  induction runs generalizing s t lo with
  | nil => exact h.agrees
  | cons run rest ih =>
      obtain ⟨before, later⟩ := ordered_cons.mp ordered
      have runValid := valid run List.mem_cons_self
      simp only [PhylaRam.acquireRuns, acquireRun, acquireRuns, bind_assoc]
      refine .left ?_
      rw [require_wp, runValid_iff]
      refine ⟨fun _ => ?_, fun invalid => (invalid runValid).elim⟩
      obtain ⟨v, ran, agrees⟩ := checkCancelled_alone unset h.agrees
      have arrived : BetweenRuns lo s v := ⟨agrees, h.under, h.ends⟩
      refine .right ran (.modify_bind ?_)
      refine .bind (runLoop_beside unset unlimited runValid
        (arrived.enter (above run List.mem_cons_self)) enough) ?_
      intro _ u _ v reached
      refine ih (fun r member => valid r (List.mem_cons_of_mem _ member)) later (fun r member => ?_)
        reached.leave
      exact before r.interval (List.mem_map_of_mem member)

end Loops

/-! ### The whole acquisition -/

section Acquire

variable {s : AcquireState δ ω η κ} {t : State δ ω η κ}

/-- Sorted, disjoint, non-empty runs that do not wrap around; non-zero figures. -/
structure WellFormed (topology : Topology) : Prop where
  usable : topology.Usable
  runs : ∀ run ∈ topology.runs, run.Valid
  ordered : Ordered (runIntervals topology.runs)

theorem beginSummary_beside
    (wellFormed : ∀ topology, (C.device.query s.device).1 = some topology → WellFormed topology)
    (hints : ∀ d, (C.device.queryHints d).1.1 = false → (C.device.queryHints d).1.2 = {})
    (fresh : s.summary = {}) (agrees : Agrees s t) :
    Beside (PhylaRam.beginSummary C) (beginSummary C)
      (fun topology u topology' v => topology' = topology ∧ WellFormed topology ∧
        u = afterQuery C topology s ∧ Agrees u v) s t := by
  simp only [Beside, SideBySide, PhylaRam.beginSummary, beginSummary, WP.bind_iff,
    WP.modifyGet_iff, agrees.device]
  cases answer : (C.device.query s.device).1 with
  | none => exact .inr ⟨rfl, agrees.calls⟩
  | some topology =>
      have good := wellFormed topology answer
      have told : (if (C.device.queryHints (C.device.query s.device).2).1.1 then
          (C.device.queryHints (C.device.query s.device).2).1.2 else {}) =
          (C.device.queryHints (C.device.query s.device).2).1.2 := by
        split
        · rfl
        · next failed => exact (hints _ (Bool.not_eq_true _ ▸ failed)).symm
      simp only [WP.bind_iff, require_wp, WP.modify_iff, WP.pure_iff, usable_iff]
      refine ⟨fun _ => ⟨trivial, good, ?_, ?_⟩, fun unusable => (unusable good.usable).elim⟩
      · rw [afterQuery, fresh]
      · refine ⟨rfl, agrees.writer, agrees.hasher, ?_, agrees.hashPosition, agrees.offset,
          agrees.calls⟩
        rw [agrees.summary, fresh, told]

theorem endSession_beside (agrees : Agrees s t) :
    Beside (PhylaRam.endSession C) (endSession C) (fun _ u _ v => Agrees u v) s t := by
  simp only [Beside, SideBySide, PhylaRam.endSession, endSession, record, WP.bind_iff, record_wp,
    WP.modify_iff, WP.modifyGet_iff, agrees.device, agrees.calls]
  cases answer : (C.device.endSession s.device).1 with
  | none => exact .inr ⟨rfl, rfl⟩
  | some changed =>
      refine ⟨rfl, agrees.writer, agrees.hasher, ?_, agrees.hashPosition, agrees.offset, rfl⟩
      rw [agrees.summary]

/-- The two functions, from states that agree before anything has been done. -/
theorem acquire_beside (unset : ∀ k, (C.environment.cancelled k).1 = false)
    (unlimited : C.config.rateLimitMBps = 0)
    (wellFormed : ∀ topology, (C.device.query s.device).1 = some topology → WellFormed topology)
    (hints : ∀ d, (C.device.queryHints d).1.1 = false → (C.device.queryHints d).1.2 = {})
    (fresh : s.summary = {}) (position : s.hashPosition = 0)
    (processed : s.processedPhysicalBytes = 0) (transferred : s.transferredBytes = 0)
    (agrees : Agrees s t) {fuel : Nat} (enough : 2 ^ 64 ≤ fuel) :
    Beside (PhylaRam.acquire C) (acquire C true fuel) (fun _ u _ v => Agrees u v) s t := by
  have reset : { s with summary := {} } = s := by rw [← fresh]
  rw [PhylaRam.acquire, acquire]
  refine .left ?_
  rw [WP.modify_iff, reset]
  refine .bind (beginSummary_beside wellFormed hints fresh agrees) ?_
  rintro _ _ topology v ⟨rfl, good, rfl, agrees⟩
  have entered : BetweenRuns 0 (afterQuery C topology s) v :=
    ⟨agrees, under_afterQuery position processed transferred, fun _ none => by cases none⟩
  refine .bind (acquireRuns_beside unset unlimited good.runs good.ordered
    (fun _ _ => Nat.zero_le _) entered enough) ?_
  intro _ u _ v agrees
  refine .get ?_
  rw [agrees.summary]
  refine .bind (hashZerosTo_beside _ agrees) ?_
  rintro - _ - v ⟨rfl, agrees⟩
  exact endSession_beside agrees

end Acquire

/-- The same result after the same calls, and the same summary with a true one. -/
structure SameOutcome (shipped : EStateM.Result StopCause (AcquireState δ ω η κ) Unit)
    (tested : EStateM.Result Stop (State δ ω η κ) Unit) : Prop where
  result : returned tested = returned shipped
  calls : (final tested).calls = (final shipped).calls
  summary : returned shipped = true → (final tested).summary = (final shipped).summary
  ended : ∀ t, tested ≠ .error .outOfFuel t

/-- The function under test and the shipped one do the same, unless the device gives the shipped
one a reply that `ValidateReadResult` rejects. -/
theorem acquire_tested (device : δ) (writer : ω) (hasher : η) (environment : κ)
    (wellFormed : ∀ topology, (C.device.query device).1 = some topology → WellFormed topology)
    (replies : ∀ u, PhylaRam.acquire C (.start device writer hasher environment) ≠
      .error .reply u)
    (hints : ∀ d, (C.device.queryHints d).1.1 = false → (C.device.queryHints d).1.2 = {})
    (unset : ∀ k, (C.environment.cancelled k).1 = false)
    (unlimited : C.config.rateLimitMBps = 0) {fuel : Nat} (enough : 2 ^ 64 ≤ fuel) :
    SameOutcome (PhylaRam.acquire C (.start device writer hasher environment))
      (acquire C true fuel (.start device writer hasher environment)) := by
  have agrees : Agrees (.start device writer hasher environment)
      (.start device writer hasher environment : State δ ω η κ) :=
    ⟨rfl, rfl, rfl, rfl, rfl, rfl, rfl⟩
  have both := acquire_beside unset unlimited wellFormed hints rfl rfl rfl rfl agrees enough
  cases shipped : PhylaRam.acquire C (.start device writer hasher environment) with
  | ok a u =>
      obtain ⟨_, v, tested, agrees⟩ := (WP.of_ok both shipped).returns
      rw [tested]
      exact ⟨rfl, agrees.calls, fun _ => agrees.summary, fun _ same => by cases same⟩
  | error cause u =>
      have stopped := (WP.of_error both shipped).resolve_left
        fun refused => replies u (refused ▸ shipped)
      cases tested : acquire C true fuel (.start device writer hasher environment) with
      | ok a v => exact (stopped.of_ok tested).elim
      | error e v =>
          obtain ⟨rfl, calls⟩ := stopped.of_error tested
          exact ⟨rfl, calls, Bool.noConfusion, fun _ same => by cases same⟩

theorem acquire_tested_faulty_page :
    SameOutcome (PhylaRam.acquire mockCollaborators (.start mockFaultyPage {} {} ()))
      (acquire mockCollaborators true (2 ^ 64) (.start mockFaultyPage {} {} ())) := by
  refine acquire_tested (C := mockCollaborators) mockFaultyPage {} {} () ?_ ?_
    (fun _ failed => by cases failed)
    (fun _ => rfl) rfl (Nat.le_refl _)
  · rintro topology asked
    obtain rfl : topology = ⟨0x2008, 16, [⟨0, 0x1FF8, 16⟩]⟩ := Option.some.inj asked.symm
    refine ⟨⟨by decide, by decide, by decide⟩, fun run member => ?_, List.pairwise_singleton _ _⟩
    rw [List.mem_singleton.mp member]
    exact ⟨by decide, by decide⟩
  · intro u stopped
    have completed : returned (PhylaRam.acquire mockCollaborators
        (.start mockFaultyPage {} {} ())) = true := by decide +kernel
    rw [stopped] at completed
    cases completed

end MockAcquire

end PhylaRam
