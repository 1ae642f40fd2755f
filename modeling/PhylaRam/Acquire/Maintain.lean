import PhylaRam.Acquire.Trace

/-!
# What every run of the engine maintains, however it ends

`Traversal` describes completed runs. A run that stops leaves its collaborators in some
intermediate state, and what is kept there is what is kept by each call the engine makes.
`Sustains` lists these calls, with what the engine guarantees about their arguments, and
tells an accepted write from a refused one; `acquire_sustains` carries an invariant through
the whole of `Acquire`. `Maintains` and `acquire_maintains` are the case in which a refused
write keeps the invariant as well.
-/

namespace PhylaRam

open Program

variable {δ ω η κ : Type} (C : Collaborators δ ω η κ)

/-- A call that concerns neither the device nor the writer. -/
def Call.Quiet : Call → Prop
  | .read .. | .writeAt .. => False
  | _ => True

/-- Nothing was asked of the device or the writer in between. -/
structure Unobserved (s t : AcquireState δ ω η κ) : Prop where
  device : t.device = s.device
  writer : t.writer = s.writer
  calls : ∃ quiet, (∀ call ∈ quiet, call.Quiet) ∧ t.calls = s.calls ++ quiet

theorem Unobserved.of_eq {s t : AcquireState δ ω η κ} (device : t.device = s.device)
    (writer : t.writer = s.writer) (calls : t.calls = s.calls) : Unobserved s t :=
  ⟨device, writer, [], by simp, calls.trans (List.append_nil _).symm⟩

theorem Unobserved.of_call {s t : AcquireState δ ω η κ} {call : Call}
    (device : t.device = s.device) (writer : t.writer = s.writer)
    (calls : t.calls = s.calls ++ [call]) (quiet : call.Quiet) : Unobserved s t :=
  ⟨device, writer, [call], fun _ member => List.mem_singleton.mp member ▸ quiet, calls⟩

theorem Unobserved.mem {s t : AcquireState δ ω η κ} (unobserved : Unobserved s t) {call : Call}
    (member : call ∈ s.calls) : call ∈ t.calls := by
  obtain ⟨quiet, _, calls⟩ := unobserved.calls
  exact calls ▸ List.mem_append_left _ member

/-- `I` does not see what `Unobserved` leaves open. -/
def Observes (I : AcquireState δ ω η κ → Prop) : Prop := ∀ s t, Unobserved s t → I s → I t

/-- The state after a `WriteAt`, whatever it returned. -/
def afterWrite (offset : UInt64) (data : List Byte) (s : AcquireState δ ω η κ) :
    AcquireState δ ω η κ :=
  { s with
    writer := (C.writer.writeAt offset data s.writer).2
    calls := s.calls ++ [.writeAt offset data] }

/-- `r` is an accepted reply to a read within `run`, made earlier. -/
structure Replied (run : MemoryRun) (offset : UInt64) (requested : UInt32) (r : ReadResult)
    (calls : List Call) : Prop where
  received : .read run.driverIndex offset requested (some r) ∈ calls
  valid : r.Valid (run.base + offset) requested
  within : offset.toNat + requested.toNat ≤ run.length.toNat
  bounded : requested.toNat ≤ phylaMaxTransfer.toNat

theorem Replied.append {run : MemoryRun} {offset : UInt64} {requested : UInt32}
    {r : ReadResult} {calls : List Call} (h : Replied run offset requested r calls)
    (more : List Call) : Replied run offset requested r (calls ++ more) :=
  ⟨List.mem_append_left _ h.received, h.valid, h.within, h.bounded⟩

theorem Replied.data_ne_nil {run : MemoryRun} {offset : UInt64} {requested : UInt32}
    {r : ReadResult} {calls : List Call} (h : Replied run offset requested r calls)
    (copied : r.copied ≠ 0) : r.data ≠ [] := by
  rw [← List.length_pos_iff, h.valid.data_length]
  exact Word.pos_iff32.mp copied

/-- Reads within the runs and accepted writes of what was read keep `I`. A refused write,
which is the last call of its run, leaves `J`. -/
structure Sustains (runs : List MemoryRun) (I J : AcquireState δ ω η κ → Prop) : Prop where
  quiet : Observes I
  weaken : ∀ s, I s → J s
  read : ∀ run ∈ runs, run.Valid → ∀ s requested, Request run s requested → I s →
    I (afterRead C run requested s)
  accepted : ∀ run ∈ runs, run.Valid → ∀ s offset requested r,
    Replied run offset requested r s.calls → r.copied ≠ 0 → I s →
    (C.writer.writeAt r.physicalAddress r.data s.writer).1 = true →
    I (afterWrite C r.physicalAddress r.data s)
  refused : ∀ run ∈ runs, run.Valid → ∀ s offset requested r,
    Replied run offset requested r s.calls → r.copied ≠ 0 → I s →
    (C.writer.writeAt r.physicalAddress r.data s.writer).1 = false →
    J (afterWrite C r.physicalAddress r.data s)

/-- Reads within the runs and writes of what was read keep `I`. -/
structure Maintains (runs : List MemoryRun) (I : AcquireState δ ω η κ → Prop) : Prop where
  quiet : Observes I
  read : ∀ run ∈ runs, run.Valid → ∀ s requested, Request run s requested → I s →
    I (afterRead C run requested s)
  write : ∀ s runIndex offset length r, I s →
    .read runIndex offset length (some r) ∈ s.calls → r.data.length = r.copied.toNat →
    r.copied.toNat ≤ phylaMaxTransfer.toNat →
    I (afterWrite C r.physicalAddress r.data s)

theorem Maintains.sustains {runs : List MemoryRun} {I : AcquireState δ ω η κ → Prop}
    (maintains : Maintains C runs I) : Sustains C runs I I := by
  have write : ∀ run ∈ runs, run.Valid → ∀ s offset requested r,
      Replied run offset requested r s.calls → r.copied ≠ 0 → I s →
      I (afterWrite C r.physicalAddress r.data s) := by
    intro run _ _ s offset requested r replied _ h
    exact maintains.write s _ _ _ r h replied.received replied.valid.data_length
      (Nat.le_trans replied.valid.copied_le replied.bounded)
  refine ⟨maintains.quiet, fun _ h => h, maintains.read, ?_, ?_⟩
  · intro run member valid s offset requested r replied copied h _
    exact write run member valid s offset requested r replied copied h
  · intro run member valid s offset requested r replied copied h _
    exact write run member valid s offset requested r replied copied h

section Commands

variable {C} {I : AcquireState δ ω η κ → Prop}

/-- A command that asks nothing of the device or the writer. -/
theorem Observes.modify (observes : Observes I) {f : AcquireState δ ω η κ → AcquireState δ ω η κ}
    (unobserved : ∀ s, Unobserved s (f s)) :
    Keeps I (modify f : AcquireM δ ω η κ Unit) :=
  .modify fun s => observes s (f s) (unobserved s)

theorem require_keeps {condition : Bool} {cause : StopCause} :
    Keeps I (require condition cause : AcquireM δ ω η κ Unit) :=
  .ite (fun _ => .pure _) (fun _ => .throw _)

theorem record_keeps (observes : Observes I) {call : Call} (quiet : call.Quiet) :
    Keeps I (record call : AcquireM δ ω η κ Unit) :=
  observes.modify fun _ => .of_call rfl rfl rfl quiet

theorem updateZeros_keeps (observes : Observes I) (length : UInt64) :
    Keeps I (updateZeros C length) := by
  refine .bind (record_keeps observes trivial) fun _ => .bind (.modifyGet fun s => ?_) fun _ =>
    require_keeps
  exact observes s _ (.of_eq rfl rfl rfl)

theorem update_keeps (observes : Observes I) (data : List Byte) : Keeps I (update C data) := by
  refine .bind (record_keeps observes trivial) fun _ => .bind (.modifyGet fun s => ?_) fun _ =>
    require_keeps
  exact observes s _ (.of_eq rfl rfl rfl)

theorem hashZerosTo_keeps (observes : Observes I) (next : UInt64) :
    Keeps I (hashZerosTo C next) := by
  have moved : Keeps I (modify fun s => { s with hashPosition := next } : AcquireM δ ω η κ Unit) :=
    observes.modify fun _ => .of_eq rfl rfl rfl
  intro s h
  simp only [hashZerosTo, WP.bind_iff, WP.get_iff, require_wp]
  refine ⟨fun _ => ?_, fun _ => h⟩
  split
  · rw [WP.bind_iff]
    exact (updateZeros_keeps observes _ s h).mono (fun _ t => moved t) (fun _ _ h => h)
  · exact moved s h

theorem advance_keeps (observes : Observes I) {counter : AcquireState δ ω η κ → UInt64}
    {store : UInt64 → AcquireState δ ω η κ → AcquireState δ ω η κ} {increment : UInt64}
    (unobserved : ∀ v s, Unobserved s (store v s)) : Keeps I (advance counter store increment) := by
  refine .bind .get fun s => ?_
  split
  · exact .throw _
  · exact observes.modify (unobserved _)

theorem pace_keeps (observes : Observes I) : Keeps I (pace C) :=
  .bind (.modifyGet fun s => observes s _ (.of_eq rfl rfl rfl)) fun _ => require_keeps

theorem skipUnreadable_keeps (observes : Observes I) (address length : UInt64) (status : Int32) :
    Keeps I (skipUnreadable address length status : AcquireM δ ω η κ Unit) := by
  refine .bind (.bind (record_keeps observes trivial) fun _ => .bind .get fun s => ?_) fun _ =>
    .bind (advance_keeps observes fun _ _ => .of_eq rfl rfl rfl) fun _ =>
      advance_keeps observes fun _ _ => .of_eq rfl rfl rfl
  split
  · exact .throw _
  · exact observes.modify fun _ => .of_eq rfl rfl rfl

end Commands

section Loops

variable {C} {runs : List MemoryRun} {run : MemoryRun} {I J : AcquireState δ ω η κ → Prop}
  {r : ReadResult}

theorem Observes.replied (observes : Observes I) (run : MemoryRun) (offset : UInt64)
    (requested : UInt32) (r : ReadResult) :
    Observes fun s => I s ∧ Replied run offset requested r s.calls := by
  rintro s t unobserved ⟨h, replied⟩
  obtain ⟨quiet, _, calls⟩ := id unobserved.calls
  exact ⟨observes s t unobserved h, calls ▸ replied.append quiet⟩

theorem writeAt_sustains (sustains : Sustains C runs I J) (member : run ∈ runs)
    (valid : run.Valid) {offset : UInt64} {requested : UInt32} (copied : r.copied ≠ 0)
    {s : AcquireState δ ω η κ} (h : I s) (replied : Replied run offset requested r s.calls) :
    WP (writeAt C r.physicalAddress r.data)
      (fun _ t => I t ∧ Replied run offset requested r t.calls) (fun _ => J) s := by
  simp only [writeAt, WP.bind_iff, record_wp, WP.modifyGet_iff, require_wp, Bool.not_eq_true]
  constructor
  · intro accepted
    exact ⟨sustains.accepted run member valid s offset requested r replied copied h accepted,
      replied.append _⟩
  · exact sustains.refused run member valid s offset requested r replied copied h

theorem keepBytes_sustains (sustains : Sustains C runs I J) (member : run ∈ runs)
    (valid : run.Valid) {offset : UInt64} {requested : UInt32} (copied : r.copied ≠ 0)
    {s : AcquireState δ ω η κ} (h : I s) (replied : Replied run offset requested r s.calls) :
    WP (keepBytes C r) (fun _ => I) (fun _ => J) s := by
  have observes := sustains.quiet.replied run offset requested r
  have after : Keeps (fun s => I s ∧ Replied run offset requested r s.calls) (do
      update C r.data
      advance (·.hashPosition) (fun v s => { s with hashPosition := v }) r.copied.toUInt64
      advance (·.offsetWithinRun) (fun v s => { s with offsetWithinRun := v }) r.copied.toUInt64
      advance (·.processedPhysicalBytes) (fun v s => { s with processedPhysicalBytes := v })
        r.copied.toUInt64
      advance (·.summary.acquiredBytes)
        (fun v s => { s with summary := { s.summary with acquiredBytes := v } }) r.copied.toUInt64
      advance (·.transferredBytes) (fun v s => { s with transferredBytes := v }) r.copied.toUInt64
      pace C) :=
    .bind (update_keeps observes _) fun _ =>
    .bind (advance_keeps observes fun _ _ => .of_eq rfl rfl rfl) fun _ =>
    .bind (advance_keeps observes fun _ _ => .of_eq rfl rfl rfl) fun _ =>
    .bind (advance_keeps observes fun _ _ => .of_eq rfl rfl rfl) fun _ =>
    .bind (advance_keeps observes fun _ _ => .of_eq rfl rfl rfl) fun _ =>
    .bind (advance_keeps observes fun _ _ => .of_eq rfl rfl rfl) fun _ => pace_keeps observes
  rw [keepBytes, WP.bind_iff]
  refine (hashZerosTo_keeps observes _ s ⟨h, replied⟩).mono (fun _ u h => ?_)
    (fun _ u h => sustains.weaken u h.1)
  rw [WP.bind_iff]
  refine (writeAt_sustains sustains member valid copied h.1 h.2).mono (fun _ v h => ?_)
    (fun _ _ h => h)
  exact (after v h).mono (fun _ _ h => h.1) (fun _ w h => sustains.weaken w h.1)

theorem readRun_sustains (sustains : Sustains C runs I J) (member : run ∈ runs)
    (valid : run.Valid) {s : AcquireState δ ω η κ} {requested : UInt32}
    (request : Request run s requested) (h : I s)
    {post : ReadResult → AcquireState δ ω η κ → Prop}
    (accepted : ∀ r, Replied run s.offsetWithinRun requested r
      (afterRead C run requested s).calls → I (afterRead C run requested s) →
      post r (afterRead C run requested s)) :
    WP (readRun C run requested) post (fun _ => J) s := by
  have asked := sustains.read run member valid s requested request h
  rw [readRun_wp]
  refine ⟨fun r answer => ⟨fun reply => accepted r ⟨?_, reply, request.within, request.bounded⟩
    asked, fun _ => sustains.weaken _ asked⟩, fun _ => sustains.weaken _ asked⟩
  refine List.mem_append_right _ ?_
  rw [answer]
  exact List.mem_singleton_self _

theorem pageBody_sustains (sustains : Sustains C runs I J) (member : run ∈ runs)
    (valid : run.Valid) {chunkEnd : UInt64} {s : AcquireState δ ω η κ}
    (before : s.offsetWithinRun.toNat < chunkEnd.toNat)
    (within : chunkEnd.toNat ≤ run.length.toNat) (h : I s) :
    WP (pageBody C run chunkEnd) (fun _ => I) (fun _ => J) s := by
  have request : Request run (afterLoad C s) (pageRequest run chunkEnd (afterLoad C s)) :=
    (pageRequest_spec (s := afterLoad C s) valid before within).1
  have loaded : I (afterLoad C s) := sustains.quiet s _ (.of_eq rfl rfl rfl) h
  simp only [pageBody, WP.bind_iff, checkCancelled_wp, WP.get_iff]
  refine ⟨fun _ => ?_, fun _ => sustains.weaken _ loaded⟩
  apply readRun_sustains sustains member valid request loaded
  intro r replied asked
  unfold keepOrSkip
  split
  · next copied =>
      rw [WP.bind_iff]
      exact keepBytes_sustains sustains member valid copied asked replied
  · simp only [WP.bind_iff, WP.pure_iff]
    generalize (pageRequest run chunkEnd (afterLoad C s)).toUInt64 = length
    exact (skipUnreadable_keeps sustains.quiet _ length _ _ asked).mono (fun _ _ h => h)
      (fun _ _ h => sustains.weaken _ h)

/-- The invariant rule for loops whose body may stop with less. -/
theorem whileLoop_sustains {condition : AcquireState δ ω η κ → Bool} {body : AcquireM δ ω η κ Flow}
    {variant : AcquireState δ ω η κ → Nat}
    {decreases : ∀ s t, condition s = true → body s = .ok .again t → variant t < variant s}
    (iteration : ∀ s, I s → condition s = true → WP body (fun _ => I) (fun _ => J) s)
    {s : AcquireState δ ω η κ} (h : I s) :
    WP (whileLoop condition body variant decreases) (fun _ => I) (fun _ => J) s := by
  refine whileLoop_wp I I h (fun u h before => ?_) (fun _ h _ => h)
  refine (iteration u h before).mono (fun flow t h' => ?_) (fun _ _ h' => h')
  cases flow <;> exact h'

theorem pageLoop_sustains (sustains : Sustains C runs I J) (member : run ∈ runs)
    (valid : run.Valid) {chunkEnd : UInt64} (within : chunkEnd.toNat ≤ run.length.toNat)
    {s : AcquireState δ ω η κ} (h : I s) :
    WP (pageLoop C run chunkEnd) (fun _ => I) (fun _ => J) s := by
  refine whileLoop_sustains (fun u h before => ?_) h
  rw [decide_eq_true_eq, UInt64.lt_iff_toNat_lt] at before
  exact pageBody_sustains sustains member valid before within h

theorem isolateWindow_sustains (sustains : Sustains C runs I J) (member : run ∈ runs)
    (valid : run.Valid) {requested : UInt32} {s : AcquireState δ ω η κ} (h : I s) :
    WP (isolateWindow C run requested r) (fun _ => I) (fun _ => J) s := by
  rw [isolateWindow, WP.ite_iff]
  refine ⟨fun _ => ?_, fun _ => h⟩
  simp only [WP.bind_iff, WP.get_iff, require_wp]
  refine ⟨fun _ => pageLoop_sustains sustains member valid ?_ h, fun _ => sustains.weaken _ h⟩
  rw [Word.toNat_min]
  exact Nat.min_le_left _ _

theorem chunkBody_sustains (sustains : Sustains C runs I J) (member : run ∈ runs)
    (valid : run.Valid) {s : AcquireState δ ω η κ}
    (before : s.offsetWithinRun.toNat < run.length.toNat) (h : I s) :
    WP (chunkBody C run) (fun _ => I) (fun _ => J) s := by
  have request : Request run (afterLoad C s) (bulkRequestBytes run s.offsetWithinRun) :=
    bulkRequest_spec (s := afterLoad C s) before
  have loaded : I (afterLoad C s) := sustains.quiet s _ (.of_eq rfl rfl rfl) h
  simp only [chunkBody, WP.bind_iff, checkCancelled_wp, WP.get_iff]
  refine ⟨fun _ => ?_, fun _ => sustains.weaken _ loaded⟩
  apply readRun_sustains sustains member valid request loaded
  intro r replied asked
  have kept : WP (keepCopied C r) (fun _ => I) (fun _ => J)
      (afterRead C run (bulkRequestBytes run s.offsetWithinRun) (afterLoad C s)) := by
    unfold keepCopied
    split
    · next copied => exact keepBytes_sustains sustains member valid copied asked replied
    · exact asked
  exact kept.mono (fun _ t h => isolateWindow_sustains sustains member valid h) (fun _ _ h => h)

theorem acquireRun_sustains (sustains : Sustains C runs I J) (member : run ∈ runs)
    {s : AcquireState δ ω η κ} (h : I s) :
    WP (acquireRun C run) (fun _ => I) (fun _ => J) s := by
  simp only [acquireRun, WP.bind_iff, require_wp, WP.modify_iff, runValid_iff]
  refine ⟨fun valid => ?_, fun _ => sustains.weaken _ h⟩
  have started : I { s with offsetWithinRun := 0 } := sustains.quiet s _ (.of_eq rfl rfl rfl) h
  refine whileLoop_sustains (fun u h before => ?_) started
  rw [decide_eq_true_eq, UInt64.lt_iff_toNat_lt] at before
  exact WP.bind_iff.mpr (chunkBody_sustains sustains member valid before h)

theorem acquireRuns_sustains (sustains : Sustains C runs I J) (rest : List MemoryRun)
    (subset : ∀ run ∈ rest, run ∈ runs) {s : AcquireState δ ω η κ} (h : I s) :
    WP (acquireRuns C rest) (fun _ => I) (fun _ => J) s := by
  induction rest generalizing s with
  | nil => exact h
  | cons run rest ih =>
      rw [acquireRuns, WP.bind_iff]
      refine (acquireRun_sustains sustains (subset run List.mem_cons_self) h).mono
        (fun _ t h => ?_) (fun _ _ h => h)
      exact ih (fun other member => subset other (List.mem_cons_of_mem _ member)) h

end Loops

/-- What the calls of the engine keep holds when `Acquire` returns. `I` is kept while the
session is open and no call has been refused, `J` is what remains of it after a stop, and
`K` what remains of it after the session has been ended. -/
theorem acquire_sustains {I J K : AcquireState δ ω η κ → Prop} {s : AcquireState δ ω η κ}
    (unanswered : ∀ summary, J { s with
      device := (C.device.query s.device).2
      summary := summary })
    (start : ∀ topology, (C.device.query s.device).1 = some topology →
      Sustains C topology.runs I J ∧ I (afterQuery C topology s))
    (failed : ∀ t, I t → J { t with device := (C.device.endSession t.device).2 })
    (ended : ∀ t changed, I t → K { t with
      device := (C.device.endSession t.device).2
      summary := { t.summary with topologyChanged := changed, completed := true } }) :
    WP (acquire C) (fun _ => K) (fun _ => J) s := by
  simp only [acquire, beginSummary, WP.bind_iff, WP.modify_iff, WP.modifyGet_iff]
  cases asked : (C.device.query s.device).1 with
  | none => exact unanswered {}
  | some topology =>
      obtain ⟨sustains, begun⟩ := start topology asked
      simp only [WP.bind_iff, require_wp, WP.modify_iff, WP.pure_iff, WP.get_iff]
      refine ⟨fun _ => ?_, fun _ => unanswered {}⟩
      have traversed := acquireRuns_sustains sustains topology.runs (fun _ member => member) begun
      refine traversed.mono (fun _ m h => ?_) (fun _ _ h => h)
      refine (hashZerosTo_keeps sustains.quiet _ m h).mono (fun _ u h => ?_)
        (fun _ u h => sustains.weaken u h)
      simp only [endSession, WP.bind_iff, record_wp, WP.modifyGet_iff]
      have recorded : I { u with calls := u.calls ++ [.endSession] } :=
        sustains.quiet u _ (.of_call rfl rfl rfl trivial) h
      cases (C.device.endSession u.device).1 with
      | none => exact failed _ recorded
      | some changed => exact ended _ changed recorded

/-- An invariant of the collaborators that every call of the engine keeps holds when
`Acquire` returns, true or false. `I` is kept while the session is open; `J` is what
remains of it when the query has failed or the session has been ended. -/
theorem acquire_maintains {I J : AcquireState δ ω η κ → Prop} {s : AcquireState δ ω η κ}
    (observes : Observes J) (weaken : ∀ t, I t → J t)
    (refused : J { s with device := (C.device.query s.device).2 })
    (start : ∀ topology, (C.device.query s.device).1 = some topology →
      Maintains C topology.runs I ∧ I (afterQuery C topology s))
    (ended : ∀ t, I t → J { t with device := (C.device.endSession t.device).2 }) :
    WP (acquire C) (fun _ => J) (fun _ => J) s := by
  refine acquire_sustains C (I := I) (fun summary => ?_) (fun topology asked => ?_) ended
    (fun t changed h => ?_)
  · refine observes _ _ ?_ refused
    exact .of_eq rfl rfl rfl
  · obtain ⟨maintains, begun⟩ := start topology asked
    have sustains := maintains.sustains
    exact ⟨{ sustains with
      weaken := weaken
      refused := fun run member valid u offset requested r replied copied h no =>
        weaken _ (sustains.refused run member valid u offset requested r replied copied h no) },
      begun⟩
  · refine observes _ _ ?_ (ended t h)
    exact .of_eq rfl rfl rfl

/-! ### Invariants of the writer -/

/-- `Sustains` for properties of the calls and the writer alone. -/
structure WriterSustains (runs : List MemoryRun) (I J : List Call → ω → Prop) : Prop where
  other : ∀ calls w call, (∀ offset data, call ≠ .writeAt offset data) → I calls w →
    I (calls ++ [call]) w
  weaken : ∀ calls w, I calls w → J calls w
  accepted : ∀ run ∈ runs, run.Valid → ∀ calls w offset requested r,
    Replied run offset requested r calls → r.copied ≠ 0 → I calls w →
    (C.writer.writeAt r.physicalAddress r.data w).1 = true →
    I (calls ++ [.writeAt r.physicalAddress r.data])
      (C.writer.writeAt r.physicalAddress r.data w).2
  refused : ∀ run ∈ runs, run.Valid → ∀ calls w offset requested r,
    Replied run offset requested r calls → r.copied ≠ 0 → I calls w →
    (C.writer.writeAt r.physicalAddress r.data w).1 = false →
    J (calls ++ [.writeAt r.physicalAddress r.data])
      (C.writer.writeAt r.physicalAddress r.data w).2

variable {C}

theorem WriterSustains.append {runs : List MemoryRun} {I J : List Call → ω → Prop}
    (sustains : WriterSustains C runs I J) {calls : List Call} {w : ω} (h : I calls w)
    (more : List Call) (quiet : ∀ call ∈ more, call.Quiet) : I (calls ++ more) w := by
  induction more generalizing calls with
  | nil => rwa [List.append_nil]
  | cons call more ih =>
      have first : I (calls ++ [call]) w := by
        refine sustains.other calls w call (fun offset data same => ?_) h
        have silent := quiet call List.mem_cons_self
        rw [same] at silent
        exact silent
      have rest := ih first fun other member => quiet other (List.mem_cons_of_mem _ member)
      rwa [List.append_assoc] at rest

/-- An invariant of the writer and the calls. The last call of a stopped run may be a refused
write, which leaves `J`. -/
theorem acquire_writes {I J : List Call → ω → Prop} {s : AcquireState δ ω η κ}
    (start : ∀ topology, (C.device.query s.device).1 = some topology →
      WriterSustains C topology.runs I J)
    (begun : I s.calls s.writer) (weaken : ∀ calls w, I calls w → J calls w) :
    WP (acquire C) (fun _ t => I t.calls t.writer) (fun _ t => J t.calls t.writer) s := by
  refine acquire_sustains C (I := fun t => I t.calls t.writer) (fun _ => weaken _ _ begun)
    (fun topology asked => ?_) (fun t h => weaken _ _ h) (fun _ _ h => h)
  have sustains := start topology asked
  refine ⟨⟨?_, fun t h => weaken _ _ h, ?_, ?_, ?_⟩, begun⟩
  · rintro u v ⟨-, writer, more, quiet, calls⟩ h
    rw [writer, calls]
    exact sustains.append h more quiet
  · intro run _ _ u requested _ h
    exact sustains.other _ _ _ (fun _ _ no => by cases no) h
  · intro run member valid u offset requested r replied copied h accepted
    exact sustains.accepted run member valid _ _ offset requested r replied copied h accepted
  · intro run member valid u offset requested r replied copied h no
    exact sustains.refused run member valid _ _ offset requested r replied copied h no

end PhylaRam
