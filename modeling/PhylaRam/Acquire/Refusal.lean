import PhylaRam.Acquire.Trace
import Mathlib.Logic.Function.Iterate

/-!
# The call behind a stop

`Acquire` returns false right after the call of a collaborator that fails, unless a condition of its
own stops it. `Refused` names that call and the state in which it was made: up to there the
collaborators have received the recorded calls and nothing else.
-/

namespace PhylaRam

open Program

variable {δ ω η κ : Type} (C : Collaborators δ ω η κ)

/-- The device after a call, whatever it has answered. -/
def Call.onDevice (device : δ) : Call → δ
  | .read runIndex offset length _ => (C.device.read runIndex offset length device).2
  | .endSession => (C.device.endSession device).2
  | .writeAt .. | .update _ | .updateZeros _ | .addUnreadable .. => device

def Call.onWriter (writer : ω) : Call → ω
  | .writeAt offset data => (C.writer.writeAt offset data writer).2
  | .read .. | .update _ | .updateZeros _ | .addUnreadable .. | .endSession => writer

def Call.onHasher (hasher : η) : Call → η
  | .update data => (C.hasher.update data hasher).2
  | .updateZeros length => (C.hasher.updateZeros length hasher).2
  | .read .. | .writeAt .. | .addUnreadable .. | .endSession => hasher

/-- The environment after so many loads of the flag. -/
def afterLoads (loads : Nat) (k : κ) : κ := (fun k => (C.environment.cancelled k).2)^[loads] k

/-- From `s` to `t` the collaborators have received the calls recorded in between, and the flag was
loaded so many times. -/
structure Received (calls : List Call) (loads : Nat) (s t : AcquireState δ ω η κ) : Prop where
  recorded : t.calls = s.calls ++ calls
  device : t.device = calls.foldl (Call.onDevice C) s.device
  writer : t.writer = calls.foldl (Call.onWriter C) s.writer
  hasher : t.hasher = calls.foldl (Call.onHasher C) s.hasher
  environment : t.environment = afterLoads C loads s.environment

def Exchanged (s t : AcquireState δ ω η κ) : Prop := ∃ calls loads, Received C calls loads s t

/-- The last call was made in `m` and refused, and `t` is the state after it. A reply is refused for
the run it was asked for. No call is behind the conditions of the engine itself. -/
def RefusedIn (runs : List MemoryRun) (m : AcquireState δ ω η κ) (cause : StopCause)
    (t : AcquireState δ ω η κ) : Prop :=
  match cause with
  | .cancelled => C.environment.cancelled m.environment = (true, t.environment)
  | .device => ∃ runIndex offset length,
      C.device.read runIndex offset length m.device = (none, t.device) ∧
        t.calls = m.calls ++ [.read runIndex offset length none]
  | .reply => ∃ run ∈ runs, ∃ offset length r,
      C.device.read run.driverIndex offset length m.device = (some r, t.device) ∧
        t.calls = m.calls ++ [.read run.driverIndex offset length (some r)] ∧
        validateReadResult r (run.base + offset) length = false
  | .writer => ∃ offset data, C.writer.writeAt offset data m.writer = (false, t.writer) ∧
      t.calls = m.calls ++ [.writeAt offset data]
  | .hasher =>
      (∃ data, C.hasher.update data m.hasher = (false, t.hasher) ∧
        t.calls = m.calls ++ [.update data]) ∨
      ∃ length, C.hasher.updateZeros length m.hasher = (false, t.hasher) ∧
        t.calls = m.calls ++ [.updateZeros length]
  | .endSession => C.device.endSession m.device = (none, t.device) ∧
      t.calls = m.calls ++ [.endSession]
  | .query | .guard => False

/-- The cause of a stop is a call that a collaborator refused in a state reached from `s`. -/
def Refused (runs : List MemoryRun) (s : AcquireState δ ω η κ) (cause : StopCause)
    (t : AcquireState δ ω η κ) : Prop :=
  ∃ m, Exchanged C s m ∧ RefusedIn C runs m cause t

/-- A collaborator can be the reason, other than for the topology that it reports. -/
def StopCause.outer : StopCause → Bool
  | .query | .guard => false
  | .cancelled | .device | .reply | .writer | .hasher | .endSession => true

variable {C} {runs : List MemoryRun} {run : MemoryRun} {s m t u : AcquireState δ ω η κ}

namespace Exchanged

theorem of_eq (device : t.device = s.device) (writer : t.writer = s.writer)
    (hasher : t.hasher = s.hasher) (environment : t.environment = s.environment)
    (calls : t.calls = s.calls) : Exchanged C s t :=
  ⟨[], 0, calls.trans (List.append_nil _).symm, device, writer, hasher, environment⟩

theorem refl : Exchanged C s s := of_eq rfl rfl rfl rfl rfl

theorem of_call {call : Call} (calls : t.calls = s.calls ++ [call])
    (device : t.device = call.onDevice C s.device) (writer : t.writer = call.onWriter C s.writer)
    (hasher : t.hasher = call.onHasher C s.hasher) (environment : t.environment = s.environment) :
    Exchanged C s t :=
  ⟨[call], 0, calls, device, writer, hasher, environment⟩

theorem of_loads (loads : Nat) :
    Exchanged C s { s with environment := afterLoads C loads s.environment } :=
  ⟨[], loads, (List.append_nil _).symm, rfl, rfl, rfl, rfl⟩

theorem trans (h : Exchanged C s t) (h' : Exchanged C t u) : Exchanged C s u := by
  obtain ⟨calls, loads, first⟩ := h
  obtain ⟨calls', loads', later⟩ := h'
  refine ⟨calls ++ calls', loads' + loads, ?_, ?_, ?_, ?_, ?_⟩
  · rw [later.recorded, first.recorded, List.append_assoc]
  · rw [later.device, first.device, List.foldl_append]
  · rw [later.writer, first.writer, List.foldl_append]
  · rw [later.hasher, first.hasher, List.foldl_append]
  · rw [later.environment, first.environment, afterLoads, afterLoads, afterLoads,
      Function.iterate_add_apply]

theorem refused {cause : StopCause} (h : Exchanged C s t) (h' : Refused C runs t cause u) :
    Refused C runs s cause u := by
  obtain ⟨m, reached, refused⟩ := h'
  exact ⟨m, h.trans reached, refused⟩

end Exchanged

variable (C runs)

/-- Whatever the state it starts in, the program only makes recorded calls, and where it stops for
an outer reason it has just been refused one. -/
def Blames {α : Type} (x : AcquireM δ ω η κ α) : Prop :=
  ∀ s, WP x (fun _ t => Exchanged C s t) (fun cause t => cause.outer = true → Refused C runs s cause t) s

variable {C runs}

namespace Blames

variable {α β : Type} {x y : AcquireM δ ω η κ α}

theorem pure (a : α) : Blames C runs (pure a : AcquireM δ ω η κ α) := fun _ => Exchanged.refl

theorem get : Blames C runs (get : AcquireM δ ω η κ (AcquireState δ ω η κ)) := fun _ => Exchanged.refl

theorem modify {f : AcquireState δ ω η κ → AcquireState δ ω η κ} (step : ∀ s, Exchanged C s (f s)) :
    Blames C runs (modify f : AcquireM δ ω η κ PUnit) := step

/-- A condition of the engine itself. -/
theorem throw {cause : StopCause} (inner : cause.outer = false) :
    Blames C runs (throw cause : AcquireM δ ω η κ α) := by
  intro s outer
  cases inner.symm.trans outer

theorem bind {f : α → AcquireM δ ω η κ β} (first : Blames C runs x)
    (next : ∀ a, Blames C runs (f a)) : Blames C runs (x >>= f) := by
  intro s
  rw [WP.bind_iff]
  refine (first s).mono (fun a t reached => ?_) fun _ _ h => h
  exact (next a t).mono (fun _ _ later => reached.trans later) fun _ _ refused outer =>
    reached.refused (refused outer)

theorem ite {c : Prop} [Decidable c] (yes : Blames C runs x) (no : Blames C runs y) :
    Blames C runs (if c then x else y) := by
  split
  · exact yes
  · exact no

theorem whileLoop {condition : AcquireState δ ω η κ → Bool} {body : AcquireM δ ω η κ Flow}
    {variant : AcquireState δ ω η κ → Nat}
    {decreases : ∀ s t, condition s = true → body s = .ok .again t → variant t < variant s}
    (once : Blames C runs body) :
    Blames C runs (whileLoop condition body variant decreases) := by
  intro s
  refine whileLoop_wp (Exchanged C s) (Exchanged C s) .refl ?_ fun _ h _ => h
  intro t reached _
  refine (once t).mono (fun flow u later => ?_) fun _ _ refused outer =>
    reached.refused (refused outer)
  cases flow with
  | again | leave => exact reached.trans later

end Blames

/-! ### Commands -/

theorem require_blames {condition : Bool} {cause : StopCause} (inner : cause.outer = false) :
    Blames C runs (require condition cause) := .ite (.pure _) (.throw inner)

theorem checkCancelled_blames : Blames C runs (checkCancelled C) := fun s =>
  (checkCancelled_wp C).mpr ⟨fun _ => .of_loads 1, fun set _ => ⟨s, .refl, Prod.ext set rfl⟩⟩

theorem readRun_blames (member : run ∈ runs) {requested : UInt32} :
    Blames C runs (readRun C run requested) := by
  intro s
  have received : Exchanged C s (afterRead C run requested s) := .of_call rfl rfl rfl rfl rfl
  have last {reply : Option ReadResult}
      (same : (C.device.read run.driverIndex s.offsetWithinRun requested s.device).1 = reply) :
      (afterRead C run requested s).calls =
        s.calls ++ [.read run.driverIndex s.offsetWithinRun requested reply] := by
    rw [afterRead, same]
  rw [readRun_wp]
  refine ⟨fun r reply => ⟨fun _ => received, fun invalid _ => ?_⟩, fun failed _ => ?_⟩
  · rw [← validateReadResult_iff, Bool.not_eq_true] at invalid
    exact ⟨s, .refl, run, member, s.offsetWithinRun, _, r, Prod.ext reply rfl, last reply, invalid⟩
  · exact ⟨s, .refl, _, _, _, Prod.ext failed rfl, last failed⟩

theorem updateZeros_blames (length : UInt64) : Blames C runs (updateZeros C length) := by
  intro s
  simp only [updateZeros, WP.bind_iff, record_wp, WP.modifyGet_iff, require_wp, Bool.not_eq_true]
  exact ⟨fun _ => .of_call rfl rfl rfl rfl rfl, fun refused _ =>
    ⟨s, .refl, .inr ⟨length, Prod.ext refused rfl, rfl⟩⟩⟩

theorem update_blames (data : List Byte) : Blames C runs (update C data) := by
  intro s
  simp only [update, WP.bind_iff, record_wp, WP.modifyGet_iff, require_wp, Bool.not_eq_true]
  exact ⟨fun _ => .of_call rfl rfl rfl rfl rfl, fun refused _ =>
    ⟨s, .refl, .inl ⟨data, Prod.ext refused rfl, rfl⟩⟩⟩

theorem writeAt_blames (offset : UInt64) (data : List Byte) :
    Blames C runs (writeAt C offset data) := by
  intro s
  simp only [writeAt, WP.bind_iff, record_wp, WP.modifyGet_iff, require_wp, Bool.not_eq_true]
  exact ⟨fun _ => .of_call rfl rfl rfl rfl rfl, fun refused _ =>
    ⟨s, .refl, offset, data, Prod.ext refused rfl, rfl⟩⟩

theorem endSession_blames : Blames C runs (endSession C) := by
  intro s
  simp only [endSession, WP.bind_iff, record_wp, WP.modifyGet_iff]
  cases answer : (C.device.endSession s.device).1 with
  | none =>
      intro _
      exact ⟨s, .refl, Prod.ext answer rfl, rfl⟩
  | some changed => exact .of_call rfl rfl rfl rfl rfl

theorem hashZerosTo_blames (next : UInt64) : Blames C runs (hashZerosTo C next) := by
  have moved : Blames C runs (modify fun s => { s with hashPosition := next } :
      AcquireM δ ω η κ PUnit) := .modify fun _ => .of_eq rfl rfl rfl rfl rfl
  refine .bind .get fun _ => .bind (require_blames rfl) fun _ => ?_
  exact .ite (.bind (updateZeros_blames _) fun _ => moved) moved

theorem advance_blames {counter : AcquireState δ ω η κ → UInt64}
    {store : UInt64 → AcquireState δ ω η κ → AcquireState δ ω η κ} {increment : UInt64}
    (local' : ∀ v s, Exchanged C s (store v s)) : Blames C runs (advance counter store increment) := by
  refine .bind .get fun s => ?_
  cases checkedAdd (counter s) increment with
  | none => exact .throw rfl
  | some value => exact .modify (local' value)

/-- The flag is loaded until it is set, and at most once more than there are intervals to wait. -/
theorem pollCancelled_loads (n : Nat) (k : κ) :
    (∃ loads, (pollCancelled C.environment n k).2 = afterLoads C loads k) ∧
      ((pollCancelled C.environment n k).1 = false → ∃ loads,
        C.environment.cancelled (afterLoads C loads k) =
          (true, (pollCancelled C.environment n k).2)) := by
  induction n generalizing k with
  | zero =>
      refine ⟨⟨1, rfl⟩, fun late => ?_⟩
      have set : (C.environment.cancelled k).1 = true := by simpa [pollCancelled] using late
      exact ⟨0, Prod.ext set rfl⟩
  | succ n ih =>
      have unfolded : pollCancelled C.environment (n + 1) k =
          if (C.environment.cancelled k).1 = true then (false, (C.environment.cancelled k).2)
          else pollCancelled C.environment n (C.environment.cancelled k).2 := rfl
      rw [unfolded]
      split
      · next set => exact ⟨⟨1, rfl⟩, fun _ => ⟨0, Prod.ext set rfl⟩⟩
      · obtain ⟨⟨loads, same⟩, refused⟩ := ih (C.environment.cancelled k).2
        refine ⟨⟨loads + 1, same⟩, fun late => ?_⟩
        obtain ⟨loads', set⟩ := refused late
        exact ⟨loads' + 1, set⟩

theorem pace_blames : Blames C runs (pace C) := by
  intro s
  simp only [pace, WP.bind_iff, WP.modifyGet_iff, require_wp, Bool.not_eq_true]
  rw [paceTransfer]
  split
  · exact ⟨fun _ => .refl, fun late => by cases late⟩
  · obtain ⟨⟨loads, same⟩, refused⟩ := pollCancelled_loads (C := C)
      (C.environment.waits s.transferredBytes C.config.rateLimitMBps s.environment) s.environment
    refine ⟨fun _ => ?_, fun late _ => ?_⟩
    · rw [same]
      exact .of_loads loads
    · obtain ⟨loads', set⟩ := refused late
      exact ⟨_, .of_loads loads', set⟩

theorem keepBytes_blames (r : ReadResult) : Blames C runs (keepBytes C r) :=
  .bind (hashZerosTo_blames _) fun _ => .bind (writeAt_blames _ _) fun _ =>
    .bind (update_blames _) fun _ =>
    .bind (advance_blames fun _ _ => .of_eq rfl rfl rfl rfl rfl) fun _ =>
    .bind (advance_blames fun _ _ => .of_eq rfl rfl rfl rfl rfl) fun _ =>
    .bind (advance_blames fun _ _ => .of_eq rfl rfl rfl rfl rfl) fun _ =>
    .bind (advance_blames fun _ _ => .of_eq rfl rfl rfl rfl rfl) fun _ =>
    .bind (advance_blames fun _ _ => .of_eq rfl rfl rfl rfl rfl) fun _ => pace_blames

theorem skipUnreadable_blames (start length : UInt64) (status : Int32) :
    Blames C runs (skipUnreadable start length status) := by
  have recorded : Blames C runs (record (.addUnreadable start length status)) :=
    .modify fun _ => .of_call rfl rfl rfl rfl rfl
  refine .bind (.bind recorded fun _ => .bind .get fun s => ?_) fun _ =>
    .bind (advance_blames fun _ _ => .of_eq rfl rfl rfl rfl rfl) fun _ =>
    advance_blames fun _ _ => .of_eq rfl rfl rfl rfl rfl
  cases addUnreadable s.summary start length status with
  | none => exact .throw rfl
  | some summary => exact .modify fun _ => .of_eq rfl rfl rfl rfl rfl

/-! ### Loops -/

theorem keepOrSkip_blames (physical : UInt64) (requested : UInt32) (r : ReadResult) :
    Blames C runs (keepOrSkip C physical requested r) :=
  .ite (.bind (keepBytes_blames r) fun _ => .pure _)
    (.bind (skipUnreadable_blames _ _ _) fun _ => .pure _)

theorem pageBody_blames (member : run ∈ runs) (chunkEnd : UInt64) :
    Blames C runs (pageBody C run chunkEnd) :=
  .bind checkCancelled_blames fun _ => .bind .get fun _ => .bind (readRun_blames member)
    fun r => keepOrSkip_blames _ _ r

theorem chunkBody_blames (member : run ∈ runs) : Blames C runs (chunkBody C run) := by
  refine .bind checkCancelled_blames fun _ => .bind .get fun s =>
    .bind (readRun_blames member) fun r => .bind (.ite (keepBytes_blames r) (.pure _)) fun _ => ?_
  refine .ite (.bind .get fun s => .bind (require_blames rfl) fun _ => ?_) (.pure _)
  exact .whileLoop (pageBody_blames member _)

theorem acquireRuns_blames {rest : List MemoryRun} (members : ∀ run ∈ rest, run ∈ runs) :
    Blames C runs (acquireRuns C rest) := by
  induction rest with
  | nil => exact .pure _
  | cons run rest ih =>
      have loop : Blames C runs (runLoop C run) :=
        .whileLoop (.bind (chunkBody_blames (members run List.mem_cons_self)) fun _ => .pure _)
      refine .bind (.bind (require_blames rfl) fun _ => .bind ?_ fun _ => loop) fun _ =>
        ih fun run member => members run (List.mem_cons_of_mem _ member)
      exact .modify fun _ => .of_eq rfl rfl rfl rfl rfl

/-- Where `Acquire` stops over a topology for an outer reason, a collaborator has refused the last
call. -/
theorem acquire_blames {topology : Topology} (asked : (C.device.query s.device).1 = some topology) :
    WP (acquire C) (fun _ _ => True) (fun cause t => cause.outer = true →
      Refused C topology.runs (afterQuery C topology s) cause t) s := by
  have rest : Blames C topology.runs (do
      acquireRuns C topology.runs
      hashZerosTo C (← MonadState.get).summary.logicalSize
      endSession C) :=
    .bind (acquireRuns_blames fun _ member => member) fun _ => .bind .get fun _ =>
      .bind (hashZerosTo_blames _) fun _ => endSession_blames
  simp only [acquire, beginSummary, WP.bind_iff, WP.modify_iff, WP.modifyGet_iff, asked,
    require_wp, WP.pure_iff]
  refine ⟨fun _ => ?_, fun _ outer => by cases outer⟩
  have later := (rest (afterQuery C topology s)).mono (fun _ _ _ => trivial) fun _ _ h => h
  simp only [WP.bind_iff] at later
  exact later

end PhylaRam
