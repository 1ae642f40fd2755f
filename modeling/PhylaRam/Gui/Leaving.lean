import PhylaRam.Gui.Runs

/-!
# When the window can be left

A worker whose last message is not accepted leaves the window working, and nothing that happens
afterwards changes this: the window can neither be closed nor be used for another operation. In
every other state the window can be brought to its end.
-/

namespace PhylaRam

open Transition

namespace Gui

variable {s t : Gui} {e : Event}

/-- The worker has done all it does, and its last message is nowhere. -/
def Lost (s : Gui) : Prop :=
  ∃ thread, s.worker = some thread ∧ thread.Over ∧ ¬s.ui.IsJoining ∧
    ∀ message ∈ s.queue, message.IsProgress

theorem Lost.present (lost : s.Lost) : s.worker ≠ none := by
  obtain ⟨thread, present, -⟩ := lost
  rw [present]
  exact Option.some_ne_none _

/-- Nothing brings the message back. -/
theorem Lost.step (h : s.Sound) (lost : s.Lost) (stepped : s.step e = some t) : t.Lost := by
  have present := lost.present
  have working : s.working = true := by rw [h.working, Option.isSome_iff_ne_none]; exact present
  obtain ⟨thread, found, isOver, pumps, reports⟩ := lost
  cases e with
  | input input =>
      rw [Gui.step] at stepped
      split at stepped
      · cases stepped
        cases input with
        | startWorker operation outputPath =>
            rw [handle, startWorker, if_pos working]
            exact ⟨thread, found, isOver, pumps, reports⟩
        | cancel =>
            rw [handle, pressCancel, if_pos working]
            exact ⟨thread, found, isOver, pumps, reports⟩
        | close =>
            rw [handle, close, if_pos working]
            exact ⟨thread, found, isOver, pumps, reports⟩
        | browse => exact ⟨thread, found, isOver, pumps, reports⟩
      · cases stepped
  | dispatch =>
      simp only [Gui.step, dispatch] at stepped
      split at stepped
      · split at stepped
        · cases stepped
        · next payload rest queued =>
            cases stepped
            have fewer : ∀ message ∈ rest, message.IsProgress := fun message member =>
              reports message (queued ▸ List.mem_cons_of_mem _ member)
            rw [handleProgress]
            split
            · exact ⟨thread, found, isOver, pumps, fewer⟩
            · exact ⟨thread, found, isOver, pumps, fewer⟩
        · next result rest queued =>
            exact (Message.not_isProgress_workerDone
              (reports _ (queued ▸ List.mem_cons_self))).elim
      · cases stepped
  | dismiss =>
      simp only [Gui.step, dismiss] at stepped
      split at stepped
      · split at stepped
        · cases stepped
        · cases stepped
          exact ⟨thread, found, isOver, pumps, reports⟩
        · cases stepped
          exact ⟨thread, found, isOver, pumps, reports⟩
      · cases stepped
  | leave =>
      rw [h.not_leave present] at stepped
      cases stepped
  | joined =>
      simp only [Gui.step, joined] at stepped
      split at stepped
      · next next joining _ => exact (pumps ⟨next, joining⟩).elim
      · cases stepped
  | enter | load | report | postProgress | complete | postDone | threadReturns =>
      obtain ⟨thread', _, queue, _, present', rfl, after⟩ := worker_of_step rfl stepped
      obtain rfl := Option.some.inj (found.symm.trans present')
      obtain ⟨isOver', rfl⟩ := after isOver
      exact ⟨_, rfl, isOver', pumps, reports⟩

theorem Lost.run {es : List Event} (h : s.Sound) (lost : s.Lost) (run : Run Gui.step s es t) :
    t.Lost := by
  have kept := run.invariant (I := fun s => s.Sound ∧ s.Lost) ⟨h, lost⟩
    fun _ _ _ kept stepped => ⟨kept.1.step stepped, kept.2.step kept.1 stepped⟩
  exact kept.2

/-! ### A way out -/

def CanLeave (s : Gui) : Prop := ∃ t, Reaches Gui.step s t ∧ t.ui = .left

theorem CanLeave.of_step (rest : t.CanLeave) (stepped : s.step e = some t) : s.CanLeave := by
  obtain ⟨u, reaches, left⟩ := rest
  exact ⟨u, (Reaches.next stepped).trans reaches, left⟩

/-- Once the window has been destroyed and the last box closed, the message loop ends. -/
theorem canLeave_destroyed (idle : s.worker = none) (pumping : s.ui = .pumping)
    (quit : s.quit = true) (empty : s.boxes = []) : s.CanLeave := by
  have stepped : s.step .leave = some { s with cancelled := true, ui := .left } := by
    rw [step, if_pos pumping, leave, if_pos ⟨quit, empty⟩, idle]
    rfl
  exact ⟨_, Reaches.next stepped, rfl⟩

/-- Without a worker the boxes are closed one by one, and then the window. -/
theorem canLeave_idle (h : s.Sound) (idle : s.worker = none) (pumping : s.ui = .pumping) :
    s.CanLeave := by
  generalize entered : s.boxes = boxes
  induction boxes generalizing s with
  | nil =>
      cases window : s.window with
      | false =>
          refine canLeave_destroyed idle pumping ?_ entered
          rw [h.quit, window]
          rfl
      | true =>
          have still : s.working = false := by
            rw [h.working, idle]
            rfl
          have closed : s.step (.input .close) = some s.destroyWindow := by
            rw [step, if_pos ⟨pumping, window⟩, handle, close, still, if_neg Bool.false_ne_true]
          exact (canLeave_destroyed (s := s.destroyWindow) idle pumping rfl entered).of_step closed
  | cons box rest ih =>
      have dismissed : ∃ t, s.step .dismiss = some t ∧ t.boxes = rest ∧ t.worker = s.worker ∧
          t.ui = s.ui := by
        rw [step, if_pos pumping, dismiss, entered]
        cases box with
        | showing result notice => exact ⟨_, rfl, rfl, rfl, rfl⟩
        | browsing | warning => exact ⟨_, rfl, rfl, rfl, rfl⟩
      obtain ⟨t, stepped, fewer, same, same'⟩ := dismissed
      exact (ih (h.step stepped) (same.trans idle) (same'.trans pumping) fewer).of_step stepped

/-- The join ends when the thread has returned, and its result is handled. -/
theorem canLeave_joining (h : s.Sound) {result : Nat} (joining : s.ui = .joining (.done result))
    (returned : s.worker = some .returned) : s.CanLeave := by
  have stepped : ∃ t, s.step .joined = some t ∧ t.worker = none ∧ t.ui = .pumping := by
    rw [step, joined, joining, returned]
    refine ⟨_, rfl, ?_⟩
    rw [workerDone]
    split
    · exact ⟨rfl, rfl⟩
    · split
      · exact ⟨rfl, rfl⟩
      · exact ⟨rfl, rfl⟩
  obtain ⟨t, stepped, idle, pumping⟩ := stepped
  exact (canLeave_idle (h.step stepped) idle pumping).of_step stepped

/-- The thread returns. -/
theorem canLeave_handling (h : s.Sound) {result : Nat} {thread : Thread}
    (joining : s.ui = .joining (.done result)) (present : s.worker = some thread)
    (isOver : thread.Over) : s.CanLeave := by
  rcases isOver with rfl | rfl
  · have stepped : s.step .threadReturns = some { s with worker := some .returned } := by
      rw [step, if_pos present]
    exact (canLeave_joining (h.step stepped) joining rfl).of_step stepped
  · exact canLeave_joining h joining present

/-- The messages are taken one after the other, up to the last one. -/
theorem canLeave_posted (h : s.Sound) {thread : Thread} {reports : List Message} {result : Nat}
    (pumping : s.ui = .pumping) (present : s.worker = some thread) (isOver : thread.Over)
    (queued : s.queue = reports ++ [.workerDone result])
    (each : ∀ message ∈ reports, message.IsProgress) : s.CanLeave := by
  induction reports generalizing s with
  | nil =>
      have stepped : s.step .dispatch =
          some { s with queue := [], ui := .joining (.done result) } := by
        rw [step, if_pos pumping, dispatch, queued]
        simp only [List.nil_append, handleWorkerDone, present]
        rfl
      exact (canLeave_handling (h.step stepped) rfl present isOver).of_step stepped
  | cons message reports ih =>
      obtain ⟨payload, rfl⟩ := each message List.mem_cons_self
      have stepped : ∃ t, s.step .dispatch = some t ∧ t.ui = s.ui ∧ t.worker = s.worker ∧
          t.queue = reports ++ [.workerDone result] := by
        rw [step, if_pos pumping, dispatch, queued]
        refine ⟨_, rfl, ?_⟩
        rw [handleProgress]
        split
        · exact ⟨rfl, rfl, rfl⟩
        · exact ⟨rfl, rfl, rfl⟩
      obtain ⟨t, stepped, same, same', rest⟩ := stepped
      exact (ih (h.step stepped) (same.trans pumping) (same'.trans present) rest fun other member =>
        each other (List.mem_cons_of_mem _ member)).of_step stepped

/-- A thread that reports can be heard, as its window is there. -/
theorem canLeave_reporting (h : s.Sound) {result : Nat} (pumping : s.ui = .pumping)
    (present : s.worker = some (.reporting result)) : s.CanLeave := by
  have reports := (h.mailbox_running present
    (Thread.not_over Thread.noConfusion Thread.noConfusion)).2
  have stepped : s.step (.postDone true) = some { s with
      queue := s.queue ++ [.workerDone result]
      worker := some .returning } := by
    rw [step, postDone, present]
    simp [postMessage, h.window_true present]
  exact (canLeave_posted (h.step stepped) pumping rfl (.inl rfl) rfl reports).of_step stepped

/-- An operation may end at any time. -/
theorem canLeave_working (h : s.Sound) {operation : WorkerOperation} {result : Nat}
    (pumping : s.ui = .pumping) (present : s.worker = some (.working operation result)) :
    s.CanLeave := by
  have stepped : s.step (.complete { operation }) = some { s with
      objects := s.objects.write result (.result { operation })
      worker := some (.reporting result) } := by
    rw [step, complete, present]
    exact if_pos rfl
  exact (canLeave_reporting (h.step stepped) pumping rfl).of_step stepped

theorem canLeave_running (h : s.Sound) {thread : Thread} (pumping : s.ui = .pumping)
    (present : s.worker = some thread) (runs : ¬thread.Over) : s.CanLeave := by
  cases thread with
  | starting operation =>
      have stepped : s.step .enter = some { s with
          objects := s.objects.allocate (.result { operation })
          worker := some (.working operation s.objects.next) } := by
        rw [step, enter, present]
      exact (canLeave_working (h.step stepped) pumping rfl).of_step stepped
  | working operation result => exact canLeave_working h pumping present
  | posting result payload =>
      have stepped : s.step (.postProgress true) = some { s with
          queue := s.queue ++ [.progress payload]
          worker := some (.working .capture result) } := by
        rw [step, postProgress, present]
        simp [postMessage, h.window_true present]
      exact (canLeave_working (h.step stepped) pumping rfl).of_step stepped
  | reporting result => exact canLeave_reporting h pumping present
  | returning => exact (runs (.inl rfl)).elim
  | returned => exact (runs (.inr rfl)).elim

theorem Ui.pumping_of {ui : Ui} (pumps : ¬ui.IsJoining) (stays : ui ≠ .left) : ui = .pumping := by
  cases ui with
  | pumping => rfl
  | joining next => exact (pumps ⟨next, rfl⟩).elim
  | left => exact (stays rfl).elim

theorem canLeave_of_not_lost (h : s.Sound) (kept : ¬s.Lost) : s.CanLeave := by
  have mailbox := h.mailbox
  cases worker : s.worker with
  | none =>
      rw [worker] at mailbox
      cases ui : s.ui with
      | pumping => exact canLeave_idle h worker ui
      | left => exact ⟨s, .refl s, ui⟩
      | joining next =>
          rw [ui] at mailbox
          obtain ⟨_, _, _, _, present, _⟩ := mailbox.of_joining
          cases present
  | some thread =>
      have stays := h.not_left worker
      by_cases joins : s.ui.IsJoining
      · obtain ⟨next, joining⟩ := joins
        rw [joining, worker] at mailbox
        obtain ⟨_, result, thread', rfl, present, isOver⟩ := mailbox.of_joining
        obtain rfl := Option.some.inj present
        exact canLeave_handling h joining worker isOver
      · have pumping := Ui.pumping_of joins stays
        rw [worker] at mailbox
        generalize queued : s.queue = queue at mailbox
        generalize same : s.ui = ui at mailbox
        cases mailbox with
        | running _ runs => exact canLeave_running h pumping worker runs
        | posted _ isOver each => exact canLeave_posted h pumping worker isOver queued each
        | lost pumps isOver reports =>
            exact (kept ⟨thread, worker, isOver, joins, queued ▸ reports⟩).elim
        | handling isOver => exact canLeave_handling h same worker isOver

/-- The window can be brought to its end exactly as long as the last message of its worker has
not been lost. -/
theorem canLeave_iff_not_lost {es : List Event} (run : Run step {} es s) :
    s.CanLeave ↔ ¬s.Lost := by
  have h := sound_of_run run
  constructor
  · rintro ⟨t, ⟨es, run⟩, left⟩ lost
    have still := lost.run h run
    obtain ⟨thread, present⟩ := Option.ne_none_iff_exists'.mp still.present
    exact (run.invariant h fun _ _ _ kept stepped => kept.step stepped).not_left present left
  · exact canLeave_of_not_lost h

/-- An inspection whose last message is refused. -/
theorem canLeave_iff_not_lost_refused : ∃ s, Run step {} [.input (.startWorker .dryRun []), .enter,
      .complete { operation := .dryRun }, .postDone false, .threadReturns] s ∧ ¬s.CanLeave := by
  have run : Run step {} [.input (.startWorker .dryRun []), .enter,
      .complete { operation := .dryRun }, .postDone false, .threadReturns] _ := run_iff.mpr rfl
  refine ⟨_, run, fun can => (canLeave_iff_not_lost run).mp can ⟨_, rfl, .inr rfl, ?_, ?_⟩⟩
  · exact Ui.not_joining_of_pumping rfl
  · intro message member
    cases member

end Gui

end PhylaRam
