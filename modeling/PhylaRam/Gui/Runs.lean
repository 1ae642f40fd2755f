import PhylaRam.Gui.Protocol

/-!
# What holds of every run of the window

The results of the invariant: who waits for whom, what is released and when, which requests a
worker hears of, and when the window can be brought to its end.
-/

namespace PhylaRam

open Transition

namespace Gui

variable {A : WorkerResult → Prop} {s t u : Gui} {e : Event} {es : List Event}

theorem invariant_of_run (run : Run step {} es s)
    (truthful : ∀ outcome, .complete outcome ∈ es → A outcome) : Invariant A s :=
  run.invariant_of .initial (fun _ member => member) fun _ _ _ member kept stepped =>
    kept.step (fun outcome same => truthful outcome (same ▸ member)) stepped

/-- The invariant with nothing said about the outcomes. -/
abbrev Sound (s : Gui) : Prop := Invariant (fun _ => True) s

theorem sound_of_run (run : Run step {} es s) : s.Sound :=
  invariant_of_run run fun _ _ => trivial

theorem Sound.step (h : s.Sound) (stepped : s.step e = some t) : t.Sound :=
  Invariant.step h (fun _ _ => trivial) stepped

/-! ### One worker at a time -/

/-- How the two threads stand to each other. -/
structure Coordinated (s : Gui) : Prop where
  /-- There is a worker exactly while the window works. -/
  single : s.working = true ↔ s.worker ≠ none
  /-- A join only waits for the thread to return, and never before an exit. -/
  joins : ∀ next, s.ui = .joining next → ∃ result, next = .done result ∧
    (s.worker = some .returning ∨ s.worker = some .returned)
  /-- The window is not destroyed before its worker has gone. -/
  outlived : s.window = false → s.worker = none
  /-- Without a worker there is no message of a worker. -/
  current : s.worker = none → s.queue = []
  /-- The user can start whenever there is no worker, and can cancel whenever there is one that
  has not been cancelled. -/
  controls : s.inputsEnabled = s.worker.isNone ∧
    s.cancelEnabled = (s.worker.isSome && !s.cancelled)
  /-- After the user has closed a working window, no other worker is started, and the window goes
  with its worker. -/
  closes : s.closing = true → s.window = false ∨ s.worker ≠ none ∧ s.cancelled = true

theorem Invariant.coordinated (h : Invariant A s) : Coordinated s where
  single := by rw [h.working, Option.isSome_iff_ne_none]
  joins next joining := by
    have mailbox := h.mailbox
    rw [joining] at mailbox
    obtain ⟨_, result, thread, same, present, isOver⟩ := mailbox.of_joining
    refine ⟨result, same, ?_⟩
    rcases isOver with rfl | rfl
    · exact .inl present
    · exact .inr present
  outlived := h.destroyed
  current := h.queue_nil
  controls := by
    rw [h.inputs, h.button, h.working]
    exact ⟨Option.not_isSome .., rfl⟩
  closes closing := by
    cases window : s.window with
    | false => exact .inl rfl
    | true =>
        obtain ⟨working, cancelled⟩ := h.closing closing window
        rw [h.working, Option.isSome_iff_ne_none] at working
        exact .inr ⟨working, cancelled⟩

/-- Whatever the two threads do, and in whatever order, they stay coordinated. -/
theorem coordinated_of_run (run : Run step {} es s) : Coordinated s :=
  (sound_of_run run).coordinated

/-- The user closes the window during a capture, and the thread of the interface waits for the
worker to return. -/
theorem coordinated_closing : ∃ s, Run step {} [.input (.startWorker .capture (wide "a.raw")),
      .enter, .report {}, .input .close, .postProgress true, .complete {}, .postDone true, .dispatch,
      .dispatch] s ∧ s.ui = .joining (.done 0) ∧ Coordinated s := by
  have run : Run step {} [.input (.startWorker .capture (wide "a.raw")), .enter, .report {},
      .input .close, .postProgress true, .complete {}, .postDone true, .dispatch, .dispatch] _ :=
    run_iff.mpr rfl
  exact ⟨_, run, rfl, coordinated_of_run run⟩

/-! ### Objects -/

/-- Nobody owns anything when the window has been left. -/
theorem Invariant.claims_nil (h : Invariant A s) (left : s.ui = .left) : s.claims A = [] := by
  obtain ⟨window, boxes⟩ := h.left left
  have idle := h.destroyed window
  rw [claims, left, idle, h.queue_nil idle, boxes]
  rfl

/-- Every object that a thread creates is handed on and released once, it is not used after that,
no pointer is taken for one to another type, and when the window has been left nothing remains. -/
theorem objects_of_run (run : Run step {} es s) :
    Pool.Safe s.objects.log ∧ (∀ block, s.objects.log.count (.free block) ≤ 1) ∧
      s.misread = false ∧
      (s.ui = .left → ∀ block, .allocate block ∈ s.objects.log → .free block ∈ s.objects.log) := by
  have h := sound_of_run run
  have safe := h.owned.sound.safe
  refine ⟨safe, fun block => safe.count_free_le_one, h.typed, fun left block allocated => ?_⟩
  have owned := h.owned
  rw [h.claims_nil left] at owned
  exact owned.sound.all_freed allocated

/-- A progress message that is refused, one that is handled, and a result that is thrown away with
the window. -/
theorem objects_after_close : ∃ s, Run step {} [.input (.startWorker .capture (wide "a.raw")),
      .enter, .report {}, .postProgress false, .report {}, .postProgress true, .input .close, .complete {},
      .postDone true, .dispatch, .dispatch, .threadReturns, .joined, .leave] s ∧ s.ui = .left ∧
      ∀ block < 3, .free block ∈ s.objects.log := by
  have run : Run step {} [.input (.startWorker .capture (wide "a.raw")), .enter, .report {},
      .postProgress false, .report {}, .postProgress true, .input .close, .complete {},
      .postDone true, .dispatch, .dispatch, .threadReturns, .joined, .leave] _ := run_iff.mpr rfl
  refine ⟨_, run, rfl, fun block below => (objects_of_run run).2.2.2 rfl block ?_⟩
  interval_cases block <;> decide

/-- A box shows a result that was completed, and what was known of its outcome is still true. -/
theorem Invariant.shown (h : Invariant A s) {result : Nat} {notice : Notice}
    (shown : .showing result notice ∈ s.boxes) :
    ∃ outcome, A outcome ∧ notice = noticeOf outcome := by
  have among : ownsResult (fun r => A r ∧ notice = noticeOf r) result ∈ s.claims A := by
    refine List.mem_append_right _ (List.mem_append_right _ (List.mem_append_right _ ?_))
    exact List.mem_flatMap.mpr ⟨_, shown, List.mem_cons_self⟩
  obtain ⟨_, _, outcome, _, completed, same⟩ := h.owned.known _ among
  exact ⟨outcome, completed, same⟩

/-- What a box shows is the outcome of an operation of this run. -/
theorem outcome_of_shown (run : Run step {} es s) {result : Nat} {notice : Notice}
    (shown : .showing result notice ∈ s.boxes) :
    ∃ outcome, .complete outcome ∈ es ∧ notice = noticeOf outcome := by
  have h : Invariant (fun outcome => .complete outcome ∈ es) s :=
    invariant_of_run run fun _ member => member
  exact h.shown shown

/-- An inspection from its start to its notice. -/
def inspectionRun : List Event :=
  [.input (.startWorker .dryRun []), .enter, .complete { operation := .dryRun }, .postDone true,
    .dispatch, .threadReturns, .joined]

theorem outcome_of_shown_inspection : ∃ s notice, Run step {} inspectionRun s ∧
    .showing 0 notice ∈ s.boxes ∧
    ∃ outcome, .complete outcome ∈ inspectionRun ∧ notice = noticeOf outcome := by
  have run : Run step {} inspectionRun _ := run_iff.mpr rfl
  exact ⟨_, _, run, List.mem_cons_self, outcome_of_shown run List.mem_cons_self⟩

/-! ### Steps of the worker -/

def Event.ofWorker : Event → Bool
  | .input _ | .dispatch | .dismiss | .leave | .joined => false
  | .enter | .load _ | .report _ | .postProgress _ | .complete _ | .postDone _ | .threadReturns =>
      true

/-- A step of the worker concerns the thread, the queue and the objects, and no queue after the
last message. -/
theorem worker_of_step (own : e.ofWorker = true) (stepped : s.step e = some t) :
    ∃ thread thread' queue objects, s.worker = some thread ∧
      t = { s with worker := some thread', queue, objects } ∧
      (thread.Over → thread'.Over ∧ queue = s.queue) := by
  have runs {P : Prop} {thread : Thread} (first : thread ≠ .returning)
      (second : thread ≠ .returned) : thread.Over → P :=
    fun isOver => (Thread.not_over first second isOver).elim
  cases e with
  | input | dispatch | dismiss | leave | joined => cases own
  | enter =>
      simp only [step, enter] at stepped
      split at stepped
      · next operation present =>
          cases stepped
          exact ⟨_, _, _, _, present, rfl, runs Thread.noConfusion Thread.noConfusion⟩
      · cases stepped
  | load value =>
      simp only [step] at stepped
      split at stepped
      · next result present =>
          split at stepped
          · cases stepped
            refine ⟨_, .working .capture result, s.queue, s.objects, present, ?_,
              runs Thread.noConfusion Thread.noConfusion⟩
            rw [← present]
          · cases stepped
      · cases stepped
  | report payload =>
      simp only [step, report] at stepped
      split at stepped
      · next result present =>
          cases stepped
          exact ⟨_, _, _, _, present, rfl, runs Thread.noConfusion Thread.noConfusion⟩
      · cases stepped
  | postProgress accepted =>
      simp only [step, postProgress] at stepped
      split at stepped
      · next result payload present =>
          rw [Option.map_eq_some_iff] at stepped
          obtain ⟨⟨posted, u⟩, tried, rfl⟩ := stepped
          obtain ⟨-, ⟨-, rfl⟩ | ⟨-, rfl⟩⟩ := postMessage_cases tried
          · exact ⟨_, _, _, _, present, rfl, runs Thread.noConfusion Thread.noConfusion⟩
          · exact ⟨_, _, _, _, present, rfl, runs Thread.noConfusion Thread.noConfusion⟩
      · cases stepped
  | complete outcome =>
      simp only [step, complete] at stepped
      split at stepped
      · next operation result present =>
          split at stepped
          · cases stepped
            exact ⟨_, _, _, _, present, rfl, runs Thread.noConfusion Thread.noConfusion⟩
          · cases stepped
      · cases stepped
  | postDone accepted =>
      simp only [step, postDone] at stepped
      split at stepped
      · next result present =>
          rw [Option.map_eq_some_iff] at stepped
          obtain ⟨⟨posted, u⟩, tried, rfl⟩ := stepped
          obtain ⟨-, ⟨-, rfl⟩ | ⟨-, rfl⟩⟩ := postMessage_cases tried
          · exact ⟨_, _, _, _, present, rfl, runs Thread.noConfusion Thread.noConfusion⟩
          · exact ⟨_, _, _, _, present, rfl, runs Thread.noConfusion Thread.noConfusion⟩
      · cases stepped
  | threadReturns =>
      simp only [step] at stepped
      split at stepped
      · next present =>
          cases stepped
          exact ⟨_, _, _, _, present, rfl, fun _ => ⟨.inr rfl, rfl⟩⟩
      · cases stepped

/-- The window is not left before it is destroyed. -/
theorem Invariant.not_leave (h : Invariant A s) (present : s.worker ≠ none) :
    Gui.step s .leave = none := by
  have window : s.window = true := by
    cases same : s.window with
    | true => rfl
    | false => exact (present (h.destroyed same)).elim
  have quit : s.quit = false := by
    rw [h.quit, window]
    rfl
  simp [Gui.step, Gui.leave, quit]

/-! ### Requests to cancel -/

def Event.isRequest (e : Event) : Bool := e = .input .cancel ∨ e = .input .close

/-- Until the worker is joined, the flag only changes by a request. -/
theorem cancelled_of_step (h : Invariant A s) (present : s.worker ≠ none)
    (stepped : s.step e = some t) (stays : e ≠ .joined) :
    t.worker ≠ none ∧ t.cancelled = (s.cancelled || e.isRequest) := by
  have working : s.working = true := by rw [h.working, Option.isSome_iff_ne_none]; exact present
  have quiet (other : e.isRequest = false) : s.cancelled = (s.cancelled || e.isRequest) := by
    rw [other, Bool.or_false]
  cases e with
  | input input =>
      rw [step] at stepped
      split at stepped
      · cases stepped
        cases input with
        | startWorker operation outputPath =>
            rw [handle, startWorker, if_pos working]
            exact ⟨present, quiet rfl⟩
        | cancel =>
            rw [handle, pressCancel, if_pos working]
            exact ⟨present, (Bool.or_true _).symm⟩
        | close =>
            rw [handle, close, if_pos working]
            exact ⟨present, (Bool.or_true _).symm⟩
        | browse => exact ⟨present, quiet rfl⟩
      · cases stepped
  | dispatch =>
      simp only [step, dispatch] at stepped
      split at stepped
      · split at stepped
        · cases stepped
        · cases stepped
          rw [handleProgress]
          split
          · exact ⟨present, quiet rfl⟩
          · exact ⟨present, quiet rfl⟩
        · cases stepped
          rw [handleWorkerDone, if_pos (Option.isSome_iff_ne_none.mpr present)]
          exact ⟨present, quiet rfl⟩
      · cases stepped
  | dismiss =>
      simp only [step, dismiss] at stepped
      split at stepped
      · split at stepped
        · cases stepped
        · cases stepped
          exact ⟨present, quiet rfl⟩
        · cases stepped
          exact ⟨present, quiet rfl⟩
      · cases stepped
  | leave =>
      rw [h.not_leave present] at stepped
      cases stepped
  | joined => exact (stays rfl).elim
  | enter | load | report | postProgress | complete | postDone | threadReturns =>
      obtain ⟨_, _, _, _, _, rfl, _⟩ := worker_of_step rfl stepped
      exact ⟨Option.some_ne_none _, quiet rfl⟩

theorem cancelled_of_run (h : s.Sound) (present : s.worker ≠ none) (run : Run step s es t)
    (stays : .joined ∉ es) :
    t.worker ≠ none ∧ t.cancelled = (s.cancelled || es.any Event.isRequest) := by
  induction run with
  | nil => exact ⟨present, (Bool.or_false _).symm⟩
  | @cons s m t e es stepped _ ih =>
      rw [List.mem_cons, not_or] at stays
      obtain ⟨present', flag⟩ := cancelled_of_step h present stepped (Ne.symm stays.1)
      obtain ⟨present'', rest⟩ := ih (h.step stepped) present' stays.2
      refine ⟨present'', ?_⟩
      rw [rest, flag, List.any_cons, Bool.or_assoc]

/-- What a worker reads from `cancelled_` is whether a request has been made since it was started:
a request is neither lost nor kept for the next worker. -/
theorem load_eq_requested {history : List Event} {operation : WorkerOperation}
    {outputPath : WString} {value : Bool} (reached : Run step {} history s) (idle : s.worker = none)
    (started : s.step (.input (.startWorker operation outputPath)) = some t)
    (accepted : t.worker ≠ none) (run : Run step t es u) (stays : .joined ∉ es)
    (loaded : (u.step (.load value)).isSome) : value = es.any Event.isRequest := by
  have h := sound_of_run reached
  have begun : t.cancelled = false := by
    rw [step] at started
    split at started
    · cases started
      rw [handle, startWorker, if_neg (by rw [h.working, idle]; exact Bool.false_ne_true), idle,
        Option.isSome_none, if_neg Bool.false_ne_true, launch] at accepted ⊢
      split at accepted
      · exact (accepted idle).elim
      · next some =>
          rw [if_neg some]
    · cases started
  obtain ⟨-, flag⟩ := cancelled_of_run (h.step started) accepted run stays
  rw [begun, Bool.false_or] at flag
  rw [step] at loaded
  split at loaded
  · split at loaded
    · next same => rw [same, flag]
    · cases loaded
  · cases loaded

/-- The second worker does not read the request that stopped the first. -/
theorem load_after_cancelled_worker : ∃ s t u,
    Run step {} [.input (.startWorker .capture (wide "a.raw")), .enter, .input .cancel, .complete {},
      .postDone true, .dispatch, .threadReturns, .joined] s ∧
    s.step (.input (.startWorker .capture (wide "b.raw"))) = some t ∧ Run step t [.enter] u ∧
    (u.step (.load false)).isSome ∧ false = [Event.enter].any Event.isRequest := by
  obtain ⟨s, reached, idle, t, started, accepted, u, run, loaded⟩ : ∃ s,
      Run step {} [.input (.startWorker .capture (wide "a.raw")), .enter, .input .cancel,
        .complete {}, .postDone true, .dispatch, .threadReturns, .joined] s ∧ s.worker = none ∧
      ∃ t, s.step (.input (.startWorker .capture (wide "b.raw"))) = some t ∧ t.worker ≠ none ∧
      ∃ u, Run step t [.enter] u ∧ (u.step (.load false)).isSome :=
    ⟨_, run_iff.mpr rfl, rfl, _, rfl, Option.some_ne_none _, _, run_iff.mpr rfl, rfl⟩
  exact ⟨s, t, u, reached, started, run, loaded,
    load_eq_requested reached idle started accepted run (by decide) loaded⟩

end Gui

end PhylaRam
