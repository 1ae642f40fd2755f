import PhylaRam.Gui.MainWindow
import PhylaRam.Library.Transition

/-!
# Any interleaving of the window with its worker

The worker exists exactly while the window says that it works, and the queue holds nothing but
messages of this worker. From this it follows that no object is released twice or used after its
release, that a request to cancel reaches the worker it was made for, that a join never waits for
an acquisition, and that the window outlives its worker. One thing can go wrong: if the last
message cannot be posted, the window works forever.
-/

namespace PhylaRam

open Transition

namespace Gui

/-! ### Who owns what -/

def ownsProgress (payload : Nat) : Pool.Claim Object :=
  ⟨payload, fun object => ∃ p, object = .progress p⟩

def ownsResult (A : WorkerResult → Prop) (result : Nat) : Pool.Claim Object :=
  ⟨result, fun object => ∃ r, object = .result r ∧ A r⟩

section Claims

variable (A : WorkerResult → Prop)

def Message.claim : Message → Pool.Claim Object
  | .progress payload => ownsProgress payload
  | .workerDone result => ownsResult A result

def Thread.claims : Thread → List (Pool.Claim Object)
  | .working _ result => [ownsResult (fun _ => True) result]
  | .posting result payload => [ownsProgress payload, ownsResult (fun _ => True) result]
  | .reporting result => [ownsResult A result]
  | .starting _ | .returning | .returned => []

/-- A box shows what it was opened with. -/
def Box.claims : Box → List (Pool.Claim Object)
  | .showing result notice => [ownsResult (fun r => A r ∧ notice = noticeOf r) result]
  | .browsing | .warning => []

def Ui.claims : Ui → List (Pool.Claim Object)
  | .joining (.done result) => [ownsResult A result]
  | _ => []

/-- The objects that will be released, each by the one who holds the pointer. The outcomes of all
operations satisfy `A`. -/
def claims (s : Gui) : List (Pool.Claim Object) :=
  s.ui.claims A ++ (s.worker.toList.flatMap (Thread.claims A) ++
    (s.queue.map (Message.claim A) ++ s.boxes.flatMap (Box.claims A)))

end Claims

/-! ### The invariant -/

def Ui.IsJoining (ui : Ui) : Prop := ∃ next, ui = .joining next

def Message.IsProgress (message : Message) : Prop := ∃ payload, message = .progress payload

/-- The thread has tried to post its last message. -/
def Thread.Over (thread : Thread) : Prop := thread = .returning ∨ thread = .returned

/-- What can be under way between the worker and the window. -/
inductive Mailbox : Ui → Option Thread → List Message → Prop
  | idle {ui : Ui} (pumps : ¬ui.IsJoining) : Mailbox ui none []
  | running {ui : Ui} {thread : Thread} {queue : List Message} (pumps : ¬ui.IsJoining)
      (runs : ¬thread.Over) (reports : ∀ message ∈ queue, message.IsProgress) :
      Mailbox ui (some thread) queue
  | posted {ui : Ui} {thread : Thread} {reports : List Message} {result : Nat}
      (pumps : ¬ui.IsJoining) (isOver : thread.Over)
      (each : ∀ message ∈ reports, message.IsProgress) :
      Mailbox ui (some thread) (reports ++ [.workerDone result])
  | lost {ui : Ui} {thread : Thread} {queue : List Message} (pumps : ¬ui.IsJoining)
      (isOver : thread.Over) (reports : ∀ message ∈ queue, message.IsProgress) :
      Mailbox ui (some thread) queue
  | handling {thread : Thread} {result : Nat} (isOver : thread.Over) :
      Mailbox (.joining (.done result)) (some thread) []

theorem Mailbox.nil {ui : Ui} {queue : List Message} (mailbox : Mailbox ui none queue) :
    queue = [] := by
  cases mailbox with
  | idle pumps => rfl

theorem Message.not_isProgress_workerDone {result : Nat} :
    ¬(Message.workerDone result).IsProgress := by
  rintro ⟨payload, same⟩
  cases same

/-- Behind a progress message the queue is as it was. -/
theorem Mailbox.of_progress {ui : Ui} {worker : Option Thread} {payload : Nat}
    {rest : List Message} (mailbox : Mailbox ui worker (.progress payload :: rest)) :
    Mailbox ui worker rest := by
  generalize same : Message.progress payload :: rest = queue at mailbox
  cases mailbox with
  | idle | handling => cases same
  | running pumps runs reports =>
      subst same
      exact .running pumps runs fun message member => reports message (List.mem_cons_of_mem _ member)
  | lost pumps isOver reports =>
      subst same
      exact .lost pumps isOver fun message member => reports message (List.mem_cons_of_mem _ member)
  | @posted ui thread reports result pumps isOver each =>
      cases reports with
      | nil => cases same
      | cons first reports =>
          obtain ⟨rfl, rfl⟩ := List.cons.inj same
          exact .posted pumps isOver fun message member => each message (List.mem_cons_of_mem _ member)

/-- The message of the end is the last one. -/
theorem Mailbox.of_workerDone {ui : Ui} {worker : Option Thread} {result : Nat}
    {rest : List Message} (mailbox : Mailbox ui worker (.workerDone result :: rest)) :
    rest = [] ∧ ∃ thread, worker = some thread ∧ thread.Over := by
  generalize same : Message.workerDone result :: rest = queue at mailbox
  cases mailbox with
  | idle | handling => cases same
  | running pumps runs reports =>
      subst same
      exact (Message.not_isProgress_workerDone (reports _ List.mem_cons_self)).elim
  | lost pumps isOver reports =>
      subst same
      exact (Message.not_isProgress_workerDone (reports _ List.mem_cons_self)).elim
  | @posted ui thread reports result pumps isOver each =>
      cases reports with
      | nil =>
          obtain ⟨-, rfl⟩ := List.cons.inj same
          exact ⟨rfl, thread, rfl, isOver⟩
      | cons first reports =>
          obtain ⟨rfl, -⟩ := List.cons.inj same
          exact (Message.not_isProgress_workerDone (each _ List.mem_cons_self)).elim

/-- A thread that runs has posted progress only. -/
theorem Mailbox.of_running {ui : Ui} {thread : Thread} {queue : List Message}
    (mailbox : Mailbox ui (some thread) queue) (runs : ¬thread.Over) :
    ¬ui.IsJoining ∧ ∀ message ∈ queue, message.IsProgress := by
  cases mailbox with
  | running pumps _ reports => exact ⟨pumps, reports⟩
  | posted _ isOver | lost _ isOver | handling isOver => exact (runs isOver).elim

/-- A join waits for a thread that has done its work, and is followed by its result. -/
theorem Mailbox.of_joining {next : Joining} {worker : Option Thread} {queue : List Message}
    (mailbox : Mailbox (.joining next) worker queue) :
    queue = [] ∧ ∃ result thread, next = .done result ∧ worker = some thread ∧ thread.Over := by
  generalize same : Ui.joining next = ui at mailbox
  cases mailbox with
  | idle pumps | running pumps | posted pumps | lost pumps => exact (pumps ⟨next, same.symm⟩).elim
  | @handling thread result isOver =>
      obtain rfl := Ui.joining.inj same
      exact ⟨rfl, result, thread, rfl, rfl, isOver⟩

structure Invariant (A : WorkerResult → Prop) (s : Gui) : Prop where
  mailbox : Mailbox s.ui s.worker s.queue
  working : s.working = s.worker.isSome
  inputs : s.inputsEnabled = !s.working
  button : s.cancelEnabled = (s.working && !s.cancelled)
  destroyed : s.window = false → s.worker = none
  quit : s.quit = !s.window
  closing : s.closing = true → s.window = true → s.working = true ∧ s.cancelled = true
  owned : s.objects.Owned (s.claims A)
  typed : s.misread = false
  left : s.ui = .left → s.window = false ∧ s.boxes = []

theorem Invariant.initial {A : WorkerResult → Prop} : Invariant A {} where
  mailbox := .idle fun ⟨next, joining⟩ => by cases joining
  working := rfl
  inputs := rfl
  button := rfl
  destroyed := by intro destroyed; cases destroyed
  quit := rfl
  closing := by intro closing; cases closing
  owned := .empty
  typed := rfl
  left := by intro left; cases left

section Handlers

variable {A : WorkerResult → Prop} {s t : Gui}

theorem Ui.not_joining_of_pumping {ui : Ui} (pumping : ui = .pumping) : ¬ui.IsJoining := by
  rintro ⟨next, joining⟩
  rw [pumping] at joining
  cases joining

/-- Without a worker there is no message. -/
theorem Invariant.queue_nil (h : Invariant A s) (idle : s.worker = none) : s.queue = [] := by
  have mailbox := h.mailbox
  rw [idle] at mailbox
  exact mailbox.nil

theorem Invariant.worker_none (h : Invariant A s) (idle : s.working = false) : s.worker = none := by
  rw [h.working, Option.isSome_eq_false_iff, Option.isNone_iff_eq_none] at idle
  exact idle

theorem Invariant.working_true (h : Invariant A s) {thread : Thread}
    (present : s.worker = some thread) : s.working = true := by
  rw [h.working, present]
  rfl

/-- A worker has a window to post to. -/
theorem Invariant.window_true (h : Invariant A s) {thread : Thread}
    (present : s.worker = some thread) : s.window = true := by
  cases same : s.window with
  | true => rfl
  | false =>
      have none := h.destroyed same
      rw [present] at none
      cases none

theorem Invariant.destroyWindow (h : Invariant A s) (idle : s.worker = none)
    (pumping : s.ui = .pumping) : Invariant A s.destroyWindow := by
  have empty := h.queue_nil idle
  refine { h with
    mailbox := ?_
    destroyed := fun _ => idle
    quit := rfl
    closing := fun _ window => by cases window
    owned := ?_
    left := fun left => ?_ }
  · show Mailbox s.ui s.worker []
    rw [idle]
    exact .idle (Ui.not_joining_of_pumping pumping)
  · have owned := h.owned
    rw [claims, empty] at owned
    exact owned
  · have left : s.ui = .left := left
    rw [pumping] at left
    cases left

theorem Invariant.pressCancel (h : Invariant A s) : Invariant A s.pressCancel := by
  rw [Gui.pressCancel]
  split
  · next working =>
      exact { h with
        button := by simp
        closing := fun closing window => ⟨working, rfl⟩ }
  · exact h

theorem Invariant.close (h : Invariant A s) (pumping : s.ui = .pumping) : Invariant A s.close := by
  rw [Gui.close]
  split
  · next working =>
      exact { h with
        button := by simp
        closing := fun _ _ => ⟨working, rfl⟩ }
  · next idle => exact h.destroyWindow (h.worker_none (eq_false_of_ne_true idle)) pumping

theorem Invariant.startWorker (h : Invariant A s) (pumping : s.ui = .pumping)
    (window : s.window = true) (operation : WorkerOperation) (outputPath : WString) :
    Invariant A (s.startWorker operation outputPath) := by
  rw [Gui.startWorker]
  split
  · exact h
  · next notWorking =>
      have idle := h.worker_none (eq_false_of_ne_true notWorking)
      rw [idle, Option.isSome_none, if_neg Bool.false_ne_true, launch]
      split
      · refine { h with left := fun left => ?_ }
        rw [show s.ui = .left from left] at pumping
        cases pumping
      · have empty := h.queue_nil idle
        refine { h with
          mailbox := ?_
          working := rfl
          inputs := rfl
          button := rfl
          destroyed := fun destroyed => ?_
          closing := fun closing _ => ?_
          owned := ?_ }
        · show Mailbox s.ui (some (.starting operation)) s.queue
          rw [empty]
          refine .running (Ui.not_joining_of_pumping pumping) ?_ fun message member => by cases member
          rintro (isOver | isOver) <;> cases isOver
        · rw [show s.window = false from destroyed] at window
          cases window
        · have before := (h.closing closing window).1
          rw [before] at notWorking
          exact (notWorking rfl).elim
        · have owned := h.owned
          rw [claims, idle] at owned
          exact owned

theorem Invariant.not_left (h : Invariant A s) {thread : Thread} (present : s.worker = some thread) :
    s.ui ≠ .left := by
  intro left
  have window := h.window_true present
  rw [(h.left left).1] at window
  cases window

/-- The claims of the first message of the queue. -/
theorem claims_of_queue {message : Message} {rest : List Message}
    (queued : s.queue = message :: rest) :
    (s.claims A).Perm (message.claim A :: { s with queue := rest }.claims A) := by
  rw [claims, queued, List.map_cons, List.cons_append]
  exact (List.perm_middle.append_left _).trans List.perm_middle

theorem Invariant.handleProgress (h : Invariant A s) {payload : Nat} {rest : List Message}
    (queued : s.queue = .progress payload :: rest) :
    Invariant A ({ s with queue := rest }.handleProgress payload) := by
  have owned := h.owned.perm (claims_of_queue queued)
  obtain ⟨object, found, p, rfl⟩ := owned.known _ List.mem_cons_self
  have content : s.objects.content? payload = some (.progress p) := found
  have mailbox := h.mailbox
  rw [queued] at mailbox
  rw [Gui.handleProgress]
  simp only [content]
  exact { h with
    mailbox := mailbox.of_progress
    owned := (owned.read List.mem_cons_self).free }

theorem Invariant.handleWorkerDone (h : Invariant A s) (pumping : s.ui = .pumping) {result : Nat}
    {rest : List Message} (queued : s.queue = .workerDone result :: rest) :
    Invariant A ({ s with queue := rest }.handleWorkerDone result) := by
  have mailbox := h.mailbox
  rw [queued] at mailbox
  obtain ⟨rfl, thread, present, isOver⟩ := mailbox.of_workerDone
  rw [Gui.handleWorkerDone, if_pos (by rw [present]; rfl)]
  refine { h with
    mailbox := ?_
    owned := h.owned.perm ?_
    left := fun left => by cases left }
  · show Mailbox (.joining (.done result)) s.worker []
    rw [present]
    exact .handling isOver
  · refine (claims_of_queue queued).trans (.of_eq ?_)
    simp [claims, pumping, Ui.claims, Message.claim]

theorem Invariant.dispatch (h : Invariant A s) (pumping : s.ui = .pumping)
    (stepped : s.dispatch = some t) : Invariant A t := by
  rw [Gui.dispatch] at stepped
  split at stepped
  · cases stepped
  · next payload rest queued =>
      cases stepped
      exact h.handleProgress queued
  · next result rest queued =>
      cases stepped
      exact h.handleWorkerDone pumping queued

theorem Invariant.dismiss (h : Invariant A s) (pumping : s.ui = .pumping)
    (stepped : s.dismiss = some t) : Invariant A t := by
  have stays {P : Prop} (left : s.ui = .left) : P := by
    rw [pumping] at left
    cases left
  rw [Gui.dismiss] at stepped
  split at stepped
  · cases stepped
  · next result notice rest entered =>
      cases stepped
      have owned : s.objects.Owned (ownsResult (fun r => A r ∧ notice = noticeOf r) result ::
          { s with boxes := rest }.claims A) := by
        refine h.owned.perm ?_
        rw [claims, entered, List.flatMap_cons, ← List.append_assoc, ← List.append_assoc]
        refine List.Perm.trans List.perm_middle (.of_eq ?_)
        simp [claims]
      exact { h with owned := owned.free, left := fun left => stays left }
  · next box rest other entered =>
      cases stepped
      refine { h with owned := h.owned.perm (.of_eq ?_), left := fun left => stays left }
      rw [claims, entered, List.flatMap_cons]
      cases box with
      | showing result notice => exact (other result notice rfl).elim
      | browsing | warning => rfl

theorem Invariant.leave (h : Invariant A s) (pumping : s.ui = .pumping)
    (stepped : s.leave = some t) : Invariant A t := by
  rw [Gui.leave] at stepped
  split at stepped
  · next isOver =>
      cases stepped
      obtain ⟨quit, empty⟩ := isOver
      have window : s.window = false := by
        have same := h.quit
        rw [quit] at same
        simpa using same.symm
      have idle := h.destroyed window
      have still : s.working = false := by rw [h.working, idle]; rfl
      have gone : (if s.worker.isSome then Ui.joining .exit else Ui.left) = .left := by
        rw [idle]
        rfl
      refine { h with
        mailbox := ?_
        button := ?_
        closing := fun _ present => ?_
        owned := h.owned.perm (.of_eq ?_)
        left := fun _ => ⟨window, empty⟩ }
      · show Mailbox (if s.worker.isSome then .joining .exit else .left) s.worker s.queue
        rw [gone, idle, h.queue_nil idle]
        refine .idle ?_
        rintro ⟨next, joining⟩
        cases joining
      · show s.cancelEnabled = (s.working && !true)
        rw [h.button, still]
        rfl
      · rw [show s.window = true from present] at window
        cases window
      · simp [claims, pumping, Ui.claims, idle]
  · cases stepped

/-- What a handler does behind the join, with the worker gone. -/
theorem Invariant.joined (h : Invariant A s) (stepped : s.joined = some t) : Invariant A t := by
  have mailbox := h.mailbox
  have owned := h.owned
  rw [Gui.joined] at stepped
  split at stepped
  · next next joining returned =>
      rw [joining] at mailbox
      obtain ⟨empty, result, thread, rfl, _, _⟩ := mailbox.of_joining
      cases stepped
      rw [claims, joining, returned, empty] at owned
      rw [Gui.workerDone]
      split
      · next closing =>
          exact {
            mailbox := .idle (Ui.not_joining_of_pumping rfl)
            working := rfl
            inputs := rfl
            button := rfl
            destroyed := fun _ => rfl
            quit := rfl
            closing := fun _ window => by cases window
            owned := owned.free
            typed := h.typed
            left := fun left => by cases left }
      · next staying =>
          obtain ⟨object, found, r, rfl, truthful⟩ := owned.known _ List.mem_cons_self
          have content : s.objects.content? result = some (.result r) := found
          have window := h.window_true returned
          simp only [setWorking, content]
          exact {
            mailbox := by
              rw [empty]
              exact .idle (Ui.not_joining_of_pumping rfl)
            working := rfl
            inputs := rfl
            button := rfl
            destroyed := fun _ => rfl
            quit := h.quit
            closing := fun closing => (staying closing).elim
            owned := by
              rw [claims, empty]
              exact (owned.learn found ⟨r, rfl, truthful, rfl⟩).read List.mem_cons_self
            typed := h.typed
            left := fun left => by cases left }
  · cases stepped

/-! ### Steps of the worker -/

/-- The claims of everyone but the worker. -/
def others (A : WorkerResult → Prop) (s : Gui) : List (Pool.Claim Object) :=
  s.ui.claims A ++ (s.queue.map (Message.claim A) ++ s.boxes.flatMap (Box.claims A))

theorem claims_perm (A : WorkerResult → Prop) (s : Gui) :
    (s.claims A).Perm (s.worker.toList.flatMap (Thread.claims A) ++ s.others A) :=
  List.perm_append_comm_assoc _ _ _

/-- A step of the worker only has to give account of the thread, the queue and the objects. -/
theorem Invariant.of_worker (h : Invariant A s) {thread thread' : Thread}
    (present : s.worker = some thread) {queue : List Message} {objects : Pool Object}
    (mailbox : Mailbox s.ui (some thread') queue)
    (owned : objects.Owned (thread'.claims A ++ { s with queue }.others A)) :
    Invariant A { s with worker := some thread', queue, objects } := by
  have window := h.window_true present
  refine { h with
    mailbox
    working := h.working_true present
    destroyed := fun destroyed => ?_
    owned := owned.perm ?_ }
  · rw [show s.window = false from destroyed] at window
    cases window
  · refine .trans (.of_eq ?_) (claims_perm A _).symm
    rw [Option.toList_some, List.flatMap_singleton]
    rfl

/-- A message passes from the one who posts it to the queue. -/
theorem others_append (A : WorkerResult → Prop) (s : Gui) (message : Message) :
    ({ s with queue := s.queue ++ [message] }.others A).Perm (message.claim A :: s.others A) := by
  rw [others, List.map_append, List.map_singleton, List.append_assoc, ← List.append_assoc]
  refine List.perm_middle.trans (.of_eq ?_)
  exact congrArg _ (List.append_assoc _ _ _)

/-- What the worker owns and what the others own. -/
theorem Invariant.owned_worker (h : Invariant A s) {thread : Thread}
    (present : s.worker = some thread) : s.objects.Owned (thread.claims A ++ s.others A) := by
  refine h.owned.perm ((claims_perm A s).trans (.of_eq ?_))
  rw [present, Option.toList_some, List.flatMap_singleton]

theorem Invariant.mailbox_running (h : Invariant A s) {thread : Thread}
    (present : s.worker = some thread) (runs : ¬thread.Over) :
    ¬s.ui.IsJoining ∧ ∀ message ∈ s.queue, message.IsProgress := by
  have mailbox := h.mailbox
  rw [present] at mailbox
  exact mailbox.of_running runs

theorem Thread.not_over {thread : Thread} (first : thread ≠ .returning)
    (second : thread ≠ .returned) : ¬thread.Over :=
  fun isOver => isOver.elim first second

theorem Invariant.enter (h : Invariant A s) (stepped : s.enter = some t) : Invariant A t := by
  rw [Gui.enter] at stepped
  split at stepped
  · next operation present =>
      cases stepped
      obtain ⟨pumps, reports⟩ := h.mailbox_running present
        (Thread.not_over Thread.noConfusion Thread.noConfusion)
      exact h.of_worker present
        (.running pumps (Thread.not_over Thread.noConfusion Thread.noConfusion) reports)
        ((h.owned_worker present).allocate ⟨_, rfl, trivial⟩)
  · cases stepped

theorem Invariant.report (h : Invariant A s) {payload : ProgressPayload}
    (stepped : s.report payload = some t) : Invariant A t := by
  rw [Gui.report] at stepped
  split at stepped
  · next result present =>
      cases stepped
      obtain ⟨pumps, reports⟩ := h.mailbox_running present
        (Thread.not_over Thread.noConfusion Thread.noConfusion)
      exact h.of_worker present
        (.running pumps (Thread.not_over Thread.noConfusion Thread.noConfusion) reports)
        ((h.owned_worker present).allocate ⟨_, rfl⟩)
  · cases stepped

theorem Invariant.complete (h : Invariant A s) {outcome : WorkerResult} (truthful : A outcome)
    (stepped : s.complete outcome = some t) : Invariant A t := by
  rw [Gui.complete] at stepped
  split at stepped
  · next operation result present =>
      split at stepped
      · cases stepped
        obtain ⟨pumps, reports⟩ := h.mailbox_running present
          (Thread.not_over Thread.noConfusion Thread.noConfusion)
        exact h.of_worker present
          (.running pumps (Thread.not_over Thread.noConfusion Thread.noConfusion) reports)
          ((h.owned_worker present).write ⟨_, rfl, truthful⟩)
      · cases stepped
  · cases stepped

/-- The two outcomes of `PostMessageW`. -/
theorem postMessage_cases {message : Message} {accepted posted : Bool}
    (tried : s.postMessage message accepted = some (posted, t)) :
    posted = accepted ∧ (accepted = true ∧ t = { s with queue := s.queue ++ [message] } ∨
      accepted = false ∧ t = s) := by
  rw [postMessage] at tried
  split at tried
  · next yes =>
      split at tried
      · cases tried
        exact ⟨yes.symm, .inl ⟨yes, rfl⟩⟩
      · cases tried
  · next no =>
      cases tried
      exact ⟨(eq_false_of_ne_true no).symm, .inr ⟨eq_false_of_ne_true no, rfl⟩⟩

theorem Invariant.postProgress (h : Invariant A s) {accepted : Bool}
    (stepped : s.postProgress accepted = some t) : Invariant A t := by
  rw [Gui.postProgress] at stepped
  split at stepped
  · next result payload present =>
      rw [Option.map_eq_some_iff] at stepped
      obtain ⟨⟨posted, u⟩, tried, rfl⟩ := stepped
      obtain ⟨pumps, reports⟩ := h.mailbox_running present
        (Thread.not_over Thread.noConfusion Thread.noConfusion)
      have owned := h.owned_worker present
      obtain ⟨rfl, ⟨rfl, rfl⟩ | ⟨rfl, rfl⟩⟩ := postMessage_cases tried
      · refine h.of_worker present (.running pumps
          (Thread.not_over Thread.noConfusion Thread.noConfusion) fun message member => ?_)
          (owned.perm ?_)
        · cases List.mem_append.mp member with
          | inl old => exact reports message old
          | inr new => exact ⟨payload, List.mem_singleton.mp new⟩
        · exact ((List.Perm.swap _ _ _).trans
            ((others_append A s (.progress payload)).symm.cons _))
      · exact h.of_worker present
          (.running pumps (Thread.not_over Thread.noConfusion Thread.noConfusion) reports)
          owned.free
  · cases stepped

theorem Invariant.postDone (h : Invariant A s) {accepted : Bool}
    (stepped : s.postDone accepted = some t) : Invariant A t := by
  rw [Gui.postDone] at stepped
  split at stepped
  · next result present =>
      rw [Option.map_eq_some_iff] at stepped
      obtain ⟨⟨posted, u⟩, tried, rfl⟩ := stepped
      obtain ⟨pumps, reports⟩ := h.mailbox_running present
        (Thread.not_over Thread.noConfusion Thread.noConfusion)
      have owned := h.owned_worker present
      obtain ⟨rfl, ⟨rfl, rfl⟩ | ⟨rfl, rfl⟩⟩ := postMessage_cases tried
      · exact h.of_worker present (.posted pumps (.inl rfl) reports)
          (owned.perm (others_append A s (.workerDone result)).symm)
      · exact h.of_worker present (.lost pumps (.inl rfl) reports) owned.free
  · cases stepped

theorem Mailbox.of_over {ui : Ui} {thread thread' : Thread} {queue : List Message}
    (mailbox : Mailbox ui (some thread) queue) (isOver : thread.Over) (isOver' : thread'.Over) :
    Mailbox ui (some thread') queue := by
  cases mailbox with
  | running pumps runs => exact (runs isOver).elim
  | posted pumps _ each => exact .posted pumps isOver' each
  | lost pumps _ reports => exact .lost pumps isOver' reports
  | handling => exact .handling isOver'

theorem Invariant.threadReturns (h : Invariant A s) (present : s.worker = some .returning) :
    Invariant A { s with worker := some .returned } := by
  have mailbox := h.mailbox
  rw [present] at mailbox
  have owned : s.objects.Owned (s.others A) := h.owned_worker present
  exact h.of_worker present (mailbox.of_over (.inl rfl) (.inr rfl)) owned

theorem Invariant.handle (h : Invariant A s) (pumping : s.ui = .pumping) (window : s.window = true)
    (input : Input) : Invariant A (s.handle input) := by
  cases input with
  | startWorker operation outputPath => exact h.startWorker pumping window operation outputPath
  | cancel => exact h.pressCancel
  | close => exact h.close pumping
  | browse =>
      refine { h with left := fun left => ?_ }
      rw [show s.ui = .left from left] at pumping
      cases pumping

theorem Invariant.step (h : Invariant A s) {e : Event}
    (truthful : ∀ outcome, e = .complete outcome → A outcome) (stepped : s.step e = some t) :
    Invariant A t := by
  cases e with
  | input input =>
      rw [Gui.step] at stepped
      split at stepped
      · next ready =>
          cases stepped
          exact h.handle ready.1 ready.2 input
      · cases stepped
  | dispatch =>
      rw [Gui.step] at stepped
      split at stepped
      · next pumping => exact h.dispatch pumping stepped
      · cases stepped
  | dismiss =>
      rw [Gui.step] at stepped
      split at stepped
      · next pumping => exact h.dismiss pumping stepped
      · cases stepped
  | leave =>
      rw [Gui.step] at stepped
      split at stepped
      · next pumping => exact h.leave pumping stepped
      · cases stepped
  | joined => exact h.joined stepped
  | enter => exact h.enter stepped
  | load value =>
      rw [Gui.step] at stepped
      split at stepped
      · split at stepped
        · cases stepped
          exact h
        · cases stepped
      · cases stepped
  | report payload => exact h.report stepped
  | postProgress accepted => exact h.postProgress stepped
  | complete outcome => exact h.complete (truthful outcome rfl) stepped
  | postDone accepted => exact h.postDone stepped
  | threadReturns =>
      rw [Gui.step] at stepped
      split at stepped
      · next present =>
          cases stepped
          exact h.threadReturns present
      · cases stepped

end Handlers

end Gui

end PhylaRam
