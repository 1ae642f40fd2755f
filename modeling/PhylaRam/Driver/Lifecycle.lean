import PhylaRam.Driver.Rules
import PhylaRam.Library.History
import Mathlib.Data.List.Pairwise

/-!
# The life of a file object

A file object is created once. Any sequence of requests, cleanups and closes may follow,
each with its own answers of the kernel, so the machine's table may be another one in
every callback. `session_frozen` collects what holds of every such history.
-/

namespace PhylaRam

open Program

inductive DriverEvent
  | fileCreate (calls : KernelCalls)
  | deviceControl (calls : KernelCalls) (request : WdfRequest) (ioControlCode : UInt32)
  | fileCleanup
  | fileClose

/-- One callback. `none` is a callback that never returns. -/
def Driver.step : DriverEvent → Driver → Option Driver
  | .fileCreate calls, d => (phylaEvtFileCreate calls d).map (·.2)
  | .deviceControl calls request code, d => (phylaEvtIoDeviceControl calls request code d).map (·.2)
  | .fileCleanup, d => some (phylaEvtFileCleanup d)
  | .fileClose, d => some (phylaEvtFileClose d)

/-- The histories of a file object. -/
inductive Reached : History Driver DriverEvent → Prop
  | create {context : PhylaFileContext} {calls : KernelCalls} {d : Driver}
      (created : Driver.step (.fileCreate calls) { context := context } = some d) :
      Reached ⟨d, [({ context := context }, .fileCreate calls)]⟩
  | next {h : History Driver DriverEvent} {e : DriverEvent} {d : Driver} (earlier : Reached h)
      (once : ∀ calls, e ≠ .fileCreate calls) (stepped : h.now.step e = some d) :
      Reached ⟨d, h.past ++ [(h.now, e)]⟩

/-- The table captured at the creation of the file object. -/
def capturedTable (h : History Driver DriverEvent) : List PhysicalMemoryRange :=
  match h.past.head? with
  | some (_, .fileCreate calls) => (calls.ranges.map tableOf).getD []
  | _ => []

/-- The order in which a session passes through its states. -/
inductive SessionState.Advances : SessionState → SessionState → Prop
  | stays (session : SessionState) : Advances session session
  | ends (table : List PhysicalMemoryRange) : Advances (.frozen table) (.ended table)
  | closes (session : SessionState) : Advances session .closed

/-- The session is about `table`, if it is open at all. -/
def SessionState.About (table : List PhysicalMemoryRange) : SessionState → Prop
  | .closed => True
  | .frozen captured | .ended captured => captured = table

theorem SessionState.Advances.about {session session' : SessionState}
    {table : List PhysicalMemoryRange} (advances : session.Advances session')
    (about : session.About table) : session'.About table := by
  cases advances with
  | stays => exact about
  | ends => exact about
  | closes => exact trivial

theorem Serves.advances {calls : KernelCalls} {session session' : SessionState} {code : UInt32}
    {reply : Reply} (serves : Serves calls session code reply session') :
    session.Advances session' := by
  cases serves with
  | endSession => exact .ends _
  | _ => exact .stays _

/-- No table is held, or the session has been ended. -/
def Driver.Over (d : Driver) : Prop := ∀ block, ¬d.Open block

theorem Represents.over_iff {d : Driver} {session : SessionState}
    (represents : Represents d session) : d.Over ↔ ∀ table, session ≠ .frozen table := by
  constructor
  · rintro isOver table rfl
    obtain ⟨block, opened, _⟩ := represents.frozen_open
    exact isOver block opened
  · intro unfrozen block opened
    obtain ⟨table, frozen, _⟩ := represents.of_open opened
    exact unfrozen table frozen

theorem SessionState.Advances.unfrozen {session session' : SessionState}
    (advances : session.Advances session') (unfrozen : ∀ table, session ≠ .frozen table) :
    ∀ table, session' ≠ .frozen table := by
  intro table
  cases advances with
  | stays => exact unfrozen table
  | ends ended => exact (unfrozen ended rfl).elim
  | closes => exact SessionState.noConfusion

section Callbacks

variable {d d' : Driver} {session : SessionState} {calls : KernelCalls} {request : WdfRequest}
  {code : UInt32} {completion : Completion}

/-- A completed request was served or refused. -/
inductive Completes (calls : KernelCalls) (d : Driver) (session : SessionState) (code : UInt32)
    (completion : Completion) (d' : Driver) : Prop
  | served {reply : Reply} {session' : SessionState} (success : completion.status = statusSuccess)
      (filled : completion.reply = some reply) (serves : Serves calls session code reply session')
      (represents : Represents d' session')
      (copies : d'.copies = d.copies ∨ code = ioctlPhylaReadRun)
  | refused (failed : ntSuccess completion.status = false) (represents : Represents d' session)
      (context : d'.context = d.context) (copies : d'.copies = d.copies)

theorem phylaEvtIoDeviceControl_completes (represents : Represents d session)
    (completed : phylaEvtIoDeviceControl calls request code d = some (completion, d')) :
    Completes calls d session code completion d' := by
  have outcome := handleDeviceControl_wp calls request represents code
  unfold phylaEvtIoDeviceControl at completed
  cases run : handleDeviceControl calls request code d with
  | ok p e =>
      obtain ⟨session', serves, represents', copies⟩ := outcome.of_ok run
      rw [run] at completed
      cases completed
      exact .served rfl rfl serves represents' copies
  | error fault e =>
      have refused := outcome.of_error run
      rw [run] at completed
      cases fault with
      | hangs => cases completed
      | status status =>
          cases completed
          obtain ⟨failed, represents', context, copies⟩ := refused
          exact .refused failed represents' context copies

theorem phylaSessionBegin_wp (calls : KernelCalls) (pool : d.pool.Sound [])
    (blank : d.context.ranges = none) :
    WP (phylaSessionBegin calls)
      (fun _ d' => ∃ entries, calls.ranges = some entries ∧
        Represents d' (.frozen (tableOf entries)))
      (Refuses d .closed) d := by
  simp only [phylaSessionBegin, WP.bind_iff]
  apply mmGetPhysicalMemoryRanges_wp
  · intro _
    exact (Represents.closed blank pool).refuses rfl
  · intro entries answered
    have sound : (d.pool.allocate entries).Sound [d.pool.next] := pool.allocate
    have live : d.pool.next < (d.pool.allocate entries).next := by
      simp [Pool.next, Pool.allocate]
    have counting := sound.read List.mem_cons_self live
    simp only [WP.bind_iff]
    apply countAt_wp Pool.content?_allocate_next _ trivial
    intro count counted
    simp only [WP.ite_iff, WP.bind_iff, exFreePool_wp, failWith_wp, rangesAt_wp, setContext_wp,
      Pool.content?_read, Pool.content?_allocate_next, Option.getD_some]
    refine ⟨fun _ => ?_, fun _ => ⟨entries, answered, .frozen ⟨rfl, rfl, ?_, counted, ?_, ?_⟩⟩⟩
    · exact ⟨rfl, .closed blank (counting.free List.not_mem_nil live), rfl, rfl⟩
    · exact ⟨entries, Pool.content?_allocate_next, rfl⟩
    · exact phylaSummarizeRanges_eq counted
    · exact counting.read List.mem_cons_self live

/-- A successful creation freezes the table of that moment; a failed one holds nothing. -/
theorem phylaEvtFileCreate_represents {context : PhylaFileContext} {status : NtStatus}
    (created : phylaEvtFileCreate calls { context := context } = some (status, d')) :
    (ntSuccess status = true → ∃ entries, calls.ranges = some entries ∧
      Represents d' (.frozen (tableOf entries))) ∧
    (ntSuccess status = false → Represents d' .closed) := by
  have began := phylaSessionBegin_wp calls (d := { context := {} }) Pool.Sound.empty rfl
  unfold phylaEvtFileCreate at created
  cases begins : phylaSessionBegin calls { context := {} } with
  | ok _ e =>
      rw [begins] at created
      cases created
      exact ⟨fun _ => began.of_ok begins, fun failed => by cases failed⟩
  | error fault e =>
      have stopped := began.of_error begins
      rw [begins] at created
      cases fault with
      | hangs => cases created
      | status status =>
          cases created
          obtain ⟨failed, represents, _, _⟩ := stopped
          refine ⟨fun success => ?_, fun _ => represents⟩
          rw [failed] at success
          cases success

theorem phylaEvtFileCleanup_eq (d : Driver) :
    phylaEvtFileCleanup d =
      { d with
        context := { sessionEnded := true }
        pool := match d.context.ranges with
          | some block => d.pool.free block
          | none => d.pool } := by
  obtain ⟨⟨ranges, _, _, _, _⟩, pool, copies⟩ := d
  cases ranges <;> rfl

theorem phylaEvtFileCleanup_represents (represents : Represents d session) :
    Represents (phylaEvtFileCleanup d) .closed := by
  rw [phylaEvtFileCleanup_eq]
  apply Represents.closed rfl
  cases represents with
  | closed ranges sound =>
      simp only [ranges]
      exact sound
  | frozen holds =>
      simp only [holds.ranges]
      exact holds.sound.free List.not_mem_nil holds.lt_next
  | ended holds =>
      simp only [holds.ranges]
      exact holds.sound.free List.not_mem_nil holds.lt_next

/-- The step lemma: a callback moves the session forward. -/
theorem Driver.step_represents {e : DriverEvent} (represents : Represents d session)
    (once : ∀ calls, e ≠ .fileCreate calls) (stepped : d.step e = some d') :
    ∃ session', session.Advances session' ∧ Represents d' session' := by
  cases e with
  | fileCreate calls => exact (once calls rfl).elim
  | deviceControl calls request code =>
      obtain ⟨⟨completion, d''⟩, completed, rfl⟩ := Option.map_eq_some_iff.mp stepped
      cases phylaEvtIoDeviceControl_completes represents completed with
      | served _ _ serves represents' _ => exact ⟨_, serves.advances, represents'⟩
      | refused _ represents' _ _ => exact ⟨session, .stays session, represents'⟩
  | fileCleanup =>
      obtain rfl := Option.some.inj stepped
      exact ⟨.closed, .closes session, phylaEvtFileCleanup_represents represents⟩
  | fileClose =>
      obtain rfl := Option.some.inj stepped
      exact ⟨session, .stays session, represents⟩

/-- Memory is copied only while a session is frozen. -/
theorem Driver.step_copies {e : DriverEvent} (represents : Represents d session)
    (isOver : d.Over) (once : ∀ calls, e ≠ .fileCreate calls) (stepped : d.step e = some d') :
    d'.copies = d.copies := by
  cases e with
  | fileCreate calls => exact (once calls rfl).elim
  | deviceControl calls request code =>
      obtain ⟨⟨completion, d''⟩, completed, rfl⟩ := Option.map_eq_some_iff.mp stepped
      cases phylaEvtIoDeviceControl_completes represents completed with
      | served _ _ serves _ copies =>
          cases copies with
          | inl same => exact same
          | inr reads =>
              subst reads
              cases serves with
              | readRun => exact (represents.over_iff.mp isOver _ rfl).elim
      | refused _ _ _ copies => exact copies
  | fileCleanup =>
      obtain rfl := Option.some.inj stepped
      rw [phylaEvtFileCleanup_eq]
  | fileClose =>
      obtain rfl := Option.some.inj stepped
      rfl

end Callbacks

/-- In the state and event of `entry`, the request `code` succeeded with this reply. -/
def Succeeds (calls : KernelCalls) (code : UInt32) (reply : Reply)
    (entry : Driver × DriverEvent) : Prop :=
  ∃ request completion d', entry.2 = .deviceControl calls request code ∧
    phylaEvtIoDeviceControl calls request code entry.1 = some (completion, d') ∧
    ntSuccess completion.status = true ∧ completion.reply = some reply

/-- The request `code` succeeded. -/
def Succeeded (code : UInt32) (entry : Driver × DriverEvent) : Prop :=
  ∃ calls request completion d', entry.2 = .deviceControl calls request code ∧
    phylaEvtIoDeviceControl calls request code entry.1 = some (completion, d') ∧
    ntSuccess completion.status = true

/-- The session was ended, or the file object cleaned up. -/
def Finishes (entry : Driver × DriverEvent) : Prop :=
  Succeeded ioctlPhylaEndSession entry ∨ entry.2 = .fileCleanup

/-- The requests that need an open session. -/
def sessionCodes : List UInt32 :=
  [ioctlPhylaQueryInfo, ioctlPhylaGetRanges, ioctlPhylaReadRun, ioctlPhylaEndSession]

/-- No request that needs an open session succeeds, and no memory is copied. -/
def Idle (entry : Driver × DriverEvent) : Prop :=
  (∀ code ∈ sessionCodes, ¬Succeeded code entry) ∧
    ∀ d', entry.1.step entry.2 = some d' → d'.copies = entry.1.copies

/-- What holds of every history of a file object. -/
structure FrozenSession (h : History Driver DriverEvent) : Prop where
  info : ∀ entry ∈ h.past, Succeeded ioctlPhylaQueryInfo entry →
    ∃ calls info, Succeeds calls ioctlPhylaQueryInfo (.queryInfo info) entry ∧
      info.version = phylaProtocolVersion ∧ info.runCount.toNat = (capturedTable h).length ∧
        (info.totalBytes, info.highestPhysicalEnd) = summarizeRanges (capturedTable h) (0, 0)
  ranges : ∀ entry ∈ h.past, Succeeded ioctlPhylaGetRanges entry →
    ∃ calls, Succeeds calls ioctlPhylaGetRanges
      (.ranges ((capturedTable h).map PhysicalMemoryRange.toRun)) entry
  runCount : ∀ block, h.now.context.ranges = some block →
    ∃ entries, h.now.pool.content? block = some entries ∧ tableOf entries = capturedTable h ∧
      h.now.context.runCount.toNat = (tableOf entries).length
  endsOnce : h.past.Pairwise fun a b =>
    Succeeded ioctlPhylaEndSession a → ¬Succeeded ioctlPhylaEndSession b
  report : ∀ entry ∈ h.past, Succeeded ioctlPhylaEndSession entry →
    ∃ calls result current, Succeeds calls ioctlPhylaEndSession (.ended result) entry ∧
      calls.ranges = some current ∧
        (result.topologyChanged = 1 ↔ tableOf current ≠ capturedTable h) ∧
        (result.topologyChanged = 0 ↔ tableOf current = capturedTable h)
  finished : h.past.Pairwise fun a b => Finishes a → Idle b
  refused : ∀ entry ∈ h.past, ∀ calls request code completion d',
    entry.2 = .deviceControl calls request code →
      phylaEvtIoDeviceControl calls request code entry.1 = some (completion, d') →
      ntSuccess completion.status = false → d'.context = entry.1.context
  freedOnce : ∀ block, h.now.pool.log.count (.free block) ≤ 1
  unusedAfterFree : Pool.Safe h.now.pool.log
  freedByCleanup : ∀ entry ∈ h.past, entry.2 = .fileCleanup →
    ∀ block, .allocate block ∈ (phylaEvtFileCleanup entry.1).pool.log →
      .free block ∈ (phylaEvtFileCleanup entry.1).pool.log

section Histories

variable {h : History Driver DriverEvent} {entry : Driver × DriverEvent} {calls : KernelCalls}
  {code : UInt32} {reply : Reply} {session : SessionState}

theorem Succeeds.serves (succeeds : Succeeds calls code reply entry)
    (represents : Represents entry.1 session) :
    ∃ session', Serves calls session code reply session' := by
  obtain ⟨request, completion, d', _, completed, success, filled⟩ := succeeds
  cases phylaEvtIoDeviceControl_completes represents completed with
  | served _ filled' serves _ _ =>
      rw [filled] at filled'
      exact Option.some.inj filled' ▸ ⟨_, serves⟩
  | refused failed _ _ _ =>
      rw [success] at failed
      cases failed

theorem Succeeded.succeeds (succeeded : Succeeded code entry)
    (represents : Represents entry.1 session) : ∃ calls reply, Succeeds calls code reply entry := by
  obtain ⟨calls, request, completion, d', event, completed, success⟩ := succeeded
  cases phylaEvtIoDeviceControl_completes represents completed with
  | served _ filled _ _ _ => exact ⟨calls, _, request, completion, d', event, completed, success, filled⟩
  | refused failed _ _ _ =>
      rw [success] at failed
      cases failed

theorem Serves.frozen {session' : SessionState} (serves : Serves calls session code reply session')
    (needs : code ∈ sessionCodes) : ∃ table, session = .frozen table := by
  cases serves with
  | queryHints => exact absurd needs (by decide)
  | _ => exact ⟨_, rfl⟩

theorem Driver.Over.idle (isOver : entry.1.Over) (represents : Represents entry.1 session)
    (once : ∀ calls, entry.2 ≠ .fileCreate calls) : Idle entry := by
  constructor
  · intro code needs succeeded
    obtain ⟨calls, reply, succeeds⟩ := succeeded.succeeds represents
    obtain ⟨session', serves⟩ := succeeds.serves represents
    obtain ⟨table, frozen⟩ := serves.frozen needs
    exact represents.over_iff.mp isOver table frozen
  · intro d' stepped
    exact Driver.step_copies represents isOver once stepped

/-- After an event that finishes the session it is over. -/
theorem Finishes.isOver {d d' : Driver} {e : DriverEvent} (finishes : Finishes (d, e))
    (represents : Represents d session) (stepped : d.step e = some d') : d'.Over := by
  cases finishes with
  | inl ended =>
      obtain ⟨calls, request, completion, d'', event, completed, success⟩ := ended
      subst event
      obtain ⟨⟨completion', e'⟩, completed', rfl⟩ := Option.map_eq_some_iff.mp stepped
      rw [completed] at completed'
      obtain ⟨rfl, rfl⟩ := Prod.mk.inj (Option.some.inj completed')
      cases phylaEvtIoDeviceControl_completes represents completed with
      | served _ _ serves represents' _ =>
          cases serves with
          | endSession => exact represents'.over_iff.mpr fun _ => SessionState.noConfusion
      | refused failed _ _ _ =>
          rw [success] at failed
          cases failed
  | inr cleanup =>
      subst cleanup
      obtain rfl := Option.some.inj stepped
      exact (phylaEvtFileCleanup_represents represents).over_iff.mpr fun _ =>
        SessionState.noConfusion

/-- The run invariant: in every state after the creation the driver represents a session
about the captured table, and a finished session is over from then on. -/
structure Tracked (h : History Driver DriverEvent) : Prop where
  nonempty : h.past ≠ []
  now : ∃ session, session.About (capturedTable h) ∧ Represents h.now session
  past : ∀ entry ∈ h.past, (∃ calls, entry.2 = .fileCreate calls) ∨
    (∀ calls, entry.2 ≠ .fileCreate calls) ∧
      ∃ session, session.About (capturedTable h) ∧ Represents entry.1 session
  isOver : h.past.Pairwise fun a b => Finishes a → b.1.Over ∧ ∀ calls, b.2 ≠ .fileCreate calls
  overNow : ∀ entry ∈ h.past, Finishes entry → h.now.Over

theorem not_finishes_create {d : Driver} : ¬Finishes (d, .fileCreate calls) := by
  rintro (⟨_, _, _, _, event, _⟩ | event) <;> cases event

theorem capturedTable_snoc (nonempty : h.past ≠ []) (d : Driver) (entry : Driver × DriverEvent) :
    capturedTable ⟨d, h.past ++ [entry]⟩ = capturedTable h := by
  obtain ⟨first, rest, shape⟩ := List.exists_cons_of_ne_nil nonempty
  simp only [capturedTable, shape, List.cons_append, List.head?_cons]

theorem Reached.tracked (reached : Reached h) : Tracked h := by
  induction reached with
  | @create context calls d created =>
      obtain ⟨⟨status, d'⟩, ran, rfl⟩ := Option.map_eq_some_iff.mp created
      refine ⟨List.cons_ne_nil _ _, ?_, ?_, List.pairwise_singleton _ _, ?_⟩
      · obtain ⟨opened, failed⟩ := phylaEvtFileCreate_represents ran
        cases success : ntSuccess status with
        | true =>
            obtain ⟨entries, answered, represents⟩ := opened success
            refine ⟨_, ?_, represents⟩
            simp [SessionState.About, capturedTable, answered]
        | false => exact ⟨.closed, trivial, failed success⟩
      · intro entry member
        exact .inl ⟨calls, by rw [List.mem_singleton.mp member]⟩
      · intro entry member finishes
        rw [List.mem_singleton.mp member] at finishes
        exact (not_finishes_create finishes).elim
  | @next h e d earlier once stepped ih =>
      obtain ⟨session, about, represents⟩ := ih.now
      obtain ⟨session', advances, represents'⟩ := Driver.step_represents represents once stepped
      have same := capturedTable_snoc ih.nonempty d (h.now, e)
      refine ⟨by simp, ?_, ?_, ?_, ?_⟩
      · rw [same]
        exact ⟨session', advances.about about, represents'⟩
      · intro entry member
        rw [same]
        cases List.mem_append.mp member with
        | inl old => exact ih.past entry old
        | inr new =>
            rw [List.mem_singleton.mp new]
            exact .inr ⟨once, session, about, represents⟩
      · apply List.pairwise_append.mpr
        refine ⟨ih.isOver, List.pairwise_singleton _ _, fun a member b last finishes => ?_⟩
        rw [List.mem_singleton.mp last]
        exact ⟨ih.overNow a member finishes, once⟩
      · intro entry member finishes
        cases List.mem_append.mp member with
        | inl old =>
            have isOver := represents.over_iff.mp (ih.overNow entry old finishes)
            exact represents'.over_iff.mpr (advances.unfrozen isOver)
        | inr new =>
            rw [List.mem_singleton.mp new] at finishes
            exact finishes.isOver represents stepped

/-- A past event other than the creation happened in a session about the captured table. -/
theorem Tracked.at_past {e : DriverEvent} {d : Driver} (tracked : Tracked h)
    (member : (d, e) ∈ h.past) (once : ∀ calls, e ≠ .fileCreate calls) :
    ∃ session, session.About (capturedTable h) ∧ Represents d session := by
  cases tracked.past (d, e) member with
  | inl create => exact (once create.choose create.choose_spec).elim
  | inr session => exact session.2

/-- What a successful request says, in terms of the captured table. -/
theorem Tracked.serves (tracked : Tracked h) (member : entry ∈ h.past)
    (succeeded : Succeeded code entry) :
    ∃ calls reply session session', Succeeds calls code reply entry ∧
      session.About (capturedTable h) ∧ Serves calls session code reply session' := by
  obtain ⟨_, request, _, _, event, _⟩ := id succeeded
  have once : ∀ calls, entry.2 ≠ .fileCreate calls := fun calls create => by
    rw [event] at create
    cases create
  obtain ⟨session, about, represents⟩ := tracked.at_past member once
  obtain ⟨calls, reply, succeeds⟩ := succeeded.succeeds represents
  obtain ⟨session', serves⟩ := succeeds.serves represents
  exact ⟨calls, reply, session, session', succeeds, about, serves⟩

theorem Represents.sound {d : Driver} (represents : Represents d session) :
    ∃ held, d.pool.Sound held := by
  cases represents with
  | closed _ sound => exact ⟨_, sound⟩
  | frozen holds => exact ⟨_, holds.sound⟩
  | ended holds => exact ⟨_, holds.sound⟩

/-- Every session of the driver is frozen: whatever the client asks for and however the
machine's table changes, the client sees the table captured at creation, ends the session
at most once, gets nothing afterwards, and every table is released once and in time. -/
theorem session_frozen (h : History Driver DriverEvent) (reached : Reached h) :
    FrozenSession h := by
  have tracked := reached.tracked
  obtain ⟨session, about, represents⟩ := tracked.now
  obtain ⟨held, sound⟩ := represents.sound
  have finished : h.past.Pairwise fun a b => Finishes a → Idle b := by
    refine tracked.isOver.imp_of_mem fun {a b} _ member later finishes => ?_
    obtain ⟨isOver, once⟩ := later finishes
    obtain ⟨_, _, before⟩ := tracked.at_past member once
    exact isOver.idle before once
  refine ⟨?_, ?_, ?_, ?_, ?_, finished, ?_, ?_, sound.safe, ?_⟩
  · intro entry member succeeded
    obtain ⟨calls, _, _, _, succeeds, about, serves⟩ := tracked.serves member succeeded
    generalize same : ioctlPhylaQueryInfo = code at serves
    cases serves with
    | queryInfo version runCount totals =>
        obtain rfl := about
        exact ⟨calls, _, succeeds, version, runCount, totals⟩
    | getRanges | readRun | endSession | queryHints => exact absurd same (by decide)
  · intro entry member succeeded
    obtain ⟨calls, _, _, _, succeeds, about, serves⟩ := tracked.serves member succeeded
    generalize same : ioctlPhylaGetRanges = code at serves
    cases serves with
    | getRanges =>
        obtain rfl := about
        exact ⟨calls, succeeds⟩
    | queryInfo | readRun | endSession | queryHints => exact absurd same (by decide)
  · intro block held
    have table : ∃ table ended other, table = capturedTable h ∧ Holds h.now table ended other := by
      cases represents with
      | closed absent => simp [absent] at held
      | frozen holds => exact ⟨_, _, _, about, holds⟩
      | ended holds => exact ⟨_, _, _, about, holds⟩
    obtain ⟨_, ended, other, rfl, holds⟩ := table
    obtain rfl := Option.some.inj (held.symm.trans holds.ranges)
    obtain ⟨entries, content, captured⟩ := holds.content
    exact ⟨entries, content, captured, captured ▸ holds.runCount⟩
  · refine finished.imp fun idle ended => ?_
    exact (idle (.inl ended)).1 _ (by decide)
  · intro entry member succeeded
    obtain ⟨calls, _, _, _, succeeds, about, serves⟩ := tracked.serves member succeeded
    generalize same : ioctlPhylaEndSession = code at serves
    cases serves with
    | @endSession table current result version answered changed =>
        obtain rfl := about
        refine ⟨calls, result, current, succeeds, answered, ?_⟩
        by_cases same : tableOf current = capturedTable h
        · simp [changed, same]
        · simp [changed, same]
    | queryInfo | getRanges | readRun | queryHints => exact absurd same (by decide)
  · intro entry member calls request code completion d' event completed failed
    have once : ∀ calls, entry.2 ≠ .fileCreate calls := fun calls create => by
      rw [event] at create
      cases create
    obtain ⟨_, _, before⟩ := tracked.at_past member once
    cases phylaEvtIoDeviceControl_completes before completed with
    | served success =>
        rw [success] at failed
        cases failed
    | refused _ _ context _ => exact context
  · intro block
    exact sound.safe.count_free_le_one
  · intro entry member cleanup block allocated
    have once : ∀ calls, entry.2 ≠ .fileCreate calls := fun calls create => by
      rw [cleanup] at create
      cases create
    obtain ⟨_, _, before⟩ := tracked.at_past member once
    cases phylaEvtFileCleanup_represents before with
    | closed _ sound => exact sound.all_freed allocated

end Histories

/-- A kernel at `PASSIVE_LEVEL` that finds no readable memory. -/
def idleKernel (ranges : Option (List PhysicalMemoryRange)) : KernelCalls where
  irql := 0
  ranges := ranges
  copyMemory _ _ := ⟨[], 0, statusNotFound⟩
  hints := ⟨0, 0, 0, 0, 0, 0, 0, 0, 0, 0, 0, 0⟩

/-- The history that continues `h` with the given events. -/
def play : List DriverEvent → History Driver DriverEvent → Option (History Driver DriverEvent)
  | [], h => some h
  | e :: events, h =>
      match h.now.step e with
      | none => none
      | some d => play events ⟨d, h.past ++ [(h.now, e)]⟩

theorem Reached.play {events : List DriverEvent} {h h' : History Driver DriverEvent}
    (reached : Reached h) (once : ∀ e ∈ events, ∀ calls, e ≠ .fileCreate calls)
    (played : PhylaRam.play events h = some h') : Reached h' := by
  induction events generalizing h with
  | nil => exact Option.some.inj played ▸ reached
  | cons e events ih =>
      rw [PhylaRam.play] at played
      cases stepped : h.now.step e with
      | none =>
          rw [stepped] at played
          cases played
      | some d =>
          rw [stepped] at played
          exact ih (.next reached (once e List.mem_cons_self) stepped)
            (fun e member => once e (List.mem_cons_of_mem _ member)) played

/-- Memory is added after the creation: the session still describes and reads its one run, its
first end fails for want of pool, the second reports the change, and the read after it is
refused. -/
def memoryAdded : List DriverEvent :=
  let after := idleKernel (some [⟨0x1000, 0x2000⟩, ⟨0x100000, 0x1000⟩])
  let read := deliver ⟨0, 0x1000, 0x800⟩ sizeofReadRequest 0x1020
  let finish := deliver ⟨0, 0, 0⟩ 0 sizeofEndResult
  [.deviceControl after (deliver ⟨0, 0, 0⟩ 0 sizeofQueryInfo) ioctlPhylaQueryInfo,
    .deviceControl after (deliver ⟨0, 0, 0⟩ 0 sizeofMemoryRun) ioctlPhylaGetRanges,
    .deviceControl after read ioctlPhylaReadRun,
    .deviceControl (idleKernel none) finish ioctlPhylaEndSession,
    .deviceControl after finish ioctlPhylaEndSession,
    .deviceControl after read ioctlPhylaReadRun,
    .fileCleanup]

theorem session_frozen_memory_added :
    ∃ d h, Driver.step (.fileCreate (idleKernel (some [⟨0x1000, 0x2000⟩]))) {} = some d ∧
      play memoryAdded ⟨d, [({}, .fileCreate (idleKernel (some [⟨0x1000, 0x2000⟩])))]⟩ = some h ∧
      h.now.copies.length = 1 ∧ (∃ entry ∈ h.past, Succeeded ioctlPhylaQueryInfo entry) ∧
      (∃ entry ∈ h.past, Succeeded ioctlPhylaGetRanges entry) ∧ FrozenSession h := by
  have once : ∀ e ∈ memoryAdded, ∀ calls, e ≠ .fileCreate calls := by
    simp [memoryAdded]
  refine ⟨_, _, rfl, rfl, rfl, ⟨_, List.getElem_mem (n := 1) (by decide), _, _, _, _, rfl, rfl, rfl⟩,
    ⟨_, List.getElem_mem (n := 2) (by decide), _, _, _, _, rfl, rfl, rfl⟩, session_frozen _ ?_⟩
  have created : Driver.step (.fileCreate (idleKernel (some [⟨0x1000, 0x2000⟩]))) {} = some _ := rfl
  exact (Reached.create created).play once rfl

end PhylaRam
