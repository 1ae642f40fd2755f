import PhylaRam.Driver.Ioctl
import PhylaRam.Driver.Tables

/-!
# What each callback of the driver does to a session

`SessionState` is a session as its client sees it: the table frozen at its start and
whether it has been ended. `Holds` relates it to the context and the pool, `Serves` is
the protocol of the successful requests, and `handleDeviceControl_wp` says that the
driver follows this protocol and that a refused request leaves the session as it was.
-/

namespace PhylaRam

open Program

section Rules

variable {α : Type} {post : α → Driver → Prop} {stop : Fault → Driver → Prop} {d : Driver}
  {status : NtStatus} {calls : KernelCalls} {block : Nat} {entries : List PhysicalMemoryRange}

@[simp] theorem failWith_wp : WP (failWith status) post stop d ↔ stop (.status status) d := Iff.rfl

theorem ntCheck_wp {post : Unit → Driver → Prop} (passed : ntSuccess status = true → post () d)
    (refused : ntSuccess status = false → stop (.status status) d) :
    WP (ntCheck status) post stop d := by
  rw [ntCheck, WP.ite_iff, Bool.not_eq_true]
  exact ⟨passed, refused⟩

@[simp] theorem setContext_wp {post : Unit → Driver → Prop}
    {f : PhylaFileContext → PhylaFileContext} :
    WP (setContext f) post stop d ↔ post () { d with context := f d.context } := Iff.rfl

@[simp] theorem exFreePool_wp {post : Unit → Driver → Prop} :
    WP (exFreePool block) post stop d ↔ post () { d with pool := d.pool.free block } := Iff.rfl

@[simp] theorem rangesAt_wp {post : List PhysicalMemoryRange → Driver → Prop} :
    WP (rangesAt block) post stop d ↔
      post ((d.pool.content? block).getD []) { d with pool := d.pool.read block } := Iff.rfl

theorem mmGetPhysicalMemoryRanges_wp {post : Option Nat → Driver → Prop}
    (failed : calls.ranges = none → post none d)
    (answered : ∀ entries, calls.ranges = some entries →
      post (some d.pool.next) { d with pool := d.pool.allocate entries }) :
    WP (mmGetPhysicalMemoryRanges calls) post stop d := by
  unfold mmGetPhysicalMemoryRanges
  rw [WP.modifyGet_iff]
  cases answer : calls.ranges with
  | none => exact failed answer
  | some entries => exact answered entries answer

theorem countAt_wp {post : UInt32 → Driver → Prop} (content : d.pool.content? block = some entries)
    (counted : ∀ count, count.toNat = (tableOf entries).length →
      post count { d with pool := d.pool.read block })
    (wraps : stop .hangs { d with pool := d.pool.read block }) :
    WP (countAt block) post stop d := by
  rw [countAt, WP.bind_iff, rangesAt_wp, content, Option.getD_some]
  cases total : phylaCountRanges entries 0 with
  | none => exact wraps
  | some count =>
      refine counted count ?_
      rw [phylaCountRanges_spec total, UInt32.toNat_zero, Nat.zero_add]

/-- `Ranges` is set and the session has not been ended. -/
def Driver.Open (d : Driver) (block : Nat) : Prop :=
  d.context.ranges = some block ∧ d.context.sessionEnded = false

theorem openRanges_wp {post : Nat → Driver → Prop} (opened : ∀ block, d.Open block → post block d)
    (refused : (∀ block, ¬d.Open block) → stop (.status statusInvalidDeviceState) d) :
    WP openRanges post stop d := by
  simp only [openRanges, WP.bind_iff, WP.get_iff]
  cases ranges : d.context.ranges with
  | none => exact refused fun block h => by simp [ranges, Driver.Open] at h
  | some block =>
      simp only [WP.ite_iff, WP.pure_iff, failWith_wp]
      refine ⟨fun ended => refused fun other h => ?_, fun open' => opened block ⟨ranges, ?_⟩⟩
      · rw [h.2] at ended
        cases ended
      · exact Bool.eq_false_iff.mpr open'

end Rules

/-- A session as its client sees it. -/
inductive SessionState
  | closed
  | frozen (table : List PhysicalMemoryRange)
  | ended (table : List PhysicalMemoryRange)
deriving DecidableEq

/-- The driver holds `table` at `block`, and nothing else. -/
structure Holds (d : Driver) (table : List PhysicalMemoryRange) (ended : Bool) (block : Nat) :
    Prop where
  ranges : d.context.ranges = some block
  flag : d.context.sessionEnded = ended
  content : ∃ entries, d.pool.content? block = some entries ∧ tableOf entries = table
  runCount : d.context.runCount.toNat = table.length
  totals : (d.context.totalBytes, d.context.highestPhysicalEnd) = summarizeRanges table (0, 0)
  sound : d.pool.Sound [block]

inductive Represents (d : Driver) : SessionState → Prop
  | closed (ranges : d.context.ranges = none) (sound : d.pool.Sound []) : Represents d .closed
  | frozen {table : List PhysicalMemoryRange} {block : Nat} (holds : Holds d table false block) :
      Represents d (.frozen table)
  | ended {table : List PhysicalMemoryRange} {block : Nat} (holds : Holds d table true block) :
      Represents d (.ended table)

section Frames

variable {d : Driver} {table : List PhysicalMemoryRange} {ended : Bool} {block : Nat}

theorem Holds.lt_next (holds : Holds d table ended block) : block < d.pool.next := by
  obtain ⟨entries, content, _⟩ := holds.content
  exact Pool.lt_next_of_content content

/-- Reading the table keeps it. -/
theorem Holds.read (holds : Holds d table ended block) :
    Holds { d with pool := d.pool.read block } table ended block :=
  { holds with sound := holds.sound.read List.mem_cons_self holds.lt_next }

theorem Holds.copies (holds : Holds d table ended block) (copies : List MemoryCopy) :
    Holds { d with copies := copies } table ended block :=
  ⟨holds.ranges, holds.flag, holds.content, holds.runCount, holds.totals, holds.sound⟩

theorem Holds.open_block {other : Nat} (holds : Holds d table ended block) (h : d.Open other) :
    other = block ∧ ended = false :=
  ⟨Option.some.inj (h.1.symm.trans holds.ranges), holds.flag.symm.trans h.2⟩

theorem Represents.of_open {session : SessionState} (represents : Represents d session)
    (h : d.Open block) : ∃ table, session = .frozen table ∧ Holds d table false block := by
  cases represents with
  | closed ranges sound =>
      have absent := h.1
      rw [ranges] at absent
      cases absent
  | frozen holds =>
      obtain ⟨rfl, -⟩ := holds.open_block h
      exact ⟨_, rfl, holds⟩
  | ended holds => cases (holds.open_block h).2

theorem Represents.frozen_open (represents : Represents d (.frozen table)) :
    ∃ block, d.Open block ∧ Holds d table false block := by
  cases represents with
  | frozen holds => exact ⟨_, ⟨holds.ranges, holds.flag⟩, holds⟩

end Frames

def PhysicalMemoryRange.toRun (range : PhysicalMemoryRange) : PhylaMemoryRun :=
  ⟨range.baseAddress, range.numberOfBytes⟩

/-- The successful requests: the session before, the control code, the reply, the session
after. -/
inductive Serves (calls : KernelCalls) :
    SessionState → UInt32 → Reply → SessionState → Prop
  | queryInfo {table : List PhysicalMemoryRange} {info : PhylaQueryInfo}
      (version : info.version = phylaProtocolVersion)
      (runCount : info.runCount.toNat = table.length)
      (totals : (info.totalBytes, info.highestPhysicalEnd) = summarizeRanges table (0, 0)) :
      Serves calls (.frozen table) ioctlPhylaQueryInfo (.queryInfo info) (.frozen table)
  | getRanges {table : List PhysicalMemoryRange} :
      Serves calls (.frozen table) ioctlPhylaGetRanges
        (.ranges (table.map PhysicalMemoryRange.toRun)) (.frozen table)
  | readRun {table : List PhysicalMemoryRange} {result : PhylaReadResult} {payload : List Byte} :
      Serves calls (.frozen table) ioctlPhylaReadRun (.readRun result payload) (.frozen table)
  | endSession {table current : List PhysicalMemoryRange} {result : PhylaEndResult}
      (version : result.version = phylaProtocolVersion) (answered : calls.ranges = some current)
      (changed : result.topologyChanged = if tableOf current = table then 0 else 1) :
      Serves calls (.frozen table) ioctlPhylaEndSession (.ended result) (.ended table)
  | queryHints {session : SessionState} {hints : PhylaKernelHints} :
      Serves calls session ioctlPhylaQueryHints (.hints hints) session

/-- A refused request has an error status and changes neither the session nor the context,
and reads no memory. -/
def Refuses (d : Driver) (session : SessionState) : Fault → Driver → Prop
  | .hangs, _ => True
  | .status status, d' =>
      ntSuccess status = false ∧ Represents d' session ∧ d'.context = d.context ∧
        d'.copies = d.copies

theorem Represents.refuses {d : Driver} {session : SessionState} {status : NtStatus}
    (represents : Represents d session) (failed : ntSuccess status = false) :
    Refuses d session (.status status) d :=
  ⟨failed, represents, rfl, rfl⟩

section Handlers

variable {d : Driver} {session : SessionState} {calls : KernelCalls} {request : WdfRequest}

theorem requestFileContext_wp {post : Unit → Driver → Prop} (represents : Represents d session)
    (present : request.fileObject = true → post () d) :
    WP (requestFileContext request) post (Refuses d session) d := by
  rw [requestFileContext, WP.ite_iff]
  exact ⟨present, fun _ => represents.refuses rfl⟩

theorem phylaHandleQueryInfo_wp (calls : KernelCalls) (represents : Represents d session) :
    WP (phylaHandleQueryInfo request)
      (fun p d' => d' = d ∧ Serves calls session ioctlPhylaQueryInfo p.1 session)
      (Refuses d session) d := by
  simp only [phylaHandleQueryInfo, WP.bind_iff]
  apply requestFileContext_wp represents
  intro _
  apply openRanges_wp _ (fun _ => represents.refuses rfl)
  intro block opened
  obtain ⟨table, rfl, holds⟩ := represents.of_open opened
  simp only [WP.ite_iff, WP.bind_iff, failWith_wp]
  refine ⟨fun _ => represents.refuses rfl, fun _ => ?_⟩
  apply ntCheck_wp _ (fun failed => represents.refuses failed)
  intro _
  exact ⟨rfl, .queryInfo rfl holds.runCount holds.totals⟩

theorem phylaHandleGetRanges_wp (calls : KernelCalls) (represents : Represents d session) :
    WP (phylaHandleGetRanges request)
      (fun p d' => Represents d' session ∧ d'.copies = d.copies ∧
        Serves calls session ioctlPhylaGetRanges p.1 session)
      (Refuses d session) d := by
  simp only [phylaHandleGetRanges, WP.bind_iff]
  apply requestFileContext_wp represents
  intro _
  apply openRanges_wp _ (fun _ => represents.refuses rfl)
  intro block opened
  obtain ⟨table, rfl, holds⟩ := represents.of_open opened
  simp only [WP.get_iff, WP.ite_iff, WP.bind_iff, failWith_wp]
  refine ⟨fun _ => represents.refuses rfl, fun _ => ⟨fun _ => represents.refuses rfl, fun _ => ?_⟩⟩
  apply ntCheck_wp _ (fun failed => represents.refuses failed)
  intro _
  obtain ⟨entries, content, captured⟩ := holds.content
  have counted : d.context.runCount.toNat = (tableOf entries).length :=
    captured ▸ holds.runCount
  rw [rangesAt_wp, content, Option.getD_some, WP.pure_iff]
  refine ⟨.frozen holds.read, rfl, ?_⟩
  have runs := map_entryAt PhysicalMemoryRange.toRun counted
  rw [captured] at runs
  exact runs ▸ .getRanges

/-- The conditions under which `PhylaCopyRun` copies. -/
structure AcceptsRead (calls : KernelCalls) (context : PhylaFileContext)
    (run : PhysicalMemoryRange) (request : PhylaReadRequest) (payloadCapacity : UInt32) : Prop where
  irql : ¬calls.irql > apcLevel
  valid : requestInvalid context request payloadCapacity = false
  within : requestOutside run.baseAddress run.numberOfBytes request = false

/-- The address that a request names. -/
def readAddress (run : PhysicalMemoryRange) (request : PhylaReadRequest) : UInt64 :=
  run.baseAddress + request.offsetWithinRun

/-- The header of a reply. -/
def readHeader (calls : KernelCalls) (run : PhysicalMemoryRange) (request : PhylaReadRequest) :
    PhylaReadResult :=
  let transfer := calls.copyMemory (readAddress run request) request.length
  { version := phylaProtocolVersion
    headerSize := sizeofReadResult
    physicalAddress := readAddress run request
    requestedLength := request.length
    bytesCopied := (if transfer.copied > maxUlong then maxUlong else transfer.copied).toUInt32
    copyStatus := transfer.status }

/-- The driver after a copy from the table at `block`. -/
def afterCopy (calls : KernelCalls) (run : PhysicalMemoryRange) (request : PhylaReadRequest)
    (block : Nat) (d : Driver) : Driver :=
  { d with
    pool := d.pool.read block
    copies := d.copies ++ [⟨readAddress run request, request.length,
      calls.copyMemory (readAddress run request) request.length⟩] }

theorem phylaCopyRun_wp {input : PhylaReadRequest} {payloadCapacity : UInt32}
    (represents : Represents d session) :
    WP (phylaCopyRun calls input payloadCapacity)
      (fun p d' => ∃ table block entries, session = .frozen table ∧ Holds d table false block ∧
        d.pool.content? block = some entries ∧
        AcceptsRead calls d.context (entryAt entries input.runIndex) input payloadCapacity ∧
        p = (readHeader calls (entryAt entries input.runIndex) input,
          (calls.copyMemory (readAddress (entryAt entries input.runIndex) input)
            input.length).bytes) ∧
        d' = afterCopy calls (entryAt entries input.runIndex) input block d)
      (Refuses d session) d := by
  simp only [phylaCopyRun, WP.ite_iff, WP.bind_iff, failWith_wp]
  refine ⟨fun _ => represents.refuses rfl, fun irql => ?_⟩
  apply openRanges_wp _ (fun _ => represents.refuses rfl)
  intro block opened
  obtain ⟨table, rfl, holds⟩ := represents.of_open opened
  obtain ⟨entries, content, captured⟩ := holds.content
  simp only [WP.get_iff, rangesAt_wp, content, Option.getD_some, Bool.not_eq_true]
  refine ⟨fun _ => represents.refuses rfl, fun valid => ⟨fun _ => ?_, fun within => ?_⟩⟩
  · exact ⟨rfl, .frozen holds.read, rfl, rfl⟩
  · exact ⟨table, block, entries, rfl, holds, content, ⟨irql, valid, within⟩, rfl, rfl⟩

/-- An acceptable request is served. -/
theorem phylaCopyRun_accepts {input : PhylaReadRequest} {payloadCapacity : UInt32}
    {table entries : List PhysicalMemoryRange} {block : Nat} (holds : Holds d table false block)
    (content : d.pool.content? block = some entries)
    (accepts : AcceptsRead calls d.context (entryAt entries input.runIndex) input
      payloadCapacity) :
    WP (phylaCopyRun calls input payloadCapacity)
      (fun p d' => p = (readHeader calls (entryAt entries input.runIndex) input,
          (calls.copyMemory (readAddress (entryAt entries input.runIndex) input)
            input.length).bytes) ∧
        d' = afterCopy calls (entryAt entries input.runIndex) input block d)
      (fun _ _ => False) d := by
  simp only [phylaCopyRun, WP.ite_iff, WP.bind_iff, failWith_wp]
  refine ⟨fun high => accepts.irql high, fun _ => ?_⟩
  apply openRanges_wp
  · intro other opened
    obtain ⟨rfl, -⟩ := holds.open_block opened
    simp only [WP.get_iff, rangesAt_wp, content, Option.getD_some, accepts.valid, accepts.within]
    exact ⟨Bool.noConfusion, fun _ => ⟨Bool.noConfusion, fun _ => ⟨rfl, rfl⟩⟩⟩
  · intro closed
    exact closed block ⟨holds.ranges, holds.flag⟩

theorem phylaHandleReadRun_wp (represents : Represents d session) :
    WP (phylaHandleReadRun calls request)
      (fun p d' => Represents d' session ∧ Serves calls session ioctlPhylaReadRun p.1 session)
      (Refuses d session) d := by
  simp only [phylaHandleReadRun, WP.bind_iff]
  apply requestFileContext_wp represents
  intro _
  apply openRanges_wp _ (fun _ => represents.refuses rfl)
  intro _ _
  apply ntCheck_wp _ (fun failed => represents.refuses failed)
  intro _
  apply ntCheck_wp _ (fun failed => represents.refuses failed)
  intro _
  cases request.outputMdl.2 with
  | none => exact represents.refuses rfl
  | some mdl =>
      simp only [WP.ite_iff, WP.bind_iff, failWith_wp]
      refine ⟨fun _ => represents.refuses rfl,
        fun _ => ⟨fun _ => represents.refuses rfl, fun _ => ?_⟩⟩
      refine (phylaCopyRun_wp represents).mono ?_ (fun _ _ refused => refused)
      rintro _ _ ⟨table, block, entries, rfl, holds, _, _, rfl, rfl⟩
      exact ⟨.frozen (holds.read.copies _), .readRun⟩

/-- The pool while `PhylaSessionEnd` holds the captured and the present table. -/
theorem Holds.allocate {table : List PhysicalMemoryRange} {ended : Bool} {block : Nat}
    (holds : Holds d table ended block) (entries : List PhysicalMemoryRange) :
    (d.pool.allocate entries).Sound [d.pool.next, block] ∧
      (d.pool.allocate entries).content? block = d.pool.content? block ∧
      block ≠ d.pool.next :=
  ⟨holds.sound.allocate, Pool.content?_allocate_of_lt holds.lt_next, Nat.ne_of_lt holds.lt_next⟩

theorem phylaSessionEnd_wp (represents : Represents d session) :
    WP (phylaSessionEnd calls)
      (fun p d' => ∃ table current, session = .frozen table ∧ calls.ranges = some current ∧
        (p.1 = true ↔ tableOf current ≠ table) ∧ Represents d' (.ended table) ∧
        d'.copies = d.copies)
      (Refuses d session) d := by
  simp only [phylaSessionEnd, WP.bind_iff]
  apply openRanges_wp _ (fun _ => represents.refuses rfl)
  intro block opened
  obtain ⟨table, rfl, holds⟩ := represents.of_open opened
  apply mmGetPhysicalMemoryRanges_wp
  · intro _
    exact represents.refuses rfl
  · intro current answered
    obtain ⟨entries, content, captured⟩ := holds.content
    obtain ⟨sound, kept, apart⟩ := holds.allocate current
    simp only [WP.bind_iff]
    apply countAt_wp Pool.content?_allocate_next _ trivial
    intro count counted
    have later : d.pool.next < (d.pool.allocate current).next := by
      simp [Pool.next, Pool.allocate]
    have known : block < (d.pool.allocate current).next := Nat.lt_trans holds.lt_next later
    simp only [rangesAt_wp, WP.get_iff, exFreePool_wp, setContext_wp, WP.pure_iff,
      Pool.content?_read, kept, content, Pool.content?_allocate_next, Option.getD_some]
    refine ⟨table, current, rfl, answered, ?_, .ended ⟨holds.ranges, rfl, ?_, holds.runCount,
      holds.totals, ?_⟩, trivial⟩
    · have runCount : d.context.runCount.toNat = (tableOf entries).length :=
        captured ▸ holds.runCount
      rw [Bool.not_eq_true', Bool.eq_false_iff, Ne, phylaRangesEqual_iff runCount counted,
        captured, eq_comm]
    · refine ⟨entries, ?_, captured⟩
      rw [Pool.content?_free_of_ne apart]
      exact kept.trans content
    · have readAll := ((sound.read List.mem_cons_self later).read
        (List.mem_cons_of_mem _ List.mem_cons_self) known).read List.mem_cons_self later
      exact readAll.free (by simpa using apart.symm) later

theorem phylaHandleEndSession_wp (represents : Represents d session) :
    WP (phylaHandleEndSession calls request)
      (fun p d' => ∃ session', Serves calls session ioctlPhylaEndSession p.1 session' ∧
        Represents d' session' ∧ d'.copies = d.copies)
      (Refuses d session) d := by
  simp only [phylaHandleEndSession, WP.bind_iff]
  apply requestFileContext_wp represents
  intro _
  simp only [WP.ite_iff, WP.bind_iff, failWith_wp]
  refine ⟨fun _ => represents.refuses rfl, fun _ => ?_⟩
  apply ntCheck_wp _ (fun failed => represents.refuses failed)
  intro _
  refine (phylaSessionEnd_wp represents).mono ?_ (fun _ _ refused => refused)
  rintro ⟨changed, count⟩ d' ⟨table, current, rfl, answered, report, represents', copies⟩
  refine ⟨.ended table, .endSession rfl answered ?_, represents', copies⟩
  by_cases same : tableOf current = table
  · have unchanged : changed = false :=
      Bool.eq_false_iff.mpr fun h => report.mp h same
    rw [if_pos same, unchanged]
    rfl
  · rw [if_neg same, report.mpr same]
    rfl

theorem phylaHandleQueryHints_wp (represents : Represents d session) :
    WP (phylaHandleQueryHints calls request)
      (fun p d' => d' = d ∧ Serves calls session ioctlPhylaQueryHints p.1 session)
      (Refuses d session) d := by
  simp only [phylaHandleQueryHints, WP.ite_iff, WP.bind_iff, failWith_wp]
  refine ⟨fun _ => represents.refuses rfl, fun _ => ?_⟩
  apply ntCheck_wp _ (fun failed => represents.refuses failed)
  intro _
  exact ⟨rfl, .queryHints⟩

/-- The driver follows the protocol. Memory is copied by successful reads only. -/
theorem handleDeviceControl_wp (calls : KernelCalls) (request : WdfRequest)
    (represents : Represents d session) (code : UInt32) :
    WP (handleDeviceControl calls request code)
      (fun p d' => ∃ session', Serves calls session code p.1 session' ∧
        Represents d' session' ∧ (d'.copies = d.copies ∨ code = ioctlPhylaReadRun))
      (Refuses d session) d := by
  simp only [handleDeviceControl, WP.ite_iff]
  refine ⟨?_, fun _ => ⟨?_, fun _ => ⟨?_, fun _ => ⟨?_, fun _ => ⟨?_, fun _ => ?_⟩⟩⟩⟩⟩
  · rintro rfl
    refine (phylaHandleQueryInfo_wp calls represents).mono ?_ (fun _ _ refused => refused)
    rintro _ _ ⟨rfl, serves⟩
    exact ⟨session, serves, represents, .inl rfl⟩
  · rintro rfl
    refine (phylaHandleGetRanges_wp calls represents).mono ?_ (fun _ _ refused => refused)
    rintro _ _ ⟨represents', copies, serves⟩
    exact ⟨session, serves, represents', .inl copies⟩
  · rintro rfl
    refine (phylaHandleReadRun_wp represents).mono ?_ (fun _ _ refused => refused)
    rintro _ _ ⟨represents', serves⟩
    exact ⟨session, serves, represents', .inr rfl⟩
  · rintro rfl
    refine (phylaHandleEndSession_wp represents).mono ?_ (fun _ _ refused => refused)
    rintro _ _ ⟨session', serves, represents', copies⟩
    exact ⟨session', serves, represents', .inl copies⟩
  · rintro rfl
    refine (phylaHandleQueryHints_wp represents).mono ?_ (fun _ _ refused => refused)
    rintro _ _ ⟨rfl, serves⟩
    exact ⟨session, serves, represents, .inl rfl⟩
  · exact represents.refuses rfl

end Handlers

end PhylaRam
