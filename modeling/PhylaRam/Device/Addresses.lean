import PhylaRam.Acquire.Maintain
import PhylaRam.Device.Rules
import PhylaRam.Writer.RawImage

/-!
# Addresses across the driver protocol

The client sorts the table by address; the driver indexes it as the machine reported it.
The engine, the client and the driver are put together here: whatever the driver manages
to copy, each byte of the RAW file comes from the physical address of its offset.
-/

namespace PhylaRam

open Program

namespace RawWriter

/-- However a `WriteAt` ends, it stored parts of the buffer where they belong. -/
theorem writeAt_stores (offset : UInt64) (data : List Byte) (s : RawWriter × World) :
    ∃ path, Runs (Stores path offset.toNat data) s.2 (rawWriter.writeAt offset data s).2.2 := by
  cases opened : s.1.file with
  | none =>
      refine ⟨[],
        WP.final (P := fun (t : RawWriter × World) => Runs (Stores [] offset.toNat data) s.2 t.2) ?_⟩
      simp only [writeAt, WP.bind_iff, WP.get_iff, opened]
      exact .refl
  | some file =>
      refine ⟨file.path,
        WP.final (P := fun (t : RawWriter × World) => Runs (Stores file.path offset.toNat data) s.2 t.2) ?_⟩
      simp only [writeAt, WP.bind_iff, WP.get_iff, opened, WP.ite_iff, refuse_wp]
      refine ⟨fun _ => .refl, fun _ => ⟨fun _ => .refl, fun _ => ?_⟩⟩
      rw [writeData, WP.bind_iff]
      apply seekFile_wp opened
      · rw [if_pos rfl, WP.bind_iff, onFile_wp rfl]
        have loop := writeLoop_spec kWriteChunkBytes { file with position := offset.toNat } data
          s.2.enter
        have stored := s.2.enter_runs.trans loop.stores
        rw [WP.ite_iff]
        exact ⟨fun _ => stored, fun _ => stored⟩
      · intro error
        rw [if_neg Bool.false_ne_true]
        exact s.2.failed_runs error

end RawWriter

section EndToEnd

variable {η κ : Type} (machine : Machine) (hasher : IHasher η) (environment : Environment κ)
  (config : AcquisitionConfig)

abbrev CaptureState (η κ : Type) := AcquireState DeviceSession (RawWriter × World) η κ

/-- The engine with the driver behind it and a RAW file in front. -/
abbrev rawCapture : Collaborators DeviceSession (RawWriter × World) η κ :=
  ⟨deviceSession machine, rawWriter, hasher, environment, config⟩

/-- Every reply so far is what the driver copied from the run that was asked for. -/
def RepliesTrue (table : List PhysicalMemoryRange) (s : CaptureState η κ) : Prop :=
  ∀ runIndex offset length reply, .read runIndex offset length reply ∈ s.calls →
    ∃ r range, reply = some r ∧ table[runIndex.toNat]? = some range ∧
      r.Valid (range.baseAddress + offset) length ∧
      ∀ i byte, r.data[i]? = some byte →
        Transferred s.device.driver.now.copies (r.physicalAddress.toNat + i) byte

/-- Every byte that was written since `world` was copied from the address of its offset. -/
def WritesTrue (world : World) (s : CaptureState η κ) : Prop :=
  ∃ more, s.writer.2.files.past = world.files.past ++ more ∧
    ∀ entry ∈ more, ∀ path offset data, entry.2 = .write path offset data →
      ∀ i byte, data[i]? = some byte →
        Transferred s.device.driver.now.copies (offset + i) byte

variable {machine hasher environment config} {table : List PhysicalMemoryRange} {world : World}
  {s t : CaptureState η κ}

theorem RepliesTrue.later (h : RepliesTrue table s) (later : Later s.device t.device)
    (calls : ∀ runIndex offset length reply, .read runIndex offset length reply ∈ t.calls →
      .read runIndex offset length reply ∈ s.calls) : RepliesTrue table t := by
  intro runIndex offset length reply member
  obtain ⟨r, range, answered, entry, valid, copied⟩ := h _ _ _ _ (calls _ _ _ _ member)
  exact ⟨r, range, answered, entry, valid, fun i byte found => later.transferred (copied i byte found)⟩

theorem WritesTrue.later (h : WritesTrue world s) (later : Later s.device t.device)
    (writer : t.writer = s.writer) : WritesTrue world t := by
  obtain ⟨more, past, written⟩ := h
  refine ⟨more, writer ▸ past, ?_⟩
  intro entry member path offset data event i byte found
  exact later.transferred (written entry member path offset data event i byte found)

/-- The invariant of a capture while the session is open. -/
structure Faithful (table : List PhysicalMemoryRange) (world : World) (s : CaptureState η κ) :
    Prop where
  session : InSession table s.device
  replies : RepliesTrue table s
  writes : WritesTrue world s

/-- What is left of it in the end. -/
structure FaithfulRecord (table : List PhysicalMemoryRange) (world : World)
    (s : CaptureState η κ) : Prop where
  session : Recorded table s.device
  replies : RepliesTrue table s
  writes : WritesTrue world s

theorem Unobserved.reads (unobserved : Unobserved s t) {runIndex : UInt32} {offset : UInt64}
    {length : UInt32} {reply : Option ReadResult}
    (member : .read runIndex offset length reply ∈ t.calls) :
    .read runIndex offset length reply ∈ s.calls := by
  obtain ⟨quiet, silent, calls⟩ := unobserved.calls
  rw [calls] at member
  cases List.mem_append.mp member with
  | inl old => exact old
  | inr new => exact (silent _ new).elim

theorem Unobserved.later (unobserved : Unobserved s t) : Later s.device t.device := by
  rw [unobserved.device]
  exact .refl _

theorem Faithful.observes : Observes (Faithful (η := η) (κ := κ) table world) := by
  intro s t unobserved h
  refine ⟨unobserved.device ▸ h.session, ?_, ?_⟩
  · exact h.replies.later unobserved.later fun _ _ _ _ => unobserved.reads
  · exact h.writes.later unobserved.later unobserved.writer

theorem FaithfulRecord.observes : Observes (FaithfulRecord (η := η) (κ := κ) table world) := by
  intro s t unobserved h
  refine ⟨unobserved.device ▸ h.session, ?_, ?_⟩
  · exact h.replies.later unobserved.later fun _ _ _ _ => unobserved.reads
  · exact h.writes.later unobserved.later unobserved.writer

/-- A request of the engine is answered, and answered truthfully. -/
theorem Faithful.read (delivers : machine.Delivers) {topology : Topology}
    (describes : Describes table topology) {run : MemoryRun} (member : run ∈ topology.runs)
    {requested : UInt32} (request : Request run s requested) (h : Faithful table world s) :
    Faithful table world (afterRead (rawCapture machine hasher environment config) run requested s) := by
  obtain ⟨range, entry, base, length⟩ := describes.entry member
  have valid := describes.valid run member
  have within := request.within
  have fits := valid.fits
  rw [length] at within fits
  rw [base] at fits
  have answer := method_cases (read_wp delivers h.session.continues entry
    request.positive request.bounded within fits)
  have answered : ∃ r,
      ((deviceSession machine).read run.driverIndex s.offsetWithinRun requested s.device).1 =
        some r ∧ Continues table s.device
          ((deviceSession machine).read run.driverIndex s.offsetWithinRun requested s.device).2 ∧
      r.Valid (range.baseAddress + s.offsetWithinRun) requested ∧
      ∀ i byte, r.data[i]? = some byte → Transferred
        ((deviceSession machine).read run.driverIndex s.offsetWithinRun requested
          s.device).2.driver.now.copies (r.physicalAddress.toNat + i) byte := by
    cases answer with
    | inl some => exact some
    | inr none => exact none.2.elim
  obtain ⟨r, reply, continues, accepted, copied⟩ := answered
  refine ⟨continues.session, ?_, h.writes.later continues.later rfl⟩
  intro runIndex offset length reply' listed
  cases List.mem_append.mp listed with
  | inl old =>
      obtain ⟨r', range', answered', entry', valid', copied'⟩ := h.replies _ _ _ _ old
      exact ⟨r', range', answered', entry', valid', fun i byte found =>
        continues.later.transferred (copied' i byte found)⟩
  | inr new =>
      cases List.mem_singleton.mp new
      exact ⟨r, range, reply, entry, accepted, copied⟩

/-- A write of what was received stores bytes of memory at their addresses. -/
theorem Faithful.write {runIndex length : UInt32} {offset : UInt64} {r : ReadResult}
    (h : Faithful table world s) (received : .read runIndex offset length (some r) ∈ s.calls) :
    Faithful table world
      (afterWrite (rawCapture machine hasher environment config) r.physicalAddress r.data s) := by
  obtain ⟨r', range, same, entry, valid, copied⟩ := h.replies _ _ _ _ received
  obtain rfl := Option.some.inj same
  obtain ⟨path, runs⟩ := RawWriter.writeAt_stores r.physicalAddress r.data s.writer
  obtain ⟨more, past, stored⟩ := runs.past
  obtain ⟨before, began, written⟩ := h.writes
  refine ⟨h.session, h.replies.later (.refl _) fun _ _ _ _ listed => ?_, before ++ more, ?_, ?_⟩
  · cases List.mem_append.mp listed with
    | inl old => exact old
    | inr new => cases List.mem_singleton.mp new
  · change (rawWriter.writeAt r.physicalAddress r.data s.writer).2.2.files.past = _
    rw [past, began, List.append_assoc]
  · intro entry member path' start data event i byte found
    cases List.mem_append.mp member with
    | inl old => exact written entry old path' start data event i byte found
    | inr new =>
        have allowed := stored entry new
        rw [event] at allowed
        cases allowed with
        | inl stores =>
            cases stores with
            | write skip count =>
                rw [List.getElem?_take, List.getElem?_drop] at found
                split at found
                · rw [Nat.add_assoc]
                  exact copied (skip + i) byte found
                · cases found
        | inr intrusion =>
            obtain ⟨_, _, event', _⟩ := intrusion
            cases event'

/-- The engine keeps the invariant on the runs of a topology that `Query` accepted. -/
theorem Faithful.maintains (delivers : machine.Delivers) {topology : Topology}
    (describes : Describes table topology) :
    Maintains (rawCapture machine hasher environment config) topology.runs
      (Faithful table world) := by
  refine ⟨Faithful.observes, ?_, ?_⟩
  · intro run member _ s requested request h
    exact h.read delivers describes member request
  · intro s runIndex offset length r h received _ _
    exact h.write received

theorem Faithful.record (h : Faithful table world s) : FaithfulRecord table world s :=
  ⟨h.session.toRecorded, h.replies, h.writes⟩

/-- Only the device has changed, and the session goes on. -/
theorem Faithful.continues (h : Faithful table world s) {device : DeviceSession}
    (continues : Continues table s.device device) :
    Faithful table world { s with device := device } :=
  ⟨continues.session, h.replies.later continues.later fun _ _ _ _ => id,
    h.writes.later continues.later rfl⟩

theorem Faithful.queried (machine : Machine) (h : Faithful table world s) :
    Faithful table world { s with device := ((deviceSession machine).query s.device).2 } := by
  cases method_cases (query_wp machine h.session) with
  | inl accepted =>
      obtain ⟨_, _, continues, _⟩ := accepted
      exact h.continues continues
  | inr refused => exact h.continues refused.2

theorem Faithful.describes (h : Faithful table world s) {topology : Topology}
    (asked : ((deviceSession machine).query s.device).1 = some topology) :
    Describes table topology := by
  cases method_cases (query_wp machine h.session) with
  | inl accepted =>
      obtain ⟨topology', same, _, describes⟩ := accepted
      exact Option.some.inj (same.symm.trans asked) ▸ describes
  | inr refused => cases refused.1.symm.trans asked

theorem Faithful.begun (h : Faithful table world s) (topology : Topology) :
    Faithful table world
      (afterQuery (rawCapture machine hasher environment config) topology s) := by
  have queried := h.queried machine
  have hinted : Faithful table world { s with
      device := (DeviceSession.method (DeviceSession.queryHints machine)
        ((deviceSession machine).query s.device).2).2 } := by
    cases method_cases (queryHints_wp machine queried.session) with
    | inl available =>
        obtain ⟨_, _, continues⟩ := available
        exact queried.continues continues
    | inr unavailable => exact queried.continues unavailable.2
  refine Faithful.observes _ _ ?_ hinted
  exact .of_eq rfl rfl rfl

theorem Faithful.ended (h : Faithful table world s) :
    FaithfulRecord table world
      { s with device := ((deviceSession machine).endSession s.device).2 } := by
  have finished : Recorded table ((deviceSession machine).endSession s.device).2 ∧
      Later s.device ((deviceSession machine).endSession s.device).2 := by
    cases method_cases (deviceEndSession_wp machine h.session) with
    | inl ended =>
        obtain ⟨_, _, record⟩ := ended
        exact record
    | inr failed => exact failed.2
  exact ⟨finished.1, h.replies.later finished.2 fun _ _ _ _ => id, h.writes.later finished.2 rfl⟩

/-- After a successful `Open`, whatever table the machine reports and whatever the driver
copies: every `READ_RUN` of `Acquire` passes the checks of the driver, every reply passes
those of the client and the engine, and every byte written to the RAW file is a byte that
the driver copied from the physical address of its offset. -/
theorem acquire_preserves_addresses (delivers : machine.Delivers) (s : CaptureState η κ)
    (opened : ((deviceSession machine).openSession {}) = (true, s.device)) (calls : s.calls = []) :
    let t := final (acquire (rawCapture machine hasher environment config) s)
    let table := capturedTable s.device.driver
    capturedTable t.device.driver = table ∧
      (∀ entry ∈ t.device.driver.past, ReadAccepted table entry) ∧
      RepliesTrue table t ∧ WritesTrue s.writer.2 t := by
  intro t table
  have session : InSession table s.device := openDevice_inSession opened
  have replies : RepliesTrue table s := by
    intro runIndex offset length reply member
    rw [calls] at member
    cases member
  have writes : WritesTrue s.writer.2 s := ⟨[], (List.append_nil _).symm, by simp⟩
  have start : Faithful table s.writer.2 s := ⟨session, replies, writes⟩
  have record : FaithfulRecord table s.writer.2 t := by
    apply WP.final
    apply acquire_maintains (I := Faithful table s.writer.2) _ FaithfulRecord.observes
    · exact fun u h => h.record
    · exact (start.queried machine).record
    · intro topology asked
      exact ⟨Faithful.maintains delivers (start.describes asked), start.begun topology⟩
    · exact fun u h => h.ended
  exact ⟨record.session.captured, record.session.accepted, record.replies, record.writes⟩

end EndToEnd

/-- A machine that reports its two runs in descending order and copies at most three bytes
at a time, each equal to the low byte of its address. -/
def hesitantMachine : Machine where
  kernel _ :=
    { irql := 0
      ranges := some [⟨0x30, 8⟩, ⟨0x11, 4⟩]
      copyMemory := fun address length =>
        let bytes := (List.range (min 3 length.toNat)).map fun i => address.toUInt8 + i.toUInt8
        ⟨bytes, UInt64.ofNat bytes.length, statusSuccess⟩
      hints := ⟨0, 0, 0, 0, 0, 0, 0, 0, 0, 0, 0, 0⟩ }
  openFailure _ := none
  dosError _ := errorInvalidData

theorem hesitantMachine_delivers : hesitantMachine.Delivers := by
  refine ⟨fun _ => rfl, fun _ address length => ?_, fun _ address length => ?_⟩
  · simp [hesitantMachine]
    omega
  · simp [hesitantMachine]
    omega

/-- A capture of this machine on a volume with short writes. -/
def hesitantCapture : CaptureState MockHasher Unit :=
  .start ((deviceSession hesitantMachine).openSession {}).2
    (rawWriter.preflightAndOpen (wide "a.raw") 0x38 12 ({ members := {} }, hesitantVolume)).2 {} ()

theorem acquire_preserves_addresses_short_copies :
    let C := rawCapture hesitantMachine mockHasher quietEnvironment {}
    let t := final (acquire C hesitantCapture)
    let table := capturedTable hesitantCapture.device.driver
    returned (acquire C hesitantCapture) = true ∧ t.device.driver.now.copies.length = 5 ∧
      capturedTable t.device.driver = table ∧
      (∀ entry ∈ t.device.driver.past, ReadAccepted table entry) ∧
      RepliesTrue table t ∧ WritesTrue hesitantCapture.writer.2 t :=
  ⟨by decide +kernel, by decide +kernel,
    acquire_preserves_addresses hesitantMachine_delivers hesitantCapture rfl rfl⟩

end PhylaRam
