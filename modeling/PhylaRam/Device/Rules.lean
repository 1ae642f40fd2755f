import PhylaRam.Device.Session
import PhylaRam.Acquire.Trace

/-!
# What the client learns from the driver

`InSession` is the client's view of an open session: the file object has followed the
protocol since its creation, and every `READ_RUN` so far passed the checks of the driver.
`query_wp` and `read_wp` are the only facts about the client that later modules use.
-/

namespace PhylaRam

open Program

/-! ### The topology of a table -/

/-- The runs of a table under their driver indices. -/
def numbered (table : List PhysicalMemoryRange) : List MemoryRun :=
  table.mapIdx fun i range => ⟨i.toUInt32, range.baseAddress, range.numberOfBytes⟩

/-- The topology is the table, sorted: no index, address or length has changed. -/
structure Describes (table : List PhysicalMemoryRange) (topology : Topology) : Prop where
  perm : topology.runs.Perm (numbered table)
  size : table.length < 2 ^ 32
  valid : ∀ run ∈ topology.runs, run.Valid
  ordered : topology.runs.Pairwise fun a b => a.base.toNat + a.length.toNat ≤ b.base.toNat
  totals : (topology.totalBytes, topology.highestEnd) = summarizeRanges table (0, 0)

theorem Describes.entry {table : List PhysicalMemoryRange} {topology : Topology}
    (describes : Describes table topology) {run : MemoryRun} (member : run ∈ topology.runs) :
    ∃ range, table[run.driverIndex.toNat]? = some range ∧ run.base = range.baseAddress ∧
      run.length = range.numberOfBytes := by
  obtain ⟨i, within, rfl⟩ := List.mem_mapIdx.mp (describes.perm.mem_iff.mp member)
  have index : i.toUInt32.toNat = i := Nat.mod_eq_of_lt (Nat.lt_trans within describes.size)
  refine ⟨table[i], ?_, rfl, rfl⟩
  change table[i.toUInt32.toNat]? = _
  rw [index, List.getElem?_eq_getElem within]

namespace DeviceSession

theorem collectRuns_spec {table : List PhysicalMemoryRange} {i : UInt32} {runs : List MemoryRun}
    (h : collectRuns (table.map PhysicalMemoryRange.toRun) i = some runs) :
    runs = table.mapIdx (fun k range =>
        ⟨i + k.toUInt32, range.baseAddress, range.numberOfBytes⟩) ∧
      ∀ run ∈ runs, run.Valid := by
  induction table generalizing i runs with
  | nil =>
      obtain rfl := Option.some.inj h
      exact ⟨rfl, fun run member => nomatch member⟩
  | cons range rest ih =>
      rw [List.map_cons, collectRuns] at h
      split at h
      · cases h
      · next valid =>
          obtain ⟨others, collected, rfl⟩ := Option.map_eq_some_iff.mp h
          obtain ⟨same, rest_valid⟩ := ih collected
          rw [not_or, gt_iff_lt, UInt64.not_lt, UInt64.le_iff_toNat_le,
            Word.toNat_sub_of_le (Word.toNat_le_max _)] at valid
          constructor
          · rw [List.mapIdx_cons, same]
            have first : i + (0 : Nat).toUInt32 = i := UInt32.add_zero i
            have shift : ∀ k : Nat, i + 1 + k.toUInt32 = i + (k + 1).toUInt32 := fun k => by
              rw [UInt32.add_assoc, UInt32.add_comm 1]
              exact congrArg (i + ·) (UInt32.ofNat_add k 1).symm
            simp only [first, shift, PhysicalMemoryRange.toRun]
          · intro run member
            cases List.mem_cons.mp member with
            | inl same =>
                subst same
                refine ⟨Word.pos_iff.mp valid.1, ?_⟩
                have bound : range.numberOfBytes.toNat < 2 ^ 64 := range.numberOfBytes.toNat_lt
                have fits : range.baseAddress.toNat ≤ 2 ^ 64 - 1 - range.numberOfBytes.toNat :=
                  valid.2
                change range.baseAddress.toNat + range.numberOfBytes.toNat < _
                omega
            | inr later => exact rest_valid run later

theorem runsOverlap_spec {run : MemoryRun} {rest : List MemoryRun}
    (h : runsOverlap (run :: rest) = false) (valid : ∀ r ∈ run :: rest, r.Valid) :
    (run :: rest).Pairwise fun a b => a.base.toNat + a.length.toNat ≤ b.base.toNat := by
  induction rest generalizing run with
  | nil => exact List.pairwise_singleton _ _
  | cons next rest ih =>
      rw [runsOverlap, Bool.or_eq_false_iff, decide_eq_false_iff_not, gt_iff_lt, UInt64.not_lt,
        UInt64.le_iff_toNat_le] at h
      have validRun := valid run List.mem_cons_self
      rw [Word.toNat_add_of_lt validRun.fits] at h
      have pairwise := ih h.2 fun r member => valid r (List.mem_cons_of_mem _ member)
      refine List.pairwise_cons.mpr ⟨fun other member => ?_, pairwise⟩
      cases List.mem_cons.mp member with
      | inl same => exact same ▸ h.1
      | inr later =>
          have := (List.pairwise_cons.mp pairwise).1 other later
          omega

theorem sortRuns_perm (runs : List MemoryRun) : (sortRuns runs).Perm runs :=
  List.perm_insertionSort _ runs

/-- What `Query` accepts is the sorted table. -/
theorem describes_of_query {table : List PhysicalMemoryRange} {runs : List MemoryRun}
    {totals : UInt64 × UInt64} (size : table.length < 2 ^ 32)
    (collected : collectRuns (table.map PhysicalMemoryRange.toRun) 0 = some runs)
    (disjoint : runsOverlap (sortRuns runs) = false)
    (sums : totals = summarizeRanges table (0, 0)) :
    Describes table ⟨totals.2, totals.1, sortRuns runs⟩ := by
  obtain ⟨same, valid⟩ := collectRuns_spec collected
  have perm := sortRuns_perm runs
  have sorted_valid : ∀ run ∈ sortRuns runs, run.Valid := fun run member =>
    valid run (perm.mem_iff.mp member)
  refine ⟨?_, size, sorted_valid, ?_, sums⟩
  · have zero : ∀ k : Nat, (0 : UInt32) + k.toUInt32 = k.toUInt32 := fun k => UInt32.zero_add _
    simp only [zero] at same
    exact same ▸ perm
  · cases shape : sortRuns runs with
    | nil => exact .nil
    | cons first rest =>
        rw [shape] at disjoint sorted_valid
        exact runsOverlap_spec disjoint sorted_valid

end DeviceSession

/-! ### An open session -/

/-- A `READ_RUN` that passed every check of the driver on a run of the table. -/
def ReadAccepted (table : List PhysicalMemoryRange) (entry : Driver × DriverEvent) : Prop :=
  ∀ calls request, entry.2 = .deviceControl calls request ioctlPhylaReadRun →
    Succeeded ioctlPhylaReadRun entry ∧
      ∃ range, table[request.input.runIndex.toNat]? = some range ∧
        AcceptsRead calls entry.1.context range request.input
          (request.outputBufferLength.toUInt32 - sizeofReadResult)

/-- The client's view of an open session about `table`. -/
structure InSession (table : List PhysicalMemoryRange) (s : DeviceSession) : Prop where
  handle : s.handle = true
  reached : Reached s.driver
  captured : capturedTable s.driver = table
  represents : Represents s.driver.now (.frozen table)
  accepted : ∀ entry ∈ s.driver.past, ReadAccepted table entry

/-- The driver copied this byte from this physical address. -/
def Transferred (copies : List MemoryCopy) (address : Nat) (byte : Byte) : Prop :=
  ∃ copy ∈ copies, ∃ i, copy.physicalAddress.toNat + i = address ∧
    i < copy.transfer.copied.toNat ∧ copy.transfer.bytes[i]? = some byte

/-- What the driver copied before is still on record. -/
def Later (s t : DeviceSession) : Prop := s.driver.now.copies <+: t.driver.now.copies

theorem Later.of_copies {s t : DeviceSession}
    (copies : t.driver.now.copies = s.driver.now.copies) : Later s t :=
  ⟨[], (List.append_nil _).trans copies.symm⟩

theorem Later.refl (s : DeviceSession) : Later s s := List.prefix_rfl

theorem Later.trans {s t u : DeviceSession} (h : Later s t) (h' : Later t u) : Later s u :=
  List.IsPrefix.trans h h'

theorem Later.transferred {s t : DeviceSession} (later : Later s t) {address : Nat} {byte : Byte}
    (h : Transferred s.driver.now.copies address byte) :
    Transferred t.driver.now.copies address byte := by
  obtain ⟨copy, member, i, at_address, copied, read⟩ := h
  exact ⟨copy, later.subset member, i, at_address, copied, read⟩

/-- The session goes on, and nothing copied is forgotten. -/
structure Continues (table : List PhysicalMemoryRange) (s t : DeviceSession) : Prop where
  session : InSession table t
  later : Later s t

/-- The driver's side is all that counts. -/
theorem Continues.of_driver {table : List PhysicalMemoryRange} {s t u : DeviceSession}
    (h : Continues table s t) (handle : u.handle = t.handle) (driver : u.driver = t.driver) :
    Continues table s u := by
  refine ⟨⟨handle.trans h.session.handle, ?_, ?_, ?_, ?_⟩, ?_⟩
  · exact driver ▸ h.session.reached
  · exact driver ▸ h.session.captured
  · exact driver ▸ h.session.represents
  · exact driver ▸ h.session.accepted
  · unfold Later
    exact driver ▸ h.later

theorem InSession.continues {table : List PhysicalMemoryRange} {s : DeviceSession}
    (session : InSession table s) : Continues table s s := ⟨session, .refl s⟩

theorem Continues.trans {table : List PhysicalMemoryRange} {s t u : DeviceSession}
    (h : Continues table s t) (h' : Continues table t u) : Continues table s u :=
  ⟨h'.session, h.later.trans h'.later⟩

/-- The kernel delivers requests at `PASSIVE_LEVEL`, and `MmCopyMemory` transfers some of
the requested bytes, from the first on. -/
structure Machine.Delivers (machine : Machine) : Prop where
  passive : ∀ n, (machine.kernel n).irql = 0
  transfers : ∀ n address length,
    ((machine.kernel n).copyMemory address length).copied.toNat ≤ length.toNat
  stores : ∀ n address length, ((machine.kernel n).copyMemory address length).bytes.length =
    ((machine.kernel n).copyMemory address length).copied.toNat

section Session

variable {machine : Machine} {table : List PhysicalMemoryRange} {s : DeviceSession}

open DeviceSession

/-- One more callback in an open session. -/
theorem InSession.recorded {d : Driver} {calls : KernelCalls} {request : WdfRequest}
    {code : UInt32} (session : InSession table s)
    (stepped : s.driver.now.step (.deviceControl calls request code) = some d)
    (represents : Represents d (.frozen table))
    (accepted : ReadAccepted table (s.driver.now, .deviceControl calls request code)) :
    InSession table (recorded d (.deviceControl calls request code) s) := by
  refine ⟨session.handle, .next session.reached (fun _ => DriverEvent.noConfusion) stepped, ?_,
    represents, ?_⟩
  · exact (capturedTable_snoc session.reached.tracked.nonempty d _).trans session.captured
  · intro entry member
    cases List.mem_append.mp member with
    | inl old => exact session.accepted entry old
    | inr new => exact List.mem_singleton.mp new ▸ accepted

theorem readAccepted_of_ne {d : Driver} {calls : KernelCalls} {request : WdfRequest}
    {code : UInt32} (ne : code ≠ ioctlPhylaReadRun) :
    ReadAccepted table (d, .deviceControl calls request code) := by
  intro calls' request' event
  cases event
  exact (ne rfl).elim

theorem reject_wp {α : Type} {error : UInt32} {post : α → DeviceSession → Prop}
    {t : DeviceSession} (continues : Continues table s t) :
    WP (reject error) post (fun _ u => Continues table s u) t :=
  continues.of_driver rfl rfl

/-- A request that neither reads memory nor ends the session. -/
theorem deviceIoControl_wp {t : DeviceSession} (continues : Continues table s t) {code : UInt32}
    {input : PhylaReadRequest} {inputLength outputLength : UInt64}
    (quiet : code ≠ ioctlPhylaReadRun ∧ code ≠ ioctlPhylaEndSession)
    {post : UInt32 × Option Reply → DeviceSession → Prop}
    (served : ∀ n reply u, Continues table s u →
      Serves (machine.kernel t.tick) (.frozen table) code reply (.frozen table) →
      post (n, some reply) u) :
    WP (deviceIoControl machine code input inputLength outputLength) post
      (fun _ u => Continues table s u) t := by
  have session := continues.session
  simp only [deviceIoControl, WP.bind_iff, WP.get_iff]
  cases completed : phylaEvtIoDeviceControl (machine.kernel t.tick)
      (deliver input inputLength outputLength) code t.driver.now with
  | none => exact continues
  | some answer =>
      obtain ⟨completion, d⟩ := answer
      have stepped : t.driver.now.step (.deviceControl (machine.kernel t.tick)
          (deliver input inputLength outputLength) code) = some d := by
        simp only [Driver.step, completed, Option.map_some]
      have recording (represents : Represents d (.frozen table))
          (copies : d.copies = t.driver.now.copies) :
          Continues table s (recorded d (.deviceControl (machine.kernel t.tick)
            (deliver input inputLength outputLength) code) t) := by
        refine continues.trans ⟨?_, ?_⟩
        · exact session.recorded stepped represents (readAccepted_of_ne quiet.1)
        · exact .of_copies copies
      simp only [WP.bind_iff, WP.set_iff, WP.ite_iff, WP.pure_iff]
      cases phylaEvtIoDeviceControl_completes session.represents completed with
      | @served reply session' success filled serves represents copies =>
          have unchanged : session' = .frozen table := by
            cases serves with
            | endSession => exact (quiet.2 rfl).elim
            | _ => rfl
          subst unchanged
          have next := recording represents (copies.resolve_right quiet.1)
          rw [filled]
          exact ⟨fun _ => served _ reply _ next serves, fun _ => reject_wp next⟩
      | refused failed represents _ copies =>
          refine ⟨fun success => ?_, fun _ => reject_wp (recording represents copies)⟩
          rw [failed] at success
          cases success

theorem requireHandle_wp (session : InSession table s) {post : Unit → DeviceSession → Prop}
    {stop : Unit → DeviceSession → Prop} (h : post () s) : WP requireHandle post stop s := by
  simp only [requireHandle, WP.bind_iff, WP.get_iff, session.handle]
  exact h

/-- `Query` leaves the session open; what it accepts is the table. -/
theorem query_wp (machine : Machine) (session : InSession table s) :
    WP (query machine) (fun topology t => Continues table s t ∧ Describes table topology)
      (fun _ t => Continues table s t) s := by
  simp only [query, WP.bind_iff]
  apply requireHandle_wp session
  apply deviceIoControl_wp session.continues ⟨by decide, by decide⟩
  intro n reply t continues serves
  cases serves with
  | @queryInfo _ info version runCount totals =>
      simp only [WP.ite_iff]
      refine ⟨fun _ => reject_wp continues, fun _ =>
        ⟨fun _ => reject_wp continues, fun few => ?_⟩⟩
      have size : table.length < 2 ^ 32 := runCount ▸ info.runCount.toNat_lt
      simp only [queryRanges, WP.bind_iff]
      apply deviceIoControl_wp continues ⟨by decide, by decide⟩
      intro m reply u continues serves
      cases serves with
      | getRanges =>
          simp only [WP.ite_iff]
          refine ⟨fun _ => reject_wp continues, fun _ => ?_⟩
          cases collected : collectRuns (table.map PhysicalMemoryRange.toRun) 0 with
          | none => exact reject_wp continues
          | some runs =>
              simp only [WP.ite_iff, Bool.not_eq_true, WP.pure_iff]
              refine ⟨fun _ => reject_wp continues, fun disjoint => ⟨continues, ?_⟩⟩
              exact describes_of_query size collected disjoint totals

/-- `QueryHints` leaves the session open. -/
theorem queryHints_wp (machine : Machine) (session : InSession table s) :
    WP (queryHints machine) (fun _ t => Continues table s t) (fun _ t => Continues table s t) s := by
  simp only [queryHints, WP.bind_iff]
  apply requireHandle_wp session
  apply deviceIoControl_wp session.continues ⟨by decide, by decide⟩
  intro n reply t continues serves
  simp only [WP.ite_iff, WP.pure_iff]
  exact ⟨fun _ => reject_wp continues, fun _ => continues⟩

/-- The request of a `Read`, as it reaches the driver. -/
def readRequest (runIndex : UInt32) (offset : UInt64) (length : UInt32) : WdfRequest :=
  deliver ⟨runIndex, length, offset⟩ sizeofReadRequest
    (sizeofReadResult.toUInt64 + length.toUInt64)

theorem readCapacity (length : UInt32) :
    (sizeofReadResult.toUInt64 + length.toUInt64).toUInt32 - sizeofReadResult = length := by
  rw [UInt64.toUInt32_add, UInt32.toUInt32_toUInt64, UInt32.toUInt32_toUInt64, UInt32.add_comm,
    UInt32.add_sub_cancel]

theorem readBuffer_large {length : UInt32} (bounded : length.toNat ≤ phylaMaxTransfer.toNat) :
    ¬(sizeofReadResult.toUInt64 + length.toUInt64).toUInt32 < sizeofReadResult := by
  have header : sizeofReadResult.toNat = 32 := rfl
  have maximum : phylaMaxTransfer.toNat = 2 ^ 24 := rfl
  rw [UInt64.toUInt32_add, UInt32.toUInt32_toUInt64, UInt32.toUInt32_toUInt64,
    UInt32.lt_iff_toNat_lt, UInt32.toNat_add, header, Nat.mod_eq_of_lt] <;> omega

/-- The handler serves what `PhylaCopyRun` accepts. -/
theorem phylaHandleReadRun_delivered {calls : KernelCalls} {d : Driver} {block : Nat}
    {runIndex length : UInt32} {offset : UInt64} {range : PhysicalMemoryRange}
    (holds : Holds d table false block) (entry : table[runIndex.toNat]? = some range)
    (bounded : length.toNat ≤ phylaMaxTransfer.toNat)
    (accepts : AcceptsRead calls d.context range ⟨runIndex, length, offset⟩ length) :
    WP (phylaHandleReadRun calls (readRequest runIndex offset length))
      (fun p d' => p = (.readRun (readHeader calls range ⟨runIndex, length, offset⟩)
          (calls.copyMemory (readAddress range ⟨runIndex, length, offset⟩) length).bytes,
          sizeofReadResult.toUInt64 +
            (readHeader calls range ⟨runIndex, length, offset⟩).bytesCopied.toUInt64) ∧
        d' = afterCopy calls range ⟨runIndex, length, offset⟩ block d)
      (fun _ _ => False) d := by
  obtain ⟨entries, content, captured⟩ := holds.content
  have found : entryAt entries runIndex = range := entryAt_of_getElem? (captured ▸ entry)
  have size : (if (readRequest runIndex offset length).outputBufferLength <
        (sizeofReadResult.toUInt64 + length.toUInt64).toUInt32.toUInt64 then
      (readRequest runIndex offset length).outputBufferLength.toUInt32
      else (sizeofReadResult.toUInt64 + length.toUInt64).toUInt32) =
      (sizeofReadResult.toUInt64 + length.toUInt64).toUInt32 := ite_self _
  simp only [phylaHandleReadRun, WP.bind_iff]
  simp only [requestFileContext, readRequest, deliver, if_true, WP.pure_iff]
  apply openRanges_wp
  · intro other opened
    obtain ⟨rfl, -⟩ := holds.open_block opened
    apply ntCheck_wp
    · intro _
      apply ntCheck_wp
      · intro _
        simp only [readRequest, deliver] at size
        simp only [Bool.not_true, Bool.false_eq_true, if_false, size,
          if_neg (readBuffer_large bounded), readCapacity, WP.bind_iff]
        refine (phylaCopyRun_accepts holds content (by rwa [found])).mono ?_ (fun _ _ h => h)
        rintro _ _ ⟨rfl, rfl⟩
        simp only [found, WP.pure_iff, and_self]
      · intro failed
        cases failed
    · intro failed
      cases failed
  · intro closed
    exact closed block ⟨holds.ranges, holds.flag⟩

theorem acceptsRead {calls : KernelCalls} {d : Driver} {block : Nat} {runIndex length : UInt32}
    {offset : UInt64} {range : PhysicalMemoryRange} (passive : calls.irql = 0)
    (holds : Holds d table false block) (entry : table[runIndex.toNat]? = some range)
    (positive : 0 < length.toNat) (bounded : length.toNat ≤ phylaMaxTransfer.toNat)
    (within : offset.toNat + length.toNat ≤ range.numberOfBytes.toNat)
    (fits : range.baseAddress.toNat + range.numberOfBytes.toNat < 2 ^ 64) :
    AcceptsRead calls d.context range ⟨runIndex, length, offset⟩ length := by
  have index : runIndex.toNat < table.length := (List.getElem?_eq_some_iff.mp entry).1
  refine ⟨by rw [passive]; decide, ?_, ?_⟩
  · simp only [requestInvalid, Bool.or_eq_false_iff, decide_eq_false_iff_not, beq_eq_false_iff_ne,
      ge_iff_le, gt_iff_lt, UInt32.lt_iff_toNat_lt, UInt32.le_iff_toNat_le, Nat.not_le, Nat.not_lt,
      Word.pos_iff32, holds.runCount]
    exact ⟨⟨⟨index, positive⟩, bounded⟩, Nat.le_refl _⟩
  · have room : (range.numberOfBytes - offset).toNat =
        range.numberOfBytes.toNat - offset.toNat := Word.toNat_sub_of_le (by omega)
    simp only [requestOutside, Bool.or_eq_false_iff, decide_eq_false_iff_not, gt_iff_lt,
      UInt64.not_lt, uint64Max, Word.le_max_sub_iff]
    simp only [UInt64.le_iff_toNat_le, UInt32.toNat_toUInt64, room]
    omega

/-- Nothing is lost when the number of bytes is stored in 32 bits. -/
theorem readHeader_copied {calls : KernelCalls} {range : PhysicalMemoryRange}
    {request : PhylaReadRequest}
    (few : (calls.copyMemory (readAddress range request) request.length).copied.toNat ≤
      request.length.toNat) :
    (readHeader calls range request).bytesCopied.toNat =
      (calls.copyMemory (readAddress range request) request.length).copied.toNat := by
  have small := request.length.toNat_lt
  have maximum : maxUlong.toNat = 2 ^ 32 - 1 := rfl
  have unclamped : ¬(calls.copyMemory (readAddress range request) request.length).copied >
      maxUlong := by
    rw [gt_iff_lt, UInt64.lt_iff_toNat_lt]
    omega
  simp only [readHeader, if_neg unclamped]
  exact Word.toNat_toUInt32_of_lt (by omega)

theorem replySize_toNat (copied : UInt32) :
    (sizeofReadResult.toUInt64 + copied.toUInt64).toNat = 32 + copied.toNat := by
  have small := copied.toNat_lt
  have size : sizeofReadResult.toNat = 32 := rfl
  rw [Word.toNat_add_of_lt] <;> rw [UInt32.toNat_toUInt64, UInt32.toNat_toUInt64, size]
  omega

theorem replySize_toUInt32 {copied length : UInt32} (few : copied.toNat ≤ length.toNat)
    (bounded : length.toNat ≤ phylaMaxTransfer.toNat) :
    (sizeofReadResult.toUInt64 + copied.toUInt64).toUInt32.toNat = 32 + copied.toNat := by
  have maximum : phylaMaxTransfer.toNat = 2 ^ 24 := rfl
  rw [Word.toNat_toUInt32_of_lt] <;> rw [replySize_toNat]
  omega

/-- The checks of `Read` on a header that the driver made. -/
theorem readHeader_passes {calls : KernelCalls} {range : PhysicalMemoryRange}
    {request : PhylaReadRequest} {length : UInt32}
    (few : (readHeader calls range request).bytesCopied.toNat ≤ length.toNat)
    (bounded : length.toNat ≤ phylaMaxTransfer.toNat) :
    ¬((readHeader calls range request).version ≠ phylaProtocolVersion ∨
      (readHeader calls range request).headerSize ≠ sizeofReadResult ∨
      (readHeader calls range request).bytesCopied > length ∨
      (sizeofReadResult.toUInt64 +
          (readHeader calls range request).bytesCopied.toUInt64).toUInt32.toUInt64 ≠
        sizeofReadResult.toUInt64 + (readHeader calls range request).bytesCopied.toUInt64) := by
  rw [not_or, not_or, not_or, not_not, not_not, not_not, gt_iff_lt, UInt32.lt_iff_toNat_lt]
  refine ⟨rfl, rfl, by omega, ?_⟩
  rw [← UInt64.toNat_inj, UInt32.toNat_toUInt64, replySize_toUInt32 few bounded, replySize_toNat]

/-- The driver's answer to a `Read` within a run of the table, and what it leaves behind. -/
theorem read_completed {calls : KernelCalls} (passive : calls.irql = 0) {t : DeviceSession}
    (continues : Continues table s t) {runIndex length : UInt32} {offset : UInt64}
    {range : PhysicalMemoryRange} (entry : table[runIndex.toNat]? = some range)
    (positive : 0 < length.toNat) (bounded : length.toNat ≤ phylaMaxTransfer.toNat)
    (within : offset.toNat + length.toNat ≤ range.numberOfBytes.toNat)
    (fits : range.baseAddress.toNat + range.numberOfBytes.toNat < 2 ^ 64) :
    ∃ d, phylaEvtIoDeviceControl calls (readRequest runIndex offset length) ioctlPhylaReadRun
        t.driver.now = some (⟨statusSuccess, sizeofReadResult.toUInt64 +
          (readHeader calls range ⟨runIndex, length, offset⟩).bytesCopied.toUInt64,
          some (.readRun (readHeader calls range ⟨runIndex, length, offset⟩)
            (calls.copyMemory (readAddress range ⟨runIndex, length, offset⟩) length).bytes)⟩, d) ∧
      ⟨readAddress range ⟨runIndex, length, offset⟩, length,
        calls.copyMemory (readAddress range ⟨runIndex, length, offset⟩) length⟩ ∈ d.copies ∧
      Continues table s
        (recorded d (.deviceControl calls (readRequest runIndex offset length) ioctlPhylaReadRun)
          t) := by
  have session := continues.session
  obtain ⟨block, opened, holds⟩ := session.represents.frozen_open
  have accepts := acceptsRead passive holds entry positive bounded within fits
  obtain ⟨p, d, ran, rfl, rfl⟩ := (phylaHandleReadRun_delivered holds entry bounded accepts).returns
  have completed : phylaEvtIoDeviceControl calls (readRequest runIndex offset length)
      ioctlPhylaReadRun t.driver.now = _ := congrArg completeRequest ran
  refine ⟨_, completed, List.mem_append_right _ (List.mem_singleton_self _), ?_⟩
  refine continues.trans ⟨session.recorded ?_ (.frozen (holds.read.copies _)) ?_, ?_⟩
  · simp only [Driver.step, completed, completeRequest, Option.map_some]
  · intro calls' request' event
    cases event
    refine ⟨⟨calls, _, _, _, rfl, completed, rfl⟩, range, entry, ?_⟩
    change AcceptsRead calls t.driver.now.context range ⟨runIndex, length, offset⟩
      ((sizeofReadResult.toUInt64 + length.toUInt64).toUInt32 - sizeofReadResult)
    rw [readCapacity]
    exact accepts
  · exact List.prefix_append _ _

/-- Within a run of the table, `Read` returns what the driver copied from memory. -/
theorem read_wp (delivers : machine.Delivers) {t : DeviceSession}
    (continues : Continues table s t) {runIndex length : UInt32} {offset : UInt64}
    {range : PhysicalMemoryRange} (entry : table[runIndex.toNat]? = some range)
    (positive : 0 < length.toNat) (bounded : length.toNat ≤ phylaMaxTransfer.toNat)
    (within : offset.toNat + length.toNat ≤ range.numberOfBytes.toNat)
    (fits : range.baseAddress.toNat + range.numberOfBytes.toNat < 2 ^ 64) :
    WP (DeviceSession.read machine runIndex offset length)
      (fun r u => Continues table s u ∧ r.Valid (range.baseAddress + offset) length ∧
        ∀ i byte, r.data[i]? = some byte →
          Transferred u.driver.now.copies (r.physicalAddress.toNat + i) byte)
      (fun _ _ => False) t := by
  obtain ⟨d, completed, copy, next⟩ := read_completed (delivers.passive t.tick) continues entry
    positive bounded within fits
  let input : PhylaReadRequest := ⟨runIndex, length, offset⟩
  let transfer := (machine.kernel t.tick).copyMemory (readAddress range input) length
  have transferred : transfer.copied.toNat ≤ length.toNat := delivers.transfers _ _ _
  have copied : (readHeader (machine.kernel t.tick) range input).bytesCopied.toNat =
      transfer.copied.toNat := readHeader_copied transferred
  have few := Nat.le_trans (Nat.le_of_eq copied) transferred
  have stored : transfer.bytes.length = transfer.copied.toNat := delivers.stores _ _ _
  have request : ¬(length = 0 ∨ length > phylaMaxTransfer) := by
    rw [not_or, gt_iff_lt, UInt32.lt_iff_toNat_lt]
    exact ⟨Word.pos_iff32.mpr positive, by omega⟩
  have whole : ¬(sizeofReadResult.toUInt64 + (readHeader (machine.kernel t.tick) range
      input).bytesCopied.toUInt64).toUInt32 < sizeofReadResult := by
    have size : sizeofReadResult.toNat = 32 := rfl
    rw [UInt32.lt_iff_toNat_lt, replySize_toUInt32 few bounded, size]
    omega
  simp only [DeviceSession.read, WP.bind_iff]
  apply requireHandle_wp continues.session
  simp only [if_neg request, WP.bind_iff, deviceIoControl, WP.get_iff]
  rw [readRequest] at completed
  rw [completed]
  have ok : ntSuccess statusSuccess = true := rfl
  simp only [WP.bind_iff, WP.set_iff, ok, if_true, WP.pure_iff]
  rw [if_neg whole]
  simp only [WP.bind_iff, storePayload, WP.modifyGet_iff]
  rw [if_neg (readHeader_passes few bounded), WP.pure_iff]
  have payload (stale : List Byte) :
      (transfer.bytes ++ stale).take (readHeader (machine.kernel t.tick) range
        input).bytesCopied.toNat = transfer.bytes := List.take_left' (stored.trans copied.symm)
  refine ⟨next.of_driver rfl rfl, ⟨rfl, rfl, few, ?_⟩, ?_⟩
  · change (List.take _ (transfer.bytes ++ _)).length = _
    rw [payload, stored, copied]
  · intro i byte found
    change (List.take _ (transfer.bytes ++ _))[i]? = some byte at found
    rw [payload] at found
    have within : i < transfer.bytes.length := (List.getElem?_eq_some_iff.mp found).1
    exact ⟨_, copy, i, rfl, stored ▸ within, found⟩

/-- What is on record about a session, open or ended. -/
structure Recorded (table : List PhysicalMemoryRange) (s : DeviceSession) : Prop where
  captured : capturedTable s.driver = table
  accepted : ∀ entry ∈ s.driver.past, ReadAccepted table entry

theorem InSession.toRecorded (session : InSession table s) : Recorded table s :=
  ⟨session.captured, session.accepted⟩

/-- `End` adds to the record of the session. -/
theorem deviceEndSession_wp (machine : Machine) (session : InSession table s) :
    WP (DeviceSession.endSession machine) (fun _ t => Recorded table t ∧ Later s t)
      (fun _ t => Recorded table t ∧ Later s t) s := by
  simp only [DeviceSession.endSession, WP.bind_iff]
  apply requireHandle_wp session
  simp only [deviceIoControl, WP.bind_iff, WP.get_iff]
  cases completed : phylaEvtIoDeviceControl (machine.kernel s.tick)
      (deliver noInput 0 sizeofEndResult) ioctlPhylaEndSession s.driver.now with
  | none => exact ⟨session.toRecorded, .refl s⟩
  | some answer =>
      obtain ⟨completion, d⟩ := answer
      have copies : d.copies = s.driver.now.copies := by
        cases phylaEvtIoDeviceControl_completes session.represents completed with
        | served _ _ _ _ copies => exact copies.resolve_right (by decide)
        | refused _ _ _ copies => exact copies
      have later : Later s (recorded d (.deviceControl (machine.kernel s.tick)
          (deliver noInput 0 sizeofEndResult) ioctlPhylaEndSession) s) := .of_copies copies
      have next : Recorded table (recorded d (.deviceControl (machine.kernel s.tick)
          (deliver noInput 0 sizeofEndResult) ioctlPhylaEndSession) s) := by
        refine ⟨?_, fun entry member => ?_⟩
        · exact (capturedTable_snoc session.reached.tracked.nonempty d _).trans session.captured
        · cases List.mem_append.mp member with
          | inl old => exact session.accepted entry old
          | inr new => exact List.mem_singleton.mp new ▸ readAccepted_of_ne (by decide)
      have kept (error : UInt32) : Recorded table { recorded d (.deviceControl
          (machine.kernel s.tick) (deliver noInput 0 sizeofEndResult) ioctlPhylaEndSession) s with
          lastError := error } := ⟨next.captured, next.accepted⟩
      simp only [WP.bind_iff, WP.set_iff, WP.ite_iff, WP.pure_iff, reject, WP.modify_iff,
        WP.throw_iff]
      exact ⟨fun _ => ⟨fun _ => ⟨kept _, later⟩, fun _ => ⟨next, later⟩⟩,
        fun _ => ⟨kept _, later⟩⟩

/-- A successful `Open` begins a session about the table of that moment. -/
theorem openDevice_inSession {t : DeviceSession} (opened : openDevice machine s = (true, t)) :
    InSession (capturedTable t.driver) t := by
  unfold openDevice at opened
  cases failure : machine.openFailure (close s).tick with
  | some error => simp [failure] at opened
  | none =>
      cases created : phylaEvtFileCreate (machine.kernel (close s).tick) {} with
      | none => simp [failure, created] at opened
      | some answer =>
          obtain ⟨status, d⟩ := answer
          cases success : ntSuccess status with
          | false => simp [failure, created, success] at opened
          | true =>
              simp only [failure, created, success, if_true, Prod.mk.injEq, true_and] at opened
              subst opened
              obtain ⟨entries, answered, represents⟩ :=
                (phylaEvtFileCreate_represents created).1 success
              have table : capturedTable ⟨d, [({}, .fileCreate (machine.kernel (close s).tick))]⟩ =
                  tableOf entries := by
                simp [capturedTable, answered]
              refine ⟨rfl, .create (by simp [Driver.step, created]), rfl, table ▸ represents, ?_⟩
              intro entry member calls request event
              rw [List.mem_singleton.mp member] at event
              cases event

/-- The two outcomes of a method. -/
theorem method_cases {α : Type} {x : DeviceM α} {post : α → DeviceSession → Prop}
    {stop : Unit → DeviceSession → Prop} (h : WP x post stop s) :
    (∃ a, (method x s).1 = some a ∧ post a (method x s).2) ∨
      (method x s).1 = none ∧ stop () (method x s).2 := by
  unfold method
  cases ran : x s with
  | ok a t => exact .inl ⟨a, rfl, h.of_ok ran⟩
  | error e t => exact .inr ⟨rfl, h.of_error ran⟩

end Session

end PhylaRam
