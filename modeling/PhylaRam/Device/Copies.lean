import PhylaRam.Acquire.Stream
import PhylaRam.Device.Addresses
import PhylaRam.Device.Query
import PhylaRam.Writer.ZdmpFile

/-!
# The image and the memory it was copied from

With the driver behind the engine and any writer in front, what a completed acquisition has
written is memory: at an address that was not recorded as unreadable, the image holds a byte that
the driver copied from there. Everywhere else it is zero.
-/

namespace PhylaRam

open Program Interval Image

/-- The engine with the driver behind it. -/
abbrev driverCapture {ω η κ : Type} (machine : Machine) (writer : IRawWriter ω)
    (hasher : IHasher η) (environment : Environment κ) (config : AcquisitionConfig) :
    Collaborators DeviceSession ω η κ :=
  ⟨deviceSession machine, writer, hasher, environment, config⟩

/-! ### Replies -/

section Replies

variable {ω η κ : Type} {machine : Machine} {writer : IRawWriter ω} {hasher : IHasher η}
  {environment : Environment κ} {config : AcquisitionConfig} {table : List PhysicalMemoryRange}
  {s t : AcquireState DeviceSession ω η κ}

/-- Every byte of every reply was copied from its address. -/
def RepliesCopied (s : AcquireState DeviceSession ω η κ) : Prop :=
  ∀ runIndex offset length r, .read runIndex offset length (some r) ∈ s.calls →
    ∀ i byte, r.data[i]? = some byte →
      Transferred s.device.driver.now.copies (r.physicalAddress.toNat + i) byte

theorem RepliesCopied.later (h : RepliesCopied s) (later : Later s.device t.device)
    (calls : ∀ runIndex offset length r, .read runIndex offset length (some r) ∈ t.calls →
      .read runIndex offset length (some r) ∈ s.calls) : RepliesCopied t := by
  intro runIndex offset length r member i byte found
  exact later.transferred (h _ _ _ r (calls _ _ _ _ member) i byte found)

theorem RepliesCopied.observes : Observes (RepliesCopied (ω := ω) (η := η) (κ := κ)) := by
  intro s t unobserved h
  refine h.later (unobserved.device ▸ .refl _) fun runIndex offset length r member => ?_
  obtain ⟨quiet, silent, calls⟩ := unobserved.calls
  rw [calls] at member
  cases List.mem_append.mp member with
  | inl old => exact old
  | inr new => exact (silent _ new).elim

/-- The session is open, and the replies so far were copied from memory. -/
structure Attested (table : List PhysicalMemoryRange) (s : AcquireState DeviceSession ω η κ) :
    Prop where
  session : InSession table s.device
  replies : RepliesCopied s

theorem Attested.observes : Observes (Attested (ω := ω) (η := η) (κ := κ) table) :=
  fun _ _ unobserved h => ⟨unobserved.device ▸ h.session, h.replies.observes _ _ unobserved⟩

/-- Only the device has changed, and the session goes on. -/
theorem Attested.continues (h : Attested table s) {device : DeviceSession}
    (continues : Continues table s.device device) : Attested table { s with device } :=
  ⟨continues.session, h.replies.later continues.later fun _ _ _ _ => id⟩

/-- A request of the engine is answered from memory. -/
theorem Attested.read (delivers : machine.Delivers) {topology : Topology}
    (describes : Describes table topology) {run : MemoryRun} (member : run ∈ topology.runs)
    {requested : UInt32} (request : Request run s requested) (h : Attested table s) :
    Attested table (afterRead (driverCapture machine writer hasher environment config) run requested
      s) := by
  obtain ⟨range, entry, base, length⟩ := describes.entry member
  have within := request.within
  have fits := (describes.valid run member).fits
  rw [length] at within fits
  rw [base] at fits
  have answer := method_cases (read_wp delivers h.session.continues entry
    request.positive request.bounded within fits)
  obtain ⟨r, reply, continues, -, copied⟩ := answer.resolve_right fun none => none.2
  refine ⟨continues.session, ?_⟩
  intro runIndex offset length reply' listed i byte found
  cases List.mem_append.mp listed with
  | inl old => exact continues.later.transferred (h.replies _ _ _ _ old i byte found)
  | inr new =>
      obtain ⟨-, -, -, same⟩ := Call.read.inj (List.mem_singleton.mp new)
      obtain rfl := Option.some.inj (same.trans reply)
      exact copied i byte found

theorem Attested.maintains (delivers : machine.Delivers) {topology : Topology}
    (describes : Describes table topology) :
    Maintains (driverCapture machine writer hasher environment config) topology.runs
      (Attested table) := by
  refine ⟨Attested.observes, ?_, ?_⟩
  · intro run member _ s requested request h
    exact h.read delivers describes member request
  · intro s runIndex offset length r h received _ _
    refine ⟨h.session, h.replies.later (.refl _) fun _ _ _ _ listed => ?_⟩
    cases List.mem_append.mp listed with
    | inl old => exact old
    | inr new => cases List.mem_singleton.mp new

theorem Attested.queried (machine : Machine) (h : Attested table s) :
    Attested table { s with device := ((deviceSession machine).query s.device).2 } := by
  cases method_cases (query_wp machine h.session) with
  | inl accepted =>
      obtain ⟨_, _, continues, _⟩ := accepted
      exact h.continues continues
  | inr refused => exact h.continues refused.2

theorem Attested.hinted (machine : Machine) (h : Attested table s) :
    Attested table { s with
      device := (DeviceSession.method (DeviceSession.queryHints machine) s.device).2 } := by
  cases method_cases (queryHints_wp machine h.session) with
  | inl available =>
      obtain ⟨_, _, continues⟩ := available
      exact h.continues continues
  | inr unavailable => exact h.continues unavailable.2

theorem describes_of_asked (session : InSession table s.device) {topology : Topology}
    (asked : ((deviceSession machine).query s.device).1 = some topology) :
    Describes table topology := by
  cases method_cases (query_wp machine session) with
  | inl accepted =>
      obtain ⟨topology', same, _, describes⟩ := accepted
      exact Option.some.inj (same.symm.trans asked) ▸ describes
  | inr refused => cases refused.1.symm.trans asked

theorem Attested.begun (h : Attested table s) (topology : Topology) :
    Attested table
      (afterQuery (driverCapture machine writer hasher environment config) topology s) := by
  refine Attested.observes _ _ ?_ ((h.queried machine).hinted machine)
  exact .of_eq rfl rfl rfl

theorem RepliesCopied.ended (h : Attested table s) :
    RepliesCopied { s with device := ((deviceSession machine).endSession s.device).2 } := by
  have later : Later s.device ((deviceSession machine).endSession s.device).2 := by
    cases method_cases (deviceEndSession_wp machine h.session) with
    | inl ended =>
        obtain ⟨_, _, record⟩ := ended
        exact record.2
    | inr failed => exact failed.2.2
  exact h.replies.later later fun _ _ _ _ => id

/-- However `Acquire` ends, every reply was copied from memory. -/
theorem acquire_repliesCopied (delivers : machine.Delivers) (session : InSession table s.device)
    (calls : s.calls = []) :
    WP (acquire (driverCapture machine writer hasher environment config))
      (fun _ t => RepliesCopied t) (fun _ t => RepliesCopied t) s := by
  have start : Attested table s := by
    refine ⟨session, fun runIndex offset length r member => ?_⟩
    rw [calls] at member
    cases member
  refine acquire_maintains (I := Attested table) _ RepliesCopied.observes (fun _ h => h.replies)
    (start.queried machine).replies (fun topology asked => ?_) fun _ h => .ended h
  exact ⟨Attested.maintains delivers (describes_of_asked session asked), start.begun topology⟩

end Replies

/-! ### Writes -/

/-- A byte with the address it belongs to, for each byte of a piece of data. -/
def cellsOf (address : UInt64) (data : List Byte) : List (Nat × Byte) :=
  (spread address data).zip data

theorem mem_cellsOf {address : UInt64} {data : List Byte} {n : Nat} {byte : Byte} :
    (n, byte) ∈ cellsOf address data ↔ ∃ i, n = address.toNat + i ∧ data[i]? = some byte := by
  rw [cellsOf, List.mem_iff_getElem?]
  refine exists_congr fun i => ?_
  rw [List.getElem?_zip_eq_some, spread]
  constructor
  · rintro ⟨at_address, found⟩
    rw [List.getElem?_eq_some_iff] at at_address
    obtain ⟨_, rfl⟩ := at_address
    rw [List.getElem_range', Nat.one_mul]
    exact ⟨rfl, found⟩
  · rintro ⟨rfl, found⟩
    refine ⟨?_, found⟩
    rw [List.getElem?_range' (List.getElem?_eq_some_iff.mp found).1, Nat.one_mul]

theorem writes_cellsOf (calls : List Call) :
    writes cellsOf calls = (writtenAddresses calls).zip (writtenBytes calls) := by
  induction calls with
  | nil => rfl
  | cons call calls ih =>
      rw [← List.singleton_append, writes_append, writtenAddresses_append, writtenBytes_append, ih,
        List.zip_append]
      · congr 1
        cases call with
        | writeAt address data =>
            show cellsOf address data ++ [] = (spread address data ++ []).zip (data ++ [])
            rw [List.append_nil, List.append_nil, List.append_nil]
            rfl
        | read | update | updateZeros | addUnreadable | endSession => rfl
      · cases call with
        | writeAt address data =>
            show (spread address data ++ []).length = (data ++ []).length
            rw [List.append_nil, List.append_nil, spread, List.length_range']
        | read | update | updateZeros | addUnreadable | endSession => rfl

/-- Calls that handle the runs in order write the image, address by address. -/
theorem mem_writes_cellsOf {calls : List Call} (ordered : Ordered (fragments calls)) {n : Nat}
    (written : n ∈ writtenAddresses calls) : (n, imageOf calls n) ∈ writes cellsOf calls := by
  obtain ⟨i, found⟩ := List.mem_iff_getElem?.mp written
  rw [writes_cellsOf, writtenBytes_eq ordered, List.mem_iff_getElem?]
  refine ⟨i, List.getElem?_zip_eq_some.mpr ⟨found, ?_⟩⟩
  rw [List.getElem?_map, found]
  rfl

/-! ### The image of a completed acquisition -/

/-- What `Query` accepts has the properties that the engine relies on. -/
theorem Describes.validTopology {table : List PhysicalMemoryRange} {topology : Topology}
    (describes : Describes table topology) (nonempty : topology.runs ≠ []) : topology.Valid := by
  have present : table ≠ [] := by
    rintro rfl
    exact nonempty (List.perm_nil.mp describes.perm)
  have exactly := describes.exactly present
  exact {
    nonempty
    runs := describes.valid
    ordered := List.pairwise_map.mpr describes.ordered
    totalBytes := by rw [exactly.totalBytes, describes.sum]
    highestEnd_le := fun run member =>
      exactly.highestEnd_le _ (describes.mem_range.mpr ⟨run, member, rfl⟩)
    highestEnd_mem := by
      obtain ⟨range, member, stop⟩ := exactly.highestEnd_mem
      obtain ⟨run, among, rfl⟩ := describes.mem_range.mp member
      exact ⟨run, among, stop⟩ }

/-- The image is a copy of the memory in the runs, with zeros for what was not copied and for
what is not memory. -/
structure MemoryImage (runs : List MemoryRun) (copies : List MemoryCopy)
    (unreadable : List UnreadableSpan) (image : Nat → Byte) : Prop where
  copied : ∀ n ∈ cells (runIntervals runs), n ∉ cells (spanIntervals unreadable) →
    Transferred copies n (image n)
  missing : ∀ n ∈ cells (spanIntervals unreadable), n ∈ cells (runIntervals runs) ∧ image n = 0
  outside : ∀ n, n ∉ cells (runIntervals runs) → image n = 0

section Completed

variable {ω η κ : Type} {machine : Machine} {writer : IRawWriter ω} {hasher : IHasher η}
  {environment : Environment κ} {config : AcquisitionConfig} {table : List PhysicalMemoryRange}
  {s t m : AcquireState DeviceSession ω η κ} {topology : Topology} {changed : Bool}

/-- The bytes that were written are those of the replies. -/
theorem Completed.transferred
    (completed : Completed (driverCapture machine writer hasher environment config) s topology m
      changed t) (calls : s.calls = []) (ordered : Ordered (runIntervals topology.runs))
    (copied : RepliesCopied t) {n : Nat} (written : n ∈ writtenAddresses t.calls) :
    Transferred t.device.driver.now.copies n (imageOf t.calls n) := by
  have streamed := completed.streamed calls ordered
  have among := mem_writes_cellsOf streamed.ordered written
  have none (address : UInt64) : cellsOf address [] = [] := List.zip_nil_right
  rw [← completed.transfer none calls, replies, List.mem_flatMap] at among
  obtain ⟨call, member, inside⟩ := among
  cases call with
  | read runIndex offset length reply =>
      cases reply with
      | none => cases inside
      | some r =>
          obtain ⟨i, at_address, found⟩ := mem_cellsOf.mp inside
          rw [at_address]
          exact copied _ _ _ r member i _ (at_address ▸ found)
  | writeAt | update | updateZeros | addUnreadable | endSession => cases inside

/-- What a completed acquisition has written is the memory of the table. -/
theorem Completed.memoryImage
    (completed : Completed (driverCapture machine writer hasher environment config) s topology m
      changed t) (calls : s.calls = []) (frozen : topology.Frozen) (copied : RepliesCopied t) :
    MemoryImage topology.runs t.device.driver.now.copies t.summary.unreadable
      (imageOf t.calls) := by
  have parts := completed.partitioned calls frozen
  have written {n : Nat} : n ∈ cells (runIntervals topology.runs) ↔
      n ∈ writtenAddresses t.calls ∨ n ∈ cells (spanIntervals t.summary.unreadable) := by
    rw [← parts.union, Finset.mem_union, List.mem_toFinset]
  refine ⟨fun n inside readable => ?_, fun n missing => ?_, fun n outside => ?_⟩
  · exact completed.transferred calls frozen.ordered copied
      ((written.mp inside).resolve_right readable)
  · refine ⟨written.mpr (.inr missing), imageOf_of_not_written fun among => ?_⟩
    exact Finset.disjoint_left.mp parts.disjoint (List.mem_toFinset.mpr among) missing
  · exact imageOf_of_not_written fun among => outside (written.mpr (.inl among))

end Completed

end PhylaRam
