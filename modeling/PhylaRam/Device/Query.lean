import PhylaRam.Acquire.Partition
import PhylaRam.Device.Rules

/-!
# Which tables the client accepts

The driver sums a table up with saturating guards and the client compares neighbours after
sorting. `query_iff` says what they come to together: `Query` accepts exactly the tables of
disjoint nonempty ranges below `2 ^ 64`, and then every number it returns is exact.
-/

namespace PhylaRam

open Program Interval

/-- The addresses of a range. -/
def PhysicalMemoryRange.cells (range : PhysicalMemoryRange) : Finset Nat :=
  Finset.Ico range.baseAddress.toNat (range.baseAddress.toNat + range.numberOfBytes.toNat)

/-- The tables that `Query` is meant to accept. -/
structure Admissible (table : List PhysicalMemoryRange) : Prop where
  present : 1 ≤ table.length
  few : table.length ≤ 2 ^ 20
  nonempty : ∀ range ∈ table, range.numberOfBytes ≠ 0
  fits : ∀ range ∈ table,
    range.baseAddress.toNat + range.numberOfBytes.toNat ≤ 2 ^ 64 - 1
  disjoint : table.Pairwise fun a b => Disjoint a.cells b.cells

/-- The topology of a table, with exact totals. -/
structure Exactly (table : List PhysicalMemoryRange) (topology : Topology) : Prop where
  perm : topology.runs.Perm (numbered table)
  sorted : topology.runs.Pairwise fun a b => a.base < b.base
  indices : (topology.runs.map fun run => run.driverIndex.toNat).Perm (List.range table.length)
  totalBytes : topology.totalBytes.toNat = (table.map fun range => range.numberOfBytes.toNat).sum
  highestEnd_le : ∀ range ∈ table,
    range.baseAddress.toNat + range.numberOfBytes.toNat ≤ topology.highestEnd.toNat
  highestEnd_mem : ∃ range ∈ table,
    range.baseAddress.toNat + range.numberOfBytes.toNat = topology.highestEnd.toNat

/-! ### The summary of the driver -/

/-- A range that the loop of the driver neither skips nor leaves out of the total. -/
theorem summarizeRanges_cons {range : PhysicalMemoryRange} {rest : List PhysicalMemoryRange}
    {total highest : UInt64}
    (fits : range.baseAddress.toNat + range.numberOfBytes.toNat < 2 ^ 64)
    (small : total.toNat + range.numberOfBytes.toNat < 2 ^ 64) :
    summarizeRanges (range :: rest) (total, highest) =
      summarizeRanges rest (total + range.numberOfBytes,
        if range.baseAddress + range.numberOfBytes > highest then
          range.baseAddress + range.numberOfBytes
        else highest) := by
  have whole : ¬range.numberOfBytes > uint64Max - range.baseAddress := by
    rw [gt_iff_lt, UInt64.not_lt, uint64Max, Word.le_max_sub_iff]
    exact fits
  have counted : uint64Max - total ≥ range.numberOfBytes := by
    rw [ge_iff_le, uint64Max, Word.le_max_sub_iff]
    exact small
  rw [summarizeRanges, if_neg whole, if_pos counted]

/-- Without overflow the summary is exact. -/
theorem summarizeRanges_exact {table : List PhysicalMemoryRange} (total highest : UInt64)
    (fits : ∀ range ∈ table, range.baseAddress.toNat + range.numberOfBytes.toNat < 2 ^ 64)
    (small : total.toNat + (table.map fun range => range.numberOfBytes.toNat).sum < 2 ^ 64) :
    (summarizeRanges table (total, highest)).1.toNat =
        total.toNat + (table.map fun range => range.numberOfBytes.toNat).sum ∧
      (summarizeRanges table (total, highest)).2.toNat =
        table.foldl (fun last range =>
          max last (range.baseAddress.toNat + range.numberOfBytes.toNat)) highest.toNat := by
  induction table generalizing total highest with
  | nil => exact ⟨rfl, rfl⟩
  | cons range rest ih =>
      rw [List.map_cons, List.sum_cons] at small ⊢
      have fitsHere := fits range List.mem_cons_self
      have added : (total + range.numberOfBytes).toNat =
          total.toNat + range.numberOfBytes.toNat := Word.toNat_add_of_lt (by omega)
      have stop := Word.toNat_add_of_lt fitsHere
      obtain ⟨sum, last⟩ := ih (total + range.numberOfBytes)
        (if range.baseAddress + range.numberOfBytes > highest then
          range.baseAddress + range.numberOfBytes else highest)
        (fun r member => fits r (List.mem_cons_of_mem _ member)) (by omega)
      rw [summarizeRanges_cons fitsHere (by omega)]
      refine ⟨by omega, ?_⟩
      rw [last, List.foldl_cons]
      congr 1
      split
      · next later =>
          rw [gt_iff_lt, UInt64.lt_iff_toNat_lt, stop] at later
          rw [stop, Nat.max_eq_right (Nat.le_of_lt later)]
      · next earlier =>
          rw [gt_iff_lt, UInt64.not_lt, UInt64.le_iff_toNat_le, stop] at earlier
          rw [Nat.max_eq_left earlier]

/-- The greatest of some numbers and a lower bound. -/
theorem le_foldl_max {α : Type} (f : α → Nat) (as : List α) (start : Nat) :
    start ≤ as.foldl (fun last a => max last (f a)) start ∧
      ∀ a ∈ as, f a ≤ as.foldl (fun last a => max last (f a)) start := by
  induction as generalizing start with
  | nil => exact ⟨Nat.le_refl _, fun a member => nomatch member⟩
  | cons a as ih =>
      obtain ⟨bound, each⟩ := ih (max start (f a))
      refine ⟨Nat.le_trans (Nat.le_max_left _ _) bound, fun b member => ?_⟩
      cases List.mem_cons.mp member with
      | inl same =>
          rw [same]
          exact Nat.le_trans (Nat.le_max_right _ _) bound
      | inr later => exact each b later

theorem foldl_max_mem {α : Type} (f : α → Nat) (as : List α) (start : Nat) :
    as.foldl (fun last a => max last (f a)) start = start ∨
      ∃ a ∈ as, f a = as.foldl (fun last a => max last (f a)) start := by
  induction as generalizing start with
  | nil => exact .inl rfl
  | cons a as ih =>
      rw [List.foldl_cons]
      rcases ih (max start (f a)) with same | ⟨b, member, top⟩
      · rw [same]
        rcases Nat.le_total start (f a) with le | le
        · exact .inr ⟨a, List.mem_cons_self, (Nat.max_eq_right le).symm⟩
        · exact .inl (Nat.max_eq_left le)
      · exact .inr ⟨b, List.mem_cons_of_mem _ member, top⟩

/-! ### The checks of the client -/

namespace DeviceSession

/-- Ranges that pass the checks of the loop are numbered. -/
theorem collectRuns_some {table : List PhysicalMemoryRange}
    (valid : ∀ range ∈ table, range.numberOfBytes ≠ 0 ∧
      range.baseAddress.toNat + range.numberOfBytes.toNat ≤ 2 ^ 64 - 1) (i : UInt32) :
    ∃ runs, collectRuns (table.map PhysicalMemoryRange.toRun) i = some runs := by
  induction table generalizing i with
  | nil => exact ⟨[], rfl⟩
  | cons range rest ih =>
      obtain ⟨nonempty, fits⟩ := valid range List.mem_cons_self
      obtain ⟨others, collected⟩ := ih (fun r member => valid r (List.mem_cons_of_mem _ member))
        (i + 1)
      have passes : ¬(range.toRun.numberOfBytes = 0 ∨
          range.toRun.baseAddress > uint64Max - range.toRun.numberOfBytes) := by
        rw [not_or, gt_iff_lt, UInt64.not_lt, uint64Max, Word.le_max_sub_iff]
        refine ⟨nonempty, ?_⟩
        change range.numberOfBytes.toNat + range.baseAddress.toNat < 2 ^ 64
        omega
      rw [List.map_cons, collectRuns, if_neg passes, collected]
      exact ⟨_, rfl⟩

/-- The comparison of neighbours accepts disjoint runs. -/
theorem runsOverlap_false {runs : List MemoryRun} (valid : ∀ run ∈ runs, run.Valid)
    (ordered : Ordered (runIntervals runs)) : runsOverlap runs = false := by
  induction runs with
  | nil => rfl
  | cons run rest ih =>
      cases rest with
      | nil => rfl
      | cons next rest =>
          obtain ⟨first, later⟩ := ordered_cons.mp ordered
          have fits := (valid run List.mem_cons_self).fits
          have before : run.interval.stop ≤ next.interval.start :=
            first next.interval List.mem_cons_self
          have apart : ¬run.base + run.length > next.base := by
            rw [gt_iff_lt, UInt64.not_lt, UInt64.le_iff_toNat_le, Word.toNat_add_of_lt fits]
            exact before
          rw [runsOverlap, ih (fun r member => valid r (List.mem_cons_of_mem _ member)) later,
            decide_eq_false apart]
          rfl

end DeviceSession

/-- The range that a run stands for. -/
def MemoryRun.range (run : MemoryRun) : PhysicalMemoryRange := ⟨run.base, run.length⟩

theorem map_range_numbered (table : List PhysicalMemoryRange) :
    (numbered table).map MemoryRun.range = table := by
  apply List.ext_getElem
  · simp [numbered]
  · intro i left right
    simp [numbered, MemoryRun.range]

theorem driverIndex_numbered {table : List PhysicalMemoryRange} (size : table.length < 2 ^ 32) :
    (numbered table).map (fun run => run.driverIndex.toNat) = List.range table.length := by
  apply List.ext_getElem
  · simp [numbered]
  · intro i left right
    rw [List.length_range] at right
    simp only [numbered, List.getElem_map, List.getElem_mapIdx, List.getElem_range]
    exact Nat.mod_eq_of_lt (Nat.lt_trans right size)

section Tables

variable {table : List PhysicalMemoryRange} {runs : List MemoryRun}

/-- Sorting by base puts disjoint nonempty ranges in order. -/
theorem ordered_sortRuns (perm : runs.Perm (numbered table)) (valid : ∀ run ∈ runs, run.Valid)
    (disjoint : table.Pairwise fun a b => Disjoint a.cells b.cells) :
    Ordered (runIntervals (DeviceSession.sortRuns runs)) := by
  have total : Std.Total fun a b : MemoryRun => a.base ≤ b.base := ⟨fun a b => by
    rw [UInt64.le_iff_toNat_le, UInt64.le_iff_toNat_le]
    exact Nat.le_total _ _⟩
  have trans : IsTrans MemoryRun fun a b => a.base ≤ b.base := ⟨fun a b c => UInt64.le_trans⟩
  have sorted : (DeviceSession.sortRuns runs).Pairwise fun a b => a.base ≤ b.base :=
    List.pairwise_insertionSort _ runs
  have same := DeviceSession.sortRuns_perm runs
  have apart : (DeviceSession.sortRuns runs).Pairwise fun a b =>
      Disjoint a.range.cells b.range.cells := by
    have sym : ∀ {a b : MemoryRun}, Disjoint a.range.cells b.range.cells →
        Disjoint b.range.cells a.range.cells := fun h => h.symm
    rw [(same.trans perm).pairwise_iff sym]
    rw [← map_range_numbered table, List.pairwise_map] at disjoint
    exact disjoint
  have nonempty : ∀ run ∈ DeviceSession.sortRuns runs, 0 < run.length.toNat := fun run member =>
    (valid run (same.mem_iff.mp member)).nonempty
  unfold runIntervals Ordered
  rw [List.pairwise_map]
  refine (sorted.and apart).imp_of_mem fun {a b} _ member ⟨le, separate⟩ => ?_
  rw [UInt64.le_iff_toNat_le] at le
  apply Nat.le_of_not_lt
  intro inside
  -- the second run would begin inside the first
  have shared : b.base.toNat ∈ a.range.cells := Finset.mem_Ico.mpr ⟨le, inside⟩
  refine Finset.disjoint_left.mp separate shared (Finset.mem_Ico.mpr ⟨Nat.le_refl _, ?_⟩)
  exact Nat.lt_add_of_pos_right (nonempty b member)

/-- Disjoint nonempty ranges do not share a base, and do not reach each other. -/
theorem Describes.disjoint {topology : Topology} (describes : Describes table topology) :
    table.Pairwise fun a b => Disjoint a.cells b.cells := by
  have sym : ∀ {a b : MemoryRun}, Disjoint a.range.cells b.range.cells →
      Disjoint b.range.cells a.range.cells := fun h => h.symm
  rw [← map_range_numbered table, List.pairwise_map, ← describes.perm.pairwise_iff sym]
  refine describes.ordered.imp fun {a b} before => Finset.disjoint_left.mpr fun n first second => ?_
  have inside : n < a.base.toNat + a.length.toNat := (Finset.mem_Ico.mp first).2
  have after : b.base.toNat ≤ n := (Finset.mem_Ico.mp second).1
  omega

/-- The lengths of the ranges are those of the runs. -/
theorem Describes.sum {topology : Topology} (describes : Describes table topology) :
    (table.map fun range => range.numberOfBytes.toNat).sum = total (runIntervals topology.runs) := by
  have lengths := (describes.perm.map MemoryRun.range).map fun range => range.numberOfBytes.toNat
  rw [map_range_numbered, List.map_map] at lengths
  rw [← lengths.sum_eq, total, runIntervals, List.map_map]
  rfl

theorem Describes.mem_range {topology : Topology} (describes : Describes table topology)
    {range : PhysicalMemoryRange} :
    range ∈ table ↔ ∃ run ∈ topology.runs, run.range = range := by
  have same := (describes.perm.map MemoryRun.range).mem_iff (a := range)
  rw [map_range_numbered, List.mem_map] at same
  exact same.symm

/-- What `Query` accepts, it describes exactly. -/
theorem Describes.exactly {topology : Topology} (describes : Describes table topology)
    (present : table ≠ []) : Exactly table topology := by
  have ordered : Ordered (runIntervals topology.runs) := by
    unfold runIntervals Ordered
    rw [List.pairwise_map]
    exact describes.ordered
  have fits : ∀ range ∈ table,
      range.baseAddress.toNat + range.numberOfBytes.toNat < 2 ^ 64 := fun range member => by
    obtain ⟨run, among, rfl⟩ := describes.mem_range.mp member
    exact (describes.valid run among).fits
  have small : total (runIntervals topology.runs) < 2 ^ 64 :=
    total_runIntervals_lt ordered fun run among => (describes.valid run among).fits
  obtain ⟨sum, highest⟩ := summarizeRanges_exact 0 0 fits (by
    rw [describes.sum]
    exact (Nat.zero_add _).symm ▸ small)
  rw [← describes.totals] at sum highest
  obtain ⟨-, below⟩ := le_foldl_max
    (fun range : PhysicalMemoryRange => range.baseAddress.toNat + range.numberOfBytes.toNat) table 0
  refine ⟨describes.perm, ?_, ?_, sum.trans (Nat.zero_add _), ?_, ?_⟩
  · refine describes.ordered.imp_of_mem fun {a b} member _ before => ?_
    have := (describes.valid a member).nonempty
    rw [UInt64.lt_iff_toNat_lt]
    omega
  · rw [← driverIndex_numbered describes.size]
    exact describes.perm.map _
  · intro range member
    rw [highest]
    exact below range member
  · rcases foldl_max_mem (fun range : PhysicalMemoryRange =>
        range.baseAddress.toNat + range.numberOfBytes.toNat) table 0 with zero | reached
    · obtain ⟨range, rest, shape⟩ := List.exists_cons_of_ne_nil present
      have member : range ∈ table := shape ▸ List.mem_cons_self
      refine ⟨range, member, ?_⟩
      have le := below range member
      rw [zero] at le
      rw [highest]
      change _ = table.foldl _ 0
      rw [zero]
      omega
    · obtain ⟨range, member, top⟩ := reached
      exact ⟨range, member, top.trans highest.symm⟩

end Tables

/-! ### The two requests of `Query` -/

section Requests

variable {d : Driver} {block : Nat} {table : List PhysicalMemoryRange}

/-- A `QUERY_INFO` whose buffer is large enough is served in an open session. -/
theorem phylaHandleQueryInfo_served {request : WdfRequest} (holds : Holds d table false block)
    (fileObject : request.fileObject = true) (room : ¬request.outputBufferLength < sizeofQueryInfo)
    (buffer : ntSuccess (request.outputStatus sizeofQueryInfo) = true) :
    phylaHandleQueryInfo request d =
      .ok (.queryInfo ⟨phylaProtocolVersion, d.context.runCount, d.context.totalBytes,
        d.context.highestPhysicalEnd⟩, sizeofQueryInfo) d := by
  have served : WP (phylaHandleQueryInfo request)
      (fun p d' => p = (.queryInfo ⟨phylaProtocolVersion, d.context.runCount,
        d.context.totalBytes, d.context.highestPhysicalEnd⟩, sizeofQueryInfo) ∧ d' = d)
      (fun _ _ => False) d := by
    simp only [phylaHandleQueryInfo, requestFileContext, fileObject, if_true, WP.bind_iff,
      WP.pure_iff]
    apply openRanges_wp
    · intro _ _
      rw [if_neg room, WP.bind_iff]
      apply ntCheck_wp (fun _ => ⟨rfl, rfl⟩)
      intro failed
      rw [buffer] at failed
      cases failed
    · intro closed
      exact closed block ⟨holds.ranges, holds.flag⟩
  obtain ⟨p, d', ran, rfl, rfl⟩ := served.returns
  exact ran

/-- A `GET_RANGES` whose buffer is large enough is served in an open session. -/
theorem phylaHandleGetRanges_served {request : WdfRequest} (holds : Holds d table false block)
    (few : table.length ≤ 2 ^ 20) (fileObject : request.fileObject = true)
    (room : ¬request.outputBufferLength < d.context.runCount.toUInt64 * sizeofMemoryRun)
    (buffer : ntSuccess
      (request.outputStatus (d.context.runCount.toUInt64 * sizeofMemoryRun)) = true) :
    phylaHandleGetRanges request d =
      .ok (.ranges (table.map PhysicalMemoryRange.toRun),
        d.context.runCount.toUInt64 * sizeofMemoryRun)
        { d with pool := d.pool.read block } := by
  have size : ¬d.context.runCount.toUInt64 > uint64Max / sizeofMemoryRun := by
    have bound : (uint64Max / sizeofMemoryRun).toNat = 2 ^ 60 - 1 := by decide
    rw [gt_iff_lt, UInt64.lt_iff_toNat_lt, UInt32.toNat_toUInt64, holds.runCount, bound]
    omega
  have served : WP (phylaHandleGetRanges request)
      (fun p d' => p = (.ranges (table.map PhysicalMemoryRange.toRun),
        d.context.runCount.toUInt64 * sizeofMemoryRun) ∧
        d' = { d with pool := d.pool.read block })
      (fun _ _ => False) d := by
    obtain ⟨entries, content, captured⟩ := holds.content
    have runs := map_entryAt PhysicalMemoryRange.toRun (captured ▸ holds.runCount)
    rw [captured] at runs
    simp only [phylaHandleGetRanges, requestFileContext, fileObject, if_true, WP.bind_iff,
      WP.pure_iff]
    apply openRanges_wp
    · intro other opened
      obtain ⟨rfl, -⟩ := holds.open_block opened
      rw [WP.get_iff, if_neg size, if_neg room, WP.bind_iff]
      apply ntCheck_wp
      · intro _
        rw [WP.bind_iff, rangesAt_wp, content, Option.getD_some, WP.pure_iff]
        exact ⟨congrArg (fun runs => (Reply.ranges runs, _)) runs, rfl⟩
      · intro failed
        rw [buffer] at failed
        cases failed
    · intro closed
      exact closed block ⟨holds.ranges, holds.flag⟩
  obtain ⟨p, d', ran, rfl, rfl⟩ := served.returns
  exact ran

namespace DeviceSession

variable {machine : Machine} {s : DeviceSession}

/-- The client's side of a request that the driver serves. -/
theorem deviceIoControl_served {code : UInt32} {input : PhylaReadRequest}
    {inputLength outputLength information : UInt64} {reply : Reply}
    (served : handleDeviceControl (machine.kernel s.tick) (deliver input inputLength outputLength)
      code s.driver.now = .ok (reply, information) d)
    {post : UInt32 × Option Reply → DeviceSession → Prop} {stop : Unit → DeviceSession → Prop}
    (h : post (information.toUInt32, some reply) (recorded d
      (.deviceControl (machine.kernel s.tick) (deliver input inputLength outputLength) code) s)) :
    WP (deviceIoControl machine code input inputLength outputLength) post stop s := by
  have completed : phylaEvtIoDeviceControl (machine.kernel s.tick)
      (deliver input inputLength outputLength) code s.driver.now =
      some (⟨statusSuccess, information, some reply⟩, d) := congrArg completeRequest served
  simp only [deviceIoControl, WP.bind_iff, WP.get_iff, completed, WP.set_iff]
  exact h

end DeviceSession

end Requests

/-! ### The composition -/

section Query

variable {machine : Machine} {s : DeviceSession} {table : List PhysicalMemoryRange} {block : Nat}

open DeviceSession

theorem Describes.admissible {topology : Topology} (describes : Describes table topology)
    (present : 1 ≤ table.length) (few : table.length ≤ 2 ^ 20) : Admissible table := by
  refine ⟨present, few, fun range member => ?_, fun range member => ?_, describes.disjoint⟩
  · obtain ⟨run, among, rfl⟩ := describes.mem_range.mp member
    exact Word.pos_iff.mpr (describes.valid run among).nonempty
  · obtain ⟨run, among, rfl⟩ := describes.mem_range.mp member
    have fits : run.range.baseAddress.toNat + run.range.numberOfBytes.toNat < 2 ^ 64 :=
      (describes.valid run among).fits
    omega

/-- Neither check of the client rejects an admissible table. -/
theorem Admissible.passes (admissible : Admissible table) :
    ∃ runs, collectRuns (table.map PhysicalMemoryRange.toRun) 0 = some runs ∧
      runsOverlap (sortRuns runs) = false := by
  obtain ⟨runs, collected⟩ := collectRuns_some
    (fun range member => ⟨admissible.nonempty range member, admissible.fits range member⟩) 0
  obtain ⟨same, valid⟩ := collectRuns_spec collected
  have zero : ∀ k : Nat, (0 : UInt32) + k.toUInt32 = k.toUInt32 := fun k => UInt32.zero_add _
  simp only [zero] at same
  have perm : runs.Perm (numbered table) := same ▸ .refl _
  refine ⟨runs, collected, runsOverlap_false ?_ (ordered_sortRuns perm valid admissible.disjoint)⟩
  exact fun run member => valid run ((sortRuns_perm runs).mem_iff.mp member)

theorem queryRanges_holds {info : PhylaQueryInfo} (holds : Holds s.driver.now table false block)
    (present : 1 ≤ table.length) (few : table.length ≤ 2 ^ 20)
    (count : info.runCount = s.driver.now.context.runCount)
    (totals : (info.totalBytes, info.highestPhysicalEnd) = summarizeRanges table (0, 0)) :
    WP (queryRanges machine info) (fun topology _ => Admissible table ∧ Exactly table topology)
      (fun _ _ => ¬Admissible table) s := by
  have served : handleDeviceControl (machine.kernel s.tick)
      (deliver noInput 0 (info.runCount.toUInt64 * sizeofMemoryRun)) ioctlPhylaGetRanges
      s.driver.now = .ok (.ranges (table.map PhysicalMemoryRange.toRun),
        info.runCount.toUInt64 * sizeofMemoryRun)
        { s.driver.now with pool := s.driver.now.pool.read block } := by
    rw [count]
    exact phylaHandleGetRanges_served holds few rfl (UInt64.lt_irrefl _) (by simp [deliver]; rfl)
  simp only [queryRanges, WP.bind_iff]
  apply deviceIoControl_served served
  simp only [ne_eq, not_true_eq_false, if_false]
  cases collected : collectRuns (table.map PhysicalMemoryRange.toRun) 0 with
  | none =>
      simp only [reject, WP.bind_iff, WP.modify_iff, WP.throw_iff]
      intro admissible
      obtain ⟨runs, passes, -⟩ := admissible.passes
      rw [collected] at passes
      cases passes
  | some runs =>
      simp only [WP.ite_iff, reject, WP.bind_iff, WP.modify_iff, WP.throw_iff, WP.pure_iff,
        Bool.not_eq_true]
      refine ⟨fun overlap admissible => ?_, fun disjoint => ?_⟩
      · obtain ⟨others, passes, apart⟩ := admissible.passes
        obtain rfl := Option.some.inj (collected.symm.trans passes)
        rw [apart] at overlap
        cases overlap
      · have describes := describes_of_query (by omega) collected disjoint totals
        exact ⟨describes.admissible present few,
          describes.exactly (List.length_pos_iff.mp present)⟩

theorem query_holds (holds : Holds s.driver.now table false block) (handle : s.handle = true) :
    WP (DeviceSession.query machine) (fun topology _ => Admissible table ∧ Exactly table topology)
      (fun _ _ => ¬Admissible table) s := by
  have served : handleDeviceControl (machine.kernel s.tick) (deliver noInput 0 sizeofQueryInfo)
      ioctlPhylaQueryInfo s.driver.now = _ :=
    phylaHandleQueryInfo_served holds rfl (UInt64.lt_irrefl _) rfl
  have count := holds.runCount
  have most : maxRunCount.toNat = 2 ^ 20 := rfl
  simp only [DeviceSession.query, WP.bind_iff, requireHandle, WP.get_iff, handle, if_true,
    WP.pure_iff]
  apply deviceIoControl_served served
  have answered : ¬(sizeofQueryInfo.toUInt32 ≠ sizeofQueryInfo.toUInt32 ∨
      phylaProtocolVersion ≠ phylaProtocolVersion) := by simp
  simp only [if_neg answered, WP.ite_iff, reject, WP.bind_iff, WP.modify_iff, WP.throw_iff]
  refine ⟨fun bad admissible => ?_, fun good => ?_⟩
  · rcases bad with none | many
    · rw [none] at count
      exact absurd admissible.present (by rw [← count]; decide)
    · rw [gt_iff_lt, UInt32.lt_iff_toNat_lt, most, count] at many
      exact absurd admissible.few (by omega)
  · rw [not_or, gt_iff_lt, UInt32.not_lt, UInt32.le_iff_toNat_le, most, count] at good
    obtain ⟨present, few⟩ := good
    rw [← Ne, Word.pos_iff32, count] at present
    exact queryRanges_holds holds present few rfl holds.totals

/-- In every open session `Query` succeeds exactly on the admissible tables, and then returns
the table sorted by base, under its driver indices, with exact totals. -/
theorem query_iff (machine : Machine) (s : DeviceSession) (handle : s.handle = true)
    (reached : Reached s.driver) (opened : ∃ block, s.driver.now.Open block) :
    (((deviceSession machine).query s).1.isSome ↔ Admissible (capturedTable s.driver)) ∧
      ∀ topology, ((deviceSession machine).query s).1 = some topology →
        Exactly (capturedTable s.driver) topology := by
  obtain ⟨session, about, represents⟩ := reached.tracked.now
  obtain ⟨block, isOpen⟩ := opened
  obtain ⟨table, rfl, holds⟩ := represents.of_open isOpen
  obtain rfl : table = capturedTable s.driver := about
  change ((method (DeviceSession.query machine) s).1.isSome ↔ _) ∧
    ∀ topology, (method (DeviceSession.query machine) s).1 = some topology → _
  have holding : WP (DeviceSession.query machine) _ _ s := query_holds holds handle
  rcases method_cases holding with
    ⟨topology, answer, admissible, exactly⟩ | ⟨refused, inadmissible⟩
  · rw [answer]
    exact ⟨⟨fun _ => admissible, fun _ => rfl⟩, fun _ same => Option.some.inj same ▸ exactly⟩
  · rw [refused]
    exact ⟨⟨fun none => (Bool.false_ne_true none).elim,
      fun admissible => (inadmissible admissible).elim⟩, fun _ none => nomatch none⟩

end Query

/-- A machine that reports two runs in descending order. -/
def descendingMachine : Machine where
  kernel _ := idleKernel (some [⟨0x3000, 0x1000⟩, ⟨0x1000, 0x1800⟩])
  openFailure _ := none
  dosError _ := errorInvalidData

theorem query_iff_descending :
    let s := ((deviceSession descendingMachine).openSession {}).2
    let topology : Topology := ⟨0x4000, 0x2800, [⟨1, 0x1000, 0x1800⟩, ⟨0, 0x3000, 0x1000⟩]⟩
    ((deviceSession descendingMachine).query s).1 = some topology ∧
      Admissible (capturedTable s.driver) ∧ Exactly (capturedTable s.driver) topology := by
  intro s topology
  have success : DeviceSession.openDevice descendingMachine {} = (true, s) := rfl
  have session := openDevice_inSession success
  obtain ⟨block, opened, -⟩ := session.represents.frozen_open
  have iff := query_iff descendingMachine s session.handle session.reached ⟨block, opened⟩
  have answer : ((deviceSession descendingMachine).query s).1 = some topology := by decide +kernel
  exact ⟨answer, iff.1.mp (by rw [answer]; rfl), iff.2 topology answer⟩

end PhylaRam
