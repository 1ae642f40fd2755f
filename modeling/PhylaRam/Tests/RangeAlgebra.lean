import PhylaRam.Device.Inspection
import PhylaRam.Evidence.Provenance

/-!
# The validator of the range test

`tests/test_range_algebra.cpp` checks a validator of its own. The program has none: the driver sums
a table up with saturating guards, and `Query` checks the ranges one by one and then neighbours
after sorting. `validateAndSort_agrees` says that what the test checks is what the two do together.
-/

namespace PhylaRam

open Program Interval DeviceSession

namespace RangeValidator

/-- The loop over the runs before they are sorted. -/
def sumRuns : List MemoryRun → UInt64 → UInt64 → Option (UInt64 × UInt64)
  | [], totalBytes, highestEnd => some (totalBytes, highestEnd)
  | run :: rest, totalBytes, highestEnd =>
      if run.length = 0 then none
      else if run.base > uint64Max - run.length then none
      else if totalBytes > uint64Max - run.length then none
      else
        sumRuns rest (totalBytes + run.length)
          (if run.base + run.length > highestEnd then run.base + run.length else highestEnd)

/-- `ValidateAndSort`, with what it leaves in its arguments when it returns true. The sort and the
comparison of neighbours are those of `Query`. -/
def validateAndSort (runs : List MemoryRun) : Option Topology :=
  if runs.isEmpty then none
  else
    match sumRuns runs 0 0 with
    | none => none
    | some (totalBytes, highestEnd) =>
        if runsOverlap (sortRuns runs) then none
        else some ⟨highestEnd, totalBytes, sortRuns runs⟩

section Runs

variable {runs : List MemoryRun} {totalBytes highestEnd : UInt64} {sums : UInt64 × UInt64}

/-- Where the loop does not stop, no guard of the driver fires. -/
theorem sumRuns_some (summed : sumRuns runs totalBytes highestEnd = some sums) :
    (∀ run ∈ runs, run.Valid) ∧
      sums = summarizeRanges (runs.map MemoryRun.range) (totalBytes, highestEnd) := by
  induction runs generalizing totalBytes highestEnd with
  | nil => exact ⟨(fun run member => nomatch member), (Option.some.inj summed).symm⟩
  | cons run rest ih =>
      rw [sumRuns] at summed
      split at summed
      · cases summed
      split at summed
      · cases summed
      split at summed
      · cases summed
      next nonempty fits small =>
        rw [gt_iff_lt, UInt64.not_lt, uint64Max, Word.le_max_sub_iff] at fits small
        obtain ⟨valid, same⟩ := ih summed
        have here : run.Valid := ⟨Word.pos_iff.mp nonempty, by omega⟩
        refine ⟨List.forall_mem_cons.mpr ⟨here, valid⟩, ?_⟩
        rw [List.map_cons, summarizeRanges_cons here.fits (by rw [Nat.add_comm]; exact small)]
        exact same

theorem sumRuns_isSome (valid : ∀ run ∈ runs, run.Valid)
    (small : totalBytes.toNat + total (runIntervals runs) < 2 ^ 64) :
    (sumRuns runs totalBytes highestEnd).isSome := by
  induction runs generalizing totalBytes highestEnd with
  | nil => rfl
  | cons run rest ih =>
      obtain ⟨here, others⟩ := List.forall_mem_cons.mp valid
      have sum : total (runIntervals (run :: rest)) = run.length.toNat + total (runIntervals rest) :=
        rfl
      have fits := here.fits
      have more : totalBytes.toNat + run.length.toNat < 2 ^ 64 := by omega
      have nonempty : run.length ≠ 0 := Word.pos_iff.mpr here.nonempty
      have below : ¬run.base > uint64Max - run.length := by
        rw [gt_iff_lt, UInt64.not_lt, uint64Max, Word.le_max_sub_iff]
        omega
      have counted : ¬totalBytes > uint64Max - run.length := by
        rw [gt_iff_lt, UInt64.not_lt, uint64Max, Word.le_max_sub_iff]
        omega
      rw [sumRuns, if_neg nonempty, if_neg below, if_neg counted]
      refine ih others ?_
      rw [Word.toNat_add_of_lt more]
      omega

end Runs

section Tables

variable {table : List PhysicalMemoryRange} {topology : Topology}

/-- `Query` numbers valid runs and rejects none. -/
theorem collectRuns_numbered (valid : ∀ run ∈ numbered table, run.Valid) :
    collectRuns (table.map PhysicalMemoryRange.toRun) 0 = some (numbered table) := by
  have each : ∀ range ∈ table, range.numberOfBytes ≠ 0 ∧
      range.baseAddress.toNat + range.numberOfBytes.toNat ≤ 2 ^ 64 - 1 := by
    intro range member
    rw [← map_range_numbered table] at member
    obtain ⟨run, among, rfl⟩ := List.mem_map.mp member
    exact ⟨Word.pos_iff.mpr (valid run among).nonempty, Nat.le_sub_one_of_lt (valid run among).fits⟩
  obtain ⟨runs, collected⟩ := collectRuns_some each 0
  obtain ⟨same, -⟩ := collectRuns_spec collected
  have zero : ∀ k : Nat, (0 : UInt32) + k.toUInt32 = k.toUInt32 := fun k => UInt32.zero_add _
  simp only [zero] at same
  rw [collected, same, numbered]

/-- What the validator accepts, it describes. -/
theorem describes_of_validated (size : table.length < 2 ^ 32)
    (validated : validateAndSort (numbered table) = some topology) :
    table ≠ [] ∧ Describes table topology := by
  unfold validateAndSort at validated
  split at validated
  · cases validated
  next present =>
    split at validated
    · cases validated
    next totalBytes highestEnd summed =>
      obtain ⟨valid, sums⟩ := sumRuns_some summed
      rw [map_range_numbered] at sums
      split at validated
      · cases validated
      next apart =>
        cases validated
        refine ⟨?_, describes_of_query size (collectRuns_numbered valid)
          (Bool.eq_false_of_not_eq_true apart) sums⟩
        rintro rfl
        exact present rfl

/-- The validator accepts whatever can be described. -/
theorem validated_of_describes (present : table ≠ []) (few : table.length ≤ 2 ^ 20)
    (describes : Describes table topology) : (validateAndSort (numbered table)).isSome := by
  have valid : ∀ run ∈ numbered table, run.Valid := fun run member =>
    describes.valid run (describes.perm.mem_iff.mpr member)
  have ordered : Ordered (runIntervals topology.runs) := by
    unfold runIntervals Ordered
    rw [List.pairwise_map]
    exact describes.ordered
  have small : total (runIntervals (numbered table)) < 2 ^ 64 := by
    have same : total (runIntervals topology.runs) = total (runIntervals (numbered table)) :=
      ((describes.perm.map MemoryRun.interval).map _).sum_eq
    rw [← same]
    exact total_runIntervals_lt ordered fun run among => (describes.valid run among).fits
  have accepted : (sumRuns (numbered table) 0 0).isSome :=
    sumRuns_isSome valid (by simpa using small)
  obtain ⟨sums, summed⟩ := Option.isSome_iff_exists.mp accepted
  obtain ⟨runs, collected, apart⟩ :=
    (describes.admissible (List.length_pos_iff.mpr present) few).passes
  obtain rfl := Option.some.inj ((collectRuns_numbered valid).symm.trans collected)
  have filled : ¬(numbered table).isEmpty = true := by
    simp [numbered, present]
  rw [validateAndSort, if_neg filled, summed]
  simp [apart]

end Tables

/-- On every table that is not too long for it, `Query` comes to what the validator of the test
comes to. -/
theorem validateAndSort_agrees (machine : Machine) {s : DeviceSession}
    {table : List PhysicalMemoryRange} (session : InSession table s)
    (few : table.length ≤ 2 ^ 20) :
    validateAndSort (numbered table) = ((deviceSession machine).query s).1 := by
  obtain ⟨block, opened, -⟩ := session.represents.frozen_open
  have accepts := (query_iff machine s session.handle session.reached ⟨block, opened⟩).1
  rw [session.captured] at accepts
  rcases asked : (deviceSession machine).query s with ⟨answer, t⟩
  rw [asked] at accepts
  cases answer with
  | none =>
      have refused : ¬Admissible table := fun admissible => nomatch accepts.mpr admissible
      refine Option.eq_none_iff_forall_ne_some.mpr fun topology validated => refused ?_
      obtain ⟨present, describes⟩ := describes_of_validated (by omega) validated
      exact describes.admissible (List.length_pos_iff.mpr present) few
  | some topology =>
      have admissible := accepts.mp rfl
      have describes := ((query_wp machine session).of_ok (method_returned asked)).2
      have present : table ≠ [] := List.length_pos_iff.mp admissible.present
      obtain ⟨topology', validated⟩ := Option.isSome_iff_exists.mp
        (validated_of_describes present few describes)
      have runs : topology.runs ≠ [] := by
        intro none
        have empty := describes.perm.length_eq
        rw [none, numbered, List.length_mapIdx] at empty
        exact present (List.length_eq_zero_iff.mp empty.symm)
      rw [validated, describes.unique (describes_of_validated (by omega) validated).2 runs]

/-- Two ranges in descending order. -/
theorem validateAndSort_agrees_descending :
    let s := ((deviceSession descendingMachine).openSession {}).2
    ((deviceSession descendingMachine).query s).1.isSome ∧
      validateAndSort (numbered (capturedTable s.driver)) =
        ((deviceSession descendingMachine).query s).1 := by
  intro s
  have success : DeviceSession.openDevice descendingMachine {} = (true, s) := rfl
  exact ⟨by decide +kernel,
    validateAndSort_agrees descendingMachine (openDevice_inSession success) (by decide)⟩

end RangeValidator

end PhylaRam
