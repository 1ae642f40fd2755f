import PhylaRam.Acquire.Partition
import PhylaRam.Library.Placement
import PhylaRam.Writer.Zdmp

/-!
# The layout of a crash dump

The writer has two views of its runs. `CalculateFileOffset` uses all of them and places
each run after the previous one; the run table of the header has 32 entries, from which a
reader of the dump computes the places again. The first view is the placement of the runs
as intervals. The two agree as long as the table has room for every run that has pages and
no run reaches the end of the 64-bit addresses, where the comparison of `CalculateFileOffset`
wraps around and finds nothing.
-/

namespace PhylaRam

open Interval

namespace ZdmpWriter

/-! ### The translation of addresses -/

/-- The comparison of the loop over the runs. -/
def containsAddress (physicalAddress : UInt64) (entry : MemoryRun × UInt64) : Bool :=
  entry.1.base ≤ physicalAddress && physicalAddress < entry.1.base + entry.1.length

/-- The run that `CalculateFileOffset` finds, with its place. -/
def locateRun (m : ZdmpMembers) (physicalAddress : UInt64) : Option (MemoryRun × UInt64) :=
  (m.runs.zip m.runFileOffsets).find? (containsAddress physicalAddress)

theorem calculateFileOffset_of_some {m : ZdmpMembers} {address : UInt64}
    {entry : MemoryRun × UInt64} (found : locateRun m address = some entry) :
    calculateFileOffset m address = entry.2 + (address - entry.1.base) := by
  rw [calculateFileOffset]
  split
  · next run offset located =>
      cases Option.some.inj (found.symm.trans located)
      rfl
  · next missed => cases found.symm.trans missed

/-- The members after `Configure` with `runs`. -/
structure Configured (runs : List MemoryRun) (m : ZdmpMembers) : Prop where
  runs_eq : m.runs = runs
  offsets_eq : m.runFileOffsets = fileOffsets headerBytes runs

theorem configured_configure (runs : List MemoryRun) (hints : KernelHints)
    (metadata : EvidenceMetadata) (m : ZdmpMembers) :
    Configured runs (configure runs hints metadata m) := ⟨rfl, rfl⟩

/-- The runs do not wrap around, and the dump of all of them has offsets of 64 bits. -/
structure Fits (list : List MemoryRun) : Prop where
  runs : ∀ run ∈ list, run.base.toNat + run.length.toNat < 2 ^ 64
  dump : 4096 + total (runIntervals list) ≤ 2 ^ 64

variable {runs : List MemoryRun} {m : ZdmpMembers}

/-- The comparison of the loop, over unbounded numbers. -/
theorem containsAddress_iff {entry : MemoryRun × UInt64}
    (fits : entry.1.base.toNat + entry.1.length.toNat < 2 ^ 64) (address : UInt64) :
    containsAddress address entry = true ↔ address.toNat ∈ entry.1.interval.cells := by
  rw [containsAddress, Bool.and_eq_true, decide_eq_true_eq, decide_eq_true_eq,
    UInt64.le_iff_toNat_le, UInt64.lt_iff_toNat_lt, Word.toNat_add_of_lt fits, Piece.mem_cells]
  rfl

/-- The end of a run that reaches 2^64 wraps around to a number below its base, so that the
run contains no address. -/
theorem not_containsAddress_of_wraps {entry : MemoryRun × UInt64}
    (wraps : 2 ^ 64 ≤ entry.1.base.toNat + entry.1.length.toNat) (address : UInt64) :
    ¬containsAddress address entry = true := by
  rw [containsAddress, Bool.and_eq_true, decide_eq_true_eq, decide_eq_true_eq,
    UInt64.le_iff_toNat_le, UInt64.lt_iff_toNat_lt, UInt64.toNat_add]
  have small := UInt64.toNat_lt entry.1.base
  have short := UInt64.toNat_lt entry.1.length
  omega

/-- The walk over the runs, with the sum of the lengths so far as an unbounded number. -/
theorem find_fileOffsets (address : UInt64) (start : Nat)
    (fits : ∀ run ∈ runs, run.base.toNat + run.length.toNat < 2 ^ 64)
    (room : start + total (runIntervals runs) ≤ 2 ^ 64)
    {found : Option (MemoryRun × UInt64)}
    (search : (runs.zip (fileOffsets (.ofNat start) runs)).find? (containsAddress address) =
      found) :
    (∀ entry, found = some entry →
      Place start (runIntervals runs) address.toNat (entry.2 + (address - entry.1.base)).toNat) ∧
    (found = none → address.toNat ∉ cells (runIntervals runs)) := by
  induction runs generalizing start with
  | nil =>
      refine ⟨fun entry same => ?_, fun _ => ?_⟩
      · rw [← search] at same
        cases same
      · exact Finset.notMem_empty _
  | cons run rest ih =>
      have fitsHere := fits run List.mem_cons_self
      have sum : total (runIntervals (run :: rest)) =
          run.length.toNat + total (runIntervals rest) := total_cons _ _
      by_cases inside : address.toNat ∈ run.interval.cells
      · have here : containsAddress address (run, .ofNat start) = true :=
          (containsAddress_iff fitsHere address).mpr inside
        have first : some (run, UInt64.ofNat start) = found :=
          (List.find?_cons_of_pos here).symm.trans search
        have bounds := Piece.mem_cells.mp inside
        have base : run.interval.start = run.base.toNat := rfl
        have stop : run.interval.stop = run.base.toNat + run.length.toNat := rfl
        have distance : (address - run.base).toNat = address.toNat - run.base.toNat :=
          Word.toNat_sub_of_le (by omega)
        rw [← first]
        refine ⟨fun entry same => ?_, fun none => by cases none⟩
        obtain rfl := Option.some.inj same
        refine place_cons.mpr (.inl ⟨inside, ?_⟩)
        rw [UInt64.toNat_add, UInt64.toNat_ofNat', Nat.mod_add_mod, distance,
          Nat.mod_eq_of_lt (by omega)]
        rfl
      · have elsewhere : ¬containsAddress address (run, .ofNat start) = true := fun here =>
          inside ((containsAddress_iff fitsHere address).mp here)
        have next : UInt64.ofNat start + run.length = .ofNat (start + run.length.toNat) := by
          rw [UInt64.ofNat_add, UInt64.ofNat_toNat]
        have later : (rest.zip (fileOffsets (.ofNat (start + run.length.toNat)) rest)).find?
            (containsAddress address) = found := by
          rw [← next]
          exact (List.find?_cons_of_neg elsewhere).symm.trans search
        obtain ⟨located, missed⟩ := ih (start + run.length.toNat)
          (fun other member => fits other (List.mem_cons_of_mem _ member)) (by omega) later
        refine ⟨fun entry same => place_cons.mpr (.inr (located entry same)), fun none => ?_⟩
        show address.toNat ∉ run.interval.cells ∪ cells (runIntervals rest)
        rw [Finset.mem_union, not_or]
        exact ⟨inside, missed none⟩

/-- An address of a run is translated to its place; the fallback is for others only. -/
theorem Configured.place (configured : Configured runs m) (fits : Fits runs) {address : UInt64}
    (member : address.toNat ∈ cells (runIntervals runs)) :
    (locateRun m address).isSome ∧
      Place 4096 (runIntervals runs) address.toNat (calculateFileOffset m address).toNat := by
  have search : (runs.zip (fileOffsets (.ofNat 4096) runs)).find? (containsAddress address) =
      locateRun m address := by
    rw [locateRun, configured.runs_eq, configured.offsets_eq]
    rfl
  obtain ⟨located, missed⟩ := find_fileOffsets address 4096 fits.runs fits.dump search
  cases found : locateRun m address with
  | none => exact (missed found member).elim
  | some entry =>
      rw [calculateFileOffset_of_some found]
      exact ⟨rfl, located entry found⟩

/-- An address in no run short of 2^64 gets the fallback. -/
theorem Configured.calculateFileOffset_fallback (configured : Configured runs m)
    {address : UInt64} (missed : ∀ run ∈ runs, run.base.toNat + run.length.toNat < 2 ^ 64 →
      address.toNat ∉ run.interval.cells) :
    calculateFileOffset m address = headerBytes := by
  have none : locateRun m address = none := by
    refine List.find?_eq_none.mpr fun entry member => ?_
    obtain ⟨among, -⟩ := List.of_mem_zip member
    rw [configured.runs_eq] at among
    by_cases fits : entry.1.base.toNat + entry.1.length.toNat < 2 ^ 64
    · exact fun here => missed entry.1 among fits ((containsAddress_iff fits address).mp here)
    · exact not_containsAddress_of_wraps (Nat.le_of_not_lt fits) address
  rw [calculateFileOffset]
  split
  · next run offset located => cases none.symm.trans located
  · rfl

end ZdmpWriter

/-! ### The run table of the header -/

/-- A run of whole pages. -/
structure MemoryRun.PageAligned (run : MemoryRun) : Prop where
  base : 4096 ∣ run.base.toNat
  length : 4096 ∣ run.length.toNat

instance (run : MemoryRun) : Decidable run.PageAligned :=
  decidable_of_iff (4096 ∣ run.base.toNat ∧ 4096 ∣ run.length.toNat)
    ⟨fun h => ⟨h.1, h.2⟩, fun h => ⟨h.base, h.length⟩⟩

namespace DumpHeader64

/-- The part of the run table that the header declares. -/
def declaredRuns (h : DumpHeader64) : List PhysicalMemoryRun64 :=
  h.runs.take h.numberOfRuns.toNat

/-- The place of a page for a reader of the dump, who walks the run table and accumulates
the page counts. -/
def findPage : Nat → List PhysicalMemoryRun64 → Nat → Option Nat
  | _, [], _ => none
  | offset, run :: rest, page =>
      if run.basePage.toNat ≤ page ∧ page < run.basePage.toNat + run.pageCount.toNat then
        some (offset + 4096 * (page - run.basePage.toNat))
      else findPage (offset + 4096 * run.pageCount.toNat) rest page

/-- The header agrees with the writer's own use of its runs. -/
structure DescribesRuns (h : DumpHeader64) (m : ZdmpMembers) : Prop where
  pages : (h.declaredRuns.map fun run => run.pageCount.toNat).sum = h.numberOfPages.toNat
  places : ∀ run ∈ m.runs, ∀ page, 4096 * page ∈ run.interval.cells →
    findPage 4096 h.declaredRuns page =
      some (ZdmpWriter.calculateFileOffset m (.ofNat (4096 * page))).toNat

end DumpHeader64

namespace ZdmpWriter

open DumpHeader64

/-- The entry of the run table for a run. -/
def tableEntry (run : MemoryRun) : PhysicalMemoryRun64 := ⟨run.base / 4096, run.length / 4096⟩

theorem declaredRuns_header (m : ZdmpMembers) (expected : UInt64) :
    (header m expected).declaredRuns = (m.runs.take 32).map tableEntry := by
  have count : (UInt32.ofNat (min m.runs.length 32)).toNat = min m.runs.length 32 := by
    rw [UInt32.toNat_ofNat', Nat.mod_eq_of_lt (by omega)]
  show ((m.runs.take 32).map tableEntry).take (UInt32.ofNat (min m.runs.length 32)).toNat = _
  rw [count, List.take_of_length_le]
  rw [List.length_map, List.length_take, Nat.min_comm]

variable {runs : List MemoryRun} {m : ZdmpMembers}

theorem pageCount_toNat {run : MemoryRun} (aligned : run.PageAligned) :
    4096 * (tableEntry run).pageCount.toNat = run.length.toNat := by
  show 4096 * (run.length / 4096).toNat = _
  rw [UInt64.toNat_div]
  exact Nat.mul_div_cancel' aligned.length

theorem basePage_toNat {run : MemoryRun} (aligned : run.PageAligned) :
    4096 * (tableEntry run).basePage.toNat = run.base.toNat := by
  show 4096 * (run.base / 4096).toNat = _
  rw [UInt64.toNat_div]
  exact Nat.mul_div_cancel' aligned.base

theorem sum_pageCount (aligned : ∀ run ∈ runs, run.PageAligned) :
    4096 * ((runs.map tableEntry).map fun run => run.pageCount.toNat).sum =
      total (runIntervals runs) := by
  induction runs with
  | nil => rfl
  | cons run rest ih =>
      have first := pageCount_toNat (aligned run List.mem_cons_self)
      have later := ih fun other member => aligned other (List.mem_cons_of_mem _ member)
      have sum : total (runIntervals (run :: rest)) =
          run.length.toNat + total (runIntervals rest) := total_cons _ _
      rw [List.map_cons, List.map_cons, List.sum_cons, Nat.mul_add, first, later, sum]

/-- Whole pages leave room for the header. -/
theorem fits_of_aligned (aligned : ∀ run ∈ runs, run.PageAligned)
    (fits : ∀ run ∈ runs, run.base.toNat + run.length.toNat < 2 ^ 64)
    (ordered : Ordered (runIntervals runs)) : Fits runs := by
  have small := total_runIntervals_lt ordered fits
  have whole := sum_pageCount aligned
  exact ⟨fits, by omega⟩

/-- The reader's walk finds the place of a page of the runs. -/
theorem findPage_place (aligned : ∀ run ∈ runs, run.PageAligned) {page : Nat} (start : Nat)
    (member : 4096 * page ∈ cells (runIntervals runs)) :
    ∃ k, findPage start (runs.map tableEntry) page = some k ∧
      Place start (runIntervals runs) (4096 * page) k := by
  induction runs generalizing start with
  | nil => exact (Finset.notMem_empty _ member).elim
  | cons run rest ih =>
      have base := basePage_toNat (aligned run List.mem_cons_self)
      have count := pageCount_toNat (aligned run List.mem_cons_self)
      have first : run.interval.start = run.base.toNat := rfl
      have stop : run.interval.stop = run.base.toNat + run.length.toNat := rfl
      rw [List.map_cons, findPage, count]
      split
      · next inside =>
          refine ⟨_, rfl, place_cons.mpr (.inl ⟨Piece.mem_cells.mpr ⟨?_, ?_⟩, ?_⟩)⟩
          · omega
          · omega
          · omega
      · next outside =>
          have elsewhere : 4096 * page ∉ run.interval.cells := by
            rw [Piece.mem_cells]
            omega
          have later : 4096 * page ∈ cells (runIntervals rest) :=
            (Finset.mem_union.mp member).resolve_left elsewhere
          obtain ⟨k, found, place⟩ := ih
            (fun other member => aligned other (List.mem_cons_of_mem _ member))
            (start + run.length.toNat) later
          exact ⟨k, found, place_cons.mpr (.inr place)⟩

theorem runIntervals_take_append_drop (runs : List MemoryRun) (count : Nat) :
    runIntervals runs = runIntervals (runs.take count) ++ runIntervals (runs.drop count) := by
  rw [runIntervals, runIntervals, runIntervals, ← List.map_append, List.take_append_drop]

/-- The table covers the pages of all runs when the runs after the 32nd are empty. -/
theorem total_take_of_drop_empty (empty : ∀ run ∈ runs.drop 32, run.length = 0) :
    total (runIntervals (runs.take 32)) = total (runIntervals runs) := by
  have none : total (runIntervals (runs.drop 32)) = 0 := by
    refine List.sum_eq_zero fun length member => ?_
    simp only [runIntervals, List.map_map, List.mem_map] at member
    obtain ⟨run, among, rfl⟩ := member
    exact congrArg UInt64.toNat (empty run among)
  have split := runIntervals_take_append_drop runs 32
  rw [split, total_append, none, Nat.add_zero]

/-- The walk over the 32 declared runs finds the place that a page has among all runs. -/
theorem findPage_header (aligned : ∀ run ∈ runs, run.PageAligned)
    (empty : ∀ run ∈ runs.drop 32, run.length = 0) (expected : UInt64)
    (configured : Configured runs m) {page : Nat}
    (among : 4096 * page ∈ cells (runIntervals runs)) :
    ∃ k, findPage 4096 (header m expected).declaredRuns page = some k ∧
      Place 4096 (runIntervals runs) (4096 * page) k := by
  have split := runIntervals_take_append_drop runs 32
  have none := total_take_of_drop_empty empty
  rw [split, total_append] at none
  have within : 4096 * page ∈ cells (runIntervals (runs.take 32)) := by
    rw [split, cells_append, Finset.mem_union] at among
    refine among.resolve_right fun later => ?_
    obtain ⟨k, there⟩ := exists_place later 0
    have := there.bounds
    omega
  obtain ⟨k, found, there⟩ := findPage_place
    (fun run member => aligned run (List.mem_of_mem_take member)) 4096 within
  rw [declaredRuns_header, configured.runs_eq]
  refine ⟨k, found, ?_⟩
  rw [split]
  exact place_append.mpr (.inl there)

/-- A run that reaches the end of the addresses is found by no address, so its pages are
translated to the first page of the dump: it must have just that page. -/
theorem total_of_wraps (aligned : ∀ run ∈ runs, run.PageAligned)
    (ordered : Ordered (runIntervals runs)) (configured : Configured runs m)
    (places : ∀ run ∈ runs, ∀ page, 4096 * page ∈ run.interval.cells →
      Place 4096 (runIntervals runs) (4096 * page)
        (calculateFileOffset m (.ofNat (4096 * page))).toNat)
    {run : MemoryRun} (member : run ∈ runs)
    (wraps : 2 ^ 64 ≤ run.base.toNat + run.length.toNat) :
    total (runIntervals runs) = 4096 := by
  obtain ⟨before, after, rfl⟩ := List.append_of_mem member
  have small := UInt64.toNat_lt run.base
  obtain ⟨pageOfBase, base⟩ := (aligned run member).base
  obtain ⟨pages, length⟩ := (aligned run member).length
  have split : runIntervals (before ++ run :: after) =
      runIntervals before ++ run.interval :: runIntervals after := by simp [runIntervals]
  rw [split] at ordered places ⊢
  obtain ⟨-, ofRun, apart⟩ := ordered_append.mp ordered
  -- A later run would have to start beyond the last address.
  obtain rfl : after = [] := by
    refine List.eq_nil_iff_forall_not_mem.mpr fun other later => ?_
    have follows : run.base.toNat + run.length.toNat ≤ other.base.toNat :=
      (ordered_cons.mp ofRun).1 _ (List.mem_map_of_mem later)
    have := UInt64.toNat_lt other.base
    omega
  have sum : total (runIntervals before ++ [run.interval]) =
      total (runIntervals before) + run.length.toNat := total_append _ _
  have inRun : ∀ {n}, run.base.toNat ≤ n → n < run.base.toNat + run.length.toNat →
      n ∈ run.interval.cells := fun low high => Piece.mem_cells.mpr ⟨low, high⟩
  have placed : ∀ {n}, n ∈ run.interval.cells →
      Place 4096 (runIntervals before ++ [run.interval]) n
        (4096 + total (runIntervals before) + (n - run.base.toNat)) := fun inside =>
    ⟨runIntervals before, run.interval, [], rfl, inside, rfl⟩
  have fallback : ∀ {address : UInt64},
      (∀ other ∈ before, address.toNat ∉ other.interval.cells) →
      calculateFileOffset m address = headerBytes := by
    refine fun missed => configured.calculateFileOffset_fallback fun other among fits => ?_
    rcases List.mem_append.mp among with earlier | last
    · exact missed other earlier
    · obtain rfl := List.mem_singleton.mp last
      omega
  -- The first page is translated to the first place, so the runs before have no pages.
  have empty : total (runIntervals before) = 0 := by
    have atBase : 4096 * pageOfBase ∈ run.interval.cells := inRun (by omega) (by omega)
    have first := places run member pageOfBase atBase
    rw [← base, UInt64.ofNat_toNat, fallback fun other earlier inside => ?_] at first
    · have same := first.unique (placed (inRun (by omega) (by omega))) ordered
      have start : headerBytes.toNat = 4096 := rfl
      omega
    · have before := apart _ (List.mem_map_of_mem earlier) _ List.mem_cons_self
      have start : run.interval.start = run.base.toNat := rfl
      rw [Piece.mem_cells] at inside
      omega
  -- A second page would be translated to the first place as well.
  show total (runIntervals before ++ [run.interval]) = 4096
  rw [sum, empty]
  by_contra more
  have atSecond : 4096 * (pageOfBase + 1) ∈ run.interval.cells := inRun (by omega) (by omega)
  have second := places run member (pageOfBase + 1) atSecond
  rw [fallback fun other earlier inside => ?_] at second
  · have same := second.unique (placed atSecond) ordered
    have start : headerBytes.toNat = 4096 := rfl
    omega
  · have short := length_le_total (List.mem_map_of_mem (f := MemoryRun.interval) earlier)
    rw [Piece.mem_cells, Piece.stop] at inside
    have none : total (before.map MemoryRun.interval) = 0 := empty
    omega

/-- With a run that reaches the end of the addresses and one page in all, every address gets
the fallback. -/
theorem Configured.calculateFileOffset_of_single (configured : Configured runs m)
    (aligned : ∀ run ∈ runs, run.PageAligned) {run : MemoryRun} (member : run ∈ runs)
    (wraps : 2 ^ 64 ≤ run.base.toNat + run.length.toNat)
    (single : total (runIntervals runs) = 4096) (address : UInt64) :
    calculateFileOffset m address = headerBytes := by
  refine configured.calculateFileOffset_fallback fun other among fits inside => ?_
  have small := UInt64.toNat_lt run.base
  obtain ⟨pages, length⟩ := (aligned run member).length
  obtain ⟨before, after, rfl⟩ := List.append_of_mem member
  have split : runIntervals (before ++ run :: after) =
      runIntervals before ++ run.interval :: runIntervals after := by simp [runIntervals]
  rw [split, total_append, total_cons] at single
  have short : other.length.toNat ≤ total (runIntervals before) ∨
      other.length.toNat ≤ total (runIntervals after) := by
    rcases List.mem_append.mp among with earlier | later
    · exact .inl (length_le_total (List.mem_map_of_mem (f := MemoryRun.interval) earlier))
    · rcases List.mem_cons.mp later with rfl | later
      · omega
      · exact .inr (length_le_total (List.mem_map_of_mem (f := MemoryRun.interval) later))
  have whole : run.interval.length = run.length.toNat := rfl
  have count : other.interval.length = other.length.toNat := rfl
  rw [Piece.mem_cells, Piece.stop] at inside
  omega

/-- A single page is at the first place. -/
theorem place_of_single (aligned : ∀ run ∈ runs, run.PageAligned)
    (single : total (runIntervals runs) = 4096) {page k : Nat}
    (place : Place 4096 (runIntervals runs) (4096 * page) k) : k = 4096 := by
  obtain ⟨before, p, after, split, inside, rfl⟩ := place
  have member : p ∈ runIntervals runs := split ▸ List.mem_append_right _ List.mem_cons_self
  obtain ⟨run, among, rfl⟩ := List.mem_map.mp member
  obtain ⟨pageOfBase, base⟩ := (aligned run among).base
  obtain ⟨pages, length⟩ := (aligned run among).length
  have start : run.interval.start = run.base.toNat := rfl
  have count : run.interval.length = run.length.toNat := rfl
  rw [split, total_append, total_cons] at single
  rw [Piece.mem_cells, Piece.stop] at inside
  omega

/-- The header describes the runs exactly when the runs for which its table has no room are
empty and no run reaches the end of the 64-bit addresses, unless the last page before it is
the only page of the dump. -/
theorem header_describes_iff (runs : List MemoryRun) (hints : KernelHints)
    (metadata : EvidenceMetadata) (m : ZdmpMembers) (expected : UInt64)
    (aligned : ∀ run ∈ runs, run.PageAligned)
    (ordered : Ordered (runIntervals runs)) (sum : total (runIntervals runs) = expected.toNat) :
    (header (configure runs hints metadata m) expected).DescribesRuns
        (configure runs hints metadata m) ↔
      (∀ run ∈ runs.drop 32, run.length = 0) ∧
        ((∀ run ∈ runs, run.base.toNat + run.length.toNat < 2 ^ 64) ∨
          total (runIntervals runs) = 4096) := by
  have configured := configured_configure runs hints metadata m
  have declared : (header (configure runs hints metadata m) expected).declaredRuns =
      (runs.take 32).map tableEntry := declaredRuns_header _ _
  have pages : (header (configure runs hints metadata m) expected).numberOfPages.toNat =
      expected.toNat / 4096 := UInt64.toNat_div ..
  have first : ∀ run ∈ runs.take 32, run.PageAligned :=
    fun run member => aligned run (List.mem_of_mem_take member)
  have covered := sum_pageCount first
  have split : total (runIntervals (runs.take 32)) + total (runIntervals (runs.drop 32)) =
      total (runIntervals runs) := by
    rw [← total_append, ← runIntervals_take_append_drop]
  constructor
  · intro describes
    have empty : ∀ run ∈ runs.drop 32, run.length = 0 := by
      intro run member
      have counted := describes.pages
      rw [declared, pages] at counted
      have part : run.length.toNat ≤ total (runIntervals (runs.drop 32)) :=
        length_le_total (List.mem_map_of_mem (f := MemoryRun.interval) member)
      have page := (aligned run (List.mem_of_mem_drop member)).length
      rw [← UInt64.toNat_inj, UInt64.toNat_zero]
      omega
    refine ⟨empty, or_iff_not_imp_left.mpr fun wrapping => ?_⟩
    push Not at wrapping
    obtain ⟨run, member, wraps⟩ := wrapping
    refine total_of_wraps aligned ordered configured (fun other among page inside => ?_) member
      wraps
    obtain ⟨k, found, place⟩ := findPage_header aligned empty expected configured
      (mem_cells.mpr ⟨other.interval, List.mem_map_of_mem among, inside⟩)
    have stored := found.symm.trans (describes.places other among page inside)
    exact Option.some.inj stored ▸ place
  · rintro ⟨empty, whole⟩
    have none := total_take_of_drop_empty empty
    refine ⟨?_, fun run member page inside => ?_⟩
    · rw [declared, pages]
      omega
    · have among : 4096 * page ∈ cells (runIntervals runs) :=
        mem_cells.mpr ⟨run.interval, List.mem_map_of_mem member, inside⟩
      obtain ⟨k, found, there⟩ := findPage_header aligned empty expected configured among
      rw [found, Option.some.injEq]
      by_cases fits : ∀ run ∈ runs, run.base.toNat + run.length.toNat < 2 ^ 64
      · have address : (UInt64.ofNat (4096 * page)).toNat = 4096 * page := by
          refine UInt64.toNat_ofNat_of_lt' ?_
          have bound := fits run member
          have below := (Piece.mem_cells.mp inside).2
          exact Nat.lt_trans below bound
        obtain ⟨-, place⟩ := configured.place (fits_of_aligned aligned fits ordered)
          (address ▸ among)
        rw [address] at place
        exact there.unique place ordered
      · have single := whole.resolve_left fits
        push Not at fits
        obtain ⟨last, reached, wraps⟩ := fits
        rw [configured.calculateFileOffset_of_single aligned reached wraps single,
          place_of_single aligned single there]
        rfl

/-- Runs of one page each, with a page between them. -/
def scatteredPages (count : Nat) : List MemoryRun :=
  (List.range count).map fun i => ⟨.ofNat i, .ofNat (0x2000 * i), 0x1000⟩

theorem header_describes_scattered_pages :
    (header (configure (scatteredPages 2) {} {} {}) 0x2000).DescribesRuns
        (configure (scatteredPages 2) {} {} {}) ↔
      (∀ run ∈ (scatteredPages 2).drop 32, run.length = 0) ∧
        ((∀ run ∈ scatteredPages 2, run.base.toNat + run.length.toNat < 2 ^ 64) ∨
          total (runIntervals (scatteredPages 2)) = 4096) :=
  header_describes_iff (scatteredPages 2) {} {} {} 0x2000 (by decide)
    (show List.Pairwise _ _ by decide) rfl

/-- With 33 runs of one page the table declares 32 of the 33 pages. -/
theorem header_misses_33rd_run :
    (∀ run ∈ scatteredPages 33, run.PageAligned ∧ run.Valid) ∧
      Ordered (runIntervals (scatteredPages 33)) ∧
      total (runIntervals (scatteredPages 33)) = (0x21000 : UInt64).toNat ∧
      ¬(header (configure (scatteredPages 33) {} {} {}) 0x21000).DescribesRuns
        (configure (scatteredPages 33) {} {} {}) := by
  refine ⟨fun run member => ?_, show List.Pairwise _ _ by decide +kernel, by decide +kernel,
    fun describes => ?_⟩
  · have sound : ∀ run ∈ scatteredPages 33, run.PageAligned ∧ 0 < run.length.toNat ∧
        run.base.toNat + run.length.toNat < 2 ^ 64 := by decide +kernel
    obtain ⟨aligned, nonempty, fits⟩ := sound run member
    exact ⟨aligned, nonempty, fits⟩
  · have pages := describes.pages
    exact absurd pages (by decide +kernel)

end ZdmpWriter

end PhylaRam
