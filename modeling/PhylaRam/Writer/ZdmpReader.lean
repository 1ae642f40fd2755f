import PhylaRam.Writer.ZdmpFile

/-!
# Reading a crash dump

A reader who has nothing but the file and the layout of `DumpHeader64`. It takes the run table
from the bytes of the header, walks the runs to the one with the page it looks for, and reads the
byte there, if the file goes that far. The table is where the packed struct has it, eight bytes
behind the offset that the comment in the struct names. This module is that reader, and says what
it finds in a captured dump.
-/

namespace PhylaRam

open Packed Interval Image

/-! ### The run table in the bytes of the header -/

namespace DumpHeader64

/-- The place of `NumberOfRuns` in the packed header. -/
def numberOfRunsOffset : Nat := 256

def numberOfPagesOffset : Nat := 264

def runTableOffset : Nat := 272

/-- The place of the first page. -/
def runTableStart : Nat := 4096

def readEntry (content : List Byte) (i : Nat) : PhysicalMemoryRun64 where
  basePage := .ofNat (field content (runTableOffset + 16 * i) 8)
  pageCount := .ofNat (field content (runTableOffset + 16 * i + 8) 8)

def readRunTable (content : List Byte) : List PhysicalMemoryRun64 :=
  (List.range (field content numberOfRunsOffset 4)).map (readEntry content)

def readNumberOfPages (content : List Byte) : Nat := field content numberOfPagesOffset 8

variable {h : DumpHeader64} {content : List Byte}

/-- The header up to `NumberOfRuns`. -/
def front (h : DumpHeader64) : List Byte :=
  u32 h.signature ++ u32 h.validDump ++ u32 h.majorVersion ++ u32 h.minorVersion ++
  u64 h.directoryTableBase ++ u64 h.pfnDataBase ++ u64 h.psLoadedModuleList ++
  u64 h.psActiveProcessHead ++
  u32 h.machineImageType ++ u32 h.numberProcessors ++ u32 h.bugCheckCode ++
  u64 h.bugCheckParameter1 ++ u64 h.bugCheckParameter2 ++ u64 h.bugCheckParameter3 ++
  u64 h.bugCheckParameter4 ++
  array 32 h.versionUser ++ u64 h.kdDebuggerDataBlock ++ zeros 124

theorem length_front (h : DumpHeader64) : h.front.length = 256 := by
  unfold front
  simp only [List.length_append, length_u32, length_u64, length_zeros, length_array]

def runTable (h : DumpHeader64) : List Byte :=
  array 512 (h.runs.flatMap PhysicalMemoryRun64.bytes)

theorem bytes_split (h : DumpHeader64) :
    h.bytes = h.front ++ (u32 h.numberOfRuns ++ (zeros 4 ++ (u64 h.numberOfPages ++ (h.runTable ++
      (zeros 3192 ++ (u32 h.dumpType ++ zeros 116)))))) := by
  unfold bytes front runTable
  repeat rw [List.append_assoc]

/-- Where a reader finds the table. -/
theorem hasAt_table (header : content.take 4096 = h.bytes) :
    HasAt content numberOfRunsOffset (u32 h.numberOfRuns) ∧
      HasAt content numberOfPagesOffset (u64 h.numberOfPages) ∧
      HasAt content runTableOffset h.runTable := by
  have whole : HasAt content 0 h.bytes := by
    rw [HasAt, List.drop_zero, ← header]
    exact List.take_prefix _ _
  rw [bytes_split, HasAt.append_iff, length_front, HasAt.append_iff, length_u32,
    HasAt.append_iff, length_zeros, HasAt.append_iff, length_u64] at whole
  obtain ⟨-, runs, -, pages, table⟩ := whole
  exact ⟨runs, pages, table.front⟩

/-- An entry of the table. -/
theorem hasAt_entry (table : HasAt content runTableOffset h.runTable) (few : h.runs.length ≤ 32)
    {i : Nat} {run : PhysicalMemoryRun64} (found : h.runs[i]? = some run) :
    HasAt content (runTableOffset + 16 * i) run.bytes := by
  have size (run : PhysicalMemoryRun64) : run.bytes.length = 16 := by
    rw [PhysicalMemoryRun64.bytes, List.length_append, length_u64, length_u64]
  have total (runs : List PhysicalMemoryRun64) :
      (runs.flatMap PhysicalMemoryRun64.bytes).length = 16 * runs.length := by
    induction runs with
    | nil => rfl
    | cons run rest ih =>
        rw [List.flatMap_cons, List.length_append, ih, size, List.length_cons]
        omega
  obtain ⟨inside, rfl⟩ := List.getElem?_eq_some_iff.mp found
  have split : h.runs = h.runs.take i ++ h.runs[i] :: h.runs.drop (i + 1) := by
    rw [← List.drop_eq_getElem_cons inside, List.take_append_drop]
  rw [runTable, array_of_le (by rw [total]; omega)] at table
  have entries := table.front
  rw [split, List.flatMap_append, List.flatMap_cons, HasAt.append_iff, total, List.length_take,
    Nat.min_eq_left (Nat.le_of_lt inside)] at entries
  exact entries.2.front

/-- The reader gets the table that was written. -/
theorem readRunTable_eq (header : content.take 4096 = h.bytes)
    (count : h.numberOfRuns.toNat = h.runs.length) (few : h.runs.length ≤ 32) :
    readRunTable content = h.runs := by
  obtain ⟨runs, -, table⟩ := hasAt_table header
  rw [readRunTable, runs.field_u32, count]
  refine List.ext_getElem (by simp) fun i _ inside => ?_
  rw [List.getElem_map, List.getElem_range]
  have entry := hasAt_entry table few (List.getElem?_eq_getElem inside)
  rw [PhysicalMemoryRun64.bytes, HasAt.append_iff, length_u64] at entry
  rw [readEntry, entry.1.field_u64, entry.2.field_u64, UInt64.ofNat_toNat, UInt64.ofNat_toNat]

theorem readNumberOfPages_eq (header : content.take 4096 = h.bytes) :
    readNumberOfPages content = h.numberOfPages.toNat :=
  (hasAt_table header).2.1.field_u64

/-- Where the byte of a physical address is in the dump according to its run table. -/
def locatePhysical (content : List Byte) (n : Nat) : Option Nat :=
  (findPage runTableStart (readRunTable content) (n / 4096)).map (· + n % 4096)

/-- The byte that a reader of the dump finds for a physical address: none if the address is in no
run of the table, or the file ends before it. -/
def readPhysical (content : List Byte) (n : Nat) : Option Byte := do
  content[← locatePhysical content n]?

end DumpHeader64

open DumpHeader64 ZdmpWriter

section Reader

variable {runs : List MemoryRun} {n : Nat}

/-- Of whole pages either all addresses are in the runs or none. -/
theorem page_mem_iff (aligned : ∀ run ∈ runs, run.PageAligned) :
    4096 * (n / 4096) ∈ cells (runIntervals runs) ↔ n ∈ cells (runIntervals runs) := by
  have each (run : MemoryRun) (member : run ∈ runs) :
      4096 * (n / 4096) ∈ run.interval.cells ↔ n ∈ run.interval.cells := by
    obtain ⟨⟨base, based⟩, length, sized⟩ := aligned run member
    rw [Piece.mem_cells, Piece.mem_cells, Piece.stop, show run.interval.start = run.base.toNat from
      rfl, show run.interval.length = run.length.toNat from rfl]
    omega
  rw [mem_cells, mem_cells]
  refine exists_congr fun piece => and_congr_right fun member => ?_
  obtain ⟨run, among, rfl⟩ := List.mem_map.mp member
  exact each run among

/-- The bytes of a page are stored in a row. -/
theorem place_in_page (aligned : ∀ run ∈ runs, run.PageAligned) {start k : Nat}
    (place : Place start (runIntervals runs) (4096 * (n / 4096)) k) :
    Place start (runIntervals runs) n (k + n % 4096) := by
  obtain ⟨before, piece, after, split, member, rfl⟩ := place
  have among : piece ∈ runIntervals runs := by simp [split]
  obtain ⟨run, listed, rfl⟩ := List.mem_map.mp among
  obtain ⟨⟨base, based⟩, length, sized⟩ := aligned run listed
  have first : run.interval.start = run.base.toNat := rfl
  have size : run.interval.length = run.length.toNat := rfl
  rw [Piece.mem_cells, Piece.stop] at member
  refine ⟨before, run.interval, after, split, Piece.mem_cells.mpr ?_, ?_⟩
  · rw [Piece.stop]
    omega
  · omega

/-- A page outside the runs is not in the dump. -/
theorem findPage_outside (aligned : ∀ run ∈ runs, run.PageAligned) {page : Nat} (start : Nat)
    (outside : 4096 * page ∉ cells (runIntervals runs)) :
    findPage start (runs.map tableEntry) page = none := by
  induction runs generalizing start with
  | nil => rfl
  | cons run rest ih =>
      have base := basePage_toNat (aligned run List.mem_cons_self)
      have count := pageCount_toNat (aligned run List.mem_cons_self)
      have first : run.interval.start = run.base.toNat := rfl
      have stop : run.interval.stop = run.base.toNat + run.length.toNat := rfl
      have apart : cells (runIntervals (run :: rest)) =
          run.interval.cells ∪ cells (runIntervals rest) := rfl
      rw [apart, Finset.mem_union, not_or, Piece.mem_cells] at outside
      rw [List.map_cons, findPage, if_neg (by omega)]
      exact ih (fun other member => aligned other (List.mem_cons_of_mem _ member)) _ outside.2

/-- The run table of a captured dump leads to the place of every address of the runs. -/
theorem DumpFile.locatePhysical {path : WString} {m : ZdmpMembers} {expected : UInt64}
    {calls : List Call} {s : ZdmpWriter × World} {node : FileNode}
    (dump : DumpFile runs path m (header m expected).bytes calls s)
    (present : s.2.files.now path = some node) (configured : Configured runs m)
    (aligned : ∀ run ∈ runs, run.PageAligned) (few : runs.length ≤ 32) :
    (n ∈ cells (runIntervals runs) → ∃ k, DumpHeader64.locatePhysical node.content n = some k ∧
        Place 4096 (runIntervals runs) n k) ∧
      (n ∉ cells (runIntervals runs) → DumpHeader64.locatePhysical node.content n = none) := by
  obtain ⟨node', present', head, -⟩ := dump.node
  obtain rfl := Option.some.inj (present'.symm.trans present)
  have table : readRunTable node'.content = runs.map tableEntry := by
    have whole : m.runs.take 32 = runs := by
      rw [configured.runs_eq, List.take_of_length_le few]
    have entries : (header m expected).runs = runs.map tableEntry := congrArg _ whole
    rw [readRunTable_eq head, entries]
    · show (UInt32.ofNat (min m.runs.length 32)).toNat = _
      rw [entries, List.length_map, configured.runs_eq, Nat.min_eq_left few,
        UInt32.toNat_ofNat_of_lt' (Nat.lt_of_le_of_lt few (by decide))]
    · rw [entries, List.length_map]
      exact few
  rw [DumpHeader64.locatePhysical, table, runTableStart]
  constructor
  · intro inside
    obtain ⟨k, found, place⟩ := findPage_place aligned 4096 ((page_mem_iff aligned).mpr inside)
    rw [found]
    exact ⟨_, rfl, place_in_page aligned place⟩
  · intro outside
    rw [findPage_outside aligned _ (mt (page_mem_iff aligned).mp outside)]
    rfl

/-- What a reader of a captured dump finds: the file goes as far as the last address that was
written. -/
theorem DumpFile.readPhysical {path : WString} {m : ZdmpMembers} {expected : UInt64}
    {calls : List Call} {s : ZdmpWriter × World} {node : FileNode}
    (dump : DumpFile runs path m (header m expected).bytes calls s)
    (present : s.2.files.now path = some node) (configured : Configured runs m)
    (aligned : ∀ run ∈ runs, run.PageAligned) (few : runs.length ≤ 32)
    (ordered : Ordered (runIntervals runs)) (inside : n ∈ cells (runIntervals runs)) :
    ((∃ p ∈ writtenAddresses calls, p ∈ cells (runIntervals runs) ∧ n ≤ p) →
        DumpHeader64.readPhysical node.content n = some (imageOf calls n)) ∧
      ((∀ p ∈ writtenAddresses calls, p < n) →
        DumpHeader64.readPhysical node.content n = none) := by
  obtain ⟨k, located, place⟩ := (dump.locatePhysical present configured aligned few).1 inside
  obtain ⟨node', present', -, laid, -, length⟩ := dump.node
  obtain rfl := Option.some.inj (present'.symm.trans present)
  have read : DumpHeader64.readPhysical node'.content n = node'.content[k]? := by
    rw [DumpHeader64.readPhysical, located]
    rfl
  have low := place.bounds.1
  rw [read]
  constructor
  · rintro ⟨p, written, among, le⟩
    obtain ⟨j, place'⟩ := exists_place among 4096
    have order : k ≤ j := by
      rcases Nat.eq_or_lt_of_le le with rfl | less
      · exact Nat.le_of_eq (place.unique place' ordered)
      · exact Nat.le_of_lt (place.lt place' ordered less)
    have short := (length k low).mpr ⟨p, written, j, place', order⟩
    rw [List.getElem?_eq_getElem short, ← laid n k place, view_of_lt 0 short]
  · intro before
    refine List.getElem?_eq_none (Nat.le_of_not_lt fun short => ?_)
    obtain ⟨p, written, j, place', le⟩ := (length k low).mp short
    have less := place'.lt place ordered (before p written)
    omega

end Reader

end PhylaRam
