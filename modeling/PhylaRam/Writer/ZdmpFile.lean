import PhylaRam.Acquire.Image
import PhylaRam.Writer.RawImage
import PhylaRam.Writer.ZdmpImage

/-!
# The content of a captured crash dump

After a completed `Acquire` the dump holds the header and, at its place, every byte that the
device returned. Nothing else determines its length: it ends with the last byte that was
returned. So the dump has the length of its runs exactly when their very last byte was.
-/

namespace PhylaRam

open Program Interval Image

/-- An address that was not written keeps its blank. -/
theorem imageOf_of_not_written {calls : List Call} {p : Nat} (h : p ∉ writtenAddresses calls) :
    imageOf calls p = 0 := by
  induction calls using List.reverseRecOn with
  | nil => rfl
  | append_singleton calls call ih =>
      rw [writtenAddresses_append, List.mem_append, not_or] at h
      rw [imageOf_append]
      cases call with
      | writeAt offset data =>
          have outside : ¬(offset.toNat ≤ p ∧ p < offset.toNat + data.length) := fun inside =>
            h.2 (mem_writtenAddresses.mpr ⟨offset, data, List.mem_singleton_self _, inside⟩)
          show overlay (imageOf calls) offset.toNat data p = 0
          by_cases below : p < offset.toNat
          · rw [overlay_of_lt below, ih h.1]
          · rw [overlay_of_ge (by omega), ih h.1]
      | read | update | updateZeros | addUnreadable | endSession => exact ih h.1

/-- The open file at `path` is a dump of `runs` with what the calls have written. -/
structure DumpFile (runs : List MemoryRun) (path : WString) (m : ZdmpMembers) (header : List Byte)
    (calls : List Call) (s : ZdmpWriter × World) : Prop where
  members : s.1.members = m
  file : FileOpen path s
  node : ∃ node, s.2.files.now path = some node ∧ node.content.take 4096 = header ∧
    Laid 4096 (runIntervals runs) (imageOf calls) (view 0 node.content) ∧
    4096 ≤ node.content.length ∧
    ∀ k, 4096 ≤ k → (k < node.content.length ↔
      ∃ p ∈ writtenAddresses calls, ∃ j, Place 4096 (runIntervals runs) p j ∧ k ≤ j)

section Writes

variable {runs : List MemoryRun} {path : WString} {m : ZdmpMembers} {header : List Byte}
  {calls : List Call} {s : ZdmpWriter × World}

/-- A call that does not write. -/
theorem DumpFile.other (h : DumpFile runs path m header calls s) {call : Call}
    (other : ∀ offset data, call ≠ .writeAt offset data) :
    DumpFile runs path m header (calls ++ [call]) s := by
  have image : imageOf (calls ++ [call]) = imageOf calls := by
    rw [imageOf_append]
    cases call with
    | writeAt offset data => exact (other offset data rfl).elim
    | read | update | updateZeros | addUnreadable | endSession => rfl
  have addresses : writtenAddresses (calls ++ [call]) = writtenAddresses calls := by
    rw [writtenAddresses_append]
    cases call with
    | writeAt offset data => exact (other offset data rfl).elim
    | read | update | updateZeros | addUnreadable | endSession => exact List.append_nil _
  exact ⟨h.members, h.file, by rw [image, addresses]; exact h.node⟩

/-- A complete write of a part of one run, at the place of its first address. -/
theorem DumpFile.write (h : DumpFile runs path m header calls s)
    (ordered : Ordered (runIntervals runs)) {run : MemoryRun} (member : run ∈ runs)
    {address : UInt64} {data : List Byte} (nonempty : data ≠ [])
    (inside : address.toNat ∈ run.interval.cells)
    (within : address.toNat + data.length ≤ run.interval.stop) {start : Nat}
    (place : Place 4096 (runIntervals runs) address.toNat start) {w : World}
    (files : w.files.now path = s.2.files.now path) :
    DumpFile runs path m header (calls ++ [.writeAt address data])
      ({ s.1 with file := some ⟨path, start + data.length⟩ },
        w.perform (.write path start data)) := by
  obtain ⟨node, present, front, laid, above, length⟩ := h.node
  have among : run.interval ∈ runIntervals runs := List.mem_map_of_mem member
  have positive := List.length_pos_iff.mpr nonempty
  have bounds := place.bounds
  have consecutive : Consecutive runs address data start := fun i small =>
    place.shift ordered among inside (by omega)
  have image : imageOf (calls ++ [.writeAt address data]) =
      overlay (imageOf calls) address.toNat data := by
    rw [imageOf_append]
    rfl
  refine ⟨h.members, ⟨_, rfl, rfl⟩, _, Files.modify_self (files.trans present), ?_, ?_, ?_, ?_⟩
  · rw [← front]
    show (patch 0 node.content start data).take 4096 = _
    rw [patch, List.append_assoc, List.append_assoc, List.take_append_of_le_length, List.take_take,
      Nat.min_eq_left bounds.1]
    rw [List.length_take]
    omega
  · show Laid _ _ _ (view 0 (patch 0 node.content start data))
    rw [image, view_patch]
    exact laid.overlay ordered among inside within place
  · show 4096 ≤ (patch 0 node.content start data).length
    rw [length_patch]
    omega
  · intro k high
    show k < (patch 0 node.content start data).length ↔ _
    rw [length_patch, lt_max_iff, length k high, writtenAddresses_append]
    constructor
    · rintro (⟨p, old, j, placed, le⟩ | low)
      · exact ⟨p, List.mem_append_left _ old, j, placed, le⟩
      · refine ⟨_, List.mem_append_right _ (mem_writtenAddresses.mpr ⟨address, data,
          List.mem_singleton_self _, ?_, ?_⟩), _, consecutive (data.length - 1) (by omega), ?_⟩
        · omega
        · omega
        · omega
    · rintro ⟨p, member, j, placed, le⟩
      rcases List.mem_append.mp member with old | new
      · exact .inl ⟨p, old, j, placed, le⟩
      · obtain ⟨address', data', same, low, high⟩ := mem_writtenAddresses.mp new
        obtain ⟨rfl, rfl⟩ := Call.writeAt.inj (List.mem_singleton.mp same)
        obtain ⟨i, rfl⟩ := Nat.exists_eq_add_of_le low
        have := placed.unique (consecutive i (by omega)) ordered
        exact .inr (by omega)

end Writes

/-! ### Opening and closing the dump -/

section Files

variable {path : WString} {s : ZdmpWriter × World}

/-- A successful preflight leaves a file that holds the header. -/
theorem zdmp_preflightAndOpen_wp (logicalSize expected : UInt64) :
    let m := { s.1.members with totalPhysicalBytes := expected }
    WP (ZdmpWriter.preflightAndOpen path logicalSize expected)
      (fun _ t => t.1.members = m ∧ FileOpen path t ∧ ∃ node, t.2.files.now path = some node ∧
        node.content = (ZdmpWriter.header m expected).bytes)
      (fun _ _ => True) s := by
  intro m
  rw [ZdmpWriter.preflightAndOpen, WP.bind_iff, setMembers_wp, WP.bind_iff]
  refine createAlways_wp.mono ?_ fun _ _ _ => trivial
  rintro - u ⟨writer, -, node, present, empty⟩
  have members : u.1.members = m := by rw [writer]
  have size := (ZdmpWriter.header m expected).length_bytes
  rw [WP.bind_iff, WP.get_iff, members]
  have nonempty : (ZdmpWriter.header m expected).bytes ≠ [] := by
    rw [← List.length_pos_iff, size]
    decide
  have opened : u.1.file = some ⟨path, 0⟩ := by rw [writer]
  refine writeExactly_wp nonempty opened ?_ fun _ _ _ _ => trivial
  refine ⟨members, ⟨_, rfl, rfl⟩, _, Files.modify_self (World.enter_of_some present), ?_⟩
  show patch 0 node.content 0 (ZdmpWriter.header m expected).bytes = _
  rw [empty, patch_empty]

/-- Closing the dump, with success or not, leaves its content. -/
theorem zdmp_flushAndClose_content {node : FileNode} (opened : FileOpen path s)
    (present : s.2.files.now path = some node) :
    (zdmpWriter.flushAndClose s).2.2.content path = some node.content := by
  obtain ⟨file, opened, rfl⟩ := opened
  have entered := World.enter_of_some present
  refine WP.final (P := fun t : ZdmpWriter × World =>
    t.2.content file.path = some node.content) ?_
  rw [ZdmpWriter.flushAndClose, WP.bind_iff, WP.get_iff, if_neg (by simp [opened]), WP.bind_iff,
    flushFile, onFile_wp opened]
  rcases flushFileBuffers_cases file s.2 with ⟨error, h⟩ | h <;> rw [h]
  · simp only [Bool.false_eq_true, if_false, WP.bind_iff, WP.modify_iff, ZdmpWriter.close,
      resetFile_wp, WP.throw_iff]
    rw [closedWorld_of_some rfl, World.content]
    exact congrArg _ (Files.modify_self entered)
  · simp only [if_true, ZdmpWriter.close, resetFile_wp]
    rw [closedWorld_of_some rfl, World.content]
    exact congrArg _ (Files.modify_self (Files.modify_self entered))

end Files

/-! ### The dump of a completed capture -/

/-- The dump holds all runs, and reads as zero where memory was unreadable. -/
structure CompleteDump (runs : List MemoryRun) (summary : AcquisitionSummary)
    (content : List Byte) : Prop where
  length : content.length = 4096 + summary.physicalBytes.toNat
  zeros : ∀ p ∈ cells (spanIntervals summary.unreadable), ∀ k,
    Place 4096 (runIntervals runs) p k → content[k]? = some 0

section Capture

variable {δ η κ : Type} {device : IDeviceSession δ} {hasher : IHasher η}
  {environment : Environment κ} {config : AcquisitionConfig} {runs : List MemoryRun}

theorem DumpFile.sustains {path : WString} {m : ZdmpMembers} {header : List Byte}
    (configured : ZdmpWriter.Configured runs m) (fits : ZdmpWriter.Fits runs)
    (ordered : Ordered (runIntervals runs)) :
    WriterSustains (⟨device, zdmpWriter, hasher, environment, config⟩ :
        Collaborators δ (ZdmpWriter × World) η κ) runs (DumpFile runs path m header)
      (fun _ _ => True) := by
  refine ⟨fun calls s call other h => h.other other, fun _ _ _ => trivial, ?_,
    fun _ _ _ _ _ _ _ _ _ _ _ _ => trivial⟩
  intro run member valid calls s offset requested r replied copied h accepted
  obtain ⟨file, opened, named⟩ := h.file
  obtain ⟨inside, within⟩ := replied.within_run valid copied
  have name : FileNamed path s := fun other same => by
    obtain rfl := Option.some.inj (opened.symm.trans same)
    exact named
  obtain ⟨_, -, _, -, done⟩ := (zdmp_writeAt_wp (replied.data_ne_nil copied) replied.data_small
    r.physicalAddress name).of_returned accepted
  have after : (zdmpWriter.writeAt r.physicalAddress r.data s).2 = _ := done
  obtain ⟨node, present, -⟩ := h.node
  have entered := World.enter_of_some (World.enter_of_some present)
  obtain ⟨-, place⟩ := configured.place fits
    (mem_cells.mpr ⟨_, List.mem_map_of_mem member, inside⟩)
  have written := h.write ordered member (replied.data_ne_nil copied) inside within place
    (entered.trans present.symm)
  show DumpFile runs path m header _ (zdmpWriter.writeAt r.physicalAddress r.data s).2
  rw [after, h.members]
  exact written

/-- The last address of the runs is stored at the end of the dump. -/
theorem place_last (nonempty : runs ≠ []) (valid : ∀ run ∈ runs, run.Valid) :
    Place 4096 (runIntervals runs) (lastStop (runIntervals runs) - 1)
      (4096 + total (runIntervals runs) - 1) := by
  rcases List.eq_nil_or_concat' runs with none | ⟨before, last, rfl⟩
  · exact (nonempty none).elim
  · have positive := (valid last (by simp)).nonempty
    have shape : runIntervals (before ++ [last]) = runIntervals before ++ [last.interval] := by
      rw [runIntervals, List.map_append]
      rfl
    have start : last.interval.start = last.base.toNat := rfl
    have length : last.interval.length = last.length.toNat := rfl
    rw [shape, lastStop_snoc, total_append, total_cons, total_nil, Piece.stop]
    refine ⟨runIntervals before, last.interval, [], rfl, Piece.mem_cells.mpr ⟨?_, ?_⟩, ?_⟩
    · omega
    · rw [Piece.stop]
      omega
    · omega

/-- A dump that has been opened for `runs` holds none of their bytes. -/
theorem zdmp_opened_dump {path : WString} {logicalSize expected : UInt64} {hints : KernelHints}
    {metadata : EvidenceMetadata} {s : ZdmpWriter × World}
    (opened : (zdmpWriter.preflightAndOpen path logicalSize expected
      (zdmpWriter.configure runs hints metadata s)).1 = true) :
    ∃ m, ZdmpWriter.Configured runs m ∧
      DumpFile runs path m (ZdmpWriter.header m expected).bytes []
        (zdmpWriter.preflightAndOpen path logicalSize expected
          (zdmpWriter.configure runs hints metadata s)).2 := by
  obtain ⟨_, -, members, file, node, present, header⟩ :=
    (zdmp_preflightAndOpen_wp logicalSize expected).of_returned opened
  have configured := ZdmpWriter.configured_configure runs hints metadata s.1.members
  have size : node.content.length = 4096 := by rw [header, DumpHeader64.length_bytes]
  refine ⟨{ ZdmpWriter.configure runs hints metadata s.1.members with
    totalPhysicalBytes := expected }, ⟨configured.runs_eq, configured.offsets_eq⟩, members, file,
    node, present, (List.take_of_length_le (Nat.le_of_eq size)).trans header, ?_,
    Nat.le_of_eq size.symm, ?_⟩
  · intro n k place
    exact view_of_ge 0 (size ▸ place.bounds.1)
  · intro k high
    constructor
    · intro low
      omega
    · rintro ⟨p, none, -⟩
      cases none

/-- The file after a completed capture: the header of the dump and what has been written. -/
theorem zdmp_captured_dump (device : IDeviceSession δ) (hasher : IHasher η)
    (environment : Environment κ) (config : AcquisitionConfig) (d : δ) (h : η) (k : κ)
    {topology : Topology} (asked : (device.query d).1 = some topology) (valid : topology.Valid)
    (aligned : ∀ run ∈ topology.runs, run.PageAligned) {path : WString} {hints : KernelHints}
    {metadata : EvidenceMetadata} {s : ZdmpWriter × World}
    (opened : (zdmpWriter.preflightAndOpen path topology.highestEnd topology.totalBytes
      (zdmpWriter.configure topology.runs hints metadata s)).1 = true) :
    let C : Collaborators δ (ZdmpWriter × World) η κ :=
      ⟨device, zdmpWriter, hasher, environment, config⟩
    let run := acquire C (.start d (zdmpWriter.preflightAndOpen path topology.highestEnd
      topology.totalBytes (zdmpWriter.configure topology.runs hints metadata s)).2 h k)
    returned run = true → ∃ m, DumpFile topology.runs path m
      (ZdmpWriter.header m topology.totalBytes).bytes (final run).calls (final run).writer := by
  intro C run completed
  have fits := ZdmpWriter.fits_of_aligned aligned (fun run member => (valid.runs run member).fits)
    valid.ordered
  obtain ⟨m, configured, begun⟩ := zdmp_opened_dump opened
  have execution := acquire_writes (C := C) (s := .start d (zdmpWriter.preflightAndOpen path
      topology.highestEnd topology.totalBytes
      (zdmpWriter.configure topology.runs hints metadata s)).2 h k) (fun topology' asked' => by
    obtain rfl := Option.some.inj (asked.symm.trans asked')
    exact DumpFile.sustains configured fits valid.ordered) begun fun _ _ _ => trivial
  obtain ⟨_, -, dump⟩ := execution.of_returned completed
  exact ⟨m, dump⟩

/-- After a completed capture of whole pages the dump is complete if and only if the device
returned the last byte of the last run. -/
theorem dump_complete_iff (device : IDeviceSession δ) (hasher : IHasher η)
    (environment : Environment κ) (config : AcquisitionConfig) (d : δ) (h : η) (k : κ)
    (topology : Topology) (asked : (device.query d).1 = some topology) (valid : topology.Valid)
    (aligned : ∀ run ∈ topology.runs, run.PageAligned) (path : WString) (hints : KernelHints)
    (metadata : EvidenceMetadata) (s : ZdmpWriter × World)
    (opened : (zdmpWriter.preflightAndOpen path topology.highestEnd topology.totalBytes
      (zdmpWriter.configure topology.runs hints metadata s)).1 = true) :
    let C : Collaborators δ (ZdmpWriter × World) η κ :=
      ⟨device, zdmpWriter, hasher, environment, config⟩
    let run := acquire C (.start d (zdmpWriter.preflightAndOpen path topology.highestEnd
      topology.totalBytes (zdmpWriter.configure topology.runs hints metadata s)).2 h k)
    returned run = true → ∃ content,
      (zdmpWriter.flushAndClose (final run).writer).2.2.content path = some content ∧
      (CompleteDump topology.runs (final run).summary content ↔
        lastStop (runIntervals topology.runs) - 1 ∈ returnedAddresses (final run).calls) := by
  intro C run completed
  obtain ⟨m, dump⟩ := zdmp_captured_dump device hasher environment config d h k asked valid aligned
    opened completed
  obtain ⟨topology', m, changed, complete⟩ := acquire_completed C completed
  obtain rfl : topology' = topology := Option.some.inj (complete.asked.symm.trans asked)
  have partitioned := complete.partitioned rfl valid.frozen
  have physical : (final run).summary.physicalBytes.toNat =
      total (runIntervals topology'.runs) := by
    rw [valid.totalBytes, complete.final]
    exact congrArg UInt64.toNat complete.traversal.sameTopology.physicalBytes
  obtain ⟨node', present', -, laid, above, length⟩ := dump.node
  refine ⟨node'.content, zdmp_flushAndClose_content dump.file present', ?_⟩
  have last := place_last valid.nonempty valid.runs
  have positive := last.bounds
  rw [complete.returned rfl]
  have ends : node'.content.length = 4096 + total (runIntervals topology'.runs) ↔
      lastStop (runIntervals topology'.runs) - 1 ∈ writtenAddresses (final run).calls := by
    constructor
    · intro whole
      obtain ⟨p, written, j, place, le⟩ :=
        (length (4096 + total (runIntervals topology'.runs) - 1) (by omega)).mp (by omega)
      have bounds := place.bounds
      obtain rfl : j = 4096 + total (runIntervals topology'.runs) - 1 := by omega
      exact place.injective last ▸ written
    · intro written
      have reached := (length (4096 + total (runIntervals topology'.runs) - 1) (by omega)).mpr
        ⟨_, written, _, last, Nat.le_refl _⟩
      by_contra longer
      obtain ⟨p, -, j, place, le⟩ :=
        (length (4096 + total (runIntervals topology'.runs)) (by omega)).mp (by omega)
      have bounds := place.bounds
      omega
  rw [← ends]
  constructor
  · intro whole
    rw [whole.length, physical]
  · intro whole
    refine ⟨by rw [whole, physical], fun p lost k place => ?_⟩
    have bounds := place.bounds
    have blank : imageOf (final run).calls p = 0 := imageOf_of_not_written fun written =>
      Finset.disjoint_left.mp partitioned.disjoint (List.mem_toFinset.mpr written) lost
    have byte := laid p k place
    rw [view_of_lt 0 (by omega), blank] at byte
    rw [List.getElem?_eq_getElem (by omega), byte]

end Capture

/-- A dump of the two pages, opened in an empty file system. -/
def twoPagesOpened : Bool × (ZdmpWriter × World) :=
  zdmpWriter.preflightAndOpen (wide "a.dmp") twoPages.highestEnd twoPages.totalBytes
    (zdmpWriter.configure twoPages.runs {} {} ({ members := {} },
      { files := ⟨fun _ => none, []⟩, oracle := fun _ => {} }))

def twoPagesCapture (page : UInt64) :
    EStateM.Result StopCause (AcquireState MockDeviceSession (ZdmpWriter × World) MockHasher Unit)
      Unit :=
  acquire ⟨mockDeviceSession, zdmpWriter, mockHasher, quietEnvironment, {}⟩
    (.start (mockUnreadablePage page) twoPagesOpened.2 {} ())

theorem dump_complete_iff_first_page_unreadable :
    ∃ content, (zdmpWriter.flushAndClose (final (twoPagesCapture 0x1000)).writer).2.2.content
        (wide "a.dmp") = some content ∧
      (CompleteDump twoPages.runs (final (twoPagesCapture 0x1000)).summary content ↔
        lastStop (runIntervals twoPages.runs) - 1 ∈
          returnedAddresses (final (twoPagesCapture 0x1000)).calls) :=
  dump_complete_iff mockDeviceSession mockHasher quietEnvironment {} (mockUnreadablePage 0x1000) {}
    () twoPages rfl twoPages_valid (by decide) (wide "a.dmp") {} {} _
    (show twoPagesOpened.1 = true by decide +kernel)
    (show returned (twoPagesCapture 0x1000) = true by decide +kernel)

/-- When the last page cannot be read, the dump ends before it. -/
theorem dump_ends_before_unreadable_tail :
    returned (twoPagesCapture 0x3000) = true ∧
      (zdmpWriter.flushAndClose (final (twoPagesCapture 0x3000)).writer).1 = true ∧
      ¬∃ content, (zdmpWriter.flushAndClose (final (twoPagesCapture 0x3000)).writer).2.2.content
          (wide "a.dmp") = some content ∧
        CompleteDump twoPages.runs (final (twoPagesCapture 0x3000)).summary content := by
  refine ⟨by decide +kernel, by decide +kernel, ?_⟩
  rintro ⟨content, present, complete⟩
  have size : ((zdmpWriter.flushAndClose (final (twoPagesCapture 0x3000)).writer).2.2.content
      (wide "a.dmp")).map List.length = some 0x2000 := by decide +kernel
  have physical : (final (twoPagesCapture 0x3000)).summary.physicalBytes = 0x2000 := by
    decide +kernel
  have length := complete.length
  rw [present, Option.map_some, Option.some.injEq] at size
  rw [size, physical] at length
  exact absurd length (by decide)

end PhylaRam
