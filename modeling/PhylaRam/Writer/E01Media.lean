import PhylaRam.Acquire.Maintain
import PhylaRam.Acquire.Stream
import PhylaRam.Acquire.Success
import PhylaRam.Writer.E01Layout
import PhylaRam.Writer.ZdmpLayout

/-!
# The media of a captured container

The E01 writer appends what it is given and ignores the offsets, while its volume section
announces the whole of the runs. So the container holds the captured bytes closed up: it shows
the memory at the positions of its addresses only as long as nothing is missing, or as long as
what is missing and everything behind it reads as zero.
-/

namespace PhylaRam

open Program Interval Image Chunks Gaps

/-- The bytes that the container announces are the memory in the order of the addresses, and
zero where it was unreadable. -/
def ShowsMedia (runs : List MemoryRun) (unreadable : List UnreadableSpan) (calls : List Call)
    (content : List Byte) : Prop :=
  ∃ chunkCount sectorCount sectors chunks entries,
    E01Layout content chunkCount sectorCount sectors chunks entries ∧
    chunks.length = chunkCount.toNat ∧
    ∀ m < sectorCount.toNat * 512, ∃ address,
      (addresses (runIntervals runs))[m]? = some address ∧
      chunks.flatten[m]? =
        some (if address ∈ cells (spanIntervals unreadable) then 0 else imageOf calls address)

theorem total_dvd {runs : List MemoryRun} (aligned : ∀ run ∈ runs, run.PageAligned) :
    512 ∣ total (runIntervals runs) := by
  rw [← ZdmpWriter.sum_pageCount aligned]
  exact Nat.dvd_trans (by decide : 512 ∣ 4096) (Nat.dvd_mul_right _ _)

/-- The volume section counts the chunks of the runs, as long as they are not too many. -/
theorem chunkCount_toNat {expected : UInt64} (small : expected.toNat < 2 ^ 46) :
    ((expected + 65536 - 1) / 65536).toUInt32.toNat = (expected.toNat + 65535) / 65536 := by
  have sum : (expected + 65536 - 1).toNat = expected.toNat + 65535 := by
    have first : (expected + 65536).toNat = expected.toNat + 65536 :=
      Word.toNat_add_of_lt (show _ + 65536 < _ by omega)
    rw [Word.toNat_sub_of_le (by rw [first]; exact Nat.le_add_left 1 _), first]
    rfl
  have quotient : ((expected + 65536 - 1) / 65536).toNat = (expected.toNat + 65535) / 65536 := by
    rw [UInt64.toNat_div, sum]
    rfl
  rw [Word.toNat_toUInt32_of_lt (by rw [quotient]; omega), quotient]

section Media

variable {runs : List MemoryRun} {calls : List Call} {unreadable : List UnreadableSpan}
  {content : List Byte} {chunkCount : UInt32} {sectorCount sectors : UInt64}
  {chunks : List (List Byte)} {entries : List UInt32}

theorem length_slots (streamed : Streamed runs calls) :
    (slots calls).length = total (runIntervals runs) := by
  rw [streamed.slots_eq, List.length_map, length_addresses]

/-- The byte that the media should show, as the stream with its gaps has it. -/
theorem filled_slots (streamed : Streamed runs calls)
    (lost : ∀ n, n ∈ addresses (runIntervals runs) →
      (n ∈ cells (spanIntervals unreadable) ↔ n ∉ writtenAddresses calls))
    {m address : Nat} (found : (addresses (runIntervals runs))[m]? = some address) :
    (filled 0 (slots calls)).getD m 0 =
      if address ∈ cells (spanIntervals unreadable) then 0 else imageOf calls address := by
  have among := lost address (List.mem_of_getElem? found)
  rw [filled, streamed.slots_eq, List.map_map, List.getD_eq_getElem?_getD, List.getElem?_map, found]
  show (slotOf calls address).getD 0 = _
  rw [slotOf]
  by_cases written : address ∈ writtenAddresses calls
  · rw [if_pos written, if_neg fun no => among.mp no written]
    rfl
  · rw [if_neg written, if_pos (among.mpr written)]
    rfl

/-- The chunks show the stream with its gaps closed. -/
theorem flatten_getElem? (padded : Padded 65536 0 (writtenBytes calls) chunks) {m : Nat}
    (inside : m < 65536 * chunks.length) :
    chunks.flatten[m]? = some ((slots calls).reduceOption.getD m 0) := by
  have length := length_flatten padded.full
  rw [List.getElem?_eq_getElem (by omega), Option.some_inj, ← List.getD_eq_getElem _ 0,
    padded.stream, reduceOption_slots, getD_append_blank fun _ => List.eq_of_mem_replicate]

/-- A container of a captured stream shows the media if and only if the stream needs all the
announced chunks and has only zeros behind its gaps. -/
theorem showsMedia_iff (streamed : Streamed runs calls)
    (lost : ∀ n, n ∈ addresses (runIntervals runs) →
      (n ∈ cells (spanIntervals unreadable) ↔ n ∉ writtenAddresses calls))
    (aligned : ∀ run ∈ runs, run.PageAligned) {expected : UInt64}
    (announced : expected.toNat = total (runIntervals runs))
    (padded : Padded 65536 0 (writtenBytes calls) chunks) (few : 4 * chunks.length < 2 ^ 32)
    (layout : E01Layout content ((expected + 65536 - 1) / 65536).toUInt32 (expected / 512) sectors
      chunks entries) :
    ShowsMedia runs unreadable calls content ↔
      ((returnedBytes calls).length + 65535) / 65536 =
        (total (runIntervals runs) + 65535) / 65536 ∧ ZerosBehindGaps runs calls := by
  have count : chunks.length = ((returnedBytes calls).length + 65535) / 65536 := by
    rw [streamed.bytes_eq]
    exact padded.count
  have sectorsNat : (expected / 512).toNat * 512 = total (runIntervals runs) := by
    rw [UInt64.toNat_div, announced]
    exact Nat.div_mul_cancel (total_dvd aligned)
  have size := length_addresses (runIntervals runs)
  rw [← streamed.blankBehind_iff, ← agree_iff, length_slots streamed]
  constructor
  · rintro ⟨chunkCount, sectorCount, sectors', chunks', entries', layout', counted, shown⟩
    obtain ⟨rfl, rfl, rfl⟩ := layout.unique layout' (by omega)
      (by rw [counted]; exact UInt32.toNat_lt _)
    rw [sectorsNat] at shown
    have length := length_flatten padded.full
    have bytes : ∀ m < total (runIntervals runs),
        m < 65536 * chunks.length ∧
          (slots calls).reduceOption.getD m 0 = (filled 0 (slots calls)).getD m 0 := by
      intro m inside
      obtain ⟨address, found, byte⟩ := shown m inside
      have within : m < 65536 * chunks.length := by
        rw [← length]
        exact (List.getElem?_eq_some_iff.mp byte).1
      refine ⟨within, ?_⟩
      rw [flatten_getElem? padded within] at byte
      rw [filled_slots streamed lost found]
      exact Option.some.inj byte
    have small : expected.toNat < 2 ^ 46 := by
      rw [announced]
      by_contra large
      have last := (bytes (2 ^ 46 - 1) (by omega)).1
      omega
    rw [chunkCount_toNat small, announced] at counted
    exact ⟨by rw [← count, counted], fun m inside => (bytes m inside).2⟩
  · rintro ⟨needed, agree⟩
    refine ⟨_, _, sectors, chunks, entries, layout, ?_, ?_⟩
    · rw [chunkCount_toNat (by omega), announced, ← needed, count]
    · rw [sectorsNat]
      intro m inside
      have found : (addresses (runIntervals runs))[m]? = some _ :=
        List.getElem?_eq_getElem (by omega)
      refine ⟨_, found, ?_⟩
      rw [flatten_getElem? padded (by omega), agree m inside, filled_slots streamed lost found]

end Media

section Capture

variable {δ η κ : Type}

/-- Every accepted write extends the stream of the container. -/
theorem E01Stream.sustains {device : IDeviceSession δ} {hasher : IHasher η}
    {environment : Environment κ} {config : AcquisitionConfig} {runs : List MemoryRun}
    {path : WString} {m : E01Members} :
    WriterSustains (⟨device, e01Writer, hasher, environment, config⟩ :
        Collaborators δ (E01Writer × World) η κ) runs
      (fun calls => E01Stream path m (writtenBytes calls)) (fun _ _ => True) := by
  refine ⟨?_, fun _ _ _ => trivial, ?_, fun _ _ _ _ _ _ _ _ _ _ _ _ => trivial⟩
  · intro calls s call other stream
    have same : writtenBytes (calls ++ [call]) = writtenBytes calls := by
      rw [writtenBytes_append]
      cases call with
      | writeAt offset data => exact (other offset data rfl).elim
      | read | update | updateZeros | addUnreadable | endSession => exact List.append_nil _
    rwa [same]
  · intro run member valid calls s offset requested r replied copied stream accepted
    obtain ⟨_, -, next⟩ :=
      (stream.writeAt r.physicalAddress (replied.data_ne_nil copied)).of_returned accepted
    have bytes : writtenBytes (calls ++ [.writeAt r.physicalAddress r.data]) =
        writtenBytes calls ++ r.data := by
      rw [writtenBytes_append]
      exact congrArg _ (List.append_nil _)
    show E01Stream path m (writtenBytes (calls ++ [.writeAt r.physicalAddress r.data])) _
    rw [bytes]
    exact next

section Run

variable {device : IDeviceSession δ} {hasher : IHasher η} {environment : Environment κ}
  {config : AcquisitionConfig} {d : δ} {h : η} {k : κ} {topology : Topology} {path : WString}
  {logicalSize : UInt64} {s : E01Writer × World}

/-- After a completed capture the container holds the captured stream. -/
theorem e01_captured (reliable : s.2.Reliable)
    (opened : (e01Writer.preflightAndOpen path logicalSize topology.totalBytes s).1 = true)
    (completed : returned (acquire (⟨device, e01Writer, hasher, environment, config⟩ :
      Collaborators δ (E01Writer × World) η κ) (.start d (e01Writer.preflightAndOpen path
        logicalSize topology.totalBytes s).2 h k)) = true) :
    ∃ m, m.totalPhysicalBytes = topology.totalBytes ∧ (E01Writer.front m).length < 2 ^ 33 ∧
      E01Stream path m
        (writtenBytes (final (acquire (⟨device, e01Writer, hasher, environment, config⟩ :
          Collaborators δ (E01Writer × World) η κ) (.start d (e01Writer.preflightAndOpen path
            logicalSize topology.totalBytes s).2 h k))).calls)
        (final (acquire (⟨device, e01Writer, hasher, environment, config⟩ :
          Collaborators δ (E01Writer × World) η κ) (.start d (e01Writer.preflightAndOpen path
            logicalSize topology.totalBytes s).2 h k))).writer := by
  obtain ⟨m, announced, front, begun⟩ := e01_opened reliable opened
  have execution := acquire_writes
    (C := (⟨device, e01Writer, hasher, environment, config⟩ :
      Collaborators δ (E01Writer × World) η κ))
    (s := .start d (e01Writer.preflightAndOpen path logicalSize topology.totalBytes s).2 h k)
    (I := fun calls => E01Stream path m (writtenBytes calls)) (J := fun _ _ => True)
    (fun _ _ => E01Stream.sustains) begun (fun _ _ _ => trivial)
  obtain ⟨_, -, stream⟩ := execution.of_returned completed
  exact ⟨m, announced, front, stream⟩

/-- What the closed container of a completed capture shows. -/
theorem E01Stream.shows {m : E01Members} {C : Collaborators δ (E01Writer × World) η κ}
    {t v w : AcquireState δ (E01Writer × World) η κ} {changed : Bool}
    (stream : E01Stream path m (writtenBytes w.calls) w.writer)
    (announced : m.totalPhysicalBytes = topology.totalBytes)
    (front : (E01Writer.front m).length < 2 ^ 33)
    (complete : Completed C t topology v changed w) (calls : t.calls = [])
    (valid : topology.Valid) (aligned : ∀ run ∈ topology.runs, run.PageAligned)
    (closed : (e01Writer.flushAndClose w.writer).1 = true) :
    ∃ content, (e01Writer.flushAndClose w.writer).2.2.content path = some content ∧
      (ShowsMedia topology.runs w.summary.unreadable w.calls content ↔
        ((returnedBytes w.calls).length + 65535) / 65536 =
            (total (runIntervals topology.runs) + 65535) / 65536 ∧
          ZerosBehindGaps topology.runs w.calls) := by
  have few := stream.table_small closed
  obtain ⟨_, -, chunks, padded, content⟩ :=
    (stream.flushAndClose (by rw [chunkDistance]; omega)).of_returned closed
  have distance : (E01Writer.front m).length + chunkDistance chunks.length < 2 ^ 63 := by
    rw [padded.count, chunkDistance]
    omega
  have layout := E01Writer.finished_layout padded.full distance
  rw [announced] at layout
  have partitioned := complete.partitioned calls valid.frozen
  refine ⟨_, content, ?_⟩
  refine showsMedia_iff (complete.streamed calls valid.ordered) ?_ aligned valid.totalBytes.symm
    padded (by rw [padded.count]; exact few) layout
  intro n among
  rw [mem_addresses, ← partitioned.union, Finset.mem_union, List.mem_toFinset] at among
  constructor
  · intro lost written
    exact Finset.disjoint_left.mp partitioned.disjoint (List.mem_toFinset.mpr written) lost
  · exact among.resolve_left

end Run

/-- The container of a completed capture shows the media if and only if the captured bytes need
as many chunks as the runs and only zeros were returned above the first unreadable address. -/
theorem e01_shows_media_iff (device : IDeviceSession δ) (hasher : IHasher η)
    (environment : Environment κ) (config : AcquisitionConfig) (d : δ) (h : η) (k : κ)
    (topology : Topology) (asked : (device.query d).1 = some topology) (valid : topology.Valid)
    (aligned : ∀ run ∈ topology.runs, run.PageAligned) (path : WString) (hints : KernelHints)
    (metadata : EvidenceMetadata) (s : E01Writer × World) (reliable : s.2.Reliable)
    (opened : (e01Writer.preflightAndOpen path topology.highestEnd topology.totalBytes
      (e01Writer.configure topology.runs hints metadata s)).1 = true) :
    let C : Collaborators δ (E01Writer × World) η κ :=
      ⟨device, e01Writer, hasher, environment, config⟩
    let run := acquire C (.start d (e01Writer.preflightAndOpen path topology.highestEnd
      topology.totalBytes (e01Writer.configure topology.runs hints metadata s)).2 h k)
    returned run = true → (e01Writer.flushAndClose (final run).writer).1 = true →
      ∃ content, (e01Writer.flushAndClose (final run).writer).2.2.content path = some content ∧
        (ShowsMedia topology.runs (final run).summary.unreadable (final run).calls content ↔
          ((returnedBytes (final run).calls).length + 65535) / 65536 =
              (total (runIntervals topology.runs) + 65535) / 65536 ∧
            ZerosBehindGaps topology.runs (final run).calls) := by
  intro C run completed closed
  obtain ⟨m, announced, front, stream⟩ :=
    e01_captured (s := e01Writer.configure topology.runs hints metadata s) reliable opened completed
  obtain ⟨topology', last, changed, complete⟩ := acquire_completed C completed
  obtain rfl : topology' = topology := Option.some.inj (complete.asked.symm.trans asked)
  exact stream.shows announced front complete rfl valid aligned closed

end Capture

/-- A container for the two pages, opened where every call succeeds. -/
def twoPagesContainer : Bool × (E01Writer × World) :=
  e01Writer.preflightAndOpen (wide "a.E01") twoPages.highestEnd twoPages.totalBytes
    (e01Writer.configure twoPages.runs {} {} newContainer)

def twoPagesMedia (page : UInt64) :
    EStateM.Result StopCause (AcquireState MockDeviceSession (E01Writer × World) MockHasher Unit)
      Unit :=
  acquire ⟨mockDeviceSession, e01Writer, mockHasher, quietEnvironment, {}⟩
    (.start (mockUnreadablePage page) twoPagesContainer.2 {} ())

theorem twoPagesMedia_stream {page : UInt64} (completed : returned (twoPagesMedia page) = true) :
    ∃ m, m.totalPhysicalBytes = twoPages.totalBytes ∧ (E01Writer.front m).length < 2 ^ 33 ∧
      E01Stream (wide "a.E01") m (writtenBytes (final (twoPagesMedia page)).calls)
        (final (twoPagesMedia page)).writer :=
  e01_captured newContainer_reliable (show twoPagesContainer.1 = true by decide +kernel) completed

theorem twoPagesMedia_closes {page : UInt64} (completed : returned (twoPagesMedia page) = true)
    (small : (writtenBytes (final (twoPagesMedia page)).calls).length ≤ 2 ^ 32) :
    (e01Writer.flushAndClose (final (twoPagesMedia page)).writer).1 = true := by
  obtain ⟨m, -, front, stream⟩ := twoPagesMedia_stream completed
  exact stream.closes front small

theorem twoPagesMedia_partitioned {page : UInt64} (completed : returned (twoPagesMedia page) = true) :
    Partitioned twoPages.runs (final (twoPagesMedia page)).calls
        (final (twoPagesMedia page)).summary ∧
      returnedAddresses (final (twoPagesMedia page)).calls =
        writtenAddresses (final (twoPagesMedia page)).calls := by
  obtain ⟨topology, last, changed, complete⟩ := acquire_completed _ completed
  obtain rfl : topology = twoPages := Option.some.inj (complete.asked.symm.trans rfl)
  exact ⟨complete.partitioned rfl twoPages_valid.frozen, complete.returned rfl⟩

theorem mem_lastPage {n : Nat} : n ∈ cells (spanIntervals [⟨0x3000, 0x1000, -1073741819⟩]) ↔
    0x3000 ≤ n ∧ n < 0x4000 := by
  have single : spanIntervals [⟨0x3000, 0x1000, -1073741819⟩] =
      [⟨0x3000, 0x1000, -1073741819⟩] := rfl
  simp [single, Piece.mem_cells, Piece.stop]

theorem lt_of_mem_twoPages {n : Nat} (member : n ∈ cells (runIntervals twoPages.runs)) :
    n < 0x4000 := by
  obtain ⟨run, among, inside⟩ := mem_cells.mp member
  have below := (Piece.mem_cells.mp inside).2
  have stop : ∀ piece ∈ runIntervals twoPages.runs, piece.stop ≤ 0x4000 := by decide
  exact Nat.lt_of_lt_of_le below (stop run among)

theorem e01_shows_media_last_page_unreadable :
    ∃ content, (e01Writer.flushAndClose (final (twoPagesMedia 0x3000)).writer).2.2.content
        (wide "a.E01") = some content ∧
      ShowsMedia twoPages.runs (final (twoPagesMedia 0x3000)).summary.unreadable
        (final (twoPagesMedia 0x3000)).calls content := by
  have opened : twoPagesContainer.1 = true := by decide +kernel
  have ran : returned (twoPagesMedia 0x3000) = true ∧
      (final (twoPagesMedia 0x3000)).summary.unreadable =
        [⟨0x3000, 0x1000, -1073741819⟩] ∧
      (writtenBytes (final (twoPagesMedia 0x3000)).calls).length ≤ 2 ^ 32 := by decide +kernel
  obtain ⟨completed, lost, small⟩ := ran
  have closed := twoPagesMedia_closes completed small
  have shown := e01_shows_media_iff mockDeviceSession mockHasher quietEnvironment {}
    (mockUnreadablePage 0x3000) {} () twoPages rfl twoPages_valid (by decide) (wide "a.E01") {} {}
    newContainer newContainer_reliable opened completed closed
  obtain ⟨content, present, shows⟩ := shown
  obtain ⟨partitioned, returns⟩ := twoPagesMedia_partitioned completed
  have zeros : ZerosBehindGaps twoPages.runs (final (twoPagesMedia 0x3000)).calls := by
    intro gap inside missing i address byte found _ lt
    rw [returns] at missing found
    have written := List.mem_toFinset.mpr (List.mem_of_getElem? found)
    have among := partitioned.union ▸ Finset.mem_union_left _ written
    rw [← partitioned.union, Finset.mem_union, List.mem_toFinset] at inside
    have unread := inside.resolve_left missing
    refine (Finset.disjoint_left.mp partitioned.disjoint written ?_).elim
    rw [lost, mem_lastPage] at unread ⊢
    exact ⟨by omega, lt_of_mem_twoPages among⟩
  exact ⟨content, present, shows.mpr ⟨by decide +kernel, zeros⟩⟩

/-- When the first page cannot be read, the second one appears in its place. -/
theorem e01_media_shifted_by_first_page :
    returned (twoPagesMedia 0x1000) = true ∧
      (e01Writer.flushAndClose (final (twoPagesMedia 0x1000)).writer).1 = true ∧
      ∃ content, (e01Writer.flushAndClose (final (twoPagesMedia 0x1000)).writer).2.2.content
          (wide "a.E01") = some content ∧
        ¬ShowsMedia twoPages.runs (final (twoPagesMedia 0x1000)).summary.unreadable
          (final (twoPagesMedia 0x1000)).calls content := by
  have ran : returned (twoPagesMedia 0x1000) = true ∧
      (writtenBytes (final (twoPagesMedia 0x1000)).calls).length ≤ 2 ^ 32 ∧
      0x1000 ∉ returnedAddresses (final (twoPagesMedia 0x1000)).calls ∧
      (returnedAddresses (final (twoPagesMedia 0x1000)).calls)[0]? = some 0x3000 ∧
      (returnedBytes (final (twoPagesMedia 0x1000)).calls)[0]? = some 0x55 := by decide +kernel
  obtain ⟨completed, small, missing, address, byte⟩ := ran
  have closed := twoPagesMedia_closes completed small
  obtain ⟨m, announced, front, stream⟩ := twoPagesMedia_stream completed
  obtain ⟨topology, last, changed, complete⟩ := acquire_completed _ completed
  obtain rfl : topology = twoPages := Option.some.inj (complete.asked.symm.trans rfl)
  obtain ⟨content, present, shows⟩ :=
    stream.shows announced front complete rfl twoPages_valid (by decide) closed
  refine ⟨completed, closed, content, present, fun shown => ?_⟩
  have gap : 0x1000 ∈ cells (runIntervals twoPages.runs) :=
    mem_cells.mpr ⟨_, List.mem_cons_self, Piece.mem_cells.mpr ⟨by decide, by decide⟩⟩
  have zero : (0x55 : Byte) = 0 :=
    (shows.mp shown).2 0x1000 gap missing 0 0x3000 0x55 address byte (by decide)
  exact absurd zero (by decide)

end PhylaRam
