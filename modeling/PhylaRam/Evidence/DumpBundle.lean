import PhylaRam.Evidence.RawBundle
import PhylaRam.Writer.ZdmpReader

/-!
# The published crash dump

A reader who only has the dump, and the layout of `DumpHeader64`, finds the memory of the machine
in it: the run table in the bytes of the header leads to every page, and the page holds what the
driver copied from there. What the map calls unreadable reads as zero as long as something
readable follows; the file ends with the last readable byte, so an unreadable tail is missing.
What is not memory is not in the table.
-/

namespace PhylaRam

open Program Interval Image

/-- What the dump and the map say of the memory. The digest is that of the logical image, with
zeros for what the dump does not show. -/
structure DumpBundle (sha256 : List Byte → List Byte) (paths : EvidencePaths)
    (table : List PhysicalMemoryRange) (copies : List MemoryCopy) (summary : AcquisitionSummary)
    (dump : List Byte) (u : World) : Prop where
  table : Exactly table ⟨summary.logicalSize, summary.physicalBytes, summary.ranges⟩
  image : u.content paths.rawFinal = some dump
  pages : 4096 * DumpHeader64.readNumberOfPages dump = summary.physicalBytes.toNat
  copied : ∀ n ∈ cells (runIntervals summary.ranges), n ∉ cells (spanIntervals summary.unreadable) →
    ∃ byte, DumpHeader64.readPhysical dump n = some byte ∧ Transferred copies n byte
  missing : ∀ n ∈ cells (spanIntervals summary.unreadable),
    (∃ p ∈ cells (runIntervals summary.ranges),
      p ∉ cells (spanIntervals summary.unreadable) ∧ n ≤ p) →
    DumpHeader64.readPhysical dump n = some 0
  tail : ∀ n ∈ cells (spanIntervals summary.unreadable),
    (∀ p ∈ cells (runIntervals summary.ranges), n ≤ p →
      p ∈ cells (spanIntervals summary.unreadable)) →
    ∃ k, DumpHeader64.locatePhysical dump n = some k ∧ dump.length ≤ k
  outside : ∀ n, n ∉ cells (runIntervals summary.ranges) →
    DumpHeader64.locatePhysical dump n = none
  digest : summary.sha256 = Sha256.hexText (sha256 ((List.range summary.logicalSize.toNat).map
    fun n => (DumpHeader64.readPhysical dump n).getD 0))
  documented : Documented paths summary u

/-- All ranges consist of whole pages, and the table of a dump has room for them. -/
structure Dumpable (table : List PhysicalMemoryRange) : Prop where
  aligned : ∀ range ∈ table, 4096 ∣ range.baseAddress.toNat ∧ 4096 ∣ range.numberOfBytes.toNat
  few : table.length ≤ 32

theorem Dumpable.runs {table : List PhysicalMemoryRange} {topology : Topology}
    (dumpable : Dumpable table) (describes : Describes table topology) :
    (∀ run ∈ topology.runs, run.PageAligned) ∧ topology.runs.length ≤ 32 := by
  constructor
  · intro run member
    obtain ⟨base, length⟩ := dumpable.aligned _ (describes.mem_range.mpr ⟨run, member, rfl⟩)
    exact ⟨base, length⟩
  · rw [describes.perm.length_eq, numbered, List.length_mapIdx]
    exact dumpable.few

section Dump

variable {κ : Type} {machine : Machine} {sha256 : List Byte → List Byte}
  {environment : Environment κ} {config : AcquisitionConfig} {paths : EvidencePaths}
  {table : List PhysicalMemoryRange} {topology : Topology}
  {s a m : TransactionState DeviceSession κ ZdmpMembers} {digest : NString} {u : World}

/-- The published file is the dump that the acquisition has written. -/
theorem Made.dump_content
    (approached : Approached (hostCapture machine zdmpWriter sha256 environment config) s topology a)
    (made : Made (hostCapture machine zdmpWriter sha256 environment config) paths topology a m
      digest u)
    (sourced : Sourced (hostCapture machine zdmpWriter sha256 environment config) sha256 table
      topology (openedState (hostCapture machine zdmpWriter sha256 environment config) paths topology
        a) m digest)
    (aligned : ∀ run ∈ topology.runs, run.PageAligned) :
    ∃ members node, ZdmpWriter.Configured topology.runs members ∧
      DumpFile topology.runs paths.rawPartial members
        (ZdmpWriter.header members topology.totalBytes).bytes m.calls (digested digest m.writer) ∧
      (digested digest m.writer).2.files.now paths.rawPartial = some node ∧
      u.content paths.rawFinal = some node.content := by
  obtain ⟨n, changed, completed⟩ := sourced.completed
  obtain ⟨v, -, configure⟩ := approached.writer
  have opened := made.opened
  rw [configure] at opened
  obtain ⟨members, configured, begun⟩ := zdmp_opened_dump opened
  have fits := ZdmpWriter.fits_of_aligned aligned
    (fun run member => (sourced.valid.runs run member).fits) sourced.valid.ordered
  have sustains : WriterSustains (hostCapture machine zdmpWriter sha256 environment config)
      topology.runs (DumpFile topology.runs paths.rawPartial members
        (ZdmpWriter.header members topology.totalBytes).bytes) (fun _ _ => True) :=
    DumpFile.sustains configured fits sourced.valid.ordered
  have start : DumpFile topology.runs paths.rawPartial members
      (ZdmpWriter.header members topology.totalBytes).bytes []
      (zdmpWriter.preflightAndOpen paths.rawPartial topology.highestEnd topology.totalBytes
        a.writer).2 := by
    rw [configure]
    exact begun
  have execution := acquire_writes
    (s := openedState (hostCapture machine zdmpWriter sha256 environment config) paths topology a)
    (fun topology' asked => by
      obtain rfl := Option.some.inj (completed.asked.symm.trans asked)
      exact sustains) start fun _ _ _ => trivial
  have dump := execution.of_ok made.acquired
  have noted : DumpFile topology.runs paths.rawPartial members
      (ZdmpWriter.header members topology.totalBytes).bytes m.calls (digested digest m.writer) :=
    ⟨dump.members, dump.file, dump.node⟩
  obtain ⟨node, present, -⟩ := noted.node
  refine ⟨members, node, configured, noted, present, ?_⟩
  have closed := zdmp_flushAndClose_content noted.file present
  rw [World.content, Option.map_eq_some_iff] at closed
  obtain ⟨node', present', content⟩ := closed
  rw [World.content, made.image node' present', Option.map_some, content]

theorem Made.dumpBundle
    (approached : Approached (hostCapture machine zdmpWriter sha256 environment config) s topology a)
    (made : Made (hostCapture machine zdmpWriter sha256 environment config) paths topology a m
      digest u)
    (sourced : Sourced (hostCapture machine zdmpWriter sha256 environment config) sha256 table
      topology (openedState (hostCapture machine zdmpWriter sha256 environment config) paths topology
        a) m digest)
    (dumpable : Dumpable table) :
    ∃ dump, DumpBundle sha256 paths table m.device.driver.now.copies
      { m.summary with sha256 := digest } dump u := by
  obtain ⟨aligned, few⟩ := dumpable.runs sourced.describes
  obtain ⟨members, node, configured, dump, present, published⟩ :=
    made.dump_content approached sourced aligned
  have memory := sourced.memoryImage
  have parts := sourced.partitioned
  have ordered := sourced.valid.ordered
  have ranges := sourced.ranges
  rw [← ranges] at parts ordered
  have located (n : Nat) := dump.locatePhysical (n := n) present configured aligned few
  have shown (n : Nat) (inside : n ∈ cells (runIntervals m.summary.ranges)) :=
    dump.readPhysical present configured aligned few (ranges ▸ ordered) (ranges ▸ inside)
  have written (p : Nat) : p ∈ writtenAddresses m.calls ↔
      p ∈ cells (runIntervals m.summary.ranges) ∧
        p ∉ cells (spanIntervals m.summary.unreadable) := by
    rw [← List.mem_toFinset, ← parts.union, Finset.mem_union]
    constructor
    · exact fun here => ⟨.inl here, Finset.disjoint_left.mp parts.disjoint here⟩
    · exact fun here => here.1.resolve_right here.2
  have follows (n : Nat) : (∃ p ∈ cells (runIntervals m.summary.ranges),
      p ∉ cells (spanIntervals m.summary.unreadable) ∧ n ≤ p) →
      ∃ p ∈ writtenAddresses m.calls, p ∈ cells (runIntervals topology.runs) ∧ n ≤ p := by
    rintro ⟨p, among, readable, le⟩
    exact ⟨p, (written p).mpr ⟨among, readable⟩, ranges ▸ among, le⟩
  refine ⟨node.content, {
    table := sourced.exactly
    image := published
    pages := ?_
    copied := fun n inside readable => ⟨imageOf m.calls n, ?_, memory.copied n inside readable⟩
    missing := fun n missing later => ?_
    tail := fun n missing last => ?_
    outside := fun n outside => (located n).2 (ranges ▸ outside)
    digest := ?_
    documented := made.documented }⟩
  · obtain ⟨node', present', head, -⟩ := dump.node
    obtain rfl := Option.some.inj (present'.symm.trans present)
    have whole := ZdmpWriter.sum_pageCount aligned
    have count : (ZdmpWriter.header members topology.totalBytes).numberOfPages.toNat =
        topology.totalBytes.toNat / 4096 := UInt64.toNat_div _ _
    have total := sourced.valid.totalBytes
    have physical := congrArg UInt64.toNat sourced.physicalBytes
    rw [DumpHeader64.readNumberOfPages_eq head, count]
    show _ = m.summary.physicalBytes.toNat
    omega
  · exact (shown n inside).1 (follows n ⟨n, inside, readable, Nat.le_refl n⟩)
  · obtain ⟨inside, zero⟩ := memory.missing n missing
    rw [(shown n inside).1 (follows n later), zero]
  · obtain ⟨inside, -⟩ := memory.missing n missing
    obtain ⟨k, place, -⟩ := (located n).1 (ranges ▸ inside)
    have none := (shown n inside).2 fun p here => by
      obtain ⟨among, readable⟩ := (written p).mp here
      exact Nat.lt_of_not_le fun le => readable (last p among le)
    rw [DumpHeader64.readPhysical, place] at none
    exact ⟨k, place, List.getElem?_eq_none_iff.mp none⟩
  · show digest = _
    rw [sourced.digest]
    show _ = Sha256.hexText (sha256 ((List.range m.summary.logicalSize.toNat).map _))
    rw [sourced.logicalSize, upTo]
    refine congrArg (fun image => Sha256.hexText (sha256 image)) (List.map_congr_left fun n _ => ?_)
    by_cases inside : n ∈ cells (runIntervals m.summary.ranges)
    · by_cases later : ∃ p ∈ writtenAddresses m.calls,
          p ∈ cells (runIntervals topology.runs) ∧ n ≤ p
      · rw [(shown n inside).1 later]
        rfl
      · -- The file ends before the byte, which has not been written.
        have before : ∀ p ∈ writtenAddresses m.calls, p < n := fun p here =>
          Nat.lt_of_not_le fun le => later ⟨p, here, ranges ▸ ((written p).mp here).1, le⟩
        rw [(shown n inside).2 before]
        exact imageOf_of_not_written fun here => Nat.lt_irrefl n (before n here)
    · rw [DumpHeader64.readPhysical, (located n).2 (ranges ▸ inside)]
      exact memory.outside n inside

end Dump

/-- What the machine held is what a published crash dump shows to a reader who only has the
dump, up to the last byte that could be read. -/
theorem capture_publishes_dump {κ : Type} {machine : Machine} (delivers : machine.Delivers)
    (environment : Environment κ) (sha256 : List Byte → List Byte) (config : AcquisitionConfig)
    (outputPath : WString) (host : Host DeviceSession κ)
    (opened : (deviceSession machine).openSession {} = (true, host.device))
    (format : outputFormat outputPath config.format = .zdmp)
    (dumpable : Dumpable (capturedTable host.device.driver))
    (finalized : (captureEvidenceToFile (deviceSession machine) environment sha256 config outputPath
      host).1.hasFinalizedBundle = true) :
    let outcome := captureEvidenceToFile (deviceSession machine) environment sha256 config
      outputPath host
    outcome.1.status = publishedStatus outcome.1.summary ∧
      ∃ dump, DumpBundle sha256 (buildEvidencePaths outputPath) (capturedTable host.device.driver)
        outcome.2.device.driver.now.copies outcome.1.summary dump outcome.2.world := by
  have named := captureEvidenceToFile_named finalized
  rw [captureEvidenceToFile, if_neg named, format] at finalized ⊢
  obtain ⟨topology, a, m, digest, published⟩ := runCapture_published delivers zdmpWriter_staging
    (buildEvidencePaths_nodup outputPath) opened finalized
  refine ⟨published.status, ?_⟩
  rw [published.summary, published.device]
  exact published.made.dumpBundle published.approached published.sourced dumpable

/-- A machine with three pages, of which only the second can be read. -/
def pagedMachine : Machine where
  kernel _ :=
    { irql := 0
      ranges := some [⟨0x2000, 0x2000⟩, ⟨0, 0x1000⟩]
      copyMemory := fun address length =>
        if address = 0x2000 ∧ length ≤ 0x1000 then
          ⟨List.replicate length.toNat 0x55, length.toUInt64, statusSuccess⟩
        else ⟨[], 0, 0xC0000005⟩
      hints := ⟨0, 0, 0, 0, 0, 0, 0, 0, 0, 0, 0, 0⟩ }
  openFailure _ := none
  dosError _ := errorInvalidData

theorem pagedMachine_delivers : pagedMachine.Delivers := by
  refine ⟨fun _ => rfl, fun _ address length => ?_, fun _ address length => ?_⟩ <;>
    simp only [pagedMachine] <;> split
  · exact (UInt32.toNat_toUInt64 length).le
  · exact Nat.zero_le _
  · rw [List.length_replicate, UInt32.toNat_toUInt64]
  · rfl

def pagedHost : Host DeviceSession Unit :=
  { hesitantHost with
    device := ((deviceSession pagedMachine).openSession {}).2
    world := { hesitantVolume with oracle := fun _ => { freeBytes := 0x100000000 } } }

theorem capture_publishes_dump_unreadable_tail :
    let outcome := captureEvidenceToFile (deviceSession pagedMachine) quietEnvironment
      (fun _ => List.replicate 32 0x5A) {} (wide "a.dmp") pagedHost
    outcome.1.status = publishedStatus outcome.1.summary ∧
      ∃ dump, DumpBundle (fun _ => List.replicate 32 0x5A) (buildEvidencePaths (wide "a.dmp"))
        (capturedTable pagedHost.device.driver) outcome.2.device.driver.now.copies
        outcome.1.summary dump outcome.2.world :=
  capture_publishes_dump pagedMachine_delivers quietEnvironment _ {} (wide "a.dmp") pagedHost rfl
    (by decide +kernel) ⟨by decide +kernel, by decide +kernel⟩ (by decide +kernel)

end PhylaRam
