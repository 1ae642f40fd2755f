import PhylaRam.Evidence.RawBundle
import PhylaRam.Writer.E01Media

/-!
# The published E01 container

The container announces the runs and appends what it is given. So a reader who joins its chunks
finds the bytes that the driver copied, one for each readable address and in the order of the
addresses, and only the padding of the last chunk behind them. Where everything was readable these
are the announced media.
-/

namespace PhylaRam

open Program Interval Image Chunks

/-- The addresses of the runs outside the recorded spans. -/
def AcquisitionSummary.readable (summary : AcquisitionSummary) : List Nat :=
  (addresses (runIntervals summary.ranges)).filter
    (· ∉ cells (spanIntervals summary.unreadable))

/-- The chunks of a container and what they hold. -/
structure ContainerMedia (container : List Byte) (summary : AcquisitionSummary)
    (copies : List MemoryCopy) (chunkCount : UInt32) (sectorCount : UInt64)
    (chunks : List (List Byte)) (stream : List Byte) : Prop where
  layout : ∃ sectors entries, E01Layout container chunkCount sectorCount sectors chunks entries
  sectors : sectorCount.toNat = summary.physicalBytes.toNat / 512
  whole : summary.unreadable = [] → chunks.length = chunkCount.toNat
  padded : Padded 65536 0 stream chunks
  copied : List.Forall₂ (Transferred copies) summary.readable stream

/-- The container and the map agree with each other and with the memory of the machine. The digest
is that of the logical image, of which the container holds the readable bytes. -/
structure ContainerBundle (sha256 : List Byte → List Byte) (paths : EvidencePaths)
    (table : List PhysicalMemoryRange) (copies : List MemoryCopy) (summary : AcquisitionSummary)
    (container : List Byte) (u : World) : Prop where
  table : Exactly table ⟨summary.logicalSize, summary.physicalBytes, summary.ranges⟩
  image : u.content paths.rawFinal = some container
  media : ∃ memory chunkCount sectorCount chunks,
    MemoryImage summary.ranges copies summary.unreadable memory ∧
      ContainerMedia container summary copies chunkCount sectorCount chunks
        (summary.readable.map memory) ∧
      summary.sha256 = Sha256.hexText (sha256 (upTo memory summary.logicalSize.toNat))
  documented : Documented paths summary u

/-- A note does not touch the file. -/
theorem E01Stream.digested {path : WString} {m : E01Members} {data : List Byte}
    {s : E01Writer × World} (stream : E01Stream path m data s) (digest : NString) :
    E01Stream path m data (digested digest s) := by
  obtain ⟨chunks, rest, split, file⟩ := stream
  exact ⟨chunks, rest, split, file.file, file.members, file.node, file.reliable.perform _⟩

/-- The stream closes the gaps. -/
theorem Streamed.writtenBytes_eq {runs : List MemoryRun} {calls : List Call}
    (streamed : Streamed runs calls) :
    writtenBytes calls = ((addresses (runIntervals runs)).filter
      (· ∈ writtenAddresses calls)).map (imageOf calls) := by
  rw [← reduceOption_slots, streamed.slots_eq]
  induction addresses (runIntervals runs) with
  | nil => rfl
  | cons n rest ih =>
      rw [List.map_cons, slotOf, List.filter_cons]
      by_cases written : n ∈ writtenAddresses calls
      · rw [if_pos written, if_pos (decide_eq_true written), List.reduceOption_cons_of_some, ih,
          List.map_cons]
      · rw [if_neg written, if_neg (by simpa using written), List.reduceOption_cons_of_none, ih]

section Container

variable {κ : Type} {machine : Machine} {sha256 : List Byte → List Byte}
  {environment : Environment κ} {config : AcquisitionConfig} {paths : EvidencePaths}
  {table : List PhysicalMemoryRange} {topology : Topology}
  {s a m : TransactionState DeviceSession κ E01Members} {digest : NString} {u : World}

/-- The readable addresses are those that were written. -/
theorem Sourced.readable {μ : Type}
    {C : Collaborators DeviceSession (WriterState μ × World) Sha256 κ}
    {s m : TransactionState DeviceSession κ μ}
    (sourced : Sourced C sha256 table topology s m digest) :
    m.summary.readable =
      (addresses (runIntervals topology.runs)).filter (· ∈ writtenAddresses m.calls) := by
  have parts := sourced.partitioned
  rw [AcquisitionSummary.readable, sourced.ranges]
  refine List.filter_congr fun n among => ?_
  rw [mem_addresses, ← parts.union, Finset.mem_union, List.mem_toFinset] at among
  rw [decide_eq_decide]
  constructor
  · exact among.resolve_right
  · intro written lost
    exact Finset.disjoint_left.mp parts.disjoint (List.mem_toFinset.mpr written) lost

/-- The published container is the closed stream. -/
theorem Made.container_content (reliable : s.writer.2.Reliable)
    (approached : Approached (hostCapture machine e01Writer sha256 environment config) s topology a)
    (made : Made (hostCapture machine e01Writer sha256 environment config) paths topology a m
      digest u) :
    ∃ container sectors chunks entries, u.content paths.rawFinal = some container ∧
      E01Layout container ((topology.totalBytes + 65536 - 1) / 65536).toUInt32
        (topology.totalBytes / 512) sectors chunks entries ∧
      Padded 65536 0 (writtenBytes m.calls) chunks ∧ 4 * chunks.length < 2 ^ 32 := by
  obtain ⟨v, waits, configure⟩ := approached.writer
  have steady : a.writer.2.Reliable := by
    rw [configure]
    exact reliable.of_oracle waits.oracle
  obtain ⟨members, announced, front, begun⟩ := e01_opened steady made.opened
  have execution := acquire_writes
    (C := hostCapture machine e01Writer sha256 environment config)
    (s := openedState (hostCapture machine e01Writer sha256 environment config) paths topology a)
    (I := fun calls => E01Stream paths.rawPartial members (writtenBytes calls))
    (J := fun _ _ => True) (fun _ _ => E01Stream.sustains) begun (fun _ _ _ => trivial)
  have stream := (execution.of_ok made.acquired).digested digest
  have few := stream.table_small made.flushed
  obtain ⟨_, -, chunks, padded, content⟩ :=
    (stream.flushAndClose (by rw [chunkDistance]; omega)).of_returned made.flushed
  have distance : (E01Writer.front members).length + chunkDistance chunks.length < 2 ^ 63 := by
    rw [padded.count, chunkDistance]
    omega
  have layout := E01Writer.finished_layout padded.full distance
  rw [announced] at layout
  rw [World.content, Option.map_eq_some_iff] at content
  obtain ⟨node, present, same⟩ := content
  refine ⟨_, _, chunks, _, ?_, layout, padded, ?_⟩
  · rw [World.content, made.image node present, Option.map_some, same]
  · rw [padded.count]
    exact few

theorem Made.containerBundle (reliable : s.writer.2.Reliable)
    (approached : Approached (hostCapture machine e01Writer sha256 environment config) s topology a)
    (made : Made (hostCapture machine e01Writer sha256 environment config) paths topology a m
      digest u)
    (sourced : Sourced (hostCapture machine e01Writer sha256 environment config) sha256 table
      topology (openedState (hostCapture machine e01Writer sha256 environment config) paths topology
        a) m digest) :
    ∃ container, ContainerBundle sha256 paths table m.device.driver.now.copies
      { m.summary with sha256 := digest } container u := by
  obtain ⟨n, changed, completed⟩ := sourced.completed
  have memory := sourced.memoryImage
  have streamed := completed.streamed sourced.calls sourced.valid.ordered
  have readable := sourced.readable
  obtain ⟨container, sectors, chunks, entries, image, layout, padded, few⟩ :=
    made.container_content reliable approached
  have held : writtenBytes m.calls = m.summary.readable.map (imageOf m.calls) := by
    rw [readable]
    exact streamed.writtenBytes_eq
  refine ⟨container, {
    table := sourced.exactly
    image
    media := ⟨imageOf m.calls, _, _, chunks, memory, {
      layout := ⟨sectors, entries, layout⟩
      sectors := ?_
      whole := fun complete => ?_
      padded := held ▸ padded
      copied := ?_ }, ?_⟩
    documented := made.documented }⟩
  · show _ = m.summary.physicalBytes.toNat / 512
    rw [sourced.physicalBytes, UInt64.toNat_div]
    rfl
  · -- without a gap the stream is as long as the runs
    have complete : m.summary.unreadable = [] := complete
    have all : (writtenBytes m.calls).length = topology.totalBytes.toNat := by
      rw [streamed.writtenBytes_eq, List.length_map, ← readable, AcquisitionSummary.readable,
        sourced.ranges, complete, ← sourced.valid.totalBytes, ← length_addresses]
      exact congrArg List.length (List.filter_eq_self.mpr fun n _ => by simp [spanIntervals])
    rw [padded.count, all, chunkCount_toNat]
    have count := padded.count
    omega
  · show List.Forall₂ _ m.summary.readable (m.summary.readable.map _)
    rw [readable, List.forall₂_map_right_iff, List.forall₂_same]
    intro n among
    obtain ⟨inside, written⟩ := List.mem_filter.mp among
    rw [decide_eq_true_eq] at written
    refine memory.copied n ?_ fun lost => ?_
    · rw [sourced.ranges]
      exact mem_addresses.mp inside
    · exact Finset.disjoint_left.mp sourced.partitioned.disjoint (List.mem_toFinset.mpr written) lost
  · show digest = Sha256.hexText (sha256 (upTo (imageOf m.calls) m.summary.logicalSize.toNat))
    rw [sourced.digest, sourced.logicalSize]

end Container

/-- The bytes that the driver copied are what a published E01 container holds. -/
theorem capture_publishes_container {κ : Type} {machine : Machine} (delivers : machine.Delivers)
    (environment : Environment κ) (sha256 : List Byte → List Byte) (config : AcquisitionConfig)
    (outputPath : WString) (host : Host DeviceSession κ) (reliable : host.world.Reliable)
    (opened : (deviceSession machine).openSession {} = (true, host.device))
    (format : outputFormat outputPath config.format = .e01)
    (finalized : (captureEvidenceToFile (deviceSession machine) environment sha256 config outputPath
      host).1.hasFinalizedBundle = true) :
    let outcome := captureEvidenceToFile (deviceSession machine) environment sha256 config
      outputPath host
    outcome.1.status = publishedStatus outcome.1.summary ∧
      ∃ container, ContainerBundle sha256 (buildEvidencePaths outputPath)
        (capturedTable host.device.driver) outcome.2.device.driver.now.copies outcome.1.summary
        container outcome.2.world := by
  have named := captureEvidenceToFile_named finalized
  rw [captureEvidenceToFile, if_neg named, format] at finalized ⊢
  obtain ⟨topology, a, m, digest, published⟩ := runCapture_published delivers e01Writer_staging
    (buildEvidencePaths_nodup outputPath) opened finalized
  refine ⟨published.status, ?_⟩
  rw [published.summary, published.device]
  exact published.made.containerBundle reliable published.approached published.sourced

/-- The machine of short copies, and a volume on which no call fails. -/
def roomyHost : Host DeviceSession Unit :=
  { hesitantHost with
    world := { hesitantVolume with
      oracle := fun _ => { limit := 2 ^ 32 - 1, freeBytes := 0x100000000 } } }

theorem capture_publishes_container_short_copies :
    let outcome := captureEvidenceToFile (deviceSession hesitantMachine) quietEnvironment
      (fun _ => List.replicate 32 0x5A) {} (wide "a.e01") roomyHost
    outcome.1.status = publishedStatus outcome.1.summary ∧
      ∃ container, ContainerBundle (fun _ => List.replicate 32 0x5A)
        (buildEvidencePaths (wide "a.e01")) (capturedTable roomyHost.device.driver)
        outcome.2.device.driver.now.copies outcome.1.summary container outcome.2.world :=
  capture_publishes_container hesitantMachine_delivers quietEnvironment _ {} (wide "a.e01")
    roomyHost (fun _ => ⟨rfl, rfl⟩) rfl (by decide +kernel) (by decide +kernel)

end PhylaRam
