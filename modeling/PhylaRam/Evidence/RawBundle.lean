import PhylaRam.Evidence.Provenance

/-!
# The published RAW bundle

From the driver to the three files: a RAW capture that reports success has published an image of
the frozen table in which every readable byte was copied by the driver from the address of its
offset, with the digest of exactly this file and a map of exactly this table.
-/

namespace PhylaRam

open Program Interval Image

/-- The three files agree with each other and with the memory of the machine. -/
structure RawBundle (sha256 : List Byte → List Byte) (paths : EvidencePaths)
    (table : List PhysicalMemoryRange) (copies : List MemoryCopy) (summary : AcquisitionSummary)
    (raw : List Byte) (u : World) : Prop where
  table : Exactly table ⟨summary.logicalSize, summary.physicalBytes, summary.ranges⟩
  image : u.content paths.rawFinal = some raw
  size : raw.length = summary.logicalSize.toNat
  copied : ∀ n ∈ cells (runIntervals summary.ranges), n ∉ cells (spanIntervals summary.unreadable) →
    ∃ byte, raw[n]? = some byte ∧ Transferred copies n byte
  missing : ∀ n ∈ cells (spanIntervals summary.unreadable),
    n ∈ cells (runIntervals summary.ranges) ∧ raw[n]? = some 0
  outside : ∀ n < raw.length, n ∉ cells (runIntervals summary.ranges) → raw[n]? = some 0
  digest : summary.sha256 = Sha256.hexText (sha256 raw)
  documented : Documented paths summary u

/-- No address of a run lies behind the highest end. -/
theorem Topology.Valid.lt_highestEnd {topology : Topology} (valid : topology.Valid) {n : Nat}
    (inside : n ∈ cells (runIntervals topology.runs)) : n < topology.highestEnd.toNat := by
  obtain ⟨piece, among, within⟩ := mem_cells.mp inside
  obtain ⟨run, member, rfl⟩ := List.mem_map.mp among
  exact Nat.lt_of_lt_of_le (Piece.mem_cells.mp within).2 (valid.highestEnd_le run member)

section Raw

variable {κ : Type} {machine : Machine} {sha256 : List Byte → List Byte}
  {environment : Environment κ} {config : AcquisitionConfig} {paths : EvidencePaths}
  {table : List PhysicalMemoryRange} {topology : Topology}
  {s a m : TransactionState DeviceSession κ RawMembers} {digest : NString} {u : World}

/-- The published file is the logical image. -/
theorem Made.raw_content
    (made : Made (hostCapture machine rawWriter sha256 environment config) paths topology a m
      digest u)
    (sourced : Sourced (hostCapture machine rawWriter sha256 environment config) sha256 table
      topology (openedState (hostCapture machine rawWriter sha256 environment config) paths topology
        a) m digest) :
    u.content paths.rawFinal = some (upTo (imageOf m.calls) topology.highestEnd.toNat) := by
  obtain ⟨n, changed, completed⟩ := sourced.completed
  obtain ⟨_, -, file⟩ := (preflightAndOpen_wp paths.rawPartial topology.highestEnd
    topology.totalBytes a.writer).of_returned made.opened
  have written : RawFile paths.rawPartial topology.highestEnd.toNat (imageOf m.calls) m.writer := by
    refine completed.writer_rel (R := RawFile paths.rawPartial topology.highestEnd.toNat)
      (fun image w offset data held _ accepted => ?_) sourced.calls file
    obtain ⟨_, -, next⟩ := (held.writeAt offset data).of_returned accepted
    exact next
  have noted : RawFile paths.rawPartial topology.highestEnd.toNat (imageOf m.calls)
      (digested digest m.writer) := ⟨written.file, written.logicalSize, written.node⟩
  obtain ⟨node, present, content⟩ := noted.flushAndClose
  rw [World.content, made.image node present, Option.map_some, content]

/-- A byte of the file. -/
theorem getElem?_upTo {image : Nat → Byte} {size n : Nat} (inside : n < size) :
    (upTo image size)[n]? = some (image n) := by
  rw [List.getElem?_eq_getElem ((length_upTo _ _).symm ▸ inside), getElem_upTo]

theorem Made.rawBundle
    (made : Made (hostCapture machine rawWriter sha256 environment config) paths topology a m
      digest u)
    (sourced : Sourced (hostCapture machine rawWriter sha256 environment config) sha256 table
      topology (openedState (hostCapture machine rawWriter sha256 environment config) paths topology
        a) m digest) :
    RawBundle sha256 paths table m.device.driver.now.copies { m.summary with sha256 := digest }
      (upTo (imageOf m.calls) topology.highestEnd.toNat) u := by
  have memory := sourced.memoryImage
  have below {n : Nat} (inside : n ∈ cells (runIntervals m.summary.ranges)) :
      n < topology.highestEnd.toNat := sourced.valid.lt_highestEnd (sourced.ranges ▸ inside)
  refine {
    table := sourced.exactly
    image := made.raw_content sourced
    size := ?_
    copied := fun n inside readable =>
      ⟨_, getElem?_upTo (below inside), memory.copied n inside readable⟩
    missing := fun n missing => ?_
    outside := fun n within outside => ?_
    digest := sourced.digest
    documented := made.documented }
  · rw [length_upTo]
    exact congrArg UInt64.toNat sourced.logicalSize.symm
  · obtain ⟨inside, zero⟩ := memory.missing n missing
    exact ⟨inside, zero ▸ getElem?_upTo (below inside)⟩
  · rw [length_upTo] at within
    exact memory.outside n outside ▸ getElem?_upTo within

end Raw

section Capture

variable {κ : Type} {machine : Machine} (delivers : machine.Delivers)
  (environment : Environment κ) (sha256 : List Byte → List Byte) (config : AcquisitionConfig)
  (outputPath : WString) (host : Host DeviceSession κ)
  (opened : (deviceSession machine).openSession {} = (true, host.device))
  (format : outputFormat outputPath config.format = .raw)
  (finalized : (captureEvidenceToFile (deviceSession machine) environment sha256 config outputPath
    host).1.hasFinalizedBundle = true)
include delivers opened format finalized

/-- The bundle of a RAW capture and the acquisition it comes from. -/
theorem capture_published : ∃ topology a m digest,
    Published machine rawWriter sha256 environment config (buildEvidencePaths outputPath) {} host
      (captureEvidenceToFile (deviceSession machine) environment sha256 config outputPath host)
      topology a m digest := by
  have named := captureEvidenceToFile_named finalized
  rw [captureEvidenceToFile, if_neg named, format] at finalized ⊢
  exact runCapture_published delivers rawWriter_staging (buildEvidencePaths_nodup outputPath)
    opened finalized

end Capture

/-- What the machine held is what a published RAW bundle shows, whatever the environment did to
the capture in the meantime. -/
theorem capture_publishes_memory {κ : Type} {machine : Machine} (delivers : machine.Delivers)
    (environment : Environment κ) (sha256 : List Byte → List Byte) (config : AcquisitionConfig)
    (outputPath : WString) (host : Host DeviceSession κ)
    (opened : (deviceSession machine).openSession {} = (true, host.device))
    (format : outputFormat outputPath config.format = .raw)
    (finalized : (captureEvidenceToFile (deviceSession machine) environment sha256 config outputPath
      host).1.hasFinalizedBundle = true) :
    let outcome := captureEvidenceToFile (deviceSession machine) environment sha256 config
      outputPath host
    outcome.1.status = publishedStatus outcome.1.summary ∧
      ∃ raw, RawBundle sha256 (buildEvidencePaths outputPath) (capturedTable host.device.driver)
        outcome.2.device.driver.now.copies outcome.1.summary raw outcome.2.world := by
  intro outcome
  obtain ⟨topology, a, m, digest, published⟩ :=
    capture_published delivers environment sha256 config outputPath host opened format finalized
  refine ⟨published.status, upTo (imageOf m.calls) topology.highestEnd.toNat, ?_⟩
  rw [published.summary, published.device]
  exact published.made.rawBundle published.sourced

/-- A machine that copies at most three bytes at a time, and a volume that writes at most a
hundred. -/
def hesitantHost : Host DeviceSession Unit where
  device := ((deviceSession hesitantMachine).openSession {}).2
  environment := ()
  hasher := { fails := fun _ => false }
  world := { hesitantVolume with oracle := fun _ => { limit := 100, freeBytes := 0x100000000 } }

theorem capture_publishes_memory_short_copies :
    let outcome := captureEvidenceToFile (deviceSession hesitantMachine) quietEnvironment
      (fun _ => List.replicate 32 0x5A) {} (wide "a.raw") hesitantHost
    outcome.1.status = publishedStatus outcome.1.summary ∧
      ∃ raw, RawBundle (fun _ => List.replicate 32 0x5A) (buildEvidencePaths (wide "a.raw"))
        (capturedTable hesitantHost.device.driver) outcome.2.device.driver.now.copies
        outcome.1.summary raw outcome.2.world :=
  capture_publishes_memory hesitantMachine_delivers quietEnvironment _ {} (wide "a.raw")
    hesitantHost rfl (by decide) (by decide +kernel)

end PhylaRam
