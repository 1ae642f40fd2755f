import PhylaRam.Device.Copies
import PhylaRam.Evidence.Delivery
import PhylaRam.Evidence.RoundTrip

/-!
# What a bundle says of the machine

A capture asks for the topology twice, once before the image is opened and once in `Acquire`. In
one session of the driver both answers are the table that was frozen when the session began. So
the map of a published bundle describes this table, whatever its writer makes of the image, and
its digest is that of the logical image.
-/

namespace PhylaRam

open Program Interval Image

/-! ### One session, one topology -/

/-- A table has at most one topology. -/
theorem Describes.unique {table : List PhysicalMemoryRange} {topology topology' : Topology}
    (h : Describes table topology) (h' : Describes table topology')
    (nonempty : topology.runs ≠ []) : topology = topology' := by
  have present : table ≠ [] := by
    rintro rfl
    exact nonempty (List.perm_nil.mp h.perm)
  have runs : topology.runs = topology'.runs := by
    refine (h.perm.trans h'.perm.symm).eq_of_pairwise (fun a b _ _ lt gt => ?_)
      (h.exactly present).sorted (h'.exactly present).sorted
    rw [UInt64.lt_iff_toNat_lt] at lt gt
    omega
  obtain ⟨total, highest⟩ := Prod.mk.inj (h.totals.trans h'.totals.symm)
  cases topology
  cases topology'
  cases runs
  cases total
  cases highest
  rfl

section Driver

variable {κ μ : Type} {machine : Machine} {writer : IRawWriter (WriterState μ × World)}
  {sha256 : List Byte → List Byte} {environment : Environment κ} {config : AcquisitionConfig}
  {paths : EvidencePaths} {table : List PhysicalMemoryRange} {topology : Topology}
  {s a m : TransactionState DeviceSession κ μ} {digest : NString} {u : World}

/-- The capture behind a driver. -/
abbrev hostCapture (machine : Machine) (writer : IRawWriter (WriterState μ × World))
    (sha256 : List Byte → List Byte) (environment : Environment κ) (config : AcquisitionConfig) :
    Collaborators DeviceSession (WriterState μ × World) Sha256 κ :=
  driverCapture machine writer (sha256Hasher sha256) environment config

theorem Approached.describes
    (approached : Approached (hostCapture machine writer sha256 environment config) s topology a)
    (session : InSession table s.device) : Describes table topology :=
  describes_of_asked session approached.asked

/-- The session is still open when `Acquire` begins. -/
theorem Approached.session
    (approached : Approached (hostCapture machine writer sha256 environment config) s topology a)
    (session : InSession table s.device) : InSession table a.device := by
  rw [approached.device]
  have queried : InSession table ((deviceSession machine).query s.device).2 := by
    cases method_cases (query_wp machine session) with
    | inl accepted =>
        obtain ⟨_, _, continues, _⟩ := accepted
        exact continues.session
    | inr refused => exact refused.2.session
  cases method_cases (queryHints_wp machine queried) with
  | inl available =>
      obtain ⟨_, _, continues⟩ := available
      exact continues.session
  | inr unavailable => exact unavailable.2.session

theorem sha256_hashRel (sha256 : List Byte → List Byte) :
    HashRel (sha256Hasher sha256) Sha256.Holds :=
  ⟨fun _ _ _ holds accepted => holds.update accepted,
    fun _ _ _ holds accepted => holds.updateZeros accepted⟩

/-- The acquisition behind a bundle: `m` is what `Acquire` made of `s`. -/
structure Sourced (C : Collaborators DeviceSession (WriterState μ × World) Sha256 κ)
    (sha256 : List Byte → List Byte) (table : List PhysicalMemoryRange) (topology : Topology)
    (s m : TransactionState DeviceSession κ μ) (digest : NString) : Prop where
  describes : Describes table topology
  valid : topology.Valid
  calls : s.calls = []
  completed : ∃ n changed, Completed C s topology n changed m
  replies : RepliesCopied m
  logicalSize : m.summary.logicalSize = topology.highestEnd
  physicalBytes : m.summary.physicalBytes = topology.totalBytes
  ranges : m.summary.ranges = topology.runs
  digest : digest = Sha256.hexText (sha256 (upTo (imageOf m.calls) topology.highestEnd.toNat))

/-- Every published bundle is the outcome of an acquisition of the frozen table. -/
theorem Made.sourced (delivers : machine.Delivers) (session : InSession table s.device)
    (approached : Approached (hostCapture machine writer sha256 environment config) s topology a)
    (made : Made (hostCapture machine writer sha256 environment config) paths topology a m digest
      u) :
    Sourced (hostCapture machine writer sha256 environment config) sha256 table topology
      (openedState (hostCapture machine writer sha256 environment config) paths topology a) m
      digest := by
  have inSession := approached.session session
  have ran := made.acquired
  obtain ⟨topology', n, changed, completed⟩ := acquire_completed _
    (show returned (acquire (hostCapture machine writer sha256 environment config) _) = true by
      rw [ran]
      rfl)
  rw [ran] at completed
  change Completed _ _ topology' n changed m at completed
  have described : Describes table topology' := describes_of_asked inSession completed.asked
  obtain rfl : topology' = topology :=
    described.unique (approached.describes session) completed.usable.runs_ne
  have fixed := completed.traversal.sameTopology
  have logicalSize : n.summary.logicalSize = topology'.highestEnd := fixed.logicalSize
  have holds : Sha256.Holds [] a.hasher := by
    rw [approached.hasher]
    exact Sha256.holds_initializeHash approached.initialized
  have replies : WP (acquire (hostCapture machine writer sha256 environment config))
      (fun _ t => RepliesCopied t) (fun _ t => RepliesCopied t)
      (openedState (hostCapture machine writer sha256 environment config) paths topology' a) :=
    acquire_repliesCopied delivers inSession rfl
  have hashed := completed.hash_rel (sha256_hashRel sha256) rfl holds
  have stream := (completed.streams rfl rfl).stream
  rw [logicalSize] at stream
  refine {
    describes := described
    valid := described.validTopology completed.usable.runs_ne
    calls := rfl
    completed := ⟨n, changed, completed⟩
    replies := replies.of_ok ran
    logicalSize := ?_
    physicalBytes := ?_
    ranges := ?_
    digest := ?_ }
  · rw [completed.final]
    exact logicalSize
  · rw [completed.final]
    exact fixed.physicalBytes
  · rw [completed.final]
    exact fixed.ranges
  · rw [hashed.finish made.digest, stream]

section Sourced

variable {C : Collaborators DeviceSession (WriterState μ × World) Sha256 κ}

theorem Sourced.partitioned (sourced : Sourced C sha256 table topology s m digest) :
    Partitioned topology.runs m.calls m.summary := by
  obtain ⟨n, changed, completed⟩ := sourced.completed
  exact completed.partitioned sourced.calls sourced.valid.frozen

theorem Sourced.exactly (sourced : Sourced C sha256 table topology s m digest) :
    Exactly table ⟨m.summary.logicalSize, m.summary.physicalBytes, m.summary.ranges⟩ := by
  rw [sourced.logicalSize, sourced.physicalBytes, sourced.ranges]
  refine sourced.describes.exactly ?_
  rintro rfl
  exact sourced.valid.nonempty (List.perm_nil.mp sourced.describes.perm)

end Sourced

theorem Sourced.memoryImage
    (sourced : Sourced (hostCapture machine writer sha256 environment config) sha256 table topology
      s m digest) :
    MemoryImage m.summary.ranges m.device.driver.now.copies m.summary.unreadable
      (imageOf m.calls) := by
  obtain ⟨n, changed, completed⟩ := sourced.completed
  rw [sourced.ranges]
  exact completed.memoryImage sourced.calls sourced.valid.frozen sourced.replies

/-- The map and the sidecar that are published next to the image. -/
structure Documented (paths : EvidencePaths) (summary : AcquisitionSummary) (u : World) : Prop where
  map : ∃ text, u.content paths.mapFinal = some (Verify.Str.bytes text) ∧
    Decodes text (.written summary)
  sidecar : u.content paths.hashFinal =
    some (sidecarText (Map.narrowUtf8 (Path.filename paths.rawFinal)) summary.sha256)

theorem Made.documented {C : Collaborators DeviceSession (WriterState μ × World) Sha256 κ}
    (made : Made C paths topology a m digest u) :
    Documented paths { m.summary with sha256 := digest } u := by
  obtain ⟨encoded, decodes⟩ := mapText_decodes made.acceptable
  refine ⟨⟨_, ?_, decodes⟩, ?_⟩
  · rw [World.content, made.map, ← encoded]
    rfl
  · rw [World.content, made.sidecar]
    rfl

/-- A published bundle with what it was made of. -/
structure Published (machine : Machine) (writer : IRawWriter (WriterState μ × World))
    (sha256 : List Byte → List Byte) (environment : Environment κ) (config : AcquisitionConfig)
    (paths : EvidencePaths) (members : μ) (host : Host DeviceSession κ)
    (outcome : EvidenceCaptureResult × Host DeviceSession κ) (topology : Topology)
    (a m : TransactionState DeviceSession κ μ) (digest : NString) : Prop where
  device : outcome.2.device = m.device
  calls : (captureWith (hostCapture machine writer sha256 environment config) paths
    (host.start members)).2.calls = m.calls
  status : outcome.1.status = publishedStatus outcome.1.summary
  summary : outcome.1.summary = { m.summary with sha256 := digest }
  approached : Approached (hostCapture machine writer sha256 environment config)
    (host.start members) topology a
  made : Made (hostCapture machine writer sha256 environment config) paths topology a m digest
    outcome.2.world
  sourced : Sourced (hostCapture machine writer sha256 environment config) sha256
    (capturedTable host.device.driver) topology
    (openedState (hostCapture machine writer sha256 environment config) paths topology a) m digest

theorem runCapture_published (delivers : machine.Delivers) (staging : Staging writer)
    (distinct : paths.names.Nodup) {members : μ} {host : Host DeviceSession κ}
    (opened : (deviceSession machine).openSession {} = (true, host.device))
    (finalized : (runCapture (hostCapture machine writer sha256 environment config) paths members
      host).1.hasFinalizedBundle = true) :
    ∃ topology a m digest, Published machine writer sha256 environment config paths members host
      (runCapture (hostCapture machine writer sha256 environment config) paths members host)
      topology a m digest := by
  obtain ⟨topology, a, m, digest, rests, approached, made, status, summary⟩ :=
    runCapture_made staging distinct finalized
  exact ⟨topology, a, m, digest, {
    device := rests.device
    calls := rests.calls
    status := status.trans (congrArg publishedStatus summary.symm)
    summary
    approached
    made
    sourced := made.sourced delivers (openDevice_inSession opened) approached }⟩

end Driver

/-- A capture that publishes a bundle was given a path. -/
theorem captureEvidenceToFile_named {δ κ : Type} {device : IDeviceSession δ}
    {environment : Environment κ} {sha256 : List Byte → List Byte} {config : AcquisitionConfig}
    {outputPath : WString} {host : Host δ κ}
    (finalized : (captureEvidenceToFile device environment sha256 config outputPath
      host).1.hasFinalizedBundle = true) : ¬(outputPath = [] ∨ outputPath = wide "-") := by
  intro unnamed
  rw [captureEvidenceToFile, if_pos unnamed] at finalized
  cases finalized

end PhylaRam
