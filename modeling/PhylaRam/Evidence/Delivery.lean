import PhylaRam.Evidence.Conduct

/-!
# Where a published bundle comes from

A capture with any of the writers that publishes a bundle has opened, acquired and flushed the
image. The published image is the flushed one, the digest is the one of the hasher that `Acquire`
fed, and both sidecars are written from the summary that `Acquire` left.
-/

namespace PhylaRam

open Program

variable {δ κ μ : Type}

section Phases

variable (C : Collaborators δ (WriterState μ × World) Sha256 κ) (paths : EvidencePaths)

/-- The state in which `Acquire` is called. -/
def openedState (topology : Topology) (a : TransactionState δ κ μ) : TransactionState δ κ μ :=
  .start a.device (C.writer.preflightAndOpen paths.rawPartial topology.highestEnd
    topology.totalBytes a.writer).2 a.hasher a.environment

/-- The writer that is flushed after the digest has been noted. -/
def digested (sha256 : NString) (writer : WriterState μ × World) : WriterState μ × World :=
  (writer.1, writer.2.perform (.note (.digest sha256)))

/-- What a bundle in the world `u` was made of: `a` is the state before the staging file is
created, and `m` the one that `Acquire` leaves. -/
structure Made (topology : Topology) (a m : TransactionState δ κ μ) (sha256 : NString) (u : World) :
    Prop where
  opened : (C.writer.preflightAndOpen paths.rawPartial topology.highestEnd topology.totalBytes
    a.writer).1 = true
  acquired : acquire C (openedState C paths topology a) = .ok () m
  digest : (C.hasher.finish m.hasher).1 = some sha256
  flushed : (C.writer.flushAndClose (digested sha256 m.writer)).1 = true
  image : ∀ node, (C.writer.flushAndClose (digested sha256 m.writer)).2.2.files.now
    paths.rawPartial = some node → u.files.now paths.rawFinal = some node
  map : u.files.now paths.mapFinal =
    some (finishedFile (Map.ascii (Map.mapText { m.summary with sha256 })))
  sidecar : u.files.now paths.hashFinal = some (finishedFile
    (sidecarText (Map.narrowUtf8 (Path.filename paths.rawFinal)) sha256))
  acceptable : Map.acceptable { m.summary with sha256 } = true
  accounted : accountingViolated { m.summary with sha256 } = false

/-- The phases before the staging file is created have succeeded. -/
structure Approached (s : TransactionState δ κ μ) (topology : Topology)
    (a : TransactionState δ κ μ) : Prop where
  asked : (C.device.query s.device).1 = some topology
  device : a.device = (C.device.queryHints (C.device.query s.device).2).2
  initialized : (C.hasher.initializeHasher s.hasher).1 = true
  hasher : a.hasher = (C.hasher.initializeHasher s.hasher).2
  writer : ∃ v, Waits s.writer.2 v ∧ a.writer = C.writer.configure topology.runs
    (C.device.queryHints (C.device.query s.device).2).1.2 C.config.metadata (s.writer.1, v)

variable {C paths} {w : World} {s : TransactionState δ κ μ}

theorem approach_exact :
    WP (approach C paths) (fun topology a => Approached C s topology a) (fun _ _ => True) s := by
  rw [approach, refuseCollision, WP.bind_iff, WP.bind_iff, onWorld, WP.modifyGet_iff, demand,
    WP.ite_iff]
  refine ⟨fun _ => ?_, fun _ => trivial⟩
  rw [WP.pure_iff, WP.bind_iff, queryTopology, WP.bind_iff, WP.modifyGet_iff]
  cases asked : (C.device.query s.device).1 with
  | none => exact trivial
  | some topology =>
      dsimp only
      rw [WP.pure_iff, WP.bind_iff, initializeHasher, WP.bind_iff, WP.modifyGet_iff, demand,
        WP.ite_iff]
      refine ⟨fun initialized => ?_, fun _ => trivial⟩
      exact ⟨asked, rfl, initialized, rfl, _, anyExists_runs _ _, rfl⟩

theorem Approached.preparing {topology : Topology} {a : TransactionState δ κ μ}
    (approached : Approached C s topology a) (staging : Staging C.writer)
    (h : Preparing paths w s) : Preparing paths w a := by
  obtain ⟨v, waits, writer⟩ := approached.writer
  obtain ⟨file, world⟩ := staging.configure topology.runs
    (C.device.queryHints (C.device.query s.device).2).1.2 C.config.metadata (s.writer.1, v)
  refine ⟨fun f same => ?_, ?_⟩
  · rw [writer, file] at same
    exact h.owns f same
  · rw [writer, world]
    exact h.runs.trans waits.runs

theorem openImage_exact (topology : Topology) :
    WP (openImage C paths topology)
      (fun _ t => (C.writer.preflightAndOpen paths.rawPartial topology.highestEnd
          topology.totalBytes s.writer).1 = true ∧
        t = { s with writer := (C.writer.preflightAndOpen paths.rawPartial topology.highestEnd
          topology.totalBytes s.writer).2 })
      (fun _ _ => True) s := by
  rw [openImage, WP.bind_iff, WP.modifyGet_iff, WP.bind_iff, WP.get_iff, demand, WP.ite_iff]
  exact ⟨fun opened => ⟨opened, rfl⟩, fun _ => trivial⟩

theorem acquireImage_exact :
    WP (acquireImage C paths)
      (fun _ t => acquire C (.start s.device s.writer s.hasher s.environment) = .ok () t)
      (fun _ _ => True) s := by
  simp only [acquireImage, WP.bind_iff, WP.get_iff, WP.set_iff]
  rw [WP.ite_iff]
  constructor
  · intro acquired
    cases ran : acquire C (.start s.device s.writer s.hasher s.environment) with
    | ok _ t => rfl
    | error _ _ =>
        rw [ran] at acquired
        cases acquired
  · intro _
    simp only [acquisitionFailed, closeWriter, changeWorld, onWorld, loadCancelled, WP.bind_iff,
      WP.modify_iff, WP.modifyGet_iff, WP.get_iff, WP.throw_iff]

theorem finishHash_exact :
    WP (finishHash C paths)
      (fun _ t => ∃ sha256, (C.hasher.finish s.hasher).1 = some sha256 ∧
        t = { s with
          hasher := (C.hasher.finish s.hasher).2
          summary := { s.summary with sha256 }
          writer := digested sha256 s.writer })
      (fun _ _ => True) s := by
  rw [finishHash, WP.bind_iff, WP.modifyGet_iff]
  cases answer : (C.hasher.finish s.hasher).1 with
  | some sha256 => exact ⟨sha256, rfl, rfl⟩
  | none => trivial

theorem flushImage_exact :
    WP (flushImage C paths)
      (fun _ t => (C.writer.flushAndClose s.writer).1 = true ∧
        t = { s with
          writer := ((C.writer.flushAndClose s.writer).2.1,
            (C.writer.flushAndClose s.writer).2.2.perform (.note .imageFlushed)) })
      (fun _ _ => True) s := by
  rw [flushImage, WP.bind_iff, WP.modifyGet_iff, WP.ite_iff]
  exact ⟨fun flushed => ⟨flushed, rfl⟩, fun _ => trivial⟩

theorem checkAccounting_exact :
    WP (checkAccounting paths)
      (fun _ t => t = s ∧ accountingViolated s.summary = false) (fun _ _ => True) s := by
  rw [checkAccounting, WP.bind_iff, WP.get_iff, WP.ite_iff]
  exact ⟨fun _ => trivial, fun holds => ⟨rfl, Bool.not_eq_true _ ▸ holds⟩⟩

/-! ### The image on its way to its final name -/

/-- The image that the files `origin` had is still the staged one. -/
def Carries (paths : EvidencePaths) (origin : Files) (u : World) : Prop :=
  ∀ node, origin paths.rawPartial = some node → u.files.now paths.rawPartial = some node

variable {origin : Files}

theorem Carries.runs {u v : World} (carries : Carries paths origin u)
    (runs : Runs (Elsewhere paths.rawPartial) u v) : Carries paths origin v :=
  fun node present => runs.stays (carries node present)

/-- What the phases after `Acquire` leave alone. -/
structure Rests (s t : TransactionState δ κ μ) : Prop where
  device : t.device = s.device
  calls : t.calls = s.calls

theorem Rests.trans {t u : TransactionState δ κ μ} (h : Rests s t) (h' : Rests t u) : Rests s u :=
  ⟨h'.device.trans h.device, h'.calls.trans h.calls⟩

theorem writeStaged_carries {path : WString} {call : World → Bool × World} {message : String}
    (ne : paths.rawPartial ≠ path) (within : ∀ u, Runs (Local path) u (call u).2)
    (carries : Carries paths origin s.writer.2) :
    WP (writeStaged paths call message)
      (fun _ t => Rests s t ∧ Carries paths origin t.writer.2) (fun _ _ => True) s := by
  rw [writeStaged, WP.bind_iff, onWorld, WP.modifyGet_iff, WP.ite_iff]
  exact ⟨fun _ => ⟨⟨rfl, rfl⟩, carries.runs ((within _).local_elsewhere ne)⟩, fun _ => trivial⟩

theorem promote_carries {source target : WString} {rollBack : World → World} {message : String}
    {post : Unit → TransactionState δ κ μ → Prop}
    (promoted : ∀ v, Runs (Elsewhere paths.rawPartial) s.writer.2 v →
      post () { s with writer := (s.writer.1, v.perform (.rename source target)) }) :
    WP (promote paths source target rollBack message) post (fun _ _ => True) s := by
  rw [promote, WP.bind_iff, onWorld, WP.modifyGet_iff, promoteStagingFile, WP.ite_iff]
  rcases moveFileExW_cases source target s.writer.2 with
    ⟨error, moved⟩ | ⟨node, present, closed, free, moved⟩ <;> rw [moved]
  · exact ⟨fun no => (Bool.false_ne_true no).elim, fun _ => trivial⟩
  · exact ⟨fun _ => promoted _ (World.enter_runs _), fun no => (no rfl).elim⟩

theorem publish_carries (distinct : paths.names.Nodup)
    (carries : Carries paths origin s.writer.2) :
    WP (publish paths)
      (fun result t => Rests s t ∧ result.summary = s.summary ∧
        ∀ node, origin paths.rawPartial = some node →
          t.writer.2.files.now paths.rawFinal = some node)
      (fun _ _ => True) s := by
  simp only [EvidencePaths.names, List.nodup_cons, List.mem_cons, not_or] at distinct
  obtain ⟨⟨raw_ne, -⟩, ⟨map_ne, map_ne', hash_ne, hash_ne', -⟩, -⟩ := distinct
  rw [publish, WP.bind_iff]
  refine promote_carries fun u waits => ?_
  have first := (carries.runs waits).runs
    (.effect .refl (.inl (rename_other map_ne' map_ne)))
  rw [WP.bind_iff]
  refine promote_carries fun v waits => ?_
  have second := (first.runs waits).runs
    (.effect .refl (.inl (rename_other hash_ne' hash_ne)))
  rw [WP.bind_iff]
  refine promote_carries fun v waits => ⟨⟨rfl, rfl⟩, rfl, fun node present => ?_⟩
  exact (rename_target raw_ne).trans ((second.runs waits) node present)

/-- The phases after `Acquire`. -/
theorem conclude_made (staging : Staging C.writer) (distinct : paths.names.Nodup)
    (h : Preparing paths w s) :
    WP (conclude C paths)
      (fun result t => ∃ sha256, (C.hasher.finish s.hasher).1 = some sha256 ∧
        (C.writer.flushAndClose (digested sha256 s.writer)).1 = true ∧
        t.writer.1.file = none ∧ Rests s t ∧
        result.status = publishedStatus { s.summary with sha256 } ∧
        result.summary = { s.summary with sha256 } ∧
        (∀ node, (C.writer.flushAndClose (digested sha256 s.writer)).2.2.files.now
          paths.rawPartial = some node → t.writer.2.files.now paths.rawFinal = some node) ∧
        ∃ m, Finished paths { s.summary with sha256 } w m ∧ t.writer.2 = m.perform paths.promotion)
      (fun _ _ => True) s := by
  have nodup := distinct
  simp only [EvidencePaths.names, List.nodup_cons, List.mem_cons, not_or] at nodup
  obtain ⟨-, ⟨-, map_ne, -, hash_ne, -⟩, -⟩ := nodup
  rw [conclude, WP.bind_iff]
  refine ((finishHash_wp staging h).and finishHash_exact).mono ?_ fun _ _ _ => trivial
  rintro - _ ⟨⟨h, digest⟩, sha256, finished, rfl⟩
  rw [WP.bind_iff]
  refine ((flushImage_wp staging h digest).and flushImage_exact).mono ?_ fun _ _ _ => trivial
  rintro - _ ⟨sealed, flushed, rfl⟩
  rw [WP.bind_iff]
  refine ((checkAccounting_wp sealed).and checkAccounting_exact).mono ?_ fun _ _ _ => trivial
  rintro - _ ⟨-, rfl, accounted⟩
  have carries : Carries paths (C.writer.flushAndClose (digested sha256 s.writer)).2.2.files.now
      ((C.writer.flushAndClose (digested sha256 s.writer)).2.2.perform (.note .imageFlushed)) :=
    fun _ present => present
  rw [WP.bind_iff]
  refine ((writeMap_wp sealed).and (writeStaged_carries map_ne
    (fun u => writeMapJson_runs _ _ u) carries)).mono ?_ fun _ _ _ => trivial
  rintro - t ⟨⟨sealed, same, acceptable, map⟩, rests, carries⟩
  rw [WP.bind_iff]
  refine ((writeSidecar_wp sealed distinct map).and (writeStaged_carries hash_ne
    (fun u => writeSha256Sidecar_runs _ _ _ u) carries)).mono ?_ fun _ _ _ => trivial
  rintro - u ⟨⟨sealed, same', map, sidecar⟩, rests', carries⟩
  rw [same] at same' sidecar
  have named : u.summary = { s.summary with sha256 } := same'
  refine ((publish_wp distinct sealed (named ▸ acceptable) (named ▸ accounted) (named ▸ map)
    (named ▸ sidecar)).and (publish_carries distinct carries)).mono ?_ fun _ _ _ => trivial
  rintro result v ⟨⟨status, closed, published⟩, rests'', summary, image⟩
  rw [named] at status summary published
  have whole : Rests s v := Rests.trans ⟨rests.device, rests.calls⟩ (rests'.trans rests'')
  exact ⟨sha256, finished, flushed, closed, whole, status, summary, image, published⟩

/-- A bundle that has been published was made by the phases of the capture. -/
theorem captureBody_made (staging : Staging C.writer) (distinct : paths.names.Nodup)
    (h : Preparing paths w s) :
    WP (captureBody C paths)
      (fun result t => t.writer.1.file = none ∧ ∃ topology a m sha256, Rests m t ∧
        Approached C s topology a ∧ Made C paths topology a m sha256 t.writer.2 ∧
        result.status = publishedStatus { m.summary with sha256 } ∧
        result.summary = { m.summary with sha256 })
      (fun _ _ => True) s := by
  rw [captureBody_eq, prepare_eq, bind_assoc, WP.bind_iff]
  refine approach_exact.mono ?_ fun _ _ _ => trivial
  intro topology a approached
  rw [WP.bind_iff]
  refine (openImage_exact topology).mono ?_ fun _ _ _ => trivial
  rintro - _ ⟨opened, rfl⟩
  have h : Preparing paths w { a with writer := (C.writer.preflightAndOpen paths.rawPartial
      topology.highestEnd topology.totalBytes a.writer).2 } :=
    (approached.preparing staging h).stage
      (staging.preflightAndOpen _ _ _ _ _ (approached.preparing staging h).staged)
  rw [WP.bind_iff]
  refine ((acquireImage_preparing staging _ h).and acquireImage_exact).mono ?_ fun _ _ _ => trivial
  rintro - m ⟨h, acquired⟩
  refine (conclude_made staging distinct h).mono ?_ fun _ _ _ => trivial
  rintro result t ⟨sha256, digest, flushed, closed, rests, status, summary, image, v, finished,
    world⟩
  obtain ⟨-, map, sidecar⟩ := finished.finals distinct
  refine ⟨closed, topology, a, m, sha256, rests, approached, ?_, status, summary⟩
  exact {
    opened := opened
    acquired := acquired
    digest := digest
    flushed := flushed
    image := image
    map := world ▸ map
    sidecar := world ▸ sidecar
    acceptable := finished.acceptable
    accounted := finished.accounted }

end Phases

/-- The bundle that a capture publishes, and what the capture reports of it. -/
theorem runCapture_made {C : Collaborators δ (WriterState μ × World) Sha256 κ}
    {paths : EvidencePaths} (staging : Staging C.writer) (distinct : paths.names.Nodup)
    {members : μ} {host : Host δ κ}
    (finalized : (runCapture C paths members host).1.hasFinalizedBundle = true) :
    ∃ topology a m sha256, Rests m (captureWith C paths (host.start members)).2 ∧
      Approached C (host.start members) topology a ∧
      Made C paths topology a m sha256 (runCapture C paths members host).2.world ∧
      (runCapture C paths members host).1.status = publishedStatus { m.summary with sha256 } ∧
      (runCapture C paths members host).1.summary = { m.summary with sha256 } := by
  have start : Preparing paths host.world (host.start members) := ⟨nofun, .refl⟩
  have body := captureBody_made staging distinct start
  rw [runCapture, captureWith] at finalized ⊢
  cases ran : captureBody C paths (host.start members) with
  | ok result t =>
      obtain ⟨closed, topology, a, m, sha256, rests, approached, made, status, summary⟩ :=
        body.of_ok ran
      refine ⟨topology, a, m, sha256, ⟨rests.device, rests.calls⟩, approached, ?_, status, summary⟩
      show Made C paths topology a m sha256 (C.writer.close t.writer).2
      rw [staging.closed _ closed]
      exact made
  | error result t =>
      rw [ran] at finalized
      cases ((captureBody_declines _).of_error ran).symm.trans finalized

end PhylaRam
