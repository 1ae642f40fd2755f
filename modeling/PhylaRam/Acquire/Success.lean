import PhylaRam.Acquire.Partition

/-!
# When the engine completes

`Acquire` returns false through many conditions: refused calls, but also overflow
guards and the test that the hash position never runs backwards. Over a frozen
topology of ordered runs the internal conditions cannot fail. Every counter stays
below the current physical address, which stays below the end of the run, so only
a collaborator can stop the engine.
-/

namespace PhylaRam

open Program Relation Interval

variable {δ ω η κ : Type}

/-- Predicates on the states of the collaborators in which they do their part. -/
structure Readiness (δ ω η κ : Type) where
  device : δ → Prop
  writer : ω → Prop
  hasher : η → Prop
  environment : κ → Prop

structure Readiness.Holds (ready : Readiness δ ω η κ) (s : AcquireState δ ω η κ) : Prop where
  device : ready.device s.device
  writer : ready.writer s.writer
  hasher : ready.hasher s.hasher
  environment : ready.environment s.environment

/-- `[start, start + length)` lies in one of the runs. -/
def WithinRuns (runs : List MemoryRun) (start length : Nat) : Prop :=
  ∃ run ∈ runs, run.base.toNat ≤ start ∧ start + length ≤ run.base.toNat + run.length.toNat

/-- In a ready state every call the engine may make succeeds and leaves the
collaborator ready, and the cancel flag is clear. -/
structure Cooperative (C : Collaborators δ ω η κ) (runs : List MemoryRun)
    (ready : Readiness δ ω η κ) : Prop where
  clear : ∀ k, ready.environment k →
    (C.environment.cancelled k).1 = false ∧ ready.environment (C.environment.cancelled k).2
  answers : ∀ d run offset (length : UInt32), ready.device d → run ∈ runs → 0 < length.toNat →
    length.toNat ≤ phylaMaxTransfer.toNat → offset.toNat + length.toNat ≤ run.length.toNat →
    ∃ r, (C.device.read run.driverIndex offset length d).1 = some r ∧
      r.Valid (run.base + offset) length ∧
      ready.device (C.device.read run.driverIndex offset length d).2
  writes : ∀ w (offset : UInt64) data, ready.writer w → data ≠ [] →
    WithinRuns runs offset.toNat data.length →
    (C.writer.writeAt offset data w).1 = true ∧ ready.writer (C.writer.writeAt offset data w).2
  updates : ∀ h data, ready.hasher h →
    (C.hasher.update data h).1 = true ∧ ready.hasher (C.hasher.update data h).2
  updatesZeros : ∀ h length, ready.hasher h →
    (C.hasher.updateZeros length h).1 = true ∧ ready.hasher (C.hasher.updateZeros length h).2
  ends : ∀ d, ready.device d → ∃ changed, (C.device.endSession d).1 = some changed

/-- All counters of the engine are at most `bound`. -/
structure Under (bound : Nat) (s : AcquireState δ ω η κ) : Prop where
  hashed : s.hashPosition.toNat ≤ bound
  processed : s.processedPhysicalBytes.toNat ≤ bound
  acquired : s.summary.acquiredBytes.toNat ≤ bound
  unreadable : s.summary.unreadableBytes.toNat ≤ bound
  transferred : s.transferredBytes.toNat ≤ bound

theorem Under.mono {bound bound' : Nat} {s : AcquireState δ ω η κ} (h : Under bound s)
    (le : bound ≤ bound') : Under bound' s :=
  ⟨h.hashed.trans le, h.processed.trans le, h.acquired.trans le, h.unreadable.trans le,
    h.transferred.trans le⟩

/-- The invariant of the loop over one run. -/
structure OnTrack (ready : Readiness δ ω η κ) (run : MemoryRun) (s : AcquireState δ ω η κ) :
    Prop where
  ready : ready.Holds s
  within : s.offsetWithinRun.toNat ≤ run.length.toNat
  under : Under (run.base.toNat + s.offsetWithinRun.toNat) s

variable {C : Collaborators δ ω η κ} {ready : Readiness δ ω η κ} {runs : List MemoryRun}
  {run : MemoryRun} {s t : AcquireState δ ω η κ} {requested : UInt32} {r : ReadResult}

namespace Cooperative

/-- `PaceTransfer` does not see the flag set. -/
theorem paced (coop : Cooperative C runs ready) (transferred : UInt64) (rate : UInt32) {k : κ}
    (h : ready.environment k) :
    (paceTransfer C.environment transferred rate k).1 = true ∧
      ready.environment (paceTransfer C.environment transferred rate k).2 := by
  have polls : ∀ n k, ready.environment k → (pollCancelled C.environment n k).1 = true ∧
      ready.environment (pollCancelled C.environment n k).2 := by
    intro n
    induction n with
    | zero =>
        intro k h
        obtain ⟨clear, next⟩ := coop.clear k h
        exact ⟨by simp [pollCancelled, clear], next⟩
    | succ n ih =>
        intro k h
        obtain ⟨clear, next⟩ := coop.clear k h
        simpa [pollCancelled, clear] using ih _ next
  unfold paceTransfer
  split
  · exact ⟨rfl, h⟩
  · exact polls _ _ h

theorem gap (coop : Cooperative C runs ready) (next : UInt64) (h : ready.hasher s.hasher) :
    (gapReply C next s).1 = true ∧ ready.hasher (gapReply C next s).2 := by
  unfold gapReply
  split
  · exact coop.updatesZeros _ _ h
  · exact ⟨rfl, h⟩

theorem exists_answer (coop : Cooperative C runs ready) (member : run ∈ runs)
    (h : ready.Holds s) (request : Request run s requested) :
    ∃ r, Answers C run requested s r := by
  obtain ⟨r, reply, valid, -⟩ := coop.answers s.device run s.offsetWithinRun requested h.device
    member request.positive request.bounded request.within
  exact ⟨r, (coop.clear _ h.environment).1, reply, valid⟩

theorem afterRequest (coop : Cooperative C runs ready) (member : run ∈ runs)
    (h : ready.Holds s) (request : Request run s requested) :
    ready.Holds (afterRequest C run requested s) := by
  obtain ⟨_, _, _, device⟩ := coop.answers s.device run s.offsetWithinRun requested h.device
    member request.positive request.bounded request.within
  exact ⟨device, h.writer, h.hasher, (coop.clear _ h.environment).2⟩

end Cooperative

/-- The address of the next byte, over unbounded numbers. -/
theorem Answers.address_toNat (answers : Answers C run requested s r) (valid : run.Valid)
    (within : s.offsetWithinRun.toNat ≤ run.length.toNat) :
    r.physicalAddress.toNat = run.base.toNat + s.offsetWithinRun.toNat := by
  rw [answers.valid.address_eq, PhylaRam.address_toNat valid within]

/-- The reply to a request of the engine ends inside the run. -/
theorem Answers.copied_within (answers : Answers C run requested s r)
    (request : Request run s requested) :
    s.offsetWithinRun.toNat + r.copied.toNat ≤ run.length.toNat :=
  (Nat.add_le_add_left answers.valid.copied_le _).trans request.within

theorem Answers.withinRuns (answers : Answers C run requested s r) (valid : run.Valid)
    (member : run ∈ runs) (request : Request run s requested) :
    WithinRuns runs r.physicalAddress.toNat r.data.length := by
  have := answers.copied_within request
  refine ⟨run, member, ?_, ?_⟩ <;>
    rw [answers.address_toNat valid (by omega)]
  · omega
  · rw [answers.valid.data_length]
    omega

/-- The counters within a run: none has passed the current address. -/
structure Counted (run : MemoryRun) (s : AcquireState δ ω η κ) : Prop where
  within : s.offsetWithinRun.toNat ≤ run.length.toNat
  under : Under (run.base.toNat + s.offsetWithinRun.toNat) s

theorem OnTrack.counted (h : OnTrack ready run s) : Counted run s := ⟨h.within, h.under⟩

/-- The counters have room for the bytes of `r`, and the hash position is not behind. -/
structure Room (r : ReadResult) (s : AcquireState δ ω η κ) : Prop where
  ordered : s.hashPosition.toNat ≤ r.physicalAddress.toNat
  address_fits : r.physicalAddress.toNat + r.copied.toNat < 2 ^ 64
  offset_fits : s.offsetWithinRun.toNat + r.copied.toNat < 2 ^ 64
  processed_fits : s.processedPhysicalBytes.toNat + r.copied.toNat < 2 ^ 64
  acquired_fits : s.summary.acquiredBytes.toNat + r.copied.toNat < 2 ^ 64
  transferred_fits : s.transferredBytes.toNat + r.copied.toNat < 2 ^ 64

theorem Counted.room (h : Counted run s) (valid : run.Valid) (request : Request run s requested)
    (answers : Answers C run requested s r) : Room r (afterRequest C run requested s) := by
  have address := answers.address_toNat valid h.within
  have ends := answers.copied_within request
  have fits := valid.fits
  have under := h.under
  refine ⟨?_, ?_, ?_, ?_, ?_, ?_⟩
  · rw [address]
    exact under.hashed
  · omega
  · change s.offsetWithinRun.toNat + _ < _
    omega
  · have := under.processed
    change s.processedPhysicalBytes.toNat + _ < _
    omega
  · have := under.acquired
    change s.summary.acquiredBytes.toNat + _ < _
    omega
  · have := under.transferred
    change s.transferredBytes.toNat + _ < _
    omega

/-- Unreadable bytes can always be recorded. -/
theorem Counted.skip (h : Counted run s) (valid : run.Valid) (request : Request run s requested) :
    CanSkip requested.toUInt64 (afterRequest C run requested s) := by
  have under := h.under
  have fits := valid.fits
  have within := request.within
  have positive := request.positive
  have size := UInt32.toNat_toUInt64 requested
  refine ⟨by omega, ?_, ?_, ?_⟩
  · have := under.unreadable
    change s.summary.unreadableBytes.toNat + _ < _
    omega
  · have := under.processed
    change s.processedPhysicalBytes.toNat + _ < _
    omega
  · change s.offsetWithinRun.toNat + _ < _
    omega

section OnTrack

variable (coop : Cooperative C runs ready) (member : run ∈ runs) (valid : run.Valid)
  (h : OnTrack ready run s) (request : Request run s requested)
  (answers : Answers C run requested s r)
include coop member valid h request answers

/-- The bytes of a reply can always be kept, and the collaborators stay ready. -/
theorem OnTrack.keep (copied : r.copied ≠ 0) :
    CanKeep C r (afterRequest C run requested s) ∧
      ready.Holds (afterKeep C r (afterRequest C run requested s)) := by
  have asked := coop.afterRequest member h.ready request
  have nonempty : r.data ≠ [] := by
    rw [← List.length_pos_iff, answers.valid.data_length]
    exact Word.pos_iff32.mp copied
  have room := h.counted.room valid request answers
  obtain ⟨zeros, gap⟩ := coop.gap r.physicalAddress asked.hasher
  obtain ⟨written, writer⟩ := coop.writes _ r.physicalAddress r.data asked.writer nonempty
    (answers.withinRuns valid member request)
  obtain ⟨hashed, hasher⟩ := coop.updates _ r.data gap
  obtain ⟨onTime, environment⟩ := coop.paced
    ((afterRequest C run requested s).transferredBytes + r.copied.toUInt64)
    C.config.rateLimitMBps asked.environment
  exact ⟨⟨⟨room.ordered, zeros⟩, written, hashed, room.address_fits, room.offset_fits,
    room.processed_fits, room.acquired_fits, room.transferred_fits, onTime⟩,
    ⟨asked.device, writer, hasher, environment⟩⟩

end OnTrack

/-- No condition of the engine fails while it is on track. -/
theorem OnTrack.not_stuck (coop : Cooperative C runs ready) (member : run ∈ runs)
    (valid : run.Valid) (h : OnTrack ready run s) : ¬Stuck C run s := by
  rintro (⟨request, none⟩ | ⟨request, answers, copied, cannot⟩ |
    ⟨request, -, -, -, cannot⟩)
  · obtain ⟨r, answers⟩ := coop.exists_answer member h.ready request
    exact none r answers
  · exact cannot (h.keep coop member valid request answers copied).1
  · exact cannot (h.counted.skip valid request)

/-- Whatever the collaborators do, a step moves every counter by at most what it moves the
address. -/
theorem Step.counted (valid : run.Valid) (step : Step C run s t) (h : Counted run s) :
    Counted run t := by
  refine ⟨step.offset_le, ?_⟩
  have under := h.under
  cases step with
  | probe request answers copied =>
      exact ⟨under.hashed, under.processed, under.acquired, under.unreadable, under.transferred⟩
  | @keep requested r request answers copied can =>
      have address := answers.address_toNat valid h.within
      have size := UInt32.toNat_toUInt64 r.copied
      rw [afterKeep_offset can, ← Nat.add_assoc]
      refine ⟨?_, ?_, ?_, ?_, ?_⟩
      · change (r.physicalAddress + r.copied.toUInt64).toNat ≤ _
        rw [Word.toNat_add_of_lt (by rw [size]; exact can.address_fits), size, address]
        exact Nat.le_refl _
      · change (_ + r.copied.toUInt64).toNat ≤ _
        rw [Word.toNat_add_of_lt (by rw [size]; exact can.processed_fits), size]
        exact Nat.add_le_add_right under.processed _
      · change (_ + r.copied.toUInt64).toNat ≤ _
        rw [Word.toNat_add_of_lt (by rw [size]; exact can.acquired_fits), size]
        exact Nat.add_le_add_right under.acquired _
      · exact under.unreadable.trans (Nat.le_add_right _ _)
      · change (_ + r.copied.toUInt64).toNat ≤ _
        rw [Word.toNat_add_of_lt (by rw [size]; exact can.transferred_fits), size]
        exact Nat.add_le_add_right under.transferred _
  | @skip requested r request page answers copied can =>
      rw [afterSkip_offset can, ← Nat.add_assoc]
      refine ⟨under.hashed.trans (Nat.le_add_right _ _), ?_,
        under.acquired.trans (Nat.le_add_right _ _), ?_,
        under.transferred.trans (Nat.le_add_right _ _)⟩
      · change (_ + requested.toUInt64).toNat ≤ _
        rw [Word.toNat_add_of_lt can.processed_fits]
        exact Nat.add_le_add_right under.processed _
      · change (_ + requested.toUInt64).toNat ≤ _
        rw [Word.toNat_add_of_lt can.unreadable_fits]
        exact Nat.add_le_add_right under.unreadable _

theorem counted_atRunStart (under : Under run.base.toNat s) : Counted run (atRunStart s) :=
  ⟨Nat.zero_le _, under.hashed, under.processed, under.acquired, under.unreadable,
    under.transferred⟩

theorem Step.onTrack (coop : Cooperative C runs ready) (member : run ∈ runs)
    (valid : run.Valid) (step : Step C run s t) (h : OnTrack ready run s) :
    OnTrack ready run t := by
  obtain ⟨within, under⟩ := step.counted valid h.counted
  refine ⟨?_, within, under⟩
  cases step with
  | probe request answers copied => exact coop.afterRequest member h.ready request
  | keep request answers copied can =>
      exact (h.keep coop member valid request answers copied).2
  | skip request page answers copied can =>
      have asked := coop.afterRequest member h.ready request
      exact ⟨asked.device, asked.writer, asked.hasher, asked.environment⟩

theorem onTrack_of_steps (coop : Cooperative C runs ready) (member : run ∈ runs)
    (valid : run.Valid) (steps : ReflTransGen (Step C run) s t) (h : OnTrack ready run s) :
    OnTrack ready run t := by
  induction steps with
  | refl => exact h
  | tail _ step ih => exact step.onTrack coop member valid ih

theorem onTrack_atRunStart (h : ready.Holds s) (under : Under run.base.toNat s) :
    OnTrack ready run (atRunStart s) :=
  have counted := counted_atRunStart under
  ⟨⟨h.device, h.writer, h.hasher, h.environment⟩, counted.within, counted.under⟩

/-- Across ordered runs the counters stay below where the traversed runs end. A
property of the states that every step on track preserves is carried along. -/
theorem Traversal.invariant {P : AcquireState δ ω η κ → Prop} {done : List MemoryRun}
    (coop : Cooperative C runs ready) (restart : ∀ s, P s → P (atRunStart s))
    (preserved : ∀ run ∈ runs, run.Valid → ∀ s t, OnTrack ready run s → Step C run s t →
      P s → P t)
    (traversal : Traversal C done s t) (member : ∀ run ∈ done, run ∈ runs)
    (ordered : Ordered (runIntervals done)) {lo hi : Nat}
    (above : ∀ run ∈ done, lo ≤ run.base.toNat)
    (below : ∀ run ∈ done, run.interval.stop ≤ hi) (le : lo ≤ hi)
    (h : ready.Holds s) (under : Under lo s) (start : P s) :
    ready.Holds t ∧ Under hi t ∧ P t := by
  induction traversal generalizing lo with
  | nil => exact ⟨h, under.mono le, start⟩
  | @cons run rest s m u valid steps complete after ih =>
      obtain ⟨before, ordered⟩ := ordered_cons.mp ordered
      have runMember := member run List.mem_cons_self
      have first := onTrack_atRunStart h (under.mono (above run List.mem_cons_self))
      have track := onTrack_of_steps coop runMember valid steps first
      have kept : P m := by
        clear track complete after ih
        induction steps with
        | refl => exact restart _ start
        | tail steps step ih =>
            exact preserved run runMember valid _ _
              (onTrack_of_steps coop runMember valid steps first) step ih
      have stop : run.base.toNat + m.offsetWithinRun.toNat = run.interval.stop := by
        rw [complete]
        rfl
      refine ih (fun r hr => member r (List.mem_cons_of_mem _ hr)) ordered (fun r hr => ?_)
        (fun r hr => below r (List.mem_cons_of_mem _ hr)) (below run List.mem_cons_self)
        track.ready (stop ▸ track.under) kept
      exact before r.interval (List.mem_map_of_mem hr)

theorem Traversal.onTrack {done : List MemoryRun} (coop : Cooperative C runs ready)
    (traversal : Traversal C done s t) (member : ∀ run ∈ done, run ∈ runs)
    (ordered : Ordered (runIntervals done)) {lo hi : Nat}
    (above : ∀ run ∈ done, lo ≤ run.base.toNat)
    (below : ∀ run ∈ done, run.interval.stop ≤ hi) (le : lo ≤ hi)
    (h : ready.Holds s) (under : Under lo s) : ready.Holds t ∧ Under hi t := by
  obtain ⟨holds, low, -⟩ := traversal.invariant (P := fun _ => True) coop (fun _ _ => trivial)
    (fun _ _ _ _ _ _ _ _ => trivial) member ordered above below le h under trivial
  exact ⟨holds, low⟩

/-- The reported figures describe the run list, which is in order. -/
structure Topology.Valid (topology : Topology) : Prop where
  nonempty : topology.runs ≠ []
  runs : ∀ run ∈ topology.runs, run.Valid
  ordered : Ordered (runIntervals topology.runs)
  totalBytes : total (runIntervals topology.runs) = topology.totalBytes.toNat
  highestEnd_le : ∀ run ∈ topology.runs, run.interval.stop ≤ topology.highestEnd.toNat
  highestEnd_mem : ∃ run ∈ topology.runs, run.interval.stop = topology.highestEnd.toNat

theorem twoPages_valid : twoPages.Valid := by
  refine ⟨by decide, fun run member => ?_, show List.Pairwise _ _ by decide, rfl, by decide,
    by decide⟩
  rcases List.mem_pair.mp member with rfl | rfl <;> exact ⟨by decide, by decide⟩

theorem Topology.Valid.frozen {topology : Topology} (h : topology.Valid) : topology.Frozen :=
  ⟨h.ordered, h.totalBytes⟩

theorem Topology.Valid.usable {topology : Topology} (h : topology.Valid) : topology.Usable := by
  obtain ⟨run, member, stop⟩ := h.highestEnd_mem
  have positive := (h.runs run member).nonempty
  refine ⟨?_, ?_, h.nonempty⟩ <;> rw [Word.pos_iff]
  · rw [← stop, Piece.stop]
    exact Nat.lt_of_lt_of_le positive (Nat.le_add_left _ _)
  · have part := length_le_total (List.mem_map_of_mem (f := MemoryRun.interval) member)
    rw [← h.totalBytes]
    exact Nat.lt_of_lt_of_le positive part

theorem under_afterQuery {topology : Topology} (position : s.hashPosition = 0)
    (processed : s.processedPhysicalBytes = 0) (transferred : s.transferredBytes = 0) :
    Under 0 (afterQuery C topology s) := by
  refine ⟨?_, ?_, Nat.le_refl _, Nat.le_refl _, ?_⟩
  · change s.hashPosition.toNat ≤ 0
    rw [position]
    exact Nat.le_refl _
  · change s.processedPhysicalBytes.toNat ≤ 0
    rw [processed]
    exact Nat.le_refl _
  · change s.transferredBytes.toNat ≤ 0
    rw [transferred]
    exact Nat.le_refl _

/-- With cooperative collaborators over a valid topology, `Acquire` returns true. -/
theorem acquire_returns {topology : Topology} (valid : topology.Valid)
    (asked : (C.device.query s.device).1 = some topology)
    (coop : Cooperative C topology.runs ready) (h : ready.Holds (afterQuery C topology s))
    (position : s.hashPosition = 0) (processed : s.processedPhysicalBytes = 0)
    (transferred : s.transferredBytes = 0) : returned (acquire C s) = true := by
  have under : Under 0 (afterQuery C topology s) :=
    under_afterQuery position processed transferred
  have traversed : ∀ {m}, Traversal C topology.runs (afterQuery C topology s) m →
      ready.Holds m ∧ Under topology.highestEnd.toNat m := fun traversal =>
    traversal.onTrack coop (fun _ h => h) valid.ordered (fun _ _ => Nat.zero_le _)
      valid.highestEnd_le (Nat.zero_le _) h under
  have fails : ¬Fails C s := by
    rintro (unusable | ⟨asked', obstructed⟩ | ⟨asked', traversal, cannot⟩ |
      ⟨asked', traversal, failed⟩)
    · exact unusable topology asked valid.usable
    · obtain rfl := Option.some.inj (asked.symm.trans asked')
      obtain ⟨done, run, rest, m, split, traversal, blocked⟩ := obstructed
      have member : run ∈ topology.runs := by simp [split]
      have ordered := valid.ordered
      rw [runIntervals, split, List.map_append, List.map_cons, ordered_append] at ordered
      obtain ⟨orderedDone, -, before⟩ := ordered
      obtain ⟨holds, low⟩ := traversal.onTrack coop (fun r hr => by simp [split, hr])
        orderedDone (fun _ _ => Nat.zero_le _)
        (fun r hr => before _ (List.mem_map_of_mem hr) _ List.mem_cons_self) (Nat.zero_le _) h
        under
      have runValid := valid.runs run member
      obtain ⟨u, steps, stuck⟩ := blocked runValid
      exact (onTrack_of_steps coop member runValid steps
        (onTrack_atRunStart holds low)).not_stuck coop member runValid stuck
    · obtain rfl := Option.some.inj (asked.symm.trans asked')
      obtain ⟨holds, low⟩ := traversed traversal
      refine cannot ⟨?_, (coop.gap _ holds.hasher).1⟩
      rw [traversal.sameTopology.logicalSize]
      exact low.hashed
    · obtain rfl := Option.some.inj (asked.symm.trans asked')
      obtain ⟨holds, -⟩ := traversed traversal
      obtain ⟨changed, ended⟩ := coop.ends _ holds.device
      rw [ended] at failed
      cases failed
  have run : WP (acquire C) (fun _ _ => True) (fun _ _ => False) s :=
    (acquire_wp C s).mono (fun _ _ _ => trivial) (fun _ _ failed => fails failed)
  obtain ⟨_, _, ok, -⟩ := run.returns
  rw [ok]
  rfl

end PhylaRam
