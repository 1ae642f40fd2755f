import PhylaRam.Acquire.Engine
import Mathlib.Logic.Relation

/-!
# Runs of the acquisition engine as sequences of reads

The nested loops, their restarts and their early exits are folded into one
transition relation. A `Step` is one accepted read together with what the engine
does with its reply; `Traversal` strings the steps of consecutive runs together.

`acquire_wp` is the only result about the control flow of the engine that later
modules use. It also says why a run ends early: some reachable state is stuck,
because a reply is unacceptable or a condition of the source fails there.
-/

namespace PhylaRam

open Program Relation

variable {δ ω η κ : Type} (C : Collaborators δ ω η κ)

/-- A run that passes the checks at the head of the loop over the runs. -/
structure MemoryRun.Valid (run : MemoryRun) : Prop where
  nonempty : 0 < run.length.toNat
  fits : run.base.toNat + run.length.toNat < 2 ^ 64

theorem runValid_iff {run : MemoryRun} :
    (run.length != 0 && run.base ≤ uint64Max - run.length) = true ↔ run.Valid := by
  rw [Bool.and_eq_true, bne_iff_ne, Word.pos_iff, decide_eq_true_eq, uint64Max,
    Word.le_max_sub_iff, Nat.add_comm run.length.toNat]
  exact ⟨fun h => ⟨h.1, h.2⟩, fun h => ⟨h.nonempty, h.fits⟩⟩

/-- The sizes the engine asks for at the offset of `s`. -/
structure Request (run : MemoryRun) (s : AcquireState δ ω η κ) (requested : UInt32) : Prop where
  positive : 0 < requested.toNat
  bounded : requested.toNat ≤ phylaMaxTransfer.toNat
  within : s.offsetWithinRun.toNat + requested.toNat ≤ run.length.toNat

/-- The requested bytes lie in one physical page. -/
def InPage (run : MemoryRun) (s : AcquireState δ ω η κ) (requested : UInt32) : Prop :=
  (run.base.toNat + s.offsetWithinRun.toNat) % 4096 + requested.toNat ≤ 4096

/-- One accepted read. A bulk read without bytes only changes the device. -/
inductive Step (run : MemoryRun) (s : AcquireState δ ω η κ) : AcquireState δ ω η κ → Prop
  | probe {requested : UInt32} {r : ReadResult} (request : Request run s requested)
      (answers : Answers C run requested s r) (copied : r.copied = 0) :
      Step run s (afterRequest C run requested s)
  | keep {requested : UInt32} {r : ReadResult} (request : Request run s requested)
      (answers : Answers C run requested s r) (copied : r.copied ≠ 0)
      (can : CanKeep C r (afterRequest C run requested s)) :
      Step run s (afterKeep C r (afterRequest C run requested s))
  | skip {requested : UInt32} {r : ReadResult} (request : Request run s requested)
      (page : InPage run s requested) (answers : Answers C run requested s r)
      (copied : r.copied = 0)
      (can : CanSkip requested.toUInt64 (afterRequest C run requested s)) :
      Step run s (afterSkip (run.base + s.offsetWithinRun) requested.toUInt64 r.copyStatus
        (afterRequest C run requested s))

/-- The engine may ask for something in `s` and return false on the reply. -/
inductive Stuck (run : MemoryRun) (s : AcquireState δ ω η κ) : Prop
  | unanswered {requested : UInt32} (request : Request run s requested)
      (none : ∀ r, ¬Answers C run requested s r)
  | cannotKeep {requested : UInt32} {r : ReadResult} (request : Request run s requested)
      (answers : Answers C run requested s r) (copied : r.copied ≠ 0)
      (cannot : ¬CanKeep C r (afterRequest C run requested s))
  | cannotSkip {requested : UInt32} {r : ReadResult} (request : Request run s requested)
      (page : InPage run s requested) (answers : Answers C run requested s r)
      (copied : r.copied = 0)
      (cannot : ¬CanSkip requested.toUInt64 (afterRequest C run requested s))

/-- Some state reachable from `s` within the run is stuck. -/
def Blocked (run : MemoryRun) (s : AcquireState δ ω η κ) : Prop :=
  ∃ u, ReflTransGen (Step C run) s u ∧ Stuck C run u

variable {C} {run : MemoryRun} {s t : AcquireState δ ω η κ}

theorem Blocked.of_steps (h : ReflTransGen (Step C run) s t) (blocked : Blocked C run t) :
    Blocked C run s := by
  obtain ⟨u, steps, stuck⟩ := blocked
  exact ⟨u, h.trans steps, stuck⟩

/-- No step leaves the run. -/
theorem Step.offset_le (step : Step C run s t) :
    t.offsetWithinRun.toNat ≤ run.length.toNat := by
  cases step with
  | probe request =>
      have := request.within
      change s.offsetWithinRun.toNat ≤ _
      omega
  | keep request answers copied can =>
      have := request.within
      have := answers.valid.copied_le
      rw [afterKeep_offset can]
      change s.offsetWithinRun.toNat + _ ≤ _
      omega
  | skip request page answers copied can =>
      rw [afterSkip_offset can, UInt32.toNat_toUInt64]
      exact request.within

theorem Step.offset_le_of_steps (h : ReflTransGen (Step C run) s t)
    (start : s.offsetWithinRun.toNat ≤ run.length.toNat) :
    t.offsetWithinRun.toNat ≤ run.length.toNat := by
  cases h.cases_tail with
  | inl same => exact same ▸ start
  | inr last =>
      obtain ⟨_, _, step⟩ := last
      exact step.offset_le

section Requests

variable {chunkEnd : UInt64}

theorem address_toNat (valid : run.Valid)
    (within : s.offsetWithinRun.toNat ≤ run.length.toNat) :
    (run.base + s.offsetWithinRun).toNat = run.base.toNat + s.offsetWithinRun.toNat := by
  have := valid.fits
  exact Word.toNat_add_of_lt (by omega)

theorem bulkRequest_spec (before : s.offsetWithinRun.toNat < run.length.toNat) :
    Request run s (bulkRequestBytes run s.offsetWithinRun) := by
  have size := bulkRequestBytes_toNat (Nat.le_of_lt before)
  have hmax : phylaMaxTransfer.toNat = 2 ^ 24 := rfl
  refine ⟨?_, ?_, ?_⟩ <;> omega

theorem pageRequest_toNat (valid : run.Valid)
    (before : s.offsetWithinRun.toNat < chunkEnd.toNat)
    (within : chunkEnd.toNat ≤ run.length.toNat) :
    (pageRequest run chunkEnd s).toNat =
      min (4096 - (run.base.toNat + s.offsetWithinRun.toNat) % 4096)
        (chunkEnd.toNat - s.offsetWithinRun.toNat) := by
  rw [pageRequest, pageRequestBytes_toNat, address_toNat valid (by omega),
    Word.toNat_sub_of_le (Nat.le_of_lt before)]

theorem pageRequest_spec (valid : run.Valid)
    (before : s.offsetWithinRun.toNat < chunkEnd.toNat)
    (within : chunkEnd.toNat ≤ run.length.toNat) :
    Request run s (pageRequest run chunkEnd s) ∧ InPage run s (pageRequest run chunkEnd s) := by
  have size := pageRequest_toNat valid before within
  have hmax : phylaMaxTransfer.toNat = 2 ^ 24 := rfl
  have := Nat.mod_lt (run.base.toNat + s.offsetWithinRun.toNat) (show 0 < 4096 by decide)
  refine ⟨⟨?_, ?_, ?_⟩, ?_⟩
  · omega
  · omega
  · omega
  · rw [InPage]
    omega

end Requests

/-- The page loop's own account of an iteration, as a step of the run. -/
theorem PageStep.toStep {chunkEnd : UInt64} {flow : Flow} (valid : run.Valid)
    (before : s.offsetWithinRun.toNat < chunkEnd.toNat)
    (within : chunkEnd.toNat ≤ run.length.toNat) (step : PageStep C run chunkEnd s flow t) :
    Step C run s t := by
  obtain ⟨request, page⟩ := pageRequest_spec valid before within
  cases step with
  | keep answers copied can => exact .keep request answers copied can
  | skip answers copied can => exact .skip request page answers copied can

theorem stuck_of_no_pageStep {chunkEnd : UInt64} (valid : run.Valid)
    (before : s.offsetWithinRun.toNat < chunkEnd.toNat)
    (within : chunkEnd.toNat ≤ run.length.toNat)
    (none : ∀ flow t, ¬PageStep C run chunkEnd s flow t) : Stuck C run s := by
  obtain ⟨request, page⟩ := pageRequest_spec valid before within
  by_cases answered : ∃ r, Answers C run (pageRequest run chunkEnd s) s r
  · obtain ⟨r, answers⟩ := answered
    by_cases copied : r.copied = 0
    · exact .cannotSkip request page answers copied fun can => none _ _ (.skip answers copied can)
    · exact .cannotKeep request answers copied fun can => none _ _ (.keep answers copied can)
  · exact .unanswered request fun r answers => answered ⟨r, answers⟩

/-- A bulk read and the bytes it returned, if any. -/
theorem Step.first {requested : UInt32} {r : ReadResult} (request : Request run s requested)
    (answers : Answers C run requested s r)
    (can : r.copied ≠ 0 → CanKeep C r (afterRequest C run requested s)) :
    Step C run s (if r.copied ≠ 0 then afterKeep C r (afterRequest C run requested s)
      else afterRequest C run requested s) := by
  split
  · next copied => exact .keep request answers copied (can copied)
  · next zero => exact .probe request answers (by simpa using zero)

variable (C)

theorem pageLoop_trace {chunkEnd : UInt64} (valid : run.Valid)
    (within : chunkEnd.toNat ≤ run.length.toNat) (s : AcquireState δ ω η κ) :
    WP (pageLoop C run chunkEnd) (fun _ t => ReflTransGen (Step C run) s t)
      (fun _ _ => Blocked C run s) s := by
  refine whileLoop_wp (fun u => ReflTransGen (Step C run) s u) _ .refl ?_ (fun u steps _ => steps)
  intro u steps before
  rw [decide_eq_true_eq, UInt64.lt_iff_toNat_lt] at before
  refine (pageBody_wp C run chunkEnd u).mono (fun flow v step => ?_) (fun _ _ none => ?_)
  · have next := steps.tail (step.toStep valid before within)
    cases flow <;> exact next
  · exact ⟨u, steps, stuck_of_no_pageStep valid before within none⟩

theorem isolateWindow_trace {requested : UInt32} {r : ReadResult} (valid : run.Valid)
    (le : r.copied.toNat ≤ requested.toNat) {s : AcquireState δ ω η κ}
    (within : s.offsetWithinRun.toNat + (requested.toNat - r.copied.toNat) ≤ run.length.toNat) :
    WP (isolateWindow C run requested r) (fun _ t => ReflTransGen (Step C run) s t)
      (fun _ _ => Blocked C run s) s := by
  have := valid.fits
  rw [isolateWindow, WP.ite_iff]
  refine ⟨fun _ => ?_, fun _ => .refl⟩
  simp only [WP.bind_iff, WP.get_iff, require_wp, decide_eq_true_eq, uint64Max,
    Word.le_max_sub_iff, Word.toNat_sub32_of_le le]
  refine ⟨fun fits => pageLoop_trace C valid ?_ s, fun overflow => by omega⟩
  rw [windowEnd_toNat le (by omega)]
  exact Nat.min_le_left _ _

theorem chunkBody_trace (valid : run.Valid) {s : AcquireState δ ω η κ}
    (before : s.offsetWithinRun.toNat < run.length.toNat) :
    WP (chunkBody C run) (fun _ t => ReflTransGen (Step C run) s t)
      (fun _ _ => Blocked C run s) s := by
  have request : Request run s _ := bulkRequest_spec before
  simp only [chunkBody, WP.bind_iff, WP.get_iff]
  refine request_wp C (fun r answers => ?_)
    (fun none _ _ => ⟨s, .refl, .unanswered request none⟩)
  have le : r.copied.toNat ≤ (bulkRequestBytes run s.offsetWithinRun).toNat :=
    answers.valid.copied_le
  have := request.within
  refine (keepCopied_guarded r _).mono ?_ (fun _ _ cannot => ⟨s, .refl, ?_⟩)
  · rintro - m ⟨can, rfl⟩
    have kept := keepCopied_offset can
    change _ = s.offsetWithinRun.toNat + r.copied.toNat at kept
    have first := Step.first request answers can
    refine (isolateWindow_trace C valid le (by rw [kept]; omega)).mono
      (fun _ t rest => .head first rest) (fun _ _ blocked => blocked.of_steps (.single first))
  · rw [Classical.not_imp] at cannot
    exact .cannotKeep request answers cannot.1 cannot.2

/-- A completed run ends exactly at the run's end. -/
theorem runLoop_trace (valid : run.Valid) {s : AcquireState δ ω η κ}
    (start : s.offsetWithinRun.toNat ≤ run.length.toNat) :
    WP (runLoop C run)
      (fun _ t => ReflTransGen (Step C run) s t ∧ t.offsetWithinRun.toNat = run.length.toNat)
      (fun _ _ => Blocked C run s) s := by
  refine whileLoop_wp (fun u => ReflTransGen (Step C run) s u)
    (fun t => ReflTransGen (Step C run) s t ∧ t.offsetWithinRun.toNat = run.length.toNat)
    .refl ?_ ?_
  · intro u steps before
    rw [decide_eq_true_eq, UInt64.lt_iff_toNat_lt] at before
    rw [WP.bind_iff]
    exact (chunkBody_trace C valid before).mono (fun _ _ more => steps.trans more)
      (fun _ _ blocked => blocked.of_steps steps)
  · intro u steps stopped
    rw [decide_eq_true_eq, UInt64.lt_iff_toNat_lt] at stopped
    have := Step.offset_le_of_steps steps start
    exact ⟨steps, by omega⟩

/-- The state in which the loop over `run` begins. -/
def atRunStart (s : AcquireState δ ω η κ) : AcquireState δ ω η κ :=
  { s with offsetWithinRun := 0 }

/-- The completed traversal of a list of runs. -/
inductive Traversal : List MemoryRun → AcquireState δ ω η κ → AcquireState δ ω η κ → Prop
  | nil (s : AcquireState δ ω η κ) : Traversal [] s s
  | cons {run : MemoryRun} {rest : List MemoryRun} {s t u : AcquireState δ ω η κ}
      (valid : run.Valid) (steps : ReflTransGen (Step C run) (atRunStart s) t)
      (complete : t.offsetWithinRun.toNat = run.length.toNat) (after : Traversal rest t u) :
      Traversal (run :: rest) s u

/-- The parts of the summary that the loops never touch. -/
structure SameTopology (a b : AcquisitionSummary) : Prop where
  logicalSize : a.logicalSize = b.logicalSize
  physicalBytes : a.physicalBytes = b.physicalBytes
  ranges : a.ranges = b.ranges
  hints : a.hints = b.hints

theorem SameTopology.trans {a b c : AcquisitionSummary} (h : SameTopology a b)
    (h' : SameTopology b c) : SameTopology a c :=
  ⟨h.logicalSize.trans h'.logicalSize, h.physicalBytes.trans h'.physicalBytes,
    h.ranges.trans h'.ranges, h.hints.trans h'.hints⟩

theorem Step.sameTopology (step : Step C run s t) : SameTopology t.summary s.summary := by
  cases step <;> exact ⟨rfl, rfl, rfl, rfl⟩

theorem Traversal.sameTopology {runs : List MemoryRun} (traversal : Traversal C runs s t) :
    SameTopology t.summary s.summary := by
  induction traversal with
  | nil => exact ⟨rfl, rfl, rfl, rfl⟩
  | cons valid steps complete after ih =>
      refine ih.trans ?_
      clear complete after ih
      induction steps with
      | refl => exact ⟨rfl, rfl, rfl, rfl⟩
      | tail _ step ih => exact step.sameTopology.trans ih

/-- The engine returns false inside the list: a run is malformed or blocked. -/
def Obstructed (runs : List MemoryRun) (s : AcquireState δ ω η κ) : Prop :=
  ∃ done run rest m, runs = done ++ run :: rest ∧ Traversal C done s m ∧
    (run.Valid → Blocked C run (atRunStart m))

theorem acquireRuns_trace (runs : List MemoryRun) (s : AcquireState δ ω η κ) :
    WP (acquireRuns C runs) (fun _ t => Traversal C runs s t)
      (fun _ _ => Obstructed C runs s) s := by
  induction runs generalizing s with
  | nil => exact .nil s
  | cons run rest ih =>
      simp only [acquireRuns, acquireRun, WP.bind_iff, require_wp, WP.modify_iff, runValid_iff]
      refine ⟨fun valid => ?_, fun invalid =>
        ⟨[], run, rest, s, rfl, .nil s, fun valid => (invalid valid).elim⟩⟩
      refine (runLoop_trace C valid (s := atRunStart s) (Nat.zero_le _)).mono ?_
        (fun _ _ blocked => ⟨[], run, rest, s, rfl, .nil s, fun _ => blocked⟩)
      rintro - t ⟨steps, complete⟩
      refine (ih t).mono (fun _ u after => .cons valid steps complete after) ?_
      rintro - - ⟨done, next, tail, m, rfl, traversal, blocked⟩
      exact ⟨run :: done, next, tail, m, rfl, .cons valid steps complete traversal, blocked⟩

/-- `Acquire` accepts the query's answer. -/
structure Topology.Usable (topology : Topology) : Prop where
  highestEnd_ne : topology.highestEnd ≠ 0
  totalBytes_ne : topology.totalBytes ≠ 0
  runs_ne : topology.runs ≠ []

/-- The state in which the loop over the runs begins. -/
def afterQuery (topology : Topology) (s : AcquireState δ ω η κ) : AcquireState δ ω η κ :=
  let device := (C.device.query s.device).2
  { s with
    device := (C.device.queryHints device).2
    summary := {
      hints := if (C.device.queryHints device).1.1 then (C.device.queryHints device).1.2 else {}
      logicalSize := topology.highestEnd
      physicalBytes := topology.totalBytes
      ranges := topology.runs } }

/-- The state after the session has been ended. -/
def afterEnd (topologyChanged : Bool) (s : AcquireState δ ω η κ) : AcquireState δ ω η κ :=
  { s with
    device := (C.device.endSession s.device).2
    summary := { s.summary with topologyChanged := topologyChanged, completed := true }
    calls := s.calls ++ [.endSession] }

/-- `Acquire` returned true: every frozen run has been traversed, the tail has been
hashed and the session has been ended. -/
structure Completed (s : AcquireState δ ω η κ) (topology : Topology)
    (m : AcquireState δ ω η κ) (topologyChanged : Bool) (t : AcquireState δ ω η κ) : Prop where
  asked : (C.device.query s.device).1 = some topology
  usable : topology.Usable
  traversal : Traversal C topology.runs (afterQuery C topology s) m
  hashable : CanHash C m.summary.logicalSize m
  ended : (C.device.endSession m.device).1 = some topologyChanged
  final : t = afterEnd C topologyChanged (afterGap C m.summary.logicalSize m)

/-- `Acquire` returned false. -/
inductive Fails (s : AcquireState δ ω η κ) : Prop
  | query (unusable : ∀ topology, (C.device.query s.device).1 = some topology →
      ¬topology.Usable)
  | obstructed {topology : Topology} (asked : (C.device.query s.device).1 = some topology)
      (obstructed : Obstructed C topology.runs (afterQuery C topology s))
  | hash {topology : Topology} {m : AcquireState δ ω η κ}
      (asked : (C.device.query s.device).1 = some topology)
      (traversal : Traversal C topology.runs (afterQuery C topology s) m)
      (cannot : ¬CanHash C m.summary.logicalSize m)
  | endSession {topology : Topology} {m : AcquireState δ ω η κ}
      (asked : (C.device.query s.device).1 = some topology)
      (traversal : Traversal C topology.runs (afterQuery C topology s) m)
      (failed : (C.device.endSession m.device).1 = none)

theorem usable_iff {topology : Topology} :
    (topology.highestEnd != 0 && topology.totalBytes != 0 && !topology.runs.isEmpty) = true ↔
      topology.Usable := by
  simp only [Bool.and_eq_true, bne_iff_ne, Bool.not_eq_true', List.isEmpty_eq_false_iff]
  exact ⟨fun ⟨⟨highest, total⟩, runs⟩ => ⟨highest, total, runs⟩,
    fun h => ⟨⟨h.highestEnd_ne, h.totalBytes_ne⟩, h.runs_ne⟩⟩

theorem endSession_wp (s : AcquireState δ ω η κ) :
    WP (endSession C)
      (fun _ t => ∃ changed, (C.device.endSession s.device).1 = some changed ∧
        t = afterEnd C changed s)
      (fun _ _ => (C.device.endSession s.device).1 = none) s := by
  simp only [endSession, WP.bind_iff, record_wp, WP.modifyGet_iff]
  cases answer : (C.device.endSession s.device).1 with
  | none => rfl
  | some changed => exact ⟨changed, rfl, rfl⟩

theorem acquire_wp (s : AcquireState δ ω η κ) :
    WP (acquire C) (fun _ t => ∃ topology m changed, Completed C s topology m changed t)
      (fun _ _ => Fails C s) s := by
  simp only [acquire, beginSummary, WP.bind_iff, WP.modify_iff, WP.modifyGet_iff]
  cases asked : (C.device.query s.device).1 with
  | none => exact .query (fun topology h => by simp [asked] at h)
  | some topology =>
      simp only [WP.bind_iff, require_wp, WP.modify_iff, WP.pure_iff, WP.get_iff, usable_iff]
      refine ⟨fun usable => ?_, fun unusable => .query fun topology' h => ?_⟩
      · refine (acquireRuns_trace C topology.runs (afterQuery C topology s)).mono ?_
          (fun _ _ obstructed => .obstructed asked obstructed)
        rintro - m traversal
        refine (hashZerosTo_guarded C _ m).mono ?_ (fun _ _ cannot => .hash asked traversal cannot)
        rintro - _ ⟨hashable, rfl⟩
        refine (endSession_wp C _).mono ?_ (fun _ _ failed => .endSession asked traversal failed)
        rintro - t ⟨changed, ended, rfl⟩
        exact ⟨topology, m, changed, asked, usable, traversal, hashable, ended, rfl⟩
      · rw [asked] at h
        exact Option.some.inj h ▸ unusable

/-- A caller that sees true learns that a completed run produced the final state. -/
theorem acquire_completed {s : AcquireState δ ω η κ} (h : returned (acquire C s) = true) :
    ∃ topology m changed, Completed C s topology m changed (final (acquire C s)) := by
  obtain ⟨_, _, completed⟩ := (acquire_wp C s).of_returned h
  exact completed

end PhylaRam
