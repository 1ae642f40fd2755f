import PhylaRam.Acquire.Step

/-!
# The loops of the acquisition engine

The page loop, the loop over one run and the loop over all runs complete the
translation of `Acquire`. They are total functions: each iteration that returns
has moved the offset forward, so no fuel and no assumption on the device is
needed for the loops to end.
-/

namespace PhylaRam

open Program

variable {δ ω η κ : Type} (C : Collaborators δ ω η κ)

section Progress

variable {C} {run : MemoryRun} {s t : AcquireState δ ω η κ} {r : ReadResult}

theorem afterKeep_offset (can : CanKeep C r s) :
    (afterKeep C r s).offsetWithinRun.toNat = s.offsetWithinRun.toNat + r.copied.toNat := by
  have fits : s.offsetWithinRun.toNat + r.copied.toUInt64.toNat < 2 ^ 64 := by
    rw [UInt32.toNat_toUInt64]
    exact can.offset_fits
  rw [← UInt32.toNat_toUInt64]
  exact Word.toNat_add_of_lt fits

theorem afterSkip_offset {start length : UInt64} {status : Int32} (can : CanSkip length s) :
    (afterSkip start length status s).offsetWithinRun.toNat =
      s.offsetWithinRun.toNat + length.toNat :=
  Word.toNat_add_of_lt can.offset_fits

/-- Every completed iteration of the page loop moves the offset forward. -/
theorem PageStep.offset_lt {chunkEnd : UInt64} {flow : Flow}
    (step : PageStep C run chunkEnd s flow t) :
    s.offsetWithinRun.toNat < t.offsetWithinRun.toNat := by
  cases step with
  | keep _ copied can =>
      rw [afterKeep_offset can]
      exact Nat.lt_add_of_pos_right (Word.pos_iff32.mp copied)
  | skip _ _ can =>
      rw [afterSkip_offset can]
      exact Nat.lt_add_of_pos_right can.nonempty

theorem pageBody_offset_lt {chunkEnd : UInt64} {flow : Flow}
    (h : pageBody C run chunkEnd s = .ok flow t) :
    s.offsetWithinRun.toNat < t.offsetWithinRun.toNat :=
  ((pageBody_wp C run chunkEnd s).of_ok h).offset_lt

end Progress

/-- The page loop: `while (offsetWithinRun < chunkEnd)`. -/
def pageLoop (run : MemoryRun) (chunkEnd : UInt64) : AcquireM δ ω η κ Unit :=
  whileLoop (fun s => s.offsetWithinRun < chunkEnd) (pageBody C run chunkEnd)
    (fun s => chunkEnd.toNat - s.offsetWithinRun.toNat)
    (fun s t before ran => by
      have advanced := pageBody_offset_lt ran
      rw [decide_eq_true_eq, UInt64.lt_iff_toNat_lt] at before
      omega)

/-- `if (result.copied != 0)` of a bulk read. -/
def keepCopied (result : ReadResult) : AcquireM δ ω η κ Unit :=
  if result.copied ≠ 0 then keepBytes C result else pure ()

/-- `if (result.copied != requestedBytes)`: page isolation of what a bulk read
left unresolved. -/
def isolateWindow (run : MemoryRun) (requestedBytes : UInt32) (result : ReadResult) :
    AcquireM δ ω η κ Unit :=
  if result.copied ≠ requestedBytes then do
    let unreadableWindowBytes := (requestedBytes - result.copied).toUInt64
    let offset := (← get).offsetWithinRun
    require (offset ≤ uint64Max - unreadableWindowBytes) .guard
    pageLoop C run (min run.length (offset + unreadableWindowBytes))
  else pure ()

/-- One iteration of the loop over a run. -/
def chunkBody (run : MemoryRun) : AcquireM δ ω η κ Unit := do
  checkCancelled C
  let s ← get
  let result ← readRun C run (bulkRequestBytes run s.offsetWithinRun)
  keepCopied C result
  isolateWindow C run (bulkRequestBytes run s.offsetWithinRun) result

section Progress

variable {C} {run : MemoryRun} {s t : AcquireState δ ω η κ} {r : ReadResult}

/-- The page loop never moves the offset back, and moves it if it runs at all. -/
theorem pageLoop_progress (chunkEnd : UInt64) :
    WP (pageLoop C run chunkEnd)
      (fun _ t => s.offsetWithinRun.toNat ≤ t.offsetWithinRun.toNat ∧
        (s.offsetWithinRun < chunkEnd → s.offsetWithinRun.toNat < t.offsetWithinRun.toNat))
      (fun _ _ => True) s := by
  refine whileLoop_wp
    (fun u => u = s ∨ s.offsetWithinRun.toNat < u.offsetWithinRun.toNat) _ (.inl rfl) ?_ ?_
  · intro u moved _
    refine (pageBody_wp C run chunkEnd u).mono (fun flow v step => ?_) (fun _ _ _ => trivial)
    have advanced := step.offset_lt
    have further : s.offsetWithinRun.toNat < v.offsetWithinRun.toNat := by
      rcases moved with rfl | moved <;> omega
    cases flow with
    | again => exact .inr further
    | leave => exact ⟨Nat.le_of_lt further, fun _ => further⟩
  · rintro u (rfl | moved) stopped
    · exact ⟨Nat.le_refl _, fun before => (stopped (by simpa using before)).elim⟩
    · exact ⟨Nat.le_of_lt moved, fun _ => moved⟩

theorem keepCopied_guarded (r : ReadResult) (s : AcquireState δ ω η κ) :
    Guarded (keepCopied C r) s (r.copied ≠ 0 → CanKeep C r s)
      (if r.copied ≠ 0 then afterKeep C r s else s) := by
  unfold keepCopied
  split
  · next copied =>
      exact (keepBytes_guarded C r s).congr ⟨fun can _ => can, fun can => can copied⟩ rfl
  · next zero => exact ⟨fun copied => (zero copied).elim, rfl⟩

theorem keepCopied_offset (can : r.copied ≠ 0 → CanKeep C r s) :
    (if r.copied ≠ 0 then afterKeep C r s else s).offsetWithinRun.toNat =
      s.offsetWithinRun.toNat + r.copied.toNat := by
  split
  · next copied => exact afterKeep_offset (can copied)
  · next zero =>
      have : r.copied = 0 := by simpa using zero
      simp [this]

/-- The end of the window that a bulk read of `requested` bytes left unresolved. -/
theorem windowEnd_toNat {requested : UInt32} (le : r.copied.toNat ≤ requested.toNat)
    (fits : s.offsetWithinRun.toNat + (requested.toNat - r.copied.toNat) < 2 ^ 64) :
    (min run.length (s.offsetWithinRun + (requested - r.copied).toUInt64)).toNat =
      min run.length.toNat
        (s.offsetWithinRun.toNat + (requested.toNat - r.copied.toNat)) := by
  rw [Word.toNat_min, Word.toNat_add_of_lt] <;> rw [Word.toNat_sub32_of_le le]
  exact fits

theorem isolateWindow_progress {requested : UInt32} (le : r.copied.toNat ≤ requested.toNat)
    (more : r.copied ≠ requested → s.offsetWithinRun.toNat < run.length.toNat) :
    WP (isolateWindow C run requested r)
      (fun _ t => s.offsetWithinRun.toNat ≤ t.offsetWithinRun.toNat ∧
        (r.copied ≠ requested → s.offsetWithinRun.toNat < t.offsetWithinRun.toNat))
      (fun _ _ => True) s := by
  rw [isolateWindow, WP.ite_iff]
  refine ⟨fun partly => ?_, fun full => ⟨Nat.le_refl _, fun partly => (full partly).elim⟩⟩
  simp only [WP.bind_iff, WP.get_iff, require_wp, decide_eq_true_eq, uint64Max,
    Word.le_max_sub_iff, Word.toNat_sub32_of_le le]
  refine ⟨fun fits => ?_, fun _ => trivial⟩
  refine (pageLoop_progress _).mono (fun _ t moved => ⟨moved.1, fun _ => moved.2 ?_⟩)
    (fun _ _ _ => trivial)
  have ne : r.copied.toNat ≠ requested.toNat := fun h => partly (UInt32.toNat_inj.mp h)
  have := more partly
  rw [UInt64.lt_iff_toNat_lt, windowEnd_toNat le (by omega)]
  omega

/-- Every completed iteration of the loop over a run moves the offset forward. -/
theorem chunkBody_progress (before : s.offsetWithinRun < run.length) :
    WP (chunkBody C run) (fun _ t => s.offsetWithinRun.toNat < t.offsetWithinRun.toNat)
      (fun _ _ => True) s := by
  rw [UInt64.lt_iff_toNat_lt] at before
  simp only [chunkBody, WP.bind_iff, WP.get_iff]
  refine request_wp C (fun r answers => ?_) (fun _ _ _ => trivial)
  have size := bulkRequestBytes_toNat (Nat.le_of_lt before)
  have hmax : phylaMaxTransfer.toNat = 2 ^ 24 := rfl
  have le : r.copied.toNat ≤ (bulkRequestBytes run s.offsetWithinRun).toNat :=
    answers.valid.copied_le
  refine (keepCopied_guarded r _).mono ?_ (fun _ _ _ => trivial)
  rintro - m ⟨can, rfl⟩
  have kept := keepCopied_offset can
  change _ = s.offsetWithinRun.toNat + r.copied.toNat at kept
  refine (isolateWindow_progress le (fun partly => ?_)).mono (fun _ t moved => ?_)
    (fun _ _ _ => trivial)
  · have ne : r.copied.toNat ≠ (bulkRequestBytes run s.offsetWithinRun).toNat :=
      fun h => partly (UInt32.toNat_inj.mp h)
    omega
  · by_cases full : r.copied = bulkRequestBytes run s.offsetWithinRun
    · have := congrArg UInt32.toNat full
      omega
    · have := moved.2 full
      omega

theorem chunkBody_again_lt (before : decide (s.offsetWithinRun < run.length) = true)
    (h : (do chunkBody C run; pure Flow.again : AcquireM δ ω η κ Flow) s = .ok .again t) :
    s.offsetWithinRun.toNat < t.offsetWithinRun.toNat := by
  have advanced : WP (do chunkBody C run; pure Flow.again : AcquireM δ ω η κ Flow)
      (fun _ t => s.offsetWithinRun.toNat < t.offsetWithinRun.toNat) (fun _ _ => True) s :=
    WP.bind_iff.mpr (chunkBody_progress (by simpa using before))
  exact advanced.of_ok h

end Progress

/-- The loop over one run: `while (offsetWithinRun < run.length)`. -/
def runLoop (run : MemoryRun) : AcquireM δ ω η κ Unit :=
  whileLoop (fun s => s.offsetWithinRun < run.length)
    (do chunkBody C run; pure .again)
    (fun s => run.length.toNat - s.offsetWithinRun.toNat)
    (fun s t before ran => by
      have advanced := chunkBody_again_lt before ran
      rw [decide_eq_true_eq, UInt64.lt_iff_toNat_lt] at before
      omega)

/-- One turn of `for (const MemoryRun& run : runs)`. -/
def acquireRun (run : MemoryRun) : AcquireM δ ω η κ Unit := do
  require (run.length != 0 && run.base ≤ uint64Max - run.length) .guard
  modify fun s => { s with offsetWithinRun := 0 }
  runLoop C run

def acquireRuns : List MemoryRun → AcquireM δ ω η κ Unit
  | [] => pure ()
  | run :: rest => do
      acquireRun C run
      acquireRuns rest

/-- The topology query, the hint query and the start of the summary. -/
def beginSummary : AcquireM δ ω η κ Topology := do
  let answer ← modifyGet fun s =>
    let (answer, device) := C.device.query s.device
    (answer, { s with device := device })
  match answer with
  | none => throw .query
  | some topology =>
      require (topology.highestEnd != 0 && topology.totalBytes != 0 && !topology.runs.isEmpty)
        .query
      modify fun s =>
        let ((available, hints), device) := C.device.queryHints s.device
        { s with
          device := device
          summary := { s.summary with
            hints := if available then hints else s.summary.hints
            logicalSize := topology.highestEnd
            physicalBytes := topology.totalBytes
            ranges := topology.runs } }
      pure topology

def endSession : AcquireM δ ω η κ Unit := do
  record .endSession
  let answer ← modifyGet fun s =>
    let (answer, device) := C.device.endSession s.device
    (answer, { s with device := device })
  match answer with
  | none => throw .endSession
  | some topologyChanged =>
      modify fun s => { s with
        summary := { s.summary with topologyChanged := topologyChanged, completed := true } }

/-- The collaborators' states at the call; every local variable starts at zero. -/
def AcquireState.start (device : δ) (writer : ω) (hasher : η) (environment : κ) :
    AcquireState δ ω η κ :=
  { device, writer, hasher, environment }

/-- `Acquire`: true is a return, false a stop, and the summary is a component of
the state in both cases. -/
def acquire : AcquireM δ ω η κ Unit := do
  modify fun s => { s with summary := {} }
  let topology ← beginSummary C
  acquireRuns C topology.runs
  hashZerosTo C (← get).summary.logicalSize
  endSession C

end PhylaRam
