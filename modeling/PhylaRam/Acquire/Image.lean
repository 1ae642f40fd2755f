import PhylaRam.Acquire.Trace
import PhylaRam.Library.Image

/-!
# The hash stream and the image of a run

The hasher receives a stream in call order, the writer receives positioned writes.
The invariant `Streams` relates the two for any device: the bytes hashed so far are
the image of the writes made so far, up to the hash position, and nothing has been
written beyond it. Run lists may be unsorted or overlap; a run that would take the
hash position back stops the engine instead.
-/

namespace PhylaRam

open Program Relation Image

/-- The bytes a call feeds to the hasher. -/
def Call.hashed : Call → List Byte
  | .update data => data
  | .updateZeros length => List.replicate length.toNat 0
  | .read .. | .writeAt .. | .addUnreadable .. | .endSession => []

/-- The concatenation of everything fed to the hasher. -/
def hashed (calls : List Call) : List Byte := calls.flatMap Call.hashed

/-- The effect of a call on the image. -/
def Call.draw (image : Nat → Byte) : Call → Nat → Byte
  | .writeAt offset data => overlay image offset.toNat data
  | .read .. | .update _ | .updateZeros _ | .addUnreadable .. | .endSession => image

/-- The bytes at all addresses after the writes of the calls, zero where none fell. -/
def imageOf (calls : List Call) : Nat → Byte := calls.foldl Call.draw fun _ => 0

@[simp] theorem hashed_append (xs ys : List Call) : hashed (xs ++ ys) = hashed xs ++ hashed ys :=
  List.flatMap_append

theorem imageOf_append (xs ys : List Call) :
    imageOf (xs ++ ys) = ys.foldl Call.draw (imageOf xs) := List.foldl_append

variable {δ ω η κ : Type} {C : Collaborators δ ω η κ} {run : MemoryRun}
  {s t : AcquireState δ ω η κ}

theorem hashed_gapCalls {next : UInt64} (ordered : s.hashPosition.toNat ≤ next.toNat) :
    hashed (gapCalls next s) = List.replicate (next.toNat - s.hashPosition.toNat) 0 := by
  unfold gapCalls
  split
  · rw [← Word.toNat_sub_of_le ordered]
    exact List.append_nil _
  · next level =>
      rw [UInt64.lt_iff_toNat_lt] at level
      rw [Nat.sub_eq_zero_of_le (by omega)]
      rfl

theorem imageOf_gapCalls (calls : List Call) (next : UInt64) (s : AcquireState δ ω η κ) :
    imageOf (calls ++ gapCalls next s) = imageOf calls := by
  rw [imageOf_append]
  unfold gapCalls
  split <;> rfl

/-- The stream `calls` has fed is their image up to `position`, which no write has
passed. -/
structure Streams (calls : List Call) (position : Nat) : Prop where
  stream : hashed calls = upTo (imageOf calls) position
  beyond : BlankFrom 0 (imageOf calls) position

theorem Streams.nil : Streams [] 0 := ⟨rfl, fun _ _ => rfl⟩

/-- A call that neither hashes nor writes. -/
theorem Streams.quiet {calls : List Call} {position : Nat} (h : Streams calls position)
    {call : Call} (hash : call.hashed = []) (still : ∀ image, call.draw image = image) :
    Streams (calls ++ [call]) position := by
  have image : imageOf (calls ++ [call]) = imageOf calls := by
    rw [imageOf_append]
    exact still _
  refine ⟨?_, image ▸ h.beyond⟩
  rw [image, hashed_append, ← h.stream]
  change _ ++ (call.hashed ++ []) = _
  rw [hash, List.append_nil, List.append_nil]

/-- The zeros before the next address keep stream and image together. -/
theorem Streams.gap {next : UInt64} (h : Streams s.calls s.hashPosition.toNat)
    (ordered : s.hashPosition.toNat ≤ next.toNat) :
    Streams (s.calls ++ gapCalls next s) next.toNat := by
  refine ⟨?_, ?_⟩ <;> rw [imageOf_gapCalls]
  · rw [hashed_append, hashed_gapCalls ordered, h.stream, h.beyond.upTo ordered]
  · exact h.beyond.mono ordered

/-- Bytes written and hashed at the position where the stream ends. -/
theorem Streams.write {calls : List Call} {offset : UInt64} (h : Streams calls offset.toNat)
    (data : List Byte) :
    Streams (calls ++ [.writeAt offset data] ++ [.update data])
      (offset.toNat + data.length) := by
  have image : imageOf (calls ++ [.writeAt offset data] ++ [.update data]) =
      overlay (imageOf calls) offset.toNat data := by
    rw [imageOf_append, imageOf_append]
    rfl
  refine ⟨?_, ?_⟩ <;> rw [image]
  · rw [upTo_overlay, hashed_append, hashed_append, ← h.stream]
    change hashed calls ++ [] ++ (data ++ []) = _
    rw [List.append_nil, List.append_nil]
  · exact h.beyond.overlay

theorem Step.streams (step : Step C run s t) (h : Streams s.calls s.hashPosition.toNat) :
    Streams t.calls t.hashPosition.toNat := by
  cases step with
  | probe => exact h.quiet rfl fun _ => rfl
  | @keep requested r request answers copied can =>
      have asked : Streams (afterRequest C run requested s).calls
          (afterRequest C run requested s).hashPosition.toNat := h.quiet rfl fun _ => rfl
      have written := (asked.gap can.hashable.ordered).write r.data
      have fits := can.address_fits
      have position : (r.physicalAddress + r.copied.toUInt64).toNat =
          r.physicalAddress.toNat + r.data.length := by
        rw [Word.toNat_add_of_lt (by rwa [UInt32.toNat_toUInt64]), UInt32.toNat_toUInt64,
          answers.valid.data_length]
      rw [← position] at written
      exact written
  | skip => exact (h.quiet rfl fun _ => rfl).quiet rfl fun _ => rfl

theorem streams_of_steps (steps : ReflTransGen (Step C run) s t)
    (h : Streams s.calls s.hashPosition.toNat) : Streams t.calls t.hashPosition.toNat := by
  induction steps with
  | refl => exact h
  | tail _ step ih => exact step.streams ih

theorem Traversal.streams {runs : List MemoryRun} (traversal : Traversal C runs s t)
    (h : Streams s.calls s.hashPosition.toNat) : Streams t.calls t.hashPosition.toNat := by
  induction traversal with
  | nil => exact h
  | cons valid steps complete after ih => exact ih (streams_of_steps steps h)

/-- After a completed run the whole logical image has been hashed and nothing has been
written outside it. -/
theorem Completed.streams {topology : Topology} {m : AcquireState δ ω η κ} {changed : Bool}
    (completed : Completed C s topology m changed t) (calls : s.calls = [])
    (position : s.hashPosition = 0) : Streams t.calls m.summary.logicalSize.toNat := by
  have start : Streams (afterQuery C topology s).calls
      (afterQuery C topology s).hashPosition.toNat := by
    change Streams s.calls s.hashPosition.toNat
    rw [calls, position]
    exact .nil
  have all := (completed.traversal.streams start).gap completed.hashable.ordered
  rw [completed.final]
  exact all.quiet rfl fun _ => rfl

/-! ### What the writer has seen -/

/-- A relation between images and writer states that every accepted write of the
engine preserves: `keeps` may assume the bounds the engine guarantees. -/
theorem Step.writer_rel {R : (Nat → Byte) → ω → Prop}
    (keeps : ∀ image w offset data, R image w → data.length ≤ phylaMaxTransfer.toNat →
      (C.writer.writeAt offset data w).1 = true →
      R (overlay image offset.toNat data) (C.writer.writeAt offset data w).2)
    (step : Step C run s t) (h : R (imageOf s.calls) s.writer) :
    R (imageOf t.calls) t.writer := by
  cases step with
  | probe =>
      change R (imageOf (s.calls ++ [_])) s.writer
      rwa [imageOf_append]
  | @keep requested r request answers copied can =>
      have image : imageOf (afterKeep C r (afterRequest C run requested s)).calls =
          overlay (imageOf s.calls) r.physicalAddress.toNat r.data := by
        change imageOf (_ ++ _ ++ [_] ++ [_]) = _
        rw [imageOf_append, imageOf_append, imageOf_gapCalls]
        change overlay (imageOf (s.calls ++ [_])) _ _ = _
        rw [imageOf_append]
        rfl
      rw [image]
      refine keeps _ _ _ _ h ?_ can.written
      have := request.bounded
      have := answers.valid.copied_le
      have := answers.valid.data_length
      omega
  | skip =>
      change R (imageOf (s.calls ++ [_] ++ [_])) s.writer
      rwa [imageOf_append, imageOf_append]

theorem Traversal.writer_rel {R : (Nat → Byte) → ω → Prop}
    (keeps : ∀ image w offset data, R image w → data.length ≤ phylaMaxTransfer.toNat →
      (C.writer.writeAt offset data w).1 = true →
      R (overlay image offset.toNat data) (C.writer.writeAt offset data w).2)
    {runs : List MemoryRun} (traversal : Traversal C runs s t)
    (h : R (imageOf s.calls) s.writer) : R (imageOf t.calls) t.writer := by
  induction traversal with
  | nil => exact h
  | cons valid steps complete after ih =>
      refine ih ?_
      clear ih after complete
      induction steps with
      | refl => exact h
      | tail _ step ih => exact step.writer_rel keeps ih

theorem Completed.writer_rel {R : (Nat → Byte) → ω → Prop}
    (keeps : ∀ image w offset data, R image w → data.length ≤ phylaMaxTransfer.toNat →
      (C.writer.writeAt offset data w).1 = true →
      R (overlay image offset.toNat data) (C.writer.writeAt offset data w).2)
    {topology : Topology} {m : AcquireState δ ω η κ} {changed : Bool}
    (completed : Completed C s topology m changed t) (calls : s.calls = [])
    (h : R (fun _ => 0) s.writer) : R (imageOf t.calls) t.writer := by
  have start : R (imageOf (afterQuery C topology s).calls) (afterQuery C topology s).writer := by
    change R (imageOf s.calls) s.writer
    rw [calls]
    exact h
  have all := completed.traversal.writer_rel keeps start
  rw [completed.final]
  change R (imageOf (_ ++ _ ++ [_])) m.writer
  rwa [imageOf_append, imageOf_gapCalls]

/-! ### What the hasher has seen -/

/-- A relation between streams and hasher states that every accepted call preserves. -/
structure HashRel (hasher : IHasher η) (R : List Byte → η → Prop) : Prop where
  update : ∀ stream h data, R stream h → (hasher.update data h).1 = true →
    R (stream ++ data) (hasher.update data h).2
  updateZeros : ∀ stream h length, R stream h → (hasher.updateZeros length h).1 = true →
    R (stream ++ List.replicate length.toNat 0) (hasher.updateZeros length h).2

variable {R : List Byte → η → Prop}

theorem HashRel.gap (rel : HashRel C.hasher R) {next : UInt64} (can : CanHash C next s)
    (h : R (hashed s.calls) s.hasher) :
    R (hashed (s.calls ++ gapCalls next s)) (gapReply C next s).2 := by
  have accepted := can.accepted
  rw [hashed_append, gapCalls, gapReply] at *
  split
  · next gap =>
      rw [if_pos gap] at accepted
      have zeros : hashed [Call.updateZeros (next - s.hashPosition)] =
          List.replicate (next - s.hashPosition).toNat 0 := List.append_nil _
      rw [zeros]
      exact rel.updateZeros _ _ _ h accepted
  · exact (List.append_nil _).symm ▸ h

theorem Step.hash_rel (rel : HashRel C.hasher R) (step : Step C run s t)
    (h : R (hashed s.calls) s.hasher) : R (hashed t.calls) t.hasher := by
  have quiet {calls : List Call} {call : Call} {hasher : η} (none : call.hashed = [])
      (h : R (hashed calls) hasher) : R (hashed (calls ++ [call])) hasher := by
    have same : hashed (calls ++ [call]) = hashed calls := by
      rw [hashed_append]
      change _ ++ (call.hashed ++ []) = _
      rw [none, List.append_nil, List.append_nil]
    rwa [same]
  cases step with
  | probe => exact quiet rfl h
  | @keep requested r request answers copied can =>
      have asked : R (hashed (afterRequest C run requested s).calls)
          (afterRequest C run requested s).hasher := quiet rfl h
      have fed := rel.update _ _ r.data (rel.gap can.hashable asked) can.hashed
      have same : hashed (afterKeep C r (afterRequest C run requested s)).calls =
          hashed ((afterRequest C run requested s).calls ++
            gapCalls r.physicalAddress (afterRequest C run requested s)) ++ r.data := by
        change hashed (_ ++ _ ++ [_] ++ [_]) = _
        rw [hashed_append, hashed_append]
        change _ ++ [] ++ (r.data ++ []) = _
        rw [List.append_nil, List.append_nil]
      rw [same]
      exact fed
  | skip => exact quiet rfl (quiet rfl h)

theorem Traversal.hash_rel (rel : HashRel C.hasher R) {runs : List MemoryRun}
    (traversal : Traversal C runs s t) (h : R (hashed s.calls) s.hasher) :
    R (hashed t.calls) t.hasher := by
  induction traversal with
  | nil => exact h
  | cons valid steps complete after ih =>
      refine ih ?_
      clear ih after complete
      induction steps with
      | refl => exact h
      | tail _ step ih => exact step.hash_rel rel ih

theorem Completed.hash_rel (rel : HashRel C.hasher R) {topology : Topology}
    {m : AcquireState δ ω η κ} {changed : Bool} (completed : Completed C s topology m changed t)
    (calls : s.calls = []) (h : R [] s.hasher) : R (hashed t.calls) t.hasher := by
  have start : R (hashed (afterQuery C topology s).calls) (afterQuery C topology s).hasher := by
    change R (hashed s.calls) s.hasher
    rw [calls]
    exact h
  have all := rel.gap completed.hashable (completed.traversal.hash_rel rel start)
  rw [completed.final]
  change R (hashed (_ ++ [_])) _
  rw [hashed_append]
  exact (List.append_nil (hashed _)).symm ▸ all

end PhylaRam
