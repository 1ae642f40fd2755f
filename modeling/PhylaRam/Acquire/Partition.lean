import PhylaRam.Acquire.Trace
import PhylaRam.Library.Interval
import PhylaRam.Tests.Mock

/-!
# The partition of physical memory

A completed run of the engine handles every physical address of the frozen runs
exactly once: its byte is passed to `WriteAt` or its address is recorded as
unreadable. The calls of a run, read as labelled intervals, tile the frozen runs
one after the other, and the summary's counters and its list of unreadable spans
are functions of these intervals.
-/

namespace PhylaRam

open Program Relation Interval

def MemoryRun.interval (run : MemoryRun) : Piece UInt32 :=
  ⟨run.base.toNat, run.length.toNat, run.driverIndex⟩

def UnreadableSpan.interval (span : UnreadableSpan) : Piece Int32 :=
  ⟨span.start.toNat, span.length.toNat, span.status⟩

def runIntervals (runs : List MemoryRun) : List (Piece UInt32) := runs.map MemoryRun.interval

def spanIntervals (spans : List UnreadableSpan) : List (Piece Int32) :=
  spans.map UnreadableSpan.interval

/-- Ordered runs that do not wrap around have a total of 64 bits. -/
theorem total_runIntervals_lt {runs : List MemoryRun} (ordered : Ordered (runIntervals runs))
    (fits : ∀ run ∈ runs, run.base.toNat + run.length.toNat < 2 ^ 64) :
    total (runIntervals runs) < 2 ^ 64 := by
  refine Nat.lt_of_le_of_lt ordered.total_le_lastStop ?_
  rcases List.eq_nil_or_concat' runs with rfl | ⟨before, last, rfl⟩
  · exact Nat.two_pow_pos 64
  · rw [runIntervals, List.map_append, List.map_singleton, lastStop_snoc]
    exact fits last (by simp)

theorem spanIntervals_injective : Function.Injective spanIntervals := by
  refine List.map_injective_iff.mpr fun a b same => ?_
  obtain ⟨start, length, status⟩ := Piece.mk.inj same
  cases a
  cases b
  exact UnreadableSpan.mk.injEq .. ▸
    ⟨UInt64.toNat_inj.mp start, UInt64.toNat_inj.mp length, status⟩

/-- What became of an interval of physical memory. -/
inductive Outcome
  | kept
  | lost (status : Int32)
deriving DecidableEq, Repr

def Outcome.isKept : Outcome → Option Unit
  | .kept => some ()
  | .lost _ => none

def Outcome.status : Outcome → Option Int32
  | .kept => none
  | .lost status => some status

theorem Outcome.complement (o : Outcome) : o.isKept.isSome = !o.status.isSome := by
  cases o <;> rfl

/-- The interval that a call disposes of. -/
def Call.fragment : Call → Option (Piece Outcome)
  | .writeAt offset data => some ⟨offset.toNat, data.length, .kept⟩
  | .addUnreadable start length status => some ⟨start.toNat, length.toNat, .lost status⟩
  | .read .. | .update _ | .updateZeros _ | .endSession => none

def fragments (calls : List Call) : List (Piece Outcome) := calls.filterMap Call.fragment

def keptPieces (calls : List Call) : List (Piece Unit) := select Outcome.isKept (fragments calls)

def lostPieces (calls : List Call) : List (Piece Int32) := select Outcome.status (fragments calls)

@[simp] theorem fragments_append (xs ys : List Call) :
    fragments (xs ++ ys) = fragments xs ++ fragments ys := List.filterMap_append

@[simp] theorem keptPieces_append (xs ys : List Call) :
    keptPieces (xs ++ ys) = keptPieces xs ++ keptPieces ys := by
  rw [keptPieces, fragments_append, select_append]
  rfl

@[simp] theorem lostPieces_append (xs ys : List Call) :
    lostPieces (xs ++ ys) = lostPieces xs ++ lostPieces ys := by
  rw [lostPieces, fragments_append, select_append]
  rfl

variable {δ ω η κ : Type} {C : Collaborators δ ω η κ} {run : MemoryRun}
  {s t : AcquireState δ ω η κ}

/-! ### The calls tile the runs -/

theorem fragments_gapCalls (next : UInt64) (s : AcquireState δ ω η κ) :
    fragments (gapCalls next s) = [] := by
  unfold gapCalls
  split <;> rfl

/-- The read that `afterRequest` makes. -/
def requestCall (C : Collaborators δ ω η κ) (run : MemoryRun) (requested : UInt32)
    (s : AcquireState δ ω η κ) : Call :=
  .read run.driverIndex s.offsetWithinRun requested
    (C.device.read run.driverIndex s.offsetWithinRun requested s.device).1

theorem afterRequest_calls (run : MemoryRun) (requested : UInt32) (s : AcquireState δ ω η κ) :
    (afterRequest C run requested s).calls = s.calls ++ [requestCall C run requested s] := rfl

/-- The calls that a kept reply adds. -/
def keepCalls (r : ReadResult) (s : AcquireState δ ω η κ) : List Call :=
  gapCalls r.physicalAddress s ++ [.writeAt r.physicalAddress r.data] ++ [.update r.data]

theorem afterKeep_calls (r : ReadResult) (s : AcquireState δ ω η κ) :
    (afterKeep C r s).calls = s.calls ++ keepCalls r s := by
  simp [afterKeep, keepCalls]

theorem fragments_keepCalls (r : ReadResult) (s : AcquireState δ ω η κ) :
    fragments (keepCalls r s) = [⟨r.physicalAddress.toNat, r.data.length, .kept⟩] := by
  simp only [keepCalls, fragments_append, fragments_gapCalls]
  rfl

/-- The part of a run between two offsets, as handled by the calls made since. -/
def Covers (run : MemoryRun) (s t : AcquireState δ ω η κ) : Prop :=
  ∃ new, t.calls = s.calls ++ new ∧ (∀ p ∈ fragments new, 0 < p.length) ∧
    Tiles (run.base.toNat + s.offsetWithinRun.toNat) (fragments new)
      (run.base.toNat + t.offsetWithinRun.toNat)

theorem Covers.refl (run : MemoryRun) (s : AcquireState δ ω η κ) : Covers run s s :=
  ⟨[], by simp, by simp [fragments], .nil _⟩

theorem Covers.trans {u : AcquireState δ ω η κ} (h : Covers run s t) (h' : Covers run t u) :
    Covers run s u := by
  obtain ⟨new, calls, nonempty, tiles⟩ := h
  obtain ⟨new', calls', nonempty', tiles'⟩ := h'
  refine ⟨new ++ new', by rw [calls', calls, List.append_assoc], ?_, ?_⟩ <;>
    rw [fragments_append]
  · exact fun p hp => (List.mem_append.mp hp).elim (nonempty p) (nonempty' p)
  · exact tiles.append tiles'

/-- One read is disposed of completely and leaves no gap. -/
theorem Step.covers (valid : run.Valid) (start : s.offsetWithinRun.toNat ≤ run.length.toNat)
    (step : Step C run s t) : Covers run s t := by
  have address := address_toNat valid start
  cases step with
  | probe => exact ⟨_, rfl, by simp [fragments, Call.fragment], rfl⟩
  | @keep requested r request answers copied can =>
      have piece : fragments (requestCall C run requested s ::
          keepCalls r (afterRequest C run requested s)) =
          [⟨run.base.toNat + s.offsetWithinRun.toNat, r.copied.toNat, .kept⟩] := by
        change fragments (keepCalls _ _) = _
        rw [fragments_keepCalls, answers.valid.address_eq, address, answers.valid.data_length]
      refine ⟨requestCall C run requested s :: keepCalls r (afterRequest C run requested s),
        ?_, ?_, ?_⟩
      · rw [afterKeep_calls, afterRequest_calls, List.append_assoc]
        rfl
      · rw [piece]
        simpa using Word.pos_iff32.mp copied
      · rw [piece, afterKeep_offset can]
        exact ⟨rfl, by rw [Piece.stop]; exact Nat.add_assoc _ _ _⟩
  | skip request page answers copied can =>
      refine ⟨_ :: [_], List.append_assoc _ _ _, ?_, ?_⟩
      · simpa [fragments, Call.fragment] using request.positive
      · rw [afterSkip_offset can]
        refine ⟨address, ?_⟩
        rw [Piece.stop, address]
        exact Nat.add_assoc _ _ _

theorem covers_of_steps (valid : run.Valid) (start : s.offsetWithinRun.toNat ≤ run.length.toNat)
    (steps : ReflTransGen (Step C run) s t) : Covers run s t := by
  induction steps with
  | refl => exact .refl run s
  | tail steps step ih =>
      exact ih.trans (step.covers valid (Step.offset_le_of_steps steps start))

/-- The calls of a traversal tile each of its runs in turn. -/
theorem Traversal.tiles {runs : List MemoryRun} (traversal : Traversal C runs s t) :
    ∃ new, t.calls = s.calls ++ new ∧ (∀ p ∈ fragments new, 0 < p.length) ∧
      TilesEach (runIntervals runs) (fragments new) := by
  induction traversal with
  | nil s => exact ⟨[], by simp, by simp [fragments], .nil⟩
  | cons valid steps complete after ih =>
      obtain ⟨new, calls, nonempty, tiles⟩ := covers_of_steps valid (Nat.zero_le _) steps
      obtain ⟨new', calls', nonempty', tiles'⟩ := ih
      refine ⟨new ++ new', by rw [calls', calls, List.append_assoc]; rfl, ?_, ?_⟩ <;>
        rw [fragments_append]
      · exact fun p hp => (List.mem_append.mp hp).elim (nonempty p) (nonempty' p)
      · rw [complete] at tiles
        exact .cons tiles tiles'

/-! ### The summary is a function of the calls -/

/-- The counters and the list of the summary agree with the calls made so far. -/
structure Accounts (s : AcquireState δ ω η κ) : Prop where
  acquired : s.summary.acquiredBytes.toNat = total (keptPieces s.calls)
  unreadable : s.summary.unreadableBytes.toNat = total (lostPieces s.calls)
  spans : spanIntervals s.summary.unreadable = coalesce (lostPieces s.calls)

theorem Accounts.of_quiet (h : Accounts s) (summary : t.summary = s.summary) {new : List Call}
    (calls : t.calls = s.calls ++ new) (quiet : fragments new = []) : Accounts t := by
  have kept : keptPieces new = [] := by rw [keptPieces, quiet]; rfl
  have lost : lostPieces new = [] := by rw [lostPieces, quiet]; rfl
  refine ⟨?_, ?_, ?_⟩ <;> rw [summary, calls] <;> simp [kept, lost, h.acquired, h.unreadable,
    h.spans]

/-- `AddUnreadable` coalesces over unbounded numbers as long as the total length fits. -/
theorem pushUnreadable_intervals {spans : List UnreadableSpan} {start length : UInt64}
    {status : Int32} (fits : total (spanIntervals spans) + length.toNat < 2 ^ 64) :
    spanIntervals (pushUnreadable spans start length status) =
      push (spanIntervals spans) ⟨start.toNat, length.toNat, status⟩ := by
  rcases List.eq_nil_or_concat' spans with rfl | ⟨before, previous, rfl⟩
  · rfl
  have bound : previous.length.toNat + length.toNat < 2 ^ 64 := by
    simp only [spanIntervals, List.map_append, List.map_cons, List.map_nil, total_append,
      total_cons, UnreadableSpan.interval] at fits
    omega
  have touches : extendsSpan previous start length status = true ↔
      previous.interval.stop = start.toNat ∧ previous.interval.label = status := by
    change _ ↔ previous.start.toNat + previous.length.toNat = start.toNat ∧
      previous.status = status
    simp only [extendsSpan, Bool.and_eq_true, decide_eq_true_eq, beq_iff_eq, uint64Max,
      Word.le_max_sub_iff, Nat.add_comm length.toNat]
    constructor
    · rintro ⟨⟨⟨within, stop⟩, same⟩, -⟩
      rw [← stop, Word.toNat_add_of_lt (by omega)]
      exact ⟨rfl, same⟩
    · rintro ⟨stop, same⟩
      have := start.toNat_lt
      refine ⟨⟨⟨by omega, ?_⟩, same⟩, by omega⟩
      rw [← UInt64.toNat_inj, Word.toNat_add_of_lt (by omega), stop]
  simp only [pushUnreadable, push, spanIntervals, List.map_append, List.map_cons, List.map_nil,
    List.getLast?_concat, List.dropLast_concat]
  by_cases touch : extendsSpan previous start length status = true
  · rw [if_pos touch, if_pos (touches.mp touch)]
    simp [UnreadableSpan.interval, Word.toNat_add_of_lt bound]
  · rw [if_neg touch, if_neg (mt touches.mpr touch)]
    simp [UnreadableSpan.interval]

theorem Step.accounts (step : Step C run s t) (h : Accounts s) : Accounts t := by
  cases step with
  | probe => exact h.of_quiet rfl rfl rfl
  | @keep requested r request answers copied can =>
      have quiet : Accounts (afterRequest C run requested s) := h.of_quiet rfl rfl rfl
      have kept : keptPieces (keepCalls r (afterRequest C run requested s)) =
          [⟨r.physicalAddress.toNat, r.data.length, ()⟩] := by
        rw [keptPieces, fragments_keepCalls]; rfl
      have lost : lostPieces (keepCalls r (afterRequest C run requested s)) = [] := by
        rw [lostPieces, fragments_keepCalls]; rfl
      refine ⟨?_, ?_, ?_⟩ <;> rw [afterKeep_calls]
      · rw [keptPieces_append, total_append, ← quiet.acquired, kept, total_cons, total_nil,
          answers.valid.data_length]
        have fits := can.acquired_fits
        change (_ + r.copied.toUInt64).toNat = _
        rw [Word.toNat_add_of_lt (by rwa [UInt32.toNat_toUInt64]), UInt32.toNat_toUInt64]
        rfl
      · rw [lostPieces_append, lost, List.append_nil]
        exact quiet.unreadable
      · rw [lostPieces_append, lost, List.append_nil]
        exact quiet.spans
  | @skip requested r request page answers copied can =>
      have quiet : Accounts (afterRequest C run requested s) := h.of_quiet rfl rfl rfl
      have fits := can.unreadable_fits
      have sum : total (spanIntervals s.summary.unreadable) = s.summary.unreadableBytes.toNat := by
        rw [h.spans, total_coalesce, h.unreadable]
      refine ⟨?_, ?_, ?_⟩
      · change _ = total (keptPieces (_ ++ _))
        rw [keptPieces_append, total_append]
        exact quiet.acquired
      · change (_ + _ : UInt64).toNat = total (lostPieces (_ ++ _))
        rw [lostPieces_append, total_append, ← quiet.unreadable, Word.toNat_add_of_lt fits]
        rfl
      · change spanIntervals (pushUnreadable _ _ _ _) = coalesce (lostPieces (_ ++ _))
        rw [lostPieces_append, pushUnreadable_intervals]
        · change _ = coalesce (_ ++ [_])
          rw [coalesce_snoc, ← quiet.spans]
        · exact sum ▸ fits

theorem accounts_of_steps (steps : ReflTransGen (Step C run) s t) (h : Accounts s) :
    Accounts t := by
  induction steps with
  | refl => exact h
  | tail _ step ih => exact step.accounts ih

theorem Traversal.accounts {runs : List MemoryRun} (traversal : Traversal C runs s t)
    (h : Accounts s) : Accounts t := by
  induction traversal with
  | nil => exact h
  | cons valid steps complete after ih =>
      exact ih (accounts_of_steps steps ⟨h.acquired, h.unreadable, h.spans⟩)

/-! ### The result of a completed run -/

/-- The addresses passed to `WriteAt`, in order. -/
def writtenAddresses (calls : List Call) : List Nat :=
  calls.flatMap fun
    | .writeAt offset data => List.range' offset.toNat data.length
    | _ => []

theorem writtenAddresses_eq (calls : List Call) :
    writtenAddresses calls = addresses (keptPieces calls) := by
  induction calls with
  | nil => rfl
  | cons call calls ih =>
      rw [← List.singleton_append, keptPieces_append, addresses, List.flatMap_append]
      change _ ++ writtenAddresses calls = _ ++ addresses (keptPieces calls)
      rw [ih]
      cases call <;> simp [keptPieces, fragments, Call.fragment, select, Piece.relabel,
        Outcome.isKept]

theorem mem_writtenAddresses {calls : List Call} {p : Nat} :
    p ∈ writtenAddresses calls ↔ ∃ address data, .writeAt address data ∈ calls ∧
      address.toNat ≤ p ∧ p < address.toNat + data.length := by
  rw [writtenAddresses, List.mem_flatMap]
  constructor
  · rintro ⟨call, member, inside⟩
    cases call with
    | writeAt address data => exact ⟨address, data, member, List.mem_range'_1.mp inside⟩
    | read | update | updateZeros | addUnreadable | endSession => cases inside
  · rintro ⟨address, data, member, inside⟩
    exact ⟨_, member, List.mem_range'_1.mpr inside⟩

/-! ### What the device returned -/

/-- The addresses of the bytes that a reply holds. -/
def replyAddresses : Option ReadResult → List Nat
  | some r => List.range' r.physicalAddress.toNat r.data.length
  | none => []

/-- The addresses of the bytes in the replies of the device, in order. -/
def returnedAddresses (calls : List Call) : List Nat :=
  calls.flatMap fun
    | .read _ _ _ reply => replyAddresses reply
    | _ => []

@[simp] theorem writtenAddresses_append (xs ys : List Call) :
    writtenAddresses (xs ++ ys) = writtenAddresses xs ++ writtenAddresses ys :=
  List.flatMap_append

@[simp] theorem returnedAddresses_append (xs ys : List Call) :
    returnedAddresses (xs ++ ys) = returnedAddresses xs ++ returnedAddresses ys :=
  List.flatMap_append

/-- What `f` makes of the address and the bytes of each reply. -/
def replies {β : Type} (f : UInt64 → List Byte → List β) (calls : List Call) : List β :=
  calls.flatMap fun
    | .read _ _ _ (some r) => f r.physicalAddress r.data
    | _ => []

/-- What `f` makes of the address and the bytes of each write. -/
def writes {β : Type} (f : UInt64 → List Byte → List β) (calls : List Call) : List β :=
  calls.flatMap fun
    | .writeAt offset data => f offset data
    | _ => []

section Transfer

variable {β : Type} {f : UInt64 → List Byte → List β}

@[simp] theorem replies_append (xs ys : List Call) :
    replies f (xs ++ ys) = replies f xs ++ replies f ys :=
  List.flatMap_append

@[simp] theorem writes_append (xs ys : List Call) :
    writes f (xs ++ ys) = writes f xs ++ writes f ys :=
  List.flatMap_append

theorem transfer_gapCalls (next : UInt64) (s : AcquireState δ ω η κ) :
    writes f (gapCalls next s) = [] ∧ replies f (gapCalls next s) = [] := by
  unfold gapCalls
  split <;> exact ⟨rfl, rfl⟩

theorem replies_request {requested : UInt32} {r : ReadResult}
    (answers : Answers C run requested s r) :
    replies f [requestCall C run requested s] = f r.physicalAddress r.data := by
  rw [requestCall, answers.reply]
  exact List.append_nil _

/-- The engine passes on what the device returned, and nothing else. -/
theorem Step.transfer (none : ∀ address, f address [] = []) (step : Step C run s t)
    (h : replies f s.calls = writes f s.calls) : replies f t.calls = writes f t.calls := by
  have asked : ∀ requested, writes f (afterRequest C run requested s).calls =
      writes f s.calls := by
    intro requested
    rw [afterRequest_calls, writes_append]
    exact List.append_nil _
  have empty : ∀ {requested r}, Answers C run requested s r → r.copied = 0 →
      replies f (afterRequest C run requested s).calls = replies f s.calls := by
    intro requested r answers copied
    have blank : r.data = [] := by
      rw [← List.length_eq_zero_iff, answers.valid.data_length, copied]
      rfl
    rw [afterRequest_calls, replies_append, replies_request answers, blank, none]
    exact List.append_nil _
  cases step with
  | probe request answers copied => rw [empty answers copied, asked, h]
  | @keep requested r request answers copied can =>
      obtain ⟨written, returned⟩ := transfer_gapCalls (f := f) r.physicalAddress
        (afterRequest C run requested s)
      have kept : writes f (keepCalls r (afterRequest C run requested s)) =
          f r.physicalAddress r.data := by
        rw [keepCalls, writes_append, writes_append, written]
        simp [writes]
      have silent : replies f (keepCalls r (afterRequest C run requested s)) = [] := by
        rw [keepCalls, replies_append, replies_append, returned]
        rfl
      rw [afterKeep_calls, replies_append, writes_append, asked, kept, silent,
        afterRequest_calls, replies_append, replies_request answers, h, List.append_nil]
  | @skip requested r request page answers copied can =>
      show replies f ((afterRequest C run requested s).calls ++ [_]) =
        writes f ((afterRequest C run requested s).calls ++ [_])
      rw [replies_append, writes_append, empty answers copied, asked, h]
      rfl

theorem Traversal.transfer (none : ∀ address, f address [] = []) {runs : List MemoryRun}
    (traversal : Traversal C runs s t) (h : replies f s.calls = writes f s.calls) :
    replies f t.calls = writes f t.calls := by
  induction traversal with
  | nil => exact h
  | cons valid steps complete after ih =>
      refine ih ?_
      clear complete after ih
      induction steps with
      | refl => exact h
      | tail _ step ih => exact step.transfer none ih

end Transfer

/-- Addresses that follow each other. -/
def spread (address : UInt64) (data : List Byte) : List Nat :=
  List.range' address.toNat data.length

theorem returnedAddresses_eq (calls : List Call) : returnedAddresses calls = replies spread calls := by
  refine congrArg (List.flatMap · calls) (funext fun call => ?_)
  cases call with
  | read index offset length reply => cases reply <;> rfl
  | writeAt | update | updateZeros | addUnreadable | endSession => rfl

/-- `summary` and the calls account for every address of `runs` exactly once. -/
structure Partitioned (runs : List MemoryRun) (calls : List Call)
    (summary : AcquisitionSummary) : Prop where
  disjoint : Disjoint (writtenAddresses calls).toFinset (cells (spanIntervals summary.unreadable))
  union : (writtenAddresses calls).toFinset ∪ cells (spanIntervals summary.unreadable) =
    cells (runIntervals runs)
  once : (writtenAddresses calls).Nodup
  spans_nonempty : ∀ span ∈ summary.unreadable, 0 < span.length.toNat
  spans_increasing : summary.unreadable.Pairwise fun a b => a.start.toNat < b.start.toNat
  spans_disjoint : summary.unreadable.Pairwise fun a b =>
    Disjoint a.interval.cells b.interval.cells
  unreadableBytes : summary.unreadableBytes.toNat =
    (summary.unreadable.map fun span => span.length.toNat).sum
  acquiredBytes : summary.acquiredBytes.toNat = (writtenAddresses calls).toFinset.card
  physicalBytes : summary.acquiredBytes.toNat + summary.unreadableBytes.toNat =
    summary.physicalBytes.toNat

/-- The runs are in increasing order, disjoint, and add up to the reported total. That
they are nonempty and do not wrap is checked by the engine. -/
structure Topology.Frozen (topology : Topology) : Prop where
  ordered : Ordered (runIntervals topology.runs)
  total : total (runIntervals topology.runs) = topology.totalBytes.toNat

/-- Calls that tile ordered runs, with a summary that agrees with them. -/
theorem partitioned_of_tiles {runs : List MemoryRun} {calls : List Call}
    {summary : AcquisitionSummary} (ordered : Ordered (runIntervals runs))
    (tiles : TilesEach (runIntervals runs) (fragments calls))
    (nonempty : ∀ p ∈ fragments calls, 0 < p.length)
    (acquired : summary.acquiredBytes.toNat = total (keptPieces calls))
    (unreadable : summary.unreadableBytes.toNat = total (lostPieces calls))
    (spans : spanIntervals summary.unreadable = coalesce (lostPieces calls))
    (sum : total (runIntervals runs) = summary.physicalBytes.toNat) :
    Partitioned runs calls summary := by
  have fragmentsOrdered := tiles.ordered ordered
  have lostNonempty : ∀ p ∈ lostPieces calls, 0 < p.length := by
    intro p hp
    obtain ⟨q, hq, -, -, length⟩ := mem_select.mp hp
    exact length ▸ nonempty q hq
  have normal : Normal (spanIntervals summary.unreadable) :=
    spans ▸ normal_coalesce fragmentsOrdered.select lostNonempty
  have positive : ∀ span ∈ summary.unreadable, 0 < span.length.toNat := fun span hspan =>
    normal.nonempty span.interval (List.mem_map_of_mem hspan)
  have before : summary.unreadable.Pairwise fun a b => a.interval.stop ≤ b.interval.start :=
    List.pairwise_map.mp normal.ordered
  have keptOrdered : Ordered (keptPieces calls) := fragmentsOrdered.select
  refine ⟨?_, ?_, ?_, positive, ?_, ?_, ?_, ?_, ?_⟩
  · rw [writtenAddresses_eq, toFinset_addresses, spans, cells_coalesce]
    exact fragmentsOrdered.disjoint_select Outcome.complement
  · rw [writtenAddresses_eq, toFinset_addresses, spans, cells_coalesce, ← tiles.cells_eq]
    exact cells_select_union Outcome.complement _
  · rw [writtenAddresses_eq]
    exact keptOrdered.nodup_addresses
  · refine before.imp_of_mem fun {a b} ha _ le => ?_
    exact Nat.lt_of_lt_of_le (Nat.lt_add_of_pos_right (positive a ha)) le
  · refine before.imp fun {a b} le => Finset.disjoint_left.mpr fun n ha hb => ?_
    have := Piece.mem_cells.mp ha
    have := Piece.mem_cells.mp hb
    omega
  · have := total_coalesce (lostPieces calls)
    rw [← spans, ← unreadable, total, spanIntervals, List.map_map] at this
    exact this.symm
  · rw [writtenAddresses_eq, toFinset_addresses, keptOrdered.card_cells, acquired]
  · rw [acquired, unreadable, keptPieces, lostPieces, total_select_add Outcome.complement,
      tiles.total_eq, sum]

/-- The state in which the tail is hashed: every run has been traversed. -/
theorem Completed.accounts {topology : Topology} {m : AcquireState δ ω η κ} {changed : Bool}
    (completed : Completed C s topology m changed t) (calls : s.calls = []) :
    Accounts m ∧ (∀ p ∈ fragments m.calls, 0 < p.length) ∧
      TilesEach (runIntervals topology.runs) (fragments m.calls) := by
  obtain ⟨new, added, nonempty, tiles⟩ := completed.traversal.tiles
  have start : Accounts (afterQuery C topology s) := by
    have none : (afterQuery C topology s).calls = [] := calls
    refine ⟨?_, ?_, ?_⟩ <;> rw [none] <;> rfl
  have all : m.calls = new := by
    rw [added]
    change s.calls ++ new = new
    rw [calls, List.nil_append]
  rw [all]
  exact ⟨completed.traversal.accounts start, nonempty, tiles⟩

theorem Completed.calls {topology : Topology} {m : AcquireState δ ω η κ} {changed : Bool}
    (completed : Completed C s topology m changed t) :
    t.calls = m.calls ++ (gapCalls m.summary.logicalSize m ++ [.endSession]) := by
  rw [completed.final, ← List.append_assoc]
  rfl

/-- After a completed run the writes are the replies of the device. -/
theorem Completed.transfer {β : Type} {f : UInt64 → List Byte → List β}
    (none : ∀ address, f address [] = []) {topology : Topology} {m : AcquireState δ ω η κ}
    {changed : Bool} (completed : Completed C s topology m changed t) (calls : s.calls = []) :
    replies f t.calls = writes f t.calls := by
  have start : replies f (afterQuery C topology s).calls =
      writes f (afterQuery C topology s).calls := by
    show replies f s.calls = writes f s.calls
    rw [calls]
    rfl
  obtain ⟨written, returned⟩ := transfer_gapCalls (f := f) m.summary.logicalSize m
  rw [completed.calls]
  simp only [replies_append, writes_append, written, returned,
    completed.traversal.transfer none start]
  rfl

theorem Completed.returned {topology : Topology} {m : AcquireState δ ω η κ} {changed : Bool}
    (completed : Completed C s topology m changed t) (calls : s.calls = []) :
    returnedAddresses t.calls = writtenAddresses t.calls := by
  rw [returnedAddresses_eq]
  exact completed.transfer (fun _ => rfl) calls

theorem Completed.fragments {topology : Topology} {m : AcquireState δ ω η κ} {changed : Bool}
    (completed : Completed C s topology m changed t) : fragments t.calls = fragments m.calls := by
  rw [completed.calls, fragments_append, fragments_append, fragments_gapCalls]
  exact List.append_nil _

theorem Completed.partitioned {topology : Topology} {m : AcquireState δ ω η κ} {changed : Bool}
    (completed : Completed C s topology m changed t) (calls : s.calls = [])
    (frozen : topology.Frozen) : Partitioned topology.runs t.calls t.summary := by
  obtain ⟨accounts, nonempty, tiles⟩ := completed.accounts calls
  have same := completed.fragments
  have kept : keptPieces t.calls = keptPieces m.calls := by rw [keptPieces, same]; rfl
  have lost : lostPieces t.calls = lostPieces m.calls := by rw [lostPieces, same]; rfl
  have fixed := completed.traversal.sameTopology
  refine partitioned_of_tiles frozen.ordered (same ▸ tiles) (same ▸ nonempty) ?_ ?_ ?_ ?_
  · rw [kept, completed.final]
    exact accounts.acquired
  · rw [lost, completed.final]
    exact accounts.unreadable
  · rw [lost, completed.final]
    exact accounts.spans
  · rw [frozen.total, completed.final]
    exact congrArg UInt64.toNat fixed.physicalBytes.symm

/-- A completed `Acquire` partitions the frozen runs into written and unreadable
addresses. -/
theorem acquire_partitions (C : Collaborators δ ω η κ) (device : δ) (writer : ω) (hasher : η)
    (environment : κ) (topology : Topology)
    (asked : (C.device.query device).1 = some topology) (frozen : topology.Frozen)
    (completed : returned (acquire C (.start device writer hasher environment)) = true) :
    Partitioned topology.runs
      (final (acquire C (.start device writer hasher environment))).calls
      (final (acquire C (.start device writer hasher environment))).summary := by
  obtain ⟨topology', m, changed, completed⟩ := acquire_completed C completed
  obtain rfl : topology' = topology := Option.some.inj (completed.asked.symm.trans asked)
  exact completed.partitioned rfl frozen

/-- A run whose second page is unreadable is partitioned at the page boundary. -/
theorem acquire_partitions_faulty_page :
    Partitioned mockFaultyPage.mockRuns
      (final (acquire mockCollaborators (.start mockFaultyPage {} {} ()))).calls
      (final (acquire mockCollaborators (.start mockFaultyPage {} {} ()))).summary :=
  acquire_partitions mockCollaborators mockFaultyPage {} {} ()
    ⟨0x2008, 16, [⟨0, 0x1FF8, 16⟩]⟩ rfl
    ⟨List.pairwise_singleton _ _, rfl⟩ (by decide +kernel)

end PhylaRam
