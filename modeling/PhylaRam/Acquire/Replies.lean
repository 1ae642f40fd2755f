import PhylaRam.Acquire.Partition

/-!
# Replies and unreadable spans

Every byte of a frozen run is resolved by the last reply to a request that asked for it: the
reply holds the byte, or the byte is recorded as unreadable with the status of this reply. So
the spans of a summary can be told from the replies of the device alone.
-/

namespace PhylaRam

open Program Relation Interval

/-! ### The last reply -/

/-- The replies of the device, in order. -/
def deviceReplies (calls : List Call) : List ReadResult :=
  calls.filterMap fun
    | .read _ _ _ reply => reply
    | _ => none

/-- The reply is to a request for the byte at `n`. -/
def ReadResult.Asks (r : ReadResult) (n : Nat) : Prop :=
  r.physicalAddress.toNat ≤ n ∧ n < r.physicalAddress.toNat + r.requested.toNat

instance (r : ReadResult) (n : Nat) : Decidable (r.Asks n) := inferInstanceAs (Decidable (_ ∧ _))

/-- The last reply to a request for the byte at `n`. -/
def lastReply (replies : List ReadResult) (n : Nat) : Option ReadResult :=
  replies.reverse.find? fun r => r.Asks n

/-- The last reply to a request for the byte at `n` ends before it, with this status. -/
def Withheld (replies : List ReadResult) (n : Nat) (status : Int32) : Prop :=
  ∃ r, lastReply replies n = some r ∧ r.physicalAddress.toNat + r.copied.toNat ≤ n ∧
    r.copyStatus = status

@[simp] theorem deviceReplies_append (xs ys : List Call) :
    deviceReplies (xs ++ ys) = deviceReplies xs ++ deviceReplies ys := List.filterMap_append

theorem deviceReplies_gapCalls {δ ω η κ : Type} (next : UInt64) (s : AcquireState δ ω η κ) :
    deviceReplies (gapCalls next s) = [] := by
  unfold gapCalls
  split <;> rfl

section Last

variable {replies : List ReadResult} {r : ReadResult} {n : Nat} {status : Int32}

theorem withheld_snoc_of_asks (asks : r.Asks n) :
    Withheld (replies ++ [r]) n status ↔
      r.physicalAddress.toNat + r.copied.toNat ≤ n ∧ r.copyStatus = status := by
  have last : lastReply (replies ++ [r]) n = some r := by
    rw [lastReply, List.reverse_append]
    exact List.find?_cons_of_pos (decide_eq_true asks)
  rw [Withheld, last]
  constructor
  · rintro ⟨r', same, before, status'⟩
    obtain rfl := Option.some.inj same
    exact ⟨before, status'⟩
  · exact fun h => ⟨r, rfl, h⟩

theorem withheld_snoc_of_not_asks (not : ¬r.Asks n) :
    Withheld (replies ++ [r]) n status ↔ Withheld replies n status := by
  have last : lastReply (replies ++ [r]) n = lastReply replies n := by
    rw [lastReply, List.reverse_append]
    exact List.find?_cons_of_neg (by simpa using not)
  rw [Withheld, last]
  rfl

theorem Withheld.exists_asks (h : Withheld replies n status) : ∃ r ∈ replies, r.Asks n := by
  obtain ⟨r, last, -⟩ := h
  rw [lastReply] at last
  exact ⟨r, List.mem_reverse.mp (List.mem_of_find?_eq_some last),
    by simpa using List.find?_some last⟩

end Last

/-! ### Resolved bytes -/

/-- Below the frontier the recorded intervals are what the replies have withheld, and no byte
from the limit on has been asked for. -/
structure Resolved (calls : List Call) (frontier limit : Nat) : Prop where
  agrees : ∀ n < frontier, ∀ status,
    Labels (lostPieces calls) n status ↔ Withheld (deviceReplies calls) n status
  recorded : ∀ p ∈ lostPieces calls, p.stop ≤ frontier
  asked : ∀ r ∈ deviceReplies calls, r.physicalAddress.toNat + r.requested.toNat ≤ limit

section Calls

variable {calls new : List Call} {frontier limit next : Nat}

theorem Resolved.nil : Resolved [] 0 0 :=
  ⟨fun _ below => (Nat.not_lt_zero _ below).elim, fun _ member => absurd member List.not_mem_nil,
    fun _ member => absurd member List.not_mem_nil⟩

/-- Nothing is recorded or asked for between two runs. -/
theorem Resolved.advance (h : Resolved calls frontier frontier) (start : frontier ≤ next)
    (stop : next ≤ limit) : Resolved calls next limit := by
  refine ⟨fun n below status => ?_, fun p member => (h.recorded p member).trans start,
    fun r member => (h.asked r member).trans (start.trans stop)⟩
  by_cases settled : n < frontier
  · exact h.agrees n settled status
  · constructor
    · rintro ⟨p, member, inside, -⟩
      have recorded := h.recorded p member
      rw [Piece.mem_cells] at inside
      omega
    · intro withheld
      obtain ⟨r, member, -, asks⟩ := withheld.exists_asks
      have asked := h.asked r member
      omega

/-- One more reply resolves the bytes up to the next frontier. -/
theorem Resolved.extend (h : Resolved calls frontier limit) {r : ReadResult}
    (replies : deviceReplies new = [r]) (address : r.physicalAddress.toNat = frontier)
    (within : frontier + r.requested.toNat ≤ limit) (start : frontier ≤ next)
    (stop : next ≤ frontier + r.requested.toNat)
    (lost : ∀ p ∈ lostPieces new, frontier ≤ p.start ∧ p.stop ≤ next)
    (agrees : ∀ n, frontier ≤ n → n < next → ∀ status, Labels (lostPieces new) n status ↔
      frontier + r.copied.toNat ≤ n ∧ r.copyStatus = status) :
    Resolved (calls ++ new) next limit := by
  refine ⟨fun n below status => ?_, fun p member => ?_, fun r' member => ?_⟩
  · rw [lostPieces_append, labels_append, deviceReplies_append, replies]
    by_cases settled : n < frontier
    · have none : ¬Labels (lostPieces new) n status := by
        rintro ⟨p, member, inside, -⟩
        have bounds := lost p member
        rw [Piece.mem_cells] at inside
        omega
      have not : ¬r.Asks n := fun asks => by
        have := asks.1
        omega
      rw [or_iff_left none, withheld_snoc_of_not_asks not]
      exact h.agrees n settled status
    · have none : ¬Labels (lostPieces calls) n status := by
        rintro ⟨p, member, inside, -⟩
        have recorded := h.recorded p member
        rw [Piece.mem_cells] at inside
        omega
      have asks : r.Asks n := ⟨by omega, by omega⟩
      rw [or_iff_right none, withheld_snoc_of_asks asks, address]
      exact agrees n (by omega) below status
  · rw [lostPieces_append] at member
    cases List.mem_append.mp member with
    | inl old => exact (h.recorded p old).trans start
    | inr new => exact (lost p new).2
  · rw [deviceReplies_append, replies] at member
    cases List.mem_append.mp member with
    | inl old => exact h.asked r' old
    | inr new =>
        obtain rfl := List.mem_singleton.mp new
        rw [address]
        exact within

end Calls

/-! ### The steps of the engine -/

variable {δ ω η κ : Type} {C : Collaborators δ ω η κ} {run : MemoryRun}
  {s t : AcquireState δ ω η κ}

theorem deviceReplies_request {requested : UInt32} {r : ReadResult}
    (answers : Answers C run requested s r) :
    deviceReplies [requestCall C run requested s] = [r] := by
  rw [requestCall, answers.reply]
  rfl

theorem deviceReplies_keepCalls (r : ReadResult) (s : AcquireState δ ω η κ) :
    deviceReplies (keepCalls r s) = [] := by
  rw [keepCalls, deviceReplies_append, deviceReplies_append, deviceReplies_gapCalls]
  rfl

/-- A reply resolves the bytes that it holds, or the page that it withholds. -/
theorem Step.resolved (valid : run.Valid) (start : s.offsetWithinRun.toNat ≤ run.length.toNat)
    (step : Step C run s t)
    (h : Resolved s.calls (run.base.toNat + s.offsetWithinRun.toNat)
      (run.base.toNat + run.length.toNat)) :
    Resolved t.calls (run.base.toNat + t.offsetWithinRun.toNat)
      (run.base.toNat + run.length.toNat) := by
  have placed := address_toNat valid start
  have asked : ∀ {requested r}, Request run s requested → Answers C run requested s r →
      r.physicalAddress.toNat = run.base.toNat + s.offsetWithinRun.toNat ∧
        r.requested.toNat = requested.toNat ∧
        run.base.toNat + s.offsetWithinRun.toNat + r.requested.toNat ≤
          run.base.toNat + run.length.toNat := by
    intro requested r request answers
    have within := request.within
    have same := congrArg UInt32.toNat answers.valid.requested_eq
    refine ⟨(congrArg UInt64.toNat answers.valid.address_eq).trans placed, same, ?_⟩
    omega
  cases step with
  | @probe requested r request answers copied =>
      obtain ⟨address, -, within⟩ := asked request answers
      rw [afterRequest_calls]
      refine h.extend (deviceReplies_request answers) address within (Nat.le_refl _)
        (Nat.le_add_right _ _) (fun p member => absurd member List.not_mem_nil) fun n low high => ?_
      exact absurd high (Nat.not_lt.mpr low)
  | @keep requested r request answers copied can =>
      obtain ⟨address, same, within⟩ := asked request answers
      have moved : (afterKeep C r (afterRequest C run requested s)).offsetWithinRun.toNat =
          s.offsetWithinRun.toNat + r.copied.toNat := afterKeep_offset can
      have short := answers.valid.copied_le
      have lost : lostPieces (requestCall C run requested s ::
          keepCalls r (afterRequest C run requested s)) = [] := by
        have kept : fragments (requestCall C run requested s ::
            keepCalls r (afterRequest C run requested s)) =
            fragments (keepCalls r (afterRequest C run requested s)) := rfl
        rw [lostPieces, kept, fragments_keepCalls]
        rfl
      have calls : (afterKeep C r (afterRequest C run requested s)).calls =
          s.calls ++ (requestCall C run requested s ::
            keepCalls r (afterRequest C run requested s)) := by
        rw [afterKeep_calls, afterRequest_calls, List.append_assoc]
        rfl
      rw [calls, moved]
      refine h.extend ?_ address within (by omega) (by omega) ?_ ?_
      · rw [← List.singleton_append, deviceReplies_append, deviceReplies_request answers,
          deviceReplies_keepCalls]
        rfl
      · rw [lost]
        exact fun p member => absurd member List.not_mem_nil
      · intro n low high status
        rw [lost]
        constructor
        · rintro ⟨p, member, -⟩
          cases member
        · rintro ⟨beyond, -⟩
          omega
  | @skip requested r request page answers copied can =>
      obtain ⟨address, same, within⟩ := asked request answers
      have moved : (afterSkip (run.base + s.offsetWithinRun) requested.toUInt64 r.copyStatus
          (afterRequest C run requested s)).offsetWithinRun.toNat =
          s.offsetWithinRun.toNat + requested.toNat :=
        (afterSkip_offset can).trans (congrArg _ (UInt32.toNat_toUInt64 _))
      have lost : lostPieces [requestCall C run requested s, .addUnreadable
          (run.base + s.offsetWithinRun) requested.toUInt64 r.copyStatus] =
          [⟨run.base.toNat + s.offsetWithinRun.toNat, requested.toNat, r.copyStatus⟩] := by
        rw [← placed, ← UInt32.toNat_toUInt64]
        rfl
      have calls : (afterSkip (run.base + s.offsetWithinRun) requested.toUInt64 r.copyStatus
          (afterRequest C run requested s)).calls = s.calls ++ [requestCall C run requested s,
            .addUnreadable (run.base + s.offsetWithinRun) requested.toUInt64 r.copyStatus] :=
        List.append_assoc _ _ _
      rw [calls, moved]
      refine h.extend ?_ address within (by omega) (by omega) ?_ ?_
      · rw [← List.singleton_append, deviceReplies_append, deviceReplies_request answers]
        rfl
      · rw [lost]
        intro p member
        obtain rfl := List.mem_singleton.mp member
        exact ⟨Nat.le_refl _, Nat.le_of_eq (Nat.add_assoc _ _ _)⟩
      · intro n low high status
        rw [lost, labels_singleton, Piece.mem_cells, Piece.stop, copied]
        refine and_congr_left fun _ => ⟨fun inside => inside.1, fun beyond => ⟨beyond, ?_⟩⟩
        show n < run.base.toNat + s.offsetWithinRun.toNat + requested.toNat
        omega

theorem resolved_of_steps (valid : run.Valid)
    (start : s.offsetWithinRun.toNat ≤ run.length.toNat) (steps : ReflTransGen (Step C run) s t)
    (h : Resolved s.calls (run.base.toNat + s.offsetWithinRun.toNat)
      (run.base.toNat + run.length.toNat)) :
    Resolved t.calls (run.base.toNat + t.offsetWithinRun.toNat)
      (run.base.toNat + run.length.toNat) := by
  induction steps with
  | refl => exact h
  | tail steps step ih => exact step.resolved valid (Step.offset_le_of_steps steps start) ih

/-- The runs are resolved one after the other. -/
theorem Traversal.resolved {runs : List MemoryRun} (traversal : Traversal C runs s t)
    (ordered : Ordered (runIntervals runs)) {frontier : Nat}
    (before : ∀ run ∈ runs, frontier ≤ run.base.toNat) (h : Resolved s.calls frontier frontier) :
    ∃ last, Resolved t.calls last last ∧ frontier ≤ last ∧
      ∀ run ∈ runs, run.base.toNat + run.length.toNat ≤ last := by
  induction traversal generalizing frontier with
  | nil => exact ⟨frontier, h, Nat.le_refl _, fun _ member => absurd member List.not_mem_nil⟩
  | @cons run rest s t u valid steps complete after ih =>
      obtain ⟨follow, ordered⟩ := ordered_cons.mp ordered
      have begun : Resolved (atRunStart s).calls (run.base.toNat + 0)
          (run.base.toNat + run.length.toNat) :=
        h.advance (before run List.mem_cons_self) (Nat.le_add_right _ _)
      have ended := resolved_of_steps valid (Nat.zero_le _) steps begun
      rw [complete] at ended
      obtain ⟨last, resolved, le, stops⟩ := ih ordered
        (fun other member => follow _ (List.mem_map_of_mem member)) ended
      have first := before run List.mem_cons_self
      have stop : run.interval.stop = run.base.toNat + run.length.toNat := rfl
      exact ⟨last, resolved, by omega, List.forall_mem_cons.mpr ⟨le, stops⟩⟩

/-- After a completed run, a byte is recorded as unreadable with a status if and only if the last
reply to a request for it withholds it with this status. -/
theorem Completed.withheld {topology : Topology} {m : AcquireState δ ω η κ} {changed : Bool}
    (completed : Completed C s topology m changed t) (calls : s.calls = [])
    (ordered : Ordered (runIntervals topology.runs)) {n : Nat}
    (inside : n ∈ cells (runIntervals topology.runs)) (status : Int32) :
    Labels (lostPieces t.calls) n status ↔ Withheld (deviceReplies t.calls) n status := by
  have start : Resolved (afterQuery C topology s).calls 0 0 := by
    show Resolved s.calls 0 0
    rw [calls]
    exact .nil
  obtain ⟨last, resolved, -, stops⟩ :=
    completed.traversal.resolved ordered (fun _ _ => Nat.zero_le _) start
  obtain ⟨p, member, within⟩ := mem_cells.mp inside
  obtain ⟨run, among, rfl⟩ := List.mem_map.mp member
  have below : n < last :=
    Nat.lt_of_lt_of_le (Piece.mem_cells.mp within).2 (stops run among)
  have lost : lostPieces t.calls = lostPieces m.calls := by
    rw [lostPieces, completed.fragments]
    rfl
  have replies : deviceReplies t.calls = deviceReplies m.calls := by
    rw [completed.calls, deviceReplies_append, deviceReplies_append, deviceReplies_gapCalls]
    exact List.append_nil _
  rw [lost, replies]
  exact resolved.agrees n below status

end PhylaRam
