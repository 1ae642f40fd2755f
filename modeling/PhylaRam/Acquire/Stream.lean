import PhylaRam.Acquire.Image
import PhylaRam.Acquire.Partition
import PhylaRam.Library.Gaps

/-!
# The captured bytes as a stream

A writer that ignores the offsets sees the captured bytes one after the other. The calls of a
run also say where bytes are missing: each unreadable span is a gap in that stream. For calls
that tile the runs, the stream with its gaps is the image at the addresses of the runs.
-/

namespace PhylaRam

open Interval Image Gaps

/-- The bytes in the replies of the device, in order. -/
def returnedBytes (calls : List Call) : List Byte := replies (fun _ data => data) calls

/-- The bytes passed to `WriteAt`, in order. -/
def writtenBytes (calls : List Call) : List Byte := writes (fun _ data => data) calls

/-- What a call contributes to the stream: bytes or a gap. -/
def Call.slots : Call → List (Option Byte)
  | .writeAt _ data => data.map some
  | .addUnreadable _ length _ => List.replicate length.toNat none
  | .read .. | .update _ | .updateZeros _ | .endSession => []

def slots (calls : List Call) : List (Option Byte) := calls.flatMap Call.slots

theorem slots_append (xs ys : List Call) : slots (xs ++ ys) = slots xs ++ slots ys :=
  List.flatMap_append

theorem writtenBytes_append (xs ys : List Call) :
    writtenBytes (xs ++ ys) = writtenBytes xs ++ writtenBytes ys := writes_append _ _

/-- The writer that ignores the offsets closes the gaps. -/
theorem reduceOption_slots (calls : List Call) :
    (slots calls).reduceOption = writtenBytes calls := by
  induction calls with
  | nil => rfl
  | cons call calls ih =>
      rw [← List.singleton_append, slots_append, List.reduceOption_append, ih,
        writtenBytes_append]
      congr 1
      cases call with
      | writeAt offset data =>
          show (data.map some ++ []).reduceOption = data ++ []
          rw [List.append_nil, List.append_nil, List.reduceOption, List.filterMap_map]
          exact List.filterMap_some
      | addUnreadable start length status =>
          show (List.replicate _ none ++ []).reduceOption = []
          rw [List.append_nil, List.reduceOption_replicate_none]
      | read | update | updateZeros | endSession => rfl

/-! ### Streams of calls that tile the runs -/

/-- Everything handled before an ordered call lies below it. -/
theorem lt_of_ordered {ps : List (Piece Outcome)} {q : Piece Outcome}
    (ordered : Ordered (ps ++ [q])) {n : Nat} (member : n ∈ addresses ps) : n < q.start := by
  obtain ⟨p, among, inside⟩ := mem_cells.mp (mem_addresses.mp member)
  have before := (ordered_append.mp ordered).2.2 p among q (List.mem_singleton_self q)
  exact Nat.lt_of_lt_of_le (Piece.mem_cells.mp inside).2 before

theorem mem_fragments_of_written {calls : List Call} {n : Nat}
    (written : n ∈ writtenAddresses calls) : n ∈ addresses (fragments calls) := by
  rw [writtenAddresses_eq, mem_addresses, keptPieces, mem_cells_select] at written
  obtain ⟨p, among, -, inside⟩ := written
  exact mem_addresses.mpr (mem_cells.mpr ⟨p, among, inside⟩)

/-- A write does not change the image below it. -/
theorem imageOf_writeAt_of_lt {calls : List Call} {offset : UInt64} {data : List Byte} {n : Nat}
    (below : n < offset.toNat) : imageOf (calls ++ [.writeAt offset data]) n = imageOf calls n := by
  rw [imageOf_append]
  exact overlay_of_lt below

theorem imageOf_writeAt {calls : List Call} {offset : UInt64} {data : List Byte} :
    (List.range' offset.toNat data.length).map (imageOf (calls ++ [.writeAt offset data])) =
      data := by
  refine List.ext_getElem (by simp) fun i inside inside' => ?_
  rw [List.getElem_map, List.getElem_range', Nat.one_mul, imageOf_append]
  exact overlay_of_mem inside'

/-- A call that does not write leaves the image. -/
theorem imageOf_other {calls : List Call} {call : Call}
    (other : ∀ offset data, call ≠ .writeAt offset data) :
    imageOf (calls ++ [call]) = imageOf calls := by
  rw [imageOf_append]
  cases call with
  | writeAt offset data => exact (other offset data rfl).elim
  | read | update | updateZeros | addUnreadable | endSession => rfl

/-- The stream is the image at the addresses that were written. -/
theorem writtenBytes_eq {calls : List Call} (ordered : Ordered (fragments calls)) :
    writtenBytes calls = (writtenAddresses calls).map (imageOf calls) := by
  induction calls using List.reverseRecOn with
  | nil => rfl
  | append_singleton calls call ih =>
      rw [fragments_append] at ordered
      have before := ih (ordered_append.mp ordered).1
      rw [writtenBytes_append, writtenAddresses_append, List.map_append]
      cases call with
      | writeAt offset data =>
          congr 1
          · rw [before]
            refine List.map_congr_left fun n written => (imageOf_writeAt_of_lt ?_).symm
            exact lt_of_ordered ordered (mem_fragments_of_written written)
          · show data ++ [] = (List.range' offset.toNat data.length ++ []).map _
            rw [List.append_nil, List.append_nil, imageOf_writeAt]
      | read | update | updateZeros | addUnreadable | endSession =>
          rw [imageOf_other fun _ _ => Call.noConfusion, before]
          simp [writtenBytes, writes, writtenAddresses]

/-- What became of one address. -/
def slotOf (calls : List Call) (n : Nat) : Option Byte :=
  if n ∈ writtenAddresses calls then some (imageOf calls n) else none

/-- A later call does not concern the addresses handled before it. -/
theorem slotOf_of_lt {calls : List Call} {call : Call}
    (ordered : Ordered (fragments calls ++ fragments [call])) {n : Nat}
    (member : n ∈ addresses (fragments calls)) : slotOf (calls ++ [call]) n = slotOf calls n := by
  cases call with
  | writeAt offset data =>
      have below : n < offset.toNat := lt_of_ordered ordered member
      have outside : n ∉ writtenAddresses [.writeAt offset data] := by
        rw [mem_writtenAddresses]
        rintro ⟨address, bytes, among, le, -⟩
        cases List.mem_singleton.mp among
        exact Nat.not_le_of_lt below le
      rw [slotOf, slotOf, imageOf_writeAt_of_lt below, writtenAddresses_append]
      simp only [List.mem_append, outside, or_false]
  | read | update | updateZeros | addUnreadable | endSession =>
      rw [slotOf, slotOf, imageOf_other fun _ _ => Call.noConfusion, writtenAddresses_append]
      simp [writtenAddresses]

/-- The stream with its gaps is the image at all addresses that were handled. -/
theorem slots_eq {calls : List Call} (ordered : Ordered (fragments calls)) :
    slots calls = (addresses (fragments calls)).map (slotOf calls) := by
  induction calls using List.reverseRecOn with
  | nil => rfl
  | append_singleton calls call ih =>
      rw [fragments_append] at ordered
      have old : (addresses (fragments calls)).map (slotOf (calls ++ [call])) =
          (addresses (fragments calls)).map (slotOf calls) :=
        List.map_congr_left fun n member => slotOf_of_lt ordered member
      rw [slots_append, fragments_append, addresses, List.flatMap_append, List.map_append,
        ← addresses, ← addresses, old, ih (ordered_append.mp ordered).1]
      congr 1
      cases call with
      | writeAt offset data =>
          show data.map some ++ [] = (List.range' offset.toNat data.length ++ []).map _
          rw [List.append_nil, List.append_nil]
          refine List.ext_getElem (by simp) fun i inside inside' => ?_
          rw [List.length_map] at inside
          have written : offset.toNat + i ∈ writtenAddresses (calls ++ [.writeAt offset data]) :=
            mem_writtenAddresses.mpr ⟨offset, data, by simp, by omega, by omega⟩
          rw [List.getElem_map, List.getElem_map, List.getElem_range', Nat.one_mul, slotOf,
            if_pos written, imageOf_append]
          exact congrArg some (overlay_of_mem inside).symm
      | addUnreadable start length status =>
          show List.replicate length.toNat none ++ [] =
            (List.range' start.toNat length.toNat ++ []).map _
          rw [List.append_nil, List.append_nil]
          refine List.ext_getElem (by simp) fun i inside inside' => ?_
          have missing : start.toNat + i ∉
              writtenAddresses (calls ++ [.addUnreadable start length status]) := by
            rw [writtenAddresses_append]
            intro written
            cases List.mem_append.mp written with
            | inl earlier =>
                have below := lt_of_ordered ordered (mem_fragments_of_written earlier)
                exact Nat.not_lt_of_le (Nat.le_add_right _ _) below
            | inr now => cases now
          rw [List.getElem_replicate, List.getElem_map, List.getElem_range', Nat.one_mul, slotOf,
            if_neg missing]
      | read | update | updateZeros | endSession => rfl

/-- Behind an address that it did not return, the device returned only zeros. -/
def ZerosBehindGaps (runs : List MemoryRun) (calls : List Call) : Prop :=
  ∀ gap ∈ cells (runIntervals runs), gap ∉ returnedAddresses calls →
    ∀ (i address : Nat) (byte : Byte), (returnedAddresses calls)[i]? = some address →
      (returnedBytes calls)[i]? = some byte → gap < address → byte = 0

/-- In an increasing list a relation of earlier to later entries holds of every smaller number
with every larger one. -/
theorem rel_of_lt {ns : List Nat} {R : Nat → Nat → Prop} (increasing : ns.Pairwise (· < ·))
    (related : ns.Pairwise R) {a b : Nat} (ha : a ∈ ns) (hb : b ∈ ns) (lt : a < b) : R a b := by
  obtain ⟨i, hi, rfl⟩ := List.getElem_of_mem ha
  obtain ⟨j, hj, rfl⟩ := List.getElem_of_mem hb
  rw [List.pairwise_iff_getElem] at increasing related
  refine related i j hi hj ?_
  by_contra not_before
  cases Nat.eq_or_lt_of_le (Nat.le_of_not_lt not_before) with
  | inl same =>
      subst same
      exact Nat.lt_irrefl _ lt
  | inr after => exact Nat.lt_asymm lt (increasing j i hj hi after)

/-- The calls handle the runs in order and pass on what the device returned. -/
structure Streamed (runs : List MemoryRun) (calls : List Call) : Prop where
  ordered : Ordered (fragments calls)
  handled : addresses (fragments calls) = addresses (runIntervals runs)
  addresses_eq : returnedAddresses calls = writtenAddresses calls
  bytes_eq : returnedBytes calls = writtenBytes calls

theorem Completed.streamed {δ ω η κ : Type} {C : Collaborators δ ω η κ}
    {s t m : AcquireState δ ω η κ} {topology : Topology} {changed : Bool}
    (completed : Completed C s topology m changed t) (calls : s.calls = [])
    (ordered : Ordered (runIntervals topology.runs)) : Streamed topology.runs t.calls := by
  obtain ⟨-, -, tiles⟩ := completed.accounts calls
  rw [← completed.fragments] at tiles
  exact ⟨tiles.ordered ordered, tiles.addresses_eq, completed.returned calls,
    completed.transfer (fun _ => rfl) calls⟩

section Streamed

variable {runs : List MemoryRun} {calls : List Call}

/-- The stream with its gaps is the image at the addresses of the runs. -/
theorem Streamed.slots_eq (h : Streamed runs calls) :
    slots calls = (addresses (runIntervals runs)).map (slotOf calls) := by
  rw [PhylaRam.slots_eq h.ordered, h.handled]

theorem Streamed.mem_of_written (h : Streamed runs calls) {n : Nat}
    (written : n ∈ writtenAddresses calls) : n ∈ addresses (runIntervals runs) :=
  h.handled ▸ mem_fragments_of_written written

/-- The order of the stream is the order of the addresses. -/
theorem Streamed.blankBehind_iff (h : Streamed runs calls) :
    BlankBehind 0 (slots calls) ↔ ZerosBehindGaps runs calls := by
  have increasing : (addresses (runIntervals runs)).Pairwise (· < ·) :=
    h.handled ▸ h.ordered.pairwise_addresses
  have bytes := h.bytes_eq.trans (writtenBytes_eq h.ordered)
  rw [BlankBehind, h.slots_eq, List.pairwise_map]
  constructor
  · intro behind gap inside missing i address byte found found' lt
    rw [h.addresses_eq] at found missing
    rw [bytes, List.getElem?_map, found] at found'
    obtain rfl := Option.some.inj found'
    have written : address ∈ writtenAddresses calls := List.mem_of_getElem? found
    have gone : slotOf calls gap = none := if_neg missing
    have byte := rel_of_lt increasing behind (mem_addresses.mpr inside) (h.mem_of_written written)
      lt gone
    rwa [slotOf, if_pos written] at byte
  · intro zeros
    refine increasing.imp_of_mem fun {gap address} inside among lt missing => ?_
    rw [slotOf] at missing
    have missing : gap ∉ returnedAddresses calls := by
      intro returned
      rw [h.addresses_eq] at returned
      rw [if_pos returned] at missing
      cases missing
    rw [slotOf]
    by_cases written : address ∈ writtenAddresses calls
    · rw [if_pos written]
      obtain ⟨i, found⟩ := List.mem_iff_getElem?.mp written
      refine zeros gap (mem_addresses.mp inside) missing i address _ (h.addresses_eq ▸ found) ?_ lt
      rw [bytes, List.getElem?_map, found]
      rfl
    · rw [if_neg written]
      rfl

end Streamed

end PhylaRam
