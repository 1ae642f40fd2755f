import PhylaRam.Driver.Session
import PhylaRam.Library.Word

/-!
# Physical range tables

A table is the part of an array before its terminator. The loops of the driver count,
copy and compare arrays by index; here they are functions of the tables.
-/

namespace PhylaRam

def PhysicalMemoryRange.isTerminator (range : PhysicalMemoryRange) : Bool :=
  !(range.baseAddress != 0 || range.numberOfBytes != 0)

/-- The table in an array: its entries before the terminator. -/
def tableOf (entries : List PhysicalMemoryRange) : List PhysicalMemoryRange :=
  entries.takeWhile (!·.isTerminator)

variable {entries other : List PhysicalMemoryRange} {count total countA countB : UInt32}

theorem phylaCountRanges_spec (h : phylaCountRanges entries count = some total) :
    total.toNat = count.toNat + (tableOf entries).length := by
  induction entries generalizing count with
  | nil => exact Option.some.inj h ▸ rfl
  | cons range rest ih =>
      unfold phylaCountRanges at h
      cases used : range.baseAddress != 0 || range.numberOfBytes != 0 with
      | true =>
          have kept : tableOf (range :: rest) = range :: tableOf rest := by
            simp [tableOf, List.takeWhile, PhysicalMemoryRange.isTerminator, used]
          rw [used, if_pos rfl] at h
          by_cases wraps : count + 1 = 0
          · rw [if_pos wraps] at h
            cases h
          · rw [if_neg wraps] at h
            rw [ih h, Word.toNat_succ32 wraps, kept, List.length_cons]
            omega
      | false =>
          have ended : tableOf (range :: rest) = [] := by
            simp [tableOf, List.takeWhile, PhysicalMemoryRange.isTerminator, used]
          rw [used, if_neg Bool.false_ne_true] at h
          rw [← Option.some.inj h, ended]
          rfl

theorem tableOf_eq_take (entries : List PhysicalMemoryRange) :
    entries.take (tableOf entries).length = tableOf entries :=
  (List.prefix_iff_eq_take.mp (List.takeWhile_prefix _)).symm

theorem entryAt_of_lt (bound : (tableOf entries).length < 2 ^ 32) {i : Nat}
    (h : i < (tableOf entries).length) :
    entryAt entries i.toUInt32 = (tableOf entries)[i] := by
  have same : i.toUInt32.toNat = i := Nat.mod_eq_of_lt (Nat.lt_trans h bound)
  have within : i < entries.length :=
    Nat.lt_of_lt_of_le h (List.takeWhile_prefix _).length_le
  unfold entryAt
  rw [same, List.getD_eq_getElem?_getD, List.getElem?_eq_getElem within]
  exact ((List.takeWhile_prefix _).getElem h).symm

theorem entryAt_of_getElem? {index : UInt32} {range : PhysicalMemoryRange}
    (h : (tableOf entries)[index.toNat]? = some range) : entryAt entries index = range := by
  obtain ⟨rest, split⟩ : tableOf entries <+: entries := List.takeWhile_prefix _
  have within : index.toNat < (tableOf entries).length := (List.getElem?_eq_some_iff.mp h).1
  unfold entryAt
  rw [List.getD_eq_getElem?_getD, ← split, List.getElem?_append_left within, h]
  rfl

/-- Reading every entry of a table by its index reads the table. -/
theorem map_entryAt {β : Type} (f : PhysicalMemoryRange → β)
    (counted : count.toNat = (tableOf entries).length) :
    (List.range count.toNat).map (fun i => f (entryAt entries i.toUInt32)) =
      (tableOf entries).map f := by
  have bound : (tableOf entries).length < 2 ^ 32 := counted ▸ count.toNat_lt
  apply List.ext_getElem
  · simp [counted]
  · intro i left right
    simp only [List.length_map] at right
    simp only [List.getElem_map, List.getElem_range, entryAt_of_lt bound right]

theorem phylaSummarizeRanges_eq (counted : count.toNat = (tableOf entries).length) :
    phylaSummarizeRanges entries count = summarizeRanges (tableOf entries) (0, 0) := by
  rw [phylaSummarizeRanges, counted, tableOf_eq_take]

theorem phylaRangesEqual_iff (countedA : countA.toNat = (tableOf entries).length)
    (countedB : countB.toNat = (tableOf other).length) :
    phylaRangesEqual entries countA other countB = true ↔ tableOf entries = tableOf other := by
  have boundA : (tableOf entries).length < 2 ^ 32 := countedA ▸ countA.toNat_lt
  have boundB : (tableOf other).length < 2 ^ 32 := countedB ▸ countB.toNat_lt
  unfold phylaRangesEqual
  by_cases counts : countA = countB
  · subst counts
    have lengths : (tableOf entries).length = (tableOf other).length := by omega
    simp only [bne_self_eq_false, Bool.false_eq_true, if_false, List.all_eq_true, List.mem_range,
      Bool.and_eq_true, beq_iff_eq]
    constructor
    · intro agree
      apply List.ext_getElem lengths
      intro i left right
      have fields := agree i (by omega)
      rw [entryAt_of_lt boundA left, entryAt_of_lt boundB right] at fields
      exact PhysicalMemoryRange.ext fields.1 fields.2
    · intro same i within
      have left : i < (tableOf entries).length := by omega
      have right : i < (tableOf other).length := by omega
      simp only [entryAt_of_lt boundA left, entryAt_of_lt boundB right, same, and_self]
  · have differ : (countA != countB) = true := bne_iff_ne.mpr counts
    rw [differ, if_pos rfl]
    constructor
    · intro impossible
      cases impossible
    · intro same
      rw [same, ← countedB] at countedA
      exact (counts (UInt32.toNat_inj.mp countedA)).elim

end PhylaRam
