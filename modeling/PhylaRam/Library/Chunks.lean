import Mathlib.Data.List.Basic
import Mathlib.Algebra.Ring.Nat

/-!
# Chunks of a stream

A stream that arrives in pieces of any length is cut into chunks of one size. `Split` is the
state of such a cut: the full chunks and the rest that waits for more. It does not depend on
the pieces. `Padded` is the result at the end of the stream, where a rest is filled up.
-/

namespace Chunks

variable {α : Type}

/-- Full chunks of the given size and the shorter rest. -/
structure Split (size : Nat) (data : List α) (chunks : List (List α)) (rest : List α) : Prop where
  stream : data = chunks.flatten ++ rest
  full : ∀ chunk ∈ chunks, chunk.length = size
  short : rest.length < size

/-- Chunks of the given size that hold the data and blanks after it, and no chunk of blanks. -/
structure Padded (size : Nat) (blank : α) (data : List α) (chunks : List (List α)) : Prop where
  full : ∀ chunk ∈ chunks, chunk.length = size
  stream : chunks.flatten = data ++ List.replicate (size * chunks.length - data.length) blank
  count : chunks.length = (data.length + (size - 1)) / size

variable {size : Nat} {blank : α} {data part rest : List α} {chunks : List (List α)}

theorem length_flatten (full : ∀ chunk ∈ chunks, chunk.length = size) :
    chunks.flatten.length = size * chunks.length := by
  induction chunks with
  | nil => rfl
  | cons chunk chunks ih =>
      obtain ⟨first, later⟩ := List.forall_mem_cons.mp full
      rw [List.flatten_cons, List.length_append, first, ih later, List.length_cons, Nat.mul_succ,
        Nat.add_comm]

/-- A chunk within the concatenation. -/
theorem flatten_split (full : ∀ chunk ∈ chunks, chunk.length = size) {k : Nat} {chunk : List α}
    (found : chunks[k]? = some chunk) :
    ∃ before after, chunks.flatten = before ++ chunk ++ after ∧ before.length = size * k := by
  obtain ⟨inside, rfl⟩ := List.getElem?_eq_some_iff.mp found
  have earlier : ∀ chunk ∈ chunks.take k, chunk.length = size :=
    fun chunk member => full chunk (List.mem_of_mem_take member)
  refine ⟨(chunks.take k).flatten, (chunks.drop (k + 1)).flatten, ?_, ?_⟩
  · have split : chunks = chunks.take k ++ chunks[k] :: chunks.drop (k + 1) := by
      rw [List.getElem_cons_drop, List.take_append_drop]
    rw [List.append_assoc, ← List.flatten_cons, ← List.flatten_append, ← split]
  · rw [length_flatten earlier, List.length_take_of_le (Nat.le_of_lt inside)]

namespace Split

theorem nil (pos : 0 < size) : Split size ([] : List α) [] [] :=
  ⟨rfl, fun _ member => (List.not_mem_nil member).elim, pos⟩

theorem length (h : Split size data chunks rest) :
    data.length = size * chunks.length + rest.length := by
  rw [h.stream, List.length_append, length_flatten h.full]

theorem pos (h : Split size data chunks rest) : 0 < size := Nat.zero_lt_of_lt h.short

/-- More data that leaves the chunk open. -/
theorem extend (h : Split size data chunks rest) (fits : rest.length + part.length < size) :
    Split size (data ++ part) chunks (rest ++ part) where
  stream := by rw [h.stream, List.append_assoc]
  full := h.full
  short := by rwa [List.length_append]

/-- More data that completes the chunk. -/
theorem close (h : Split size data chunks rest) (fits : rest.length + part.length = size) :
    Split size (data ++ part) (chunks ++ [rest ++ part]) [] where
  stream := by
    rw [h.stream, List.flatten_append, List.flatten_singleton, List.append_assoc, List.append_nil]
  full := by
    intro chunk member
    cases List.mem_append.mp member with
    | inl old => exact h.full chunk old
    | inr new => rw [List.mem_singleton.mp new, List.length_append, fits]
  short := h.pos

/-- A stream that ends with a full chunk. -/
theorem padded_of_nil (h : Split size data chunks []) : Padded size blank data chunks where
  full := h.full
  stream := by
    rw [h.stream, List.append_nil, length_flatten h.full, Nat.sub_self, List.replicate_zero,
      List.append_nil]
  count := by
    have length := h.length
    have pos := h.pos
    rw [length, List.length_nil, Nat.add_zero, Nat.mul_add_div pos,
      Nat.div_eq_of_lt (Nat.sub_lt pos Nat.one_pos), Nat.add_zero]

/-- A stream that ends inside a chunk. -/
theorem padded_of_rest (h : Split size data chunks rest) (some : rest ≠ []) :
    Padded size blank data (chunks ++ [rest ++ List.replicate (size - rest.length) blank]) where
  full := by
    intro chunk member
    cases List.mem_append.mp member with
    | inl old => exact h.full chunk old
    | inr new =>
        have short := h.short
        rw [List.mem_singleton.mp new, List.length_append, List.length_replicate]
        omega
  stream := by
    have length := h.length
    have short := h.short
    have gap : size * (chunks.length + 1) - data.length = size - rest.length := by
      rw [length, Nat.mul_succ]
      omega
    rw [List.length_append, List.length_singleton, gap, List.flatten_append,
      List.flatten_singleton, h.stream, List.append_assoc]
  count := by
    have positive := List.length_pos_iff.mpr some
    have short := h.short
    have sum : rest.length + (size - 1) = size * 1 + (rest.length - 1) := by omega
    rw [List.length_append, List.length_singleton, h.length, Nat.add_assoc,
      Nat.mul_add_div h.pos, sum, Nat.mul_add_div h.pos, Nat.div_eq_of_lt (by omega)]

end Split

/-- The data is the beginning of what the chunks hold. -/
theorem Padded.take (h : Padded size blank data chunks) :
    chunks.flatten.take data.length = data := by
  rw [h.stream, List.take_left]

end Chunks
