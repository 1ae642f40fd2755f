import PhylaRam.Library.Image
import PhylaRam.Library.Interval

/-!
# Pieces stored one after the other

The pieces of a list can be stored without the gaps between them, each directly after the
previous one. `Place start ps n k` says that the number `n` is then at position `k`, the
first piece being at `start`. Every position belongs to at most one number, and for ordered
pieces the placement is an increasing bijection.

A file that holds an image in this way keeps doing so when a part of one piece is written
to both.
-/

namespace Interval

open Image

variable {α β : Type*}

def Place (start : Nat) (ps : List (Piece α)) (n k : Nat) : Prop :=
  ∃ before p after, ps = before ++ p :: after ∧ n ∈ p.cells ∧
    k = start + total before + (n - p.start)

variable {start n m k l : Nat} {p : Piece α} {ps qs : List (Piece α)}

@[simp] theorem not_place_nil : ¬Place start ([] : List (Piece α)) n k := by
  rintro ⟨before, p, after, split, -⟩
  simp at split

theorem place_cons :
    Place start (p :: ps) n k ↔
      (n ∈ p.cells ∧ k = start + (n - p.start)) ∨ Place (start + p.length) ps n k := by
  constructor
  · rintro ⟨before, q, after, split, member, place⟩
    cases before with
    | nil =>
        obtain ⟨rfl, rfl⟩ := List.cons.inj split
        exact .inl ⟨member, place⟩
    | cons first before =>
        obtain ⟨rfl, rfl⟩ := List.cons.inj split
        rw [total_cons, ← Nat.add_assoc] at place
        exact .inr ⟨before, q, after, rfl, member, place⟩
  · rintro (⟨member, place⟩ | ⟨before, q, after, rfl, member, place⟩)
    · exact ⟨[], p, ps, rfl, member, place⟩
    · refine ⟨p :: before, q, after, rfl, member, ?_⟩
      rw [place, total_cons, ← Nat.add_assoc]

theorem place_append :
    Place start (ps ++ qs) n k ↔ Place start ps n k ∨ Place (start + total ps) qs n k := by
  induction ps generalizing start with
  | nil => simp
  | cons p ps ih => rw [List.cons_append, place_cons, place_cons, ih, total_cons, or_assoc,
      Nat.add_assoc]

/-- The number at position `start + i` is entry `i` of the list of all numbers. -/
theorem place_iff_getElem? : Place start ps n (start + m) ↔ (addresses ps)[m]? = some n := by
  induction ps generalizing start m with
  | nil => simp [addresses]
  | cons p ps ih =>
      have numbers : addresses (p :: ps) = List.range' p.start p.length ++ addresses ps := by
        rw [addresses, List.flatMap_cons]
        rfl
      rw [place_cons, numbers, Piece.mem_cells, Piece.stop]
      by_cases inside : m < p.length
      · rw [List.getElem?_append_left (by rwa [List.length_range']), List.getElem?_range' inside,
          Option.some.injEq]
        constructor
        · rintro (⟨member, place⟩ | ⟨before, q, after, -, -, place⟩) <;> omega
        · intro place
          exact .inl ⟨by omega, by omega⟩
      · rw [List.getElem?_append_right (by rw [List.length_range']; omega), List.length_range']
        have position : start + m = start + p.length + (m - p.length) := by omega
        have rest : Place (start + p.length) ps n (start + p.length + (m - p.length)) ↔ _ := ih
        rw [← rest, ← position]
        exact ⟨fun place => place.resolve_left fun here => by omega, .inr⟩

theorem Place.bounds (h : Place start ps n k) : start ≤ k ∧ k < start + total ps := by
  obtain ⟨before, p, after, rfl, member, rfl⟩ := h
  rw [Piece.mem_cells, Piece.stop] at member
  rw [total_append, total_cons]
  omega

theorem Place.mem (h : Place start ps n k) : n ∈ cells ps := by
  obtain ⟨before, p, after, rfl, member, -⟩ := h
  exact mem_cells.mpr ⟨p, by simp, member⟩

theorem exists_place (h : n ∈ cells ps) (start : Nat) : ∃ k, Place start ps n k := by
  obtain ⟨p, member, inside⟩ := mem_cells.mp h
  obtain ⟨before, after, split⟩ := List.append_of_mem member
  exact ⟨_, before, p, after, split, inside, rfl⟩

theorem length_addresses (ps : List (Piece α)) : (addresses ps).length = total ps := by
  simp [addresses, total, List.length_flatMap]

/-- No two numbers have the same place. -/
theorem Place.injective (h : Place start ps n k) (h' : Place start ps m k) : n = m := by
  obtain ⟨i, rfl⟩ := Nat.exists_eq_add_of_le h.bounds.1
  rw [place_iff_getElem?] at h h'
  exact Option.some.inj (h.symm.trans h')

/-- In ordered pieces a larger number has a larger place. -/
theorem Place.lt (h : Place start ps n k) (h' : Place start ps m l) (ordered : Ordered ps)
    (less : n < m) : k < l := by
  induction ps generalizing start with
  | nil => exact (not_place_nil h).elim
  | cons p ps ih =>
      obtain ⟨first, ordered⟩ := ordered_cons.mp ordered
      rw [place_cons] at h h'
      rcases h with ⟨here, rfl⟩ | later <;> rcases h' with ⟨here', rfl⟩ | later'
      · rw [Piece.mem_cells] at here here'
        omega
      · have bounds := later'.bounds
        rw [Piece.mem_cells, Piece.stop] at here
        omega
      · obtain ⟨q, member, inside⟩ := mem_cells.mp later.mem
        have before := first q member
        rw [Piece.mem_cells] at here' inside
        omega
      · exact ih later later' ordered

/-- In ordered pieces every number has one place. -/
theorem Place.unique (h : Place start ps n k) (h' : Place start ps n l) (ordered : Ordered ps) :
    k = l := by
  induction ps generalizing start with
  | nil => exact (not_place_nil h).elim
  | cons p ps ih =>
      obtain ⟨first, ordered⟩ := ordered_cons.mp ordered
      have apart : ∀ {j}, n ∈ p.cells → ¬Place (start + p.length) ps n j := by
        intro j here later
        obtain ⟨q, member, inside⟩ := mem_cells.mp later.mem
        have before := first q member
        rw [Piece.mem_cells] at here inside
        omega
      rw [place_cons] at h h'
      rcases h with ⟨here, rfl⟩ | later <;> rcases h' with ⟨here', rfl⟩ | later'
      · rfl
      · exact (apart here later').elim
      · exact (apart here' later).elim
      · exact ih later later' ordered

/-- The numbers of one piece follow each other in the file. -/
theorem Place.shift (h : Place start ps n k) (ordered : Ordered ps) (member : p ∈ ps)
    {i : Nat} (inside : n ∈ p.cells) (within : n + i < p.stop) :
    Place start ps (n + i) (k + i) := by
  obtain ⟨before, q, after, rfl, inside', rfl⟩ := h
  obtain rfl : p = q := ordered.eq_of_mem member (by simp) inside inside'
  rw [Piece.mem_cells] at inside
  exact ⟨before, p, after, rfl, Piece.mem_cells.mpr ⟨by omega, within⟩, by omega⟩

/-- The file holds the image, piece after piece from `start`. -/
def Laid (start : Nat) (ps : List (Piece α)) (image file : Nat → β) : Prop :=
  ∀ n k, Place start ps n k → file k = image n

/-- A write of a part of one piece, to the image and at its place in the file. -/
theorem Laid.overlay {image file : Nat → β} (h : Laid start ps image file)
    (ordered : Ordered ps) (member : p ∈ ps) {data : List β} (inside : n ∈ p.cells)
    (within : n + data.length ≤ p.stop) (place : Place start ps n k) :
    Laid start ps (overlay image n data) (Image.overlay file k data) := by
  intro m l place'
  have written : ∀ {i}, i < data.length → Place start ps (n + i) (k + i) := fun small =>
    place.shift ordered member inside (by omega)
  by_cases below : m < n
  · rw [overlay_of_lt below, overlay_of_lt (place'.lt place ordered below), h m l place']
  · obtain ⟨i, rfl⟩ := Nat.exists_eq_add_of_le (Nat.le_of_not_lt below)
    by_cases small : i < data.length
    · rw [place'.unique (written small) ordered, overlay_of_mem small, overlay_of_mem small]
    · have beyond : k + data.length ≤ l := by
        by_contra early
        have after : k ≤ l := by
          rcases Nat.eq_zero_or_pos i with rfl | positive
          · exact Nat.le_of_eq (place.unique place' ordered)
          · exact Nat.le_of_lt (place.lt place' ordered (by omega))
        obtain ⟨j, rfl⟩ := Nat.exists_eq_add_of_le after
        have same := (written (i := j) (by omega)).injective place'
        omega
      rw [overlay_of_ge beyond, overlay_of_ge (by omega), h _ _ place']

end Interval
