import Mathlib.Data.Finset.Card
import Mathlib.Order.Interval.Finset.Nat
import Mathlib.Data.List.Chain
import Mathlib.Data.List.Induction
import Mathlib.Tactic.Ring

/-!
# Labelled intervals of natural numbers

A `Piece` is a half-open interval with a label. The results here are about lists
of pieces: how many numbers an ordered list covers, lists that tile an interval
without gaps, and the coalescing of touching pieces with equal labels.

`Maximal f ps` says that `ps` lists the maximal intervals on which the partial
labelling `f` is constant. There is at most one such list, and coalescing an
ordered list of pieces computes it for the labelling the pieces define.
-/

namespace Interval

variable {α β : Type*}

/-- The interval `[start, start + length)` with a label. -/
@[ext]
structure Piece (α : Type*) where
  start : Nat
  length : Nat
  label : α
deriving DecidableEq

namespace Piece

def stop (p : Piece α) : Nat := p.start + p.length

def cells (p : Piece α) : Finset Nat := Finset.Ico p.start p.stop

@[simp] theorem mem_cells {p : Piece α} {n : Nat} :
    n ∈ p.cells ↔ p.start ≤ n ∧ n < p.stop := Finset.mem_Ico

@[simp] theorem card_cells (p : Piece α) : p.cells.card = p.length := by
  simp [cells, stop]

end Piece

/-- The numbers covered by a list of pieces. -/
def cells (ps : List (Piece α)) : Finset Nat :=
  ps.foldr (fun p covered => p.cells ∪ covered) ∅

@[simp] theorem cells_nil : cells ([] : List (Piece α)) = ∅ := rfl

@[simp] theorem cells_cons (p : Piece α) (ps : List (Piece α)) :
    cells (p :: ps) = p.cells ∪ cells ps := rfl

theorem mem_cells {ps : List (Piece α)} {n : Nat} :
    n ∈ cells ps ↔ ∃ p ∈ ps, n ∈ p.cells := by
  induction ps with
  | nil => simp
  | cons p ps ih => simp [ih]

@[simp] theorem cells_append (ps qs : List (Piece α)) :
    cells (ps ++ qs) = cells ps ∪ cells qs := by
  ext n
  simp only [mem_cells, List.mem_append, Finset.mem_union]
  exact ⟨fun ⟨p, hp, hn⟩ => hp.imp (⟨p, ·, hn⟩) (⟨p, ·, hn⟩),
    fun h => h.elim (fun ⟨p, hp, hn⟩ => ⟨p, .inl hp, hn⟩) (fun ⟨p, hp, hn⟩ => ⟨p, .inr hp, hn⟩)⟩

/-- The sum of the lengths. -/
def total (ps : List (Piece α)) : Nat := (ps.map Piece.length).sum

@[simp] theorem total_nil : total ([] : List (Piece α)) = 0 := rfl

@[simp] theorem total_cons (p : Piece α) (ps : List (Piece α)) :
    total (p :: ps) = p.length + total ps := by
  simp [total]

@[simp] theorem total_append (ps qs : List (Piece α)) :
    total (ps ++ qs) = total ps + total qs := by
  simp [total]

theorem length_le_total {ps : List (Piece α)} {p : Piece α} (h : p ∈ ps) :
    p.length ≤ total ps := by
  induction h with
  | head => exact Nat.le_add_right _ _
  | tail q _ ih => exact ih.trans (total_cons q _ ▸ Nat.le_add_left _ _)

/-- Later pieces begin no earlier than earlier pieces end. -/
def Ordered (ps : List (Piece α)) : Prop :=
  ps.Pairwise fun p q => p.stop ≤ q.start

theorem Ordered.nil : Ordered ([] : List (Piece α)) := List.Pairwise.nil

theorem ordered_cons {p : Piece α} {ps : List (Piece α)} :
    Ordered (p :: ps) ↔ (∀ q ∈ ps, p.stop ≤ q.start) ∧ Ordered ps := List.pairwise_cons

theorem ordered_append {ps qs : List (Piece α)} :
    Ordered (ps ++ qs) ↔ Ordered ps ∧ Ordered qs ∧ ∀ p ∈ ps, ∀ q ∈ qs, p.stop ≤ q.start :=
  List.pairwise_append

/-- For ordered pieces the lengths count the covered numbers. -/
theorem Ordered.card_cells {ps : List (Piece α)} (h : Ordered ps) :
    (cells ps).card = total ps := by
  induction ps with
  | nil => rfl
  | cons p ps ih =>
      obtain ⟨first, rest⟩ := ordered_cons.mp h
      have apart : Disjoint p.cells (cells ps) := by
        rw [Finset.disjoint_left]
        intro n hp hps
        obtain ⟨q, hq, hn⟩ := mem_cells.mp hps
        have := first q hq
        have := Piece.mem_cells.mp hp
        have := Piece.mem_cells.mp hn
        omega
      rw [cells_cons, Finset.card_union_of_disjoint apart, Piece.card_cells, ih rest, total_cons]

/-- Two different members of a list are in its order one way or the other. -/
theorem pairwise_or {R : Piece α → Piece α → Prop} {ps : List (Piece α)} (h : ps.Pairwise R)
    {p q : Piece α} (hp : p ∈ ps) (hq : q ∈ ps) (ne : p ≠ q) : R p q ∨ R q p := by
  have sym : Std.Symm fun p q => R p q ∨ R q p := ⟨fun _ _ => Or.symm⟩
  have wide : ps.Pairwise fun p q => R p q ∨ R q p := h.imp fun before => .inl before
  exact wide.forall hp hq ne

/-- Two pieces of an ordered list that share a number are one piece. -/
theorem Ordered.eq_of_mem {ps : List (Piece α)} (h : Ordered ps) {p q : Piece α} {n : Nat}
    (hp : p ∈ ps) (hq : q ∈ ps) (hnp : n ∈ p.cells) (hnq : n ∈ q.cells) : p = q := by
  by_contra ne
  rw [Piece.mem_cells] at hnp hnq
  rcases pairwise_or h hp hq ne with le | le <;> omega

/-- Where the last piece ends. -/
def lastStop (ps : List (Piece α)) : Nat := (ps.getLast?.map Piece.stop).getD 0

@[simp] theorem lastStop_nil : lastStop ([] : List (Piece α)) = 0 := rfl

@[simp] theorem lastStop_snoc (ps : List (Piece α)) (p : Piece α) :
    lastStop (ps ++ [p]) = p.stop := by
  simp [lastStop]

/-- In an ordered list no piece ends later than the last one. -/
theorem Ordered.stop_le_lastStop {ps : List (Piece α)} (h : Ordered ps) {p : Piece α}
    (hp : p ∈ ps) : p.stop ≤ lastStop ps := by
  rcases List.eq_nil_or_concat' ps with rfl | ⟨qs, q, rfl⟩
  · cases hp
  · rw [lastStop_snoc]
    rcases List.mem_append.mp hp with hp | hp
    · have before := (ordered_append.mp h).2.2 p hp q List.mem_cons_self
      exact Nat.le_trans before (Nat.le_add_right _ _)
    · rw [List.mem_singleton.mp hp]

/-- A list stays ordered if the new piece begins after the last one. -/
theorem ordered_snoc {ps : List (Piece α)} {p : Piece α} (h : Ordered ps) :
    Ordered (ps ++ [p]) ↔ lastStop ps ≤ p.start := by
  constructor
  · intro longer
    rcases List.eq_nil_or_concat' ps with rfl | ⟨qs, q, rfl⟩
    · exact Nat.zero_le _
    · rw [lastStop_snoc]
      exact (ordered_append.mp longer).2.2 q (by simp) p List.mem_cons_self
  · intro last
    refine ordered_append.mpr ⟨h, List.pairwise_singleton _ _, ?_⟩
    intro q hq r hr
    rw [List.mem_singleton.mp hr]
    exact Nat.le_trans (h.stop_le_lastStop hq) last

theorem Ordered.total_le_lastStop {ps : List (Piece α)} (h : Ordered ps) :
    total ps ≤ lastStop ps := by
  induction ps using List.reverseRecOn with
  | nil => exact Nat.le_refl 0
  | append_singleton ps p ih =>
      obtain ⟨before, -, -⟩ := ordered_append.mp h
      have apart := (ordered_snoc before).mp h
      have := ih before
      rw [total_append, total_cons, total_nil, lastStop_snoc, Piece.stop]
      omega

/-- Nonempty intervals that share no number, in increasing order. -/
structure Increasing (ps : List (Piece α)) : Prop where
  nonempty : ∀ p ∈ ps, p.cells.Nonempty
  increasing : ps.Pairwise fun p q => p.start < q.start
  disjoint : ps.Pairwise fun p q => Disjoint p.cells q.cells

theorem Piece.cells_nonempty {p : Piece α} : p.cells.Nonempty ↔ 0 < p.length := by
  rw [← Finset.card_pos, Piece.card_cells]

/-- For nonempty intervals the comparison of neighbours says all of it. -/
theorem increasing_iff {ps : List (Piece α)} :
    Increasing ps ↔ Ordered ps ∧ ∀ p ∈ ps, 0 < p.length := by
  constructor
  · intro h
    have pos : ∀ p ∈ ps, 0 < p.length := fun p hp => Piece.cells_nonempty.mp (h.nonempty p hp)
    refine ⟨(h.increasing.and h.disjoint).imp_of_mem ?_, pos⟩
    rintro p q - hq ⟨earlier, apart⟩
    have := pos q hq
    by_contra overlap
    have shared : q.start ∈ p.cells := Piece.mem_cells.mpr ⟨by omega, by omega⟩
    have own : q.start ∈ q.cells := Piece.mem_cells.mpr ⟨Nat.le_refl _, by
      rw [Piece.stop]
      omega⟩
    exact Finset.disjoint_left.mp apart shared own
  · rintro ⟨ordered, pos⟩
    refine ⟨fun p hp => Piece.cells_nonempty.mpr (pos p hp), ordered.imp_of_mem ?_,
      ordered.imp ?_⟩
    · rintro p q hp - before
      have := pos p hp
      rw [Piece.stop] at before
      omega
    · intro p q before
      rw [Finset.disjoint_left]
      intro n hp hq
      rw [Piece.mem_cells] at hp hq
      omega

/-! ### Other labels -/

/-- The same interval with another label. -/
def Piece.map (f : α → β) (p : Piece α) : Piece β := ⟨p.start, p.length, f p.label⟩

theorem cells_map (f : α → β) (ps : List (Piece α)) : cells (ps.map (Piece.map f)) = cells ps := by
  induction ps with
  | nil => rfl
  | cons p ps ih =>
      rw [List.map_cons, cells_cons, cells_cons, ih]
      rfl

theorem total_map (f : α → β) (ps : List (Piece α)) : total (ps.map (Piece.map f)) = total ps := by
  rw [total, total, List.map_map]
  rfl

theorem increasing_map (f : α → β) {ps : List (Piece α)} :
    Increasing (ps.map (Piece.map f)) ↔ Increasing ps := by
  rw [increasing_iff, increasing_iff, Ordered, List.pairwise_map, List.forall_mem_map]
  rfl

/-- A nonempty interval lies within another exactly if its ends do. -/
theorem Piece.cells_subset_iff {p : Piece α} {q : Piece β} (pos : 0 < p.length) :
    p.cells ⊆ q.cells ↔ q.start ≤ p.start ∧ p.stop ≤ q.stop := by
  constructor
  · intro within
    have size : p.stop = p.start + p.length := rfl
    have first : p.start ∈ q.cells := within (Piece.mem_cells.mpr ⟨by omega, by omega⟩)
    have last : p.stop - 1 ∈ q.cells := within (Piece.mem_cells.mpr ⟨by omega, by omega⟩)
    rw [Piece.mem_cells] at first last
    omega
  · rintro ⟨start, stop⟩ n hn
    rw [Piece.mem_cells] at hn ⊢
    omega

/-- An interval covered by intervals that do not touch lies within one of them. -/
theorem Ordered.exists_within {ps : List (Piece α)} (ordered : Ordered ps)
    (apart : ∀ p ∈ ps, ∀ q ∈ ps, p.stop ≠ q.start) {p : Piece β} (pos : 0 < p.length)
    (covered : p.cells ⊆ cells ps) : ∃ q ∈ ps, q.start ≤ p.start ∧ p.stop ≤ q.stop := by
  have size : p.stop = p.start + p.length := rfl
  have first : p.start ∈ p.cells := Piece.mem_cells.mpr ⟨Nat.le_refl _, by omega⟩
  obtain ⟨q, among, inside⟩ := mem_cells.mp (covered first)
  rw [Piece.mem_cells] at inside
  refine ⟨q, among, inside.1, ?_⟩
  -- otherwise the interval goes on where `q` stops, and another one begins there
  by_contra beyond
  have next : q.stop ∈ p.cells := Piece.mem_cells.mpr ⟨by omega, by omega⟩
  obtain ⟨r, among', inside'⟩ := mem_cells.mp (covered next)
  rw [Piece.mem_cells] at inside'
  have touch := apart q among r among'
  have ne : q ≠ r := by
    rintro rfl
    omega
  rcases pairwise_or ordered among among' ne with before | before <;> omega

/-! ### Tilings -/

/-- The pieces follow each other from `lo` to `hi` without a gap. -/
def Tiles : Nat → List (Piece α) → Nat → Prop
  | lo, [], hi => lo = hi
  | lo, p :: ps, hi => p.start = lo ∧ Tiles p.stop ps hi

theorem Tiles.nil (n : Nat) : Tiles n ([] : List (Piece α)) n := rfl

theorem Tiles.append {lo mid hi : Nat} {ps qs : List (Piece α)} (hps : Tiles lo ps mid)
    (hqs : Tiles mid qs hi) : Tiles lo (ps ++ qs) hi := by
  induction ps generalizing lo with
  | nil => exact hps ▸ hqs
  | cons p ps ih => exact ⟨hps.1, ih hps.2⟩

theorem Tiles.snoc {lo : Nat} {ps : List (Piece α)} {p : Piece α} (h : Tiles lo ps p.start) :
    Tiles lo (ps ++ [p]) p.stop := h.append ⟨rfl, rfl⟩

theorem Tiles.le {lo hi : Nat} {ps : List (Piece α)} (h : Tiles lo ps hi) : lo ≤ hi := by
  induction ps generalizing lo with
  | nil => exact Nat.le_of_eq h
  | cons p ps ih =>
      have := ih h.2
      have := h.1
      have : p.start ≤ p.stop := Nat.le_add_right _ _
      omega

theorem Tiles.mem_cells_iff {lo hi : Nat} {ps : List (Piece α)} (h : Tiles lo ps hi) {n : Nat} :
    n ∈ cells ps ↔ lo ≤ n ∧ n < hi := by
  induction ps generalizing lo with
  | nil =>
      have : lo = hi := h
      simp only [cells_nil, Finset.notMem_empty, false_iff]
      omega
  | cons p ps ih =>
      obtain ⟨rfl, rest⟩ := h
      have := rest.le
      have : p.start ≤ p.stop := Nat.le_add_right _ _
      rw [cells_cons, Finset.mem_union, Piece.mem_cells, ih rest]
      omega

theorem Tiles.total {lo hi : Nat} {ps : List (Piece α)} (h : Tiles lo ps hi) :
    lo + total ps = hi := by
  induction ps generalizing lo with
  | nil => exact h
  | cons p ps ih =>
      obtain ⟨rfl, rest⟩ := h
      have := ih rest
      rw [total_cons, ← this, Piece.stop]
      omega

theorem Tiles.bounds {lo hi : Nat} {ps : List (Piece α)} (h : Tiles lo ps hi) {p : Piece α}
    (hp : p ∈ ps) : lo ≤ p.start ∧ p.stop ≤ hi := by
  induction ps generalizing lo with
  | nil => cases hp
  | cons q ps ih =>
      obtain ⟨rfl, rest⟩ := h
      have below : q.start ≤ q.stop := Nat.le_add_right _ _
      cases hp with
      | head => exact ⟨Nat.le_refl _, rest.le⟩
      | tail _ hp =>
          have := ih rest hp
          omega

theorem Tiles.ordered {lo hi : Nat} {ps : List (Piece α)} (h : Tiles lo ps hi) :
    Ordered ps := by
  induction ps generalizing lo with
  | nil => exact .nil
  | cons p ps ih => exact ordered_cons.mpr ⟨fun q hq => (h.2.bounds hq).1, ih h.2⟩

/-- The pieces tile each of the given intervals in turn. -/
inductive TilesEach : List (Piece β) → List (Piece α) → Prop
  | nil : TilesEach [] []
  | cons {r : Piece β} {rs : List (Piece β)} {ps qs : List (Piece α)}
      (first : Tiles r.start ps r.stop) (rest : TilesEach rs qs) :
      TilesEach (r :: rs) (ps ++ qs)

theorem TilesEach.cells_eq {rs : List (Piece β)} {ps : List (Piece α)} (h : TilesEach rs ps) :
    cells ps = cells rs := by
  induction h with
  | nil => rfl
  | @cons r rs ps qs first rest ih =>
      rw [cells_append, cells_cons, ih]
      congr 1
      ext n
      rw [first.mem_cells_iff, Piece.mem_cells]

theorem TilesEach.total_eq {rs : List (Piece β)} {ps : List (Piece α)} (h : TilesEach rs ps) :
    total ps = total rs := by
  induction h with
  | nil => rfl
  | @cons r rs ps qs first rest ih =>
      have := first.total
      rw [total_append, total_cons, ih]
      rw [Piece.stop] at this
      omega

theorem TilesEach.exists_within {rs : List (Piece β)} {ps : List (Piece α)}
    (h : TilesEach rs ps) {p : Piece α} (hp : p ∈ ps) :
    ∃ r ∈ rs, r.start ≤ p.start ∧ p.stop ≤ r.stop := by
  induction h with
  | nil => cases hp
  | @cons r rs ps qs first rest ih =>
      rcases List.mem_append.mp hp with hp | hp
      · exact ⟨r, List.mem_cons_self, first.bounds hp⟩
      · obtain ⟨r', hr', within⟩ := ih hp
        exact ⟨r', List.mem_cons_of_mem _ hr', within⟩

theorem TilesEach.ordered {rs : List (Piece β)} {ps : List (Piece α)} (h : TilesEach rs ps)
    (ordered : Ordered rs) : Ordered ps := by
  induction h with
  | nil => exact .nil
  | @cons r rs ps qs first rest ih =>
      obtain ⟨before, ordered⟩ := ordered_cons.mp ordered
      refine ordered_append.mpr ⟨first.ordered, ih ordered, fun p hp q hq => ?_⟩
      obtain ⟨r', hr', within, _⟩ := rest.exists_within hq
      exact Nat.le_trans (first.bounds hp).2 (Nat.le_trans (before r' hr') within)

/-! ### The numbers of a list of pieces, in order -/

def addresses (ps : List (Piece α)) : List Nat :=
  ps.flatMap fun p => List.range' p.start p.length

theorem mem_addresses {ps : List (Piece α)} {n : Nat} : n ∈ addresses ps ↔ n ∈ cells ps := by
  rw [addresses, List.mem_flatMap, mem_cells]
  refine exists_congr fun p => and_congr_right fun _ => ?_
  rw [List.mem_range'_1, Piece.mem_cells, Piece.stop]

theorem toFinset_addresses (ps : List (Piece α)) : (addresses ps).toFinset = cells ps := by
  ext n
  rw [List.mem_toFinset, mem_addresses]

/-- The numbers of an ordered list increase. -/
theorem Ordered.pairwise_addresses {ps : List (Piece α)} (h : Ordered ps) :
    (addresses ps).Pairwise (· < ·) := by
  rw [addresses, List.pairwise_flatMap]
  refine ⟨fun p _ => List.pairwise_lt_range', h.imp fun {p q} before n hp k hk => ?_⟩
  have := List.mem_range'_1.mp hp
  have := List.mem_range'_1.mp hk
  rw [Piece.stop] at before
  omega

/-- An ordered list covers no number twice. -/
theorem Ordered.nodup_addresses {ps : List (Piece α)} (h : Ordered ps) : (addresses ps).Nodup :=
  h.pairwise_addresses.imp Nat.ne_of_lt

theorem Tiles.addresses_eq {lo hi : Nat} {ps : List (Piece α)} (h : Tiles lo ps hi) :
    addresses ps = List.range' lo (hi - lo) := by
  induction ps generalizing lo with
  | nil =>
      obtain rfl : lo = hi := h
      rw [Nat.sub_self]
      rfl
  | cons p ps ih =>
      obtain ⟨rfl, rest⟩ := h
      have within := rest.le
      rw [Piece.stop] at within
      have length : hi - p.start = p.length + (hi - p.stop) := by
        rw [Piece.stop]
        omega
      rw [addresses, List.flatMap_cons, ← addresses, ih rest, length, Piece.stop,
        List.range'_append_1]

/-- Tiling keeps the numbers and their order. -/
theorem TilesEach.addresses_eq {rs : List (Piece β)} {ps : List (Piece α)} (h : TilesEach rs ps) :
    addresses ps = addresses rs := by
  induction h with
  | nil => rfl
  | @cons r rs ps qs first rest ih =>
      have length : r.stop - r.start = r.length := Nat.add_sub_cancel_left _ _
      rw [addresses, List.flatMap_append, ← addresses, ← addresses, first.addresses_eq, ih, length]
      rfl

/-! ### Selecting pieces by their labels -/

/-- The piece with another label, if it gets one. -/
def Piece.relabel (g : α → Option β) (p : Piece α) : Option (Piece β) :=
  (g p.label).map fun b => ⟨p.start, p.length, b⟩

/-- The pieces whose labels `g` keeps. -/
def select (g : α → Option β) (ps : List (Piece α)) : List (Piece β) :=
  ps.filterMap (Piece.relabel g)

theorem Piece.relabel_eq_some {g : α → Option β} {p : Piece α} {q : Piece β} :
    p.relabel g = some q ↔ g p.label = some q.label ∧ p.start = q.start ∧ p.length = q.length := by
  rw [relabel, Option.map_eq_some_iff]
  constructor
  · rintro ⟨b, label, rfl⟩
    exact ⟨label, rfl, rfl⟩
  · rintro ⟨label, start, length⟩
    exact ⟨q.label, label, Piece.ext start length rfl⟩

theorem mem_select {g : α → Option β} {ps : List (Piece α)} {q : Piece β} :
    q ∈ select g ps ↔
      ∃ p ∈ ps, g p.label = some q.label ∧ p.start = q.start ∧ p.length = q.length := by
  simp only [select, List.mem_filterMap, Piece.relabel_eq_some]

@[simp] theorem select_append (g : α → Option β) (ps qs : List (Piece α)) :
    select g (ps ++ qs) = select g ps ++ select g qs := List.filterMap_append

theorem Ordered.select {g : α → Option β} {ps : List (Piece α)} (h : Ordered ps) :
    Ordered (select g ps) := by
  refine List.Pairwise.filterMap _ ?_ h
  intro p q before p' hp q' hq
  obtain ⟨-, hp, hp'⟩ := Piece.relabel_eq_some.mp hp
  obtain ⟨-, hq, -⟩ := Piece.relabel_eq_some.mp hq
  rw [Piece.stop] at before ⊢
  omega

theorem mem_cells_select {g : α → Option β} {ps : List (Piece α)} {n : Nat} :
    n ∈ cells (select g ps) ↔ ∃ p ∈ ps, (g p.label).isSome ∧ n ∈ p.cells := by
  simp only [mem_cells, mem_select, Piece.mem_cells, Piece.stop]
  constructor
  · rintro ⟨q, ⟨p, hp, label, start, length⟩, hn⟩
    exact ⟨p, hp, by simp [label], by omega, by omega⟩
  · rintro ⟨p, hp, kept, hn⟩
    obtain ⟨b, label⟩ := Option.isSome_iff_exists.mp kept
    exact ⟨⟨p.start, p.length, b⟩, ⟨p, hp, label, rfl, rfl⟩, hn⟩

section Split

variable {γ : Type*} {g : α → Option β} {k : α → Option γ}

/-- Selections by complementary labels share the lengths out. -/
theorem total_select_add (complement : ∀ a, (g a).isSome = !(k a).isSome) (ps : List (Piece α)) :
    total (select g ps) + total (select k ps) = total ps := by
  induction ps with
  | nil => rfl
  | cons p ps ih =>
      have split := complement p.label
      rw [total_cons]
      cases hg : g p.label <;> cases hk : k p.label <;>
        simp [hg, hk, select, Piece.relabel] at split ih ⊢ <;> omega

theorem cells_select_union (complement : ∀ a, (g a).isSome = !(k a).isSome)
    (ps : List (Piece α)) : cells (select g ps) ∪ cells (select k ps) = cells ps := by
  ext n
  simp only [Finset.mem_union, mem_cells_select, @mem_cells _ ps, complement]
  constructor
  · rintro (⟨p, hp, -, hn⟩ | ⟨p, hp, -, hn⟩) <;> exact ⟨p, hp, hn⟩
  · rintro ⟨p, hp, hn⟩
    cases hk : (k p.label).isSome
    · exact .inl ⟨p, hp, by simp [hk], hn⟩
    · exact .inr ⟨p, hp, hk, hn⟩

theorem Ordered.disjoint_select (complement : ∀ a, (g a).isSome = !(k a).isSome)
    {ps : List (Piece α)} (h : Ordered ps) :
    Disjoint (cells (Interval.select g ps)) (cells (Interval.select k ps)) := by
  rw [Finset.disjoint_left]
  intro n hg hk
  obtain ⟨p, hp, keptG, hnp⟩ := mem_cells_select.mp hg
  obtain ⟨q, hq, keptK, hnq⟩ := mem_cells_select.mp hk
  rw [h.eq_of_mem hp hq hnp hnq, complement, keptK] at keptG
  cases keptG

end Split

/-! ### Coalescing -/

section Coalesce

variable [DecidableEq α]

/-- Append a piece, or extend the last one if it touches with the same label. -/
def push (ps : List (Piece α)) (p : Piece α) : List (Piece α) :=
  match ps.getLast? with
  | some q =>
      if q.stop = p.start ∧ q.label = p.label then
        ps.dropLast ++ [{ q with length := q.length + p.length }]
      else ps ++ [p]
  | none => [p]

def coalesce (ps : List (Piece α)) : List (Piece α) := ps.foldl push []

theorem coalesce_snoc (ps : List (Piece α)) (p : Piece α) :
    coalesce (ps ++ [p]) = push (coalesce ps) p := List.foldl_append

/-- The two outcomes of `push`. -/
theorem push_cases (ps : List (Piece α)) (p : Piece α) :
    (∃ qs q, ps = qs ++ [q] ∧ q.stop = p.start ∧ q.label = p.label ∧
      push ps p = qs ++ [⟨q.start, q.length + p.length, p.label⟩]) ∨
    ((∀ qs q, ps = qs ++ [q] → q.stop = p.start → q.label ≠ p.label) ∧
      push ps p = ps ++ [p]) := by
  rcases List.eq_nil_or_concat' ps with rfl | ⟨qs, q, rfl⟩
  · exact .inr ⟨fun qs q h => by simp at h, rfl⟩
  · by_cases touch : q.stop = p.start ∧ q.label = p.label
    · refine .inl ⟨qs, q, rfl, touch.1, touch.2, ?_⟩
      simp [push, touch]
    · refine .inr ⟨fun qs' q' h stop label => ?_, ?_⟩
      · obtain ⟨-, rfl⟩ := List.append_singleton_inj.mp h
        exact touch ⟨stop, label⟩
      · simp [push, touch]

theorem total_push (ps : List (Piece α)) (p : Piece α) :
    total (push ps p) = total ps + p.length := by
  rcases push_cases ps p with ⟨qs, q, rfl, -, -, h⟩ | ⟨-, h⟩ <;> rw [h] <;> simp
  omega

theorem total_coalesce (ps : List (Piece α)) : total (coalesce ps) = total ps := by
  have fold : ∀ qs, total (ps.foldl push qs) = total qs + total ps := by
    induction ps with
    | nil => exact fun qs => rfl
    | cons p ps ih =>
        intro qs
        rw [List.foldl_cons, ih, total_push, total_cons, Nat.add_assoc]
  rw [coalesce, fold, total_nil, Nat.zero_add]

/-- `n` lies in a piece labelled `a`. -/
def Labels (ps : List (Piece α)) (n : Nat) (a : α) : Prop :=
  ∃ p ∈ ps, n ∈ p.cells ∧ p.label = a

omit [DecidableEq α] in
theorem labels_append {ps qs : List (Piece α)} {n : Nat} {a : α} :
    Labels (ps ++ qs) n a ↔ Labels ps n a ∨ Labels qs n a := by
  simp only [Labels, List.mem_append, or_and_right, exists_or]

omit [DecidableEq α] in
theorem labels_singleton {p : Piece α} {n : Nat} {a : α} :
    Labels [p] n a ↔ n ∈ p.cells ∧ p.label = a := by
  simp [Labels]

omit [DecidableEq α] in
theorem exists_labels_iff {ps : List (Piece α)} {n : Nat} :
    (∃ a, Labels ps n a) ↔ n ∈ cells ps := by
  rw [mem_cells]
  exact ⟨fun ⟨_, p, hp, hn, _⟩ => ⟨p, hp, hn⟩, fun ⟨p, hp, hn⟩ => ⟨p.label, p, hp, hn, rfl⟩⟩

theorem labels_push (ps : List (Piece α)) (p : Piece α) (n : Nat) (a : α) :
    Labels (push ps p) n a ↔ Labels ps n a ∨ (n ∈ p.cells ∧ p.label = a) := by
  rcases push_cases ps p with ⟨qs, q, rfl, touch, label, h⟩ | ⟨-, h⟩
  · rw [h, labels_append, labels_append, labels_singleton, labels_singleton, or_assoc, label,
      ← or_and_right]
    have union : n ∈ (⟨q.start, q.length + p.length, p.label⟩ : Piece α).cells ↔
        n ∈ q.cells ∨ n ∈ p.cells := by
      simp only [Piece.mem_cells, Piece.stop] at touch ⊢
      omega
    rw [union]
  · rw [h, labels_append, labels_singleton]

theorem labels_coalesce (ps : List (Piece α)) (n : Nat) (a : α) :
    Labels (coalesce ps) n a ↔ Labels ps n a := by
  have fold : ∀ qs, Labels (ps.foldl push qs) n a ↔ Labels qs n a ∨ Labels ps n a := by
    induction ps with
    | nil => simp [Labels]
    | cons p ps ih =>
        intro qs
        rw [List.foldl_cons, ih, labels_push, ← List.singleton_append, labels_append,
          labels_singleton, or_assoc]
  rw [coalesce, fold]
  simp [Labels]

theorem cells_coalesce (ps : List (Piece α)) : cells (coalesce ps) = cells ps := by
  ext n
  rw [← exists_labels_iff, ← exists_labels_iff]
  exact exists_congr fun a => labels_coalesce ps n a

/-- Ordered, without empty pieces, and touching pieces have different labels. -/
structure Normal (ps : List (Piece α)) : Prop where
  ordered : Ordered ps
  nonempty : ∀ p ∈ ps, 0 < p.length
  separated : ps.Pairwise fun p q => p.stop = q.start → p.label ≠ q.label

omit [DecidableEq α] in
theorem Normal.nil : Normal ([] : List (Piece α)) := ⟨.nil, by simp, List.Pairwise.nil⟩

/-- A piece after all others keeps the list normal. -/
theorem Normal.push {ps : List (Piece α)} (h : Normal ps) {p : Piece α} (pos : 0 < p.length)
    (after : ∀ q ∈ ps, q.stop ≤ p.start) : Normal (push ps p) := by
  rcases push_cases ps p with ⟨qs, q, rfl, touch, label, h'⟩ | ⟨apart, h'⟩
  · rw [h']
    obtain ⟨ordered, -, before⟩ := ordered_append.mp h.ordered
    obtain ⟨separated, -, differ⟩ := List.pairwise_append.mp h.separated
    refine ⟨ordered_append.mpr ⟨ordered, List.pairwise_singleton _ _, ?_⟩, ?_,
      List.pairwise_append.mpr ⟨separated, List.pairwise_singleton _ _, ?_⟩⟩
    · intro r hr s hs
      rw [List.mem_singleton.mp hs]
      exact before r hr q List.mem_cons_self
    · intro r hr
      rcases List.mem_append.mp hr with hr | hr
      · exact h.nonempty r (List.mem_append_left _ hr)
      · rw [List.mem_singleton.mp hr]
        exact Nat.lt_of_lt_of_le pos (Nat.le_add_left _ _)
    · intro r hr s hs
      rw [List.mem_singleton.mp hs, ← label]
      exact differ r hr q List.mem_cons_self
  · rw [h']
    refine ⟨ordered_append.mpr ⟨h.ordered, List.pairwise_singleton _ _, ?_⟩, ?_,
      List.pairwise_append.mpr ⟨h.separated, List.pairwise_singleton _ _, ?_⟩⟩
    · intro r hr s hs
      rw [List.mem_singleton.mp hs]
      exact after r hr
    · intro r hr
      rcases List.mem_append.mp hr with hr | hr
      · exact h.nonempty r hr
      · rwa [List.mem_singleton.mp hr]
    · intro r hr s hs
      rw [List.mem_singleton.mp hs]
      intro touch
      -- only the last piece can reach the new one, the others end before it begins
      rcases List.eq_nil_or_concat' ps with rfl | ⟨qs, q, rfl⟩
      · cases hr
      · rcases List.mem_append.mp hr with hr | hr
        · have := (ordered_append.mp h.ordered).2.2 r hr q List.mem_cons_self
          have := h.nonempty q (by simp)
          have := after q (by simp)
          have : q.stop = q.start + q.length := rfl
          omega
        · rw [List.mem_singleton.mp hr] at touch ⊢
          exact apart qs q rfl touch

theorem normal_coalesce {ps : List (Piece α)} (ordered : Ordered ps)
    (nonempty : ∀ p ∈ ps, 0 < p.length) : Normal (coalesce ps) := by
  have fold : ∀ qs, Normal qs → (∀ q ∈ qs, ∀ p ∈ ps, q.stop ≤ p.start) →
      Normal (ps.foldl push qs) := by
    induction ps with
    | nil => exact fun qs h _ => h
    | cons p ps ih =>
        intro qs h before
        obtain ⟨first, rest⟩ := ordered_cons.mp ordered
        refine ih rest (fun q hq => nonempty q (List.mem_cons_of_mem _ hq)) _
          (h.push (nonempty p List.mem_cons_self) fun q hq => before q hq p List.mem_cons_self) ?_
        intro r hr s hs
        rcases push_cases qs p with ⟨qs', q, rfl, touch, -, h'⟩ | ⟨-, h'⟩ <;>
          rw [h', List.mem_append] at hr <;> rcases hr with hr | hr
        · exact before r (List.mem_append_left _ hr) s (List.mem_cons_of_mem _ hs)
        · rw [List.mem_singleton.mp hr]
          have := first s hs
          simp only [Piece.stop] at this touch ⊢
          omega
        · exact before r hr s (List.mem_cons_of_mem _ hs)
        · rw [List.mem_singleton.mp hr]
          exact first s hs
  exact fold [] .nil (by simp)

omit [DecidableEq α] in
/-- Two neighbouring numbers of one label lie in one piece of a normal list. -/
theorem Normal.joined {ps : List (Piece α)} (h : Normal ps) {n : Nat} {a : α}
    (left : Labels ps n a) (right : Labels ps (n + 1) a) :
    ∃ p ∈ ps, n ∈ p.cells ∧ n + 1 ∈ p.cells := by
  obtain ⟨p, member, inside, label⟩ := left
  obtain ⟨q, member', inside', label'⟩ := right
  rw [Piece.mem_cells] at inside inside'
  refine ⟨p, member, Piece.mem_cells.mpr inside, Piece.mem_cells.mpr ⟨by omega, ?_⟩⟩
  -- otherwise `p` ends between the two numbers, and the next piece begins there
  by_contra ends
  have ne : p ≠ q := by
    rintro rfl
    omega
  have both := h.ordered.and h.separated
  rcases pairwise_or both member member' ne with ⟨before, differ⟩ | ⟨before, -⟩
  · exact differ (by omega) (label.trans label'.symm)
  · omega

omit [DecidableEq α] in
/-- The pieces of a normal list lie each within one of the ordered pieces they are covered by
if and only if no label goes on across the boundary of two of these that touch. -/
theorem Normal.within_iff {ps : List (Piece α)} (h : Normal ps) {qs : List (Piece β)}
    (ordered : Ordered qs) (nonempty : ∀ q ∈ qs, 0 < q.length) (covered : cells ps ⊆ cells qs) :
    (∀ p ∈ ps, ∃ q ∈ qs, q.start ≤ p.start ∧ p.stop ≤ q.stop) ↔
      ∀ q ∈ qs, ∀ r ∈ qs, q.stop = r.start →
        ∀ a, ¬(Labels ps (q.stop - 1) a ∧ Labels ps r.start a) := by
  constructor
  · rintro within q member r member' touch a ⟨left, right⟩
    have some := nonempty q member
    have some' := nonempty r member'
    have size : q.stop = q.start + q.length := rfl
    have size' : r.stop = r.start + r.length := rfl
    have next : r.start = q.stop - 1 + 1 := by omega
    obtain ⟨p, among, inside, inside'⟩ := h.joined left (next ▸ right)
    obtain ⟨whole, listed, start, stop⟩ := within p among
    rw [Piece.mem_cells] at inside inside'
    have ofLeft : whole = q := ordered.eq_of_mem (n := q.stop - 1) listed member
      (Piece.mem_cells.mpr ⟨by omega, by omega⟩) (Piece.mem_cells.mpr ⟨by omega, by omega⟩)
    have ofRight : whole = r := ordered.eq_of_mem (n := r.start) listed member'
      (Piece.mem_cells.mpr ⟨by omega, by omega⟩) (Piece.mem_cells.mpr ⟨by omega, by omega⟩)
    have same : q = r := ofLeft.symm.trans ofRight
    subst same
    omega
  · intro apart p member
    have some := h.nonempty p member
    have size : p.stop = p.start + p.length := rfl
    have inPieces : ∀ {n}, p.start ≤ n → n < p.stop → n ∈ cells qs := fun low high =>
      covered (mem_cells.mpr ⟨p, member, Piece.mem_cells.mpr ⟨low, high⟩⟩)
    have labelled : ∀ {n}, p.start ≤ n → n < p.stop → Labels ps n p.label := fun low high =>
      ⟨p, member, Piece.mem_cells.mpr ⟨low, high⟩, rfl⟩
    obtain ⟨q, among, inside⟩ := mem_cells.mp (inPieces (Nat.le_refl _) (by omega))
    rw [Piece.mem_cells] at inside
    refine ⟨q, among, inside.1, ?_⟩
    by_contra beyond
    obtain ⟨r, among', inside'⟩ := mem_cells.mp (inPieces (n := q.stop) (by omega) (by omega))
    rw [Piece.mem_cells] at inside'
    have ne : q ≠ r := by
      rintro rfl
      omega
    have touch : q.stop = r.start := by
      rcases pairwise_or ordered among among' ne with before | before <;> omega
    exact apart q among r among' touch p.label
      ⟨labelled (by omega) (by omega), labelled (by omega) (by omega)⟩

end Coalesce

/-! ### Maximal intervals -/

/-- A nonempty interval with the constant label `p.label` that cannot be extended. -/
structure MaximalPiece (f : Nat → α → Prop) (p : Piece α) : Prop where
  nonempty : 0 < p.length
  constant : ∀ n ∈ p.cells, f n p.label
  left : ∀ n, n + 1 = p.start → ¬f n p.label
  right : ¬f p.stop p.label

/-- The list of all maximal intervals of equal label, in increasing order. -/
structure Maximal (f : Nat → α → Prop) (ps : List (Piece α)) : Prop where
  ordered : Ordered ps
  mem_iff : ∀ p, p ∈ ps ↔ MaximalPiece f p

theorem MaximalPiece.start_le {f : Nat → α → Prop} {p q : Piece α} (hp : MaximalPiece f p)
    (hq : MaximalPiece f q) (label : p.label = q.label) {n : Nat} (hnp : n ∈ p.cells)
    (hnq : n ∈ q.cells) : p.start ≤ q.start := by
  by_contra later
  rw [Piece.mem_cells] at hnp hnq
  refine hp.left (p.start - 1) (by omega) (label ▸ hq.constant _ ?_)
  rw [Piece.mem_cells]
  omega

theorem MaximalPiece.stop_le {f : Nat → α → Prop} {p q : Piece α} (hp : MaximalPiece f p)
    (hq : MaximalPiece f q) (label : p.label = q.label) {n : Nat} (hnp : n ∈ p.cells)
    (hnq : n ∈ q.cells) : p.stop ≤ q.stop := by
  by_contra further
  rw [Piece.mem_cells] at hnp hnq
  refine hq.right (label ▸ hp.constant _ ?_)
  rw [Piece.mem_cells]
  omega

/-- Maximal intervals of one label that share a number are equal. -/
theorem MaximalPiece.unique {f : Nat → α → Prop} {p q : Piece α} (hp : MaximalPiece f p)
    (hq : MaximalPiece f q) (label : p.label = q.label) {n : Nat} (hnp : n ∈ p.cells)
    (hnq : n ∈ q.cells) : p = q := by
  have start : p.start = q.start :=
    Nat.le_antisymm (hp.start_le hq label hnp hnq) (hq.start_le hp label.symm hnq hnp)
  have stop : p.stop = q.stop :=
    Nat.le_antisymm (hp.stop_le hq label hnp hnq) (hq.stop_le hp label.symm hnq hnp)
  refine Piece.ext start ?_ label
  rw [Piece.stop, Piece.stop] at stop
  omega

/-- There is at most one list of maximal intervals. -/
theorem Maximal.unique {f : Nat → α → Prop} {ps qs : List (Piece α)} (hp : Maximal f ps)
    (hq : Maximal f qs) : ps = qs := by
  have nodup : ∀ {rs : List (Piece α)}, Maximal f rs → rs.Nodup := by
    intro rs h
    refine List.Pairwise.imp_of_mem ?_ h.ordered
    rintro p q hp - before rfl
    have := ((h.mem_iff p).mp hp).nonempty
    rw [Piece.stop] at before
    omega
  have perm : ps.Perm qs := (List.perm_ext_iff_of_nodup (nodup hp) (nodup hq)).mpr
    fun p => (hp.mem_iff p).trans (hq.mem_iff p).symm
  refine perm.eq_of_pairwise ?_ hp.ordered hq.ordered
  intro p q hp' hq' before before'
  have := ((hp.mem_iff p).mp hp').nonempty
  rw [Piece.stop] at before before'
  omega

/-- A normal list lists the maximal intervals of the labelling it defines. -/
theorem Normal.maximal {ps : List (Piece α)} (h : Normal ps) : Maximal (Labels ps) ps := by
  have separated : ∀ {p q : Piece α}, p ∈ ps → q ∈ ps → p.stop = q.start → p.label ≠ q.label := by
    intro p q hp hq touch
    have pos := h.nonempty p hp
    have pos' := h.nonempty q hq
    rcases eq_or_ne p q with rfl | ne
    · rw [Piece.stop] at touch
      omega
    · rcases pairwise_or (h.ordered.and h.separated) hp hq ne with ⟨-, differ⟩ | ⟨before, -⟩
      · exact differ touch
      · rw [Piece.stop] at before touch
        omega
  have within : ∀ {p q : Piece α}, p ∈ ps → q ∈ ps → ∀ n, n ∈ p.cells → n ∈ q.cells → p = q :=
    fun hp hq n hnp hnq => h.ordered.eq_of_mem hp hq hnp hnq
  have member : ∀ p ∈ ps, MaximalPiece (Labels ps) p := by
    intro p hp
    have pos := h.nonempty p hp
    refine ⟨pos, fun n hn => ⟨p, hp, hn, rfl⟩, ?_, ?_⟩
    · rintro n before ⟨q, hq, hn, label⟩
      rw [Piece.mem_cells] at hn
      have touch : q.stop = p.start := by
        by_contra further
        have same : q = p := within hq hp p.start (Piece.mem_cells.mpr ⟨by omega, by omega⟩)
          (Piece.mem_cells.mpr ⟨Nat.le_refl _, Nat.lt_add_of_pos_right pos⟩)
        rw [same] at hn
        omega
      exact separated hq hp touch label
    · rintro ⟨q, hq, hn, label⟩
      rw [Piece.mem_cells] at hn
      have touch : p.stop = q.start := by
        by_contra earlier
        have last : p.start + p.length = p.stop := rfl
        have same : q = p := within hq hp (p.stop - 1) (Piece.mem_cells.mpr ⟨by omega, by omega⟩)
          (Piece.mem_cells.mpr ⟨by omega, by omega⟩)
        rw [same] at hn
        omega
      exact separated hp hq touch label.symm
  refine ⟨h.ordered, fun p => ⟨member p, fun maximal => ?_⟩⟩
  have first : p.start ∈ p.cells :=
    Piece.mem_cells.mpr ⟨Nat.le_refl _, Nat.lt_add_of_pos_right maximal.nonempty⟩
  obtain ⟨q, hq, hn, label⟩ := maximal.constant _ first
  rwa [maximal.unique (member q hq) label.symm first hn]

/-- Coalescing ordered pieces yields the maximal intervals of equal label. -/
theorem maximal_coalesce [DecidableEq α] {ps : List (Piece α)} (ordered : Ordered ps)
    (nonempty : ∀ p ∈ ps, 0 < p.length) : Maximal (Labels ps) (coalesce ps) := by
  have same : Labels (coalesce ps) = Labels ps := by
    funext n a
    exact propext (labels_coalesce ps n a)
  exact same ▸ (normal_coalesce ordered nonempty).maximal

end Interval
