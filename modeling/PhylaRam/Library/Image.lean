import Mathlib.Data.List.GetD
import Mathlib.Tactic.Ring

/-!
# Images built by positioned writes

An image is a function from positions to values; `overlay` writes a list at an
offset. The content of a file is a finite list, read as an image that is `blank`
past its end; `patch` is a positioned write to such a list, which fills a gap
before the offset with blanks. `view_patch` says that the two agree, so facts
about images carry over to files.
-/

namespace Image

variable {α : Type*}

def overlay (image : Nat → α) (offset : Nat) (data : List α) : Nat → α := fun n =>
  if offset ≤ n then data.getD (n - offset) (image n) else image n

theorem overlay_of_lt {image : Nat → α} {offset : Nat} {data : List α} {n : Nat}
    (h : n < offset) : overlay image offset data n = image n :=
  if_neg (Nat.not_le_of_lt h)

theorem overlay_of_mem {image : Nat → α} {offset : Nat} {data : List α} {i : Nat}
    (h : i < data.length) : overlay image offset data (offset + i) = data[i] := by
  rw [overlay, if_pos (Nat.le_add_right _ _), Nat.add_sub_cancel_left, List.getD_eq_getElem _ _ h]

theorem overlay_of_ge {image : Nat → α} {offset : Nat} {data : List α} {n : Nat}
    (h : offset + data.length ≤ n) : overlay image offset data n = image n := by
  rw [overlay, if_pos (by omega), List.getD_eq_default _ _ (by omega)]

@[simp] theorem overlay_nil (image : Nat → α) (offset : Nat) : overlay image offset [] = image := by
  funext n
  simp [overlay]

/-- Consecutive writes are one write. -/
theorem overlay_append (image : Nat → α) (offset : Nat) (xs ys : List α) :
    overlay (overlay image offset xs) (offset + xs.length) ys =
      overlay image offset (xs ++ ys) := by
  funext n
  by_cases before : n < offset + xs.length
  · rw [overlay_of_lt before]
    by_cases outside : n < offset
    · rw [overlay_of_lt outside, overlay_of_lt outside]
    · obtain ⟨i, rfl⟩ := Nat.exists_eq_add_of_le (Nat.le_of_not_lt outside)
      have hi : i < xs.length := by omega
      rw [overlay_of_mem hi, overlay_of_mem (by rw [List.length_append]; omega),
        List.getElem_append_left hi]
  · by_cases beyond : offset + (xs ++ ys).length ≤ n
    · rw [overlay_of_ge beyond]
      rw [List.length_append] at beyond
      rw [overlay_of_ge (by omega), overlay_of_ge (by omega)]
    · rw [List.length_append] at beyond
      obtain ⟨i, rfl⟩ := Nat.exists_eq_add_of_le (Nat.le_of_not_lt before)
      have hi : i < ys.length := by omega
      rw [overlay_of_mem hi, Nat.add_assoc, overlay_of_mem (by rw [List.length_append]; omega),
        List.getElem_append_right (Nat.le_add_right _ _)]
      simp

/-- The first `n` values of an image. -/
def upTo (image : Nat → α) (n : Nat) : List α := (List.range n).map image

@[simp] theorem length_upTo (image : Nat → α) (n : Nat) : (upTo image n).length = n := by
  simp [upTo]

@[simp] theorem upTo_zero (image : Nat → α) : upTo image 0 = [] := rfl

theorem getElem_upTo {image : Nat → α} {n i : Nat} (h : i < (upTo image n).length) :
    (upTo image n)[i] = image i := by
  simp [upTo]

theorem upTo_add (image : Nat → α) (n m : Nat) :
    upTo image (n + m) = upTo image n ++ (List.range m).map fun i => image (n + i) := by
  rw [upTo, upTo, List.range_add, List.map_append, List.map_map]
  rfl

theorem upTo_congr {image image' : Nat → α} {n : Nat} (h : ∀ i < n, image i = image' i) :
    upTo image n = upTo image' n :=
  List.map_congr_left fun i hi => h i (List.mem_range.mp hi)

/-- Nothing has been written at `n` or above. -/
def BlankFrom (blank : α) (image : Nat → α) (n : Nat) : Prop := ∀ m, n ≤ m → image m = blank

theorem BlankFrom.mono {blank : α} {image : Nat → α} {n m : Nat} (h : BlankFrom blank image n)
    (le : n ≤ m) : BlankFrom blank image m := fun k hk => h k (Nat.le_trans le hk)

theorem BlankFrom.overlay {blank : α} {image : Nat → α} {offset : Nat} {data : List α}
    (h : BlankFrom blank image offset) :
    BlankFrom blank (overlay image offset data) (offset + data.length) := fun k hk => by
  rw [overlay_of_ge hk]
  exact h k (by omega)

theorem BlankFrom.upTo {blank : α} {image : Nat → α} {n m : Nat} (h : BlankFrom blank image n)
    (le : n ≤ m) : upTo image m = upTo image n ++ List.replicate (m - n) blank := by
  obtain ⟨k, rfl⟩ := Nat.exists_eq_add_of_le le
  rw [upTo_add, Nat.add_sub_cancel_left]
  congr 1
  rw [List.eq_replicate_iff]
  refine ⟨by simp, fun b hb => ?_⟩
  obtain ⟨i, -, rfl⟩ := List.mem_map.mp hb
  exact h _ (Nat.le_add_right _ _)

/-- Writing where the first `offset` values end appends to them. -/
theorem upTo_overlay (image : Nat → α) (offset : Nat) (data : List α) :
    upTo (overlay image offset data) (offset + data.length) = upTo image offset ++ data := by
  rw [upTo_add]
  congr 1
  · exact upTo_congr fun i hi => overlay_of_lt hi
  · refine List.ext_getElem (by simp) fun i hi hi' => ?_
    rw [List.getElem_map, List.getElem_range, overlay_of_mem hi']

section Content

variable (blank : α)

/-- A list as an image that is blank past its end. -/
def view (content : List α) : Nat → α := fun n => content.getD n blank

/-- The content after a positioned write. -/
def patch (content : List α) (offset : Nat) (data : List α) : List α :=
  content.take offset ++ List.replicate (offset - content.length) blank ++ data ++
    content.drop (offset + data.length)

theorem length_patch (content : List α) (offset : Nat) (data : List α) :
    (patch blank content offset data).length = max content.length (offset + data.length) := by
  simp only [patch, List.length_append, List.length_take, List.length_replicate, List.length_drop]
  omega

theorem view_of_lt {content : List α} {n : Nat} (h : n < content.length) :
    view blank content n = content[n] := List.getD_eq_getElem _ _ h

theorem view_of_ge {content : List α} {n : Nat} (h : content.length ≤ n) :
    view blank content n = blank := List.getD_eq_default _ _ h

theorem upTo_view (content : List α) : upTo (view blank content) content.length = content := by
  refine List.ext_getElem (by simp) fun i hi hi' => ?_
  rw [getElem_upTo, view_of_lt blank hi']

theorem view_append_left {xs ys : List α} {n : Nat} (h : n < xs.length) :
    view blank (xs ++ ys) n = view blank xs n := by
  rw [view, view, List.getD_append _ _ _ _ h]

theorem view_append_right {xs ys : List α} {n : Nat} (h : xs.length ≤ n) :
    view blank (xs ++ ys) n = view blank ys (n - xs.length) := by
  rw [view, view, List.getD_append_right _ _ _ _ h]

/-- A positioned write to a file is a write to its image. -/
theorem view_patch (content : List α) (offset : Nat) (data : List α) :
    view blank (patch blank content offset data) =
      overlay (view blank content) offset data := by
  have front : (content.take offset ++ List.replicate (offset - content.length) blank).length =
      offset := by
    simp only [List.length_append, List.length_take, List.length_replicate]
    omega
  funext n
  rw [patch, List.append_assoc]
  by_cases before : n < offset
  · rw [view_append_left blank (by omega), overlay_of_lt before]
    by_cases inside : n < content.length
    · rw [view_append_left blank (by rw [List.length_take]; omega), view, view,
        List.getD_eq_getElem?_getD, List.getD_eq_getElem?_getD, List.getElem?_take_of_lt before]
    · rw [view_append_right blank (by rw [List.length_take]; omega),
        view_of_ge blank (Nat.le_of_not_lt inside), view,
        List.getD_replicate _ (by rw [List.length_take]; omega)]
  · obtain ⟨i, rfl⟩ := Nat.exists_eq_add_of_le (Nat.le_of_not_lt before)
    rw [view_append_right blank (by omega), front, Nat.add_sub_cancel_left]
    by_cases inside : i < data.length
    · rw [view_append_left blank inside, view_of_lt blank inside, overlay_of_mem inside]
    · rw [view_append_right blank (by omega), overlay_of_ge (by omega), view, view,
        List.getD_eq_getElem?_getD, List.getD_eq_getElem?_getD, List.getElem?_drop]
      congr 2
      omega

/-- A file is determined by its length and its image. -/
theorem eq_upTo_of_view {content : List α} {image : Nat → α}
    (h : view blank content = image) : content = upTo image content.length := by
  rw [← h, upTo_view]

theorem ext_view {xs ys : List α} (length : xs.length = ys.length)
    (h : view blank xs = view blank ys) : xs = ys := by
  rw [← upTo_view blank xs, ← upTo_view blank ys, h, length]

theorem patch_nil {content : List α} {offset : Nat} (within : offset ≤ content.length) :
    patch blank content offset [] = content := by
  refine ext_view blank ?_ ?_
  · rw [length_patch, List.length_nil]
    omega
  · rw [view_patch, overlay_nil]

/-- Consecutive positioned writes are one positioned write. -/
theorem patch_append (content : List α) (offset : Nat) (xs ys : List α) :
    patch blank (patch blank content offset xs) (offset + xs.length) ys =
      patch blank content offset (xs ++ ys) := by
  refine ext_view blank ?_ ?_
  · simp only [length_patch, List.length_append]
    omega
  · simp only [view_patch, overlay_append]

/-- Writing at the end appends. -/
theorem patch_end (content data : List α) :
    patch blank content content.length data = content ++ data := by
  rw [patch, List.take_length, Nat.sub_self, List.replicate_zero, List.append_nil,
    List.drop_of_length_le (Nat.le_add_right _ _), List.append_nil]

/-- Writing over a part of the same length replaces it. -/
theorem patch_middle {front middle data : List α} (rest : List α)
    (length : data.length = middle.length) :
    patch blank (front ++ middle ++ rest) front.length data = front ++ data ++ rest := by
  have after : front.length + data.length = (front ++ middle).length := by
    rw [List.length_append, length]
  rw [patch, after, List.drop_left, List.append_assoc front, List.take_left,
    Nat.sub_eq_zero_of_le (by rw [List.length_append]; exact Nat.le_add_right _ _),
    List.replicate_zero, List.append_nil]

/-- Writing a whole new file. -/
theorem patch_empty (data : List α) : patch blank [] 0 data = data := by
  simp [patch]

end Content

end Image
