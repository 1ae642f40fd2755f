import Mathlib.Data.List.GetD
import Mathlib.Data.List.Induction
import Mathlib.Data.List.ReduceOption

/-!
# Streams with gaps

A stream of optional values can be stored with a blank in place of each gap, or closed up, so
that the later values move forward. The two agree, the closed stream being continued with
blanks, if and only if no value behind a gap differs from the blank.
-/

namespace Gaps

variable {α : Type} (blank : α)

/-- The stream with a blank in each gap. -/
def filled (slots : List (Option α)) : List α := slots.map fun slot => slot.getD blank

/-- Behind a gap there are only blanks and gaps. -/
def BlankBehind (slots : List (Option α)) : Prop :=
  slots.Pairwise fun earlier later => earlier = none → later.getD blank = blank

variable {blank} {slots : List (Option α)}

theorem getD_of_all_blank {values : List α} (all : ∀ value ∈ values, value = blank) (m : Nat) :
    values.getD m blank = blank := by
  by_cases inside : m < values.length
  · rw [List.getD_eq_getElem _ _ inside]
    exact all _ (List.getElem_mem inside)
  · exact List.getD_eq_default _ _ (Nat.le_of_not_lt inside)

theorem getD_append_blank {front values : List α} (all : ∀ value ∈ values, value = blank)
    (m : Nat) : (front ++ values).getD m blank = front.getD m blank := by
  by_cases inside : m < front.length
  · exact List.getD_append _ _ _ _ inside
  · have beyond := Nat.le_of_not_lt inside
    rw [List.getD_append_right _ _ _ _ beyond, getD_of_all_blank all,
      List.getD_eq_default _ _ beyond]

theorem filled_blank (all : ∀ slot ∈ slots, slot.getD blank = blank) :
    ∀ value ∈ filled blank slots, value = blank := by
  intro value member
  obtain ⟨slot, among, rfl⟩ := List.mem_map.mp member
  exact all slot among

theorem reduceOption_blank (all : ∀ slot ∈ slots, slot.getD blank = blank) :
    ∀ value ∈ slots.reduceOption, value = blank := by
  intro value member
  exact all (some value) (List.reduceOption_mem_iff.mp member)

/-- A closed stream that agrees with the stream one place later is blank. The induction is on
the last value: it has no counterpart. -/
theorem blank_of_shifted (agree : ∀ m ≤ slots.length,
      slots.reduceOption.getD m blank = (blank :: filled blank slots).getD m blank) :
    ∀ slot ∈ slots, slot.getD blank = blank := by
  induction slots using List.reverseRecOn with
  | nil => exact fun _ member => (List.not_mem_nil member).elim
  | append_singleton slots last ih =>
      have blanks : last.getD blank = blank := by
        have final := agree (slots.length + 1) (by simp)
        have short : (slots ++ [last]).reduceOption.length ≤ slots.length + 1 := by
          have := List.reduceOption_length_le (slots ++ [last])
          rwa [List.length_append, List.length_singleton] at this
        rw [List.getD_eq_default _ _ short, List.getD_cons_succ, filled, List.map_append,
          List.getD_append_right _ _ _ _ (by simp), List.length_map,
          Nat.sub_self] at final
        exact final.symm
      have single : ∀ slot ∈ [last], slot.getD blank = blank := fun slot member =>
        List.mem_singleton.mp member ▸ blanks
      have before : ∀ slot ∈ slots, slot.getD blank = blank := by
        refine ih fun m le => ?_
        have same := agree m (by rw [List.length_append]; omega)
        rwa [List.reduceOption_append, getD_append_blank (reduceOption_blank single), filled,
          List.map_append, ← List.cons_append, ← filled, ← filled,
          getD_append_blank (filled_blank single)] at same
      intro slot member
      cases List.mem_append.mp member with
      | inl old => exact before slot old
      | inr new => exact single slot new

/-- Closing the gaps of a stream moves no value, up to blanks, if and only if there are only
blanks behind the first gap. -/
theorem agree_iff : (∀ m < slots.length,
      slots.reduceOption.getD m blank = (filled blank slots).getD m blank) ↔
    BlankBehind blank slots := by
  induction slots with
  | nil => exact ⟨fun _ => List.Pairwise.nil, fun _ _ no => (Nat.not_lt_zero _ no).elim⟩
  | cons slot slots ih =>
      rw [BlankBehind, List.pairwise_cons, ← BlankBehind, ← ih]
      cases slot with
      | some value =>
          rw [List.reduceOption_cons_of_some, filled, List.map_cons, ← filled]
          constructor
          · intro agree
            refine ⟨fun _ _ no => (Option.some_ne_none _ no).elim, fun m inside => ?_⟩
            exact agree (m + 1) (Nat.succ_lt_succ inside)
          · rintro ⟨-, agree⟩ m inside
            cases m with
            | zero => rfl
            | succ m => exact agree m (Nat.lt_of_succ_lt_succ inside)
      | none =>
          rw [List.reduceOption_cons_of_none, filled, List.map_cons, ← filled]
          constructor
          · intro agree
            have all := blank_of_shifted fun m le => agree m (Nat.lt_succ_of_le le)
            refine ⟨fun later member _ => all later member, fun m _ => ?_⟩
            rw [getD_of_all_blank (reduceOption_blank all), getD_of_all_blank (filled_blank all)]
          · rintro ⟨behind, -⟩ m -
            have all : ∀ slot ∈ slots, slot.getD blank = blank := fun slot member =>
              behind slot member rfl
            rw [getD_of_all_blank (reduceOption_blank all)]
            exact (getD_of_all_blank (List.forall_mem_cons.mpr ⟨rfl, filled_blank all⟩) m).symm

end Gaps
