import Mathlib.Logic.Basic

/-!
# States with a history

A `History` is a state together with every event that led to it and the state in
which each event happened. A crash may stop a program between any two events, so
what holds across crashes is what holds of every recorded state.
-/

structure History (σ ε : Type) where
  now : σ
  past : List (σ × ε) := []

namespace History

variable {σ ε : Type}

/-- The next event. -/
def perform (apply : ε → σ → σ) (e : ε) (h : History σ ε) : History σ ε :=
  ⟨apply e h.now, h.past ++ [(h.now, e)]⟩

/-- The state after the first `k` events, and the last state from then on. -/
def after (h : History σ ε) (k : Nat) : σ :=
  match h.past[k]? with
  | some (state, _) => state
  | none => h.now

/-- `P` holds in every state of the history. -/
def Always (P : σ → Prop) (h : History σ ε) : Prop :=
  (∀ entry ∈ h.past, P entry.1) ∧ P h.now

/-- `Q` holds of every event and the state in which it happened. -/
def Every (Q : σ → ε → Prop) (h : History σ ε) : Prop := ∀ entry ∈ h.past, Q entry.1 entry.2

theorem Always.after {P : σ → Prop} {h : History σ ε} (always : Always P h) (k : Nat) :
    P (h.after k) := by
  unfold History.after
  cases entry : h.past[k]? with
  | none => exact always.2
  | some found => exact always.1 found (List.mem_of_getElem? entry)

variable {apply : ε → σ → σ} {e : ε} {h : History σ ε}

@[simp] theorem now_perform : (perform apply e h).now = apply e h.now := rfl

/-- The next event changes none of the earlier states. -/
theorem after_perform_of_le {k : Nat} (le : k ≤ h.past.length) :
    (perform apply e h).after k = h.after k := by
  rcases Nat.lt_or_eq_of_le le with earlier | rfl
  · have same : (h.past ++ [(h.now, e)])[k]? = h.past[k]? := List.getElem?_append_left earlier
    rw [after, after, perform, same, List.getElem?_eq_getElem earlier]
  · rw [after, after, perform, List.getElem?_concat_length, List.getElem?_eq_none (Nat.le_refl _)]

theorem after_of_length_le {k : Nat} (le : h.past.length ≤ k) : h.after k = h.now := by
  rw [after, List.getElem?_eq_none le]

theorem Always.perform {P : σ → Prop} (always : Always P h) (next : P (apply e h.now)) :
    Always P (perform apply e h) := by
  refine ⟨fun entry member => ?_, next⟩
  rcases List.mem_append.mp member with old | new
  · exact always.1 entry old
  · rw [List.mem_singleton.mp new]
    exact always.2

theorem every_perform {Q : σ → ε → Prop} :
    Every Q (perform apply e h) ↔ Every Q h ∧ Q h.now e := by
  simp only [Every, History.perform, List.mem_append, List.mem_singleton, or_imp, forall_and,
    forall_eq]

theorem Every.mono {Q Q' : σ → ε → Prop} (every : Every Q h) (imp : ∀ s e, Q s e → Q' s e) :
    Every Q' h := fun entry member => imp _ _ (every entry member)

end History
