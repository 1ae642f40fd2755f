import Mathlib.Logic.Relation

/-!
# Runs of a transition system

A system is given by its step function, which says what an event does in a state, and nothing
where the event cannot happen. A run is a sequence of events that can happen one after the other.
What a step preserves, a run preserves.
-/

namespace Transition

variable {σ ε : Type} (step : σ → ε → Option σ)

/-- The events lead from the first state to the second. -/
inductive Run : σ → List ε → σ → Prop
  | nil (s : σ) : Run s [] s
  | cons {s m t : σ} {e : ε} {es : List ε} (first : step s e = some m) (rest : Run m es t) :
      Run s (e :: es) t

/-- A run can be computed. -/
theorem run_iff {step : σ → ε → Option σ} {s t : σ} {es : List ε} :
    Run step s es t ↔ es.foldlM step s = some t := by
  constructor
  · intro run
    induction run with
    | nil => rfl
    | cons first _ ih =>
        rw [List.foldlM_cons, first]
        exact ih
  · intro computed
    induction es generalizing s with
    | nil =>
        obtain rfl := Option.some.inj computed
        exact .nil s
    | cons e es ih =>
        rw [List.foldlM_cons, Option.bind_eq_bind, Option.bind_eq_some_iff] at computed
        obtain ⟨m, first, rest⟩ := computed
        exact .cons first (ih rest)

/-- Some events lead from the first state to the second. -/
def Reaches (s t : σ) : Prop := ∃ es, Run step s es t

variable {step} {s m t : σ} {e : ε} {es es' : List ε}

theorem Run.single (stepped : step s e = some t) : Run step s [e] t := .cons stepped (.nil t)

theorem Run.append (first : Run step s es m) (rest : Run step m es' t) :
    Run step s (es ++ es') t := by
  induction first with
  | nil => exact rest
  | cons stepped _ ih => exact .cons stepped (ih rest)

/-- The rule of invariants. -/
theorem Run.invariant {I : σ → Prop} (run : Run step s es t) (start : I s)
    (preserved : ∀ s e t, I s → step s e = some t → I t) : I t := by
  induction run with
  | nil => exact start
  | cons stepped _ ih => exact ih (preserved _ _ _ start stepped)

/-- The rule of invariants for runs of which all events have a property. -/
theorem Run.invariant_of {I : σ → Prop} {A : ε → Prop} (run : Run step s es t) (start : I s)
    (allowed : ∀ e ∈ es, A e) (preserved : ∀ s e t, A e → I s → step s e = some t → I t) :
    I t := by
  induction run with
  | nil => exact start
  | cons stepped _ ih =>
      exact ih (preserved _ _ _ (allowed _ List.mem_cons_self) start stepped)
        fun e member => allowed e (List.mem_cons_of_mem _ member)

theorem Reaches.refl (s : σ) : Reaches step s s := ⟨[], .nil s⟩

theorem Reaches.trans (first : Reaches step s m) (rest : Reaches step m t) : Reaches step s t := by
  obtain ⟨es, first⟩ := first
  obtain ⟨es', rest⟩ := rest
  exact ⟨es ++ es', first.append rest⟩

theorem Reaches.next (stepped : step s e = some t) : Reaches step s t := ⟨[e], .single stepped⟩

end Transition
