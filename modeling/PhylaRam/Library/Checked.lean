import Mathlib.Data.List.Forall2

/-!
# When a checker accepts

A checker is an `Except ε α` program: a chain of tests, each of which may end it
with an error. The rules here say when such a program returns a given value. They
turn a chain of tests into the conjunction of what is tested, whatever the
errors are.
-/

namespace Checked

universe u v w

variable {ε : Type u} {ε' : Type w} {α β : Type v}

@[simp] theorem bind_eq_ok {x : Except ε α} {f : α → Except ε β} {b : β} :
    (x >>= f) = .ok b ↔ ∃ a, x = .ok a ∧ f a = .ok b := by
  cases x with
  | ok a =>
      constructor
      · intro h
        exact ⟨a, rfl, h⟩
      · rintro ⟨a', same, h⟩
        rw [Except.ok.inj same]
        exact h
  | error e =>
      constructor
      · intro h
        cases h
      · rintro ⟨a, h, -⟩
        cases h

@[simp] theorem pure_eq_ok {a b : α} : (pure a : Except ε α) = .ok b ↔ a = b := by
  constructor
  · intro h
    exact Except.ok.inj h
  · rintro rfl
    rfl

@[simp] theorem throw_ne_ok {e : ε} {a : α} : (throw e : Except ε α) ≠ .ok a := by
  intro h
  cases h

/-- A test that ends the program with an error when it finds `c`. -/
@[simp] theorem ite_throw_eq_ok {c : Prop} [Decidable c] {e : ε} {k : α → Except ε β}
    {x : Except ε β} {b : β} :
    (if c then throw e >>= k else x) = .ok b ↔ ¬c ∧ x = .ok b := by
  by_cases h : c
  · rw [if_pos h]
    simp [h]
  · rw [if_neg h]
    simp [h]

@[simp] theorem ite_throw_end_eq_ok {c : Prop} [Decidable c] {e : ε} {x : Except ε β} {b : β} :
    (if c then throw e else x) = .ok b ↔ ¬c ∧ x = .ok b := by
  by_cases h : c
  · rw [if_pos h]
    simp [h]
  · rw [if_neg h]
    simp [h]

/-- The value of an option, or the error. -/
def okOr (o : Option α) (e : ε) : Except ε α := o.elim (.error e) .ok

@[simp] theorem okOr_eq_ok {o : Option α} {e : ε} {a : α} : okOr o e = .ok a ↔ o = some a := by
  cases o with
  | none => simp [okOr]
  | some b => simp [okOr]

/-- The same program with its errors renamed. -/
def mapErr (f : ε → ε') (x : Except ε α) : Except ε' α := x.mapError f

@[simp] theorem mapErr_eq_ok {f : ε → ε'} {x : Except ε α} {a : α} :
    mapErr f x = .ok a ↔ x = .ok a := by
  cases x with
  | ok b => simp [mapErr, Except.mapError]
  | error e => simp [mapErr, Except.mapError]

/-! ### Loops -/

section Loop

variable {σ : Type v}

/-- A loop over a list and its indices that carries a state and may end with an error. -/
def forEnumerated (step : Nat → α → σ → Except ε σ) : Nat → List α → σ → Except ε σ
  | _, [], s => return s
  | index, a :: rest, s => do
      let s ← step index a s
      forEnumerated step (index + 1) rest s

/-- The rule for a loop whose state is a function of what it has read so far. If an
iteration accepts exactly what extends this well, then so does the whole loop. -/
theorem forEnumerated_eq_ok {step : Nat → α → σ → Except ε σ} {Denotes : α → β → Prop}
    {Good : List β → Prop} {after : List β → σ}
    (shorter : ∀ bs cs, Good (bs ++ cs) → Good bs)
    (iteration : ∀ bs, Good bs → ∀ a s, step bs.length a (after bs) = .ok s ↔
      ∃ b, Denotes a b ∧ Good (bs ++ [b]) ∧ s = after (bs ++ [b]))
    {bs : List β} (h : Good bs) {as : List α} {s : σ} :
    forEnumerated step bs.length as (after bs) = .ok s ↔
      ∃ cs, List.Forall₂ Denotes as cs ∧ Good (bs ++ cs) ∧ s = after (bs ++ cs) := by
  induction as generalizing bs with
  | nil =>
      rw [forEnumerated, pure_eq_ok]
      constructor
      · rintro rfl
        exact ⟨[], .nil, by rwa [List.append_nil], by rw [List.append_nil]⟩
      · rintro ⟨_, ⟨⟩, -, rfl⟩
        rw [List.append_nil]
  | cons a as ih =>
      rw [forEnumerated, bind_eq_ok]
      have next (b : β) : bs.length + 1 = (bs ++ [b]).length := by simp
      constructor
      · rintro ⟨s', first, rest⟩
        obtain ⟨b, denotes, good, rfl⟩ := (iteration bs h a s').mp first
        rw [next b, ih good] at rest
        obtain ⟨cs, denoted, all, rfl⟩ := rest
        exact ⟨b :: cs, .cons denotes denoted, by simpa using all, by simp⟩
      · rintro ⟨_, denoted, all, rfl⟩
        cases denoted with
        | @cons _ b _ cs denotes denoted =>
            rw [List.append_cons] at all
            have good := shorter _ _ all
            refine ⟨_, (iteration bs h a _).mpr ⟨b, denotes, good, rfl⟩, ?_⟩
            rw [next b, ih good]
            exact ⟨cs, denoted, all, by simp⟩

end Loop

end Checked
