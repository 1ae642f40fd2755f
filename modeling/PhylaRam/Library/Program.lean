import Mathlib.Logic.Basic

/-!
# Weakest preconditions for stateful programs that may stop

An `EStateM ε σ α` program either returns a value with a new state, or stops
with a reason and the state it had reached. `WP` describes both outcomes of the
same run: `post` speaks of a return, `stop` of an early stop. A program here is
a total function, so `WP` is a total-correctness statement: there is no third
outcome, and `stop := fun _ _ => False` says that the program returns.

The rewriting rules execute straight-line programs symbolically. `whileLoop` is a
loop whose body comes with the proof that it decreases a variant, so the loop is
total and its rule needs an invariant only.
-/

namespace Program

variable {ε σ α β : Type}

/-- The run from `s` satisfies `post` if it returns and `stop` if it stops. -/
def WP (x : EStateM ε σ α) (post : α → σ → Prop) (stop : ε → σ → Prop) (s : σ) : Prop :=
  match x s with
  | .ok a t => post a t
  | .error e t => stop e t

/-- Whether a run returned; what a caller that only sees a flag learns. -/
def returned : EStateM.Result ε σ α → Bool
  | .ok _ _ => true
  | .error _ _ => false

/-- The state a run ends in, after a return and after a stop. -/
def final : EStateM.Result ε σ α → σ
  | .ok _ t => t
  | .error _ t => t

@[simp] theorem returned_ok (a : α) (t : σ) :
    returned (.ok a t : EStateM.Result ε σ α) = true := rfl

@[simp] theorem returned_error (e : ε) (t : σ) :
    returned (.error e t : EStateM.Result ε σ α) = false := rfl

@[simp] theorem final_ok (a : α) (t : σ) : final (.ok a t : EStateM.Result ε σ α) = t := rfl

@[simp] theorem final_error (e : ε) (t : σ) :
    final (.error e t : EStateM.Result ε σ α) = t := rfl

namespace WP

variable {x y : EStateM ε σ α} {post post' : α → σ → Prop} {stop stop' : ε → σ → Prop} {s : σ}

theorem mono (h : WP x post stop s) (hpost : ∀ a t, post a t → post' a t)
    (hstop : ∀ e t, stop e t → stop' e t) : WP x post' stop' s := by
  unfold WP at h ⊢
  cases hx : x s with
  | ok a t =>
      rw [hx] at h
      exact hpost a t h
  | error e t =>
      rw [hx] at h
      exact hstop e t h

/-- What holds of every outcome. -/
theorem always (returns : ∀ a t, post a t) (stops : ∀ e t, stop e t) : WP x post stop s := by
  unfold WP
  cases x s with
  | ok a t => exact returns a t
  | error e t => exact stops e t

/-- Two descriptions of one run hold together. -/
theorem and (h : WP x post stop s) (h' : WP x post' stop' s) :
    WP x (fun a t => post a t ∧ post' a t) (fun e t => stop e t ∧ stop' e t) s := by
  unfold WP at h h' ⊢
  cases hx : x s with
  | ok a t =>
      rw [hx] at h h'
      exact ⟨h, h'⟩
  | error e t =>
      rw [hx] at h h'
      exact ⟨h, h'⟩

/-- An outcome is described together with the run that has it. -/
theorem traced (h : WP x post stop s) :
    WP x (fun a t => x s = .ok a t ∧ post a t) (fun e t => x s = .error e t ∧ stop e t) s := by
  unfold WP at h ⊢
  cases hx : x s with
  | ok a t =>
      rw [hx] at h
      exact ⟨rfl, h⟩
  | error e t =>
      rw [hx] at h
      exact ⟨rfl, h⟩

theorem of_ok {a : α} {t : σ} (h : WP x post stop s) (hx : x s = .ok a t) : post a t := by
  unfold WP at h
  rw [hx] at h
  exact h

theorem of_error {e : ε} {t : σ} (h : WP x post stop s) (hx : x s = .error e t) :
    stop e t := by
  unfold WP at h
  rw [hx] at h
  exact h

theorem of_returned (h : WP x post stop s) (hx : returned (x s) = true) :
    ∃ a, x s = .ok a (final (x s)) ∧ post a (final (x s)) := by
  cases hr : x s with
  | ok a t => exact ⟨a, rfl, h.of_ok hr⟩
  | error e t => simp [hr] at hx

theorem of_stopped (h : WP x post stop s) (hx : returned (x s) = false) :
    ∃ e, x s = .error e (final (x s)) ∧ stop e (final (x s)) := by
  cases hr : x s with
  | ok a t => simp [hr] at hx
  | error e t => exact ⟨e, rfl, h.of_error hr⟩

/-- Excluding every stop is what it takes to return. -/
theorem returns (h : WP x post (fun _ _ => False) s) :
    ∃ a t, x s = .ok a t ∧ post a t := by
  cases hr : x s with
  | ok a t => exact ⟨a, t, rfl, h.of_ok hr⟩
  | error e t => exact (h.of_error hr).elim

/-- A program that returns or stops according to a proposition. -/
theorem returned_iff {P : Prop} (h : WP x (fun _ _ => P) (fun _ _ => ¬P) s) :
    returned (x s) = true ↔ P := by
  cases hr : x s with
  | ok a t => exact iff_of_true rfl (h.of_ok hr)
  | error e t => exact iff_of_false Bool.false_ne_true (h.of_error hr)

/-- Excluding every return is what it takes to stop. -/
theorem stops (h : WP x (fun _ _ => False) stop s) : ∃ e t, x s = .error e t ∧ stop e t := by
  cases hr : x s with
  | ok a t => exact (h.of_ok hr).elim
  | error e t => exact ⟨e, t, rfl, h.of_error hr⟩

/-- What holds of both outcomes holds of the last state. -/
theorem final {P : σ → Prop} (h : WP x (fun _ => P) (fun _ => P) s) : P (final (x s)) := by
  cases hx : x s with
  | ok a t => exact h.of_ok hx
  | error e t => exact h.of_error hx

@[simp] theorem pure_iff {a : α} :
    WP (pure a : EStateM ε σ α) post stop s ↔ post a s := Iff.rfl

@[simp] theorem bind_iff {f : α → EStateM ε σ β} {post : β → σ → Prop} :
    WP (x >>= f) post stop s ↔ WP x (fun a t => WP (f a) post stop t) stop s := by
  change (match EStateM.bind x f s with
    | .ok a t => post a t
    | .error e t => stop e t) ↔ _
  unfold EStateM.bind WP
  cases x s <;> rfl

@[simp] theorem map_iff {f : α → β} {post : β → σ → Prop} :
    WP (f <$> x) post stop s ↔ WP x (fun a t => post (f a) t) stop s := by
  change (match EStateM.map f x s with
    | .ok a t => post a t
    | .error e t => stop e t) ↔ _
  unfold EStateM.map WP
  cases x s <;> rfl

@[simp] theorem get_iff {post : σ → σ → Prop} :
    WP (get : EStateM ε σ σ) post stop s ↔ post s s := Iff.rfl

@[simp] theorem set_iff {post : PUnit → σ → Prop} {t : σ} :
    WP (set t : EStateM ε σ PUnit) post stop s ↔ post ⟨⟩ t := Iff.rfl

@[simp] theorem modify_iff {post : PUnit → σ → Prop} {f : σ → σ} :
    WP (modify f : EStateM ε σ PUnit) post stop s ↔ post ⟨⟩ (f s) := Iff.rfl

@[simp] theorem modifyGet_iff {f : σ → α × σ} :
    WP (modifyGet f : EStateM ε σ α) post stop s ↔ post (f s).1 (f s).2 := Iff.rfl

@[simp] theorem throw_iff {e : ε} :
    WP (throw e : EStateM ε σ α) post stop s ↔ stop e s := Iff.rfl

/-- A handler runs in the state that the stopped program has reached. -/
@[simp] theorem tryCatch_iff {handle : ε → EStateM ε σ α} :
    WP (tryCatch x handle) post stop s ↔ WP x post (fun e t => WP (handle e) post stop t) s := by
  change (match EStateM.tryCatch x handle s with
    | .ok a t => post a t
    | .error e t => stop e t) ↔ _
  unfold EStateM.tryCatch WP
  cases x s <;> rfl

@[simp] theorem ite_iff {c : Prop} [Decidable c] :
    WP (if c then x else y) post stop s ↔
      (c → WP x post stop s) ∧ (¬c → WP y post stop s) := by
  split <;> simp_all

end WP

/-- From `s`, the command returns exactly when `ok` holds, and then in state `t`.
Chains of such commands are the usual shape of code that tests as it goes. -/
def Guarded (x : EStateM ε σ Unit) (s : σ) (ok : Prop) (t : σ) : Prop :=
  WP x (fun _ u => ok ∧ u = t) (fun _ _ => ¬ok) s

namespace Guarded

variable {x y : EStateM ε σ Unit} {s t u : σ} {p q : Prop}

theorem seq (hx : Guarded x s p t) (hy : p → Guarded y t q u) :
    Guarded (x >>= fun _ => y) s (p ∧ q) u := by
  rw [Guarded, WP.bind_iff]
  refine hx.mono ?_ (fun _ _ hp h => hp h.1)
  rintro - _ ⟨hp, rfl⟩
  exact (hy hp).mono (fun _ _ h => ⟨⟨hp, h.1⟩, h.2⟩) (fun _ _ hq h => hq h.2)

theorem congr (hx : Guarded x s p t) (hp : p ↔ q) (ht : t = u) : Guarded x s q u := by
  subst ht
  exact hx.mono (fun _ _ h => ⟨hp.mp h.1, h.2⟩) (fun _ _ h hq => h (hp.mpr hq))

theorem modify (f : σ → σ) : Guarded (modify f : EStateM ε σ Unit) s True (f s) :=
  ⟨trivial, rfl⟩

/-- A guarded command whose guard holds runs to its end. -/
theorem wp (hx : Guarded x s p t) (hp : p) {post : Unit → σ → Prop} (h : post () t)
    {stop : ε → σ → Prop} : WP x post stop s :=
  hx.mono (fun _ _ h' => h'.2 ▸ h) (fun _ _ h' => (h' hp).elim)

end Guarded

/-- Both outcomes of the command keep `P`: an invariant of what may stop anywhere. -/
def Keeps (P : σ → Prop) (x : EStateM ε σ α) : Prop :=
  ∀ s, P s → WP x (fun _ => P) (fun _ => P) s

namespace Keeps

variable {P : σ → Prop} {x y : EStateM ε σ α} {s : σ}

theorem final (keeps : Keeps P x) (h : P s) : P (final (x s)) := (keeps s h).final

theorem pure (a : α) : Keeps P (pure a : EStateM ε σ α) := fun _ h => h

theorem throw (e : ε) : Keeps P (throw e : EStateM ε σ α) := fun _ h => h

theorem get : Keeps P (get : EStateM ε σ σ) := fun _ h => h

theorem modify {f : σ → σ} (step : ∀ s, P s → P (f s)) :
    Keeps P (modify f : EStateM ε σ PUnit) := step

theorem modifyGet {f : σ → α × σ} (step : ∀ s, P s → P (f s).2) :
    Keeps P (modifyGet f : EStateM ε σ α) := step

theorem bind {f : α → EStateM ε σ β} (first : Keeps P x) (next : ∀ a, Keeps P (f a)) :
    Keeps P (x >>= f) := fun s h =>
  WP.bind_iff.mpr ((first s h).mono (fun a t => next a t) (fun _ _ h => h))

theorem ite {c : Prop} [Decidable c] (yes : c → Keeps P x) (no : ¬c → Keeps P y) :
    Keeps P (if c then x else y) := by
  split
  · next h => exact yes h
  · next h => exact no h

theorem tryCatch {handle : ε → EStateM ε σ α} (first : Keeps P x)
    (next : ∀ e, Keeps P (handle e)) : Keeps P (tryCatch x handle) := fun s h =>
  WP.tryCatch_iff.mpr ((first s h).mono (fun _ _ h => h) fun e t h => next e t h)

end Keeps

/-- Every stop of the program is as `P` says, whatever the state it starts in. -/
def Stops (P : ε → σ → Prop) (x : EStateM ε σ α) : Prop :=
  ∀ s, WP x (fun _ _ => True) P s

namespace Stops

variable {P : ε → σ → Prop} {x y : EStateM ε σ α}

theorem pure (a : α) : Stops P (pure a : EStateM ε σ α) := fun _ => trivial

theorem get : Stops P (get : EStateM ε σ σ) := fun _ => trivial

theorem set (t : σ) : Stops P (set t : EStateM ε σ PUnit) := fun _ => trivial

theorem modify (f : σ → σ) : Stops P (modify f : EStateM ε σ PUnit) := fun _ => trivial

theorem modifyGet (f : σ → α × σ) : Stops P (modifyGet f : EStateM ε σ α) := fun _ => trivial

theorem throw {e : ε} (h : ∀ s, P e s) : Stops P (throw e : EStateM ε σ α) := h

theorem bind {f : α → EStateM ε σ β} (first : Stops P x) (next : ∀ a, Stops P (f a)) :
    Stops P (x >>= f) := fun s =>
  WP.bind_iff.mpr ((first s).mono (fun a t _ => next a t) fun _ _ h => h)

theorem ite {c : Prop} [Decidable c] (yes : Stops P x) (no : Stops P y) :
    Stops P (if c then x else y) := by
  split
  · exact yes
  · exact no

end Stops

/-- How the body of a loop ends: with another test of the condition or a `break`. -/
inductive Flow
  | again
  | leave
deriving DecidableEq, Repr

/-- A loop that tests `condition` before each run of `body`. -/
def whileLoop (condition : σ → Bool) (body : EStateM ε σ Flow) (variant : σ → Nat)
    (decreases : ∀ s t, condition s = true → body s = .ok .again t → variant t < variant s)
    (s : σ) : EStateM.Result ε σ Unit :=
  if _before : condition s = true then
    match _ran : body s with
    | .ok .again t => whileLoop condition body variant decreases t
    | .ok .leave t => .ok () t
    | .error e t => .error e t
  else .ok () s
termination_by variant s
decreasing_by exact decreases s t (by assumption) (by assumption)

section Loop

variable {condition : σ → Bool} {body : EStateM ε σ Flow} {variant : σ → Nat}
  {decreases : ∀ s t, condition s = true → body s = .ok .again t → variant t < variant s}
  {s : σ}

theorem whileLoop_eq :
    whileLoop condition body variant decreases s =
      if condition s = true then
        match body s with
        | .ok .again t => whileLoop condition body variant decreases t
        | .ok .leave t => .ok () t
        | .error e t => .error e t
      else .ok () s := by
  rw [whileLoop]
  split
  · split <;> rename_i ran <;> rw [ran]
  · rfl

/-- The invariant rule. The body may assume the condition; it re-establishes the
invariant before another test and the postcondition before a `break`. -/
theorem whileLoop_wp (invariant post : σ → Prop) {stop : ε → σ → Prop} (start : invariant s)
    (iteration : ∀ s, invariant s → condition s = true →
      WP body (fun flow t => match flow with
        | .again => invariant t
        | .leave => post t) stop s)
    (finish : ∀ s, invariant s → ¬condition s = true → post s) :
    WP (whileLoop condition body variant decreases) (fun _ => post) stop s := by
  induction s using whileLoop.induct condition body variant decreases with
  | case1 s before t ran ih =>
      have next := ih ((iteration s start before).of_ok ran)
      unfold WP at next ⊢
      rwa [whileLoop_eq, if_pos before, ran]
  | case2 s before t ran =>
      have last := (iteration s start before).of_ok ran
      unfold WP
      rwa [whileLoop_eq, if_pos before, ran]
  | case3 s before e t ran =>
      have stopped := (iteration s start before).of_error ran
      unfold WP
      rwa [whileLoop_eq, if_pos before, ran]
  | case4 s before =>
      unfold WP
      rw [whileLoop_eq, if_neg before]
      exact finish s start before

/-- A loop keeps what its body keeps; the body may assume the condition. -/
theorem Keeps.whileLoop {P : σ → Prop}
    (iteration : ∀ s, P s → condition s = true → WP body (fun _ => P) (fun _ => P) s) :
    Keeps P (whileLoop condition body variant decreases) := by
  intro s start
  refine whileLoop_wp P P start ?_ (fun _ h _ => h)
  intro u h before
  refine (iteration u h before).mono (fun flow t h' => ?_) (fun _ _ h' => h')
  cases flow <;> exact h'

theorem Stops.whileLoop {P : ε → σ → Prop} (once : Stops P body) :
    Stops P (whileLoop condition body variant decreases) := by
  intro s
  refine whileLoop_wp (fun _ => True) (fun _ => True) trivial ?_ (fun _ _ _ => trivial)
  intro u _ _
  refine (once u).mono (fun flow t _ => ?_) (fun _ _ h => h)
  cases flow <;> trivial

variable (condition body)

/-- The run of a loop one iteration at a time: from the state, with so many iterations, to
the result. -/
inductive Iterates : σ → Nat → EStateM.Result ε σ Unit → Prop
  | finish {s : σ} (after : ¬condition s = true) : Iterates s 0 (.ok () s)
  | again {s t : σ} {n : Nat} {result : EStateM.Result ε σ Unit} (before : condition s = true)
      (ran : body s = .ok .again t) (rest : Iterates t n result) : Iterates s (n + 1) result
  | leave {s t : σ} (before : condition s = true) (ran : body s = .ok .leave t) :
      Iterates s 1 (.ok () t)
  | stop {s t : σ} {e : ε} (before : condition s = true) (ran : body s = .error e t) :
      Iterates s 1 (.error e t)

variable {condition body}

/-- A loop makes no more iterations than its variant allows. -/
theorem whileLoop_iterates (variant : σ → Nat)
    (decreases : ∀ s t, condition s = true → body s = .ok .again t → variant t < variant s)
    (positive : ∀ s, condition s = true → 0 < variant s) (s : σ) :
    ∃ n ≤ variant s, Iterates condition body s n (whileLoop condition body variant decreases s) := by
  induction s using whileLoop.induct condition body variant decreases with
  | case1 s before t ran ih =>
      obtain ⟨n, few, iterates⟩ := ih
      have next := decreases s t before ran
      refine ⟨n + 1, by omega, ?_⟩
      rw [whileLoop_eq, if_pos before, ran]
      exact .again before ran iterates
  | case2 s before t ran =>
      refine ⟨1, positive s before, ?_⟩
      rw [whileLoop_eq, if_pos before, ran]
      exact .leave before ran
  | case3 s before e t ran =>
      refine ⟨1, positive s before, ?_⟩
      rw [whileLoop_eq, if_pos before, ran]
      exact .stop before ran
  | case4 s before =>
      refine ⟨0, Nat.zero_le _, ?_⟩
      rw [whileLoop_eq, if_neg before]
      exact .finish before

end Loop

end Program
