import PhylaRam.Library.Program

/-!
# Two programs side by side

`SideBySide` relates the outcomes of two programs: both return, or both stop, and the states they
end in are related. The programs may have states and reasons of their own. The first program may
also stop for a reason that is out of the question, of which nothing is asked.

A loop of the second program has no variant. It is cut off after a number of iterations, and the
variant of the loop beside it is a number that suffices.
-/

namespace Program

variable {ε σ α ε' σ' α' β β' : Type}

/-- From `s` and `t`, both programs return with `post` or both stop with `stop`. -/
def SideBySide (escape : ε → Prop) (x : EStateM ε σ α) (y : EStateM ε' σ' α')
    (post : α → σ → α' → σ' → Prop) (stop : σ → ε' → σ' → Prop) (s : σ) (t : σ') : Prop :=
  WP x (fun a u => WP y (post a u) (fun _ _ => False) t)
    (fun e u => escape e ∨ WP y (fun _ _ => False) (stop u) t) s

namespace SideBySide

variable {escape : ε → Prop} {x : EStateM ε σ α} {y : EStateM ε' σ' α'}
  {post : α → σ → α' → σ' → Prop} {stop : σ → ε' → σ' → Prop} {s : σ} {t : σ'}

theorem mono {post' : α → σ → α' → σ' → Prop} (h : SideBySide escape x y post stop s t)
    (weaken : ∀ a u b v, post a u b v → post' a u b v) :
    SideBySide escape x y post' stop s t :=
  WP.mono h (fun a u h' => h'.mono (weaken a u) fun _ _ h => h) fun _ _ h => h

/-- A description of the first program alone. -/
theorem and {Q : α → σ → Prop} {stop' : ε → σ → Prop}
    (h : SideBySide escape x y post stop s t) (h' : WP x Q stop' s) :
    SideBySide escape x y (fun a u b v => post a u b v ∧ Q a u) stop s t :=
  (WP.and h h').mono (fun _ _ both => both.1.mono (fun _ _ h => ⟨h, both.2⟩) fun _ _ h => h)
    fun _ _ both => both.1

theorem pure {a : α} {b : α'} (h : post a s b t) :
    SideBySide escape (pure a) (pure b : EStateM ε' σ' α') post stop s t := h

theorem throw {e : ε} {e' : ε'} (h : stop s e' t) :
    SideBySide escape (throw e : EStateM ε σ α) (throw e' : EStateM ε' σ' α') post stop s t := .inr h

theorem modifyGet {f : σ → α × σ} {g : σ' → α' × σ'} (h : post (f s).1 (f s).2 (g t).1 (g t).2) :
    SideBySide escape (modifyGet f) (modifyGet g : EStateM ε' σ' α') post stop s t := h

theorem modify {f : σ → σ} {g : σ' → σ'} {post : PUnit → σ → PUnit → σ' → Prop}
    (h : post ⟨⟩ (f s) ⟨⟩ (g t)) :
    SideBySide escape (modify f) (modify g : EStateM ε' σ' PUnit) post stop s t := h

/-- Both sequences, one step of each at a time. -/
theorem bind {f : α → EStateM ε σ β} {g : α' → EStateM ε' σ' β'} {middle : α → σ → α' → σ' → Prop}
    {post : β → σ → β' → σ' → Prop} (first : SideBySide escape x y middle stop s t)
    (next : ∀ a u b v, middle a u b v → SideBySide escape (f a) (g b) post stop u v) :
    SideBySide escape (x >>= f) (y >>= g) post stop s t := by
  rw [SideBySide, WP.bind_iff]
  refine WP.mono first ?_ ?_
  · intro a u h
    unfold WP at h
    cases ran : y t with
    | error e v =>
        rw [ran] at h
        exact h.elim
    | ok b v =>
        rw [ran] at h
        have later := next a u b v h
        have same (P : β' → σ' → Prop) (Q : ε' → σ' → Prop) (rest : WP (g b) P Q v) :
            WP (y >>= g) P Q t := by
          rw [WP.bind_iff]
          unfold WP
          rw [ran]
          exact rest
        exact WP.mono later (fun _ _ rest => same _ _ rest) fun _ _ rest => rest.imp_right (same _ _)
  · rintro e u (out | h)
    · exact .inl out
    · refine .inr (WP.bind_iff.mpr ?_)
      exact h.mono (fun _ _ no => no.elim) fun _ _ h => h

/-- Both programs look at their states. -/
theorem get {f : σ → EStateM ε σ β} {g : σ' → EStateM ε' σ' β'} {post : β → σ → β' → σ' → Prop}
    (h : SideBySide escape (f s) (g t) post stop s t) :
    SideBySide escape (MonadState.get >>= f) (MonadState.get >>= g) post stop s t := h

/-- Both programs change their states and go on. -/
theorem modify_bind {f : PUnit → EStateM ε σ β} {g : PUnit → EStateM ε' σ' β'} {F : σ → σ}
    {G : σ' → σ'} {post : β → σ → β' → σ' → Prop}
    (h : SideBySide escape (f ⟨⟩) (g ⟨⟩) post stop (F s) (G t)) :
    SideBySide escape (MonadStateOf.modifyGet (fun s => (⟨⟩, F s)) >>= f)
      (MonadStateOf.modifyGet (fun t => (⟨⟩, G t)) >>= g) post stop s t := h

/-- Steps that only the first program makes. -/
theorem left {f : α → EStateM ε σ β} {post : β → σ → α' → σ' → Prop}
    (first : WP x (fun a u => SideBySide escape (f a) y post stop u t) (fun e _ => escape e) s) :
    SideBySide escape (x >>= f) y post stop s t := by
  rw [SideBySide, WP.bind_iff]
  exact first.mono (fun _ _ h => h) fun _ _ out => .inl out

/-- Steps that only the second program makes. -/
theorem right {g : α' → EStateM ε' σ' β'} {post : α → σ → β' → σ' → Prop} {b : α'} {v : σ'}
    (ran : y t = .ok b v) (rest : SideBySide escape x (g b) post stop s v) :
    SideBySide escape x (y >>= g) post stop s t := by
  have same (P : β' → σ' → Prop) (Q : ε' → σ' → Prop) (h : WP (g b) P Q v) :
      WP (y >>= g) P Q t := by
    rw [WP.bind_iff]
    unfold WP
    rw [ran]
    exact h
  exact WP.mono rest (fun _ _ h => same _ _ h) fun _ _ h => h.imp_right (same _ _)

theorem ite {c : Prop} [Decidable c] {x' : EStateM ε σ α} {y' : EStateM ε' σ' α'}
    (yes : c → SideBySide escape x y post stop s t)
    (no : ¬c → SideBySide escape x' y' post stop s t) :
    SideBySide escape (if c then x else x') (if c then y else y') post stop s t := by
  split
  · next h => exact yes h
  · next h => exact no h

end SideBySide

/-- A loop that gives up after so many iterations. -/
def boundedLoop (outOfFuel : ε') (condition : σ' → Bool) (body : EStateM ε' σ' Flow) :
    Nat → EStateM ε' σ' Unit
  | 0, t => if condition t = true then .error outOfFuel t else .ok () t
  | fuel + 1, t =>
      if condition t = true then
        match body t with
        | .ok .again u => boundedLoop outOfFuel condition body fuel u
        | .ok .leave u => .ok () u
        | .error e u => .error e u
      else .ok () t

section Loop

variable {escape : ε → Prop} {stop : σ → ε' → σ' → Prop} {condition : σ → Bool}
  {body : EStateM ε σ Flow} {variant : σ → Nat}
  {decreases : ∀ s t, condition s = true → body s = .ok .again t → variant t < variant s}
  {outOfFuel : ε'} {condition' : σ' → Bool} {body' : EStateM ε' σ' Flow}

/-- Loops whose bodies keep a relation between the states keep it. The second one may stop after
as many iterations as the variant allows. -/
theorem SideBySide.loop {I : σ → σ' → Prop}
    (agree : ∀ s t, I s t → condition' t = condition s)
    (positive : ∀ s, condition s = true → 0 < variant s)
    (bodies : ∀ s t, I s t → condition s = true →
      SideBySide escape body body' (fun flow u flow' v => flow' = flow ∧ I u v) stop s t)
    {s : σ} {t : σ'} (start : I s t) {fuel : Nat} (enough : variant s ≤ fuel) :
    SideBySide escape (whileLoop condition body variant decreases)
      (boundedLoop outOfFuel condition' body' fuel) (fun _ u _ v => I u v) stop s t := by
  induction fuel generalizing s t with
  | zero =>
      have done : ¬condition s = true := fun more => by
        have := positive s more
        omega
      have done' : ¬condition' t = true := agree s t start ▸ done
      unfold SideBySide WP
      rw [whileLoop_eq, if_neg done]
      dsimp only
      rw [boundedLoop, if_neg done']
      exact start
  | succ fuel ih =>
      by_cases more : condition s = true
      · have more' : condition' t = true := (agree s t start).trans more
        have once := bodies s t start more
        unfold SideBySide WP at once ⊢
        rw [whileLoop_eq, if_pos more]
        rw [boundedLoop, if_pos more']
        cases ran : body s with
        | error e u =>
            rw [ran] at once
            dsimp only at once ⊢
            refine once.imp_right fun h => ?_
            cases ran' : body' t with
            | error e' v =>
                rw [ran'] at h
                exact h
            | ok flow v =>
                rw [ran'] at h
                exact h.elim
        | ok flow u =>
            rw [ran] at once
            dsimp only at once
            cases ran' : body' t with
            | error e' v =>
                rw [ran'] at once
                exact once.elim
            | ok flow' v =>
                rw [ran'] at once
                obtain ⟨rfl, kept⟩ := once
                cases flow' with
                | leave => exact kept
                | again =>
                    have fewer := decreases s u more ran
                    exact ih kept (by omega)
      · have more' : ¬condition' t = true := agree s t start ▸ more
        unfold SideBySide WP
        rw [whileLoop_eq, if_neg more]
        dsimp only
        rw [boundedLoop, if_neg more']
        exact start

end Loop

end Program
