import RiskOps.Lib.Lawful

/-!
# RiskOps.Lib.Faulty — computations that may stop halfway

A computation over a state either returns a value or stops with a reason; what it did to the state
before it stopped remains done. `Triple P x Q E` says of a computation that starts in a state with
`P` that it ends with `Q` when it returns and with `E` when it stops.

**Rules.** There is one rule for each way to build a computation. `Keeps` is the special case of a
property that is the same at every exit.
-/

namespace RiskOps.Lib

/-- A computation over `σ` that returns an `α` or stops with an `ε`. -/
abbrev Faulty (ε σ α : Type) : Type := ExceptT ε (StateM σ) α

namespace Faulty

variable {ε σ α β : Type}

/-- From a state with `P` the computation returns in a state with `Q` or stops in one with `E`. -/
def Triple (P : σ → Prop) (x : Faulty ε σ α) (Q : α → σ → Prop) (E : ε → σ → Prop) : Prop :=
  ∀ s, P s →
    match x s with
    | (.ok a, s') => Q a s'
    | (.error e, s') => E e s'

/-- `P` holds at every exit when it holds at the entry. -/
def Keeps (P : σ → Prop) (x : Faulty ε σ α) : Prop := Triple P x (fun _ => P) (fun _ => P)

/-! ### Rules -/

theorem Triple.pure {P : σ → Prop} {Q : α → σ → Prop} {E : ε → σ → Prop} {a : α}
    (h : ∀ s, P s → Q a s) : Triple P (pure a) Q E :=
  h

theorem Triple.throw {P : σ → Prop} {Q : α → σ → Prop} {E : ε → σ → Prop} {e : ε}
    (h : ∀ s, P s → E e s) : Triple P (throw e) Q E :=
  h

theorem Triple.get {P : σ → Prop} {Q : σ → σ → Prop} {E : ε → σ → Prop}
    (h : ∀ s, P s → Q s s) : Triple P get Q E :=
  h

theorem Triple.modify {P : σ → Prop} {Q : Unit → σ → Prop} {E : ε → σ → Prop} {f : σ → σ}
    (h : ∀ s, P s → Q () (f s)) : Triple P (modify f) Q E :=
  h

theorem bind_apply (x : Faulty ε σ α) (f : α → Faulty ε σ β) (s : σ) :
    (x >>= f) s = match x s with
      | (.ok a, s') => f a s'
      | (.error e, s') => (.error e, s') := by
  change (ExceptT.bindCont f (x s).1) (x s).2 = _
  rcases x s with ⟨_ | _, _⟩ <;> rfl

/-- **Sequence.** -/
theorem Triple.bind {P : σ → Prop} {R : α → σ → Prop} {Q : β → σ → Prop} {E : ε → σ → Prop}
    {x : Faulty ε σ α} {f : α → Faulty ε σ β} (hx : Triple P x R E)
    (hf : ∀ a, Triple (R a) (f a) Q E) : Triple P (x >>= f) Q E := by
  intro s hs
  have h := hx s hs
  rw [bind_apply]
  rcases hxs : x s with ⟨e | a, s'⟩ <;> rw [hxs] at h
  · exact h
  · exact hf a s' h

theorem tryCatch_apply (x : Faulty ε σ α) (f : ε → Faulty ε σ α) (s : σ) :
    (tryCatch x f) s = match x s with
      | (.ok a, s') => (.ok a, s')
      | (.error e, s') => f e s' := by
  change (ExceptT.tryCatch x f) s = _
  simp only [ExceptT.tryCatch, ExceptT.mk, bind, StateT.bind]
  rcases x s with ⟨_ | _, _⟩ <;> rfl

/-- **Handlers.** -/
theorem Triple.tryCatch {P : σ → Prop} {Q : α → σ → Prop} {R E : ε → σ → Prop}
    {x : Faulty ε σ α} {f : ε → Faulty ε σ α} (hx : Triple P x Q R)
    (hf : ∀ e, Triple (R e) (f e) Q E) : Triple P (tryCatch x f) Q E := by
  intro s hs
  have h := hx s hs
  rw [tryCatch_apply]
  rcases hxs : x s with ⟨e | a, s'⟩ <;> rw [hxs] at h
  · exact hf e s' h
  · exact h

/-- **Consequence.** -/
theorem Triple.weaken {P P' : σ → Prop} {Q Q' : α → σ → Prop} {E E' : ε → σ → Prop}
    {x : Faulty ε σ α} (h : Triple P x Q E) (hP : ∀ s, P' s → P s)
    (hQ : ∀ a s, Q a s → Q' a s) (hE : ∀ e s, E e s → E' e s) : Triple P' x Q' E' := by
  intro s hs
  have h := h s (hP s hs)
  rcases hxs : x s with ⟨e | a, s'⟩ <;> rw [hxs] at h
  · exact hE e s' h
  · exact hQ a s' h

theorem Triple.ite {P : σ → Prop} {Q : α → σ → Prop} {E : ε → σ → Prop} {c : Prop} [Decidable c]
    {x y : Faulty ε σ α} (hx : c → Triple P x Q E) (hy : ¬ c → Triple P y Q E) :
    Triple P (if c then x else y) Q E := by
  split
  · exact hx ‹_›
  · exact hy ‹_›

/-- A fact about the entry that is not about the state. -/
theorem Triple.of_fact {P : σ → Prop} {c : Prop} {Q : α → σ → Prop} {E : ε → σ → Prop}
    {x : Faulty ε σ α} (h : c → Triple P x Q E) : Triple (fun s => c ∧ P s) x Q E :=
  fun s hs => h hs.1 s hs.2

/-- A value the entry determines. -/
theorem Triple.exists {ι : Type} {P : ι → σ → Prop} {Q : α → σ → Prop} {E : ε → σ → Prop}
    {x : Faulty ε σ α} (h : ∀ i, Triple (P i) x Q E) : Triple (fun s => ∃ i, P i s) x Q E :=
  fun s ⟨i, hs⟩ => h i s hs

/-- Two specifications of one computation hold together. -/
theorem Triple.and {P₁ P₂ : σ → Prop} {Q₁ Q₂ : α → σ → Prop} {E₁ E₂ : ε → σ → Prop}
    {x : Faulty ε σ α} (h₁ : Triple P₁ x Q₁ E₁) (h₂ : Triple P₂ x Q₂ E₂) :
    Triple (fun s => P₁ s ∧ P₂ s) x (fun a s => Q₁ a s ∧ Q₂ a s) (fun e s => E₁ e s ∧ E₂ e s) := by
  intro s hs
  have h₁ := h₁ s hs.1
  have h₂ := h₂ s hs.2
  rcases hxs : x s with ⟨e | a, s'⟩ <;> rw [hxs] at h₁ h₂
  · exact ⟨h₁, h₂⟩
  · exact ⟨h₁, h₂⟩

/-! ### Properties kept at every exit -/

theorem Keeps.pure {P : σ → Prop} (a : α) : Keeps P (pure a : Faulty ε σ α) :=
  Triple.pure fun _ h => h

theorem Keeps.throw {P : σ → Prop} (e : ε) : Keeps P (throw e : Faulty ε σ α) :=
  Triple.throw fun _ h => h

theorem Keeps.get {P : σ → Prop} : Keeps P (get : Faulty ε σ σ) :=
  Triple.get fun _ h => h

theorem Keeps.bind {P : σ → Prop} {x : Faulty ε σ α} {f : α → Faulty ε σ β} (hx : Keeps P x)
    (hf : ∀ a, Keeps P (f a)) : Keeps P (x >>= f) :=
  Triple.bind hx hf

theorem Keeps.tryCatch {P : σ → Prop} {x : Faulty ε σ α} {f : ε → Faulty ε σ α} (hx : Keeps P x)
    (hf : ∀ e, Keeps P (f e)) : Keeps P (tryCatch x f) :=
  Triple.tryCatch hx hf

theorem Keeps.ite {P : σ → Prop} {c : Prop} [Decidable c] {x y : Faulty ε σ α} (hx : Keeps P x)
    (hy : Keeps P y) : Keeps P (if c then x else y) :=
  Triple.ite (fun _ => hx) (fun _ => hy)

end Faulty

end RiskOps.Lib
