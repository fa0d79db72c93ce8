import RiskOps.Lib.Lawful

/-!
# RiskOps.Lib.Run

**Runs of a transition function.** A system is a total function
`next : σ → α → σ` that says what one action does to the state (an action that
is refused leaves it alone), together with the events an action emits. A run is
a list of actions; `run` is the state it ends in and `trace` the events it
emitted on the way.

The two induction rules are the only inductions over runs the rest of the
development needs: `run_invariant` lifts a property one action preserves to a
whole run, and `trace_invariant` does the same for a relation between the state
and everything emitted so far. `bind_eq_ok` takes a fallible action apart.
-/

namespace RiskOps.Lib

variable {σ α ε : Type*}

/-- The state after a list of actions. -/
def run (next : σ → α → σ) (s : σ) (as : List α) : σ := as.foldl next s

/-- The events a list of actions emits, oldest first. -/
def trace (next : σ → α → σ) (emit : σ → α → List ε) : σ → List α → List ε
  | _, [] => []
  | s, a :: as => emit s a ++ trace next emit (next s a) as

@[simp] theorem run_nil (next : σ → α → σ) (s : σ) : run next s [] = s := rfl

@[simp] theorem run_cons (next : σ → α → σ) (s : σ) (a : α) (as : List α) :
    run next s (a :: as) = run next (next s a) as := rfl

theorem run_append (next : σ → α → σ) (s : σ) (as bs : List α) :
    run next s (as ++ bs) = run next (run next s as) bs := by
  simp [run]

theorem trace_snoc (next : σ → α → σ) (emit : σ → α → List ε) (s : σ) (as : List α)
    (a : α) : trace next emit s (as ++ [a]) = trace next emit s as ++ emit (run next s as) a := by
  induction as generalizing s with
  | nil => simp [trace]
  | cons b as ih =>
    rw [List.cons_append, trace, trace, ih, run_cons, List.append_assoc]

/-- **Invariant rule.** A property that holds initially and that every admitted
action preserves holds after every run of admitted actions. -/
theorem run_invariant {next : σ → α → σ} {P : σ → Prop} {Q : α → Prop}
    (hstep : ∀ s a, Q a → P s → P (next s a)) :
    ∀ {as : List α} {s : σ}, (∀ a ∈ as, Q a) → P s → P (run next s as) := by
  intro as
  induction as with
  | nil => intro s _ hs; exact hs
  | cons a as ih =>
    intro s hQ hs
    exact ih (fun b hb => hQ b (List.mem_cons_of_mem _ hb))
      (hstep s a (hQ a List.mem_cons_self) hs)

/-- `run_invariant` when every action is admitted. -/
theorem run_preserves {next : σ → α → σ} {P : σ → Prop} (hstep : ∀ s a, P s → P (next s a))
    {as : List α} {s : σ} (hs : P s) : P (run next s as) :=
  run_invariant (Q := fun _ => True) (fun s a _ => hstep s a) (fun _ _ => trivial) hs

/-- Every action of a run satisfies `Q` in the state it is taken in. -/
def StepsSatisfy (next : σ → α → σ) (Q : σ → α → Prop) : σ → List α → Prop
  | _, [] => True
  | s, a :: as => Q s a ∧ StepsSatisfy next Q (next s a) as

/-- **Guarded invariant rule.** As `run_invariant`, when whether an action is
admitted depends on the state it is taken in. -/
theorem run_invariant_of_steps {next : σ → α → σ} {P : σ → Prop} {Q : σ → α → Prop}
    (hstep : ∀ s a, Q s a → P s → P (next s a)) :
    ∀ {as : List α} {s : σ}, StepsSatisfy next Q s as → P s → P (run next s as) := by
  intro as
  induction as with
  | nil => intro s _ hs; exact hs
  | cons a as ih =>
    intro s hQ hs
    exact ih hQ.2 (hstep s a hQ.1 hs)

section Steps

variable {next : σ → α → σ} {P : σ → Prop} {Q R : σ → α → Prop} {as bs : List α} {s : σ}

theorem stepsSatisfy_append : StepsSatisfy next Q s (as ++ bs) ↔
    StepsSatisfy next Q s as ∧ StepsSatisfy next Q (run next s as) bs := by
  induction as generalizing s with
  | nil => exact ⟨fun h => ⟨trivial, h⟩, fun h => h.2⟩
  | cons a as ih =>
    rw [List.cons_append, StepsSatisfy, StepsSatisfy, ih, and_assoc]
    exact Iff.rfl

theorem StepsSatisfy.append (h : StepsSatisfy next Q s (as ++ bs)) :
    StepsSatisfy next Q (run next s as) bs :=
  (Iff.mp stepsSatisfy_append h).2

/-- Steps that are always admitted. -/
theorem stepsSatisfy_of_forall (h : ∀ a ∈ as, ∀ s, Q s a) (s : σ) : StepsSatisfy next Q s as := by
  induction as generalizing s with
  | nil => trivial
  | cons a as ih =>
    exact ⟨h a List.mem_cons_self s, ih (fun b hb => h b (List.mem_cons_of_mem _ hb)) _⟩

theorem StepsSatisfy.and (h : StepsSatisfy next Q s as) (hR : ∀ a ∈ as, ∀ s, R s a) :
    StepsSatisfy next (fun s a => Q s a ∧ R s a) s as := by
  induction as generalizing s with
  | nil => trivial
  | cons a as ih =>
    exact ⟨⟨h.1, hR a List.mem_cons_self s⟩,
      ih h.2 fun b hb => hR b (List.mem_cons_of_mem _ hb)⟩

/-- Conditions that agree wherever an invariant of admitted steps holds admit the same runs. -/
theorem stepsSatisfy_congr (hstep : ∀ s a, R s a → P s → P (next s a))
    (h : ∀ s a, P s → (Q s a ↔ R s a)) (hs : P s) :
    StepsSatisfy next Q s as ↔ StepsSatisfy next R s as := by
  induction as generalizing s with
  | nil => exact Iff.rfl
  | cons a as ih =>
    rw [StepsSatisfy, StepsSatisfy, h s a hs]
    exact and_congr_right fun ha => ih (hstep s a ha hs)

end Steps

/-- **Trace rule.** As `run_invariant`, for a relation between the events
emitted so far and the state reached. -/
theorem trace_invariant {next : σ → α → σ} {emit : σ → α → List ε}
    {R : List ε → σ → Prop} {Q : α → Prop}
    (hstep : ∀ h s a, Q a → R h s → R (h ++ emit s a) (next s a)) :
    ∀ {as : List α} {h : List ε} {s : σ}, (∀ a ∈ as, Q a) → R h s →
      R (h ++ trace next emit s as) (run next s as) := by
  intro as
  induction as with
  | nil => intro h s _ hs; simpa [trace] using hs
  | cons a as ih =>
    intro h s hQ hs
    have hnext := hstep h s a (hQ a List.mem_cons_self) hs
    have := ih (fun b hb => hQ b (List.mem_cons_of_mem _ hb)) hnext
    simpa [trace, List.append_assoc] using this

variable {ε α β : Type}

/-- A sequence of fallible computations succeeds when each of them does. -/
theorem bind_eq_ok {x : Except ε α} {f : α → Except ε β} {b : β} :
    (x >>= f) = .ok b ↔ ∃ a, x = .ok a ∧ f a = .ok b := by
  cases x with
  | error e => simp [bind, Except.bind]
  | ok a => simp [bind, Except.bind]

theorem map_eq_ok {f : α → β} {x : Except ε α} {b : β} :
    x.map f = .ok b ↔ ∃ a, x = .ok a ∧ f a = b := by
  cases x with
  | error e => simp [Except.map]
  | ok a => simp [Except.map]

theorem eq_ok_of_toOption {x : Except ε α} {a : α} (h : x.toOption = some a) : x = .ok a := by
  cases x with
  | ok b => exact congrArg _ (Option.some.inj h)
  | error _ => cases h

/-- A list of checks passes when each of them does. -/
theorem forM_eq_ok {f : α → Except ε Unit} {l : List α} :
    l.forM f = .ok () ↔ ∀ a ∈ l, f a = .ok () := by
  induction l with
  | nil => exact ⟨fun _ a ha => absurd ha List.not_mem_nil, fun _ => rfl⟩
  | cons a l ih =>
    have hcons : (a :: l).forM f = (f a >>= fun _ => l.forM f) := rfl
    rw [hcons, bind_eq_ok, List.forall_mem_cons, ← ih]
    exact ⟨fun ⟨_, ha, hl⟩ => ⟨ha, hl⟩, fun ⟨ha, hl⟩ => ⟨(), ha, hl⟩⟩

/-- A sequence of fallible computations succeeds item by item. -/
theorem mapM_eq_ok {f : α → Except ε β} {l : List α} {bs : List β} :
    l.mapM f = .ok bs ↔ List.Forall₂ (fun a b => f a = .ok b) l bs := by
  induction l generalizing bs with
  | nil =>
    rw [List.mapM_nil, List.forall₂_nil_left_iff]
    exact ⟨fun h => (Except.ok.inj h).symm, fun h => congrArg Except.ok h.symm⟩
  | cons a l ih =>
    rw [List.mapM_cons, bind_eq_ok]
    constructor
    · rintro ⟨b, hb, h⟩
      obtain ⟨bs, hbs, h⟩ := Iff.mp bind_eq_ok h
      obtain rfl := Except.ok.inj h
      exact List.Forall₂.cons hb (ih.mp hbs)
    · intro h
      cases h with
      | cons hb hbs => exact ⟨_, hb, Iff.mpr bind_eq_ok ⟨_, ih.mpr hbs, rfl⟩⟩

theorem exists_mapM_eq_ok {f : α → Except ε β} {l : List α} :
    (∃ bs, l.mapM f = .ok bs) ↔ ∀ a ∈ l, ∃ b, f a = .ok b := by
  simp only [mapM_eq_ok]
  induction l with
  | nil => exact iff_of_true ⟨[], .nil⟩ fun _ h => absurd h List.not_mem_nil
  | cons a l ih =>
    rw [List.forall_mem_cons, ← ih]
    constructor
    · rintro ⟨_, h⟩
      cases h with
      | cons hb hbs => exact ⟨⟨_, hb⟩, _, hbs⟩
    · rintro ⟨⟨b, hb⟩, bs, hbs⟩
      exact ⟨b :: bs, .cons hb hbs⟩

/-- Each result of a sequence of fallible computations is the result of one of them. -/
theorem mem_of_mapM {f : α → Except ε β} {l : List α} {bs : List β} (h : l.mapM f = .ok bs) {b : β}
    (hb : b ∈ bs) : ∃ a ∈ l, f a = .ok b := by
  induction mapM_eq_ok.mp h with
  | nil => cases hb
  | cons ha hrest ih =>
    rcases List.mem_cons.mp hb with rfl | hb
    · exact ⟨_, List.mem_cons_self, ha⟩
    · obtain ⟨x, hx, hfx⟩ := ih (mapM_eq_ok.mpr hrest) hb
      exact ⟨x, List.mem_cons_of_mem _ hx, hfx⟩

/-- A fold of steps that leave a state alone leaves it alone. -/
theorem foldlM_same {σ : Type} {f : σ → α → Except ε σ} {xs : List α} {st : σ}
    (h : ∀ x ∈ xs, f st x = .ok st) : xs.foldlM f st = .ok st := by
  induction xs with
  | nil => rfl
  | cons x xs ih =>
    rw [List.foldlM_cons, h x List.mem_cons_self]
    exact ih fun y hy => h y (List.mem_cons_of_mem _ hy)

/-- A fold over steps that commute does not depend on the order. -/
theorem foldlM_perm {α β : Type*} {f : β → α → Option β}
    (hcomm : ∀ b x y, ((f b x).bind fun b => f b y) = (f b y).bind fun b => f b x) {xs ys : List α}
    (h : xs.Perm ys) (b : β) : xs.foldlM f b = ys.foldlM f b := by
  induction h generalizing b with
  | nil => rfl
  | cons x _ ih =>
    rw [List.foldlM_cons, List.foldlM_cons]
    exact congrArg (Option.bind (f b x)) (funext fun b => ih b)
  | swap x y xs =>
    have hswap := congrArg (fun o => Option.bind o fun b => xs.foldlM f b) (hcomm b y x)
    simp only [Option.bind_assoc] at hswap
    simp only [List.foldlM_cons]
    exact hswap
  | trans _ _ ih ih' => exact (ih b).trans (ih' b)

end RiskOps.Lib
