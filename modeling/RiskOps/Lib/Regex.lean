import RiskOps.Lib.Lawful

/-!
# RiskOps.Lib.Regex — backtracking regular expressions with named groups

**Regular expressions as a backtracking engine runs them.** A pattern is a syntax
tree; `Regex.run` explores its alternatives in priority order and hands every end
position to a continuation, so the first success is the match the engine reports:
greedy repetitions try the longest run first, lazy ones the shortest, and
`fullmatch` keeps backtracking until the whole text is consumed. Groups record the
text they matched, the last iteration winning.

The lemmas at the end are the rules by which a match is computed on a text whose
shape is known: a literal, a run of a class up to a character outside it, an
optional part. None of them mentions a particular pattern.
-/

namespace RiskOps.Lib

/-- A pattern over characters. `rep` repeats one character class between `min` and
`max` times (`none` for no upper bound), `star` repeats a whole pattern greedily,
`notAhead` is `(?!..)` and `dollar` is `$`. -/
inductive Regex where
  | lit (s : List Char)
  | rep (p : Char → Bool) (min : Nat) (max : Option Nat) (greedy : Bool)
  | seq (r s : Regex)
  | alt (r s : Regex)
  | opt (r : Regex)
  | star (r : Regex)
  | group (name : String) (r : Regex)
  | notAhead (r : Regex)
  | dollar

namespace Regex

/-- What the groups of a match captured, the latest capture first. -/
abbrev Groups := List (String × List Char)

/-- One character of a class. -/
def cls (p : Char → Bool) : Regex := rep p 1 (some 1) true

/-- `[..]*`. -/
def many (p : Char → Bool) : Regex := rep p 0 none true

/-- `[..]+`. -/
def some1 (p : Char → Bool) : Regex := rep p 1 none true

/-- `[..]+?`. -/
def lazy1 (p : Char → Bool) : Regex := rep p 1 none false

/-- A sequence of patterns. -/
def cat : List Regex → Regex
  | [] => lit []
  | [r] => r
  | r :: rs => seq r (cat rs)

section Semantics

variable {β : Type}

/-- The remaining text after a literal, when the text starts with it. -/
def dropLit : List Char → List Char → Option (List Char)
  | [], s => some s
  | _ :: _, [] => none
  | a :: as, c :: cs => if a = c then dropLit as cs else none

/-- Repeats a class: `min` characters first, then as the mode says. -/
def runRep (p : Char → Bool) (greedy : Bool) (k : List Char → Option β) :
    Nat → Option Nat → List Char → Option β
  | min, _, [] => if min = 0 then k [] else none
  | min, max, c :: cs =>
    let more := if p c && max != some 0 then
      runRep p greedy k (min - 1) (max.map (· - 1)) cs else none
    if min = 0 then
      if greedy then more <|> k (c :: cs) else k (c :: cs) <|> more
    else more

/-- Repeats a consuming pattern greedily; the fuel is the length of the text. -/
def runStar (f : List Char → Groups → (List Char → Groups → Option β) → Option β)
    (k : List Char → Groups → Option β) : Nat → List Char → Groups → Option β
  | 0, s, g => k s g
  | n + 1, s, g =>
    f s g (fun rest g' => if rest.length < s.length then runStar f k n rest g' else none) <|> k s g

/-- The text between a position and a later one. -/
def consumed (s rest : List Char) : List Char := s.take (s.length - rest.length)

/-- Runs a pattern at a position and passes each way it can match, best first, to `k`. -/
def run : Regex → {β : Type} → List Char → Groups → (List Char → Groups → Option β) → Option β
  | lit l, _, s, g, k => (dropLit l s).bind (k · g)
  | rep p min max greedy, _, s, g, k => runRep p greedy (k · g) min max s
  | seq r r', _, s, g, k => run r s g fun rest g' => run r' rest g' k
  | alt r r', _, s, g, k => run r s g k <|> run r' s g k
  | opt r, _, s, g, k => run r s g k <|> k s g
  | star r, _, s, g, k => runStar (run r) k s.length s g
  | group name r, _, s, g, k =>
    run r s g fun rest g' => k rest ((name, consumed s rest) :: g')
  | notAhead r, _, s, g, k =>
    if (run r s g fun _ _ => some ()).isSome then none else k s g
  | dollar, _, s, g, k => if s = [] ∨ s = ['\n'] then k s g else none

/-- `pattern.match(text)`: the groups and the remaining text of the best match. -/
def «match» (r : Regex) (s : List Char) : Option (Groups × List Char) :=
  run r s [] fun rest g => some (g, rest)

/-- `pattern.fullmatch(text)`: the groups of the best match of the whole text. -/
def fullmatch (r : Regex) (s : List Char) : Option Groups :=
  run r s [] fun rest g => if rest = [] then some g else none

/-- `match.groupdict().get(name)`. -/
def Groups.get (g : Groups) (name : String) : Option (List Char) :=
  g.lookup name

end Semantics

/-! ### The ways a pattern can match -/

/-- One iteration step of a star: a match of the body that consumes something. -/
inductive Iterates (step : List Char → List Char → Groups → Groups → Prop) :
    List Char → List Char → Groups → Groups → Prop where
  | done (s : List Char) (g : Groups) : Iterates step s s g g
  | more {s mid rest : List Char} {g g₁ g₂ : Groups} (h : step s mid g g₁)
      (hlt : mid.length < s.length) (htail : Iterates step mid rest g₁ g₂) :
      Iterates step s rest g g₂

/-- A pattern can lead from one position to another, changing the groups. -/
def Steps : Regex → List Char → List Char → Groups → Groups → Prop
  | lit l, s, rest, g, g' => s = l ++ rest ∧ g' = g
  | rep p min max _, s, rest, g, g' => ∃ x, s = x ++ rest ∧ (∀ c ∈ x, p c = true) ∧
      min ≤ x.length ∧ (∀ m, max = some m → x.length ≤ m) ∧ g' = g
  | seq r r', s, rest, g, g' => ∃ mid g₁, Steps r s mid g g₁ ∧ Steps r' mid rest g₁ g'
  | alt r r', s, rest, g, g' => Steps r s rest g g' ∨ Steps r' s rest g g'
  | opt r, s, rest, g, g' => Steps r s rest g g' ∨ (rest = s ∧ g' = g)
  | star r, s, rest, g, g' => Iterates (Steps r) s rest g g'
  | group name r, s, rest, g, g' => ∃ g₁, Steps r s rest g g₁ ∧ g' = (name, consumed s rest) :: g₁
  | notAhead r, s, rest, g, g' => (∀ end_ g₁, ¬ Steps r s end_ g g₁) ∧ rest = s ∧ g' = g
  | dollar, s, rest, g, g' => (s = [] ∨ s = ['\n']) ∧ rest = s ∧ g' = g

/-! ### Literals and sequences -/

section Rules

variable {β : Type} {k : List Char → Groups → Option β} {g : Groups}

@[simp] theorem dropLit_append (l s : List Char) : dropLit l (l ++ s) = some s := by
  induction l with
  | nil => rfl
  | cons a l ih => simp [dropLit, ih]

variable {s : List Char}

theorem dropLit_eq_some_iff {l rest : List Char} : dropLit l s = some rest ↔ s = l ++ rest := by
  induction l generalizing s with
  | nil => simp [dropLit]
  | cons a l ih =>
    cases s with
    | nil => simp [dropLit]
    | cons c cs =>
      by_cases h : a = c
      · simp [dropLit, h, ih]
      · simp [dropLit, h, Ne.symm h]

@[simp] theorem consumed_append (x rest : List Char) : consumed (x ++ rest) rest = x := by
  simp [consumed]

/-! ### The engine finds a match exactly when there is one -/

theorem orElse_eq_some {α : Type} {a b : Option α} {x : α} (h : (a <|> b) = some x) :
    a = some x ∨ (a = none ∧ b = some x) := by
  cases a with
  | none => exact Or.inr ⟨rfl, by simpa using h⟩
  | some y => exact Or.inl (by simpa using h)

theorem isSome_orElse {α : Type} {a b : Option α} (h : a.isSome ∨ b.isSome) :
    (a <|> b).isSome := by
  cases a with
  | none => simpa using h
  | some y => rfl

variable {min : Nat}

theorem runRep_sound {p : Char → Bool} {greedy : Bool} {f : List Char → Option β} {b : β}
    {max : Option Nat} (h : runRep p greedy f min max s = some b) :
    ∃ x rest, s = x ++ rest ∧ (∀ c ∈ x, p c = true) ∧ min ≤ x.length ∧
      (∀ m, max = some m → x.length ≤ m) ∧ f rest = some b := by
  induction s generalizing min max with
  | nil =>
    unfold runRep at h
    split at h
    · rename_i hmin
      exact ⟨[], [], rfl, by simp, by simp [hmin], by simp, h⟩
    · simp at h
  | cons c cs ih =>
    have hmore : (if p c && max != some 0 then
        runRep p greedy f (min - 1) (max.map (· - 1)) cs else none) = some b →
        ∃ x rest, c :: cs = x ++ rest ∧ (∀ c ∈ x, p c = true) ∧ min ≤ x.length ∧
          (∀ m, max = some m → x.length ≤ m) ∧ f rest = some b := by
      intro hm
      split at hm
      · rename_i hc
        simp only [Bool.and_eq_true, bne_iff_ne, ne_eq] at hc
        obtain ⟨x, rest, hs, hx, hmin, hmax, hf⟩ := ih hm
        refine ⟨c :: x, rest, by simp [hs], ?_, by simp; omega, ?_, hf⟩
        · intro d hd
          rcases List.mem_cons.mp hd with rfl | hd
          · exact hc.1
          · exact hx d hd
        · intro m hm'
          have hle := hmax (m - 1) (by simp [hm'])
          have hpos : m ≠ 0 := fun h0 => hc.2 (by rw [hm', h0])
          simp only [List.length_cons]
          omega
      · simp at hm
    have hstop : min = 0 → f (c :: cs) = some b →
        ∃ x rest, c :: cs = x ++ rest ∧ (∀ c ∈ x, p c = true) ∧ min ≤ x.length ∧
          (∀ m, max = some m → x.length ≤ m) ∧ f rest = some b := fun hmin hf =>
      ⟨[], c :: cs, rfl, by simp, by simp [hmin], by simp, hf⟩
    unfold runRep at h
    simp only at h
    split at h
    · rename_i hmin
      split at h
      · rcases orElse_eq_some h with h | ⟨-, h⟩
        · exact hmore h
        · exact hstop hmin h
      · rcases orElse_eq_some h with h | ⟨-, h⟩
        · exact hstop hmin h
        · exact hmore h
    · exact hmore h

variable {x : List Char}

theorem runRep_complete {p : Char → Bool} {greedy : Bool} {f : List Char → Option β}
    {rest : List Char} {max : Option Nat} (hx : ∀ c ∈ x, p c = true) (hmin : min ≤ x.length)
    (hmax : ∀ m, max = some m → x.length ≤ m) (hf : (f rest).isSome) :
    (runRep p greedy f min max (x ++ rest)).isSome := by
  induction x generalizing min max with
  | nil =>
    obtain rfl : min = 0 := by simpa using hmin
    cases rest with
    | nil => simpa [runRep] using hf
    | cons c cs =>
      rw [List.nil_append]
      unfold runRep
      simp only [if_true]
      split
      · exact isSome_orElse (Or.inr hf)
      · exact isSome_orElse (Or.inl hf)
  | cons c x ih =>
    have hc : (p c && max != some 0) = true := by
      simp only [Bool.and_eq_true, bne_iff_ne, ne_eq]
      refine ⟨hx c List.mem_cons_self, fun h0 => ?_⟩
      have := hmax 0 h0
      simp at this
    have htail : (runRep p greedy f (min - 1) (max.map (· - 1)) (x ++ rest)).isSome := by
      refine ih (fun d hd => hx d (List.mem_cons_of_mem _ hd)) ?_ ?_
      · simp only [List.length_cons] at hmin
        omega
      · intro m hm
        obtain ⟨m', hm', rfl⟩ := Option.map_eq_some_iff.mp hm
        have := hmax m' hm'
        simp only [List.length_cons] at this
        omega
    rw [List.cons_append]
    unfold runRep
    simp only [hc, if_true]
    split
    · split
      · exact isSome_orElse (Or.inl htail)
      · exact isSome_orElse (Or.inr htail)
    · exact htail

variable {r : Regex}

/-- What a loop that is sound at each iteration finds, iterations can reach. -/
theorem runStar_sound {b : β}
    (hr : ∀ {s : List Char} {g : Groups} {k' : List Char → Groups → Option β},
      run r s g k' = some b → ∃ rest g', Steps r s rest g g' ∧ k' rest g' = some b) {n : Nat}
    (h : runStar (run r) k n s g = some b) :
    ∃ rest g', Iterates (Steps r) s rest g g' ∧ k rest g' = some b := by
  induction n generalizing s g with
  | zero => exact ⟨s, g, .done s g, h⟩
  | succ n ih =>
    rcases orElse_eq_some h with h | ⟨-, h⟩
    · obtain ⟨mid, g₁, hstep, hmid⟩ := hr h
      split at hmid
      · rename_i hlt
        obtain ⟨rest, g', hrest, hk⟩ := ih hmid
        exact ⟨rest, g', .more hstep hlt hrest, hk⟩
      · simp at hmid
    · exact ⟨s, g, .done s g, h⟩

/-- A loop with enough fuel tries every number of iterations. -/
theorem runStar_complete
    (hr : ∀ {s rest : List Char} {g g' : Groups} {k' : List Char → Groups → Option β},
      Steps r s rest g g' → (k' rest g').isSome → (run r s g k').isSome) {n : Nat}
    {rest : List Char} {g' : Groups} (h : Iterates (Steps r) s rest g g') (hn : s.length ≤ n)
    (hk : (k rest g').isSome) : (runStar (run r) k n s g).isSome := by
  induction h generalizing n with
  | done s g =>
    cases n with
    | zero => exact hk
    | succ n => exact isSome_orElse (Or.inr hk)
  | @more s mid rest g g₁ g₂ hstep hlt htail ih =>
    cases n with
    | zero => omega
    | succ n =>
      refine isSome_orElse (Or.inl (hr hstep ?_))
      rw [if_pos hlt]
      exact ih (by omega) hk

mutual

/-- Every success of the engine is a way the pattern can match. -/
theorem run_sound : (r : Regex) → {β : Type} → {s : List Char} → {g : Groups} →
    {k : List Char → Groups → Option β} → {b : β} → run r s g k = some b →
    ∃ rest g', Steps r s rest g g' ∧ k rest g' = some b
  | lit l, _, s, g, k, b, h => by
    obtain ⟨rest, hrest, hk⟩ := Option.bind_eq_some_iff.mp h
    exact ⟨rest, g, ⟨dropLit_eq_some_iff.mp hrest, rfl⟩, hk⟩
  | rep p min max greedy, _, s, g, k, b, h => by
    obtain ⟨x, rest, hs, hx, hmin, hmax, hk⟩ := runRep_sound h
    exact ⟨rest, g, ⟨x, hs, hx, hmin, hmax, rfl⟩, hk⟩
  | seq r r', _, s, g, k, b, h => by
    obtain ⟨mid, g₁, hr, hmid⟩ := run_sound r h
    obtain ⟨rest, g', hr', hk⟩ := run_sound r' hmid
    exact ⟨rest, g', ⟨mid, g₁, hr, hr'⟩, hk⟩
  | alt r r', _, s, g, k, b, h => by
    rcases orElse_eq_some h with h | ⟨-, h⟩
    · obtain ⟨rest, g', hr, hk⟩ := run_sound r h
      exact ⟨rest, g', Or.inl hr, hk⟩
    · obtain ⟨rest, g', hr, hk⟩ := run_sound r' h
      exact ⟨rest, g', Or.inr hr, hk⟩
  | opt r, _, s, g, k, b, h => by
    rcases orElse_eq_some h with h | ⟨-, h⟩
    · obtain ⟨rest, g', hr, hk⟩ := run_sound r h
      exact ⟨rest, g', Or.inl hr, hk⟩
    · exact ⟨s, g, Or.inr ⟨rfl, rfl⟩, h⟩
  | star r, _, s, g, k, b, h => runStar_sound (run_sound r) h
  | group name r, _, s, g, k, b, h => by
    obtain ⟨rest, g₁, hr, hk⟩ := run_sound r h
    exact ⟨rest, _, ⟨g₁, hr, rfl⟩, hk⟩
  | notAhead r, _, s, g, k, b, h => by
    unfold run at h
    split at h
    · simp at h
    · rename_i hnone
      refine ⟨s, g, ⟨fun end_ g₁ hr => hnone ?_, rfl, rfl⟩, h⟩
      exact run_complete r hr rfl
  | dollar, _, s, g, k, b, h => by
    unfold run at h
    split at h
    · rename_i hend
      exact ⟨s, g, ⟨hend, rfl, rfl⟩, h⟩
    · simp at h

/-- The engine succeeds whenever some way to match leads to success. -/
theorem run_complete : (r : Regex) → {β : Type} → {s rest : List Char} → {g g' : Groups} →
    {k : List Char → Groups → Option β} → Steps r s rest g g' → (k rest g').isSome →
    (run r s g k).isSome
  | lit l, _, s, rest, g, g', k, h, hk => by
    obtain ⟨rfl, rfl⟩ := h
    simpa [run] using hk
  | rep p min max greedy, _, s, rest, g, g', k, h, hk => by
    obtain ⟨x, rfl, hx, hmin, hmax, rfl⟩ := h
    exact runRep_complete hx hmin hmax hk
  | seq r r', _, s, rest, g, g', k, h, hk => by
    obtain ⟨mid, g₁, hr, hr'⟩ := h
    exact run_complete r hr (run_complete r' hr' hk)
  | alt r r', _, s, rest, g, g', k, h, hk =>
    isSome_orElse (h.imp (run_complete r · hk) (run_complete r' · hk))
  | opt r, _, s, rest, g, g', k, h, hk => by
    rcases h with h | ⟨rfl, rfl⟩
    · exact isSome_orElse (Or.inl (run_complete r h hk))
    · exact isSome_orElse (Or.inr hk)
  | star r, _, s, rest, g, g', k, h, hk =>
    runStar_complete (run_complete r) h (Nat.le_refl _) hk
  | group name r, _, s, rest, g, g', k, h, hk => by
    obtain ⟨g₁, hr, rfl⟩ := h
    exact run_complete r hr hk
  | notAhead r, _, s, rest, g, g', k, h, hk => by
    obtain ⟨hnone, rfl, rfl⟩ := h
    unfold run
    rw [if_neg]
    · exact hk
    · intro hsome
      obtain ⟨u, hu⟩ := Option.isSome_iff_exists.mp hsome
      obtain ⟨end_, g₁, hr, -⟩ := run_sound r hu
      exact hnone end_ g₁ hr
  | dollar, _, s, rest, g, g', k, h, hk => by
    obtain ⟨hend, rfl, rfl⟩ := h
    unfold run
    rwa [if_pos hend]

end

theorem fullmatch_sound {g : Groups} (h : fullmatch r s = some g) : Steps r s [] [] g := by
  obtain ⟨rest, g', hr, hk⟩ := run_sound r h
  split at hk
  · rename_i hrest
    rw [← Option.some.inj hk, ← hrest]
    exact hr
  · simp at hk

theorem fullmatch_complete {g : Groups} (h : Steps r s [] [] g) : ∃ g', fullmatch r s = some g' :=
  Option.isSome_iff_exists.mp (run_complete r h (by simp))

/-! ### Which match comes first -/

theorem run_seq (r r' : Regex) (s : List Char) :
    run (seq r r') s g k = run r s g fun rest g' => run r' rest g' k := rfl

theorem run_alt (r r' : Regex) (s : List Char) :
    run (alt r r') s g k = (run r s g k <|> run r' s g k) := rfl

@[simp] theorem run_lit_append (l s : List Char) : run (lit l) (l ++ s) g k = k s g := by
  simp [run]

variable {t : List Char}

theorem runRep_greedy_first {p : Char → Bool} {f : List Char → Option β} {b : β}
    (hx : ∀ c ∈ x, p c = true) (hmin : min ≤ x.length) (ht : ∀ c, t.head? = some c → p c = false)
    (hf : f t = some b) : runRep p true f min none (x ++ t) = some b := by
  induction x generalizing min with
  | nil =>
    obtain rfl : min = 0 := by simpa using hmin
    cases t with
    | nil => simpa [runRep] using hf
    | cons c cs => simpa [runRep, ht c rfl] using hf
  | cons c x ih =>
    have htail : runRep p true f (min - 1) none (x ++ t) = some b := by
      refine ih (fun d hd => hx d (List.mem_cons_of_mem _ hd)) ?_
      simp only [List.length_cons] at hmin
      omega
    rw [List.cons_append]
    unfold runRep
    simp [hx c List.mem_cons_self, htail]

/-- A greedy group takes the whole run when the rest of the pattern accepts it. -/
theorem run_greedy_first {p : Char → Bool} {b : β} {name : String} (hx : ∀ c ∈ x, p c = true)
    (ht : ∀ c, t.head? = some c → p c = false) (hk : k t ((name, x) :: g) = some b) :
    run (group name (many p)) (x ++ t) g k = some b := by
  refine runRep_greedy_first hx (Nat.zero_le _) ht ?_
  simpa using hk

theorem runRep_lazy_first {p : Char → Bool} {f : List Char → Option β} {b : β}
    (hx : ∀ c ∈ x, p c = true) (hnone : ∀ a d, x = a ++ d → d ≠ [] → f (d ++ t) = none)
    (hf : f t = some b) : runRep p false f 0 none (x ++ t) = some b := by
  induction x with
  | nil =>
    cases t with
    | nil => simpa [runRep] using hf
    | cons c cs => simp [runRep, hf]
  | cons c x ih =>
    have htail : runRep p false f 0 none (x ++ t) = some b :=
      ih (fun d hd => hx d (List.mem_cons_of_mem _ hd))
        (fun a d hxd hd => hnone (c :: a) d (by rw [hxd, List.cons_append]) hd)
    have hhere : f (c :: (x ++ t)) = none := hnone [] (c :: x) rfl (by simp)
    rw [List.cons_append]
    unfold runRep
    simp [hx c List.mem_cons_self, htail, hhere]

/-- A lazy group takes the shortest nonempty run that the rest of the pattern accepts. -/
theorem run_lazy_first {p : Char → Bool} {b : β} {name : String} (hne : x ≠ [])
    (hx : ∀ c ∈ x, p c = true)
    (hnone : ∀ a d, x = a ++ d → a ≠ [] → d ≠ [] → k (d ++ t) ((name, a) :: g) = none)
    (hk : k t ((name, x) :: g) = some b) : run (group name (lazy1 p)) (x ++ t) g k = some b := by
  cases x with
  | nil => exact absurd rfl hne
  | cons c x =>
    show runRep p false _ 1 none (c :: (x ++ t)) = some b
    unfold runRep
    simp only [hx c List.mem_cons_self, Option.map_none]
    refine runRep_lazy_first (fun d hd => hx d (List.mem_cons_of_mem _ hd)) ?_ ?_
    · intro a d hxd hd
      have hcons : consumed (c :: x ++ t) (d ++ t) = c :: a := by
        rw [hxd, ← List.cons_append, List.append_assoc, consumed_append]
      rw [hcons]
      exact hnone (c :: a) d (by rw [hxd, List.cons_append]) (by simp) hd
    · rw [consumed_append]
      exact hk

end Rules

end Regex

end RiskOps.Lib
