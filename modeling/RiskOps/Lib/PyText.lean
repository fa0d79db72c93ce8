import RiskOps.Lib.Lawful

/-!
# RiskOps.Lib.PyText — characters and text as Python classifies them

**Whitespace, stripping and lines.** The predicates are Python's on Unicode text:
`isSpace` is `str.isspace` on one character, which is also what `\s` matches.
-/

namespace RiskOps.Lib

/-- `str.isspace` on one character. -/
def isSpace (c : Char) : Bool :=
  (9 ≤ c.toNat && c.toNat ≤ 13) || (28 ≤ c.toNat && c.toNat ≤ 32) || c.toNat = 0x85
    || c.toNat = 0xA0 || c.toNat = 0x1680 || (0x2000 ≤ c.toNat && c.toNat ≤ 0x200A)
    || c.toNat = 0x2028 || c.toNat = 0x2029 || c.toNat = 0x202F || c.toNat = 0x205F
    || c.toNat = 0x3000

/-- `str.strip()`. -/
def strip (s : List Char) : List Char :=
  ((s.dropWhile isSpace).reverse.dropWhile isSpace).reverse

/-- Text that neither starts nor ends with whitespace is its own `strip`. -/
theorem strip_eq_self {s : List Char} (hhead : ∀ c, s.head? = some c → isSpace c = false)
    (hlast : ∀ c, s.getLast? = some c → isSpace c = false) : strip s = s := by
  have hdrop : ∀ l : List Char, (∀ c, l.head? = some c → isSpace c = false) →
      l.dropWhile isSpace = l := by
    intro l hl
    cases l with
    | nil => rfl
    | cons c cs => simp [List.dropWhile, hl c rfl]
  rw [strip, hdrop s hhead, hdrop s.reverse (by simpa using hlast), List.reverse_reverse]

/-! ### Words -/

/-- `text.split(' ')`. -/
def words (s : List Char) : List (List Char) := s.splitOn ' '

theorem words_append (s t : List Char) : words (s ++ ' ' :: t) = words s ++ words t :=
  List.splitOn_append_cons_self s t

theorem words_eq_singleton {x : List Char} (h : ' ' ∉ x) : words x = [x] :=
  List.splitOn_eq_singleton h

theorem words_cons {x : List Char} (h : ' ' ∉ x) (t : List Char) :
    words (x ++ ' ' :: t) = x :: words t := by
  rw [words_append, words_eq_singleton h, List.singleton_append]

theorem intercalate_words (s : List Char) : [' '].intercalate (words s) = s :=
  List.intercalate_splitOn ' '

theorem words_ne_nil (s : List Char) : words s ≠ [] := List.splitOn_ne_nil ' ' s

/-! ### The first whitespace -/

/-- No character is whitespace. -/
def Solid (x : List Char) : Prop := ∀ c ∈ x, isSpace c = false

instance (x : List Char) : Decidable (Solid x) :=
  List.decidableBAll (fun c => isSpace c = false) x

theorem Solid.not_mem {x : List Char} (h : Solid x) {c : Char} (hc : isSpace c = true) : c ∉ x :=
  fun hmem => by simp [h c hmem] at hc

theorem isSpace_space : isSpace ' ' = true := by decide

theorem Solid.no_blank {x : List Char} (h : Solid x) : ' ' ∉ x := h.not_mem isSpace_space

theorem Solid.append {x y : List Char} (hx : Solid x) (hy : Solid y) : Solid (x ++ y) :=
  fun c hc => (List.mem_append.mp hc).elim (hx c) (hy c)

/-- The text before the first whitespace is determined, and so is what follows it. -/
theorem Solid.split_unique {x y s t : List Char} {c d : Char} (hx : Solid x) (hy : Solid y)
    (hc : isSpace c = true) (hd : isSpace d = true) (h : x ++ c :: s = y ++ d :: t) :
    x = y ∧ c = d ∧ s = t := by
  induction x generalizing y with
  | nil =>
    cases y with
    | nil => simpa using h
    | cons b y =>
      obtain ⟨rfl, -⟩ := List.cons.inj h
      simp [hy c List.mem_cons_self] at hc
  | cons a x ih =>
    cases y with
    | nil =>
      obtain ⟨rfl, -⟩ := List.cons.inj h
      simp [hx a List.mem_cons_self] at hd
    | cons b y =>
      obtain ⟨rfl, htail⟩ := List.cons.inj h
      obtain ⟨rfl, rfl, rfl⟩ := ih (fun c hc => hx c (List.mem_cons_of_mem _ hc))
        (fun c hc => hy c (List.mem_cons_of_mem _ hc)) htail
      exact ⟨rfl, rfl, rfl⟩

/-- A text is solid, or it has a first whitespace. -/
theorem solid_or_split (s : List Char) :
    Solid s ∨ ∃ x c t, s = x ++ c :: t ∧ Solid x ∧ isSpace c = true := by
  induction s with
  | nil => exact Or.inl (by simp [Solid])
  | cons a s ih =>
    by_cases ha : isSpace a = true
    · exact Or.inr ⟨[], a, s, rfl, by simp [Solid], ha⟩
    · simp only [Bool.not_eq_true] at ha
      rcases ih with hs | ⟨x, c, t, rfl, hx, hc⟩
      · exact Or.inl (by simpa [Solid, ha] using hs)
      · exact Or.inr ⟨a :: x, c, t, rfl, by simpa [Solid, ha] using hx, hc⟩

end RiskOps.Lib
