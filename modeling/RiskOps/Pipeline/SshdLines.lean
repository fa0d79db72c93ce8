import RiskOps.Pipeline.SshdConfig

/-!
# RiskOps.Pipeline.SshdLines — lines with their ends

The editor splits a file with `splitlines(keepends=True)`; the verifier reads it with universal
newlines and splits it with `splitlines()`. **Both see the same lines**: those that count of
`lines.flatten` are the trimmed `lines` that count (`texts_flatten`), as long as each line is ended
before the next begins.
-/

namespace RiskOps.Pipeline.Sshd

open RiskOps.Lib
open RiskOps.Storage (isBreak splitlines splitlinesFrom)

/-! ### Splitting -/

/-- The lines of `text.splitlines(keepends=True)` behind the start of a line. -/
def keepFrom : Str → Str → List Str
  | line, [] => if line = [] then [] else [line]
  | line, 13 :: 10 :: rest => (line ++ [13, 10]) :: keepFrom [] rest
  | line, c :: rest =>
    if isBreak c then (line ++ [c]) :: keepFrom [] rest else keepFrom (line ++ [c]) rest

/-- `text.splitlines(keepends=True)`. -/
def keepends (text : Str) : List Str := keepFrom [] text

variable {c : Nat}

theorem keepFrom_cons (line : Str) {rest : Str} (h : ∀ s, c = 13 → rest = 10 :: s → False) :
    keepFrom line (c :: rest)
      = if isBreak c then (line ++ [c]) :: keepFrom [] rest else keepFrom (line ++ [c]) rest := by
  rw [keepFrom]
  exact h

/-! ### Lines with their ends -/

theorem isBlankCode_of_isBreak (h : isBreak c = true) : isBlankCode c = true := by
  simp only [isBreak, Bool.or_eq_true, decide_eq_true_eq] at h
  rcases h with ((((((((rfl | rfl) | rfl) | rfl) | rfl) | rfl) | rfl) | rfl) | rfl) | rfl <;> decide

theorem trim_append_blank (h : isBlankCode c = true) (s : Str) : trim (s ++ [c]) = trim s := by
  unfold trim
  by_cases hall : ∀ d ∈ s, isBlankCode d = true
  · have hs : s.dropWhile isBlankCode = [] := List.dropWhile_eq_nil_iff.mpr hall
    have hsc : (s ++ [c]).dropWhile isBlankCode = [] :=
      List.dropWhile_eq_nil_iff.mpr fun d hd => (List.mem_append.mp hd).elim (hall d) fun hd => by
        rw [List.mem_singleton.mp hd]
        exact h
    rw [hs, hsc]
  · have hne : s.dropWhile isBlankCode ≠ [] := fun hnil =>
      hall (List.dropWhile_eq_nil_iff.mp hnil)
    rw [List.dropWhile_append, if_neg (by simpa using hne), List.reverse_append,
      List.reverse_singleton, List.singleton_append, List.dropWhile_cons_of_pos h]

/-- A line with its end: a stretch without breaks, and the break behind it. -/
structure IsRaw (raw : Str) : Prop where
  split : ∃ line ending, raw = line ++ ending ∧ (∀ c ∈ line, isBreak c = false) ∧
    (ending = [] ∧ line ≠ [] ∨ ending = [13, 10] ∨ ∃ c, isBreak c = true ∧ ending = [c])

/-- The line ends with a break. -/
def Ended (raw : Str) : Prop := ∃ c, raw.getLast? = some c ∧ isBreak c = true

/-- One line may stand before another: it is ended, and no line feed completes its end. -/
def Before (raw next : Str) : Prop :=
  Ended raw ∧ ¬ (raw.getLast? = some 13 ∧ next.head? = some 10)

variable {s : Str}

theorem universal_cons (h : ¬ (c = 13 ∧ s.head? = some 10)) :
    universal (c :: s) = (if c = 13 then 10 else c) :: universal s := by
  rw [universal]
  rintro s' rfl rfl
  exact h ⟨rfl, rfl⟩

theorem universal_append {a b : Str} (h : ¬ (a.getLast? = some 13 ∧ b.head? = some 10)) :
    universal (a ++ b) = universal a ++ universal b := by
  induction a using universal.induct with
  | case1 s ih =>
    rw [List.cons_append, List.cons_append, universal, universal, List.cons_append, ih]
    cases s with
    | nil => simp
    | cons d s => simpa using h
  | case2 c s hne ih =>
    have hs : ¬ (c = 13 ∧ s.head? = some 10) := by
      rintro ⟨rfl, hhead⟩
      obtain ⟨s', rfl⟩ := List.head?_eq_some_iff.mp hhead
      exact hne s' rfl rfl
    have hsb : ¬ (c = 13 ∧ (s ++ b).head? = some 10) := by
      cases s with
      | nil =>
        rintro ⟨rfl, hhead⟩
        exact h ⟨rfl, hhead⟩
      | cons d s => exact hs
    rw [List.cons_append, universal_cons hsb, universal_cons hs, List.cons_append, ih]
    cases s with
    | nil => simp
    | cons d s => simpa using h
  | case3 => rfl

theorem not_mem_universal (s : Str) : 13 ∉ universal s := by
  induction s using universal.induct with
  | case1 s ih =>
    rw [universal, List.mem_cons, not_or]
    exact ⟨by decide, ih⟩
  | case2 c s hne ih =>
    rw [universal]
    · rw [List.mem_cons, not_or]
      refine ⟨?_, ih⟩
      split
      · decide
      · rename_i hc
        exact fun heq => hc heq.symm
    · exact hne
  | case3 => exact List.not_mem_nil

theorem ended_universal (h : Ended s) : Ended (universal s) := by
  obtain ⟨c, hlast, hc⟩ := h
  obtain ⟨s, rfl⟩ := List.getLast?_eq_some_iff.mp hlast
  have hone : universal [c] = [if c = 13 then 10 else c] := universal_cons (by simp)
  -- a carriage return and a line feed are one end
  by_cases hfeed : s.getLast? = some 13 ∧ c = 10
  · obtain ⟨hs, rfl⟩ := hfeed
    obtain ⟨s, rfl⟩ := List.getLast?_eq_some_iff.mp hs
    have htwo : universal (s ++ [13, 10]) = universal s ++ [10] := by
      rw [universal_append (by simp)]
      rfl
    refine ⟨10, ?_, by decide⟩
    rw [List.append_assoc, List.singleton_append, htwo, List.getLast?_append]
    rfl
  · refine ⟨if c = 13 then 10 else c, ?_, ?_⟩
    · rw [universal_append (by simpa using hfeed), hone, List.getLast?_append]
      rfl
    · split
      · decide
      · exact hc

/-- Ended lines are read for themselves. -/
theorem splitlinesFrom_append_ended {x : Str} (h : 13 ∉ x) (hended : Ended x) (line y : Str) :
    splitlinesFrom line (x ++ y) = splitlinesFrom line x ++ splitlines y := by
  induction x generalizing line with
  | nil =>
    obtain ⟨c, hlast, -⟩ := hended
    cases hlast
  | cons c x ih =>
    rw [List.mem_cons, not_or] at h
    have hc : c ≠ 13 := Ne.symm h.1
    rw [List.cons_append, RiskOps.Storage.splitlinesFrom_cons _ _ hc,
      RiskOps.Storage.splitlinesFrom_cons _ _ hc]
    cases x with
    | nil =>
      obtain ⟨d, hlast, hd⟩ := hended
      have hcd : c = d := Option.some.inj hlast
      rw [← hcd] at hd
      rw [if_pos hd, if_pos hd]
      rfl
    | cons d x =>
      have hrest : Ended (d :: x) := by
        obtain ⟨e, hlast, he⟩ := hended
        exact ⟨e, by simpa using hlast, he⟩
      split
      · rw [ih h.2 hrest, List.cons_append]
      · rw [ih h.2 hrest]

theorem texts_append {a b : Str} (hended : Ended a)
    (h : ¬ (a.getLast? = some 13 ∧ b.head? = some 10)) : texts (a ++ b) = texts a ++ texts b := by
  rw [texts, universal_append h, splitlines,
    splitlinesFrom_append_ended (not_mem_universal a) (ended_universal hended), List.map_append,
    List.filter_append]
  rfl

theorem universal_unbroken {line : Str} (h : ∀ c ∈ line, isBreak c = false) :
    universal line = line := by
  induction line with
  | nil => rfl
  | cons c line ih =>
    have hc : c ≠ 13 := by
      rintro rfl
      exact absurd (h 13 List.mem_cons_self) (by decide)
    rw [universal_cons (fun h => hc h.1), if_neg hc,
      ih fun d hd => h d (List.mem_cons_of_mem _ hd)]

/-- A line is read as one line. -/
theorem texts_raw {raw : Str} (h : IsRaw raw) : texts raw = [trim raw].filter relevant := by
  obtain ⟨line, ending, rfl, hline, hending⟩ := h.split
  have hlast : line.getLast? ≠ some 13 := by
    intro hmem
    exact absurd (hline 13 (List.mem_of_getLast? hmem)) (by decide)
  have hunbroken := RiskOps.Storage.splitlinesFrom_unbroken hline []
  rcases hending with ⟨rfl, hne⟩ | rfl | ⟨c, hc, rfl⟩
  · have hempty : line.isEmpty = false := by simpa using hne
    rw [List.append_nil, texts, universal_unbroken hline, splitlines, ← List.append_nil line,
      hunbroken, List.nil_append, List.append_nil, splitlinesFrom, hempty]
    rfl
  · have htrim : trim (line ++ [13, 10]) = trim line := by
      have hsplit : line ++ [13, 10] = line ++ [13] ++ [10] := by simp
      rw [hsplit, trim_append_blank (by decide), trim_append_blank (by decide)]
    rw [htrim, texts, universal_append (fun h => hlast h.1), universal_unbroken hline, splitlines]
    have hfeed : universal [13, 10] = [10] := rfl
    rw [hfeed, hunbroken, RiskOps.Storage.splitlinesFrom_cons _ _ (by decide), if_pos (by decide)]
    rfl
  · have hone : universal [c] = [if c = 13 then 10 else c] := universal_cons (by simp)
    have hbreak : isBreak (if c = 13 then 10 else c) = true := by
      split
      · decide
      · exact hc
    have hne : (if c = 13 then 10 else c) ≠ 13 := by
      split
      · decide
      · assumption
    rw [trim_append_blank (isBlankCode_of_isBreak hc), texts,
      universal_append (fun h => hlast h.1), universal_unbroken hline, hone, splitlines, hunbroken,
      RiskOps.Storage.splitlinesFrom_cons _ _ hne, if_pos hbreak]
    rfl

theorem IsRaw.ne_nil {raw : Str} (h : IsRaw raw) : raw ≠ [] := by
  obtain ⟨line, ending, rfl, -, hending⟩ := h.split
  rcases hending with ⟨rfl, hne⟩ | rfl | ⟨c, -, rfl⟩
  · simpa using hne
  · simp
  · simp

/-- Lines, each with its end. -/
structure Lines (raws : List Str) : Prop where
  raw : ∀ r ∈ raws, IsRaw r
  chain : raws.IsChain Before

theorem head_flatten {r : Str} {rs : List Str} (h : r ≠ []) :
    (r :: rs).flatten.head? = r.head? := by
  obtain ⟨c, s, rfl⟩ := List.exists_cons_of_ne_nil h
  rfl

variable {raws : List Str}

/-- The lines that count of a file, line by line. -/
theorem texts_flatten (h : Lines raws) : texts raws.flatten = (raws.map trim).filter relevant := by
  induction raws with
  | nil => rfl
  | cons r rs ih =>
    have hr := texts_raw (h.raw r List.mem_cons_self)
    cases rs with
    | nil =>
      rw [List.flatten_cons, List.flatten_nil, List.append_nil, hr]
      rfl
    | cons r' rs =>
      obtain ⟨hbefore, hchain⟩ := List.isChain_cons_cons.mp h.chain
      have hrest : Lines (r' :: rs) := ⟨fun x hx => h.raw x (List.mem_cons_of_mem _ hx), hchain⟩
      have hne := hrest.raw r' List.mem_cons_self
      rw [List.flatten_cons, texts_append hbefore.1 ?_, hr, ih hrest, List.map_cons,
        List.filter_cons]
      · simp [List.filter_cons]
        split <;> rfl
      · rw [head_flatten hne.ne_nil]
        exact hbefore.2

/-! ### The lines of a file -/

theorem flatten_keepFrom (line s : Str) : (keepFrom line s).flatten = line ++ s := by
  induction line, s using keepFrom.induct with
  | case1 => rfl
  | case2 line h =>
    rw [keepFrom, if_neg h]
    simp
  | case3 line rest ih =>
    rw [keepFrom, List.flatten_cons, ih]
    simp
  | case4 line c rest hne hbreak ih =>
    rw [keepFrom_cons _ hne, if_pos hbreak, List.flatten_cons, ih]
    simp
  | case5 line c rest hne hbreak ih =>
    rw [keepFrom_cons _ hne, if_neg hbreak, ih]
    simp

theorem flatten_keepends (text : Str) : (keepends text).flatten = text := flatten_keepFrom [] text

theorem lines_cons {raw : Str} (hraw : IsRaw raw)
    (hbefore : ∀ c s, raws.flatten = c :: s → Before raw [c]) (h : Lines raws) :
    Lines (raw :: raws) := by
  refine ⟨List.forall_mem_cons.mpr ⟨hraw, h.raw⟩, List.isChain_cons.mpr ⟨?_, h.chain⟩⟩
  intro next hnext
  obtain ⟨rest, rfl⟩ := List.head?_eq_some_iff.mp hnext
  obtain ⟨c, s, rfl⟩ := List.exists_cons_of_ne_nil (h.raw next List.mem_cons_self).ne_nil
  exact hbefore c (s ++ rest.flatten) rfl

/-- The lines of a text with their ends are lines. -/
theorem lines_keepFrom {line : Str} (hline : ∀ c ∈ line, isBreak c = false) :
    Lines (keepFrom line s) := by
  induction line, s using keepFrom.induct with
  | case1 => exact ⟨List.forall_mem_nil _, .nil⟩
  | case2 line hne =>
    rw [keepFrom, if_neg hne]
    have hraw : IsRaw line := ⟨line, [], (List.append_nil _).symm, hline, .inl ⟨rfl, hne⟩⟩
    exact ⟨List.forall_mem_singleton.mpr hraw, .singleton _⟩
  | case3 line rest ih =>
    rw [keepFrom]
    refine lines_cons ⟨line, [13, 10], rfl, hline, .inr (.inl rfl)⟩ ?_
      (ih fun c hc => by cases hc)
    exact fun c s _ => ⟨⟨10, by simp, by decide⟩, fun h => by simp at h⟩
  | case4 line c rest hne hbreak ih =>
    rw [keepFrom_cons _ hne, if_pos hbreak]
    refine lines_cons ⟨line, [c], rfl, hline, .inr (.inr ⟨c, hbreak, rfl⟩)⟩ ?_
      (ih fun c hc => by cases hc)
    intro d s hrest
    rw [flatten_keepFrom, List.nil_append] at hrest
    refine ⟨⟨c, by simp, hbreak⟩, fun h => ?_⟩
    obtain ⟨hc, hd⟩ := h
    rw [List.getLast?_append] at hc
    exact hne s (Option.some.inj hc) (by rw [hrest, Option.some.inj hd])
  | case5 line c rest hne hbreak ih =>
    rw [keepFrom_cons _ hne, if_neg hbreak]
    have hbreak : isBreak c = false := by simpa using hbreak
    refine ih fun d hd => (List.mem_append.mp hd).elim (hline d) fun hd => ?_
    rw [List.mem_singleton.mp hd]
    exact hbreak

theorem lines_keepends (text : Str) : Lines (keepends text) :=
  lines_keepFrom fun c hc => by cases hc

/-! ### Edited lines -/

/-- A line that may stand anywhere: it ends with a line feed and does not begin with one. -/
structure Placed (raw : Str) : Prop where
  isRaw : IsRaw raw
  last : raw.getLast? = some 10
  head : raw.head? ≠ some 10

theorem Placed.before {raw next : Str} (h : Placed raw) : Before raw next := by
  refine ⟨⟨10, h.last, by decide⟩, fun hfeed => ?_⟩
  rw [h.last] at hfeed
  cases hfeed.1

/-- One line is put in the place of another. -/
theorem Lines.set {raw : Str} (h : Lines raws) (hraw : Placed raw) (i : Nat) :
    Lines (raws.set i raw) := by
  induction raws generalizing i with
  | nil => exact h
  | cons r rs ih =>
    obtain ⟨hr, hrs⟩ := List.forall_mem_cons.mp h.raw
    obtain ⟨hhead, hchain⟩ := List.isChain_cons.mp h.chain
    cases i with
    | zero =>
      exact ⟨List.forall_mem_cons.mpr ⟨hraw.isRaw, hrs⟩,
        List.isChain_cons.mpr ⟨fun _ _ => hraw.before, hchain⟩⟩
    | succ i =>
      have hset := ih ⟨hrs, hchain⟩ i
      refine ⟨List.forall_mem_cons.mpr ⟨hr, hset.raw⟩, List.isChain_cons.mpr ⟨?_, hset.chain⟩⟩
      cases rs with
      | nil => exact fun next hnext => by cases hnext
      | cons r' rs =>
        have hbefore := hhead r' rfl
        cases i with
        | zero =>
          intro next hnext
          obtain rfl := Option.some.inj hnext
          exact ⟨hbefore.1, fun hfeed => hraw.head hfeed.2⟩
        | succ i =>
          intro next hnext
          obtain rfl := Option.some.inj hnext
          exact hbefore

theorem Lines.take (h : Lines raws) (n : Nat) : Lines (raws.take n) :=
  ⟨fun r hr => h.raw r (List.mem_of_mem_take hr), h.chain.take n⟩

theorem Lines.drop (h : Lines raws) (n : Nat) : Lines (raws.drop n) :=
  ⟨fun r hr => h.raw r (List.mem_of_mem_drop hr), h.chain.drop n⟩

/-- A line feed behind the last line adds at most an empty one. -/
theorem filter_splitlinesFrom_feed {x : Str} (h : 13 ∉ x) (line : Str) :
    ((splitlinesFrom line (x ++ [10])).map trim).filter relevant
      = ((splitlinesFrom line x).map trim).filter relevant := by
  induction x generalizing line with
  | nil =>
    rw [List.nil_append, RiskOps.Storage.splitlinesFrom_cons _ _ (by decide), if_pos (by decide),
      splitlinesFrom, splitlinesFrom]
    cases line with
    | nil => rfl
    | cons c line => rfl
  | cons c x ih =>
    rw [List.mem_cons, not_or] at h
    have hc : c ≠ 13 := Ne.symm h.1
    rw [List.cons_append, RiskOps.Storage.splitlinesFrom_cons _ _ hc,
      RiskOps.Storage.splitlinesFrom_cons _ _ hc]
    split
    · rw [List.map_cons, List.map_cons, List.filter_cons, List.filter_cons, ih h.2]
    · exact ih h.2 _

theorem texts_append_feed (x : Str) : texts (x ++ [10]) = texts x := by
  -- behind a carriage return the feed completes the end of the line
  by_cases hlast : x.getLast? = some 13
  · obtain ⟨x, rfl⟩ := List.getLast?_eq_some_iff.mp hlast
    have hone : universal (x ++ [13]) = universal x ++ [10] := by
      rw [universal_append (by simp)]
      rfl
    have htwo : universal (x ++ [13] ++ [10]) = universal x ++ [10] := by
      rw [List.append_assoc, universal_append (by simp)]
      rfl
    rw [texts, texts, hone, htwo]
  · have hfeed : universal (x ++ [10]) = universal x ++ [10] := by
      rw [universal_append fun h => hlast h.1]
      rfl
    rw [texts, texts, hfeed, splitlines, splitlines,
      filter_splitlinesFrom_feed (not_mem_universal x)]

/-- Text that ends with a line feed is read for itself. -/
theorem texts_feed_append (x y : Str) : texts (x ++ [10] ++ y) = texts (x ++ [10]) ++ texts y :=
  texts_append ⟨10, by simp, by decide⟩ fun h => by simp at h

end RiskOps.Pipeline.Sshd
