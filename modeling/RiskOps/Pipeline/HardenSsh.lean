import RiskOps.Pipeline.SshdLines

/-!
# RiskOps.Pipeline.HardenSsh — the smallest edit that hardens an sshd_config

Model of `tools/harden_ssh.py`: **the editor and the verifier each read the file their own way.**
The editor keeps the line ends, rewrites the first global line of each setting and adds what is
missing before the first `Match`; a line that already has the value is left as it is. It reads an
`=` as a blank wherever it stands, the verifier only once, behind the keyword: they agree on a line
that is left alone exactly when no `=` stands in its value (`textValue_of_alreadySet`).
-/

namespace RiskOps.Pipeline.Sshd

open RiskOps.Lib
open RiskOps.Storage (isBreak)

/-! ### The editor -/

/-- The typed parameters. -/
structure Parameters where
  disableRootLogin : Bool
  enforceKeyAuth : Bool

def yes : Str := Str.ofString "yes"

def no : Str := Str.ofString "no"

/-- `desired`: the settings that are wanted; none when the parameters ask for no change. -/
def desired (p : Parameters) : List (Setting × Str) :=
  (if p.disableRootLogin then [(.permitRootLogin, no)] else []) ++
    if p.enforceKeyAuth then
      [(.passwordAuthentication, no), (.kbdInteractiveAuthentication, no),
        (.pubkeyAuthentication, yes)]
    else []

/-- The words of a text behind the start of a word. -/
def wordsFrom : Str → Str → List Str
  | word, [] => if word = [] then [] else [word]
  | word, c :: s =>
    if isBlankCode c then
      if word = [] then wordsFrom [] s else word :: wordsFrom [] s
    else wordsFrom (word ++ [c]) s

/-- `text.replace("=", " ").split()`. -/
def lineWords (text : Str) : List Str := wordsFrom [] (text.map fun c => if c = 61 then 32 else c)

/-- The keyword the editor reads on a line. -/
def editorKeyword (raw : Str) : Option Str :=
  if relevant (trim raw) then (lineWords (trim raw)).head?.map keyword else none

/-- The lines before the first `Match`. -/
def globals (lines : List Str) : List Str :=
  lines.takeWhile fun raw => editorKeyword raw ≠ some matchWord

/-- `first`: where a setting first stands. -/
def firstIndex (lines : List Str) (s : Setting) : Option Nat :=
  (globals lines).findIdx? fun raw => editorKeyword raw = some s.name

/-- The line that sets a setting. -/
def newLine (w : Setting × Str) : Str := w.1.label ++ 32 :: (w.2 ++ [10])

/-- The editor leaves the line alone. -/
def alreadySet (raw value : Str) : Bool := (lineWords (trim raw)).tail = [value]

/-- The first line of a setting, rewritten. -/
def rewrite (lines edited : List Str) (w : Setting × Str) : List Str :=
  match firstIndex lines w.1 with
  | some i =>
    if (edited[i]?).any (alreadySet · w.2) then edited else edited.set i (newLine w)
  | none => edited

/-- What is missing. -/
def missing (lines : List Str) (wanted : List (Setting × Str)) : List (Setting × Str) :=
  wanted.filter fun w => (firstIndex lines w.1).isNone

/-- The last line, ended by a line feed. -/
def endLast (lines : List Str) : List Str :=
  match lines.getLast? with
  | some raw => if raw.getLast? = some 10 then lines else lines.dropLast ++ [raw ++ [10]]
  | none => lines

/-- `_edit`. -/
def edit (lines : List Str) (wanted : List (Setting × Str)) : List Str :=
  let edited := wanted.foldl (rewrite lines) lines
  -- before the first `Match`, or at the end
  let at_ := (globals lines).length
  if missing lines wanted = [] then edited
  else endLast (edited.take at_) ++ (missing lines wanted).map newLine ++ edited.drop at_

/-- `ExecutorRefused`. -/
inductive Refusal where
  | noChange
  | unreadable
  deriving DecidableEq

/-- `Check`. -/
structure Check where
  setting : Str
  expected : Str
  effective : Str
  ok : Bool

/-- `Verification`. -/
structure Verification where
  ok : Bool
  checks : List Check
  problems : List Str

/-- The checks of one setting. -/
def checks (config : Config) (w : Setting × Str) : List Check :=
  ⟨w.1.label, w.2, config.effective w.1, config.effective w.1 = w.2⟩ ::
    ((config.conditional w.1).filter fun d => lower d.value ≠ w.2).map fun d =>
      ⟨w.1.label, w.2, lower d.value, false⟩

section Executor

variable (included : Option Str → Str → Config)

/-- `apply`: the file after the edit. -/
def apply (file : Str) (p : Parameters) : Except Refusal Str :=
  if desired p = [] then .error .noChange
  else if (read included file).problems ≠ [] then .error .unreadable
  else .ok (edit (keepends file) (desired p)).flatten

/-- `verify`. -/
def verify (file : Str) (p : Parameters) : Except Refusal Verification :=
  if desired p = [] then .error .noChange
  else
    let config := read included file
    let checks := (desired p).flatMap (checks config)
    .ok ⟨config.problems = [] && checks.all (·.ok), checks, config.problems⟩

end Executor

/-! ### One keyword on each line -/

/-- The keyword the verifier reads on a line. -/
def textKeyword (text : Str) : Option Str := (parseLine text).map fun p => keyword p.1

/-- The value the verifier reads on a line. -/
def textValue (text : Str) : Str := ((parseLine text).map fun p => lower (unquote p.2)).getD []

variable {word s : Str}

theorem wordsFrom_word (h : ∀ c ∈ s, isBlankCode c = false) (rest : Str) :
    wordsFrom word (s ++ rest) = wordsFrom (word ++ s) rest := by
  induction s generalizing word with
  | nil => rw [List.nil_append, List.append_nil]
  | cons c s ih =>
    rw [List.cons_append, wordsFrom, h c List.mem_cons_self, if_neg Bool.false_ne_true,
      ih fun d hd => h d (List.mem_cons_of_mem _ hd), List.append_assoc, List.singleton_append]

variable {c : Nat}

/-- A character of a word is no blank and no `=`. -/
theorem plain_of_wordCode (h : isWordCode c = true) : isBlankCode c = false ∧ c ≠ 61 := by
  have hlt : c < 128 := by
    simp only [isWordCode, isLetter, RiskOps.Lib.PyJson.isDigit, Bool.or_eq_true, Bool.and_eq_true,
      decide_eq_true_eq] at h
    omega
  have hall : ∀ c : Fin 128, isWordCode c.val = true → isBlankCode c.val = false ∧ c.val ≠ 61 := by
    decide +kernel
  exact hall ⟨c, hlt⟩ h

theorem wordsFrom_blanks (h : ∀ c ∈ s, isBlankCode c = true) (rest : Str) :
    wordsFrom [] (s ++ rest) = wordsFrom [] rest := by
  induction s with
  | nil => rfl
  | cons c s ih =>
    rw [List.cons_append, wordsFrom, if_pos (h c List.mem_cons_self), if_pos rfl,
      ih fun d hd => h d (List.mem_cons_of_mem _ hd)]

/-- The word, what separates it from the value, and the value. -/
theorem split_of_parseLine {text value : Str} (h : parseLine text = some (word, value)) :
    (word ≠ [] ∧ ∀ c ∈ word, isWordCode c = true) ∧
      (value ≠ [] ∧ ∀ c, value.head? = some c → isBlankCode c = false) ∧
      ∃ seps, text = word ++ (seps ++ value) ∧ seps ≠ [] ∧
        ∀ c ∈ seps, isBlankCode c = true ∨ c = 61 := by
  unfold parseLine at h
  dsimp only at h
  split_ifs at h with hshape
  obtain ⟨hword, hvalue⟩ := Prod.mk.inj (Option.some.inj h)
  simp only [Bool.and_eq_true] at hshape
  obtain ⟨⟨hletter, hrest⟩, hshape⟩ := hshape
  have hne : value ≠ [] := by
    rw [← hvalue]
    exact of_decide_eq_true hshape
  have hletters : ∀ c ∈ word, isWordCode c = true := by
    rw [← hword]
    exact fun c hc => List.mem_takeWhile_imp hc
  have hnonempty : word ≠ [] := by
    rintro rfl
    rw [hword] at hletter
    cases hletter
  have htext : text = word ++ text.dropWhile isWordCode := by
    rw [← hword, List.takeWhile_append_dropWhile]
  generalize text.dropWhile isWordCode = rest at *
  have hblanks : ∀ c ∈ rest.takeWhile isBlankCode, isBlankCode c = true ∨ c = 61 :=
    fun c hc => .inl (List.mem_takeWhile_imp hc)
  have hsplit : rest = rest.takeWhile isBlankCode ++ rest.dropWhile isBlankCode :=
    List.takeWhile_append_dropWhile.symm
  have hfirst := List.head?_dropWhile_not isBlankCode rest
  have hsep : ∀ c, rest.head? = some c → isBlankCode c = true ∨ c = 61 := by
    intro c hc
    rw [hc] at hrest
    simpa using hrest
  split at hvalue
  · rename_i s heq
    -- one `=` behind the blanks
    refine ⟨⟨hnonempty, hletters⟩, ⟨hne, ?_⟩,
      rest.takeWhile isBlankCode ++ (61 :: s.takeWhile isBlankCode), ?_, by simp, ?_⟩
    · intro c hc
      have hdrop := List.head?_dropWhile_not isBlankCode s
      rw [hvalue, hc] at hdrop
      simpa using hdrop
    · rw [htext]
      conv_lhs => rw [hsplit, heq]
      rw [← hvalue, List.append_assoc, List.cons_append, List.takeWhile_append_dropWhile]
    · intro c hc
      rcases List.mem_append.mp hc with hc | hc
      · exact hblanks c hc
      · rcases List.mem_cons.mp hc with rfl | hc
        · exact .inr rfl
        · exact .inl (List.mem_takeWhile_imp hc)
  · rename_i hnot
    refine ⟨⟨hnonempty, hletters⟩, ⟨hne, ?_⟩, rest.takeWhile isBlankCode,
      by rw [htext, ← hvalue, ← hsplit], ?_, hblanks⟩
    · intro c hc
      rw [hvalue, hc] at hfirst
      simpa using hfirst
    · intro hnil
      rw [hnil, List.nil_append] at hsplit
      rw [hvalue] at hsplit hfirst
      obtain ⟨c, s, hcons⟩ := List.exists_cons_of_ne_nil hne
      rw [hcons] at hfirst
      have hblank : isBlankCode c = false := by simpa using hfirst
      rcases hsep c (by rw [hsplit, hcons]; rfl) with h61 | h61
      · rw [hblank] at h61
        cases h61
      · exact hnot s (by rw [hvalue, hcons, h61])

/-- The editor reads the word the verifier reads, and then the words of the value. -/
theorem lineWords_of_parseLine {text value : Str} (h : parseLine text = some (word, value)) :
    lineWords text = word :: lineWords value := by
  obtain ⟨⟨hne, hletters⟩, -, seps, rfl, hseps, hblanks⟩ := split_of_parseLine h
  have hword : word.map (fun c => if c = 61 then 32 else c) = word :=
    (List.map_congr_left fun c hc => if_neg (plain_of_wordCode (hletters c hc)).2).trans
      (List.map_id _)
  have hblank : ∀ c ∈ seps.map (fun c => if c = 61 then 32 else c), isBlankCode c = true := by
    intro c hc
    obtain ⟨d, hd, rfl⟩ := List.mem_map.mp hc
    split
    · decide
    · rename_i hne
      exact (hblanks d hd).resolve_right hne
  obtain ⟨d, seps, rfl⟩ := List.exists_cons_of_ne_nil hseps
  rw [List.map_cons, List.forall_mem_cons] at hblank
  rw [lineWords, List.map_append, hword,
    wordsFrom_word (fun c hc => (plain_of_wordCode (hletters c hc)).1), List.nil_append,
    List.map_append, List.map_cons, List.cons_append, wordsFrom, if_pos hblank.1, if_neg hne,
    wordsFrom_blanks hblank.2, lineWords]

/-! ### What the verifier reads -/

section Reader

variable {included : Option Str → Str → Config} {texts : List Str} {s : Setting}

/-- The text is no `Match`. -/
def notMatch (text : Str) : Bool := textKeyword text ≠ some matchWord

/-- No text is an `Include`. -/
def NoInclude (texts : List Str) : Prop := ∀ text ∈ texts, textKeyword text ≠ some includeWord

theorem NoInclude.tail {text : Str} (h : NoInclude (text :: texts)) : NoInclude texts :=
  fun t ht => h t (List.mem_cons_of_mem _ ht)

/-- What one text does, if it is no `Include`. -/
theorem readLines_cons {text : Str} (h : NoInclude (text :: texts)) (current : Option Str) :
    (textKeyword text = none ∧ readLines included current (text :: texts)
      = Config.append ⟨[], [text]⟩ (readLines included current texts)) ∨
    (textKeyword text = some matchWord ∧ ∃ m, readLines included current (text :: texts)
      = readLines included (some m) texts) ∨
    ∃ k v, textKeyword text = some k ∧ k ≠ matchWord ∧ lower (unquote v) = textValue text ∧
      readLines included current (text :: texts)
        = Config.append ⟨[⟨k, unquote v, current⟩], []⟩ (readLines included current texts) := by
  have hinclude := h text List.mem_cons_self
  cases hparse : parseLine text with
  | none =>
    refine .inl ⟨by rw [textKeyword, hparse]; rfl, ?_⟩
    rw [readLines, hparse]
  | some p =>
    obtain ⟨word, value⟩ := p
    have hkey : textKeyword text = some (keyword word) := by rw [textKeyword, hparse]; rfl
    rw [hkey] at hinclude
    by_cases hmatch : keyword word = matchWord
    · refine .inr (.inl ⟨by rw [hkey, hmatch], Str.ofString "Match " ++ value, ?_⟩)
      rw [readLines, hparse]
      exact if_pos hmatch
    · refine .inr (.inr ⟨keyword word, value, hkey, hmatch, ?_, ?_⟩)
      · rw [textValue, hparse]
        rfl
      · rw [readLines, hparse]
        dsimp only
        rw [if_neg hmatch, if_neg fun heq => hinclude (by rw [heq])]

theorem problems_readLines (h : NoInclude texts) (current : Option Str) :
    (readLines included current texts).problems = texts.filter fun t => (textKeyword t).isNone := by
  induction texts generalizing current with
  | nil => rfl
  | cons text texts ih =>
    rw [List.filter_cons]
    obtain ⟨hkey, hread⟩ | ⟨hkey, m, hread⟩ | ⟨k, v, hkey, -, -, hread⟩ :=
      readLines_cons h current
    · rw [hread, Config.append, ih h.tail, hkey]
      rfl
    · rw [hread, ih h.tail, hkey]
      rfl
    · rw [hread, Config.append, ih h.tail, hkey]
      rfl

theorem matched_readLines (h : NoInclude texts) {m : Str} :
    ∀ d ∈ (readLines included (some m) texts).directives, d.matched.isSome = true := by
  induction texts generalizing m with
  | nil => exact fun d hd => by cases hd
  | cons text texts ih =>
    intro d hd
    obtain ⟨-, hread⟩ | ⟨-, m', hread⟩ | ⟨k, v, -, -, -, hread⟩ :=
      @readLines_cons included _ _ h (some m)
    · rw [hread] at hd
      exact ih h.tail d hd
    · rw [hread] at hd
      exact ih h.tail d hd
    · rw [hread] at hd
      rcases List.mem_cons.mp hd with rfl | hd
      · rfl
      · exact ih h.tail d hd

/-- The first global line of a setting decides. -/
theorem effective_readLines (h : NoInclude texts) : (readLines included none texts).effective s
    = (((texts.takeWhile notMatch).find? fun t => textKeyword t = some s.name).map textValue).getD
        s.default := by
  induction texts with
  | nil => rfl
  | cons text texts ih =>
    rw [List.takeWhile_cons, notMatch]
    obtain ⟨hkey, hread⟩ | ⟨hkey, m, hread⟩ | ⟨k, v, hkey, hmatch, hvalue, hread⟩ :=
      @readLines_cons included _ _ h none
    · rw [hread, hkey, if_pos (by simp), List.find?_cons_of_neg (by simp [hkey]), ← ih h.tail]
      rfl
    · -- behind a `Match` no directive is global
      have hnone : (readLines included (some m) texts).directives.find?
          (fun d => d.keyword = s.name && d.matched.isNone) = none := by
        refine List.find?_eq_none.mpr fun d hd => ?_
        have hsome := matched_readLines h.tail d hd
        rw [Option.isSome_iff_ne_none] at hsome
        simp [hsome]
      rw [hread, hkey, if_neg (by simp), Config.effective, hnone]
      rfl
    · rw [hread, hkey, if_pos (by simpa using hmatch)]
      by_cases hname : k = s.name
      · rw [Config.effective, Config.append, List.singleton_append,
          List.find?_cons_of_pos (by simp [hname]),
          List.find?_cons_of_pos (by simp [hkey, hname])]
        exact hvalue
      · rw [Config.effective, Config.append, List.singleton_append,
          List.find?_cons_of_neg (by simp [hname]),
          List.find?_cons_of_neg (by simp [hkey, hname]), ← ih h.tail]
        rfl

/-- What is conditional stands behind the first `Match`. -/
theorem conditional_readLines (h : NoInclude texts) : (readLines included none texts).conditional s
    = (readLines included none (texts.dropWhile notMatch)).conditional s := by
  induction texts with
  | nil => rfl
  | cons text texts ih =>
    rw [List.dropWhile_cons, notMatch]
    obtain ⟨hkey, hread⟩ | ⟨hkey, -⟩ | ⟨k, v, hkey, hmatch, -, hread⟩ :=
      @readLines_cons included _ _ h none
    · rw [hread, hkey, if_pos (by simp), ← ih h.tail]
      rfl
    · rw [hkey, if_neg (by simp)]
    · rw [hread, hkey, if_pos (by simpa using hmatch), ← ih h.tail, Config.conditional,
        Config.append, List.singleton_append, List.filter_cons_of_neg (by simp)]
      rfl

end Reader

/-! ### The value of a line that is left alone -/

theorem blank_of_wordsFrom (h : wordsFrom word s = []) :
    word = [] ∧ ∀ c ∈ s, isBlankCode c = true := by
  induction s generalizing word with
  | nil =>
    rw [wordsFrom] at h
    split at h
    · rename_i hword
      exact ⟨hword, fun c hc => by cases hc⟩
    · cases h
  | cons c s ih =>
    rw [wordsFrom] at h
    split at h
    · rename_i hblank
      split at h
      · rename_i hword
        exact ⟨hword, List.forall_mem_cons.mpr ⟨hblank, (ih h).2⟩⟩
      · cases h
    · simpa using (ih h).1

/-- A text without outer blanks that is one word is that word. -/
theorem eq_of_wordsFrom {v : Str} (h : wordsFrom [] s = [v])
    (hhead : ∀ c, s.head? = some c → isBlankCode c = false)
    (hlast : ∀ c, s.getLast? = some c → isBlankCode c = false) : s = v := by
  have hsplit : s = s.takeWhile (fun c => !isBlankCode c) ++ s.dropWhile fun c => !isBlankCode c :=
    List.takeWhile_append_dropWhile.symm
  have hword : ∀ c ∈ s.takeWhile (fun c => !isBlankCode c), isBlankCode c = false := fun c hc => by
    simpa using List.mem_takeWhile_imp hc
  have hne : s.takeWhile (fun c => !isBlankCode c) ≠ [] := by
    cases s with
    | nil => cases h
    | cons c s =>
      rw [List.takeWhile_cons, if_pos (by simpa using hhead c rfl)]
      exact List.cons_ne_nil _ _
  rw [hsplit, wordsFrom_word hword, List.nil_append] at h
  cases hrest : s.dropWhile fun c => !isBlankCode c with
  | nil =>
    rw [hrest, wordsFrom, if_neg hne] at h
    rw [hrest, List.append_nil] at hsplit
    exact hsplit.trans (List.cons.inj h).1
  | cons c rest =>
    have hblank : isBlankCode c = true := by
      have := List.head?_dropWhile_not (fun c => !isBlankCode c) s
      rw [hrest] at this
      simpa using this
    rw [hrest, wordsFrom, if_pos hblank, if_neg hne] at h
    -- the last character is no blank, yet it stands behind the only word
    have hall := (blank_of_wordsFrom (List.cons.inj h).2).2
    obtain ⟨d, hd⟩ : ∃ d, (c :: rest).getLast? = some d := ⟨_, List.getLast?_cons⟩
    have hmem : isBlankCode d = true := by
      rcases List.mem_cons.mp (List.mem_of_getLast? hd) with rfl | hmem
      · exact hblank
      · exact hall d hmem
    have hend : s.getLast? = some d := by
      rw [hsplit, hrest, List.getLast?_append, hd]
      rfl
    rw [hlast d hend] at hmem
    cases hmem


theorem last_trim (h : (trim s).getLast? = some c) : isBlankCode c = false := by
  have hdrop := List.head?_dropWhile_not isBlankCode (s.dropWhile isBlankCode).reverse
  rw [trim, List.getLast?_reverse] at h
  rw [h] at hdrop
  simpa using hdrop

theorem mem_dropWhile {q : Nat → Bool} (h : c ∈ s) (hc : q c = false) : c ∈ s.dropWhile q := by
  have hsplit : s.takeWhile q ++ s.dropWhile q = s := List.takeWhile_append_dropWhile
  rw [← hsplit] at h
  refine (List.mem_append.mp h).resolve_left fun hmem => ?_
  rw [List.mem_takeWhile_imp hmem] at hc
  cases hc

/-- An `=` in a value stays in it. -/
theorem sign_mem_lower {value : Str} (h : 61 ∈ value) : 61 ∈ lower (unquote value) := by
  have hunquote : 61 ∈ unquote value :=
    List.mem_reverse.mpr (mem_dropWhile (List.mem_reverse.mpr (mem_dropWhile h (by decide)))
      (by decide))
  exact List.mem_map.mpr ⟨61, hunquote, rfl⟩

/-- **A line that has the value as the editor reads it has it as the verifier reads it exactly when
no `=` stands in the value.** -/
theorem textValue_of_alreadySet {raw value v : Str}
    (hparse : parseLine (trim raw) = some (word, value)) (hset : alreadySet raw v = true)
    (hv : lower (unquote v) = v) (hsign : 61 ∉ v) : textValue (trim raw) = v ↔ 61 ∉ value := by
  have htext : textValue (trim raw) = lower (unquote value) := by
    rw [textValue, hparse]
    rfl
  have hwords : lineWords value = [v] := by
    have htail := of_decide_eq_true hset
    rwa [lineWords_of_parseLine hparse] at htail
  obtain ⟨-, ⟨hne, hhead⟩, seps, htrim, -⟩ := split_of_parseLine hparse
  rw [htext]
  refine ⟨fun heq hmem => hsign (heq ▸ sign_mem_lower hmem), fun hmem => ?_⟩
  have hmap : value.map (fun c => if c = 61 then 32 else c) = value := by
    refine (List.map_congr_left fun c hc => if_neg ?_).trans (List.map_id _)
    rintro rfl
    exact hmem hc
  rw [lineWords, hmap] at hwords
  have hlast : ∀ c, value.getLast? = some c → isBlankCode c = false := by
    intro c hc
    have hend : (trim raw).getLast? = some c := by
      rw [htrim, List.getLast?_append, List.getLast?_append, hc]
      rfl
    exact last_trim hend
  rw [eq_of_wordsFrom hwords hhead hlast, hv]

end RiskOps.Pipeline.Sshd
