import RiskOps.Pipeline.HardenSsh

/-!
# RiskOps.Pipeline.HardenSshSpec — what is verified after an edit

**The verifier reads the edited lines.** An edit keeps the keyword of every line, so the first
global line of a setting stands where it stood; it is new, or it was left alone
(`firstLine_edited`). Behind the first `Match` nothing changes. Verification succeeds exactly when
no line that was left alone has an `=` in its value (`verify_apply_iff`).
-/

namespace RiskOps.Pipeline.Sshd

open RiskOps.Lib
open RiskOps.Storage (isBreak)

/-! ### Lines and texts -/

/-- The lines that count, as the verifier reads them. -/
def counted (raws : List Str) : List Str := (raws.map trim).filter relevant

/-- The line is read, and is no `Include`. -/
def Plain (raw : Str) : Prop :=
  relevant (trim raw) = true → ∃ k, textKeyword (trim raw) = some k ∧ k ≠ includeWord

/-- The line before the first `Match` that first sets a setting. -/
def firstLine (lines : List Str) (s : Setting) : Option Str :=
  (globals lines).find? fun raw => editorKeyword raw = some s.name

theorem editorKeyword_eq {raw : Str} {k : Str} (hrelevant : relevant (trim raw) = true)
    (hkey : textKeyword (trim raw) = some k) : editorKeyword raw = some k := by
  cases hparse : parseLine (trim raw) with
  | none =>
    rw [textKeyword, hparse] at hkey
    cases hkey
  | some p =>
    rw [textKeyword, hparse] at hkey
    rw [editorKeyword, if_pos hrelevant, lineWords_of_parseLine hparse]
    exact hkey

theorem editorKeyword_irrelevant {raw : Str} (h : relevant (trim raw) = false) :
    editorKeyword raw = none := by
  rw [editorKeyword, h]
  rfl

theorem counted_cons (raw : Str) (raws : List Str) :
    counted (raw :: raws)
      = if relevant (trim raw) then trim raw :: counted raws else counted raws := by
  rw [counted, List.map_cons, List.filter_cons]
  rfl

theorem counted_append (a b : List Str) : counted (a ++ b) = counted a ++ counted b := by
  rw [counted, List.map_append, List.filter_append]
  rfl

section Plain

variable {raws : List Str}

theorem noInclude_counted (h : ∀ raw ∈ raws, Plain raw) : NoInclude (counted raws) := by
  intro text htext hkey
  obtain ⟨hmem, hrelevant⟩ := List.mem_filter.mp htext
  obtain ⟨raw, hraw, rfl⟩ := List.mem_map.mp hmem
  obtain ⟨k, hk, hne⟩ := h raw hraw hrelevant
  exact hne (Option.some.inj (hk.symm.trans hkey))

theorem takeWhile_counted (h : ∀ raw ∈ raws, Plain raw) :
    (counted raws).takeWhile notMatch = counted (globals raws) := by
  induction raws with
  | nil => rfl
  | cons raw raws ih =>
    have hih := ih fun r hr => h r (List.mem_cons_of_mem _ hr)
    rw [counted_cons, globals, List.takeWhile_cons]
    cases hrelevant : relevant (trim raw) with
    | false =>
      rw [editorKeyword_irrelevant hrelevant, if_neg Bool.false_ne_true, if_pos (by simp),
        counted_cons, hrelevant, if_neg Bool.false_ne_true, hih]
      rfl
    | true =>
      obtain ⟨k, hk, -⟩ := h raw List.mem_cons_self hrelevant
      rw [if_pos rfl, List.takeWhile_cons, notMatch, hk, editorKeyword_eq hrelevant hk]
      by_cases hmatch : k = matchWord
      · rw [if_neg (by simpa using hmatch), if_neg (by simpa using hmatch)]
        rfl
      · rw [if_pos (by simpa using hmatch), if_pos (by simpa using hmatch), counted_cons,
          hrelevant, if_pos rfl, hih]
        rfl

theorem dropWhile_counted (h : ∀ raw ∈ raws, Plain raw) :
    (counted raws).dropWhile notMatch
      = counted (raws.dropWhile fun raw => editorKeyword raw ≠ some matchWord) := by
  induction raws with
  | nil => rfl
  | cons raw raws ih =>
    have hih := ih fun r hr => h r (List.mem_cons_of_mem _ hr)
    rw [counted_cons, List.dropWhile_cons]
    cases hrelevant : relevant (trim raw) with
    | false =>
      rw [editorKeyword_irrelevant hrelevant, if_neg Bool.false_ne_true, if_pos (by simp), hih]
    | true =>
      obtain ⟨k, hk, -⟩ := h raw List.mem_cons_self hrelevant
      rw [if_pos rfl, List.dropWhile_cons, notMatch, hk, editorKeyword_eq hrelevant hk]
      by_cases hmatch : k = matchWord
      · rw [if_neg (by simpa using hmatch), if_neg (by simpa using hmatch), counted_cons,
          hrelevant, if_pos rfl]
      · rw [if_pos (by simpa using hmatch), if_pos (by simpa using hmatch), hih]

theorem find?_counted (h : ∀ raw ∈ raws, Plain raw) (k : Str) :
    (counted raws).find? (fun text => textKeyword text = some k)
      = (raws.find? fun raw => editorKeyword raw = some k).map trim := by
  induction raws with
  | nil => rfl
  | cons raw raws ih =>
    have hih := ih fun r hr => h r (List.mem_cons_of_mem _ hr)
    rw [counted_cons, List.find?_cons]
    cases hrelevant : relevant (trim raw) with
    | false =>
      rw [editorKeyword_irrelevant hrelevant, if_neg Bool.false_ne_true]
      exact hih
    | true =>
      obtain ⟨k', hk, -⟩ := h raw List.mem_cons_self hrelevant
      rw [if_pos rfl, List.find?_cons, hk, editorKeyword_eq hrelevant hk]
      by_cases heq : k' = k
      · simp [heq]
      · simpa [heq] using hih

variable {included : Option Str → Str → Config}

theorem problems_counted (h : ∀ raw ∈ raws, Plain raw) :
    (readLines included none (counted raws)).problems = [] := by
  rw [problems_readLines (noInclude_counted h)]
  refine List.filter_eq_nil_iff.mpr fun text htext => ?_
  obtain ⟨hmem, hrelevant⟩ := List.mem_filter.mp htext
  obtain ⟨raw, hraw, rfl⟩ := List.mem_map.mp hmem
  obtain ⟨k, hk, -⟩ := h raw hraw hrelevant
  rw [hk]
  exact Bool.false_ne_true

theorem effective_counted (h : ∀ raw ∈ raws, Plain raw) (s : Setting) :
    (readLines included none (counted raws)).effective s
      = ((firstLine raws s).map fun raw => textValue (trim raw)).getD s.default := by
  have hglobals : ∀ raw ∈ globals raws, Plain raw := fun raw hraw =>
    h raw ((List.takeWhile_sublist _).mem hraw)
  rw [effective_readLines (noInclude_counted h), takeWhile_counted h, find?_counted hglobals,
    Option.map_map]
  rfl

theorem conditional_counted (h : ∀ raw ∈ raws, Plain raw) (s : Setting) :
    (readLines included none (counted raws)).conditional s = (readLines included none
      (counted (raws.dropWhile fun raw => editorKeyword raw ≠ some matchWord))).conditional s := by
  rw [conditional_readLines (noInclude_counted h), dropWhile_counted h]

/-- What is read without problems, and has no `Include`, is plain. -/
theorem plain_of_read (hinclude : NoInclude (counted raws))
    (hproblems : (readLines included none (counted raws)).problems = []) :
    ∀ raw ∈ raws, Plain raw := by
  intro raw hraw hrelevant
  have hmem : trim raw ∈ counted raws :=
    List.mem_filter.mpr ⟨List.mem_map_of_mem hraw, hrelevant⟩
  rw [problems_readLines hinclude] at hproblems
  cases hkey : textKeyword (trim raw) with
  | none =>
    refine absurd (List.mem_filter.mpr ⟨hmem, ?_⟩) (hproblems ▸ List.not_mem_nil)
    rw [hkey]
    rfl
  | some k => exact ⟨k, rfl, fun heq => hinclude _ hmem (by rw [hkey, heq])⟩

end Plain

/-! ### New lines -/

/-- What may be wanted. -/
def targets : List (Setting × Str) :=
  [(.permitRootLogin, no), (.passwordAuthentication, no), (.kbdInteractiveAuthentication, no),
    (.pubkeyAuthentication, yes)]

theorem desired_sublist (p : Parameters) : (desired p).Sublist targets := by
  obtain ⟨root, key⟩ := p
  cases root <;> cases key <;> decide

theorem targets_pairwise : targets.Pairwise fun a b => a.1 ≠ b.1 := by decide

/-- A setting is wanted with one value. -/
theorem eq_of_setting : ∀ w ∈ targets, ∀ w' ∈ targets, w.1 = w'.1 → w = w' := by decide

variable {s : Setting}

theorem name_injective {t : Setting} (h : s.name = t.name) : s = t := by
  cases s <;> cases t <;> first | rfl | exact absurd h (by decide)

theorem name_ne (s : Setting) : s.name ≠ matchWord ∧ s.name ≠ includeWord := by
  cases s <;> decide

theorem newLine_relevant : ∀ w ∈ targets, relevant (trim (newLine w)) = true := by decide

theorem newLine_keyword : ∀ w ∈ targets, textKeyword (trim (newLine w)) = some w.1.name := by decide

theorem newLine_value : ∀ w ∈ targets, textValue (trim (newLine w)) = w.2 := by decide

theorem target_value : ∀ w ∈ targets, lower (unquote w.2) = w.2 ∧ 61 ∉ w.2 := by decide

theorem newLine_unbroken :
    ∀ w ∈ targets, ∀ c ∈ w.1.label ++ 32 :: w.2, isBreak c = false := by decide

theorem newLine_head : ∀ w ∈ targets, (newLine w).head? ≠ some 10 := by decide

section NewLine

variable {w : Setting × Str}

theorem plain_newLine (hw : w ∈ targets) : Plain (newLine w) :=
  fun _ => ⟨w.1.name, newLine_keyword w hw, (name_ne w.1).2⟩

theorem editorKeyword_newLine (hw : w ∈ targets) : editorKeyword (newLine w) = some w.1.name :=
  editorKeyword_eq (newLine_relevant w hw) (newLine_keyword w hw)

theorem newLine_eq (w : Setting × Str) : newLine w = w.1.label ++ 32 :: w.2 ++ [10] := by
  rw [newLine, List.append_assoc, List.cons_append]

theorem placed_newLine (hw : w ∈ targets) : Placed (newLine w) where
  isRaw := ⟨_, [10], newLine_eq w, newLine_unbroken w hw, .inr (.inr ⟨10, by decide, rfl⟩)⟩
  last := by rw [newLine_eq, List.getLast?_append]; rfl
  head := newLine_head w hw

end NewLine

/-! ### Rewritten lines -/

/-- A line that is wanted: left alone, or new. -/
def settle (w : Setting × Str) (raw : Str) : Str := if alreadySet raw w.2 then raw else newLine w

/-- The lines with what is set rewritten. -/
def edited (lines : List Str) (wanted : List (Setting × Str)) : List Str :=
  wanted.foldl (rewrite lines) lines

variable {raws : List Str}

section Edited

variable {lines : List Str} {ws : List (Setting × Str)}

theorem globals_eq_take (raws : List Str) : globals raws = raws.take (globals raws).length :=
  List.prefix_iff_eq_take.mp (List.takeWhile_prefix _)

theorem drop_globals (raws : List Str) : raws.drop (globals raws).length
    = raws.dropWhile fun raw => editorKeyword raw ≠ some matchWord := by
  have happend : globals raws ++ raws.dropWhile (fun raw => editorKeyword raw ≠ some matchWord)
      = raws := List.takeWhile_append_dropWhile
  have hdrop : (globals raws ++ raws.dropWhile
      fun raw => editorKeyword raw ≠ some matchWord).drop (globals raws).length
        = raws.dropWhile fun raw => editorKeyword raw ≠ some matchWord := List.drop_left
  rwa [happend] at hdrop

theorem firstIndex_some {i : Nat} (h : firstIndex lines s = some i) :
    ∃ raw, lines[i]? = some raw ∧ editorKeyword raw = some s.name ∧ firstLine lines s = some raw ∧
      i < (globals lines).length := by
  obtain ⟨hlt, hkey, -⟩ := List.findIdx?_eq_some_iff_getElem.mp h
  have hget : (globals lines)[i]? = some (globals lines)[i] := List.getElem?_eq_getElem hlt
  refine ⟨(globals lines)[i], ?_, of_decide_eq_true hkey, ?_, hlt⟩
  · have htake : (globals lines)[i]? = lines[i]? := by
      conv_lhs => rw [globals_eq_take]
      exact List.getElem?_take_of_lt hlt
    exact htake.symm.trans hget
  · rw [firstLine, List.find?_eq_bind_findIdx?_getElem?]
    rw [firstIndex] at h
    rw [h]
    exact hget

theorem firstLine_none (h : firstIndex lines s = none) : firstLine lines s = none := by
  rw [firstLine, List.find?_eq_bind_findIdx?_getElem?]
  rw [firstIndex] at h
  rw [h]
  rfl

theorem firstIndex_inj {t : Setting} {i : Nat} (hs : firstIndex lines s = some i)
    (ht : firstIndex lines t = some i) : s = t := by
  obtain ⟨raw, hraw, hkey, -⟩ := firstIndex_some hs
  obtain ⟨raw', hraw', hkey', -⟩ := firstIndex_some ht
  obtain rfl := Option.some.inj (hraw.symm.trans hraw')
  exact name_injective (Option.some.inj (hkey.symm.trans hkey'))

theorem getElem?_rewrite (raws : List Str) (w : Setting × Str) (j : Nat) :
    (rewrite lines raws w)[j]?
      = if firstIndex lines w.1 = some j then raws[j]?.map (settle w) else raws[j]? := by
  rw [rewrite]
  cases hindex : firstIndex lines w.1 with
  | none => rw [if_neg (by simp)]
  | some i =>
    dsimp only
    by_cases hij : i = j
    · subst hij
      rw [if_pos rfl]
      cases hget : raws[i]? with
      | none => simpa using List.getElem?_eq_none_iff.mp hget
      | some raw =>
        rw [Option.any_some, Option.map_some, settle]
        by_cases hset : alreadySet raw w.2 = true
        · rw [if_pos hset, if_pos hset, hget]
        · rw [if_neg hset, if_neg hset, List.getElem?_set_self', hget]
          rfl
    · have hne : ¬ some i = some j := fun heq => hij (Option.some.inj heq)
      rw [if_neg hne]
      split
      · rfl
      · exact List.getElem?_set_ne hij

/-- Each line is rewritten for the one setting that it is the first line of. -/
theorem getElem?_foldl_rewrite (hws : ws.Pairwise fun a b => a.1 ≠ b.1) (raws : List Str)
    (j : Nat) : (ws.foldl (rewrite lines) raws)[j]?
      = match ws.find? fun w => firstIndex lines w.1 = some j with
        | some w => raws[j]?.map (settle w)
        | none => raws[j]? := by
  induction ws generalizing raws with
  | nil => rfl
  | cons w ws ih =>
    obtain ⟨hw, hrest⟩ := List.pairwise_cons.mp hws
    rw [List.foldl_cons, ih hrest, getElem?_rewrite, List.find?_cons]
    by_cases hindex : firstIndex lines w.1 = some j
    · -- a line is the first line of one setting only, so the others leave it as it is now
      have hnone : ws.find? (fun w => firstIndex lines w.1 = some j) = none := by
        refine List.find?_eq_none.mpr fun w' hw' hindex' => hw w' hw' ?_
        exact firstIndex_inj hindex (of_decide_eq_true hindex')
      rw [hnone, if_pos hindex]
      simp [hindex]
    · simp [hindex]

theorem pairwise_of_sublist (hws : ws.Sublist targets) : ws.Pairwise fun a b => a.1 ≠ b.1 :=
  targets_pairwise.sublist hws

/-- An edit keeps the keyword of every line. -/
theorem keywords_edited (hws : ws.Sublist targets) :
    (edited lines ws).map editorKeyword = lines.map editorKeyword := by
  refine List.ext_getElem? fun j => ?_
  rw [List.getElem?_map, List.getElem?_map, edited,
    getElem?_foldl_rewrite (pairwise_of_sublist hws)]
  cases hfind : ws.find? fun w => firstIndex lines w.1 = some j with
  | none => rfl
  | some w =>
    have hindex : firstIndex lines w.1 = some j := by simpa using List.find?_some hfind
    obtain ⟨raw, hraw, hkey, -⟩ := firstIndex_some hindex
    have hmem : w ∈ targets := hws.mem (List.mem_of_find?_eq_some hfind)
    dsimp only
    rw [hraw, Option.map_some, Option.map_some, Option.map_some, hkey, settle]
    split
    · rw [hkey]
    · rw [editorKeyword_newLine hmem]

theorem globals_edited_keywords (hws : ws.Sublist targets) :
    (globals (edited lines ws)).map editorKeyword = (globals lines).map editorKeyword := by
  have hmap : ∀ raws : List Str, (globals raws).map editorKeyword
      = (raws.map editorKeyword).takeWhile fun k => k ≠ some matchWord := fun raws => by
    rw [List.takeWhile_map]
    rfl
  rw [hmap, hmap, keywords_edited hws]

theorem length_globals_edited (hws : ws.Sublist targets) :
    (globals (edited lines ws)).length = (globals lines).length := by
  have hlength := congrArg List.length (@globals_edited_keywords lines ws hws)
  rwa [List.length_map, List.length_map] at hlength

theorem firstIndex_edited (hws : ws.Sublist targets) (s : Setting) :
    firstIndex (edited lines ws) s = firstIndex lines s := by
  have hmap : ∀ raws : List Str, firstIndex raws s
      = ((globals raws).map editorKeyword).findIdx? fun k => k = some s.name := fun raws => by
    rw [List.findIdx?_map]
    rfl
  rw [hmap, hmap, globals_edited_keywords hws]

/-- The first line of a wanted setting is left alone or new. -/
theorem firstLine_edited (hws : ws.Sublist targets) {w : Setting × Str} (hw : w ∈ ws) :
    firstLine (edited lines ws) w.1 = (firstLine lines w.1).map (settle w) := by
  cases hindex : firstIndex lines w.1 with
  | none =>
    rw [firstLine_none hindex, firstLine_none (by rw [firstIndex_edited hws, hindex])]
    rfl
  | some i =>
    obtain ⟨raw, hraw, -, hfirst, -⟩ := firstIndex_some hindex
    obtain ⟨raw', hraw', -, hfirst', -⟩ :=
      firstIndex_some ((firstIndex_edited hws w.1).trans hindex)
    have hfind : ws.find? (fun w => firstIndex lines w.1 = some i) = some w := by
      cases hfind : ws.find? fun w => firstIndex lines w.1 = some i with
      | none => exact absurd (by simpa using hindex) (List.find?_eq_none.mp hfind w hw)
      | some w' =>
        have hindex' : firstIndex lines w'.1 = some i := by simpa using List.find?_some hfind
        have hmem := List.mem_of_find?_eq_some hfind
        rw [eq_of_setting w' (hws.mem hmem) w (hws.mem hw) (firstIndex_inj hindex' hindex)]
    rw [edited, getElem?_foldl_rewrite (pairwise_of_sublist hws), hfind] at hraw'
    rw [hfirst', hfirst, ← hraw', hraw]

/-- Behind the first `Match` nothing changes. -/
theorem drop_edited (hws : ws.Sublist targets) : (edited lines ws).drop (globals lines).length
    = lines.drop (globals lines).length := by
  refine List.ext_getElem? fun j => ?_
  rw [List.getElem?_drop, List.getElem?_drop, edited,
    getElem?_foldl_rewrite (pairwise_of_sublist hws)]
  cases hfind : ws.find? fun w => firstIndex lines w.1 = some ((globals lines).length + j) with
  | none => rfl
  | some w =>
    have hindex : firstIndex lines w.1 = some ((globals lines).length + j) := by
      simpa using List.find?_some hfind
    obtain ⟨-, -, -, -, hlt⟩ := firstIndex_some hindex
    omega

theorem mem_rewrite {w : Setting × Str} {raw : Str} (h : raw ∈ rewrite lines raws w) :
    raw ∈ raws ∨ raw = newLine w := by
  rw [rewrite] at h
  split at h
  · split at h
    · exact .inl h
    · exact List.mem_or_eq_of_mem_set h
  · exact .inl h

theorem mem_foldl_rewrite {raw : Str} (h : raw ∈ ws.foldl (rewrite lines) raws) :
    raw ∈ raws ∨ ∃ w ∈ ws, raw = newLine w := by
  induction ws generalizing raws with
  | nil => exact .inl h
  | cons w ws ih =>
    rcases ih h with hmem | ⟨w', hw', heq⟩
    · exact (mem_rewrite hmem).imp_right fun heq => ⟨w, List.mem_cons_self, heq⟩
    · exact .inr ⟨w', List.mem_cons_of_mem _ hw', heq⟩

theorem lines_foldl_rewrite (hws : ws.Sublist targets) (h : Lines raws) :
    Lines (ws.foldl (rewrite lines) raws) := by
  induction ws generalizing raws with
  | nil => exact h
  | cons w ws ih =>
    refine ih ((List.sublist_cons_self w ws).trans hws) ?_
    rw [rewrite]
    split
    · split
      · exact h
      · exact h.set (placed_newLine (hws.mem List.mem_cons_self)) _
    · exact h

end Edited

/-! ### The edited file -/

section Result

variable {lines : List Str} {ws : List (Setting × Str)}

/-- The edited lines, and what is missing before the first `Match`. -/
def result (lines : List Str) (ws : List (Setting × Str)) : List Str :=
  globals (edited lines ws) ++ (missing lines ws).map newLine ++ lines.drop (globals lines).length

theorem missing_sublist (lines : List Str) (ws : List (Setting × Str)) :
    (missing lines ws).Sublist ws :=
  List.filter_sublist

theorem texts_newLines (hws : ws.Sublist targets) (y : Str) :
    texts ((ws.map newLine).flatten ++ y) = counted (ws.map newLine) ++ texts y := by
  induction ws with
  | nil => rfl
  | cons w ws ih =>
    have hw : w ∈ targets := hws.mem List.mem_cons_self
    have hline : texts (newLine w) = [trim (newLine w)] := by
      rw [texts_raw (placed_newLine hw).isRaw, List.filter_cons_of_pos (newLine_relevant w hw)]
      rfl
    rw [List.map_cons, List.flatten_cons, List.append_assoc, newLine_eq, texts_feed_append,
      ← newLine_eq, hline, ih ((List.sublist_cons_self w ws).trans hws), counted_cons,
      if_pos (newLine_relevant w hw)]
    rfl

/-- The last line is ended before a new one is added. -/
theorem texts_endLast (h : Lines raws) (y : Str) :
    texts ((endLast raws).flatten ++ y) = counted raws ++ texts y := by
  have hcounted := texts_flatten h
  unfold endLast
  cases hlast : raws.getLast? with
  | none =>
    obtain rfl := List.getLast?_eq_none_iff.mp hlast
    rfl
  | some raw =>
    obtain ⟨rest, rfl⟩ := List.getLast?_eq_some_iff.mp hlast
    dsimp only
    split
    · rename_i hfeed
      obtain ⟨line, rfl⟩ := List.getLast?_eq_some_iff.mp hfeed
      have hflat : (rest ++ [line ++ [10]]).flatten = rest.flatten ++ line ++ [10] := by simp
      rw [hflat] at hcounted ⊢
      rw [texts_feed_append, hcounted]
      rfl
    · -- the feed that ends the last line adds nothing that counts
      have hflat : ((rest ++ [raw]).dropLast ++ [raw ++ [10]]).flatten
          = (rest ++ [raw]).flatten ++ [10] := by simp
      rw [hflat, texts_feed_append, texts_append_feed, hcounted]
      rfl

theorem take_edited (hws : ws.Sublist targets) :
    (edited lines ws).take (globals lines).length = globals (edited lines ws) := by
  rw [← length_globals_edited hws, ← globals_eq_take]

/-- What the verifier reads of the edited file. -/
theorem texts_edit (hws : ws.Sublist targets) (h : Lines lines) :
    texts (edit lines ws).flatten = counted (result lines ws) := by
  have hedited : Lines (edited lines ws) := lines_foldl_rewrite hws h
  have hedit : edit lines ws = if missing lines ws = [] then edited lines ws
      else endLast ((edited lines ws).take (globals lines).length) ++ (missing lines ws).map newLine
        ++ (edited lines ws).drop (globals lines).length := rfl
  rw [hedit, result]
  split
  · rename_i hmissing
    rw [hmissing, List.map_nil, List.append_nil, ← drop_edited hws, ← take_edited hws,
      List.take_append_drop]
    exact texts_flatten hedited
  · rw [List.flatten_append, List.flatten_append, List.append_assoc,
      texts_endLast (hedited.take _), texts_newLines ((missing_sublist lines ws).trans hws),
      texts_flatten (hedited.drop _), take_edited hws, drop_edited hws, counted_append,
      counted_append, List.append_assoc]
    rfl

theorem plain_result (hws : ws.Sublist targets) (h : ∀ raw ∈ lines, Plain raw) :
    ∀ raw ∈ result lines ws, Plain raw := by
  intro raw hraw
  rcases List.mem_append.mp hraw with hraw | hraw
  · rcases List.mem_append.mp hraw with hraw | hraw
    · rcases mem_foldl_rewrite ((List.takeWhile_sublist _).mem hraw) with hmem | ⟨w, hw, rfl⟩
      · exact h raw hmem
      · exact plain_newLine (hws.mem hw)
    · obtain ⟨w, hw, rfl⟩ := List.mem_map.mp hraw
      exact plain_newLine (hws.mem ((missing_sublist lines ws).mem hw))
  · exact h raw (List.mem_of_mem_drop hraw)

/-- What stands before the first `Match` of the edited lines. -/
theorem global_result (hws : ws.Sublist targets) :
    ∀ raw ∈ globals (edited lines ws) ++ (missing lines ws).map newLine,
      decide (editorKeyword raw ≠ some matchWord) = true := by
  intro raw hraw
  rcases List.mem_append.mp hraw with hraw | hraw
  · rw [globals] at hraw
    simpa using List.mem_takeWhile_imp hraw
  · obtain ⟨w, hw, rfl⟩ := List.mem_map.mp hraw
    rw [editorKeyword_newLine (hws.mem ((missing_sublist lines ws).mem hw))]
    exact decide_eq_true fun heq => (name_ne w.1).1 (Option.some.inj heq)

/-- The lines from the first `Match` on are none, or begin with it. -/
theorem match_or_nil (lines : List Str) :
    (lines.dropWhile fun raw => editorKeyword raw ≠ some matchWord) = [] ∨
      ∃ raw rest, (lines.dropWhile fun raw => editorKeyword raw ≠ some matchWord) = raw :: rest ∧
        editorKeyword raw = some matchWord := by
  have hhead := List.head?_dropWhile_not
    (fun raw => decide (editorKeyword raw ≠ some matchWord)) lines
  cases hdrop : lines.dropWhile fun raw => editorKeyword raw ≠ some matchWord with
  | nil => exact .inl rfl
  | cons raw rest =>
    rw [hdrop] at hhead
    exact .inr ⟨raw, rest, rfl, by simpa using hhead⟩

theorem dropWhile_result (hws : ws.Sublist targets) :
    (result lines ws).dropWhile (fun raw => editorKeyword raw ≠ some matchWord)
      = lines.dropWhile fun raw => editorKeyword raw ≠ some matchWord := by
  rw [result, List.dropWhile_append_of_pos (global_result hws), drop_globals]
  obtain hnil | ⟨raw, rest, hcons, hkey⟩ := match_or_nil lines
  · rw [hnil]
    rfl
  · rw [hcons, List.dropWhile_cons_of_neg (by simpa using hkey)]

theorem globals_result (hws : ws.Sublist targets) : globals (result lines ws)
    = globals (edited lines ws) ++ (missing lines ws).map newLine := by
  rw [globals, result, List.takeWhile_append_of_pos (global_result hws), drop_globals]
  obtain hnil | ⟨raw, rest, hcons, hkey⟩ := match_or_nil lines
  · rw [hnil, List.takeWhile_nil, List.append_nil]
  · rw [hcons, List.takeWhile_cons_of_neg (by simpa using hkey), List.append_nil]

theorem mem_missing_of_firstLine {w : Setting × Str} (hw : w ∈ ws)
    (h : firstLine lines w.1 = none) : w ∈ missing lines ws := by
  refine List.mem_filter.mpr ⟨hw, ?_⟩
  cases hindex : firstIndex lines w.1 with
  | none => rfl
  | some i =>
    obtain ⟨raw, -, -, hfirst, -⟩ := firstIndex_some hindex
    rw [h] at hfirst
    cases hfirst

/-- **The first line of a wanted setting**: settled where it stood, or new. -/
theorem firstLine_result (hws : ws.Sublist targets) {w : Setting × Str} (hw : w ∈ ws) :
    firstLine (result lines ws) w.1
      = some (((firstLine lines w.1).map (settle w)).getD (newLine w)) := by
  have hsplit : firstLine (result lines ws) w.1 = (firstLine (edited lines ws) w.1).or
      (((missing lines ws).map newLine).find? fun raw => editorKeyword raw = some w.1.name) := by
    rw [firstLine, globals_result hws, List.find?_append]
    rfl
  rw [hsplit, firstLine_edited hws hw]
  cases hfirst : firstLine lines w.1 with
  | some raw => rfl
  | none =>
    -- no line before the first `Match` sets it: the one that is added is found
    have hmem := mem_missing_of_firstLine hw hfirst
    have hkey : ∀ w' ∈ missing lines ws, editorKeyword (newLine w') = some w'.1.name :=
      fun w' hw' => editorKeyword_newLine (hws.mem ((missing_sublist lines ws).mem hw'))
    rw [Option.map_none, Option.none_or, List.find?_map]
    cases hfind : (missing lines ws).find?
        ((fun raw => decide (editorKeyword raw = some w.1.name)) ∘ newLine) with
    | none =>
      refine absurd ?_ (List.find?_eq_none.mp hfind w hmem)
      exact decide_eq_true (hkey w hmem)
    | some w' =>
      have hmem' := List.mem_of_find?_eq_some hfind
      have hname : editorKeyword (newLine w') = some w.1.name := by
        simpa using List.find?_some hfind
      rw [hkey w' hmem'] at hname
      have hin : w' ∈ targets := hws.mem ((missing_sublist lines ws).mem hmem')
      rw [eq_of_setting w' hin w (hws.mem hw) (name_injective (Option.some.inj hname))]
      rfl

end Result

/-! ### Verification -/

theorem checks_ok (config : Config) (w : Setting × Str) : (checks config w).all (·.ok) = true ↔
    config.effective w.1 = w.2 ∧ ∀ d ∈ config.conditional w.1, lower d.value = w.2 := by
  rw [checks, List.all_cons, Bool.and_eq_true, decide_eq_true_eq]
  refine and_congr_right fun _ => ⟨fun h d hd => ?_, fun h => ?_⟩
  · by_contra hne
    have hmem : (⟨w.1.label, w.2, lower d.value, false⟩ : Check) ∈
        ((config.conditional w.1).filter fun d => lower d.value ≠ w.2).map fun d =>
          (⟨w.1.label, w.2, lower d.value, false⟩ : Check) :=
      List.mem_map.mpr ⟨d, List.mem_filter.mpr ⟨hd, by simpa using hne⟩, rfl⟩
    cases List.all_eq_true.mp h _ hmem
  · refine List.all_eq_true.mpr fun c hc => ?_
    obtain ⟨d, hd, rfl⟩ := List.mem_map.mp hc
    obtain ⟨hmem, hne⟩ := List.mem_filter.mp hd
    exact absurd (h d hmem) (of_decide_eq_true hne)

/-- An `=` stands in the value of the line. -/
def signInValue (raw : Str) : Bool := (parseLine (trim raw)).any fun p => p.2.contains 61

/-- A settled line has the value that is wanted, unless it was left alone and an `=` stands in its
value. -/
theorem textValue_settle {w : Setting × Str} {raw : Str} (hw : w ∈ targets)
    (hparse : (parseLine (trim raw)).isSome = true) : textValue (trim (settle w raw)) = w.2 ↔
      (alreadySet raw w.2 = true → signInValue raw = false) := by
  rw [settle]
  split
  · rename_i hset
    obtain ⟨⟨word, value⟩, hparse⟩ := Option.isSome_iff_exists.mp hparse
    have hsign : signInValue raw = false ↔ 61 ∉ value := by
      rw [signInValue, hparse, Option.any_some]
      simp
    rw [textValue_of_alreadySet hparse hset (target_value w hw).1 (target_value w hw).2, hsign]
    exact ⟨fun h _ => h, fun h => h hset⟩
  · rename_i hset
    exact ⟨fun _ h => absurd h hset, fun _ => newLine_value w hw⟩

/-- No `=` stands in the value of a line that is left alone. -/
def SignsApart (file : Str) (p : Parameters) : Prop :=
  ∀ w ∈ desired p, ∀ raw, firstLine (keepends file) w.1 = some raw →
    alreadySet raw w.2 = true → signInValue raw = false

theorem parseLine_isSome_of_firstLine {lines : List Str} {raw : Str}
    (hplain : ∀ raw ∈ lines, Plain raw) (h : firstLine lines s = some raw) :
    (parseLine (trim raw)).isSome = true := by
  have hmem : raw ∈ lines := (List.takeWhile_sublist _).mem (List.mem_of_find?_eq_some h)
  have hfind : (globals lines).find? (fun raw => editorKeyword raw = some s.name) = some raw := h
  have hkey : editorKeyword raw = some s.name := by simpa using List.find?_some hfind
  cases hrelevant : relevant (trim raw) with
  | false =>
    rw [editorKeyword_irrelevant hrelevant] at hkey
    cases hkey
  | true =>
    obtain ⟨k, hk, -⟩ := hplain raw hmem hrelevant
    cases hparse : parseLine (trim raw) with
    | none =>
      rw [textKeyword, hparse] at hk
      cases hk
    | some p => rfl

/-- **Hardening is verified exactly when every line that is left alone has its sign apart.** A file
without `Include` lines that is read without problems, whose `Match` blocks set no wanted setting to
another value, is edited; the edit is verified unless the first global line of a wanted setting
has the value once every `=` is a blank, but not as the verifier reads it. -/
theorem verify_apply_iff {included : Option Str → Str → Config} {file : Str} {p : Parameters}
    (hwanted : desired p ≠ []) (hinclude : NoInclude (texts file))
    (hproblems : (read included file).problems = [])
    (hmatch : ∀ w ∈ desired p, ∀ d ∈ (read included file).conditional w.1, lower d.value = w.2) :
    (∃ file' v, apply included file p = .ok file' ∧ verify included file' p = .ok v ∧ v.ok = true) ↔
      SignsApart file p := by
  have hws := desired_sublist p
  have htexts : texts file = counted (keepends file) := by
    conv_lhs => rw [← flatten_keepends file]
    exact texts_flatten (lines_keepends file)
  have hread : read included file = readLines included none (counted (keepends file)) := by
    rw [read, htexts]
  rw [htexts] at hinclude
  rw [hread] at hproblems hmatch
  have hplain := plain_of_read hinclude hproblems
  have hplain' := plain_result hws hplain
  have hafter : read included (edit (keepends file) (desired p)).flatten
      = readLines included none (counted (result (keepends file) (desired p))) := by
    rw [read, texts_edit hws (lines_keepends file)]
  have happly : apply included file p = .ok (edit (keepends file) (desired p)).flatten := by
    rw [apply, if_neg hwanted, hread, if_neg (not_not.mpr hproblems)]
  have hcond : ∀ s,
      (readLines included none (counted (result (keepends file) (desired p)))).conditional s
        = (readLines included none (counted (keepends file))).conditional s := fun s => by
    rw [conditional_counted hplain', conditional_counted hplain, dropWhile_result hws]
  have hvalue : ∀ w ∈ desired p,
      (readLines included none (counted (result (keepends file) (desired p)))).effective w.1 = w.2 ↔
        ∀ raw, firstLine (keepends file) w.1 = some raw →
          alreadySet raw w.2 = true → signInValue raw = false := by
    intro w hw
    have htarget : w ∈ targets := hws.mem hw
    rw [effective_counted hplain', firstLine_result hws hw, Option.map_some, Option.getD_some]
    cases hfirst : firstLine (keepends file) w.1 with
    | none =>
      refine ⟨fun _ raw h => ?_, fun _ => newLine_value w htarget⟩
      cases h
    | some raw =>
      have hsettle := textValue_settle htarget (parseLine_isSome_of_firstLine hplain hfirst)
      refine hsettle.trans ⟨fun h raw' heq => ?_, fun h => h raw rfl⟩
      obtain rfl := Option.some.inj heq
      exact h
  constructor
  · intro ⟨file', v, hfile, hverify, hok⟩ w hw
    obtain rfl := Except.ok.inj (happly.symm.trans hfile)
    rw [verify, if_neg hwanted, hafter] at hverify
    obtain rfl := Except.ok.inj hverify
    obtain ⟨-, hall⟩ := Bool.and_eq_true_iff.mp hok
    rw [List.all_flatMap, List.all_eq_true] at hall
    exact (hvalue w hw).mp ((checks_ok _ w).mp (hall w hw)).1
  · intro hsigns
    refine ⟨_, _, happly, by rw [verify, if_neg hwanted], ?_⟩
    rw [hafter]
    refine Bool.and_eq_true_iff.mpr ⟨decide_eq_true (problems_counted hplain'), ?_⟩
    rw [List.all_flatMap, List.all_eq_true]
    intro w hw
    refine (checks_ok _ w).mpr ⟨(hvalue w hw).mpr (hsigns w hw), ?_⟩
    rw [hcond]
    exact hmatch w hw

/-- No file is included. -/
def nothingIncluded : Option Str → Str → Config := fun _ _ => ⟨[], []⟩

/-- A file with a comment, a setting and a `Match` block. -/
def smallFile : Str :=
  Str.ofString "# managed\nPermitRootLogin yes\nMatch User git\nPasswordAuthentication no\n"

theorem verify_apply_iff_match_block :
    ∃ file' v, apply nothingIncluded smallFile ⟨true, true⟩ = .ok file' ∧
      verify nothingIncluded file' ⟨true, true⟩ = .ok v ∧ v.ok = true := by
  have hread : (∀ text ∈ texts smallFile, textKeyword text ≠ some includeWord) ∧
      (read nothingIncluded smallFile).problems = [] ∧
      (∀ w ∈ desired ⟨true, true⟩, ∀ d ∈ (read nothingIncluded smallFile).conditional w.1,
        lower d.value = w.2) ∧
      ∀ w ∈ desired ⟨true, true⟩,
        (firstLine (keepends smallFile) w.1).all (fun raw => !signInValue raw) = true := by
    decide +kernel
  obtain ⟨hinclude, hproblems, hmatch, hsigns⟩ := hread
  refine (verify_apply_iff (by decide) hinclude hproblems hmatch).mpr fun w hw raw hraw _ => ?_
  have hsign := hsigns w hw
  rw [hraw, Option.all_some] at hsign
  simpa using hsign

/-- A line with two signs. -/
def twoSigns : Str := Str.ofString "PermitRootLogin==no\n"

/-- The editor leaves the line alone, and the verifier reads another value. -/
theorem two_signs_refused :
    ¬ ∀ (included : Option Str → Str → Config) (file : Str) (p : Parameters),
      desired p ≠ [] → NoInclude (texts file) → (read included file).problems = [] →
      (∀ w ∈ desired p, ∀ d ∈ (read included file).conditional w.1, lower d.value = w.2) →
      ∃ file' v, apply included file p = .ok file' ∧ verify included file' p = .ok v ∧
        v.ok = true := by
  intro h
  have hread : (∀ text ∈ texts twoSigns, textKeyword text ≠ some includeWord) ∧
      (read nothingIncluded twoSigns).problems = [] ∧
      (∀ w ∈ desired ⟨true, false⟩, ∀ d ∈ (read nothingIncluded twoSigns).conditional w.1,
        lower d.value = w.2) ∧
      (apply nothingIncluded twoSigns ⟨true, false⟩).toOption.all (fun file' =>
        (verify nothingIncluded file' ⟨true, false⟩).toOption.all fun v => !v.ok) = true := by
    decide +kernel
  obtain ⟨hinclude, hproblems, hmatch, hrun⟩ := hread
  obtain ⟨file', v, hfile, hverify, hok⟩ :=
    h nothingIncluded twoSigns ⟨true, false⟩ (by decide) hinclude hproblems hmatch
  rw [hfile] at hrun
  change (verify nothingIncluded file' ⟨true, false⟩).toOption.all (fun v => !v.ok) = true at hrun
  rw [hverify] at hrun
  change (!v.ok) = true at hrun
  rw [hok] at hrun
  cases hrun

end RiskOps.Pipeline.Sshd
