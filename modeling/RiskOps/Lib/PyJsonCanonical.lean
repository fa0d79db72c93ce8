import RiskOps.Lib.PyJsonStrict

/-!
# RiskOps.Lib.PyJsonCanonical — texts that are accepted only as they are printed

**One text for each value.** `canonicalLoads` decodes an ASCII text, with the hooks of
`strictLoads`, and accepts it only when its value, printed with sorted keys, is the text again. The
printed text of a value without floats is accepted (`canonicalLoads_dumpsAscii`), and what is
accepted without floats is the printed text of its value (`dumpsAscii_of_canonicalLoads`).

`repr` prints a float that was read from a literal; none when it is not finite.
-/

namespace RiskOps.Lib.PyJson

mutual

/-- The value with its floats as they are printed again, none when one is not finite. -/
def reprint (repr : Str → Option Str) : Value → Option Value
  | .float l => (repr l).map .float
  | .arr vs => (reprintItems repr vs).map .arr
  | .obj ms => (reprintMembers repr ms).map .obj
  | v => some v

def reprintItems (repr : Str → Option Str) : List Value → Option (List Value)
  | [] => some []
  | v :: vs => (reprint repr v).bind fun w => (reprintItems repr vs).map (w :: ·)

def reprintMembers (repr : Str → Option Str) : List (Str × Value) → Option (List (Str × Value))
  | [] => some []
  | (k, v) :: ms => (reprint repr v).bind fun w => (reprintMembers repr ms).map ((k, w) :: ·)

end

/-- `json.dumps(json.loads(text), sort_keys=True, separators=(',', ':'), ensure_ascii=True,
allow_nan=False) == text`. -/
def isCanonical (repr : Str → Option Str) (v : Value) (text : Str) : Bool :=
  (reprint repr v).any fun w => dumpsAscii (sortKeys w) = text

/-- `json.loads(text)` of an ASCII text that is written as its value is printed. -/
def canonicalLoads (repr : Str → Option Str) (limit : Nat) (text : Str) : Option Value :=
  if text.all (· < 128) then
    (strictLoads limit text).bind fun v => if isCanonical repr v text then some v else none
  else none

/-! ### Values without floats -/

theorem reprint_of_floatless {repr : Str → Option Str} (v : Value) (h : Floatless v = true) :
    reprint repr v = some v := by
  induction v using Value.induction with
  | null | bool _ | int _ | str _ => rfl
  | float l => cases h
  | arr vs ih =>
    rw [Floatless, floatlessItems_eq_all, List.all_eq_true] at h
    suffices hitems : reprintItems repr vs = some vs by rw [reprint, hitems]; rfl
    induction vs with
    | nil => rfl
    | cons v vs ihvs =>
      rw [reprintItems, ih v List.mem_cons_self (h v List.mem_cons_self),
        ihvs (fun w hw => ih w (List.mem_cons_of_mem _ hw))
          fun w hw => h w (List.mem_cons_of_mem _ hw)]
      rfl
  | obj ms ih =>
    rw [Floatless, floatlessMembers_eq_all, List.all_eq_true] at h
    suffices hmembers : reprintMembers repr ms = some ms by rw [reprint, hmembers]; rfl
    induction ms with
    | nil => rfl
    | cons m ms ihms =>
      rw [reprintMembers, ih m List.mem_cons_self (h m List.mem_cons_self),
        ihms (fun n hn => ih n (List.mem_cons_of_mem _ hn))
          fun n hn => h n (List.mem_cons_of_mem _ hn)]
      rfl

theorem floatless_sortKeys (v : Value) (h : Floatless v = true) :
    Floatless (sortKeys v) = true := by
  induction v using Value.induction with
  | null | bool _ | int _ | str _ => rfl
  | float l => cases h
  | arr vs ih =>
    rw [Floatless, floatlessItems_eq_all, List.all_eq_true] at h
    rw [sortKeys, Floatless, floatlessItems_eq_all, List.all_eq_true, sortItems_eq_map]
    intro w hw
    obtain ⟨v, hv, rfl⟩ := List.mem_map.mp hw
    exact ih v hv (h v hv)
  | obj ms ih =>
    rw [Floatless, floatlessMembers_eq_all, List.all_eq_true] at h
    rw [sortKeys, Floatless, floatlessMembers_eq_all, List.all_eq_true]
    intro n hn
    have hn' := (perm_sorted ms).mem_iff.mp hn
    rw [sortMembers_eq_map] at hn'
    obtain ⟨m, hm, rfl⟩ := List.mem_map.mp hn'
    exact ih m hm (h m hm)

/-- A value without floats whose text the decoder reads back: its integers are not too long for it,
its texts are ASCII without DEL, its objects have each key once, and at most `depth` containers are
open in it at a time. -/
structure Printable (depth : Nat) (v : Value) : Prop where
  readable : Readable v
  floatless : Floatless v = true
  plain : ∀ c ∈ codes v, c < 127
  nesting_le : nesting v ≤ depth

variable {ms : List (Str × Value)} {v : Value}

namespace Printable

variable {depth : Nat}

theorem str {s : Str} (h : ∀ c ∈ s, c < 127) : Printable depth (.str s) :=
  ⟨trivial, rfl, h, Nat.zero_le _⟩

theorem int {n : Int} (h : n.natAbs < 10 ^ 19) : Printable depth (.int n) := by
  refine ⟨?_, rfl, fun c hc => absurd hc List.not_mem_nil, Nat.zero_le _⟩
  have hlen : (digitCodes n.natAbs).length ≤ 19 := by
    rw [digitCodes, List.length_map]
    exact (Nat.length_toDigits_le_iff (by omega) (by omega)).mpr h
  exact hlen.trans (by decide)

theorem arr {vs : List Value} (h : ∀ v ∈ vs, Printable depth v) :
    Printable (depth + 1) (.arr vs) where
  readable := readableItems_iff.mpr fun v hv => (h v hv).readable
  floatless := by
    rw [Floatless, floatlessItems_eq_all, List.all_eq_true]
    exact fun v hv => (h v hv).floatless
  plain c hc := by
    obtain ⟨v, hv, hc⟩ := mem_codesItems.mp hc
    exact (h v hv).plain c hc
  nesting_le := by
    have hitems : nestingItems vs ≤ depth := by
      induction vs with
      | nil => exact Nat.zero_le _
      | cons v vs ih =>
        exact max_le (h v List.mem_cons_self).nesting_le
          (ih fun w hw => h w (List.mem_cons_of_mem _ hw))
    exact Nat.succ_le_succ hitems

theorem obj (hkeys : (ms.map Prod.fst).Nodup) (hplain : ∀ k ∈ ms.map Prod.fst, ∀ c ∈ k, c < 127)
    (h : ∀ m ∈ ms, Printable depth m.2) :
    Printable (depth + 1) (.obj ms) where
  readable := ⟨hkeys, readableMembers_iff.mpr fun m hm => (h m hm).readable⟩
  floatless := by
    rw [Floatless, floatlessMembers_eq_all, List.all_eq_true]
    exact fun m hm => (h m hm).floatless
  plain c hc := by
    obtain ⟨m, hm, hc | hc⟩ := mem_codesMembers.mp hc
    · exact hplain m.1 (List.mem_map_of_mem hm) c hc
    · exact (h m hm).plain c hc
  nesting_le := Nat.succ_le_succ (nestingMembers_le.mpr fun m hm => (h m hm).nesting_le)

theorem mono (h : Printable depth v) {limit : Nat} (hle : depth ≤ limit) : Printable limit v :=
  { h with nesting_le := h.nesting_le.trans hle }

/-- The text is ASCII. -/
theorem dumped (h : Printable depth v) : ∀ c ∈ dumpsAscii v, c < 127 := by
  intro c hc
  rw [dumpsAscii_eq h.readable h.plain] at hc
  rcases mem_dumps v h.readable hc with hc | ⟨hcode, -⟩
  · exact hc.2
  · exact h.plain c hcode

theorem sortKeys (h : Printable depth v) : Printable depth (PyJson.sortKeys v) where
  readable := readable_sortKeys v h.readable
  floatless := floatless_sortKeys v h.floatless
  plain c hc := h.plain c ((mem_codes_sortKeys v).mp hc)
  nesting_le := (nesting_sortKeys v).trans h.nesting_le

end Printable

/-- **What is printed is accepted.** -/
theorem canonicalLoads_dumpsAscii {repr : Str → Option Str} {limit : Nat} (h : Printable limit v) :
    canonicalLoads repr limit (dumpsAscii (sortKeys v)) = some (sortKeys v) := by
  have hsorted := h.sortKeys
  have hascii : (dumpsAscii (sortKeys v)).all (· < 128) = true :=
    List.all_eq_true.mpr fun c hc => decide_eq_true (Nat.lt_succ_of_lt (hsorted.dumped c hc))
  have hloads : strictLoads limit (dumpsAscii (sortKeys v)) = some (sortKeys v) :=
    strictLoads_dumpsAscii hsorted.readable hsorted.floatless hsorted.plain hsorted.nesting_le
  have hcanonical : isCanonical repr (sortKeys v) (dumpsAscii (sortKeys v)) = true := by
    rw [isCanonical, reprint_of_floatless _ hsorted.floatless]
    simp [sortKeys_sortKeys]
  rw [canonicalLoads, if_pos hascii, hloads, Option.bind_some, if_pos hcanonical]

/-- **What is accepted is as it is printed**, unless a float is in it. -/
theorem dumpsAscii_of_canonicalLoads {repr : Str → Option Str} {limit : Nat} {text : Str}
    (h : canonicalLoads repr limit text = some v) (hfloats : Floatless v = true) :
    dumpsAscii (sortKeys v) = text := by
  unfold canonicalLoads at h
  split at h
  · obtain ⟨w, -, hw⟩ := Option.bind_eq_some_iff.mp h
    split at hw
    · rename_i hcanonical
      obtain rfl := Option.some.inj hw
      rw [isCanonical, reprint_of_floatless w hfloats] at hcanonical
      simpa using hcanonical
    · cases hw
  · cases h

/-! ### The members of a decoded object -/

theorem scanKeyword_ne_obj {text rest : Str} : scanKeyword text ≠ some (.obj ms, rest) := by
  intro h
  obtain ⟨k, hk, hscan⟩ := List.exists_of_findSome?_eq_some h
  split at hscan
  · have hall : ∀ k ∈ keywords, ∀ ms, k.2 ≠ Value.obj ms := by simp [keywords]
    exact hall k hk ms (Prod.mk.inj (Option.some.inj hscan)).1
  · cases hscan

theorem scanNumber_ne_obj {text rest : Str} : scanNumber text ≠ .ok (.obj ms, rest) := by
  intro h
  unfold scanNumber at h
  dsimp only at h
  split at h
  · cases h
  · split_ifs at h <;> cases h

variable {fuel : Nat}

theorem scanItems_ne_obj {limit depth : Nat} {text rest : Str} {done : List Value} :
    scanItems limit fuel depth text done ≠ .ok (.obj ms, rest) := by
  induction fuel generalizing text done with
  | zero => simp [scanItems]
  | succ fuel ih =>
    intro h
    rw [scanItems] at h
    split at h
    · cases h
    · split at h
      · exact ih h
      · cases h
      · cases h

/-- Each key is inserted once. -/
theorem nodup_scanMembers {limit depth : Nat} {text rest : Str} {done : List (Str × Value)}
    (hdone : (done.map Prod.fst).Nodup)
    (h : scanMembers limit fuel depth text done = .ok (.obj ms, rest)) :
    (ms.map Prod.fst).Nodup := by
  induction fuel generalizing text done with
  | zero => simp [scanMembers] at h
  | succ fuel ih =>
    rw [scanMembers.eq_def] at h
    dsimp only at h
    split at h
    · split at h
      · cases h
      · split at h
        · split at h
          · cases h
          · split at h
            · exact ih (insertMember_nodup _ _ hdone) h
            · obtain ⟨hobj, -⟩ := Prod.mk.inj (Except.ok.inj h)
              exact Value.obj.inj hobj ▸ insertMember_nodup _ _ hdone
            · cases h
        · cases h
    · cases h

theorem nodup_scanValue {limit depth : Nat} {text rest : Str}
    (h : scanValue limit fuel depth text = .ok (.obj ms, rest)) : (ms.map Prod.fst).Nodup := by
  cases fuel with
  | zero => simp [scanValue] at h
  | succ fuel =>
    rw [scanValue.eq_def] at h
    dsimp only at h
    split at h
    · cases h
    · split_ifs at h
      · split at h <;> cases h
      · cases h
        exact List.nodup_nil
      · exact nodup_scanMembers (by simp) h
      · cases h
      · exact absurd h scanItems_ne_obj
      · split at h
        · rename_i hkeyword
          cases h
          exact absurd hkeyword scanKeyword_ne_obj
        · exact absurd h scanNumber_ne_obj

/-- A dict has each key once. -/
theorem nodup_of_canonicalLoads {repr : Str → Option Str} {limit : Nat} {text : Str}
    (h : canonicalLoads repr limit text = some (.obj ms)) : (ms.map Prod.fst).Nodup := by
  unfold canonicalLoads at h
  split at h
  · obtain ⟨w, hstrict, hw⟩ := Option.bind_eq_some_iff.mp h
    split at hw
    · obtain rfl := Option.some.inj hw
      unfold strictLoads at hstrict
      split at hstrict
      · cases hstrict
      · split at hstrict
        · cases hstrict
        · rename_i hloads
          split at hstrict
          · obtain rfl := Option.some.inj hstrict
            unfold loads at hloads
            split at hloads
            · cases hloads
            · split at hloads
              · cases hloads
              · rename_i hscan
                split at hloads
                · obtain rfl := Except.ok.inj hloads
                  exact nodup_scanValue hscan
                · cases hloads
          · cases hstrict
    · cases hw
  · cases h

/-! ### Members with sorted keys -/

/-- The members of a dict in the order of their keys. -/
def sortedMembers (ms : List (Str × Value)) : List (Str × Value) :=
  (sortMembers ms).insertionSort fun a b => a.1 ≤ b.1

theorem sortKeys_obj (ms : List (Str × Value)) : sortKeys (.obj ms) = .obj (sortedMembers ms) := by
  rw [sortKeys, sortedMembers]

theorem keys_sortedMembers (ms : List (Str × Value)) :
    ((sortedMembers ms).map Prod.fst).Perm (ms.map Prod.fst) := by
  have h := (perm_sorted ms).map Prod.fst
  rwa [sortMembers_keys] at h

theorem lookup_sortedMembers (hnodup : (ms.map Prod.fst).Nodup) {key : Str}
    (h : ms.lookup key = some v) : (sortedMembers ms).lookup key = some (sortKeys v) := by
  refine lookup_of_mem ((keys_sortedMembers ms).nodup_iff.mpr hnodup)
    ((perm_sorted ms).mem_iff.mpr ?_)
  obtain ⟨before, after, rfl, -⟩ := List.lookup_eq_some_iff.mp h
  rw [sortMembers_eq_map]
  exact List.mem_map.mpr ⟨(key, v), by simp, rfl⟩

/-! ### How long a canonical text is -/

theorem itemsBound_eq_sum (vs : List Value) :
    itemsBound vs = (vs.map fun v => textBound v + 1).sum := by
  induction vs with
  | nil => rfl
  | cons v vs ih => rw [itemsBound, ih, List.map_cons, List.sum_cons]

theorem membersBound_eq_sum (ms : List (Str × Value)) :
    membersBound ms = (ms.map fun m => strWeight m.1 + 2 + 1 + textBound m.2 + 1).sum := by
  induction ms with
  | nil => rfl
  | cons m ms ih => rw [membersBound, ih, List.map_cons, List.sum_cons]

/-- A bound on the items of an array is one on the array. -/
theorem textBound_arr_le {vs : List Value} {b n : Nat} (h : ∀ v ∈ vs, textBound v ≤ b)
    (hlen : vs.length ≤ n) : textBound (.arr vs) ≤ n * (b + 1) + 2 := by
  have hitems : itemsBound vs ≤ vs.length * (b + 1) := by
    induction vs with
    | nil => simp [itemsBound]
    | cons v vs ih =>
      have hv := h v List.mem_cons_self
      have hvs := ih (fun w hw => h w (List.mem_cons_of_mem _ hw)) (Nat.le_of_succ_le hlen)
      rw [itemsBound, List.length_cons, Nat.succ_mul]
      omega
  exact Nat.add_le_add_right (hitems.trans (Nat.mul_le_mul_right _ hlen)) 2

/-- Sorting the keys does not make a text longer. -/
theorem textBound_sortKeys (v : Value) : textBound (sortKeys v) = textBound v := by
  induction v using Value.induction with
  | null | bool _ | int _ | float _ | str _ => rfl
  | arr vs ih =>
    rw [sortKeys, textBound, textBound, itemsBound_eq_sum, itemsBound_eq_sum, sortItems_eq_map,
      List.map_map]
    exact congrArg (fun bounds => List.sum bounds + 2)
      (List.map_congr_left fun v hv => congrArg (· + 1) (ih v hv))
  | obj ms ih =>
    rw [sortKeys, textBound, textBound, membersBound_eq_sum, membersBound_eq_sum,
      ((perm_sorted ms).map _).sum_nat, sortMembers_eq_map, List.map_map]
    refine congrArg (fun bounds => List.sum bounds + 2) (List.map_congr_left fun m hm => ?_)
    simp only [Function.comp_apply, ih m hm]

theorem length_canonical_le (v : Value) : (dumpsAscii (sortKeys v)).length ≤ textBound v :=
  (length_dumpsAscii_le _).trans (textBound_sortKeys v).le

end RiskOps.Lib.PyJson
