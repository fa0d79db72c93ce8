import RiskOps.Lib.PyJsonAscii

/-!
# RiskOps.Lib.PyJsonStrict — decoding that refuses what the encoder never writes

`json.loads` of UTF-8 bytes, with hooks that refuse a key written twice in one object and the
constants `NaN`, `Infinity` and `-Infinity` (`strictLoads`). What the encoder writes for a value
without floats is read back as by `loads` (`strictLoads_dumpsAscii`).
-/

namespace RiskOps.Lib.PyJson

/-! ### Keys -/

/-- No object of the text has a key twice. `opened` holds the keys of the containers that are open,
the innermost first. -/
def keysOnce : Nat → List (List Str) → Str → Bool
  | 0, _, _ => true
  | _ + 1, _, [] => true
  | fuel + 1, opened, c :: rest =>
    if c = 34 then
      match scanString rest with
      | none => true
      | some (s, rest) =>
        match opened with
        | [] => keysOnce fuel opened rest
        | keys :: outer =>
          -- A string before a colon is a key.
          if (skipBlanks rest).head? = some 58 then
            !keys.contains s && keysOnce fuel ((s :: keys) :: outer) rest
          else keysOnce fuel opened rest
    else if c = 123 || c = 91 then keysOnce fuel ([] :: opened) rest
    else if c = 125 || c = 93 then keysOnce fuel opened.tail rest
    else keysOnce fuel opened rest

/-! ### Constants -/

mutual

/-- No number of the value is one of the constants. -/
def finite : Value → Bool
  | .float l => !(keywords.map Prod.fst).contains l
  | .arr vs => finiteItems vs
  | .obj ms => finiteMembers ms
  | _ => true

def finiteItems : List Value → Bool
  | [] => true
  | v :: vs => finite v && finiteItems vs

def finiteMembers : List (Str × Value) → Bool
  | [] => true
  | (_, v) :: ms => finite v && finiteMembers ms

end

mutual

/-- No float occurs in the value. -/
def Floatless : Value → Bool
  | .float _ => false
  | .arr vs => floatlessItems vs
  | .obj ms => floatlessMembers ms
  | _ => true

def floatlessItems : List Value → Bool
  | [] => true
  | v :: vs => Floatless v && floatlessItems vs

def floatlessMembers : List (Str × Value) → Bool
  | [] => true
  | (_, v) :: ms => Floatless v && floatlessMembers ms

end

/-! ### Bytes -/

/-- A byte that continues a character. -/
def isContinuation (b : Nat) : Bool := 0x80 ≤ b && b ≤ 0xBF

/-- `raw.decode("utf-8")`: the characters of the bytes, none when they are no UTF-8. -/
def utf8Decode : List Nat → Option Str
  | [] => some []
  | b :: rest =>
    if b < 0x80 then (utf8Decode rest).map (b :: ·)
    else match rest with
    | c :: rest =>
      if !isContinuation c then none
      else if 0xC2 ≤ b && b ≤ 0xDF then
        (utf8Decode rest).map fun s => ((b - 0xC0) * 64 + (c - 0x80)) :: s
      else match rest with
      | d :: rest =>
        if !isContinuation d then none
        -- No shorter form, and no half of a surrogate pair.
        else if 0xE0 ≤ b && b ≤ 0xEF then
          if (b = 0xE0 && c < 0xA0) || (b = 0xED && 0xA0 ≤ c) then none
          else (utf8Decode rest).map fun s =>
            ((b - 0xE0) * 4096 + (c - 0x80) * 64 + (d - 0x80)) :: s
        else match rest with
        | e :: rest =>
          if !isContinuation e then none
          else if 0xF0 ≤ b && b ≤ 0xF4 then
            if (b = 0xF0 && c < 0x90) || (b = 0xF4 && 0x90 ≤ c) then none
            else (utf8Decode rest).map fun s =>
              ((b - 0xF0) * 262144 + (c - 0x80) * 4096 + (d - 0x80) * 64 + (e - 0x80)) :: s
          else none
        | [] => none
      | [] => none
    | [] => none

/-- `json.loads(raw.decode("utf-8"))` with the hooks. -/
def strictLoads (limit : Nat) (raw : List Nat) : Option Value :=
  match utf8Decode raw with
  | none => none
  | some text =>
    match loads limit text with
    | .error _ => none
    | .ok v => if keysOnce (text.length + 1) [] text && finite v then some v else none

theorem utf8Decode_ascii {raw : List Nat} (h : ∀ b ∈ raw, b < 128) : utf8Decode raw = some raw := by
  induction raw with
  | nil => rfl
  | cons b rest ih =>
    have htail := ih fun c hc => h c (List.mem_cons_of_mem _ hc)
    rw [utf8Decode.eq_def]
    dsimp only
    rw [if_pos (h b List.mem_cons_self), htail]
    rfl

/-! ### What the encoder writes -/

theorem floatlessItems_eq_all (vs : List Value) : floatlessItems vs = vs.all Floatless := by
  induction vs with
  | nil => rfl
  | cons v vs ih => rw [floatlessItems, ih, List.all_cons]

theorem floatlessMembers_eq_all (ms : List (Str × Value)) :
    floatlessMembers ms = ms.all fun m => Floatless m.2 := by
  induction ms with
  | nil => rfl
  | cons m ms ih =>
    obtain ⟨k, v⟩ := m
    rw [floatlessMembers, ih, List.all_cons]

theorem finiteMembers_eq_all (ms : List (Str × Value)) :
    finiteMembers ms = ms.all fun m => finite m.2 := by
  induction ms with
  | nil => rfl
  | cons m ms ih =>
    obtain ⟨k, v⟩ := m
    rw [finiteMembers, ih, List.all_cons]

theorem finite_of_floatless (v : Value) (h : Floatless v = true) : finite v = true := by
  induction v using Value.induction with
  | null => rfl
  | bool b => rfl
  | int n => rfl
  | float l => cases h
  | str s => rfl
  | arr vs ih =>
    rw [Floatless, floatlessItems_eq_all, List.all_eq_true] at h
    rw [finite]
    induction vs with
    | nil => rfl
    | cons v vs ihs =>
      rw [finiteItems, ih v List.mem_cons_self (h v List.mem_cons_self), Bool.true_and]
      exact ihs (fun w hw => ih w (List.mem_cons_of_mem _ hw))
        fun w hw => h w (List.mem_cons_of_mem _ hw)
  | obj ms ih =>
    rw [Floatless, floatlessMembers_eq_all, List.all_eq_true] at h
    rw [finite]
    induction ms with
    | nil => rfl
    | cons m ms ihs =>
      rw [finiteMembers, ih m List.mem_cons_self (h m List.mem_cons_self), Bool.true_and]
      exact ihs (fun n hn => ih n (List.mem_cons_of_mem _ hn))
        fun n hn => h n (List.mem_cons_of_mem _ hn)

/-- However far the text is read, no key occurs twice. -/
def Once (opened : List (List Str)) (text : Str) : Prop :=
  ∀ fuel, keysOnce fuel opened text = true

section Once

variable {opened : List (List Str)} {keys : List Str} {rest s : Str}

theorem once_nil : Once opened [] := fun fuel => by
  cases fuel <;> rfl

theorem Once.char {c : Nat} (h : Once opened rest)
    (hc : c ≠ 34 ∧ c ≠ 123 ∧ c ≠ 91 ∧ c ≠ 125 ∧ c ≠ 93) : Once opened (c :: rest)
  | 0 => rfl
  | fuel + 1 => by
    obtain ⟨h₁, h₂, h₃, h₄, h₅⟩ := hc
    simp only [keysOnce, h₁, h₂, h₃, h₄, h₅, if_false, decide_false, Bool.or_self,
      Bool.false_eq_true]
    exact h fuel

theorem Once.chars (h : Once opened rest)
    (hs : ∀ c ∈ s, c ≠ 34 ∧ c ≠ 123 ∧ c ≠ 91 ∧ c ≠ 125 ∧ c ≠ 93) : Once opened (s ++ rest) := by
  induction s with
  | nil => exact h
  | cons c s ih =>
    exact (ih fun d hd => hs d (List.mem_cons_of_mem _ hd)).char (hs c List.mem_cons_self)

theorem Once.open {c : Nat} (h : Once ([] :: opened) rest) (hc : c = 123 ∨ c = 91) :
    Once opened (c :: rest)
  | 0 => rfl
  | fuel + 1 => by
    rcases hc with rfl | rfl
    · exact h fuel
    · exact h fuel

theorem Once.close {c : Nat} (h : Once opened rest) (hc : c = 125 ∨ c = 93) :
    Once (keys :: opened) (c :: rest)
  | 0 => rfl
  | fuel + 1 => by
    rcases hc with rfl | rfl
    · exact h fuel
    · exact h fuel

theorem dumpStr_append : dumpStr s ++ rest = 34 :: (s.flatMap escape ++ 34 :: rest) := by
  simp [dumpStr]

theorem Once.key (h : Once ((s :: keys) :: opened) (58 :: rest)) (hs : s ∉ keys) :
    Once (keys :: opened) (dumpStr s ++ 58 :: rest)
  | 0 => rfl
  | fuel + 1 => by
    have hcolon : (skipBlanks (58 :: rest)).head? = some 58 := by
      rw [skipBlanks_cons rfl]
      rfl
    rw [dumpStr_append, keysOnce, if_pos rfl, scanString_dumped]
    dsimp only
    rw [if_pos hcolon, h fuel, Bool.and_true, Bool.not_eq_true']
    simpa using hs

theorem Once.string (h : Once opened rest) (hends : Ends rest) : Once opened (dumpStr s ++ rest)
  | 0 => rfl
  | fuel + 1 => by
    have hcolon : (skipBlanks rest).head? ≠ some 58 := by
      rw [hends.skipBlanks]
      intro hhead
      rcases hends 58 hhead with h | h | h <;> cases h
    rw [dumpStr_append, keysOnce, if_pos rfl, scanString_dumped]
    dsimp only
    cases opened with
    | nil => exact h fuel
    | cons keys opened =>
      dsimp only
      rw [if_neg hcolon]
      exact h fuel

end Once

mutual

/-- **What the encoder writes has each key once.** -/
theorem once_dumps : (v : Value) → ∀ {opened : List (List Str)} {rest : Str}, Readable v →
    Floatless v = true → Ends rest → Once opened rest → Once opened (dumps v ++ rest)
  | .null, _, _, _, _, _, hrest => hrest.chars (by decide)
  | .bool true, _, _, _, _, _, hrest => hrest.chars (by decide)
  | .bool false, _, _, _, _, _, hrest => hrest.chars (by decide)
  | .int n, _, _, _, _, _, hrest => by
    have hdigits : ∀ m : Nat, ∀ c ∈ (Nat.toDigits 10 m).map Char.toNat,
        c ≠ 34 ∧ c ≠ 123 ∧ c ≠ 91 ∧ c ≠ 125 ∧ c ≠ 93 := fun m c hc => by
      obtain ⟨d, hd, rfl⟩ := List.mem_map.mp hc
      have hdigit := Nat.isDigit_of_mem_toDigits (by decide) (by decide) hd
      simp only [Char.isDigit, Bool.and_eq_true, decide_eq_true_eq, ge_iff_le, Char.toNat,
        UInt32.le_iff_toNat_le] at hdigit ⊢
      have h₁ : ('0' : Char).val.toNat = 48 := rfl
      have h₂ : ('9' : Char).val.toNat = 57 := rfl
      omega
    refine hrest.chars fun c hc => ?_
    cases n with
    | ofNat n => exact hdigits n c hc
    | negSucc n =>
      rcases List.mem_cons.mp hc with rfl | hc
      · decide
      · exact hdigits (n + 1) c hc
  | .float l, _, _, _, h, _, _ => by cases h
  | .str s, _, _, _, _, hends, hrest => hrest.string hends
  | .arr vs, opened, rest, h, hfloats, _, hrest => by
    have htext : dumps (.arr vs) ++ rest = 91 :: (dumpItems vs ++ 93 :: rest) := by
      simp [dumps]
    rw [htext]
    exact (once_dumpItems vs h hfloats (hrest.close (.inr rfl))).open (.inr rfl)
  | .obj ms, opened, rest, h, hfloats, _, hrest => by
    have htext : dumps (.obj ms) ++ rest = 123 :: (dumpMembers ms ++ 125 :: rest) := by
      simp [dumps]
    rw [htext]
    refine (once_dumpMembers ms h.2 hfloats (by simpa using h.1) fun keys => ?_).open (.inl rfl)
    exact hrest.close (.inl rfl)

theorem once_dumpItems : (vs : List Value) → ∀ {opened : List (List Str)} {rest : Str},
    ReadableItems vs → floatlessItems vs = true → Once opened (93 :: rest) →
    Once opened (dumpItems vs ++ 93 :: rest)
  | [], _, _, _, _, hrest => hrest
  | [v], _, _, h, hfloats, hrest => by
    rw [floatlessItems, Bool.and_eq_true] at hfloats
    simp only [dumpItems, List.isEmpty_nil, if_true, List.append_nil]
    exact once_dumps v h.1 hfloats.1 (ends_cons (.inr (.inl rfl))) hrest
  | v :: w :: vs, _, rest, h, hfloats, hrest => by
    rw [floatlessItems, Bool.and_eq_true] at hfloats
    have htext : dumpItems (v :: w :: vs) ++ 93 :: rest =
        dumps v ++ 44 :: (dumpItems (w :: vs) ++ 93 :: rest) := by
      rw [dumpItems]
      simp
    rw [htext]
    refine once_dumps v h.1 hfloats.1 (ends_cons (.inl rfl)) (Once.char ?_ (by decide))
    exact once_dumpItems (w :: vs) h.2 hfloats.2 hrest

theorem once_dumpMembers : (ms : List (Str × Value)) →
    ∀ {opened : List (List Str)} {keys : List Str} {rest : Str},
    ReadableMembers ms → floatlessMembers ms = true → (keys.reverse ++ ms.map Prod.fst).Nodup →
    (∀ keys, Once (keys :: opened) (125 :: rest)) →
    Once (keys :: opened) (dumpMembers ms ++ 125 :: rest)
  | [], _, keys, _, _, _, _, hrest => hrest keys
  | [(k, v)], _, keys, rest, h, hfloats, hnodup, hrest => by
    rw [floatlessMembers, Bool.and_eq_true] at hfloats
    have htext : dumpMembers [(k, v)] ++ 125 :: rest =
        dumpStr k ++ 58 :: (dumps v ++ 125 :: rest) := by
      simp [dumpMembers]
    have hfresh : k ∉ keys := fun hk =>
      (List.nodup_append.mp hnodup).2.2 k (List.mem_reverse.mpr hk) k List.mem_cons_self rfl
    rw [htext]
    refine Once.key (Once.char ?_ (by decide)) hfresh
    exact once_dumps v h.1 hfloats.1 (ends_cons (.inr (.inr rfl))) (hrest _)
  | (k, v) :: m :: ms, _, keys, rest, h, hfloats, hnodup, hrest => by
    rw [floatlessMembers, Bool.and_eq_true] at hfloats
    have htext : dumpMembers ((k, v) :: m :: ms) ++ 125 :: rest =
        dumpStr k ++ 58 :: (dumps v ++ 44 :: (dumpMembers (m :: ms) ++ 125 :: rest)) := by
      rw [dumpMembers]
      simp
    have hfresh : k ∉ keys := fun hk =>
      (List.nodup_append.mp hnodup).2.2 k (List.mem_reverse.mpr hk) k List.mem_cons_self rfl
    have hnodup' : ((k :: keys).reverse ++ (m :: ms).map Prod.fst).Nodup := by
      simpa using hnodup
    rw [htext]
    refine Once.key (Once.char ?_ (by decide)) hfresh
    refine once_dumps v h.1 hfloats.1 (ends_cons (.inl rfl)) (Once.char ?_ (by decide))
    exact once_dumpMembers (m :: ms) h.2 hfloats.2 hnodup' hrest

end

/-- **What is printed is read back**, also with the hooks. -/
theorem strictLoads_dumpsAscii {limit : Nat} {v : Value} (h : Readable v)
    (hfloats : Floatless v = true) (hplain : ∀ c ∈ codes v, c < 127) (hdepth : nesting v ≤ limit) :
    strictLoads limit (dumpsAscii v) = some v := by
  have honce : Once [] (dumps v ++ []) := once_dumps v h hfloats ends_nil once_nil
  rw [List.append_nil] at honce
  have hascii : ∀ b ∈ dumps v, b < 128 := fun b hb => by
    rcases mem_dumps v h hb with hb | ⟨hcode, hge⟩
    · exact Nat.lt_succ_of_lt hb.2
    · exact absurd (hplain b hcode) (by omega)
  rw [dumpsAscii_eq h hplain, strictLoads, utf8Decode_ascii hascii]
  dsimp only
  rw [loads_dumps h hdepth]
  dsimp only
  rw [honce, finite_of_floatless v hfloats]
  rfl

end RiskOps.Lib.PyJson
