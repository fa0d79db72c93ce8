import RiskOps.Lib.IpAddress

/-!
# RiskOps.Lib.IpText — the canonical text of an address reads back as the address

**Printing and reading agree.** `parse (toText a) = some a` for every address
without a zone, together with the shape facts about accepted texts that scanners of
larger texts need: which characters can occur, and what a trailing colon does.

The compression of `toText` is taken apart first: the scan only ever records a run
of zero groups, so filling the gap with zeros restores the groups.
-/

namespace RiskOps.Lib

namespace IpAddress

/-! ### Digits -/

theorem digitVal_digitChar {d : Nat} (h : d < 16) : digitVal (Nat.digitChar d) = some d := by
  have hall : ∀ d : Fin 16, digitVal (Nat.digitChar d) = some d.val := by decide +kernel
  exact hall ⟨d, h⟩

variable {b : Nat} {s : List Char} {c : Char}

theorem digitsVal_concat :
    digitsVal b (s ++ [c]) = (digitsVal b s).bind fun acc =>
      (digitVal c).bind fun d => if d < b then some (acc * b + d) else none := by
  simp [digitsVal, List.foldlM_append]

/-- The digits of a number read back as the number. -/
theorem digitsVal_toDigits (hb : 1 < b) (hb' : b ≤ 16) (n : Nat) :
    digitsVal b (Nat.toDigits b n) = some n := by
  induction n using Nat.strongRecOn with
  | _ n ih =>
    by_cases h : n < b
    · rw [Nat.toDigits_of_lt_base h]
      simp [digitsVal, digitVal_digitChar (lt_of_lt_of_le h hb'), h]
    · have hdiv : n / b < n := Nat.div_lt_self (by omega) hb
      have hmod : n % b < b := Nat.mod_lt _ (by omega)
      rw [Nat.toDigits_of_base_le hb (by omega), digitsVal_concat, ih _ hdiv,
        digitVal_digitChar (lt_of_lt_of_le hmod hb')]
      simp [hmod, Nat.mul_comm (n / b) b, Nat.div_add_mod]

variable {n : Nat}

/-- Every digit is below the base. -/
theorem mem_toDigits (hb : 1 < b) (h : c ∈ Nat.toDigits b n) : ∃ d < b, c = Nat.digitChar d := by
  induction n using Nat.strongRecOn with
  | _ n ih =>
    by_cases hlt : n < b
    · rw [Nat.toDigits_of_lt_base hlt] at h
      exact ⟨n, hlt, by simpa using h⟩
    · rw [Nat.toDigits_of_base_le hb (by omega)] at h
      rcases List.mem_append.mp h with h | h
      · exact ih _ (Nat.div_lt_self (by omega) hb) h
      · exact ⟨n % b, Nat.mod_lt _ (by omega), by simpa using h⟩

theorem not_mem_toDigits (hb : 1 < b) (hb' : b ≤ 16) (hc : digitVal c = none) :
    c ∉ Nat.toDigits b n := by
  intro h
  obtain ⟨d, hd, rfl⟩ := mem_toDigits hb h
  rw [digitVal_digitChar (lt_of_lt_of_le hd hb')] at hc
  exact absurd hc (by simp)

theorem not_mem_hexText (hc : digitVal c = none) : c ∉ hexText n :=
  not_mem_toDigits (by decide) (by decide) hc

theorem not_mem_decText (hc : digitVal c = none) : c ∉ decText n :=
  not_mem_toDigits (by decide) (by decide) hc

theorem hexText_ne_nil (n : Nat) : hexText n ≠ [] := Nat.toDigits_ne_nil

theorem parseHextet_hexText (h : n < 65536) : parseHextet (hexText n) = some n := by
  have hlen : (hexText n).length ≤ 4 :=
    (Nat.length_toDigits_le_iff (by decide) (by decide)).mpr (by omega)
  have hne := hexText_ne_nil n
  rw [parseHextet, if_neg (by simp [hne]; omega)]
  exact digitsVal_toDigits (by decide) (by decide) n

theorem parseOctet_decText (h : n < 256) : parseOctet (decText n) = some n := by
  have hall : ∀ n : Fin 256, parseOctet (decText n) = some n.val := by decide +kernel
  exact hall ⟨n, h⟩

/-! ### IPv4 -/

theorem not_mem_textV4 (hc : digitVal c = none) (hdot : c ≠ '.') : c ∉ textV4 n := by
  simp [textV4, List.intercalate, not_mem_decText hc, hdot]

theorem parseV4_textV4 (h : n < 2 ^ 32) : parseV4 (textV4 n) = some n := by
  have hsplit : (textV4 n).splitOn '.' = [decText (n / 16777216 % 256), decText (n / 65536 % 256),
      decText (n / 256 % 256), decText (n % 256)] := by
    refine List.splitOn_intercalate '.' ?_ (by simp)
    intro l hl
    simp only [List.mem_cons, List.not_mem_nil, or_false] at hl
    rcases hl with rfl | rfl | rfl | rfl <;> exact not_mem_decText (by decide)
  have hlt : ∀ m : Nat, m % 256 < 256 := fun m => Nat.mod_lt _ (by decide)
  simp only [parseV4, hsplit, parseOctet_decText (hlt _), Option.bind_eq_bind, Option.bind_some]
  exact congrArg some (by omega)

/-! ### The compression scan -/

/-- What the scan knows of the groups it has read: the current run reaches their end,
and both runs consist of zeros. -/
structure Scan.Sound (gs : List Nat) (sc : Scan) : Prop where
  index : sc.index = gs.length
  current : 0 < sc.len → gs.drop sc.start = List.replicate sc.len 0
  inside : sc.bestStart + sc.bestLen ≤ gs.length
  best : (gs.drop sc.bestStart).take sc.bestLen = List.replicate sc.bestLen 0

variable {gs : List Nat}

theorem Scan.Sound.step {sc : Scan} (h : sc.Sound gs) (group : Nat) :
    (sc.step group).Sound (gs ++ [group]) := by
  have hinside := h.inside
  have hkeep : ((gs ++ [group]).drop sc.bestStart).take sc.bestLen
      = List.replicate sc.bestLen 0 := by
    rw [List.drop_append_of_le_length (by omega), List.take_append_of_le_length (by simp; omega)]
    exact h.best
  by_cases hzero : group = 0
  · subst hzero
    -- The run now ends in the zero just read, whether it started before or starts here.
    obtain ⟨start, hstart⟩ : ∃ start, start = if sc.len = 0 then sc.index else sc.start :=
      ⟨_, rfl⟩
    have hrun : start + sc.len = gs.length ∧ gs.drop start = List.replicate sc.len 0 := by
      by_cases hlen : sc.len = 0
      · simp [hstart, hlen, h.index]
      · have hcur := h.current (by omega)
        have hl := congrArg List.length hcur
        simp only [List.length_drop, List.length_replicate] at hl
        rw [hstart, if_neg hlen]
        exact ⟨by omega, hcur⟩
    have hcur' : (gs ++ [0]).drop start = List.replicate (sc.len + 1) 0 := by
      rw [List.drop_append_of_le_length (by omega), hrun.2, List.replicate_succ']
    simp only [Scan.step, if_true, ← hstart]
    split
    · refine ⟨by simp [h.index], fun _ => hcur', by simp; omega, ?_⟩
      simp only
      rw [hcur', List.take_of_length_le (by simp)]
    · exact ⟨by simp [h.index], fun _ => hcur', by simp; omega, hkeep⟩
  · simp only [Scan.step, if_neg hzero]
    exact ⟨by simp [h.index], by simp, by simp; omega, hkeep⟩

theorem scan_sound (gs : List Nat) : (gs.foldl Scan.step ⟨0, 0, 0, 0, 0⟩).Sound gs := by
  induction gs using List.reverseRecOn with
  | nil => exact ⟨rfl, by simp, by simp, by simp⟩
  | append_singleton gs g ih =>
    rw [List.foldl_append]
    exact ih.step g

/-! ### Reading a compressed text -/

/-- A filter that accepts exactly one index. -/
theorem filter_range_eq_singleton {i : Nat} {p : Nat → Bool} (hi : i < n)
    (hp : ∀ j < n, p j = true ↔ j = i) : (List.range n).filter p = [i] := by
  have hcongr : (List.range n).filter p = (List.range n).filter (· == i) :=
    List.filter_congr fun j hj => by
      rw [Bool.eq_iff_iff, hp j (List.mem_range.mp hj), beq_iff_eq]
  rw [hcongr, List.filter_beq, List.count_eq_one_of_mem List.nodup_range (List.mem_range.mpr hi)]
  rfl

/-- The only inner empty part is the one between the two sides. -/
theorem skips_append {hi lo : List (List Char)} (hhi : hi ≠ []) (hlo : lo ≠ [])
    (hhi' : ∀ p ∈ hi.tail, p ≠ []) (hlo' : ∀ p ∈ lo.dropLast, p ≠ []) :
    skips (hi ++ [] :: lo) = [hi.length] := by
  have hposhi := List.length_pos_iff.mpr hhi
  have hposlo := List.length_pos_iff.mpr hlo
  refine filter_range_eq_singleton (by simp) fun j hj => ?_
  simp only [List.length_append, List.length_cons, Bool.and_eq_true, decide_eq_true_eq] at hj ⊢
  constructor
  · intro ⟨⟨hj0, hjlast⟩, hnil⟩
    by_contra hne
    rcases Nat.lt_or_gt_of_ne hne with hlt | hgt
    · rw [List.getElem?_append_left hlt] at hnil
      have hmem : [] ∈ hi.tail := by
        refine List.mem_iff_getElem?.mpr ⟨j - 1, ?_⟩
        rw [List.getElem?_tail, Nat.sub_add_cancel hj0]
        exact hnil
      exact hhi' _ hmem rfl
    · rw [List.getElem?_append_right (by omega)] at hnil
      obtain ⟨i, hi'⟩ : ∃ i, j - hi.length = i + 1 := ⟨j - hi.length - 1, by omega⟩
      rw [hi', List.getElem?_cons_succ] at hnil
      have hmem : [] ∈ lo.dropLast := by
        refine List.mem_iff_getElem?.mpr ⟨i, ?_⟩
        rw [List.getElem?_dropLast, if_pos (by omega)]
        exact hnil
      exact hlo' _ hmem rfl
  · intro hj'
    subst hj'
    exact ⟨⟨hposhi, by omega⟩, by simp⟩

theorem groupsVal_map_hexText (h : ∀ g ∈ gs, g < 65536) : groupsVal (gs.map hexText) = some gs := by
  induction gs with
  | nil => rfl
  | cons g gs ih =>
    have htail : groupsVal (gs.map hexText) = some gs :=
      ih fun g' hg' => h g' (List.mem_cons_of_mem _ hg')
    simp only [groupsVal] at htail ⊢
    simp [List.mapM_cons, parseHextet_hexText (h g List.mem_cons_self), htail]

/-- One side of the `::`; an empty side leaves an empty part at its end. -/
def side (gs : List Nat) : List (List Char) :=
  if gs.map hexText = [] then [[]] else gs.map hexText

theorem side_ne_nil (gs : List Nat) : side gs ≠ [] := by
  unfold side
  split
  · simp
  · assumption

theorem nil_mem_side (h : [] ∈ side gs) : gs = [] := by
  unfold side at h
  split at h
  · rename_i hnil
    simpa using hnil
  · obtain ⟨g, -, hg⟩ := List.mem_map.mp h
    exact absurd hg (hexText_ne_nil g)

theorem side_nil : side [] = [[]] := rfl

theorem side_cons (g : Nat) (gs : List Nat) : side (g :: gs) = (g :: gs).map hexText := by
  simp [side]

theorem side_tail_ne_nil : ∀ p ∈ (side gs).tail, p ≠ [] := by
  intro p hp hnil
  subst hnil
  obtain rfl := nil_mem_side (List.mem_of_mem_tail hp)
  simp [side_nil] at hp

theorem side_dropLast_ne_nil : ∀ p ∈ (side gs).dropLast, p ≠ [] := by
  intro p hp hnil
  subst hnil
  obtain rfl := nil_mem_side ((List.dropLast_sublist _).subset hp)
  simp [side_nil] at hp

/-- The groups on both sides of the `::` come back, zeros between them. -/
theorem groups_sides {hi lo : List Nat} (hhi : ∀ g ∈ hi, g < 65536) (hlo : ∀ g ∈ lo, g < 65536)
    (hlen : hi.length + lo.length < 8) :
    groups (side hi ++ [] :: side lo)
      = some (hi ++ List.replicate (8 - (hi.length + lo.length)) 0 ++ lo) := by
  have hskips : skips (side hi ++ [] :: side lo) = [(side hi).length] :=
    skips_append (side_ne_nil hi) (side_ne_nil lo) side_tail_ne_nil side_dropLast_ne_nil
  have htake : (side hi ++ [] :: side lo).take (side hi).length = side hi := List.take_left
  have hdrop : (side hi ++ [] :: side lo).drop ((side hi).length + 1) = side lo := by
    rw [List.drop_append]
    simp
  have hhead : (side hi ++ [] :: side lo).head? = (side hi).head? := by
    cases h : side hi with
    | nil => exact absurd h (side_ne_nil hi)
    | cons a l => rfl
  have hlast : (side hi ++ [] :: side lo).getLast? = (side lo).getLast? := by
    rw [List.getLast?_append, List.getLast?_cons]
    cases h : (side lo).getLast? with
    | none => exact absurd (List.getLast?_eq_none_iff.mp h) (side_ne_nil lo)
    | some a => rfl
  have hhi' : (if (side hi).head? = some [] then (side hi).drop 1 else side hi)
      = hi.map hexText := by
    cases hi with
    | nil => rfl
    | cons g gs => simp [side_cons, hexText_ne_nil]
  have hlo' : (if (side lo).getLast? = some [] then (side lo).dropLast else side lo)
      = lo.map hexText := by
    cases lo with
    | nil => rfl
    | cons g gs =>
      rw [if_neg, side_cons]
      intro hnil
      exact absurd (nil_mem_side (List.mem_of_getLast? hnil)) (by simp)
  have hheadNil : (side hi).head? = some [] → hi = [] := fun h =>
    nil_mem_side (List.mem_of_mem_head? h)
  have hlastNil : (side lo).getLast? = some [] → lo = [] := fun h =>
    nil_mem_side (List.mem_of_getLast? h)
  simp only [groups, hskips, htake, hdrop, hhead, hlast, hhi', hlo', List.length_map]
  rw [if_neg]
  · simp [groupsVal_map_hexText hhi, groupsVal_map_hexText hlo]
  · rintro (⟨h, hne⟩ | ⟨h, hne⟩ | h)
    · exact hne (by simp [hheadNil h])
    · exact hne (by simp [hlastNil h])
    · omega

theorem groups_map_hexText (hgs : ∀ g ∈ gs, g < 65536) (hlen : gs.length = 8) :
    groups (gs.map hexText) = some gs := by
  have hnil : [] ∉ gs.map hexText := by
    simp [hexText_ne_nil]
  have hskips : skips (gs.map hexText) = [] := by
    refine List.filter_eq_nil_iff.mpr fun j _ hj => ?_
    simp only [Bool.and_eq_true, decide_eq_true_eq] at hj
    exact hnil (List.mem_of_getElem? hj.2)
  simp only [groups, hskips]
  rw [if_pos]
  · exact groupsVal_map_hexText hgs
  · exact ⟨by simpa using hlen, fun h => hnil (List.mem_of_mem_head? h),
      fun h => hnil (List.mem_of_getLast? h)⟩

/-- Whatever run the scan chose, the compressed parts stand for the groups. -/
theorem groups_compress (hgs : ∀ g ∈ gs, g < 65536) (hlen : gs.length = 8) :
    groups (compress gs) = some gs := by
  have hscan := scan_sound gs
  unfold compress
  simp only
  generalize gs.foldl Scan.step ⟨0, 0, 0, 0, 0⟩ = sc at hscan ⊢
  split
  · rename_i hbest
    have hinside := hscan.inside
    have hgap : gs = gs.take sc.bestStart ++ List.replicate sc.bestLen 0
        ++ gs.drop (sc.bestStart + sc.bestLen) := by
      rw [← hscan.best, ← List.drop_drop, List.append_assoc, List.take_append_drop,
        List.take_append_drop]
    have hfill := groups_sides (fun g hg => hgs g (List.mem_of_mem_take hg))
      (fun g hg => hgs g (List.mem_of_mem_drop hg))
      (show (gs.take sc.bestStart).length + (gs.drop (sc.bestStart + sc.bestLen)).length < 8 by
        simp; omega)
    have hgapLen : 8 - ((gs.take sc.bestStart).length
        + (gs.drop (sc.bestStart + sc.bestLen)).length) = sc.bestLen := by
      simp; omega
    rw [hgapLen, ← hgap] at hfill
    rw [List.append_assoc]
    exact hfill
  · exact groups_map_hexText hgs hlen

theorem compress_ne_nil (gs : List Nat) (h : gs ≠ []) : compress gs ≠ [] := by
  unfold compress
  simp only
  split
  · simp
  · simpa using h

theorem not_mem_compress (hc : digitVal c = none) : ∀ p ∈ compress gs, c ∉ p := by
  have hmap : ∀ l : List Nat, ∀ p ∈ l.map hexText, c ∉ p := by
    intro l p hp
    obtain ⟨g, -, rfl⟩ := List.mem_map.mp hp
    exact not_mem_hexText hc
  have hside : ∀ l : List Nat, ∀ p ∈ side l, c ∉ p := by
    intro l p hp
    unfold side at hp
    split at hp
    · simp only [List.mem_singleton] at hp
      simp [hp]
    · exact hmap l p hp
  intro p hp
  unfold compress at hp
  simp only at hp
  split at hp
  · rw [List.mem_append, List.mem_append] at hp
    rcases hp with (hp | hp) | hp
    · exact hside _ p hp
    · simp only [List.mem_singleton] at hp
      simp [hp]
    · exact hside _ p hp
  · exact hmap _ p hp

/-! ### IPv6 -/

theorem toGroups_lt {g : Nat} (h : g ∈ toGroups n) : g < 65536 := by
  have hlt : ∀ m : Nat, m % 65536 < 65536 := fun m => Nat.mod_lt _ (by decide)
  simp only [toGroups, List.mem_cons, List.not_mem_nil, or_false] at h
  rcases h with rfl | rfl | rfl | rfl | rfl | rfl | rfl | rfl <;> exact hlt _

theorem ofGroups_toGroups (h : n < 2 ^ 128) : ofGroups (toGroups n) = n := by
  simp only [ofGroups, toGroups, List.foldl_cons, List.foldl_nil]
  omega

theorem mem_intercalate {parts : List (List Char)} {x : Char} (h : c ∈ [x].intercalate parts) :
    (∃ p ∈ parts, c ∈ p) ∨ c = x := by
  induction parts with
  | nil => simp at h
  | cons p parts ih =>
    cases parts with
    | nil => exact Or.inl ⟨p, by simp, by simpa using h⟩
    | cons q parts =>
      rw [List.intercalate_cons_cons, List.mem_append, List.mem_append,
        List.mem_singleton] at h
      rcases h with (h | h) | h
      · exact Or.inl ⟨p, by simp, h⟩
      · exact Or.inr h
      · exact (ih h).imp_left fun ⟨p', hp', hc⟩ => ⟨p', List.mem_cons_of_mem _ hp', hc⟩

theorem not_mem_textV6 (hc : digitVal c = none) (hcolon : c ≠ ':') : c ∉ textV6 n := by
  intro h
  rcases mem_intercalate h with ⟨p, hp, hcp⟩ | h
  · exact not_mem_compress hc p hp hcp
  · exact hcolon h

theorem splitOn_textV6 (n : Nat) : (textV6 n).splitOn ':' = compress (toGroups n) :=
  List.splitOn_intercalate ':' (not_mem_compress (by decide))
    (compress_ne_nil _ (by simp [toGroups]))

theorem length_side (gs : List Nat) : (side gs).length = max 1 gs.length := by
  cases gs with
  | nil => rfl
  | cons g gs => simp [side_cons]

theorem length_compress {gs : List Nat} (hlen : gs.length = 8) :
    3 ≤ (compress gs).length ∧ (compress gs).length ≤ 8 := by
  have hscan := (scan_sound gs).inside
  unfold compress
  simp only
  generalize gs.foldl Scan.step ⟨0, 0, 0, 0, 0⟩ = sc at hscan ⊢
  split
  · have hhi := length_side (gs.take sc.bestStart)
    have hlo := length_side (gs.drop (sc.bestStart + sc.bestLen))
    unfold side at hhi hlo
    simp only [List.length_append, hhi, hlo, List.length_take, List.length_drop,
      List.length_singleton]
    omega
  · simp [hlen]

theorem parseV6_textV6 (h : n < 2 ^ 128) : parseV6 (textV6 n) = some n := by
  have hlen : 3 ≤ (compress (toGroups n)).length ∧ (compress (toGroups n)).length ≤ 8 :=
    length_compress rfl
  have hne : textV6 n ≠ [] := by
    intro hnil
    have hsplit := splitOn_textV6 n
    rw [hnil] at hsplit
    simp only [← hsplit, List.splitOn_nil, List.length_singleton] at hlen
    omega
  have htail : expandTail (compress (toGroups n)) = some (compress (toGroups n)) := by
    unfold expandTail
    split
    · rename_i last hlast
      rw [if_neg (not_mem_compress (by decide) last (List.mem_of_getLast? hlast))]
    · rfl
  rw [parseV6, splitOn_textV6, if_neg (by simp only [hne, false_or]; omega), htail]
  simp only [Option.bind_eq_bind, Option.bind_some]
  rw [if_neg (by omega), groups_compress (fun g hg => toGroups_lt hg) rfl, Option.map_some,
    ofGroups_toGroups h]

/-! ### The round trip -/

theorem parseV4_eq_none (h : '.' ∉ s) : parseV4 s = none := by
  unfold parseV4
  rw [List.splitOn_eq_singleton h]

/-- `str(ip_address(text))` is a fixed point of reading and printing. -/
theorem parse_toText_v4 (n : Fin (2 ^ 32)) : parse (toText (v4 n)) = some (v4 n) := by
  have hslash : '/' ∉ textV4 n := not_mem_textV4 (by decide) (by decide)
  simp only [parse, toText, hslash, if_false, parseV4_textV4 n.isLt, n.isLt, dite_true]

theorem parse_toText_v6 (n : Fin (2 ^ 128)) : parse (toText (v6 n none)) = some (v6 n none) := by
  have hslash : '/' ∉ textV6 n := not_mem_textV6 (by decide) (by decide)
  have hdot : '.' ∉ textV6 n := not_mem_textV6 (by decide) (by decide)
  have hzone : '%' ∉ textV6 n := not_mem_textV6 (by decide) (by decide)
  have hsplit : splitZone (textV6 n) = some (textV6 n, none) := by
    rw [splitZone, List.splitOn_eq_singleton hzone]
  simp only [parse, toText, Option.map_none, Option.getD_none, List.append_nil, hslash, if_false,
    parseV4_eq_none hdot, hsplit, Option.bind_eq_bind, Option.bind_some, parseV6_textV6 n.isLt,
    n.isLt, dite_true]

/-! ### Shapes of accepted texts -/

/-- The zone of an address, when it has one. -/
def zone : IpAddress → Option (List Char)
  | v4 _ => none
  | v6 _ z => z

variable {a : IpAddress}

theorem parse_toText (h : a.zone = none) : parse (toText a) = some a := by
  cases a with
  | v4 n => exact parse_toText_v4 n
  | v6 n z =>
    simp only [zone] at h
    subst h
    exact parse_toText_v6 n

/-- What `parse` accepts is a dotted quad, or an IPv6 text with an optional zone. -/
theorem parse_cases (h : parse s = some a) :
    ((parseV4 s).isSome ∧ a.zone = none) ∨
      (parseV4 s = none ∧ ∃ addr z n, splitZone s = some (addr, z) ∧ parseV6 addr = some n ∧
        a.zone = z) := by
  unfold parse at h
  split at h
  · simp at h
  · split at h
    · rename_i n hn
      split at h
      · obtain rfl := Option.some.inj h
        exact Or.inl ⟨by simp [hn], rfl⟩
      · simp at h
    · rename_i hnone
      simp only [Option.bind_eq_bind, Option.bind_eq_some_iff] at h
      obtain ⟨⟨addr, z⟩, hsplit, n, hn, h⟩ := h
      split at h
      · obtain rfl := Option.some.inj h
        exact Or.inr ⟨hnone, addr, z, n, hsplit, hn, rfl⟩
      · simp at h

theorem splitZone_of_not_mem (h : '%' ∉ s) : splitZone s = some (s, none) := by
  rw [splitZone, List.splitOn_eq_singleton h]

theorem length_intercalate_le {k : Nat} {parts : List (List Char)} (h : ∀ p ∈ parts, p.length ≤ k) :
    ([c].intercalate parts).length ≤ (k + 1) * parts.length := by
  induction parts with
  | nil => simp
  | cons p parts ih =>
    have hp := h p List.mem_cons_self
    have hparts := ih fun q hq => h q (List.mem_cons_of_mem _ hq)
    cases parts with
    | nil =>
      rw [List.intercalate_singleton, List.length_singleton]
      omega
    | cons q parts =>
      rw [List.intercalate_cons_cons, List.length_append, List.length_append,
        List.length_singleton]
      rw [List.length_cons] at hparts ⊢
      rw [List.length_cons, Nat.mul_succ]
      omega

theorem length_mem_compress {gs : List Nat} (hgs : ∀ g ∈ gs, g < 65536) :
    ∀ p ∈ compress gs, p.length ≤ 4 := by
  have hmap : ∀ l : List Nat, (∀ g ∈ l, g < 65536) → ∀ p ∈ l.map hexText, p.length ≤ 4 := by
    intro l hl p hp
    obtain ⟨g, hg, rfl⟩ := List.mem_map.mp hp
    exact (Nat.length_toDigits_le_iff (by omega) (by omega)).mpr (hl g hg)
  have hside : ∀ l : List Nat, (∀ g ∈ l, g < 65536) → ∀ p ∈ side l, p.length ≤ 4 := by
    intro l hl p hp
    unfold side at hp
    split at hp
    · simp only [List.mem_singleton] at hp
      simp [hp]
    · exact hmap l hl p hp
  intro p hp
  unfold compress at hp
  simp only at hp
  split at hp
  · rw [List.mem_append, List.mem_append] at hp
    rcases hp with (hp | hp) | hp
    · exact hside _ (fun g hg => hgs g (List.mem_of_mem_take hg)) p hp
    · simp only [List.mem_singleton] at hp
      simp [hp]
    · exact hside _ (fun g hg => hgs g (List.mem_of_mem_drop hg)) p hp
  · exact hmap _ hgs p hp

/-- An address without a zone is short. -/
theorem length_toText_le (h : a.zone = none) : a.toText.length ≤ 40 := by
  cases a with
  | v4 n =>
    have hparts : ∀ p ∈ [decText (n.val / 16777216 % 256), decText (n.val / 65536 % 256),
        decText (n.val / 256 % 256), decText (n.val % 256)], p.length ≤ 3 := by
      have hdec : ∀ m, m < 256 → (decText m).length ≤ 3 := fun m hm =>
        (Nat.length_toDigits_le_iff (by omega) (by omega)).mpr (by omega)
      intro p hp
      simp only [List.mem_cons, List.not_mem_nil, or_false] at hp
      rcases hp with rfl | rfl | rfl | rfl <;> exact hdec _ (Nat.mod_lt _ (by decide))
    exact (length_intercalate_le hparts).trans (by simp)
  | v6 n z =>
    rw [zone] at h
    subst h
    have hlen := (@length_compress (toGroups n.val) rfl).2
    have hle := length_intercalate_le (c := ':')
      (@length_mem_compress (toGroups n.val) fun g hg => toGroups_lt hg)
    rw [toText, Option.map_none, Option.getD_none, List.append_nil, textV6]
    omega

/-- Without a percent sign there is no zone. -/
theorem zone_eq_none (h : parse s = some a) (hs : '%' ∉ s) : a.zone = none := by
  rcases parse_cases h with ⟨-, hz⟩ | ⟨-, addr, z, n, hsplit, -, hz⟩
  · exact hz
  · rw [splitZone_of_not_mem hs] at hsplit
    simp_all

/-- A text of digits has only digits. -/
theorem digitVal_of_digitsVal (h : digitsVal b s = some n) : ∀ c ∈ s, digitVal c ≠ none := by
  induction s using List.reverseRecOn generalizing n with
  | nil => simp
  | append_singleton s c ih =>
    rw [digitsVal_concat] at h
    obtain ⟨acc, hacc, h⟩ := Option.bind_eq_some_iff.mp h
    obtain ⟨d, hd, -⟩ := Option.bind_eq_some_iff.mp h
    intro c' hc'
    rcases List.mem_append.mp hc' with hc' | hc'
    · exact ih hacc c' hc'
    · simp only [List.mem_singleton] at hc'
      simp [hc', hd]

theorem digitVal_of_parseOctet (h : parseOctet s = some n) : ∀ c ∈ s, digitVal c ≠ none := by
  unfold parseOctet at h
  split at h
  · simp at h
  · exact digitVal_of_digitsVal (Option.filter_eq_some_iff.mp h).1

/-- A dotted quad has digits and dots only. -/
theorem parseV4_chars (h : parseV4 s = some n) (hdigit : digitVal c = none) (hdot : c ≠ '.') :
    c ∉ s := by
  intro hc
  unfold parseV4 at h
  split at h
  · rename_i o₁ o₂ o₃ o₄ hsplit
    have hjoin : s = ['.'].intercalate [o₁, o₂, o₃, o₄] := by
      rw [← hsplit, List.intercalate_splitOn]
    simp only [Option.bind_eq_bind, Option.bind_eq_some_iff] at h
    obtain ⟨v₁, h₁, v₂, h₂, v₃, h₃, v₄, h₄, -⟩ := h
    rw [hjoin] at hc
    rcases mem_intercalate hc with ⟨p, hp, hcp⟩ | hc
    · simp only [List.mem_cons, List.not_mem_nil, or_false] at hp
      rcases hp with rfl | rfl | rfl | rfl
      · exact digitVal_of_parseOctet h₁ c hcp hdigit
      · exact digitVal_of_parseOctet h₂ c hcp hdigit
      · exact digitVal_of_parseOctet h₃ c hcp hdigit
      · exact digitVal_of_parseOctet h₄ c hcp hdigit
    · exact hdot hc
  · simp at h

/-- One colon at the end of a text without others is no address. -/
theorem parse_single_colon {q : List Char} (hcolon : ':' ∉ q) (hzone : '%' ∉ q) :
    parse (q ++ [':']) = none := by
  by_contra hne
  obtain ⟨a, ha⟩ := Option.ne_none_iff_exists'.mp hne
  rcases parse_cases ha with ⟨h4, -⟩ | ⟨-, addr, z, n, hsplit, hn, -⟩
  · obtain ⟨n, hn⟩ := Option.isSome_iff_exists.mp h4
    exact parseV4_chars hn (by decide) (by decide) (show ':' ∈ q ++ [':'] by simp)
  · rw [splitZone_of_not_mem (by simp [hzone])] at hsplit
    obtain ⟨rfl, rfl⟩ := Prod.mk.inj (Option.some.inj hsplit)
    rw [parseV6, List.splitOn_append_cons_self_of_not_mem hcolon] at hn
    simp at hn

/-- Groups that end in an empty part end in `::`; without that part they are no groups. -/
theorem groups_concat_nil {parts : List (List Char)} (h : groups (parts ++ [[]]) = some gs) :
    parts.getLast? = some [] ∧ groups parts = none := by
  have hlast : (parts ++ [[]]).getLast? = some [] := by simp
  unfold groups at h
  split at h
  · simp [hlast] at h
  · rename_i i hskips
    simp only [hlast, if_true, Option.ite_none_left_eq_some, true_and, not_or, not_not,
      ne_eq] at h
    have hbad := h.1
    -- The side below the `::` is empty, so the `::` ends the text.
    have hi : i ∈ skips (parts ++ [[]]) := by simp [hskips]
    simp only [skips, List.mem_filter, List.mem_range, Bool.and_eq_true, decide_eq_true_eq,
      List.length_append, List.length_singleton] at hi
    obtain ⟨hi₁, ⟨hi₂, hi₃⟩, hi₄⟩ := hi
    have hlo : i + 1 = parts.length := by
      have hlen := congrArg List.length hbad.2.1
      simp only [List.length_dropLast, List.length_drop, List.length_append,
        List.length_singleton, List.length_nil] at hlen
      omega
    have hpart : parts.getLast? = some [] := by
      rw [List.getLast?_eq_getElem?]
      rw [List.getElem?_append_left (by omega)] at hi₄
      rw [← hlo]
      exact hi₄
    have hnone : skips parts = [] := by
      refine List.filter_eq_nil_iff.mpr fun j hj hj' => ?_
      simp only [List.mem_range, Bool.and_eq_true, decide_eq_true_eq] at hj hj'
      have hmem : j ∈ skips (parts ++ [[]]) := by
        simp only [skips, List.mem_filter, List.mem_range, Bool.and_eq_true, decide_eq_true_eq,
          List.length_append, List.length_singleton]
        refine ⟨by omega, ⟨hj'.1.1, by omega⟩, ?_⟩
        rw [List.getElem?_append_left hj]
        exact hj'.2
      rw [hskips, List.mem_singleton] at hmem
      omega
    exact ⟨hpart, by simp [groups, hnone, hpart]⟩
  · simp at h

/-- A colon after an unscoped address never leaves an address. -/
theorem parse_concat_colon {y : List Char} (hzone : '%' ∉ y) (h : (parse y).isSome) :
    parse (y ++ [':']) = none := by
  by_contra hne
  obtain ⟨a, ha⟩ := Option.ne_none_iff_exists'.mp hne
  obtain ⟨a', ha'⟩ := Option.isSome_iff_exists.mp h
  rcases parse_cases ha with ⟨h4, -⟩ | ⟨-, addr, z, n, hsplit, hn, -⟩
  · obtain ⟨n, hn⟩ := Option.isSome_iff_exists.mp h4
    exact parseV4_chars hn (by decide) (by decide) (show ':' ∈ y ++ [':'] by simp)
  rw [splitZone_of_not_mem (by simp [hzone])] at hsplit
  obtain ⟨rfl, rfl⟩ := Prod.mk.inj (Option.some.inj hsplit)
  have hparts : (y ++ [':']).splitOn ':' = y.splitOn ':' ++ [[]] := by
    rw [List.splitOn_append_cons_self]
    rfl
  have htail : expandTail (y.splitOn ':' ++ [[]]) = some (y.splitOn ':' ++ [[]]) := by
    simp [expandTail]
  rw [parseV6, hparts, htail] at hn
  simp only [Option.bind_eq_bind, Option.bind_some] at hn
  split at hn
  · simp at hn
  rename_i hlen
  split at hn
  · simp at hn
  obtain ⟨gs, hgs, -⟩ := Option.map_eq_some_iff.mp hn
  obtain ⟨hlast, hnone⟩ := groups_concat_nil hgs
  simp only [List.length_append, List.length_singleton, not_or, not_lt] at hlen
  rcases parse_cases ha' with ⟨h4, -⟩ | ⟨-, addr, z, n', hsplit', hn', -⟩
  · obtain ⟨m, hm⟩ := Option.isSome_iff_exists.mp h4
    have hcolon := parseV4_chars hm (c := ':') (by decide) (by decide)
    rw [List.splitOn_eq_singleton hcolon] at hlen
    simp at hlen
  · rw [splitZone_of_not_mem hzone] at hsplit'
    obtain ⟨rfl, rfl⟩ := Prod.mk.inj (Option.some.inj hsplit')
    have htail' : expandTail (y.splitOn ':') = some (y.splitOn ':') := by
      simp [expandTail, hlast]
    rw [parseV6, htail'] at hn'
    simp [hnone] at hn'

/-! ### Printed addresses are ASCII -/

theorem ascii_of_digitVal (h : digitVal c = some n) : 32 ≤ c.toNat ∧ c.toNat < 127 := by
  unfold digitVal at h
  simp only [Char.le_def, UInt32.le_iff_toNat_le] at h
  have hval : c.toNat = c.val.toNat := rfl
  have ha : ('a' : Char).val.toNat = 97 := rfl
  have hf : ('f' : Char).val.toNat = 102 := rfl
  have hA : ('A' : Char).val.toNat = 65 := rfl
  have hF : ('F' : Char).val.toNat = 70 := rfl
  have h0 : ('0' : Char).val.toNat = 48 := rfl
  have h9 : ('9' : Char).val.toNat = 57 := rfl
  split at h
  · omega
  · split at h
    · omega
    · split at h
      · omega
      · cases h

/-- An address without a zone is printed in ASCII. -/
theorem ascii_of_mem_toText (h : a.zone = none) (hc : c ∈ a.toText) :
    32 ≤ c.toNat ∧ c.toNat < 127 := by
  cases hdigit : digitVal c with
  | some n => exact ascii_of_digitVal hdigit
  | none =>
    cases a with
    | v4 n =>
      by_cases hdot : c = '.'
      · rw [hdot]
        decide
      · exact absurd hc (not_mem_textV4 hdigit hdot)
    | v6 n z =>
      rw [zone] at h
      subst h
      rw [toText, Option.map_none, Option.getD_none, List.append_nil] at hc
      by_cases hcolon : c = ':'
      · rw [hcolon]
        decide
      · exact absurd hc (not_mem_textV6 hdigit hcolon)

end IpAddress

end RiskOps.Lib
