import RiskOps.Lib.PyJsonRound

/-!
# RiskOps.Lib.PyCodec — typed fields of decoded objects

**One spelling for each value.** A `Codec` writes a type as JSON and reads it back; its law says
that a value is read as `a` exactly when it is what `a` is written as, so no second spelling is
accepted. Codecs for texts, numbers, enumerations, optional values and sorted name lists are built
from each other, and a record read field by field is the record written, up to the order of its
members (`perm_of_lookup_eq`).
-/

namespace RiskOps.Lib.PyJson

/-- A type with its one JSON spelling. -/
structure Codec (α : Type) where
  write : α → Value
  read : Value → Option α
  law : ∀ v a, read v = some a ↔ v = write a

namespace Codec

variable {α : Type}

/-! ### Texts and numbers -/

/-- The code points of a text. -/
def codesOf (s : List Char) : Str := s.map Char.toNat

/-- The character of a code point, none for half of a surrogate pair. -/
def charOf (n : Nat) : Option Char := if h : n.isValidChar then some (Char.ofNatAux n h) else none

theorem charOf_eq_some_iff {n : Nat} {c : Char} : charOf n = some c ↔ n = c.toNat := by
  unfold charOf
  split
  · rename_i h
    rw [Option.some.injEq]
    constructor
    · rintro rfl
      rfl
    · rintro rfl
      rfl
  · rename_i h
    simp only [reduceCtorEq, false_iff]
    rintro rfl
    exact h c.valid

/-- The text of code points, none when one is half of a surrogate pair. -/
def textOf (s : Str) : Option (List Char) := s.mapM charOf

theorem textOf_eq_some_iff {s : Str} {t : List Char} : textOf s = some t ↔ s = codesOf t := by
  unfold textOf codesOf
  induction s generalizing t with
  | nil => cases t <;> simp
  | cons n s ih =>
    cases t with
    | nil => simp [List.mapM_cons, Option.bind_eq_some_iff]
    | cons c t => simp [List.mapM_cons, Option.bind_eq_some_iff, charOf_eq_some_iff, ih]

/-- A `str`. -/
def text : Codec (List Char) where
  write s := .str (codesOf s)
  read
    | .str s => textOf s
    | _ => none
  law v a := by cases v <;> simp [textOf_eq_some_iff]

/-- An `int` that is not negative; a `bool` is none. -/
def nat : Codec Nat where
  write n := .int n
  read
    | .int n => if 0 ≤ n then some n.toNat else none
    | _ => none
  law v a := by
    cases v with
    | int n =>
      simp only [Option.ite_none_right_eq_some, Option.some.injEq, Value.int.injEq]
      omega
    | _ => simp

/-- A `bool`. -/
def bool : Codec Bool where
  write b := .bool b
  read
    | .bool b => some b
    | _ => none
  law v a := by cases v <;> simp

/-! ### Values that are one of a few -/

/-- The one value `a`. -/
def exactly [DecidableEq α] (c : Codec α) (a : α) : Codec Unit where
  write _ := c.write a
  read v := (c.read v).bind fun b => if b = a then some () else none
  law v u := by
    simp only [Option.bind_eq_some_iff, c.law]
    constructor
    · rintro ⟨b, rfl, h⟩
      split at h
      · rename_i hb
        rw [hb]
      · cases h
    · rintro rfl
      exact ⟨a, rfl, if_pos rfl⟩

/-- `null`, or a value that is never written `null`. -/
def nullable (c : Codec α) (h : ∀ a, c.write a ≠ .null) : Codec (Option α) where
  write
    | none => .null
    | some a => c.write a
  read
    | .null => some none
    | v => (c.read v).map some
  law v a := by
    cases v with
    | null =>
      cases a with
      | none => simp
      | some a => simpa using (h a).symm
    | _ => cases a <;> simp [c.law]

theorem find?_name {name : α → List Char} {all : List α} (hname : Function.Injective name) {a : α}
    (ha : a ∈ all) : (all.find? fun b => name b = name a) = some a := by
  cases hfind : all.find? fun b => decide (name b = name a) with
  | none =>
    have := List.find?_eq_none.mp hfind a ha
    simp at this
  | some b =>
    have := List.find?_some hfind
    rw [decide_eq_true_eq] at this
    rw [hname this]

/-- A member of an enumeration by its name. -/
def enum (name : α → List Char) (all : List α) (hname : Function.Injective name)
    (hall : ∀ a, a ∈ all) : Codec α where
  write a := text.write (name a)
  read v := (text.read v).bind fun s => all.find? fun a => name a = s
  law v a := by
    simp only [Option.bind_eq_some_iff, text.law]
    constructor
    · rintro ⟨s, rfl, hfind⟩
      have := List.find?_some hfind
      rw [decide_eq_true_eq] at this
      rw [this]
    · rintro rfl
      exact ⟨name a, rfl, find?_name hname (hall a)⟩

/-! ### Lists of names -/

/-- `sorted(set(names))`. -/
def sortedNames (names : List (List Char)) : List (List Char) := names.dedup.insertionSort (· ≤ ·)

/-- The names of a set, in the order of `all`. -/
def namesOf [DecidableEq α] (name : α → List Char) (all : List α) (S : Finset α) :
    List (List Char) :=
  (all.filter (· ∈ S)).map name

theorem sortedNames_eq_self {names : List (List Char)} (h : names.Pairwise (· < ·)) :
    sortedNames names = names := by
  have hnodup : names.Nodup := h.imp fun hlt => ne_of_lt hlt
  rw [sortedNames, hnodup.dedup]
  exact (h.imp fun hlt => le_of_lt hlt).insertionSort_eq

theorem pairwise_of_sortedNames {names : List (List Char)} (h : names = sortedNames names) :
    names.Pairwise (· < ·) := by
  have hnodup : names.Nodup := by
    rw [h]
    exact (List.perm_insertionSort _ _).nodup_iff.mpr (List.nodup_dedup names)
  have hle : names.Pairwise (· ≤ ·) := by
    rw [h]
    exact List.pairwise_insertionSort _ _
  exact (hle.and hnodup).imp fun hlt => lt_of_le_of_ne hlt.1 hlt.2

theorem pairwise_namesOf [DecidableEq α] {name : α → List Char} {all : List α}
    (hsorted : (all.map name).Pairwise (· < ·)) (S : Finset α) :
    (namesOf name all S).Pairwise (· < ·) :=
  hsorted.sublist (List.filter_sublist.map name)

theorem injective_of_sorted {name : α → List Char} {all : List α}
    (hsorted : (all.map name).Pairwise (· < ·)) (hall : ∀ a, a ∈ all) :
    Function.Injective name := by
  have hnodup : (all.map name).Nodup := hsorted.imp fun hlt => ne_of_lt hlt
  exact fun a b hab => List.inj_on_of_nodup_map hnodup (hall a) (hall b) hab

/-- A strictly sorted list of names is the names of its set. -/
theorem namesOf_toFinset [DecidableEq α] {name : α → List Char} {all members : List α}
    (hsorted : (all.map name).Pairwise (· < ·)) (hall : ∀ a, a ∈ all)
    (h : (members.map name).Pairwise (· < ·)) :
    namesOf name all members.toFinset = members.map name := by
  have hleft := pairwise_namesOf hsorted members.toFinset
  refine List.Perm.eq_of_pairwise' (r := (· < ·)) hleft h ?_
  refine (List.perm_ext_iff_of_nodup (hleft.imp fun hlt => ne_of_lt hlt)
    (h.imp fun hlt => ne_of_lt hlt)).mpr fun s => ?_
  simp [namesOf, hall]

/-- The items of a list, each read by the codec. -/
theorem mapM_read_eq_some_iff {c : Codec α} {items : List Value} {as : List α} :
    items.mapM c.read = some as ↔ items = as.map c.write := by
  induction items generalizing as with
  | nil => cases as <;> simp
  | cons v items ih =>
    cases as with
    | nil => simp [List.mapM_cons, Option.bind_eq_some_iff]
    | cons a as => simp [List.mapM_cons, Option.bind_eq_some_iff, c.law, ih]

/-- A sorted list of distinct names, at most `limit` of them. -/
def names [DecidableEq α] (limit : Nat) (name : α → List Char) (all : List α)
    (hsorted : (all.map name).Pairwise (· < ·)) (hall : ∀ a, a ∈ all)
    (hlimit : all.length ≤ limit) : Codec (Finset α) where
  write S := .arr ((namesOf name all S).map text.write)
  read
    | .arr items =>
      if items.length ≤ limit then
        let code := enum name all (injective_of_sorted hsorted hall) hall
        (items.mapM code.read).bind fun members =>
          if members.map name = sortedNames (members.map name) then some members.toFinset
          else none
      else none
    | _ => none
  law v S := by
    cases v with
    | arr items =>
      simp only [Option.ite_none_right_eq_some, Option.bind_eq_some_iff, mapM_read_eq_some_iff,
        Option.some.injEq, Value.arr.injEq]
      constructor
      · rintro ⟨-, members, rfl, hnames, rfl⟩
        rw [namesOf_toFinset hsorted hall (pairwise_of_sortedNames hnames), List.map_map]
        rfl
      · rintro rfl
        refine ⟨?_, all.filter (· ∈ S), ?_, ?_, ?_⟩
        · refine Nat.le_trans ?_ hlimit
          simpa [namesOf] using List.length_filter_le _ all
        · rw [namesOf, List.map_map]
          rfl
        · exact (sortedNames_eq_self (pairwise_namesOf hsorted S)).symm
        · ext a
          simp [hall]
    | _ => simp

end Codec

/-! ### Records -/

/-- The members a type is written as in a dict. The law: a dict is read as `a` exactly when it has
the members of `a`, whatever else it has. -/
structure Record (α : Type) where
  write : α → List (Str × Value)
  read : List (Str × Value) → Option α
  law : ∀ ms a, read ms = some a ↔ ∀ w ∈ write a, ms.lookup w.1 = some w.2

namespace Record

variable {α β : Type}

/-- One member. -/
def one (key : String) (c : Codec α) : Record α where
  write a := [(Str.ofString key, c.write a)]
  read ms := (ms.lookup (Str.ofString key)).bind c.read
  law ms a := by simp [Option.bind_eq_some_iff, c.law]

/-- The members of two parts. -/
def and (f : Record α) (g : Record β) : Record (α × β) where
  write p := f.write p.1 ++ g.write p.2
  read ms := (f.read ms).bind fun a => (g.read ms).map fun b => (a, b)
  law ms p := by
    obtain ⟨a, b⟩ := p
    simp only [Option.bind_eq_some_iff, Option.map_eq_some_iff, List.forall_mem_append, ← f.law,
      ← g.law]
    constructor
    · rintro ⟨a', ha, b', hb, heq⟩
      obtain ⟨rfl, rfl⟩ := Prod.mk.inj heq
      exact ⟨ha, hb⟩
    · rintro ⟨ha, hb⟩
      exact ⟨a, ha, b, hb, rfl⟩

/-- The same members for an equivalent type. -/
def iso (f : Record α) (e : α ≃ β) : Record β where
  write b := f.write (e.symm b)
  read ms := (f.read ms).map e
  law ms b := by
    rw [← f.law, Option.map_eq_some_iff]
    constructor
    · rintro ⟨a, ha, rfl⟩
      rw [ha, Equiv.symm_apply_apply]
    · intro h
      exact ⟨e.symm b, h, e.apply_symm_apply b⟩

end Record

/-- Two dicts with the same keys and the same value under each are the same up to order. -/
theorem perm_of_lookup_eq {ms ws : List (Str × Value)} (hws : (ws.map Prod.fst).Nodup)
    (hkeys : (ms.map Prod.fst).Perm (ws.map Prod.fst))
    (h : ∀ w ∈ ws, ms.lookup w.1 = some w.2) : ms.Perm ws := by
  have hsub : ws ⊆ ms := fun w hw => by
    obtain ⟨before, after, hms, -⟩ := List.lookup_eq_some_iff.mp (h w hw)
    simp [hms]
  have hlen : ms.length ≤ ws.length := by simpa using hkeys.length_eq.le
  exact ((List.subperm_of_subset hws.of_map hsub).perm_of_length_le hlen).symm

theorem lookup_eq_of_perm {ms ws : List (Str × Value)} (hws : (ws.map Prod.fst).Nodup)
    (hperm : ms.Perm ws) {w : Str × Value} (hw : w ∈ ws) : ms.lookup w.1 = some w.2 :=
  lookup_of_mem ((hperm.map Prod.fst).nodup_iff.mpr hws) (hperm.mem_iff.mpr hw)

end RiskOps.Lib.PyJson
