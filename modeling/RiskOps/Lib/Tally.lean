import RiskOps.Lib.Lawful

/-!
# RiskOps.Lib.Tally — counts in a dict

A dict of counts is a list of keys with numbers, in insertion order. `get` reads a count, `add` adds
to one and puts a new key at the end.
-/

namespace RiskOps.Lib.Tally

variable {κ : Type} [DecidableEq κ]

/-- `counts.get(key, 0)`. -/
def get (counts : List (κ × Nat)) (key : κ) : Nat := (counts.lookup key).getD 0

/-- `counts[key] = counts.get(key, 0) + n`. -/
def add : List (κ × Nat) → κ × Nat → List (κ × Nat)
  | [], x => [x]
  | (k, n) :: counts, x => if k = x.1 then (k, n + x.2) :: counts else (k, n) :: add counts x

/-- What some lines add under a key. -/
def amount (lines : List (κ × Nat)) (key : κ) : Nat :=
  ((lines.filter fun x => x.1 = key).map Prod.snd).sum

theorem get_cons (k key : κ) (n : Nat) (counts : List (κ × Nat)) :
    get ((k, n) :: counts) key = if k = key then n else get counts key := by
  by_cases hk : k = key
  · subst hk
    simp [get]
  · rw [if_neg hk]
    simp [get, List.lookup_cons, beq_false_of_ne (Ne.symm hk)]

theorem get_add (counts : List (κ × Nat)) (x : κ × Nat) (key : κ) :
    get (add counts x) key = get counts key + if x.1 = key then x.2 else 0 := by
  induction counts with
  | nil =>
    obtain ⟨k, n⟩ := x
    rw [add, get_cons]
    split
    · exact (Nat.zero_add n).symm
    · rfl
  | cons y counts ih =>
    obtain ⟨k, n⟩ := y
    rw [add]
    by_cases hx : k = x.1
    · rw [if_pos hx, get_cons, get_cons, hx]
      split
      · rfl
      · rfl
    · rw [if_neg hx, get_cons, get_cons, ih]
      split
      · rename_i hk
        rw [if_neg (fun heq => hx (hk.trans heq.symm)), Nat.add_zero]
      · rfl

theorem sum_add (counts : List (κ × Nat)) (x : κ × Nat) :
    ((add counts x).map Prod.snd).sum = (counts.map Prod.snd).sum + x.2 := by
  induction counts with
  | nil => simp [add]
  | cons y counts ih =>
    obtain ⟨k, n⟩ := y
    rw [add]
    split
    · simp only [List.map_cons, List.sum_cons]
      omega
    · simp only [List.map_cons, List.sum_cons, ih]
      omega

theorem amount_append (lines lines' : List (κ × Nat)) (key : κ) :
    amount (lines ++ lines') key = amount lines key + amount lines' key := by
  rw [amount, List.filter_append, List.map_append, List.sum_append]
  rfl

theorem amount_perm {lines lines' : List (κ × Nat)} (h : lines.Perm lines') (key : κ) :
    amount lines key = amount lines' key := ((h.filter _).map Prod.snd).sum_eq

/-- **Adding lines one after the other.** -/
theorem get_foldl_add (lines counts : List (κ × Nat)) (key : κ) :
    get (lines.foldl add counts) key = get counts key + amount lines key := by
  induction lines generalizing counts with
  | nil => rfl
  | cons x lines ih =>
    have hcons : amount (x :: lines) key = (if x.1 = key then x.2 else 0) + amount lines key := by
      by_cases hk : x.1 = key
      · simp [amount, hk]
      · simp [amount, hk]
    rw [List.foldl_cons, ih, get_add, hcons, Nat.add_assoc]

theorem sum_foldl_add (lines counts : List (κ × Nat)) :
    ((lines.foldl add counts).map Prod.snd).sum =
      (counts.map Prod.snd).sum + (lines.map Prod.snd).sum := by
  induction lines generalizing counts with
  | nil => rfl
  | cons x lines ih => rw [List.foldl_cons, ih, sum_add, List.map_cons, List.sum_cons, Nat.add_assoc]

end RiskOps.Lib.Tally
