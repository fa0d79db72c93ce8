import RiskOps.Lib.Json

/-!
# RiskOps.Lib.Canonical — values printed with sorted keys, and checked text

**One text for one value.** A program that prints with sorted keys, without blanks and in ASCII, and
rejects any text that is not what it would print itself, may keep the value in place of the text.
A `Value` holds the members of an object in the order of their keys, so that nothing is left to
sort; `Value.text` is the printed form.

**Checked text.** A `Checked p` is a string that passed the check `p`; a `Bounded lo hi` an integer
in a range. Reading one back from its own text or number always succeeds.
-/

namespace RiskOps.Lib

/-! ### Values -/

/-- A JSON value. -/
inductive Value where
  | null
  | bool (b : Bool)
  | int (n : Int)
  | float (x : ℚ)
  | str (s : String)
  | arr (items : List Value)
  | obj (members : List (String × Value))
  deriving Inhabited

namespace Value

mutual

/-- The value a printer of `Lib.Json` takes; `repr` writes a float. -/
def toJson (repr : ℚ → List Char) : Value → Json
  | .null => .null
  | .bool b => .bool b
  | .int n => .int n
  | .float x => .float (repr x)
  | .str s => .str s.toList
  | .arr vs => .arr (itemsJson repr vs)
  | .obj ms => .obj (membersJson repr ms)

def itemsJson (repr : ℚ → List Char) : List Value → List Json
  | [] => []
  | v :: vs => v.toJson repr :: itemsJson repr vs

def membersJson (repr : ℚ → List Char) : List (String × Value) → List (List Char × Json)
  | [] => []
  | (k, v) :: ms => (k.toList, v.toJson repr) :: membersJson repr ms

end

/-- `json.dumps(value, sort_keys=True, separators=(',', ':'), ensure_ascii=True)`. -/
def text (repr : ℚ → List Char) (v : Value) : List Char :=
  Json.dumps ⟨true, [','], [':']⟩ (Json.sortKeys (v.toJson repr))

/-- `d[key]` of a dict; `null` of anything else, and when the key is missing. -/
def get (v : Value) (key : String) : Value :=
  match v with
  | .obj ms => (ms.lookup key).getD .null
  | _ => .null

def strs (ss : List String) : Value := .arr (ss.map .str)

def asInt : Value → Option Int
  | .int n => some n
  | _ => none

def asStr : Value → Option String
  | .str s => some s
  | _ => none

def asObj : Value → Option (List (String × Value))
  | .obj ms => some ms
  | _ => none

/-- `value == s`. -/
def isStr (s : String) : Value → Bool
  | .str s' => s' = s
  | _ => false

end Value

/-! ### Checked text and bounded numbers -/

/-- A string that passed the check `p`. -/
def Checked (p : String → Bool) : Type := { s : String // p s = true }

namespace Checked

variable {p : String → Bool}

instance : DecidableEq (Checked p) := inferInstanceAs (DecidableEq { s : String // p s = true })

def of? (p : String → Bool) (s : String) : Option (Checked p) :=
  if h : p s = true then some ⟨s, h⟩ else none

@[simp] theorem of?_val (x : Checked p) : of? p x.val = some x := by
  rw [of?, dif_pos x.property]
  rfl

theorem ext {x y : Checked p} (h : x.val = y.val) : x = y := Subtype.ext h

end Checked

/-- An integer between `lo` and `hi`. -/
def Bounded (lo hi : Int) : Type := { n : Int // lo ≤ n ∧ n ≤ hi }

namespace Bounded

variable {lo hi : Int}

instance : DecidableEq (Bounded lo hi) :=
  inferInstanceAs (DecidableEq { n : Int // lo ≤ n ∧ n ≤ hi })

def of? (lo hi : Int) (n : Int) : Option (Bounded lo hi) :=
  if h : lo ≤ n ∧ n ≤ hi then some ⟨n, h⟩ else none

@[simp] theorem of?_val (x : Bounded lo hi) : of? lo hi x.val = some x := by
  rw [of?, dif_pos x.property]
  rfl

end Bounded

/-! ### Sorted lists without repetition -/

/-- `sorted(set(values))`. -/
def sortedSet (ss : List String) : List String := ss.dedup.insertionSort (· ≤ ·)

theorem mem_sortedSet {ss : List String} {s : String} : s ∈ sortedSet ss ↔ s ∈ ss := by
  rw [sortedSet, List.mem_insertionSort, List.mem_dedup]

theorem nodup_sortedSet (ss : List String) : (sortedSet ss).Nodup :=
  (List.perm_insertionSort _ _).nodup_iff.mpr (List.nodup_dedup ss)

theorem pairwise_sortedSet (ss : List String) : (sortedSet ss).Pairwise (· ≤ ·) :=
  List.pairwise_insertionSort _ _

theorem sortedSet_eq_self {ss : List String} (hs : ss.Pairwise (· ≤ ·)) (hn : ss.Nodup) :
    sortedSet ss = ss := by
  rw [sortedSet, hn.dedup]
  exact List.Pairwise.insertionSort_eq hs

/-- A sorted list without repetition is sorted again to itself. -/
@[simp] theorem sortedSet_sortedSet (ss : List String) : sortedSet (sortedSet ss) = sortedSet ss :=
  sortedSet_eq_self (pairwise_sortedSet ss) (nodup_sortedSet ss)

theorem length_sortedSet_le (ss : List String) : (sortedSet ss).length ≤ ss.length := by
  rw [sortedSet, List.length_insertionSort]
  exact (List.dedup_sublist ss).length_le

end RiskOps.Lib
