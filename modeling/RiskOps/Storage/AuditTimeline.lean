import RiskOps.Lib.Run
import RiskOps.Storage.AuditLog

/-!
# RiskOps.Storage.AuditTimeline — the exported timeline

Model of `audit_timeline`. `export` writes one canonical JSON object a line, `load` splits the text
with `str.splitlines` and decodes every line that is not blank.

**Line breaks.** The encoder escapes the control characters below U+0020 and prints every other
character as it is. `str.splitlines` also ends a line at U+0085, U+2028 and U+2029, so a row whose
strings hold one of them is torn into two lines.

**Raising.** `export` raises when a row nests deeper than the interpreter's limit or holds a lone
surrogate; nothing is read back then.
-/

namespace RiskOps.Storage

open RiskOps.Lib.PyJson
open RiskOps.Lib (Str isSpace mapM_eq_ok)

/-! ### `str.splitlines` -/

/-- A character that ends a line. -/
def isBreak (c : Nat) : Bool :=
  c = 10 || c = 11 || c = 12 || c = 13 || c = 0x1c || c = 0x1d || c = 0x1e || c = 0x85 ||
    c = 0x2028 || c = 0x2029

/-- The lines of a text behind the start of a line. -/
def splitlinesFrom : Str → Str → List Str
  | line, [] => if line.isEmpty then [] else [line]
  | line, 13 :: 10 :: rest => line :: splitlinesFrom [] rest
  | line, c :: rest =>
    if isBreak c then line :: splitlinesFrom [] rest else splitlinesFrom (line ++ [c]) rest

/-- `text.splitlines()`. -/
def splitlines (text : Str) : List Str := splitlinesFrom [] text

variable {c : Nat}

theorem splitlinesFrom_cons (line rest : Str) (hc : c ≠ 13) :
    splitlinesFrom line (c :: rest) =
      if isBreak c then line :: splitlinesFrom [] rest else splitlinesFrom (line ++ [c]) rest := by
  rw [splitlinesFrom]
  intro rest' heq
  exact absurd heq hc

/-- A stretch without breaks belongs to the line. -/
theorem splitlinesFrom_unbroken {text : Str} (h : ∀ c ∈ text, isBreak c = false) (line rest : Str) :
    splitlinesFrom line (text ++ rest) = splitlinesFrom (line ++ text) rest := by
  induction text generalizing line with
  | nil => rw [List.nil_append, List.append_nil]
  | cons c text ih =>
    have hc := h c List.mem_cons_self
    have hne : c ≠ 13 := by
      rintro rfl
      cases hc
    rw [List.cons_append, splitlinesFrom_cons _ _ hne, hc, if_neg Bool.false_ne_true,
      ih (fun d hd => h d (List.mem_cons_of_mem _ hd)), List.append_assoc, List.singleton_append]

/-- A line feed ends the lines of what stands before it. -/
theorem splitlinesFrom_append {text : Str} (h : 13 ∉ text) (line rest : Str) :
    splitlinesFrom line (text ++ 10 :: rest) =
      splitlinesFrom line (text ++ [10]) ++ splitlines rest := by
  induction text generalizing line with
  | nil =>
    rw [List.nil_append, List.nil_append, splitlinesFrom_cons _ _ (by decide),
      splitlinesFrom_cons _ _ (by decide)]
    rfl
  | cons c text ih =>
    rw [List.mem_cons, not_or] at h
    rw [List.cons_append, List.cons_append, splitlinesFrom_cons _ _ (Ne.symm h.1),
      splitlinesFrom_cons _ _ (Ne.symm h.1)]
    split
    · rw [ih h.2, List.cons_append]
    · exact ih h.2 _

/-- A character that ends no line stands in one of the lines. -/
theorem mem_splitlinesFrom {text : Str} (h : 13 ∉ text) (line : Str) (hc : isBreak c = false)
    (hmem : c ∈ line ∨ c ∈ text) : ∃ l ∈ splitlinesFrom line text, c ∈ l := by
  induction text generalizing line with
  | nil =>
    have hline : c ∈ line := hmem.resolve_right (List.not_mem_nil)
    rw [splitlinesFrom, if_neg (by simp [List.ne_nil_of_mem hline])]
    exact ⟨line, List.mem_singleton_self _, hline⟩
  | cons d text ih =>
    rw [List.mem_cons, not_or] at h
    rw [splitlinesFrom_cons _ _ (Ne.symm h.1)]
    split
    · rename_i hd
      rcases hmem with hline | htext
      · exact ⟨line, List.mem_cons_self, hline⟩
      · have hne : c ≠ d := by
          rintro rfl
          rw [hd] at hc
          cases hc
        obtain ⟨l, hl, hcl⟩ := ih h.2 [] (.inr ((List.mem_cons.mp htext).resolve_left hne))
        exact ⟨l, List.mem_cons_of_mem _ hl, hcl⟩
    · refine ih h.2 _ ?_
      rcases hmem with hline | htext
      · exact .inl (List.mem_append_left _ hline)
      · rcases List.mem_cons.mp htext with rfl | htext
        · exact .inl (List.mem_append_right _ (List.mem_singleton_self _))
        · exact .inr htext

/-! ### `export` and `load` -/

/-- The row as `load` hands it out. -/
def Row.toValue (r : Row) : Value := .obj r.members

/-- `canonical_json(row)`; `none` on `RecursionError`. -/
def canonicalLine (limit : Nat) (r : Row) : Option Str :=
  if nesting r.toValue ≤ limit then some (canonicalJson r.members) else none

/-- The text `export(events, path)` writes; `none` when it raises. -/
def exportText (limit : Nat) (rows : List Row) : Option Str :=
  match rows.mapM (canonicalLine limit) with
  | none => none
  | some lines =>
    let text := lines.flatMap fun line => line ++ [10]
    if Str.encodable text then some text else none

/-- The lines `load` decodes. -/
def nonBlank (lines : List Str) : List Str := lines.filter fun line => !Str.blank line

/-- `load(path)` of a file with this text. -/
def load (limit : Nat) (text : Str) : Except DecodeError (List Value) :=
  (nonBlank (splitlines text)).mapM (loads limit)

/-! ### `verify` -/

/-- What `verify` says, with the figures of its message. -/
inductive Verdict
  | broken (index count : Nat)
  | intact (count : Nat) (head : Str)
  deriving DecidableEq, Repr

/-- `rows[-1]["entry_hash"] if rows else "empty"`. -/
def headText (rows : List Row) : Str :=
  match rows.getLast? with
  | none => Str.ofString "empty"
  | some row =>
    match row.get entryKey with
    | some (.str h) => h
    | _ => []

/-- `verify(rows)`; `none` when `first_break` raises. -/
def verify (hash : Str → Str) (rows : List Row) : Option Verdict :=
  (firstBreak hash rows).map fun
    | some index => .broken (index + 1) rows.length
    | none => .intact rows.length ((headText rows).take 19)

/-! ### The lines of a row -/

theorem isBreak_of_plain (h : Plain c) : isBreak c = false := by
  obtain ⟨hlo, hhi⟩ := h
  simp only [isBreak, Bool.or_eq_false_iff, decide_eq_false_iff_not]
  omega

/-- The characters above ASCII that end a line. -/
def tearing : List Nat := [0x85, 0x2028, 0x2029]

theorem isBreak_high (h : 127 ≤ c) : isBreak c = true ↔ c ∈ tearing := by
  simp only [isBreak, tearing, Bool.or_eq_true, decide_eq_true_eq, List.mem_cons, List.not_mem_nil,
    or_false]
  omega

/-- The printed row has no control character. -/
theorem not_mem_canonicalJson (r : Row) (hc : c < 32) : c ∉ canonicalJson r.members := by
  intro h
  rcases mem_dumps _ (readable_sortKeys _ r.readable) h with hplain | ⟨-, hge⟩
  · exact absurd hplain.1 (by omega)
  · omega

/-- **A printed row stands on one line exactly when its strings hold none of the three.** -/
theorem unbroken_iff (r : Row) : (∀ c ∈ canonicalJson r.members, isBreak c = false) ↔
    ∀ c ∈ codes r.toValue, c ∉ tearing := by
  constructor
  · intro h c hc htear
    have hge : 127 ≤ c := by
      simp only [tearing, List.mem_cons, List.not_mem_nil, or_false] at htear
      omega
    have hmem : c ∈ canonicalJson r.members :=
      mem_dumps_of_codes hge _ ((mem_codes_sortKeys _).mpr hc)
    have hbreak := (isBreak_high hge).mpr htear
    rw [h c hmem] at hbreak
    cases hbreak
  · intro h c hc
    rcases mem_dumps _ (readable_sortKeys _ r.readable) hc with hplain | ⟨hcode, hge⟩
    · exact isBreak_of_plain hplain
    · by_contra hbreak
      rw [Bool.not_eq_false] at hbreak
      exact h c ((mem_codes_sortKeys _).mp hcode) ((isBreak_high hge).mp hbreak)

/-- A printed row is a pair of braces with something between them. -/
theorem canonicalJson_braces (ms : Members) : ∃ inner, canonicalJson ms = 123 :: (inner ++ [125]) :=
  ⟨_, rfl⟩

theorem blank_eq_false {line : Str} (h : c ∈ line) (hc : isSpace (Char.ofNat c) = false) :
    Str.blank line = false := by
  rw [Str.blank, List.all_eq_false]
  exact ⟨c, h, by simp [hc]⟩

theorem canonicalJson_nonBlank (ms : Members) : Str.blank (canonicalJson ms) = false := by
  obtain ⟨inner, heq⟩ := canonicalJson_braces ms
  rw [heq]
  exact blank_eq_false List.mem_cons_self (by decide)

/-- A text with a visible character has a line that is not blank. -/
theorem nonBlank_pos {text : Str} (h : 13 ∉ text) (line : Str) (hc : isBreak c = false)
    (hspace : isSpace (Char.ofNat c) = false) (hmem : c ∈ line ∨ c ∈ text) :
    0 < (nonBlank (splitlinesFrom line text)).length := by
  obtain ⟨l, hl, hcl⟩ := mem_splitlinesFrom h line hc hmem
  refine List.length_pos_of_mem (a := l) (List.mem_filter.mpr ⟨hl, ?_⟩)
  rw [blank_eq_false hcl hspace]
  rfl

variable {r : Row}

/-- A row in one line is that line. -/
theorem splitlines_row (h : ∀ c ∈ canonicalJson r.members, isBreak c = false) :
    splitlines (canonicalJson r.members ++ [10]) = [canonicalJson r.members] := by
  rw [splitlines, splitlinesFrom_unbroken h, splitlinesFrom_cons _ _ (by decide), List.nil_append]
  rfl

theorem row_line_pos (r : Row) :
    0 < (nonBlank (splitlines (canonicalJson r.members ++ [10]))).length := by
  obtain ⟨inner, heq⟩ := canonicalJson_braces r.members
  refine nonBlank_pos ?_ [] (c := 123) (by decide) (by decide) (.inr ?_)
  · rw [List.mem_append, not_or]
    exact ⟨not_mem_canonicalJson r (by decide), by decide⟩
  · rw [heq]
    exact List.mem_cons_self

/-- **A torn row gives two lines at least**: one with the opening brace, one with the closing. -/
theorem torn_row_lines (hc : c ∈ canonicalJson r.members) (hbreak : isBreak c = true) :
    1 < (nonBlank (splitlines (canonicalJson r.members ++ [10]))).length := by
  obtain ⟨inner, heq⟩ := canonicalJson_braces r.members
  have hno : 13 ∉ canonicalJson r.members := not_mem_canonicalJson r (by decide)
  -- the text up to the first break, and what is left of it
  obtain ⟨d, hfind⟩ := Option.isSome_iff_exists.mp (List.find?_isSome.mpr ⟨c, hc, hbreak⟩)
  obtain ⟨hd, front, back, hsplit, hfront⟩ := List.find?_eq_some_iff_append.mp hfind
  have hopen : 123 ∈ front := by
    cases front with
    | nil =>
      rw [hsplit, List.nil_append] at heq
      obtain ⟨rfl, -⟩ := List.cons.inj heq
      cases hd
    | cons x front =>
      rw [hsplit, List.cons_append] at heq
      obtain ⟨rfl, -⟩ := List.cons.inj heq
      exact List.mem_cons_self
  have hclose : 125 ∈ back := by
    have hlast : (front ++ d :: back).getLast? = some 125 := by
      rw [← hsplit, heq, ← List.cons_append, List.getLast?_concat]
    rcases List.eq_nil_or_concat back with rfl | ⟨back, x, rfl⟩
    · rw [List.getLast?_concat] at hlast
      obtain rfl := Option.some.inj hlast
      cases hd
    · rw [List.concat_eq_append, ← List.cons_append, ← List.append_assoc,
        List.getLast?_concat] at hlast
      obtain rfl := Option.some.inj hlast
      rw [List.concat_eq_append]
      exact List.mem_append_right _ (List.mem_singleton_self _)
  rw [hsplit] at hno ⊢
  have hne : d ≠ 13 := by
    rintro rfl
    exact hno (List.mem_append_right _ List.mem_cons_self)
  have hback : 13 ∉ back ++ [10] := by
    rw [List.mem_append, not_or]
    exact ⟨fun h => hno (List.mem_append_right _ (List.mem_cons_of_mem _ h)), by decide⟩
  have hrest := nonBlank_pos hback [] (c := 125) (by decide) (by decide)
    (.inr (List.mem_append_left _ hclose))
  rw [splitlines, List.append_assoc, splitlinesFrom_unbroken (fun x hx => by simpa using hfront x hx),
    List.cons_append, splitlinesFrom_cons _ _ hne, if_pos hd, nonBlank, List.filter_cons,
    if_pos (by rw [List.nil_append, blank_eq_false hopen (by decide)]; rfl), List.length_cons]
  exact Nat.lt_add_of_pos_left hrest

/-! ### The lines of a file -/

/-- The text of printed rows. -/
def joined (rows : List Row) : Str := rows.flatMap fun r => canonicalJson r.members ++ [10]

theorem nonBlank_joined_cons (r : Row) (rows : List Row) :
    nonBlank (splitlines (joined (r :: rows))) =
      nonBlank (splitlines (canonicalJson r.members ++ [10])) ++ nonBlank (splitlines (joined rows)) := by
  have happend := splitlinesFrom_append (not_mem_canonicalJson r (c := 13) (by decide)) []
    (joined rows)
  rw [joined, List.flatMap_cons, List.append_assoc, List.singleton_append]
  rw [nonBlank, splitlines, ← joined, happend, List.filter_append]
  rfl

theorem length_le_nonBlank (rows : List Row) :
    rows.length ≤ (nonBlank (splitlines (joined rows))).length := by
  induction rows with
  | nil => exact Nat.zero_le _
  | cons r rows ih =>
    have hpos := row_line_pos r
    rw [nonBlank_joined_cons, List.length_append, List.length_cons]
    omega

/-- **As many lines as rows only if no row is torn.** -/
theorem unbroken_of_length {rows : List Row}
    (h : (nonBlank (splitlines (joined rows))).length = rows.length) :
    ∀ r ∈ rows, ∀ c ∈ canonicalJson r.members, isBreak c = false := by
  induction rows with
  | nil => simp
  | cons r rows ih =>
    have hpos := row_line_pos r
    have hle := length_le_nonBlank rows
    rw [nonBlank_joined_cons, List.length_append, List.length_cons] at h
    intro r' hr' c hc
    rcases List.mem_cons.mp hr' with rfl | hr'
    · by_contra hbreak
      have htorn := torn_row_lines hc (by simpa using hbreak)
      omega
    · exact ih (by omega) r' hr' c hc

/-- Untorn rows are read line by line. -/
theorem nonBlank_joined {rows : List Row}
    (h : ∀ r ∈ rows, ∀ c ∈ canonicalJson r.members, isBreak c = false) :
    nonBlank (splitlines (joined rows)) = rows.map fun r => canonicalJson r.members := by
  induction rows with
  | nil => rfl
  | cons r rows ih =>
    rw [nonBlank_joined_cons, splitlines_row (h r List.mem_cons_self),
      ih fun r' hr' => h r' (List.mem_cons_of_mem _ hr'), nonBlank, List.filter_cons,
      canonicalJson_nonBlank]
    rfl

/-- What `export` needs of a row. -/
def Writable (limit : Nat) (r : Row) : Prop :=
  nesting r.toValue ≤ limit ∧ r.toValue.encodable = true

theorem encodable_joined (rows : List Row) :
    Str.encodable (joined rows) = true ↔ ∀ r ∈ rows, r.toValue.encodable = true := by
  have hrow : ∀ r : Row, Str.encodable (canonicalJson r.members ++ [10]) = r.toValue.encodable := by
    intro r
    rw [Str.encodable, List.all_append, ← Str.encodable, canonicalJson, encodable_dumps,
      encodable_sortKeys]
    exact Bool.and_true _
  induction rows with
  | nil => simp [joined, Str.encodable]
  | cons r rows ih =>
    rw [joined, List.flatMap_cons, Str.encodable, List.all_append, ← Str.encodable,
      ← Str.encodable, hrow, ← joined, Bool.and_eq_true, List.forall_mem_cons]
    exact and_congr_right fun _ => ih

theorem mapM_canonicalLine {limit : Nat} {rows : List Row} {lines : List Str} :
    rows.mapM (canonicalLine limit) = some lines ↔
      (∀ r ∈ rows, nesting r.toValue ≤ limit) ∧ lines = rows.map fun r => canonicalJson r.members := by
  induction rows generalizing lines with
  | nil => simp [eq_comm]
  | cons r rows ih =>
    rw [List.mapM_cons, canonicalLine, List.forall_mem_cons]
    by_cases hr : nesting r.toValue ≤ limit
    · rw [if_pos hr]
      constructor
      · intro h
        obtain ⟨line, hline, hmore⟩ := Option.bind_eq_some_iff.mp h
        obtain ⟨lines', hlines', heq⟩ := Option.bind_eq_some_iff.mp hmore
        obtain rfl := Option.some.inj hline
        obtain ⟨hrows, rfl⟩ := ih.mp hlines'
        exact ⟨⟨hr, hrows⟩, (Option.some.inj heq).symm⟩
      · intro h
        obtain ⟨⟨-, hrows⟩, rfl⟩ := h
        exact Option.bind_eq_some_iff.mpr ⟨_, rfl,
          Option.bind_eq_some_iff.mpr ⟨_, ih.mpr ⟨hrows, rfl⟩, rfl⟩⟩
    · rw [if_neg hr]
      constructor
      · intro h
        cases h
      · intro h
        exact absurd h.1.1 hr

/-- **What `export` writes.** -/
theorem exportText_eq_some {limit : Nat} {rows : List Row} {text : Str} :
    exportText limit rows = some text ↔ (∀ r ∈ rows, Writable limit r) ∧ text = joined rows := by
  have hjoined : (rows.map fun r => canonicalJson r.members).flatMap (fun line => line ++ [10]) =
      joined rows := List.flatMap_map ..
  constructor
  · intro h
    unfold exportText at h
    split at h
    · cases h
    · rename_i lines hlines
      obtain ⟨hnest, rfl⟩ := Iff.mp mapM_canonicalLine hlines
      dsimp only at h
      rw [hjoined] at h
      split at h
      · rename_i henc
        have henc' := (encodable_joined rows).mp henc
        exact ⟨fun r hr => ⟨hnest r hr, henc' r hr⟩, (Option.some.inj h).symm⟩
      · cases h
  · intro h
    obtain ⟨hrows, rfl⟩ := h
    have hlines := Iff.mpr mapM_canonicalLine ⟨fun r hr => (hrows r hr).1, rfl⟩
    have henc := (encodable_joined rows).mpr fun r hr => (hrows r hr).2
    rw [exportText, hlines]
    dsimp only
    rw [hjoined, if_pos henc]

/-! ### Rows that are the same -/

theorem Row.Same.isText_eq {r' : Row} (h : r.Same r') (s key : Str) :
    isText s (r.get key) = isText s (r'.get key) := by
  rw [Bool.eq_iff_iff, isText_iff, isText_iff]
  exact ⟨SameDict.lookup_str h r.nodup r'.nodup, SameDict.lookup_str h.symm r'.nodup r.nodup⟩

variable {rows' : List Row}

theorem headText_same {rows : List Row} (h : List.Forall₂ Row.Same rows rows') :
    headText rows = headText rows' := by
  have hreverse := List.forall₂_reverse_iff.mpr h
  rw [headText, headText, List.getLast?_eq_head?_reverse, List.getLast?_eq_head?_reverse]
  revert hreverse
  generalize rows.reverse = xs
  generalize rows'.reverse = ys
  intro hreverse
  cases hreverse with
  | nil => rfl
  | @cons r r' _ _ hsame _ =>
    dsimp only [List.head?_cons]
    by_cases htext : ∃ s, r.get entryKey = some (.str s)
    · obtain ⟨s, hs⟩ := htext
      rw [hs, isText_iff.mp ((hsame.isText_eq s entryKey).symm.trans (isText_iff.mpr hs))]
    · have htext' : ∀ s, r'.get entryKey ≠ some (.str s) := fun s hs =>
        htext ⟨s, isText_iff.mp ((hsame.isText_eq s entryKey).trans (isText_iff.mpr hs))⟩
      split
      · rename_i s hs
        exact absurd ⟨s, hs⟩ htext
      · rfl

section

variable {hash : Str → Str}

theorem Row.Same.expected_eq {r' : Row} (h : r.Same r') (prev : Str) :
    r.expected hash prev = r'.expected hash prev := by
  have hbody := SameDict.filter_ne h entryKey
  have hinsert := SameDict.insertMember hbody r.readable_body.1 r'.readable_body.1 prevKey (.str prev)
  have hnodup := insertMember_nodup prevKey (.str prev) r.readable_body.1
  rw [Row.expected, Row.expected, contentHash, contentHash, canonicalJson, canonicalJson,
    Row.body, Row.body, hinsert.sortKeys_eq hnodup]

/-- **The checker says the same about rows that are the same.** -/
theorem firstBreakFrom_same {rows : List Row} (h : List.Forall₂ Row.Same rows rows') (prev : Str)
    (index : Nat) : firstBreakFrom hash prev index rows = firstBreakFrom hash prev index rows' := by
  induction h generalizing prev index with
  | nil => rfl
  | cons hsame _ ih =>
    rw [firstBreakFrom, firstBreakFrom, hsame.expected_eq]
    split
    · rfl
    · rw [hsame.isText_eq, hsame.isText_eq, ih]

theorem verify_same {rows : List Row} (h : List.Forall₂ Row.Same rows rows') :
    verify hash rows = verify hash rows' := by
  have hbreak : firstBreak hash rows = firstBreak hash rows' := firstBreakFrom_same h _ _
  rw [verify, verify, hbreak, h.length_eq, headText_same h]

end

/-! ### The round trip -/

/-- The file of the rows is read back as the rows, in order, and the checker says the same. -/
def RoundTrips (hash : Str → Str) (limit : Nat) (rows : List Row) : Prop :=
  ∃ text loaded, exportText limit rows = some text ∧
    load limit text = .ok (loaded.map Row.toValue) ∧ List.Forall₂ Row.Same rows loaded ∧
    verify hash loaded = verify hash rows

/-- The row as the decoder builds it: its keys in order. -/
def Row.sorted (r : Row) : Row where
  members := (sortMembers r.members).insertionSort fun a b => a.1 ≤ b.1
  readable := readable_sortKeys r.toValue r.readable

theorem Row.same_sorted (r : Row) : r.Same r.sorted :=
  sameDict_of_sortKeys_eq (sortKeys_sortKeys r.toValue).symm

theorem loads_canonicalJson {limit : Nat} (h : nesting r.toValue ≤ limit) :
    loads limit (canonicalJson r.members) = .ok r.sorted.toValue :=
  loads_dumps (readable_sortKeys _ r.readable) (le_trans (nesting_sortKeys _) h)

theorem mapM_loads {limit : Nat} {rows : List Row} (h : ∀ r ∈ rows, nesting r.toValue ≤ limit) :
    (rows.map fun r => canonicalJson r.members).mapM (loads limit) =
      .ok ((rows.map Row.sorted).map Row.toValue) := by
  induction rows with
  | nil => rfl
  | cons r rows ih =>
    rw [List.map_cons, List.mapM_cons, loads_canonicalJson (h r List.mem_cons_self),
      ih fun r' hr' => h r' (List.mem_cons_of_mem _ hr')]
    rfl

theorem mapM_length {ε α β : Type} {f : α → Except ε β} {xs : List α} {ys : List β}
    (h : xs.mapM f = .ok ys) : ys.length = xs.length :=
  (mapM_eq_ok.mp h).length_eq.symm

/-- **A timeline is read back exactly when it can be written and no string of it holds U+0085, U+2028
or U+2029.** -/
theorem timeline_round_trips (hash : Str → Str) (limit : Nat) (rows : List Row) :
    RoundTrips hash limit rows ↔
      ∀ r ∈ rows, Writable limit r ∧ ∀ c ∈ codes r.toValue, c ∉ tearing := by
  constructor
  · intro h r hr
    obtain ⟨text, loaded, hexport, hload, hsame, -⟩ := h
    obtain ⟨hwritable, rfl⟩ := exportText_eq_some.mp hexport
    -- one decoded value a line, one loaded row a row
    have hcount : (nonBlank (splitlines (joined rows))).length = rows.length := by
      rw [← mapM_length hload, List.length_map, hsame.length_eq]
    exact ⟨hwritable r hr, (unbroken_iff r).mp (unbroken_of_length hcount r hr)⟩
  · intro h
    have hunbroken : ∀ r ∈ rows, ∀ c ∈ canonicalJson r.members, isBreak c = false :=
      fun r hr => (unbroken_iff r).mpr (h r hr).2
    have hsame : List.Forall₂ Row.Same rows (rows.map Row.sorted) := by
      rw [List.forall₂_map_right_iff]
      exact List.forall₂_same.mpr fun r _ => r.same_sorted
    refine ⟨joined rows, rows.map Row.sorted, ?_, ?_, hsame, (verify_same hsame).symm⟩
    · exact exportText_eq_some.mpr ⟨fun r hr => (h r hr).1, rfl⟩
    · rw [load, nonBlank_joined hunbroken]
      exact mapM_loads fun r hr => (h r hr).1.1

/-- An event whose payload quotes a text with a line separator. -/
def quoting (c : Nat) : Entry :=
  ⟨Str.ofString "AUD-1", Str.ofString "step.ran", Str.ofString "a", none, none,
    [(Str.ofString "reason", .str [97, c, 98])], Str.ofString "t", ⟨List.nodup_singleton _, trivial, trivial⟩⟩

/-- The log of one event with a line separator in its reason. -/
def separated : List Row := [quoting 0x2028].foldl (record id) []

/-- The log is intact, its file is written, and `load` raises. -/
theorem separated_not_read_back : firstBreak id separated = some none ∧
    (exportText 100 separated).map (fun text => (load 100 text).isOk) = some false ∧
    ¬ RoundTrips id 100 separated := by
  refine ⟨by decide +kernel, by decide +kernel, fun h => ?_⟩
  obtain ⟨text, loaded, hexport, hload, -⟩ := h
  have hfails : (exportText 100 separated).map (fun text => (load 100 text).isOk) = some false := by
    decide +kernel
  rw [hexport, Option.map_some, hload] at hfails
  cases hfails

end RiskOps.Storage
