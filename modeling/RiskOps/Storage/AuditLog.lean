import RiskOps.Lib.PyJsonRound

/-!
# RiskOps.Storage.AuditLog — the hash-chained audit log

Model of `storage.audit_log`. `record` appends an event that commits to the hash of the one before
it; `first_break` walks a list of plain dicts and names the first whose hash or link does not hold.

**The head fixes the chain.** When the digest has no collisions, two chains without a break that
have the same length and the same last hash hold the same rows. A change that keeps length and head
is therefore reported, at the latest at the row after the last one that was changed.

**Raising.** A text with a lone surrogate has no UTF-8 bytes: `record` raises and appends nothing,
`first_break` raises. The event's id and time are arguments of `record`.
-/

namespace RiskOps.Storage

open RiskOps.Lib.PyJson
open RiskOps.Lib (Str)

/-! ### Rows -/

abbrev Members := List (Str × Value)

/-- A row of a chain: a dict of JSON values. -/
structure Row where
  members : Members
  readable : Readable (.obj members)

def entryKey : Str := Str.ofString "entry_hash"

def prevKey : Str := Str.ofString "prev_hash"

/-- `GENESIS`. -/
def genesis : Str := Str.ofString "sha256:0000000000000000000000000000000000000000000000000000000000000000"

namespace Row

/-- `row.get(key)`. -/
def get (r : Row) (key : Str) : Option Value := r.members.lookup key

/-- The row without its hash. -/
def body (r : Row) : Members := r.members.filter fun m => m.1 ≠ entryKey

end Row

/-- `value == s`. -/
def isText (s : Str) : Option Value → Bool
  | some (.str t) => t = s
  | _ => false

/-- `canonical_json(obj)` of a dict. -/
def canonicalJson (ms : Members) : Str := dumps (sortKeys (.obj ms))

section

-- `content_hash` of the UTF-8 bytes of a text
variable (hash : Str → Str)

/-- `content_hash(canonical_json(body).encode("utf-8"))`; `none` when it raises. -/
def contentHash (ms : Members) : Option Str :=
  if Str.encodable (canonicalJson ms) then some (hash (canonicalJson ms)) else none

/-! ### `first_break` -/

/-- The hash a row should have behind `prev`. -/
def Row.expected (r : Row) (prev : Str) : Option Str :=
  contentHash hash (insertMember prevKey (.str prev) r.body)

/-- The loop of `first_break`. -/
def firstBreakFrom : Str → Nat → List Row → Option (Option Nat)
  | _, _, [] => some none
  | prev, index, row :: rows =>
    match row.expected hash prev with
    | none => none
    | some expected =>
      if !isText expected (row.get entryKey) || !isText prev (row.get prevKey) then some (some index)
      else firstBreakFrom expected (index + 1) rows

/-- `first_break(rows)`: outer `none` when it raises. -/
def firstBreak (rows : List Row) : Option (Option Nat) := firstBreakFrom hash genesis 0 rows

/-! ### `AuditLog.record` -/

/-- The arguments of `record`, with the id and the time it takes. -/
structure Entry where
  eventId : Str
  eventType : Str
  actor : Str
  flowId : Option Str
  subjectRef : Option Str
  payload : Members
  recordedAt : Str
  payload_readable : Readable (.obj payload)

def optionStr : Option Str → Value
  | some s => .str s
  | none => .null

/-- The body of an event behind `prev`. -/
def Entry.body (e : Entry) (prev : Str) : Members :=
  [(Str.ofString "event_id", .str e.eventId), (Str.ofString "event_type", .str e.eventType),
    (Str.ofString "actor", .str e.actor), (Str.ofString "flow_id", optionStr e.flowId),
    (Str.ofString "subject_ref", optionStr e.subjectRef), (Str.ofString "payload", .obj e.payload),
    (Str.ofString "recorded_at", .str e.recordedAt), (prevKey, .str prev)]

theorem readable_optionStr (s : Option Str) : Readable (optionStr s) := by
  cases s with
  | none => trivial
  | some s => trivial

theorem readable_row (e : Entry) (prev h : Str) :
    Readable (.obj (e.body prev ++ [(entryKey, .str h)])) := by
  refine ⟨?_, ?_⟩
  · simp only [Entry.body, List.cons_append, List.nil_append, List.map_cons, List.map_nil]
    decide
  · exact ⟨trivial, trivial, trivial, readable_optionStr _, readable_optionStr _,
      e.payload_readable, trivial, trivial, trivial, trivial⟩

/-- The event of an entry behind `prev`, with its hash. -/
def Entry.row (e : Entry) (prev h : Str) : Row :=
  ⟨e.body prev ++ [(entryKey, .str h)], readable_row e prev h⟩

/-- `self._events[-1].entry_hash if self._events else GENESIS`. -/
def lastHash (rows : List Row) : Str :=
  match rows.getLast?.bind fun r => r.get entryKey with
  | some (.str h) => h
  | _ => genesis

/-- `record(event_type, actor, …)`. -/
def record (log : List Row) (e : Entry) : List Row :=
  match contentHash hash (e.body (lastHash log)) with
  | some h => log ++ [e.row (lastHash log) h]
  | none => log

end

/-! ### Chains without a break -/

variable {rows' : List Row}

section Chains

variable {hash : Str → Str}

/-- Every row has the hash it should have and names the one before it. -/
def Intact (hash : Str → Str) : Str → List Row → Prop
  | _, [] => True
  | prev, row :: rows => ∃ h, row.expected hash prev = some h ∧ row.get entryKey = some (.str h) ∧
      row.get prevKey = some (.str prev) ∧ Intact hash h rows

/-- The hash a chain ends with. -/
def endHash : Str → List Row → Str
  | prev, [] => prev
  | prev, row :: rows => endHash (match row.get entryKey with | some (.str h) => h | _ => prev) rows

variable {s : Str}

theorem isText_iff {v : Option Value} : isText s v = true ↔ v = some (.str s) := by
  unfold isText
  split
  · rename_i t
    simp
  · rename_i hne
    simp only [Bool.false_eq_true, false_iff]
    rintro rfl
    exact hne s rfl

variable {prev : Str}

/-- What the loop says about the rows it has passed. -/
theorem firstBreakFrom_spec {index : Nat} {rows : List Row} {r : Option Nat}
    (h : firstBreakFrom hash prev index rows = some r) :
    (r = none → Intact hash prev rows) ∧
      ∀ i, r = some i → index ≤ i ∧ Intact hash prev (rows.take (i - index)) := by
  induction rows generalizing prev index with
  | nil =>
    obtain rfl := Option.some.inj h
    refine ⟨fun _ => trivial, ?_⟩
    intro i hi
    cases hi
  | cons row rows ih =>
    rw [firstBreakFrom] at h
    split at h
    · cases h
    · rename_i expected hexpected
      split at h
      · obtain rfl := Option.some.inj h
        refine ⟨?_, fun i hi => ?_⟩
        · intro hnone
          cases hnone
        obtain rfl := Option.some.inj hi
        exact ⟨le_refl _, by rw [Nat.sub_self]; trivial⟩
      · rename_i hgood
        simp only [Bool.or_eq_true, Bool.not_eq_true', not_or, Bool.not_eq_false] at hgood
        have hentry := Iff.mp isText_iff hgood.1
        have hprev := Iff.mp isText_iff hgood.2
        obtain ⟨hnone, hsome⟩ := ih h
        refine ⟨fun hr => ⟨expected, hexpected, hentry, hprev, hnone hr⟩, fun i hi => ?_⟩
        obtain ⟨hle, htake⟩ := hsome i hi
        refine ⟨by omega, ?_⟩
        rw [show i - index = (i - (index + 1)) + 1 by omega, List.take_succ_cons]
        exact ⟨expected, hexpected, hentry, hprev, htake⟩

theorem firstBreakFrom_of_intact {index : Nat} {rows : List Row} (h : Intact hash prev rows) :
    firstBreakFrom hash prev index rows = some none := by
  induction rows generalizing prev index with
  | nil => rfl
  | cons row rows ih =>
    obtain ⟨expected, hexpected, hentry, hprev, hrows⟩ := h
    rw [firstBreakFrom, hexpected]
    dsimp only
    rw [(Iff.mpr isText_iff) hentry, Iff.mpr isText_iff hprev]
    exact ih hrows

theorem Intact.take {rows : List Row} (h : Intact hash prev rows) (n : Nat) :
    Intact hash prev (rows.take n) := by
  induction rows generalizing prev n with
  | nil => rw [List.take_nil]; trivial
  | cons row rows ih =>
    cases n with
    | zero => trivial
    | succ n =>
      obtain ⟨expected, hexpected, hentry, hprev, hrows⟩ := h
      exact ⟨expected, hexpected, hentry, hprev, ih hrows n⟩

theorem endHash_append (prev : Str) (rows rows' : List Row) :
    endHash prev (rows ++ rows') = endHash (endHash prev rows) rows' := by
  induction rows generalizing prev with
  | nil => rfl
  | cons row rows ih => exact ih _

theorem intact_append {rows : List Row} :
    Intact hash prev (rows ++ rows') ↔
      Intact hash prev rows ∧ Intact hash (endHash prev rows) rows' := by
  induction rows generalizing prev with
  | nil => simp [Intact, endHash]
  | cons row rows ih =>
    rw [List.cons_append]
    constructor
    · intro h
      obtain ⟨h', hexpected, hentry, hprev, hrows⟩ := h
      obtain ⟨hl, hr⟩ := ih.mp hrows
      rw [endHash, hentry]
      exact ⟨⟨h', hexpected, hentry, hprev, hl⟩, hr⟩
    · intro h
      obtain ⟨⟨h', hexpected, hentry, hprev, hl⟩, hr⟩ := h
      rw [endHash, hentry] at hr
      exact ⟨h', hexpected, hentry, hprev, ih.mpr ⟨hl, hr⟩⟩

theorem endHash_concat (prev : Str) (rows : List Row) {row : Row}
    (h : row.get entryKey = some (.str s)) : endHash prev (rows ++ [row]) = s := by
  rw [endHash_append, endHash, h]
  rfl

/-! ### Recorded chains -/

theorem Entry.lookup_prev (e : Entry) (prev h : Str) :
    (e.row prev h).get prevKey = some (.str prev) := by
  simp only [Row.get, Entry.row, Entry.body]
  rfl

theorem Entry.lookup_entry (e : Entry) (prev h : Str) :
    (e.row prev h).get entryKey = some (.str h) := by
  simp only [Row.get, Entry.row, Entry.body]
  rfl

/-- The checker hashes what `record` hashed. -/
theorem Entry.expected_row (e : Entry) (prev h : Str) :
    (e.row prev h).expected hash prev = contentHash hash (e.body prev) := by
  have hbody : (e.row prev h).body = e.body prev := by
    simp only [Row.body, Entry.row, Entry.body, List.filter_append, List.filter_cons]
    rfl
  have hinsert : insertMember prevKey (.str prev) (e.body prev) = e.body prev := by
    simp only [Entry.body, insertMember]
    rfl
  rw [Row.expected, hbody, hinsert]

theorem lastHash_eq_endHash (rows : List Row) (h : Intact hash genesis rows) :
    lastHash rows = endHash genesis rows := by
  rcases List.eq_nil_or_concat rows with rfl | ⟨rows, row, rfl⟩
  · rfl
  · rw [List.concat_eq_append] at h ⊢
    obtain ⟨-, h', -, hentry, -⟩ := Iff.mp intact_append h
    rw [lastHash, List.getLast?_concat, endHash_concat _ _ hentry]
    simp only [Option.bind_some, hentry]

theorem intact_record {log : List Row} (e : Entry) (h : Intact hash genesis log) :
    Intact hash genesis (record hash log e) := by
  unfold record
  split
  · rename_i h' hhash
    refine Iff.mpr intact_append ⟨h, ?_⟩
    rw [← lastHash_eq_endHash log h]
    exact ⟨h', by rw [e.expected_row]; exact hhash, e.lookup_entry _ _, e.lookup_prev _ _, trivial⟩
  · exact h

theorem intact_recorded (entries : List Entry) {log : List Row} (h : Intact hash genesis log) :
    Intact hash genesis (entries.foldl (record hash) log) := by
  induction entries generalizing log with
  | nil => exact h
  | cons e entries ih => exact ih (intact_record e h)

/-! ### The head fixes the chain -/

/-- The rows hold the same members. -/
def Row.Same (r r' : Row) : Prop := SameDict r.members r'.members

theorem Row.nodup (r : Row) : (r.members.map Prod.fst).Nodup := r.readable.1

theorem Row.readable_body (r : Row) : Readable (.obj r.body) := by
  refine ⟨r.nodup.sublist (List.filter_sublist.map Prod.fst), ?_⟩
  rw [readableMembers_iff]
  intro m hm
  exact readableMembers_iff.mp r.readable.2 m (List.mem_of_mem_filter hm)

theorem Row.lookup_body (r : Row) (h : r.get prevKey = some (.str prev)) :
    r.body.lookup prevKey = some (.str prev) := by
  rw [Row.body, lookup_filter_ne (by decide)]
  exact h

/-- The hash of a row that names its predecessor is the hash of its body. -/
theorem Row.expected_eq {r : Row} {h : Str} (hprev : r.get prevKey = some (.str prev))
    (hexpected : r.expected hash prev = some h) : h = hash (canonicalJson r.body) := by
  rw [Row.expected, insertMember_self (r.lookup_body hprev), contentHash] at hexpected
  split at hexpected
  · exact (Option.some.inj hexpected).symm
  · cases hexpected

/-- **Two rows with the same hash are the same, and so are the hashes before them.** -/
theorem same_of_hash (hinj : Function.Injective hash) {r r' : Row} {prev' h : Str}
    (hr : r.expected hash prev = some h) (hr' : r'.expected hash prev' = some h)
    (hentry : r.get entryKey = some (.str h)) (hentry' : r'.get entryKey = some (.str h))
    (hprev : r.get prevKey = some (.str prev)) (hprev' : r'.get prevKey = some (.str prev')) :
    r.Same r' ∧ prev = prev' := by
  have htext : canonicalJson r.body = canonicalJson r'.body := by
    apply hinj
    rw [← Row.expected_eq hprev hr, ← Row.expected_eq hprev' hr']
  have hbody : SameDict r.body r'.body :=
    sameDict_of_sortKeys_eq (sortKeys_eq_of_dumps_eq r.readable_body r'.readable_body htext)
  have hsame : r.Same r' := SameDict.of_lookup r.nodup r'.nodup hentry hentry' hbody
  refine ⟨hsame, ?_⟩
  have hlookup := SameDict.lookup_str hsame r.nodup r'.nodup hprev
  have heq := Option.some.inj (hlookup.symm.trans hprev')
  exact Value.str.inj heq

/-- **The head fixes the chain.** -/
theorem same_of_endHash (hinj : Function.Injective hash) (rows : List Row) :
    ∀ rows' : List Row, rows.length = rows'.length → Intact hash genesis rows →
      Intact hash genesis rows' → endHash genesis rows = endHash genesis rows' →
      List.Forall₂ Row.Same rows rows' := by
  -- from the last row backwards: its hash gives the row and the hash before it
  induction rows using List.reverseRecOn with
  | nil =>
    intro rows' hlen _ _ _
    rw [List.length_nil, eq_comm, List.length_eq_zero_iff] at hlen
    rw [hlen]
    exact .nil
  | append_singleton rows row ih =>
    intro rows' hlen h h' hend
    rcases List.eq_nil_or_concat rows' with rfl | ⟨rows', row', rfl⟩
    · simp at hlen
    · rw [List.concat_eq_append] at hlen h' hend ⊢
      obtain ⟨hrows, h₁, hexpected, hentry, hprev, -⟩ := intact_append.mp h
      obtain ⟨hrows', h₂, hexpected', hentry', hprev', -⟩ := intact_append.mp h'
      rw [endHash_concat _ _ hentry, endHash_concat _ _ hentry'] at hend
      subst hend
      obtain ⟨hsame, hbefore⟩ := same_of_hash hinj hexpected hexpected' hentry hentry' hprev hprev'
      have hlen' : rows.length = rows'.length := by simpa using hlen
      exact List.rel_append (ih rows' hlen' hrows hrows' hbefore) (.cons hsame .nil)

/-! ### Where a change is reported -/

/-- The last `entry_hash` of a list. -/
def head (rows : List Row) : Option Value := rows.getLast?.bind fun r => r.get entryKey

/-- Position `p` holds the row it held, or is behind the end. -/
def KeptAt (rows rows' : List Row) (p : Nat) : Prop :=
  ∀ r r', rows[p]? = some r → rows'[p]? = some r' → r.Same r'

theorem endHash_eq_of_getLast? {rows : List Row} {row : Row} (h : rows.getLast? = some row)
    (hentry : row.get entryKey = some (.str s)) (prev : Str) : endHash prev rows = s := by
  rcases List.eq_nil_or_concat rows with rfl | ⟨rows, last, rfl⟩
  · cases h
  · rw [List.concat_eq_append] at h ⊢
    rw [List.getLast?_concat] at h
    obtain rfl := Option.some.inj h
    exact endHash_concat prev rows hentry

theorem Intact.entry_of_getLast? {rows : List Row} {row : Row} (h : Intact hash prev rows)
    (hlast : rows.getLast? = some row) : ∃ s, row.get entryKey = some (.str s) := by
  rcases List.eq_nil_or_concat rows with rfl | ⟨rows, last, rfl⟩
  · cases hlast
  · rw [List.concat_eq_append] at h hlast
    rw [List.getLast?_concat] at hlast
    obtain rfl := Option.some.inj hlast
    obtain ⟨-, s, -, hentry, -⟩ := intact_append.mp h
    exact ⟨s, hentry⟩

/-- Two chains of the same length whose last rows have the same hash are the same. -/
theorem same_of_last (hinj : Function.Injective hash) {rows : List Row}
    (hlen : rows.length = rows'.length) (h : Intact hash genesis rows)
    (h' : Intact hash genesis rows') (hhead : head rows = head rows') :
    List.Forall₂ Row.Same rows rows' := by
  refine same_of_endHash hinj rows rows' hlen h h' ?_
  cases hlast : rows.getLast? with
  | none =>
    rw [List.getLast?_eq_none_iff] at hlast
    subst hlast
    rw [List.length_nil, eq_comm, List.length_eq_zero_iff] at hlen
    rw [hlen]
  | some row =>
    obtain ⟨s, hentry⟩ := h.entry_of_getLast? hlast
    cases hlast' : rows'.getLast? with
    | none =>
      rw [List.getLast?_eq_none_iff] at hlast'
      subst hlast'
      rw [List.length_nil, List.length_eq_zero_iff] at hlen
      subst hlen
      cases hlast
    | some row' =>
      have hentry' : row'.get entryKey = some (.str s) := by
        have hbind := hhead
        rw [head, head, hlast, hlast', Option.bind_some, Option.bind_some, hentry] at hbind
        exact hbind.symm
      rw [endHash_eq_of_getLast? hlast hentry, endHash_eq_of_getLast? hlast' hentry']

/-- The heads of two lists agree at a row that is kept. -/
theorem head_take_eq {rows : List Row} {q : Nat} (hlen : rows.length = rows'.length)
    (hhead : head rows = head rows') (h : Intact hash genesis rows) (hkept : KeptAt rows rows' q) :
    head (rows.take (q + 1)) = head (rows'.take (q + 1)) := by
  by_cases hq : q < rows.length
  · have hq' : q < rows'.length := hlen ▸ hq
    have hlast : (rows.take (q + 1)).getLast? = some rows[q] := by
      rw [List.getLast?_take]
      simp [hq]
    have hlast' : (rows'.take (q + 1)).getLast? = some rows'[q] := by
      rw [List.getLast?_take]
      simp [hq']
    obtain ⟨s, hentry⟩ := (h.take (q + 1)).entry_of_getLast? hlast
    have hsame := hkept _ _ (List.getElem?_eq_getElem hq) (List.getElem?_eq_getElem hq')
    have hentry' := SameDict.lookup_str hsame (Row.nodup _) (Row.nodup _) hentry
    rw [head, head, hlast, hlast', Option.bind_some, Option.bind_some, hentry]
    exact hentry'.symm
  · rw [List.take_of_length_le (by omega), List.take_of_length_le (by omega)]
    exact hhead

end Chains

/-- **Recorded chains have no break, the head fixes a chain, and a change that keeps length and head
is reported at the latest at the first row behind it that is kept.** -/
theorem audit_chain_detects {hash : Str → Str} (hinj : Function.Injective hash) :
    (∀ entries : List Entry, firstBreak hash (entries.foldl (record hash) []) = some none) ∧
    (∀ rows rows' : List Row, firstBreak hash rows = some none → firstBreak hash rows' = some none →
      rows.length = rows'.length → head rows = head rows' → List.Forall₂ Row.Same rows rows') ∧
    (∀ (rows rows' : List Row) (r : Option Nat) (p q : Nat), firstBreak hash rows = some none →
      firstBreak hash rows' = some r → rows.length = rows'.length → head rows = head rows' →
      ¬ KeptAt rows rows' p → p < q → KeptAt rows rows' q → ∃ i, r = some i ∧ i ≤ q) := by
  refine ⟨fun entries => ?_, fun rows rows' h h' hlen hhead => ?_,
    fun rows rows' r p q h h' hlen hhead hchange hpq hkept => ?_⟩
  · exact firstBreakFrom_of_intact (intact_recorded entries trivial)
  · exact same_of_last hinj hlen ((firstBreakFrom_spec h).1 rfl) ((firstBreakFrom_spec h').1 rfl) hhead
  · have hintact := (firstBreakFrom_spec h).1 rfl
    by_contra hlate
    -- without a break up to the kept row, the two prefixes are the same chain
    have hprefix : Intact hash genesis (rows'.take (q + 1)) := by
      cases r with
      | none => exact ((firstBreakFrom_spec h').1 rfl).take _
      | some i =>
        have hi : q < i := by
          by_contra hle
          exact hlate ⟨i, rfl, by omega⟩
        have htake := ((firstBreakFrom_spec h').2 i rfl).2.take (q + 1)
        rwa [List.take_take, Nat.sub_zero, min_eq_left (by omega)] at htake
    have hsame := same_of_last hinj (by simp [hlen]) (hintact.take (q + 1)) hprefix
      (head_take_eq hlen hhead hintact hkept)
    refine hchange fun row row' hrow hrow' => ?_
    have hget : (rows.take (q + 1))[p]? = some row := by
      rw [List.getElem?_take_of_lt (by omega), hrow]
    have hget' : (rows'.take (q + 1))[p]? = some row' := by
      rw [List.getElem?_take_of_lt (by omega), hrow']
    obtain ⟨hp, hval⟩ := List.getElem?_eq_some_iff.mp hget
    obtain ⟨hp', hval'⟩ := List.getElem?_eq_some_iff.mp hget'
    have hrel := hsame.get hp hp'
    rwa [List.get_eq_getElem, List.get_eq_getElem, hval, hval'] at hrel

/-! ### A forged chain -/

/-- An event by `actor` with an empty payload. -/
def eventBy (actor : String) : Entry :=
  ⟨Str.ofString "AUD-1", Str.ofString "step.ran", Str.ofString actor, none, none, [],
    Str.ofString "t", ⟨List.nodup_nil, trivial⟩⟩

def actorKey : Str := Str.ofString "actor"

/-- The log of three events, with the text itself for its digest. -/
def logged : List Row := [eventBy "a", eventBy "b", eventBy "c"].foldl (record id) []

/-- The first event is another one, the second is recorded anew behind it, the third is kept. -/
def forged : List Row :=
  [eventBy "x", eventBy "b"].foldl (record id) [] ++ logged.drop 2

theorem not_same_of_actor {rows : List Row} {p : Nat} {a b : Str} (hne : a ≠ b)
    (h : rows[p]?.map (fun r => isText a (r.get actorKey)) = some true)
    (h' : rows'[p]?.map (fun r => isText b (r.get actorKey)) = some true) :
    ∃ r r', rows[p]? = some r ∧ rows'[p]? = some r' ∧ ¬ r.Same r' := by
  obtain ⟨r, hr, hactor⟩ := Option.map_eq_some_iff.mp h
  obtain ⟨r', hr', hactor'⟩ := Option.map_eq_some_iff.mp h'
  refine ⟨r, r', hr, hr', fun hsame => hne ?_⟩
  have hlookup := SameDict.lookup_str hsame r.nodup r'.nodup (isText_iff.mp hactor)
  exact Value.str.inj (Option.some.inj (hlookup.symm.trans (isText_iff.mp hactor')))

theorem head_append_drop {rows front : List Row} {n : Nat} (h : n < rows.length) :
    head (front ++ rows.drop n) = head rows := by
  have hne : rows.drop n ≠ [] := by
    simpa using h
  rw [head, head, List.getLast?_append_of_ne_nil _ hne, List.getLast?_drop, if_neg (by omega)]

/-- A forger who records again from the first event on is found only at the last row. -/
theorem recorded_again_reported_late : Function.Injective (id : Str → Str) ∧
    firstBreak id logged = some none ∧ logged.length = forged.length ∧ head logged = head forged ∧
    (∃ r r', logged[0]? = some r ∧ forged[0]? = some r' ∧ ¬ r.Same r') ∧
    firstBreak id forged = some (some 2) := by
  refine ⟨Function.injective_id, by decide +kernel, by decide +kernel, ?_, ?_, by decide +kernel⟩
  · exact (head_append_drop (by decide +kernel)).symm
  · exact not_same_of_actor (a := Str.ofString "a") (b := Str.ofString "x") (by decide)
      (by decide +kernel) (by decide +kernel)

/-- The forged chain is reported at the row it keeps. -/
theorem changed_row_reported : firstBreak id forged = some (some 2) ∧
    ∃ i, (some 2 : Option Nat) = some i ∧ i ≤ 2 := by
  have hbreak : firstBreak id forged = some (some 2) := by decide +kernel
  refine ⟨hbreak, (audit_chain_detects Function.injective_id).2.2 logged forged (some 2) 0 2
    (by decide +kernel) hbreak (by decide +kernel) ?_ ?_ (by omega) ?_⟩
  · exact (head_append_drop (by decide +kernel)).symm
  · obtain ⟨r, r', hr, hr', hdiffer⟩ : ∃ r r', logged[0]? = some r ∧ forged[0]? = some r' ∧
        ¬ r.Same r' := not_same_of_actor (a := Str.ofString "a") (b := Str.ofString "x") (by decide)
      (by decide +kernel) (by decide +kernel)
    exact fun hkept => hdiffer (hkept r r' hr hr')
  · intro r r' hr hr'
    have hlen : ([eventBy "x", eventBy "b"].foldl (record id) []).length = 2 := by decide +kernel
    rw [forged, List.getElem?_append_right (by omega), List.getElem?_drop, hlen, hr] at hr'
    obtain rfl := Option.some.inj hr'
    exact SameDict.refl _

end RiskOps.Storage
