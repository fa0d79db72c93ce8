import RiskOps.Lib.IpText
import RiskOps.Telemetry.StoreRecords
import RiskOps.Telemetry.StoreTriage

/-!
# RiskOps.Telemetry.EventPages — pages of records behind a snapshot token

Model of `_event_filter`, `_events`, `_pagination` and `paginate_events` of `telemetry/store.py`. A
token is the row number of the last receipt when it was issued. **A view is frozen by its token**:
later batches put their receipts behind it, so that whichever way the rows are counted, the same
records come out, and the pages are consecutive pieces of one sorted list.

A row number of `event_receipts` is the position of the row: receipts are only ever added.
-/

namespace RiskOps.Telemetry.Store

open RiskOps.Lib Sshd

/-! ### `_event_filter` -/

/-- The keyword arguments of a search. -/
structure Filters where
  ip : Option (List Char)
  username : Option (List Char)
  eventType : Option (List Char)
  q : Option (List Char)
  start : Option (List Char)
  stop : Option (List Char)
  snapshot : Option (List Char)

/-- The `WHERE` of a search. -/
structure Clauses where
  sourceId : Option (List Char)
  srcIp : Option (List Char)
  sshUser : Option (List Char)
  eventType : Option (List Char)
  startTs : Option ℚ
  endTs : Option ℚ
  keyword : Option (List Char)
  bound : Option Nat

/-- A value as the column `event_type` holds it. -/
def kindName : EventKind → String
  | .authSuccess => "auth_success"
  | .sessionOpen => "session_open"
  | .sessionClose => "session_close"
  | .authFailure => "auth_failure"
  | .invalidUser => "invalid_user"
  | .preauthAbort => "preauth_abort"
  | .disconnect => "disconnect"
  | .probe => "probe"
  | .daemon => "daemon"
  | .other => "other"
  | .nonSshd => "non_sshd"
  | .sshFailure => "ssh_failure"
  | .sshSuccess => "ssh_success"

/-- `_search_ip`. -/
def searchIp : Option (List Char) → Except String (Option (List Char))
  | none => .ok none
  | some value =>
    if value = [] ∨ 64 < value.length ∨ '%' ∈ value then
      .error "Search requires a complete IP without a zone identifier"
    else
      match IpAddress.parse value with
      | none => .error "does not appear to be an IPv4 or IPv6 address"
      | some ip => .ok (some ip.toText)

/-- One end of `_search_times`. -/
def searchTime (lib : Library) : Option (List Char) → Except String (Option ℚ)
  | none => .ok none
  | some value =>
    if value = [] ∨ 64 < value.length then .error "Invalid search time"
    else
      match lib.instant value with
      | none => .error "Search time requires timezone"
      | some t => .ok (some t)

/-- `_search_times`. -/
def searchTimes (lib : Library) (start stop : Option (List Char)) :
    Except String (Option ℚ × Option ℚ) := do
  let first ← searchTime lib start
  let last ← searchTime lib stop
  match first, last with
  | some a, some b => if b < a then .error "Search start must precede end" else .ok (some a, some b)
  | _, _ => .ok (first, last)

/-- The value of an equality. -/
def searchValue : Option (List Char) → Except String (Option (List Char))
  | none => .ok none
  | some value =>
    if value = [] ∨ 256 < value.length then .error "Invalid search value" else .ok (some value)

/-- The keyword. -/
def searchKeyword : Option (List Char) → Except String (Option (List Char))
  | none => .ok none
  | some q => if 1 ≤ q.length ∧ q.length ≤ 256 then .ok (some q) else .error "Invalid keyword"

/-- The greatest row number. -/
def maxRowid : Nat := 9223372036854775807

/-- `re.fullmatch(r"r1:[0-9]{1,19}", snapshot)` and `int(snapshot[3:])`. -/
def readToken : List Char → Option Nat
  | 'r' :: '1' :: ':' :: digits =>
    if 1 ≤ digits.length ∧ digits.length ≤ 19 ∧ digits.all (fun c => '0' ≤ c && c ≤ '9') then
      IpAddress.digitsVal 10 digits
    else none
  | _ => none

/-- The bound of a token. -/
def searchSnapshot : Option (List Char) → Except String (Option Nat)
  | none => .ok none
  | some snapshot =>
    match readToken snapshot with
    | none => .error "Invalid snapshot"
    | some bound => if maxRowid < bound then .error "Invalid snapshot" else .ok (some bound)

/-- `_event_filter`. -/
def eventFilter (lib : Library) (sourceId : Option (List Char)) (f : Filters) :
    Except String Clauses := do
  let ip ← searchIp f.ip
  let times ← searchTimes lib f.start f.stop
  let source ← searchValue sourceId
  let ip ← searchValue ip
  let username ← searchValue f.username
  let eventType ← searchValue f.eventType
  let keyword ← searchKeyword f.q
  let bound ← searchSnapshot f.snapshot
  .ok ⟨source, ip, username, eventType, times.1, times.2, keyword, bound⟩

/-- The clauses on the columns of `events`. -/
def Clauses.matches (w : Clauses) (e : StoredEvent) : Bool :=
  w.sourceId.all (fun x => e.row.sourceId = x) && w.srcIp.all (fun x => e.row.srcIp = some x)
    && w.sshUser.all (fun x => e.row.sshUser = some x)
    && w.eventType.all (fun x => (kindName e.row.eventType).toList = x)
    && w.startTs.all (fun t => t ≤ e.row.eventTs) && w.endTs.all (fun t => e.row.eventTs ≤ t)
    && w.keyword.all (fun q => q <:+: e.message)

/-- `event_receipts` with its row numbers. -/
def numbered (db : Db) : List (Key × Nat) := (db.receipts.rows.map Receipt.key).zipIdx 1

/-- `EXISTS (SELECT 1 FROM event_receipts r WHERE … AND r.rowid<=?)`. -/
def receiptUpTo (db : Db) (bound : Nat) (e : StoredEvent) : Bool :=
  (numbered db).any fun r => r.1 = e.key && r.2 ≤ bound

/-- A row the `WHERE` selects. -/
def selects (db : Db) (w : Clauses) (e : StoredEvent) : Bool :=
  w.matches e && w.bound.all fun bound => receiptUpTo db bound e

/-! ### `paginate_events` -/

/-- `ORDER BY event_ts DESC,source_id,event_id`. -/
def pageOrder (e : StoredEvent) : ℚᵒᵈ ×ₗ (List Char ×ₗ List Char) :=
  toLex (OrderDual.toDual e.row.eventTs, toLex e.key)

/-- `SELECT … FROM events … ORDER BY … LIMIT ? OFFSET ?`. -/
def eventRows (db : Db) (w : Clauses) (limit offset : Nat) : List StoredEvent :=
  (((db.events.select (selects db w)).insertionSort fun a b => pageOrder a ≤ pageOrder b).drop
    offset).take limit

/-- `SELECT count(*) FROM events …`. -/
def countEvents (db : Db) (w : Clauses) : Nat := (db.events.select (selects db w)).length

/-- `SELECT count(*) FROM event_receipts r CROSS JOIN events USING(source_id,event_id) WHERE
r.rowid>? …`. -/
def countNewer (db : Db) (w : Clauses) (bound : Nat) : Nat :=
  (((numbered db).filter fun r => bound < r.2).flatMap fun r =>
    db.events.select fun e => e.key = r.1 && w.matches e).length

/-- `_SNAPSHOT_COUNT_TAIL_LIMIT`. -/
def snapshotCountTailLimit : Nat := 10000

/-- What a search returns. -/
structure EventPage where
  items : List StoredEvent
  total : Nat
  totalPages : Nat
  page : Nat
  limit : Nat
  offset : Nat
  snapshot : List Char

/-- `SELECT coalesce(max(rowid),0) FROM event_receipts`. -/
def receiptHead (db : Db) : Nat := db.receipts.rows.length

/-- `"r1:" + str(head)`. -/
def issueToken (head : Nat) : List Char := 'r' :: '1' :: ':' :: Nat.toDigits 10 head

/-- The clauses of the item query and the total, by the distance between token and head. -/
def countView (db : Db) (w : Clauses) (bound : Nat) : Clauses × Nat :=
  let base := { w with bound := none }
  if bound = 0 then (w, 0)
  else if receiptHead db ≤ bound then (base, countEvents db base)
  else if receiptHead db - bound ≤ snapshotCountTailLimit then
    (w, countEvents db base - countNewer db base bound)
  else (w, countEvents db w)

/-- `_pagination` with the items of the page. -/
def pageOf (db : Db) (view : Clauses × Nat) (limit page : Nat) (snapshot : List Char) : EventPage :=
  let totalPages := max 1 ((view.2 + limit - 1) / limit)
  let page := min page totalPages
  let offset := (page - 1) * limit
  ⟨if view.2 = 0 then [] else eventRows db view.1 limit offset, view.2, totalPages, page, limit, offset,
    snapshot⟩

/-- `paginate_events`. -/
def paginateEvents (lib : Library) (db : Db) (sourceId : Option (List Char)) (limit page : Nat)
    (f : Filters) : Except String EventPage :=
  if ¬ (1 ≤ limit ∧ limit ≤ 200) then .error "limit must be between 1 and 200"
  else if page < 1 then .error "page must be a positive integer"
  else
    match eventFilter lib sourceId f with
    | .error e => .error e
    | .ok w =>
      match f.snapshot, w.bound with
      | some snapshot, some bound => .ok (pageOf db (countView db w bound) limit page snapshot)
      | _, _ =>
        .ok (pageOf db (countView db w (receiptHead db)) limit page (issueToken (receiptHead db)))

/-! ### Numbered lists -/

section Numbered

variable {α β : Type} [DecidableEq α]

theorem any_zipIdx (l : List α) (k : α) (bound n : Nat) :
    ((l.zipIdx n).any fun r => r.1 = k && r.2 ≤ bound) = true ↔ k ∈ l.take (bound + 1 - n) := by
  induction l generalizing n with
  | nil => simp
  | cons a l ih =>
    rw [List.zipIdx_cons, List.any_cons, Bool.or_eq_true, ih]
    by_cases hn : n ≤ bound
    · rw [show bound + 1 - n = (bound + 1 - (n + 1)) + 1 by omega, List.take_succ_cons]
      simp [hn, eq_comm]
    · rw [show bound + 1 - n = 0 by omega, show bound + 1 - (n + 1) = 0 by omega]
      simp [hn]

omit [DecidableEq α] in
theorem filter_zipIdx (l : List α) (bound n : Nat) :
    ((l.zipIdx n).filter fun r => bound < r.2).map Prod.fst = l.drop (bound + 1 - n) := by
  induction l generalizing n with
  | nil => simp
  | cons a l ih =>
    rw [List.zipIdx_cons, List.filter_cons]
    by_cases hn : n ≤ bound
    · rw [show bound + 1 - n = (bound + 1 - (n + 1)) + 1 by omega, List.drop_succ_cons, ← ih,
        if_neg (by simpa using hn)]
    · have hlast := ih (n + 1)
      rw [show bound + 1 - (n + 1) = 0 by omega, List.drop_zero] at hlast
      rw [show bound + 1 - n = 0 by omega, List.drop_zero, if_pos (by simpa using hn),
        List.map_cons, hlast]

/-- A predicate that is a disjunction of two exclusive ones. -/
theorem countP_or {p q r : β → Bool} {rows : List β} (h : ∀ e ∈ rows, r e = (p e || q e))
    (hdisjoint : ∀ e ∈ rows, p e = true → q e = false) :
    rows.countP r = rows.countP p + rows.countP q := by
  induction rows with
  | nil => rfl
  | cons e rows ih =>
    rw [List.countP_cons, List.countP_cons, List.countP_cons,
      ih (fun x hx => h x (List.mem_cons_of_mem _ hx))
        (fun x hx => hdisjoint x (List.mem_cons_of_mem _ hx)), h e List.mem_cons_self]
    cases hp : p e with
    | false => simp only [Bool.false_or, Bool.false_eq_true, if_false]; omega
    | true => simp only [hdisjoint e List.mem_cons_self hp, Bool.or_false, Bool.false_eq_true,
        if_true, if_false]; omega

/-- A join over distinct keys counts every row once. -/
theorem length_join {ks : List α} (hks : ks.Nodup) (rows : List β) (key : β → α) (p : β → Bool) :
    (ks.flatMap fun k => rows.filter fun e => key e = k && p e).length =
      rows.countP fun e => p e && ks.any fun k => key e = k := by
  induction ks with
  | nil => simp
  | cons k ks ih =>
    rw [List.nodup_cons] at hks
    rw [List.flatMap_cons, List.length_append, ih hks.2, ← List.countP_eq_length_filter]
    refine (countP_or (fun e _ => ?_) (fun e _ he => ?_)).symm
    · rw [List.any_cons, Bool.and_or_distrib_left, Bool.and_comm]
    · rw [Bool.and_eq_true, decide_eq_true_eq] at he
      have hnone : (ks.any fun k' => decide (key e = k')) = false := by
        rw [List.any_eq_false]
        intro k' hk'
        rw [decide_eq_true_eq, he.1]
        exact fun heq => hks.1 (heq ▸ hk')
      rw [hnone, Bool.and_false]

end Numbered

/-! ### One view, three counts -/

/-- The keys of the receipts, in order. -/
def Db.receiptKeys (db : Db) : List Key := db.receipts.rows.map Receipt.key

/-- The filtered records whose receipts are numbered up to a bound, sorted. -/
def snapshotView (db : Db) (w : Clauses) (bound : Nat) : List StoredEvent :=
  (db.records.filter fun e => w.matches e && decide (e.key ∈ db.receiptKeys.take bound)).insertionSort
    fun a b => pageOrder a ≤ pageOrder b

/-- Every record has a receipt. -/
def Receipted (db : Db) : Prop := ∀ e ∈ db.records, e.key ∈ db.receiptKeys

theorem receiptUpTo_eq (db : Db) (bound : Nat) (e : StoredEvent) :
    receiptUpTo db bound e = decide (e.key ∈ db.receiptKeys.take bound) := by
  rw [Bool.eq_iff_iff, decide_eq_true_iff]
  exact any_zipIdx db.receiptKeys e.key bound 1

theorem receiptKeys_nodup (db : Db) : db.receiptKeys.Nodup := db.receipts.nodup

theorem Receipted.events {db : Db} (h : Receipted db) : ∀ e ∈ db.events.rows, e.key ∈ db.receiptKeys :=
  fun e he => h e.content (List.mem_map_of_mem he)

/-- The rows of the view. -/
def viewRows (db : Db) (w : Clauses) (bound : Nat) : List StoredEvent :=
  db.events.rows.filter fun e => w.matches e && decide (e.key ∈ db.receiptKeys.take bound)

variable {w : Clauses}

theorem select_bound {db : Db} {bound : Nat} (h : w.bound = some bound) :
    db.events.select (selects db w) = viewRows db w bound := by
  rw [Table.select, viewRows]
  refine List.filter_congr fun e _ => ?_
  rw [selects, h, Option.all_some, receiptUpTo_eq]

theorem select_base {db : Db} (h : w.bound = none) :
    db.events.select (selects db w) = db.events.rows.filter w.matches := by
  rw [Table.select]
  refine List.filter_congr fun e _ => ?_
  rw [selects, h, Option.all_none, Bool.and_true]

/-- At the head, the view holds everything. -/
theorem viewRows_head {db : Db} (hr : Receipted db) (w : Clauses) {bound : Nat}
    (h : receiptHead db ≤ bound) : viewRows db w bound = db.events.rows.filter w.matches := by
  have hall : db.receiptKeys.take bound = db.receiptKeys := by
    refine List.take_of_length_le ?_
    rw [Db.receiptKeys, List.length_map]
    exact h
  rw [viewRows, hall]
  refine List.filter_congr fun e he => ?_
  rw [decide_eq_true (hr.events e he), Bool.and_true]

/-- **The tail subtracts what is behind the bound.** -/
theorem countEvents_sub_countNewer {db : Db} (hr : Receipted db) (hw : w.bound = none) (bound : Nat)
    :
    countEvents db w - countNewer db w bound = (viewRows db w bound).length := by
  have hkeys : ((numbered db).filter fun r => bound < r.2).map Prod.fst = db.receiptKeys.drop bound :=
    filter_zipIdx db.receiptKeys bound 1
  have hnewer : countNewer db w bound = db.events.rows.countP fun e =>
      w.matches e && (db.receiptKeys.drop bound).any fun k => e.key = k := by
    have hjoin := length_join ((receiptKeys_nodup db).sublist (List.drop_sublist bound _))
      db.events.rows StoredEvent.key w.matches
    nth_rewrite 1 [← hkeys] at hjoin
    rw [List.flatMap_map] at hjoin
    exact hjoin
  have hdisjoint : ∀ k, k ∈ db.receiptKeys.take bound → k ∉ db.receiptKeys.drop bound := by
    have hnodup := receiptKeys_nodup db
    rw [← List.take_append_drop bound db.receiptKeys, List.nodup_append] at hnodup
    exact fun k hk hk' => hnodup.2.2 k hk k hk' rfl
  have hsplit : countEvents db w = (viewRows db w bound).length + countNewer db w bound := by
    rw [countEvents, select_base hw, hnewer, viewRows, ← List.countP_eq_length_filter,
      ← List.countP_eq_length_filter]
    refine countP_or (fun e he => ?_) (fun e he hin => ?_)
    · have hkey := hr.events e he
      rw [← List.take_append_drop bound db.receiptKeys, List.mem_append] at hkey
      rw [← Bool.and_or_distrib_left]
      have hor : (decide (e.key ∈ db.receiptKeys.take bound) ||
          (db.receiptKeys.drop bound).any fun k => decide (e.key = k)) = true := by
        simpa using hkey
      rw [hor, Bool.and_true]
    · rw [Bool.and_eq_true, decide_eq_true_eq] at hin
      have hnone : ((db.receiptKeys.drop bound).any fun k => decide (e.key = k)) = false := by
        rw [List.any_eq_false]
        intro k hk
        rw [decide_eq_true_eq]
        exact fun heq => hdisjoint _ hin.2 (heq ▸ hk)
      rw [hnone, Bool.and_false]
  omega

/-- The item query and the total of a view agree with it. -/
theorem countView_spec {db : Db} (hr : Receipted db) {bound : Nat}
    (hw : w.bound = some bound ∨ w.bound = none ∧ receiptHead db ≤ bound) :
    (countView db w bound).2 = (viewRows db w bound).length ∧
      ((countView db w bound).2 = 0 ∨
        db.events.select (selects db (countView db w bound).1) = viewRows db w bound) := by
  have hbase : viewRows db { w with bound := none } bound = viewRows db w bound := rfl
  unfold countView
  dsimp only
  split
  · rename_i hzero
    subst hzero
    refine ⟨?_, .inl rfl⟩
    rw [viewRows, List.take_zero]
    simp
  · split
    · rename_i hhead
      rw [countEvents, select_base rfl]
      exact ⟨congrArg List.length (viewRows_head hr w hhead).symm, .inr (viewRows_head hr w hhead).symm⟩
    · rename_i hhead
      have hbound : w.bound = some bound := hw.resolve_right fun h => hhead h.2
      split
      · exact ⟨(countEvents_sub_countNewer hr rfl bound).trans (congrArg List.length hbase),
          .inr (select_bound hbound)⟩
      · exact ⟨congrArg List.length (select_bound hbound), .inr (select_bound hbound)⟩

/-! ### The view stays -/

/-- Without the incidents, the sorted rows of the view are the view. -/
theorem sorted_viewRows (db : Db) (w : Clauses) (bound : Nat) :
    ((viewRows db w bound).insertionSort fun a b => pageOrder a ≤ pageOrder b).map StoredEvent.content =
      snapshotView db w bound := by
  refine (List.map_insertionSort (fun a b : StoredEvent => pageOrder a ≤ pageOrder b)
    (fun a b : StoredEvent => pageOrder a ≤ pageOrder b) StoredEvent.content _
    (fun a _ b _ => Iff.rfl)).trans ?_
  rw [snapshotView, viewRows, Db.records, List.filter_map]
  rfl

theorem length_viewRows (db : Db) (w : Clauses) (bound : Nat) :
    (viewRows db w bound).length = (snapshotView db w bound).length := by
  rw [← sorted_viewRows, List.length_map, List.length_insertionSort]

variable {db' : Db}

/-- **A batch behind the bound leaves the view alone.** -/
theorem Adds.snapshotView {now : ℚ} {db : Db} {new : List StoredEvent} (h : Adds now db db' new)
    (w : Clauses) {bound : Nat} (hbound : bound ≤ receiptHead db) :
    snapshotView db' w bound = snapshotView db w bound := by
  have hkeys : db'.receiptKeys = db.receiptKeys ++ new.map StoredEvent.key := h.receipts
  have htake : db'.receiptKeys.take bound = db.receiptKeys.take bound := by
    rw [hkeys, List.take_append_of_le_length]
    rw [Db.receiptKeys, List.length_map]
    exact hbound
  have hnew : new.filter (fun e => w.matches e && decide (e.key ∈ db.receiptKeys.take bound)) = [] := by
    rw [List.filter_eq_nil_iff]
    intro e he hin
    rw [Bool.and_eq_true, decide_eq_true_eq] at hin
    have hnodup := receiptKeys_nodup db'
    rw [hkeys, List.nodup_append] at hnodup
    exact hnodup.2.2 _ (List.mem_of_mem_take hin.2) _ (List.mem_map_of_mem he) rfl
  rw [Store.snapshotView, Store.snapshotView, htake, h.records, List.filter_append, hnew,
    List.append_nil]

theorem Adds.receipted {now : ℚ} {db : Db} {new : List StoredEvent} (h : Adds now db db' new)
    (hr : Receipted db) : Receipted db' := by
  have hkeys : db'.receiptKeys = db.receiptKeys ++ new.map StoredEvent.key := h.receipts
  intro e he
  rw [h.records] at he
  rw [hkeys]
  rcases List.mem_append.mp he with he | he
  · exact List.mem_append_left _ (hr e he)
  · exact List.mem_append_right _ (List.mem_map_of_mem he)

theorem Adds.receiptHead_le {now : ℚ} {db : Db} {new : List StoredEvent} (h : Adds now db db' new) :
    receiptHead db ≤ receiptHead db' := by
  have hlen := congrArg List.length h.receipts
  rw [List.length_map, List.length_append, List.length_map] at hlen
  rw [receiptHead, receiptHead]
  omega

/-- The database after some calls of `ingest`; one that raises changes nothing. -/
def afterIngests (lib : Library) (db : Db) (calls : List Call) : Db :=
  calls.foldl (fun db c => match ingest lib db c with
    | .ok (db', _) => db'
    | .error _ => db) db

/-- **Ingests leave an issued view alone.** -/
theorem afterIngests_spec (lib : Library) {db : Db} (hr : Receipted db) (w : Clauses) {bound : Nat}
    (hbound : bound ≤ receiptHead db) (calls : List Call) :
    Receipted (afterIngests lib db calls) ∧ bound ≤ receiptHead (afterIngests lib db calls) ∧
      snapshotView (afterIngests lib db calls) w bound = snapshotView db w bound := by
  induction calls generalizing db with
  | nil => exact ⟨hr, hbound, rfl⟩
  | cons c calls ih =>
    rw [afterIngests, List.foldl_cons]
    split
    · rename_i db' r hok
      obtain ⟨new, hnew⟩ := adds_ingest hok
      obtain ⟨hr', hbound', hview⟩ := ih (hnew.receipted hr) (le_trans hbound hnew.receiptHead_le)
      exact ⟨hr', hbound', hview.trans (hnew.snapshotView w hbound)⟩
    · exact ih hr hbound

/-- Every record of a store has a receipt, whatever was called before. -/
theorem receipted_run (env : Env) (ops : List Op) : Receipted (liveAfter env ops).db := by
  intro e he
  obtain ⟨row, hrow, rfl⟩ := List.mem_map.mp he
  have hknown := (kept_run env ops).eventReceipts row.key (by rw [Table.find?_of_mem hrow]; rfl)
  obtain ⟨r, hfind⟩ := Option.isSome_iff_exists.mp hknown
  rw [StoredEvent.key_content, ← Table.find?_key hfind]
  exact List.mem_map_of_mem (Table.mem_of_find? hfind)

/-! ### Tokens -/

theorem readToken_issueToken {head bound : Nat} (h : readToken (issueToken head) = some bound) :
    bound = head := by
  rw [issueToken, readToken] at h
  split at h
  · rw [IpAddress.digitsVal_toDigits (by decide) (by decide)] at h
    exact (Option.some.inj h).symm
  · cases h

variable {lib : Library} {f : Filters}

/-- The clauses of a search hold the bound of its token. -/
theorem bound_of_eventFilter {source : Option (List Char)} (h : eventFilter lib source f = .ok w) :
    searchSnapshot f.snapshot = .ok w.bound := by
  rw [eventFilter] at h
  obtain ⟨_, -, h⟩ := bind_eq_ok.mp h
  obtain ⟨_, -, h⟩ := bind_eq_ok.mp h
  obtain ⟨_, -, h⟩ := bind_eq_ok.mp h
  obtain ⟨_, -, h⟩ := bind_eq_ok.mp h
  obtain ⟨_, -, h⟩ := bind_eq_ok.mp h
  obtain ⟨_, -, h⟩ := bind_eq_ok.mp h
  obtain ⟨_, -, h⟩ := bind_eq_ok.mp h
  obtain ⟨bound, hbound, h⟩ := bind_eq_ok.mp h
  obtain rfl := Except.ok.inj h
  exact hbound

theorem bound_of_token {source : Option (List Char)} {head : Nat}
    (h : eventFilter lib source f = .ok w) (hf : f.snapshot = some (issueToken head)) :
    w.bound = some head := by
  have hbound := bound_of_eventFilter h
  rw [hf, searchSnapshot] at hbound
  split at hbound
  · cases hbound
  · rename_i bound hread
    obtain rfl := readToken_issueToken hread
    split at hbound
    · cases hbound
    · exact (Except.ok.inj hbound).symm

/-- A search without a token issues that of the head. -/
theorem snapshot_of_fresh {db : Db} {source : Option (List Char)} {limit page : Nat}
    {result : EventPage} (h : paginateEvents lib db source limit page f = .ok result)
    (hfresh : f.snapshot = none) : result.snapshot = issueToken (receiptHead db) := by
  rw [paginateEvents] at h
  split at h
  · cases h
  · split at h
    · cases h
    · split at h
      · cases h
      · split at h
        · rename_i hsome _
          rw [hfresh] at hsome
          cases hsome
        · obtain rfl := Except.ok.inj h
          rfl

/-- Consecutive pieces of a list, put together. -/
theorem flatMap_pieces {α : Type} (l : List α) (limit n : Nat) :
    ((List.range n).flatMap fun i => (l.drop (i * limit)).take limit) = l.take (n * limit) := by
  induction n with
  | zero => simp
  | succ n ih =>
    rw [List.range_succ, List.flatMap_append, ih, List.flatMap_singleton, ← List.take_add,
      Nat.succ_mul]

/-- What a page of a token holds. -/
theorem paginateEvents_token {db : Db} (hr : Receipted db) {source : Option (List Char)}
    {limit page : Nat} (hlimit : 1 ≤ limit ∧ limit ≤ 200) (hpage : 1 ≤ page) {snapshot : List Char}
    {bound : Nat} (hw : eventFilter lib source f = .ok w) (hf : f.snapshot = some snapshot)
    (hbound : w.bound = some bound) :
    ∃ result, paginateEvents lib db source limit page f = .ok result ∧ result.snapshot = snapshot ∧
      result.total = (snapshotView db w bound).length ∧
      result.totalPages = max 1 ((result.total + limit - 1) / limit) ∧
      (page ≤ result.totalPages → result.items.map StoredEvent.content =
        ((snapshotView db w bound).drop ((page - 1) * limit)).take limit) := by
  have hview : w.bound = some bound ∨ w.bound = none ∧ receiptHead db ≤ bound := .inl hbound
  obtain ⟨htotal, hitems⟩ := countView_spec hr hview
  rw [length_viewRows] at htotal
  refine ⟨pageOf db (countView db w bound) limit page snapshot, ?_, rfl, htotal, rfl, ?_⟩
  · rw [paginateEvents, if_neg (not_not_intro hlimit), if_neg (by omega), hw, hf]
    dsimp only
    rw [hbound]
  · intro hle
    have hmin : min page (max 1 (((countView db w bound).2 + limit - 1) / limit)) = page :=
      min_eq_left hle
    rw [pageOf]
    dsimp only
    rw [hmin]
    split
    · rename_i hzero
      rw [htotal, List.length_eq_zero_iff] at hzero
      rw [hzero]
      simp
    · rename_i hpos
      rw [eventRows, hitems.resolve_left hpos, List.map_take, List.map_drop, sorted_viewRows]

/-- **A view is frozen by its token.** However many batches were accepted since the token was issued,
every way of counting gives the number of filtered records with a receipt up to the token, and the
pages read at any later times are those records, each once and in order. -/
theorem event_view_frozen (env : Env) (ops : List Op) {issued : EventPage}
    {source₀ : Option (List Char)} {limit₀ page₀ : Nat} {f₀ : Filters}
    (hissued : paginateEvents env.lib (liveAfter env ops).db source₀ limit₀ page₀ f₀ = .ok issued)
    (hfresh : f₀.snapshot = none) {source : Option (List Char)} {limit : Nat}
    (hlimit : 1 ≤ limit ∧ limit ≤ 200) {f : Filters} (hf : f.snapshot = some issued.snapshot)
    {w : Clauses} (hw : eventFilter env.lib source f = .ok w) :
    let db := (liveAfter env ops).db
    let view := snapshotView db w (receiptHead db)
    let totalPages := max 1 ((view.length + limit - 1) / limit)
    (∀ calls page, 1 ≤ page → ∃ result,
      paginateEvents env.lib (afterIngests env.lib db calls) source limit page f = .ok result ∧
      result.snapshot = issued.snapshot ∧ result.total = view.length ∧
      result.totalPages = totalPages ∧
      snapshotView (afterIngests env.lib db calls) w (receiptHead db) = view) ∧
    (∀ (later : Nat → List Call) (read : Nat → EventPage),
      (∀ i < totalPages, paginateEvents env.lib (afterIngests env.lib db (later i)) source limit (i + 1) f =
        .ok (read i)) →
      ((List.range totalPages).flatMap fun i => (read i).items.map StoredEvent.content) = view) := by
  have hr : Receipted (liveAfter env ops).db := receipted_run env ops
  have htoken := snapshot_of_fresh hissued hfresh
  have hbound : w.bound = some (receiptHead (liveAfter env ops).db) :=
    bound_of_token hw (hf.trans (congrArg some htoken))
  intro db view totalPages
  have hpage : ∀ calls page, 1 ≤ page → ∃ result,
      paginateEvents env.lib (afterIngests env.lib db calls) source limit page f = .ok result ∧
      result.snapshot = issued.snapshot ∧ result.total = view.length ∧
      result.totalPages = totalPages ∧
      snapshotView (afterIngests env.lib db calls) w (receiptHead db) = view ∧
      (page ≤ totalPages → result.items.map StoredEvent.content =
        (view.drop ((page - 1) * limit)).take limit) := by
    intro calls page hpage
    obtain ⟨hr', -, hview⟩ := afterIngests_spec env.lib hr w (le_refl _) calls
    obtain ⟨result, hok, hsnap, htotal, hpages, hitems⟩ :=
      paginateEvents_token hr' hlimit hpage hw hf hbound
    rw [hview] at htotal hitems
    rw [htotal] at hpages
    rw [hpages] at hitems
    exact ⟨result, hok, hsnap, htotal, hpages, hview, hitems⟩
  refine ⟨fun calls page h => ?_, fun later read hread => ?_⟩
  · obtain ⟨result, hok, hsnap, htotal, hpages, hview, -⟩ := hpage calls page h
    exact ⟨result, hok, hsnap, htotal, hpages, hview⟩
  · have hitems : ∀ i ∈ List.range totalPages, (read i).items.map StoredEvent.content =
        (view.drop (i * limit)).take limit := by
      intro i hi
      have hlt := List.mem_range.mp hi
      obtain ⟨result, hok, -, -, -, -, hitems⟩ := hpage (later i) (i + 1) (by omega)
      obtain rfl : result = read i := Except.ok.inj (hok.symm.trans (hread i hlt))
      exact hitems (by omega)
    have henough : view.length ≤ totalPages * limit := by
      have hdiv := Nat.lt_div_mul_add (a := view.length + limit - 1) (b := limit) (by omega)
      have hmax : (view.length + limit - 1) / limit * limit ≤ totalPages * limit :=
        Nat.mul_le_mul_right _ (le_max_right _ _)
      omega
    rw [List.flatMap_congr hitems, flatMap_pieces, List.take_of_length_le henough]

/-- A search for everything, with a token or without. -/
def searchAll (snapshot : Option (List Char)) : Filters :=
  ⟨none, none, none, none, none, none, snapshot⟩

/-- The clauses of a search for everything. -/
def allClauses (bound : Nat) : Clauses := ⟨none, none, none, none, none, none, none, some bound⟩

/-- A store with two failed logins. -/
def twoLogins : List Op := [deliverLogins 'a' [1, 2] 100]

/-- The token of two logins shows two records, whatever is accepted afterwards. -/
theorem two_logins_view_frozen :
    (snapshotView (liveAfter tallyEnv twoLogins).db (allClauses 2) 2).length = 2 ∧
    ∀ calls, ∃ result, paginateEvents tallyEnv.lib
      (afterIngests tallyEnv.lib (liveAfter tallyEnv twoLogins).db calls) none 50 1
      (searchAll (some "r1:2".toList)) = .ok result ∧ result.total = 2 := by
  have hhead : receiptHead (liveAfter tallyEnv twoLogins).db = 2 := by decide +kernel
  have hview : (snapshotView (liveAfter tallyEnv twoLogins).db (allClauses 2) 2).length = 2 := by
    decide +kernel
  have hissued : paginateEvents tallyEnv.lib (liveAfter tallyEnv twoLogins).db none 50 1
      (searchAll none) = .ok _ := rfl
  have hclauses : eventFilter tallyEnv.lib none (searchAll (some "r1:2".toList)) =
      .ok (allClauses 2) := rfl
  have hlimit : 1 ≤ 50 ∧ 50 ≤ 200 := by decide
  have htoken : (searchAll (some "r1:2".toList)).snapshot =
      some (issueToken (receiptHead (liveAfter tallyEnv twoLogins).db)) := by
    rw [hhead]
    decide
  have hfrozen := (event_view_frozen tallyEnv twoLogins hissued rfl hlimit htoken hclauses).1
  refine ⟨hview, fun calls => ?_⟩
  obtain ⟨result, hok, -, htotal, -⟩ := hfrozen calls 1 (le_refl 1)
  rw [hhead, hview] at htotal
  exact ⟨result, hok, htotal⟩

end RiskOps.Telemetry.Store
