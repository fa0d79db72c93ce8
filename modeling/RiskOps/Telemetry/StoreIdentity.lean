import RiskOps.Telemetry.StoreDelivery
import RiskOps.Telemetry.StoreInvariant
import RiskOps.Telemetry.StoreRecords
import RiskOps.Telemetry.StoreTriage

/-!
# RiskOps.Telemetry.StoreIdentity — whether the store and the detector mean the same record

**Two identities.** The store keys a record by its ids as they came. The detector strips ids before
it drops repeated records, and compares the stripped ids with the keys of the new records as they
came. An id with white space around it therefore triggers nothing, and is not counted beside the
record with the stripped id.

Both disagreements come from that one class of ids: a run agrees throughout iff none of the SSH
records it accepts has such an id.
-/

namespace RiskOps.Telemetry

open RiskOps.Lib

/-! ### Stripping and deduplication -/

theorem head?_of_front {s t : List Char} (h : s <+: t) {c : Char} (hc : s.head? = some c) :
    t.head? = some c := by
  obtain ⟨u, rfl⟩ := h
  cases s with
  | nil => cases hc
  | cons d s => exact hc

theorem head?_dropWhile_isSpace {s : List Char} {c : Char}
    (h : (s.dropWhile isSpace).head? = some c) : isSpace c = false := by
  have hnot := List.head?_dropWhile_not isSpace s
  rw [h] at hnot
  simpa using hnot

theorem strip_strip (s : List Char) : strip (strip s) = strip s := by
  refine strip_eq_self (fun c hc => ?_) fun c hc => ?_
  · -- What is left of the front of the text is not dropped from behind.
    have hprefix : strip s <+: s.dropWhile isSpace := by
      rw [strip, ← List.reverse_suffix, List.reverse_reverse]
      exact List.dropWhile_suffix _
    exact head?_dropWhile_isSpace (head?_of_front hprefix hc)
  · rw [strip, List.getLast?_reverse] at hc
    exact head?_dropWhile_isSpace hc

theorem text_eq_some {s t : List Char} : text s = some t ↔ strip s ≠ [] ∧ strip s = t := by
  rw [text]
  split
  · rename_i hblank
    exact iff_of_false (fun h => nomatch h) fun h => h.1 hblank
  · rename_i hnot
    rw [Option.some.injEq]
    exact (and_iff_right hnot).symm

/-- The key the detector reads a row under. -/
def Row.strippedKey (row : Row) : Key := (strip row.sourceId, strip row.eventId)

/-- A row that names a source, an id and a peer. -/
structure Row.Readable (row : Row) : Prop where
  source : strip row.sourceId ≠ []
  event : strip row.eventId ≠ []
  peer : ∀ p, row.srcIp = some p → strip p = p ∧ p ≠ []

theorem event?_stripped {row : Row} {e : Event} (h : event? row = some e) :
    e.row = row ∧ e.key = row.strippedKey := by
  refine ⟨event?_row h, ?_⟩
  simp only [event?, Option.bind_eq_bind, Option.bind_eq_some_iff] at h
  obtain ⟨source, hsource, eventId, hevent, peer, -, he⟩ := h
  obtain rfl := Option.some.inj he
  exact Prod.ext (Iff.mp text_eq_some hsource).2.symm (Iff.mp text_eq_some hevent).2.symm

theorem exists_event {row : Row} {p : List Char} (h : row.Readable) (hp : row.srcIp = some p) :
    ∃ e, event? row = some e := by
  obtain ⟨hstrip, hne⟩ := h.peer p hp
  have hpeer : row.srcIp.bind text = some p := by
    rw [hp]
    exact Iff.mpr text_eq_some ⟨hstrip.symm ▸ hne, hstrip⟩
  refine ⟨⟨row, row.strippedKey, strip row.sourceId, p, row.eventTs, row.eventType,
    row.sshUser.bind text⟩, ?_⟩
  rw [event?, Iff.mpr text_eq_some ⟨h.source, rfl⟩, Iff.mpr text_eq_some ⟨h.event, rfl⟩, hpeer]
  rfl

theorem nodup_dedupe (seen : List Key) (es : List Event) :
    ((dedupe seen es).map Event.key).Nodup ∧ ∀ e ∈ dedupe seen es, e ∈ es ∧ e.key ∉ seen := by
  induction es generalizing seen with
  | nil => exact ⟨List.nodup_nil, fun e he => absurd he List.not_mem_nil⟩
  | cons d es ih =>
    rw [dedupe]
    split
    · rename_i hseen
      obtain ⟨hnodup, hmem⟩ := ih seen
      exact ⟨hnodup, fun e he => ⟨List.mem_cons_of_mem _ (hmem e he).1, (hmem e he).2⟩⟩
    · rename_i hnew
      obtain ⟨hnodup, hmem⟩ := ih (d.key :: seen)
      refine ⟨?_, fun e he => ?_⟩
      · rw [List.map_cons, List.nodup_cons]
        refine ⟨fun hin => ?_, hnodup⟩
        obtain ⟨e, he, hkey⟩ := List.mem_map.mp hin
        exact (hmem e he).2 (hkey ▸ List.mem_cons_self)
      · rcases List.mem_cons.mp he with rfl | he
        · exact ⟨List.mem_cons_self, hnew⟩
        · obtain ⟨hes, hkey⟩ := hmem e he
          exact ⟨List.mem_cons_of_mem _ hes, fun h => hkey (List.mem_cons_of_mem _ h)⟩

/-- **One event for each stripped key.** -/
theorem eq_of_key_normalize {rows : List Row} {e e' : Event} (he : e ∈ normalize rows)
    (he' : e' ∈ normalize rows) (hkey : e.key = e'.key) : e = e' := by
  rw [normalize, List.mem_insertionSort] at he he'
  exact List.inj_on_of_nodup_map (nodup_dedupe [] _).1 he he' hkey

theorem event_of_mem_normalize {rows : List Row} {e : Event} (he : e ∈ normalize rows) :
    ∃ row ∈ rows, event? row = some e := by
  rw [normalize, List.mem_insertionSort] at he
  exact List.mem_filterMap.mp ((nodup_dedupe [] _).2 e he).1

namespace Store

/-! ### What a call stores -/

/-- A row whose ids have no white space around them. -/
def TrimmedRow (row : Row) : Prop :=
  strip row.sourceId = row.sourceId ∧ strip row.eventId = row.eventId

/-- A batch that is accepted: the records it stores, and what the loop hands to detection. -/
structure Accepts (lib : Library) (db : Db) (c : Call) (k : Checked) (st : Intake)
    (out : Db × Response) : Prop where
  checked : checkCall lib c = .ok k
  fresh : db.batches.find? (c.sourceId, c.batchId) = none
  loop : ingestRecords c ⟨touchSource db c k.error, 0, 0, []⟩ k.records = .ok st
  committed : commitBatch db c k = .ok out

/-! ### Agreement -/

/-- **Every stored record counts as one record of its own**: whichever rows of a peer the detector
is given, each of them is the row of an event. -/
def EachCounted (db : Db) : Prop :=
  ∀ peer rows, (rows.map Row.key).Nodup → (∀ row ∈ rows, row ∈ peerRows db peer) →
    ∀ row ∈ rows, ∃ e ∈ normalize rows, e.row = row

/-- **Every new record is a trigger**: some query of the call reads it as an event whose key is
among the triggers, together with every row of the peer within two hours of it. -/
def Triggers (db : Db) (new : List Row) : Prop :=
  ∀ row ∈ new, ∃ q ∈ queries new, row.srcIp = some q.peer ∧
    (∃ e ∈ normalize (candidates db q), e.row = row ∧ e.key ∈ q.keys) ∧
    ∀ other ∈ peerRows db q.peer, |other.eventTs - row.eventTs| ≤ maxWindowSeconds →
      other ∈ candidates db q

/-- The two identities agree on an accepted batch. -/
def Agrees (lib : Library) (db : Db) (c : Call) : Prop :=
  ∀ k st out, Accepts lib db c k st out → EachCounted st.db ∧ Triggers st.db st.detectionRows

/-- The new SSH records of an accepted batch have no white space around their ids. -/
def AddsTrimmed (lib : Library) (db : Db) (c : Call) : Prop :=
  ∀ k st out, Accepts lib db c k st out → ∀ r ∈ k.records,
    db.receipts.find? (c.sourceId, r.raw.eventId) = none →
    detectable (rowOf c.sourceId r) = true → TrimmedRow (rowOf c.sourceId r)

/-- What holds of the stored rows while the identities agree. -/
def Sane (db : Db) : Prop :=
  ∀ row ∈ db.view.rows, row.Readable ∧ (detectable row = true → TrimmedRow row)

theorem boundedText_ne_blank {value : Json} {name : String} {maximum : Nat} {v : List Char}
    (h : boundedText value name maximum false = .ok v) : strip v ≠ [] := by
  cases value with
  | str s =>
    obtain ⟨⟨-, hblank, -⟩, rfl⟩ := boundedText_eq_ok.mp h
    exact hblank rfl
  | _ => cases h

theorem readable_rowOf {lib : Library} {c : Call} {k : Checked} (hk : checkCall lib c = .ok k)
    {r : Normalized} (hr : r ∈ k.records) : (rowOf c.sourceId r).Readable := by
  have hclassified := checkCall_classified hk r hr
  simp only [checkCall, bind_eq_ok] at hk
  obtain ⟨_, hsource, _, -, _, -, _, -, _, -, records, hrecords, heq⟩ := hk
  obtain rfl := Except.ok.inj heq
  obtain ⟨j, -, hj⟩ := mem_of_mapM hrecords hr
  refine ⟨?_, ?_, fun p hp => ?_⟩
  · have hv := (boundedText_eq_ok.mp hsource).2
    exact (boundedText_eq_ok.mp hsource).1.2.1 rfl
  · unfold normalizeRecord at hj
    split at hj
    · simp only [bind_eq_ok] at hj
      obtain ⟨eventId, heventId, _, -, _, -, _, -, _, -, _, -, _, -, heq⟩ := hj
      rw [← Except.ok.inj heq]
      exact boundedText_ne_blank heventId
    · cases hj
  · have hpeer : (Sshd.classify lib.isWord lib.isDecimal r.raw.message r.raw.identifier
        r.raw.unit).peerIp = some p := by
      rw [rowOf, hclassified] at hp
      exact hp
    exact ⟨Sshd.strip_solid (Sshd.classify_peer hpeer), Sshd.classify_peer_ne_nil hpeer⟩

section Call

variable {lib : Library} {db : Db} {c : Call} {k : Checked} {st : Intake} {out : Db × Response}

theorem mem_peerRows {peer : List Char} {row : Row} : row ∈ peerRows db peer ↔
    row ∈ db.view.rows ∧ row.srcIp = some peer ∧
      (failureType row.eventType || successType row.eventType) = true := by
  rw [peerRows_eq, List.mem_filter, Bool.and_eq_true, decide_eq_true_eq]

theorem detectable_iff {row : Row} : detectable row = true ↔
    (failureType row.eventType || successType row.eventType) = true ∧ row.srcIp.isSome := by
  rw [detectable, Bool.and_eq_true]

/-- **The rows an accepted batch adds** are those of its records without a receipt. -/
theorem Accepts.adds {D : List (List Char × Raw)} (h : Accepts lib db c k st out)
    (hstored : Stored lib D db.view) : ∃ new D', st.db.view.rows = db.view.rows ++ new ∧
      st.detectionRows = new.filter detectable ∧ Stored lib D' st.db.view ∧
      ∀ row, row ∈ new ↔ ∃ r ∈ k.records,
        db.receipts.find? (c.sourceId, r.raw.eventId) = none ∧ row = rowOf c.sourceId r := by
  have hclassified := checkCall_classified h.checked
  obtain ⟨new, htook⟩ := ingestRecords_took hclassified
    (show Stored lib D (touchSource db c k.error).view from hstored) h.loop
  have hrows : st.db.view.rows = db.view.rows ++ new := by
    rw [htook.view]
    rfl
  have hrowOf : ∀ r ∈ k.records, rowFor lib c.sourceId r.raw = rowOf c.sourceId r := fun r hr => by
    rw [rowFor, ← hclassified r hr]
  -- No new row has the key of a row that was there.
  have hdistinct : ∀ a ∈ db.view.rows, ∀ b ∈ new, a.key ≠ b.key := by
    have hnodup := nodup_viewRows st.db
    rw [hrows, List.map_append, List.nodup_append] at hnodup
    exact fun a ha b hb => hnodup.2.2 _ (List.mem_map_of_mem ha) _ (List.mem_map_of_mem hb)
  refine ⟨new, _, hrows, htook.detected.trans (List.nil_append _), htook.stored, fun row => ?_⟩
  constructor
  · intro hrow
    obtain ⟨p, hp, hpeq⟩ := (htook.stored.mem_rows row).mp (hrows ▸ List.mem_append_right _ hrow)
    rcases List.mem_append.mp hp with hp | hp
    · exact absurd rfl (hdistinct row ((hstored.mem_rows row).mpr ⟨p, hp, hpeq⟩) row hrow)
    · obtain ⟨r, hr, rfl⟩ := List.mem_map.mp hp
      refine ⟨r, hr, ?_, hpeq.trans (hrowOf r hr)⟩
      by_contra hsome
      obtain ⟨x, hx⟩ := Option.ne_none_iff_exists'.mp hsome
      have hkey : x.key = (c.sourceId, r.raw.eventId) := Table.find?_key hx
      refine hdistinct _ ((hstored.rows _).mpr ⟨x, Table.mem_of_find? hx, rfl⟩) row hrow ?_
      rw [hpeq]
      exact hkey
  · intro hnew
    obtain ⟨r, hr, hnone, heq⟩ := hnew
    have hmem : row ∈ st.db.view.rows := (htook.stored.mem_rows row).mpr
      ⟨(c.sourceId, r.raw), List.mem_append_right _ (List.mem_map_of_mem hr),
        heq.trans (hrowOf r hr).symm⟩
    rw [hrows] at hmem
    refine (List.mem_append.mp hmem).resolve_left fun hold => ?_
    obtain ⟨x, hx, hxeq⟩ := (hstored.rows row).mp hold
    have hkey : x.key = (c.sourceId, r.raw.eventId) := by
      have hrowKey := congrArg Row.key (hxeq.symm.trans heq)
      exact hrowKey
    rw [← hkey, Table.find?_of_mem (show x ∈ db.receipts from hx)] at hnone
    cases hnone

/-- Detection sees no other rows. -/
theorem Accepts.out_rows (h : Accepts lib db c k st out) : out.1.view.rows = st.db.view.rows := by
  obtain ⟨st', db₁, changed, batches, hloop, hdetect, -, hout, -⟩ :=
    commitBatch_eq_ok.mp (show commitBatch db c k = .ok (out.1, out.2) from h.committed)
  obtain rfl : st = st' := Except.ok.inj (h.loop.symm.trans hloop)
  have hrecords := (records_refreshAll (batchIds db₁ changed) db₁).trans
    (records_detectAdvanced hdetect)
  have hview : ∀ d : Db, d.view.rows = d.records.map StoredEvent.row := fun d => by
    rw [Db.records, List.map_map]
    rfl
  rw [hview, hview, hout, ← hrecords]
  rfl

theorem Accepts.sane {D : List (List Char × Raw)} (h : Accepts lib db c k st out)
    (hstored : Stored lib D db.view) (hdb : Sane db) (htrim : AddsTrimmed lib db c) :
    Sane st.db := by
  obtain ⟨new, D', hrows, -, -, hnew⟩ := h.adds hstored
  intro row hrow
  rw [hrows, List.mem_append] at hrow
  rcases hrow with hrow | hrow
  · exact hdb row hrow
  · obtain ⟨r, hr, hnone, rfl⟩ := (hnew row).mp hrow
    exact ⟨readable_rowOf h.checked hr, htrim k st out h r hr hnone⟩

theorem Sane.trimmed (h : Sane db) {peer : List Char} {row : Row} (hrow : row ∈ peerRows db peer) :
    row.Trimmed := by
  obtain ⟨hmem, hpeer, htype⟩ := Iff.mp mem_peerRows hrow
  obtain ⟨hread, htrim⟩ := h row hmem
  obtain ⟨hsource, hevent⟩ := htrim (Iff.mpr detectable_iff ⟨htype, by rw [hpeer]; rfl⟩)
  exact ⟨hsource, hevent, fun p hp => (hread.peer p hp).1⟩

/-- **Trimmed records are counted.** -/
theorem Sane.counted (h : Sane db) : EachCounted db := by
  intro peer rows hnodup hrows row hrow
  obtain ⟨hmem, hpeer, -⟩ := Iff.mp mem_peerRows (hrows row hrow)
  obtain ⟨e, he⟩ := exists_event (h row hmem).1 hpeer
  exact ⟨e, (mem_normalize hnodup fun r hr => h.trimmed (hrows r hr)).mpr ⟨row, hrow, he⟩,
    (event?_stripped he).1⟩

theorem mem_candidates {q : Query} {row : Row} : row ∈ candidates db q ↔
    row ∈ peerRows db q.peer ∧ q.left ≤ row.eventTs ∧ row.eventTs ≤ q.right := by
  rw [candidates, mem_orderRows, List.mem_filter, decide_eq_true_eq]

theorem nodup_candidates (q : Query) : ((candidates db q).map Row.key).Nodup := by
  rw [candidates_eq]
  exact nodup_candidateRows (nodup_viewRows db) q

/-- **Trimmed records are triggers.** -/
theorem Sane.triggers (h : Sane db) {new : List Row} (hnew : ∀ row ∈ new,
    row ∈ db.view.rows ∧ detectable row = true) : Triggers db new := by
  intro row hrow
  obtain ⟨hmem, hd⟩ := hnew row hrow
  obtain ⟨htype, hsome⟩ := Iff.mp detectable_iff hd
  obtain ⟨peer, hpeer⟩ := Option.isSome_iff_exists.mp hsome
  obtain ⟨q, hq, rfl, hkey, hleft, hright⟩ := query_of_trigger hrow hpeer
  have hwindow : (0 : ℚ) ≤ maxWindowSeconds := Nat.cast_nonneg _
  have hmine : row ∈ peerRows db q.peer := Iff.mpr mem_peerRows ⟨hmem, hpeer, htype⟩
  have hcandidate : row ∈ candidates db q :=
    Iff.mpr mem_candidates ⟨hmine, by linarith, by linarith⟩
  refine ⟨q, hq, hpeer, ?_, fun other hother hnear => ?_⟩
  · have hrows : ∀ r ∈ candidates db q, r ∈ peerRows db q.peer := fun r hr =>
      (Iff.mp mem_candidates hr).1
    obtain ⟨e, he, heq⟩ := h.counted q.peer _ (nodup_candidates q) hrows row hcandidate
    refine ⟨e, he, heq, ?_⟩
    obtain ⟨r, hr, hev⟩ := event_of_mem_normalize he
    have hreads := event?_reads hev (h.trimmed (hrows r hr))
    have hrow' : r = row := hreads.row_eq.symm.trans heq
    rw [hreads.key_eq, hrow']
    exact hkey
  · obtain ⟨hlow, hhigh⟩ := abs_le.mp hnear
    exact Iff.mpr mem_candidates ⟨hother, by linarith, by linarith⟩

theorem queries_row {new : List Row} {q : Query} (hq : q ∈ queries new) {key : Key}
    (hkey : key ∈ q.keys) : ∃ row ∈ new, row.key = key ∧ row.srcIp = some q.peer := by
  obtain ⟨peer, -, hq⟩ := List.mem_flatMap.mp hq
  obtain ⟨iv, -, rfl⟩ := List.mem_map.mp hq
  obtain ⟨row, hrow, rfl⟩ := List.mem_map.mp hkey
  obtain ⟨hmem, hpeer⟩ := List.mem_filter.mp hrow
  exact ⟨row, hmem, rfl, of_decide_eq_true hpeer⟩

/-- **A record that is counted and triggers is trimmed.** Its stripped key is that of a new record,
and the detector counts one record under it. -/
theorem trimmed_of_agrees {new : List Row} (hcounted : EachCounted db) (htriggers : Triggers db new)
    (hnew : ∀ row ∈ new, row ∈ db.view.rows ∧ detectable row = true) {row : Row}
    (hrow : row ∈ new) : TrimmedRow row := by
  obtain ⟨q, hq, hpeer, ⟨e, he, heq, hkey⟩, -⟩ := htriggers row hrow
  obtain ⟨row', hrow', hsame, hpeer'⟩ := queries_row hq hkey
  obtain ⟨r, -, hev⟩ := event_of_mem_normalize he
  obtain ⟨hr, hstripped⟩ := event?_stripped hev
  obtain rfl : r = row := hr.symm.trans heq
  rw [hstripped] at hsame
  obtain ⟨hsource, hevent⟩ := Prod.mk.inj hsame
  by_cases hself : row' = r
  · rw [hself] at hsource hevent
    exact ⟨hsource.symm, hevent.symm⟩
  · -- Two rows under one stripped key: one of them is not counted.
    exfalso
    have hmine : ∀ x ∈ new, x.srcIp = some q.peer → x ∈ peerRows db q.peer := fun x hx hp =>
      mem_peerRows.mpr ⟨(hnew x hx).1, hp, (detectable_iff.mp (hnew x hx).2).1⟩
    have hrows : ∀ x ∈ [r, row'], x ∈ peerRows db q.peer := fun x hx => by
      rcases List.mem_cons.mp hx with rfl | hx
      · exact hmine _ hrow hpeer
      · rw [List.mem_singleton.mp hx]
        exact hmine _ hrow' hpeer'
    have hdistinct : r.key ≠ row'.key := fun hk => hself
      (List.inj_on_of_nodup_map (nodup_viewRows db) (hnew r hrow).1 (hnew row' hrow').1 hk).symm
    have hnodup : ([r, row'].map Row.key).Nodup := by simpa using hdistinct
    obtain ⟨e₁, he₁, heq₁⟩ := hcounted q.peer _ hnodup hrows r List.mem_cons_self
    obtain ⟨e₂, he₂, heq₂⟩ := hcounted q.peer _ hnodup hrows row' (by simp)
    have hkeys : ∀ x ∈ normalize [r, row'], x.key = x.row.strippedKey := fun x hx => by
      obtain ⟨z, -, hz⟩ := event_of_mem_normalize hx
      obtain ⟨hzrow, hzkey⟩ := event?_stripped hz
      rw [hzkey, hzrow]
    have hstrips : row'.strippedKey = r.strippedKey := by
      rw [Row.strippedKey, Row.strippedKey, hsource, hevent, strip_strip, strip_strip]
    have hsameEvent := eq_of_key_normalize he₁ he₂ (by
      rw [hkeys e₁ he₁, hkeys e₂ he₂, heq₁, heq₂, hstrips])
    exact hself (heq₂.symm.trans (hsameEvent ▸ heq₁))

/-- **One batch**, where all was well before. -/
theorem agrees_iff {D : List (List Char × Raw)} (hstored : Stored lib D db.view) (h : Sane db) :
    Agrees lib db c ↔ AddsTrimmed lib db c := by
  have hdetected : ∀ {k st out}, Accepts lib db c k st out → ∀ row ∈ st.detectionRows,
      row ∈ st.db.view.rows ∧ detectable row = true := fun haccepts row hrow => by
    obtain ⟨new, D', hrows, hdetected, -, -⟩ := haccepts.adds hstored
    rw [hdetected] at hrow
    obtain ⟨hmem, hd⟩ := List.mem_filter.mp hrow
    exact ⟨hrows ▸ List.mem_append_right _ hmem, hd⟩
  constructor
  · intro hagrees k st out haccepts r hr hnone hd
    obtain ⟨hcounted, htriggers⟩ := hagrees k st out haccepts
    refine trimmed_of_agrees hcounted htriggers (hdetected haccepts) ?_
    obtain ⟨new, D', -, heq, -, hnew⟩ := haccepts.adds hstored
    rw [heq]
    exact List.mem_filter.mpr ⟨(hnew _).mpr ⟨r, hr, hnone, rfl⟩, hd⟩
  · intro htrim k st out haccepts
    have hsane := haccepts.sane hstored h htrim
    exact ⟨hsane.counted, hsane.triggers (hdetected haccepts)⟩

/-- What a run keeps while the identities agree. -/
structure Agreed (lib : Library) (db : Db) : Prop where
  sane : Sane db
  stored : ∃ D, Stored lib D db.view

theorem agreed_init (lib : Library) : Agreed lib .init :=
  ⟨fun _ hrow => absurd hrow List.not_mem_nil, [], (inv_init lib).stored⟩

theorem Agreed.deliver (htrim : AddsTrimmed lib db c) (h : Agreed lib db) :
    Agreed lib (deliver lib db c) := by
  unfold Store.deliver
  split
  · rename_i db' response hok
    rw [ingest, bind_eq_ok] at hok
    obtain ⟨k, hk, hok⟩ := hok
    split at hok
    · split at hok
      · obtain ⟨rfl, -⟩ := Prod.mk.inj (Except.ok.inj hok)
        exact ⟨h.sane, h.stored⟩
      · cases hok
    · rename_i hfresh
      obtain ⟨st, db₁, changed, batches, hloop, hdetect, -, hdb', -⟩ := commitBatch_eq_ok.mp hok
      have haccepts : Accepts lib db c k st (db', response) := ⟨hk, hfresh, hloop, hok⟩
      obtain ⟨D, hstored⟩ := h.stored
      obtain ⟨new, D', -, -, hstored', -⟩ := haccepts.adds hstored
      have hrows : db'.view.rows = st.db.view.rows := haccepts.out_rows
      have hreceipts : db'.view.receipts = st.db.view.receipts := by
        rw [hdb']
        exact (countedBatch_tables k hdetect (batchIds db₁ changed)).2
      refine ⟨fun row hrow => haccepts.sane hstored h.sane htrim row (hrows ▸ hrow), D', ?_⟩
      exact ⟨fun s raw => by rw [hreceipts]; exact hstored'.receipts s raw,
        fun row => by rw [hrows, hreceipts]; exact hstored'.rows row⟩
  · exact h

end Call

/-- **Where the identities agree.** In a run of batches the store and the detector mean the same
records throughout, iff no new SSH record of an accepted batch has white space around its source id
or its event id. The records such a run leaves are still counted one by one when the detections are
rebuilt. -/
theorem identities_agree_iff (lib : Library) (calls : List Call) :
    (StepsSatisfy (deliver lib) (Agrees lib) .init calls ↔
      StepsSatisfy (deliver lib) (AddsTrimmed lib) .init calls) ∧
    (StepsSatisfy (deliver lib) (AddsTrimmed lib) .init calls →
      EachCounted (storeAfter lib calls)) := by
  refine ⟨stepsSatisfy_congr (P := Agreed lib) (fun _ _ htrim h => h.deliver htrim)
    (fun _ _ h => ?_) (agreed_init lib), fun h => ?_⟩
  · obtain ⟨D, hstored⟩ := h.stored
    exact agrees_iff hstored h.sane
  · exact (run_invariant_of_steps (fun _ _ htrim h => h.deliver htrim) h
      (agreed_init lib) : Agreed lib (storeAfter lib calls)).sane.counted

/-- A failed login whose event id ends in a blank. -/
def blankLogin : Json :=
  .obj [("event_id".toList, .str ['a', ' ']), ("timestamp".toList, .str ['t']),
    ("message".toList, .str "Failed password for a from 1.2.3.4 port 2".toList),
    ("identifier".toList, .str "sshd".toList)]

/-- A batch with that record only. -/
def blankCall : Call := ⟨['s'], ['h'], ['b'], [blankLogin], none, 100, Nat.toDigits 10⟩

theorem blank_id_triggers_nothing :
    ¬ ∀ (lib : Library) (calls : List Call),
      StepsSatisfy (deliver lib) (Agrees lib) .init calls := by
  intro hclaim
  have hagrees : Agrees tallyLibrary .init blankCall := (hclaim tallyLibrary [blankCall]).1
  rw [agrees_iff (inv_init tallyLibrary).stored (agreed_init tallyLibrary).sane] at hagrees
  have hfacts : (do
      let k ← checkCall tallyLibrary blankCall
      let st ← ingestRecords blankCall ⟨touchSource .init blankCall k.error, 0, 0, []⟩ k.records
      let _ ← commitBatch .init blankCall k
      .ok (st.accepted, k.records.map fun r =>
        (detectable (rowOf ['s'] r), decide (strip r.raw.eventId = r.raw.eventId))) :
      Except String (Nat × List (Bool × Bool))).toOption = some (1, [(true, false)]) := by
    decide +kernel
  obtain ⟨k, hk, hok⟩ := bind_eq_ok.mp (eq_ok_of_toOption hfacts)
  obtain ⟨st, hst, hok⟩ := bind_eq_ok.mp hok
  obtain ⟨out, hout, hok⟩ := bind_eq_ok.mp hok
  obtain ⟨r, hr, hpair⟩ := List.map_eq_singleton_iff.mp (Prod.mk.inj (Except.ok.inj hok)).2
  obtain ⟨hdetectable, hblank⟩ := Prod.mk.inj hpair
  have htrimmed := hagrees k st out ⟨hk, rfl, hst, hout⟩ r (hr ▸ List.mem_cons_self) rfl hdetectable
  exact of_decide_eq_false hblank htrimmed.2

end Store

end RiskOps.Telemetry
