import RiskOps.Telemetry.StoreBookkeeping

/-!
# RiskOps.Telemetry.StoreInvariant — what matches and refreshes keep, every run keeps

**One rule for all invariants of the incidents.** What a property of the view of a database has to
stand is little: records that come and go without touching an incident, a match that is applied
(`Applied`), and an incident that is refreshed. A property that does is kept by every call and by
every run. Between a match and the end of its call the incident is still to be refreshed; the
property may ask less of such an incident.
-/

namespace RiskOps.Telemetry.Store

open RiskOps.Lib

/-- **What a property has to stand.** `dirty` are the incidents that are still to be refreshed, and
`S` is what is known of new records. -/
structure Carried (S : Row → Prop) (P : View → (Id → Prop) → Prop) : Prop where
  intake : ∀ {v v' : View} {dirty : Id → Prop}, P v dirty →
    (∀ row ∈ v'.rows, row ∈ v.rows ∨ v.held row.key = none ∧ S row) →
    v'.incident = v.incident → v'.held = v.held → v'.label = v.label → P v' dirty
  mono : ∀ {v : View} {dirty dirty' : Id → Prop},
    (∀ i c, v.incident i = some (c, none) → dirty i → dirty' i) → P v dirty → P v dirty'
  applied : ∀ {v v' : View} {dirty : Id → Prop} {rows : List Row} {triggers : List Key}
    {m : RuleMatch} {i : Id}, v.OwnersOpen → (∀ row ∈ rows, row ∈ v.rows) →
    (v.rows.map Row.key).Nodup → m ∈ detectMatches rows triggers true → Applied v v' m i →
    P v dirty → P v' fun j => dirty j ∨ j = i
  refreshed : ∀ {db : Db} {dirty : Id → Prop} (i : Id), P db.view dirty →
    P (refreshIncident db i).view fun j => dirty j ∧ j ≠ i

variable {S : Row → Prop} {P : View → (Id → Prop) → Prop}

theorem nodup_viewRows (db : Db) : (db.view.rows.map Row.key).Nodup := by
  show ((db.events.rows.map StoredEvent.row).map Row.key).Nodup
  rw [List.map_map]
  exact db.events.nodup

namespace Carried

/-! ### One call -/

section

variable {uuid : Nat → List Char} {now : ℚ} {db db' : Db} {changed changed' : List Id}

theorem applyMatches (h : Carried S P) {rows : List Row} {triggers : List Key} {ms : List RuleMatch}
    (hms : ∀ m ∈ ms, m ∈ detectMatches rows triggers true)
    (hrows : ∀ row ∈ rows, row ∈ db.view.rows) (hkept : Kept db (· ∈ changed))
    (hp : P db.view (· ∈ changed))
    (hok : Store.applyMatches uuid now (db, changed) ms = .ok (db', changed')) :
    P db'.view (· ∈ changed') := by
  induction ms generalizing db changed with
  | nil =>
    obtain ⟨rfl, rfl⟩ := Prod.mk.inj (Except.ok.inj hok)
    exact hp
  | cons m ms ih =>
    rw [Store.applyMatches, bind_eq_ok] at hok
    obtain ⟨⟨db₁, i⟩, happly, hrest⟩ := hok
    have hm := hms m List.mem_cons_self
    have hevidence : ∀ row ∈ m.evidence, row ∈ db.view.rows := fun row hrow =>
      hrows row ((detectMatches_evidence hm).2 row hrow)
    have happlied := applyMatch_applied hkept.ownersOpen happly
    have hin : ∀ j, j ∈ changed ∨ j = i → j ∈ i :: changed := fun _ hj =>
      List.mem_cons.mpr hj.symm
    have hkept' := (hkept.applyMatch hevidence happly).1.mono fun j _ _ hj => hin j hj
    have hp' := h.mono (fun j _ _ hj => hin j hj)
      (h.applied hkept.ownersOpen hrows (nodup_viewRows db) hm happlied hp)
    exact ih (fun m' hm' => hms m' (List.mem_cons_of_mem _ hm'))
      (fun row hrow => happlied.rows ▸ hrows row hrow) hkept' hp' hrest

theorem runQueries (h : Carried S P) {qs : List Query} (hkept : Kept db (· ∈ changed))
    (hp : P db.view (· ∈ changed))
    (hok : Store.runQueries uuid now (db, changed) qs = .ok (db', changed')) :
    P db'.view (· ∈ changed') := by
  induction qs generalizing db changed with
  | nil =>
    obtain ⟨rfl, rfl⟩ := Prod.mk.inj (Except.ok.inj hok)
    exact hp
  | cons q qs ih =>
    rw [Store.runQueries, bind_eq_ok] at hok
    obtain ⟨⟨db₁, changed₁⟩, hmatches, hrest⟩ := hok
    dsimp only at hmatches
    have hrows : ∀ row ∈ candidates db q, row ∈ db.view.rows := fun row hrow => by
      rw [candidates_eq] at hrow
      exact (mem_candidateRows.mp hrow).1
    have hkept' := (hkept.applyMatches (fun m hm row hrow =>
      hrows row ((detectMatches_evidence hm).2 row hrow)) hmatches).1
    exact ih hkept' (h.applyMatches (fun m hm => hm) hrows hkept hp hmatches) hrest

/-- **Refreshing** settles what was to be refreshed. -/
theorem refreshAll (h : Carried S P) {ids : List Id} (hp : P db.view (· ∈ ids)) :
    P (ids.foldl refreshIncident db).view fun _ => False := by
  induction ids generalizing db with
  | nil => exact h.mono (fun _ _ _ hi => absurd hi List.not_mem_nil) hp
  | cons i ids ih =>
    refine ih (h.mono (fun j _ _ hj => ?_) (h.refreshed i hp))
    exact (List.mem_cons.mp hj.1).resolve_left hj.2

theorem canonical (h : Carried S P) (hp : P db.view (· ∈ changed)) :
    P db.view (· ∈ (changed.map (canonicalIncident db)).dedup) := by
  refine h.mono (fun i c hi hmem => ?_) hp
  rw [List.mem_dedup, List.mem_map]
  exact ⟨i, hmem, canonicalIncident_of_open hi⟩

theorem ingestRecord (h : Carried S P) {c : Call} {st st' : Intake} {r : Normalized}
    {dirty : Id → Prop} (hs : S (rowOf c.sourceId r)) (hkept : Kept st.db dirty)
    (hp : P st.db.view dirty) (hok : Store.ingestRecord c st r = .ok st') :
    P st'.db.view dirty := by
  unfold Store.ingestRecord at hok
  split at hok
  · split at hok
    · obtain rfl := Except.ok.inj hok
      exact hp
    · cases hok
  · rename_i hnone
    dsimp only at hok
    split at hok
    · rename_i receipts events hreceipts hevents
      obtain rfl := Except.ok.inj hok
      refine h.intake hp (fun row hrow => ?_) rfl rfl rfl
      obtain ⟨e, he, rfl⟩ := List.mem_map.mp hrow
      rcases (Table.mem_of_insert hevents).mp he with hold | rfl
      · exact .inl (List.mem_map_of_mem hold)
      · -- A record with a receipt is the only one that can be evidence.
        refine .inr ⟨?_, hs⟩
        by_contra hheld
        obtain ⟨⟨row, j⟩, hheld⟩ := Option.ne_none_iff_exists'.mp hheld
        have hreceipt := hkept.evidenceReceipts _ (evidence_isSome_iff.mpr ⟨row, j, hheld⟩)
        have hkey : (rowOf c.sourceId r).key = (c.sourceId, r.raw.eventId) := rfl
        rw [hkey, hnone] at hreceipt
        exact nomatch hreceipt
    · cases hok

theorem ingestRecords (h : Carried S P) {c : Call} {st st' : Intake} {rs : List Normalized}
    {dirty : Id → Prop} (hs : ∀ r ∈ rs, S (rowOf c.sourceId r)) (hkept : Kept st.db dirty)
    (hp : P st.db.view dirty) (hok : Store.ingestRecords c st rs = .ok st') :
    P st'.db.view dirty := by
  induction rs generalizing st with
  | nil =>
    obtain rfl := Except.ok.inj hok
    exact hp
  | cons r rs ih =>
    rw [Store.ingestRecords, bind_eq_ok] at hok
    obtain ⟨st₁, hfirst, hrest⟩ := hok
    exact ih (fun r hr => hs r (List.mem_cons_of_mem _ hr)) (hkept.ingestRecord hfirst)
      (h.ingestRecord (hs r List.mem_cons_self) hkept hp hfirst) hrest

theorem ingest (h : Carried S P) {lib : Library} {c : Call} {response : Response}
    (hs : ∀ k, checkCall lib c = .ok k → ∀ r ∈ k.records, S (rowOf c.sourceId r))
    (hkept : Kept db fun _ => False) (hp : P db.view fun _ => False)
    (hok : Store.ingest lib db c = .ok (db', response)) : P db'.view fun _ => False := by
  rw [Store.ingest, bind_eq_ok] at hok
  obtain ⟨k, hk, hok⟩ := hok
  split at hok
  · split at hok
    · obtain ⟨rfl, -⟩ := Prod.mk.inj (Except.ok.inj hok)
      exact hp
    · cases hok
  · rw [commitBatch, bind_eq_ok] at hok
    obtain ⟨st, hloop, hok⟩ := hok
    obtain ⟨⟨db₁, changed⟩, hdetect, hok⟩ := bind_eq_ok.mp hok
    have hstart : Kept (touchSource db c k.error) fun _ => False :=
      hkept.congr rfl rfl rfl rfl fun j => ⟨rfl, rfl, rfl, fun _ => rfl⟩
    have hst := hstart.ingestRecords hloop
    have hpst := h.ingestRecords (hs k hk) hstart hp hloop
    rw [detectAdvanced, bind_eq_ok] at hdetect
    obtain ⟨⟨db₂, changed₂⟩, hqueries, heq⟩ := hdetect
    obtain ⟨rfl, rfl⟩ := Prod.mk.inj (Except.ok.inj heq)
    have hnone : ∀ i, False → i ∈ ([] : List Id) := fun _ h => h.elim
    have hp₂ := h.runQueries (hst.mono fun i _ _ => hnone i) (h.mono (fun i _ _ => hnone i) hpst)
      hqueries
    have hrefreshed := h.refreshAll (h.canonical (h.canonical hp₂))
    dsimp only at hok
    split at hok
    · rename_i batches hbatches
      obtain ⟨rfl, -⟩ := Prod.mk.inj (Except.ok.inj hok)
      exact h.intake hrefreshed (fun row hrow => .inl hrow) rfl rfl rfl
    · cases hok

theorem rebuildPeers (h : Carried S P) {ps : List (List Char)} (hkept : Kept db fun _ => False)
    (hp : P db.view fun _ => False) (hok : Store.rebuildPeers uuid now db ps = .ok db') :
    P db'.view fun _ => False := by
  induction ps generalizing db with
  | nil =>
    obtain rfl := Except.ok.inj hok
    exact hp
  | cons peer ps ih =>
    rw [Store.rebuildPeers, bind_eq_ok] at hok
    obtain ⟨db₁, hpeer, hrest⟩ := hok
    refine ih (hkept.rebuildPeer hpeer) ?_ hrest
    rw [rebuildPeer, bind_eq_ok] at hpeer
    obtain ⟨⟨db₂, changed₂⟩, hmatches, heq⟩ := hpeer
    rw [← Except.ok.inj heq]
    have hnone : ∀ i, False → i ∈ ([] : List Id) := fun _ h => h.elim
    have hrows : ∀ row ∈ orderRows (peerRows db peer), row ∈ db.view.rows := fun row hrow => by
      have hmem := mem_orderRows.mp hrow
      rw [peerRows_eq] at hmem
      exact (List.mem_filter.mp hmem).1
    exact h.refreshAll (h.canonical (h.applyMatches (fun m hm => hm) hrows
      (hkept.mono fun i _ _ => hnone i) (h.mono (fun i _ _ => hnone i) hp) hmatches))

end

/-! ### Runs -/

/-- The records of a call that passes its checks are ones that `S` is known of. -/
def Admits (S : Row → Prop) (env : Env) (op : Op) : Prop :=
  ∀ d, op = .ingest d → ∀ k, checkCall env.lib d.call = .ok k →
    ∀ r ∈ k.records, S (rowOf d.call.sourceId r)

theorem next (h : Carried S P) {env : Env} {s : Live} {op : Op} (hop : Admits S env op)
    (hkept : Kept s.db fun _ => False) (hp : P s.db.view fun _ => False) :
    P (nextLive env s op).db.view fun _ => False := by
  have hdelete : ∀ db : Db, ∀ p, P db.view (fun _ => False) →
      P ({ db with events := db.events.delete p } : Db).view fun _ => False := fun db p hp => by
    refine h.intake hp (fun row hrow => .inl ?_) rfl rfl rfl
    obtain ⟨e, he, rfl⟩ := List.mem_map.mp hrow
    exact List.mem_map_of_mem (Table.mem_delete.mp he).1
  rw [nextLive]
  split
  · rename_i s' hok
    cases op with
    | ingest d =>
      rw [applyOp] at hok
      split at hok
      · rename_i response s₁ hlive
        obtain rfl := Except.ok.inj hok
        obtain ⟨db₁, hingest, rfl | rfl⟩ := ingestLive_ok hlive
        · exact h.ingest (hop d rfl) hkept hp hingest
        · exact hdelete _ _ (h.ingest (hop d rfl) hkept hp hingest)
      · cases hok
    | rebuild uuid now =>
      obtain ⟨⟨db₁, rebuilt⟩, hrebuild, rfl⟩ := map_eq_ok.mp hok
      rw [rebuildDetections, bind_eq_ok] at hrebuild
      obtain ⟨db₂, hpeers, heq⟩ := hrebuild
      obtain ⟨rfl, -⟩ := Prod.mk.inj (Except.ok.inj heq)
      exact h.rebuildPeers hkept hp hpeers
    | setTriage r =>
      obtain ⟨⟨db₁, results⟩, hset, rfl⟩ := map_eq_ok.mp hok
      exact setTriageLive_preserves (P := fun db => P db.view fun _ => False)
        (fun d i state note _ hd => (view_setTriage d i state _ _ _ note _).symm ▸ hd) hp hset
    | resolveBlocked r =>
      obtain ⟨⟨db₁, ids⟩, hresolve, rfl⟩ := map_eq_ok.mp hok
      exact resolveBlocked_preserves (P := fun db => P db.view fun _ => False)
        (fun d i note reference _ hd => (view_setTriage d i _ _ _ _ note _).symm ▸ hd) hp hresolve
    | cleanup now =>
      obtain rfl := Except.ok.inj hok
      exact hdelete _ _ hp
  · exact hp

/-- **Every run keeps it.** -/
theorem run (h : Carried S P) (hinit : P Db.init.view fun _ => False) (env : Env) {ops : List Op}
    (hops : ∀ op ∈ ops, Admits S env op) : P (liveAfter env ops).db.view fun _ => False :=
  (run_invariant (P := fun s : Live => Kept s.db (fun _ => False) ∧ P s.db.view fun _ => False)
    (fun _ op hop hs => ⟨hs.1.next op, h.next hop hs.1 hs.2⟩) hops ⟨kept_init, hinit⟩).2

end Carried

end RiskOps.Telemetry.Store
