import RiskOps.Joint.Reader
import RiskOps.Lib.Run

/-!
# RiskOps.Joint.ReaderSpec — what reading a network revision comes to

**Typed values pass the bounds of the queries.** The `CASE` expressions count bytes and the typed
records count characters; identifiers, digests and addresses are ASCII, so whatever the records can
hold crosses the queries unchanged.

**A revision is read when every row of it is.** `readNetworkCase_eq` names what the tables and the
limits must provide; what is left are the rows, in evidence order.
-/

namespace RiskOps.JointEvidence

open RiskOps.Lib

/-! ### Bytes -/

/-- ASCII text has as many bytes as characters. -/
theorem utf8ByteSize_ofList {s : List Char} (h : ∀ c ∈ s, c.toNat < 128) :
    (String.ofList s).utf8ByteSize = s.length := by
  induction s with
  | nil => rfl
  | cons c s ih =>
    have hc : c.utf8Size = 1 := by
      have hlt : c.val.toNat < 128 := h c List.mem_cons_self
      exact Char.utf8Size_eq_one_iff.mpr (UInt32.le_iff_toNat_le.mpr (Nat.le_of_lt_succ hlt))
    have hs := ih fun d hd => h d (List.mem_cons_of_mem _ hd)
    have happend : String.ofList (c :: s) = String.ofList [c] ++ String.ofList s :=
      @String.ofList_append [c] s
    have hone : (String.ofList [c]).utf8ByteSize = 1 := by
      rw [← hc]
      exact String.utf8ByteSize_singleton
    rw [happend, String.utf8ByteSize_append, hone, hs, List.length_cons, Nat.add_comm]

theorem sqlText_ascii {maximum : Nat} {s : String} (hascii : ∀ c ∈ s.toList, c.toNat < 128)
    (hpos : 1 ≤ s.toList.length) (hle : s.toList.length ≤ maximum) :
    sqlText maximum (some s) = some s := by
  have hsize : s.utf8ByteSize = s.toList.length := by
    rw [← utf8ByteSize_ofList hascii, String.ofList_toList]
  rw [sqlText, Option.filter_some, hsize, if_pos]
  simp [hpos, hle]

theorem toNat_lt_of_isAlnum {c : Char} (h : isAlnum c = true) : c.toNat < 127 := by
  simp only [isAlnum, Bool.or_eq_true, Bool.and_eq_true, decide_eq_true_eq, Char.le_def,
    UInt32.le_iff_toNat_le] at h
  have hval : c.toNat = c.val.toNat := rfl
  have ha : ('z' : Char).val.toNat = 122 := rfl
  have hb : ('Z' : Char).val.toNat = 90 := rfl
  have hd : ('9' : Char).val.toNat = 57 := rfl
  omega

theorem toNat_lt_of_isLowerHex {c : Char} (h : isLowerHex c = true) :
    32 ≤ c.toNat ∧ c.toNat < 127 := by
  simp only [isLowerHex, Bool.or_eq_true, Bool.and_eq_true, decide_eq_true_eq, Char.le_def,
    UInt32.le_iff_toNat_le] at h
  have hval : c.toNat = c.val.toNat := rfl
  have ha : ('a' : Char).val.toNat = 97 := rfl
  have hf : ('f' : Char).val.toNat = 102 := rfl
  have hz : ('0' : Char).val.toNat = 48 := rfl
  have hd : ('9' : Char).val.toNat = 57 := rfl
  omega

theorem isIdentifier_chars {s : String} (h : isIdentifier s = true) :
    (∀ c ∈ s.toList, c.toNat < 127) ∧ 1 ≤ s.toList.length ∧ s.toList.length ≤ 128 := by
  rw [isIdentifier] at h
  split at h
  · cases h
  · rename_i c cs hchars
    simp only [Bool.and_eq_true, decide_eq_true_eq, List.all_eq_true, Bool.or_eq_true] at h
    obtain ⟨⟨hc, hlen⟩, hcs⟩ := h
    rw [hchars, List.length_cons]
    refine ⟨fun d hd => ?_, Nat.succ_le_succ (Nat.zero_le _), Nat.succ_le_succ hlen⟩
    rcases List.mem_cons.mp hd with rfl | hd
    · exact toNat_lt_of_isAlnum hc
    · rcases hcs d hd with (((hd | rfl) | rfl) | rfl) | rfl
      · exact toNat_lt_of_isAlnum hd
      all_goals decide

/-- **Identifiers cross the queries.** -/
@[simp] theorem sqlText_identifier (i : Identifier) : sqlText 128 (some i.val) = some i.val := by
  obtain ⟨hchars, hpos, hle⟩ := isIdentifier_chars i.property
  exact sqlText_ascii (fun c hc => Nat.lt_succ_of_lt (hchars c hc)) hpos hle

theorem Checked.digest_chars (d : Digest) :
    d.val.toList.length = 64 ∧ ∀ c ∈ d.val.toList, isLowerHex c = true := by
  have h : isDigest d.val = true := d.property
  simpa only [isDigest, Bool.and_eq_true, decide_eq_true_eq, List.all_eq_true] using h

/-- **Digests cross the queries.** -/
theorem sqlText_digest {maximum : Nat} (h : 64 ≤ maximum) (d : Digest) :
    sqlText maximum (some d.val) = some d.val := by
  obtain ⟨hlen, hchars⟩ := Checked.digest_chars d
  refine sqlText_ascii (fun c hc => ?_) (by omega) (by omega)
  exact (toNat_lt_of_isLowerHex (hchars c hc)).2.trans (by decide)

/-- A digest can name an event. -/
theorem isText_digest (d : Digest) : isText 2048 d.val = true := by
  obtain ⟨hlen, hchars⟩ := Checked.digest_chars d
  simp only [isText, hlen, Bool.and_eq_true, decide_eq_true_eq, List.all_eq_true]
  refine ⟨by decide, fun c hc => ?_⟩
  obtain ⟨hlow, hhigh⟩ := toNat_lt_of_isLowerHex (hchars c hc)
  exact ⟨hlow, by omega⟩

/-! ### Addresses -/

/-- The canonical text of an address. -/
theorem ip_ofList {s : List Char} {a : IpAddress} (hparse : IpAddress.parse s = some a)
    (htext : a.toText = s) (hlen : s.length ≤ 64) (hzone : '%' ∉ s) :
    ip (String.ofList s) = some (String.ofList s) := by
  have hne : s ≠ [] := by
    intro hnil
    rw [hnil] at hparse
    have hnone : IpAddress.parse [] = none := by decide
    rw [hnone] at hparse
    cases hparse
  rw [ip, String.toList_ofList, if_pos ⟨List.length_pos_iff.mpr hne, hlen, hzone⟩, hparse,
    Option.map_some, htext]

/-- **Addresses cross the queries.** -/
@[simp] theorem sqlText_ip (a : Ip) : sqlText 64 (some a.val) = some a.val := by
  have h : ip a.val = some a.val := by
    have hp : isIp a.val = true := a.property
    simpa only [isIp, decide_eq_true_eq] using hp
  rw [ip] at h
  split at h
  · rename_i hbounds
    obtain ⟨addr, haddr, htext⟩ := Option.map_eq_some_iff.mp h
    have hzone := IpAddress.zone_eq_none haddr hbounds.2.2
    refine sqlText_ascii (fun c hc => ?_) hbounds.1 hbounds.2.1
    rw [← htext, String.toList_ofList] at hc
    exact Nat.lt_succ_of_lt (IpAddress.ascii_of_mem_toText hzone hc).2
  · cases h

@[simp] theorem Ip.read_val (a : Ip) : Ip.read a.val = some a := by
  have h : ip a.val = some a.val := by
    have hp : isIp a.val = true := a.property
    simpa only [isIp, decide_eq_true_eq] using hp
  rw [Ip.read, h, Option.bind_some, Checked.of?_val]

/-! ### The rows of a revision -/

theorem consume_of_le {l : ReadLimits} {bytes amount : Nat}
    (h : (bytes + amount : Nat) ≤ l.byteLimit.val) :
    l.consume bytes amount = .ok (bytes + amount) := by
  rw [ReadLimits.consume, if_neg]
  push_cast at h ⊢
  omega

/-- **Within the limits the rows are read one by one**, and the first that cannot be read fails. -/
theorem foldlM_collect {l : ReadLimits} {a : Anchor} (rows : List NetworkRow)
    (acc : List NetworkEvidence) (bytes : Nat)
    (hrecords : (acc.length + rows.length : Nat) ≤ l.recordLimit.val)
    (hbytes : (bytes + (rows.map NetworkRow.bytes).sum : Nat) ≤ l.byteLimit.val) :
    rows.foldlM (NetworkRow.collect l a) (acc, bytes) =
      valid ((rows.mapM (NetworkRow.read · a)).map fun records =>
        (acc ++ records, bytes + (rows.map NetworkRow.bytes).sum)) := by
  induction rows generalizing acc bytes with
  | nil => simp [valid, pure, Except.pure]
  | cons row rows ih =>
    rw [List.map_cons, List.sum_cons] at hbytes ⊢
    rw [List.length_cons] at hrecords
    have hconsume : l.consume bytes row.bytes = .ok (bytes + row.bytes) := by
      refine consume_of_le ?_
      omega
    have hroom : ¬l.recordLimit.val < ((acc.length + 1 : Nat) : Int) := by
      push_cast at hrecords ⊢
      omega
    rw [List.foldlM_cons, NetworkRow.collect, hconsume]
    cases hread : row.read a with
    | none =>
      rw [List.mapM_cons, hread]
      rfl
    | some e =>
      have hnext := ih (acc ++ [e]) (bytes + row.bytes)
        (by rw [List.length_append, List.length_singleton]; omega) (by omega)
      rw [List.mapM_cons, hread]
      simp only [valid, if_neg hroom, bind, Except.bind, pure, Except.pure, hnext]
      cases hrows : rows.mapM (NetworkRow.read · a) with
      | none => rfl
      | some records => simp [Nat.add_assoc]

theorem length_mapM {α β : Type} {f : α → Option β} {xs : List α} {ys : List β}
    (h : xs.mapM f = some ys) : ys.length = xs.length := by
  induction xs generalizing ys with
  | nil =>
    obtain rfl := Option.some.inj h
    rfl
  | cons x xs ih =>
    rw [List.mapM_cons] at h
    obtain ⟨y, -, hrest⟩ := Option.bind_eq_some_iff.mp h
    obtain ⟨zs, hzs, hys⟩ := Option.bind_eq_some_iff.mp hrest
    rw [← Option.some.inj hys, List.length_cons, List.length_cons, ih hzs]

/-- What the tables and the limits provide for one revision, whatever its rows say. -/
structure Retained (l : ReadLimits) (db : NetworkDb) (incidentId : String) (revision : Int)
    (case : NetworkCase) (rows : List NetworkRow) : Prop where
  schema : db.applicationId = 0x4E455431 ∧ db.userVersion = 2
  header : ∃ producer row, db.producer.bind (sqlText 128) = some producer ∧
    db.revisions.find? (fun r => r.incidentId = incidentId ∧ r.revision = revision) = some row ∧
    row.read producer incidentId revision = some case ∧
    (db.schemaBytes + db.producerBytes + row.bytes + db.countBytes +
      (rows.map NetworkRow.bytes).sum : Nat) ≤ l.byteLimit.val
  joined : (db.joined incidentId revision).map Prod.snd = rows.map some
  stays : ∀ x ∈ db.joined incidentId revision, x.1.invalid = false
  nodup : ((db.joined incidentId revision).map fun x => x.1.eventId).Nodup
  counted : case.evidenceTotal.map Subtype.val = some (rows.length : Int)
  records : (rows.length : Int) ≤ l.recordLimit.val

/-- **A retained revision is what its rows read as**, in evidence order. -/
theorem readNetworkCase_eq {l : ReadLimits} {db : NetworkDb} {incidentId : String} {revision : Int}
    {case : NetworkCase} {rows : List NetworkRow} (hid : isNetId incidentId = true)
    (hrevision : 1 ≤ revision ∧ revision ≤ 2 ^ 31 - 1)
    (h : Retained l db incidentId revision case rows) :
    match (orderRows rows).mapM (NetworkRow.read · case.toAnchor) with
    | some records => ∃ read bytes,
        readNetworkCase l (.ok db) incidentId revision = .ok (read, bytes) ∧
          read.evidence = records
    | none => readNetworkCase l (.ok db) incidentId revision = .error .evidenceInvalid := by
  obtain ⟨producer, row, hproducer, hfind, hread, hbytes⟩ := h.header
  have hlength : (db.joined incidentId revision).length = rows.length := by
    rw [← List.length_map Prod.snd, h.joined, List.length_map]
  have hrows : (db.joined incidentId revision).filterMap Prod.snd = rows := by
    have hflat := congrArg (List.filterMap id) h.joined
    rw [List.filterMap_map, List.filterMap_map] at hflat
    exact hflat.trans List.filterMap_some
  have hnodup : (db.joined incidentId revision).length =
      ((db.joined incidentId revision).map fun x => x.1.eventId).dedup.length := by
    rw [h.nodup.dedup, List.length_map]
  have hstays : (db.joined incidentId revision).any (fun x => x.1.invalid) = false := by
    rw [List.any_eq_false]
    intro x hx
    rw [h.stays x hx]
    decide
  have hsum : ((orderRows rows).map NetworkRow.bytes).sum = (rows.map NetworkRow.bytes).sum :=
    ((List.perm_insertionSort _ _).map _).sum_nat
  have htake : (orderRows rows).take (l.recordLimit.val.toNat + 1) = orderRows rows := by
    refine List.take_of_length_le ?_
    have hle := h.records
    rw [orderRows, List.length_insertionSort]
    omega
  have hfold := foldlM_collect (a := case.toAnchor) (orderRows rows) []
    (db.schemaBytes + db.producerBytes + row.bytes + db.countBytes)
    (by rw [orderRows, List.length_insertionSort, List.length_nil, Nat.zero_add]; exact h.records)
    (by rw [hsum]; exact hbytes)
  have hrequest : (!isNetId incidentId || !(decide (1 ≤ revision) && decide (revision ≤ 2 ^ 31 - 1)))
      = false := by
    rw [hid, decide_eq_true hrevision.1, decide_eq_true hrevision.2]
    rfl
  have hbound : ∀ n, n ≤ db.schemaBytes + db.producerBytes + row.bytes + db.countBytes +
      (rows.map NetworkRow.bytes).sum → (n : Int) ≤ l.byteLimit.val := by
    intro n hn
    exact (Int.ofNat_le.mpr hn).trans hbytes
  have hschema : l.consume 0 db.schemaBytes = .ok db.schemaBytes := by
    rw [consume_of_le (hbound _ (by omega)), Nat.zero_add]
  have hproducerBytes : l.consume db.schemaBytes db.producerBytes =
      .ok (db.schemaBytes + db.producerBytes) := consume_of_le (hbound _ (by omega))
  have hrowBytes : l.consume (db.schemaBytes + db.producerBytes) row.bytes =
      .ok (db.schemaBytes + db.producerBytes + row.bytes) := consume_of_le (hbound _ (by omega))
  have hcountBytes : l.consume (db.schemaBytes + db.producerBytes + row.bytes) db.countBytes =
      .ok (db.schemaBytes + db.producerBytes + row.bytes + db.countBytes) :=
    consume_of_le (hbound _ (by omega))
  have htotal : ∀ p : Int → Bool, case.evidenceTotal.any (fun total => p total.val) =
      p rows.length := by
    intro p
    have hcounted := h.counted
    cases hcase : case.evidenceTotal with
    | none =>
      rw [hcase] at hcounted
      cases hcounted
    | some total =>
      rw [hcase] at hcounted
      rw [Option.any_some, Option.some.inj hcounted]
  have hover : case.evidenceTotal.any (fun total => decide (l.recordLimit.val < total.val)) =
      false := by
    rw [htotal fun n => decide (l.recordLimit.val < n)]
    exact decide_eq_false (not_lt.mpr h.records)
  have hsame : case.evidenceTotal.any (fun total => decide (total.val ≠ (rows.length : Int))) =
      false := by
    rw [htotal fun n => decide (n ≠ (rows.length : Int))]
    exact decide_eq_false (not_not.mpr rfl)
  have hroom : ¬l.recordLimit.val < (rows.length : Int) := not_lt.mpr h.records
  rw [readNetworkCase]
  simp only [hrequest, h.schema, hschema, hproducerBytes, hproducer, hfind, hrowBytes, hread,
    hcountBytes, hlength, hstays, ← hnodup, hrows, hover, hsame, hroom, valid, bind, Except.bind,
    htake, hfold, ne_eq, not_true_eq_false, decide_false, Bool.or_self, or_self, if_false,
    Bool.false_eq_true]
  cases hrecords : (orderRows rows).mapM (NetworkRow.read · case.toAnchor) with
  | none => rfl
  | some records =>
    have hlen : records.length = rows.length := by
      rw [length_mapM hrecords, orderRows, List.length_insertionSort]
    have hmax : records.length ≤ maxRecords := by
      have hlimit := l.recordLimit.property.2
      have hle := h.records
      rw [hlen, maxRecords]
      omega
    exact ⟨_, _, dif_pos ⟨hlen, hmax⟩, rfl⟩

end RiskOps.JointEvidence
