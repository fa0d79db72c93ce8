import RiskOps.Telemetry.NetworkDetectionSpec
import RiskOps.Telemetry.NetworkIncidents

/-!
# RiskOps.Telemetry.NetworkCases — what one window puts in its case

**The evidence of a case by its context.** A case takes every finding of its context with an
observation in the hour. For an observation of the hour that is to be part of a probe
(`mem_selected_of_hour`); for every other one it implies it (`probed_of_selected`).
-/

namespace RiskOps.Telemetry.Network

open RiskOps.Lib

variable {D : Type}

/-! ### Hours -/

theorem dvd_of_mem_buckets {t hour : Nat} (ht : t ≤ maxMonotonicUs) (h : hour ∈ buckets t) :
    hourUs ∣ hour ∧ hour ≤ maxMonotonicUs := by
  have hdvd : hourUs ∣ hourOf t := Dvd.intro_left _ rfl
  have hle : hourOf t ≤ t := Nat.div_mul_le_self t hourUs
  rw [buckets, List.mem_cons, List.mem_append] at h
  rcases h with rfl | h | h
  · exact ⟨hdvd, hle.trans ht⟩
  · split at h
    · rw [List.mem_singleton.mp h]
      exact ⟨Nat.dvd_sub hdvd (dvd_refl _), by omega⟩
    · exact absurd h List.not_mem_nil
  · split at h
    · rename_i hguard
      rw [List.mem_singleton.mp h]
      exact ⟨dvd_add hdvd (dvd_refl _), hguard.2⟩
    · exact absurd h List.not_mem_nil

/-- **An observation marks every hour whose context holds it.** -/
theorem mem_buckets {t hour : Nat} (hdvd : hourUs ∣ hour) (hmax : hour ≤ maxMonotonicUs)
    (hlow : contextStart hour ≤ t) (hhigh : t ≤ contextEnd hour) : hour ∈ buckets t := by
  obtain ⟨m, rfl⟩ := hdvd
  have hhigh' : t ≤ hourUs * m + hourUs + windowUs := hhigh.trans (min_le_right _ _)
  obtain ⟨k, hk, hle, hlt⟩ : ∃ k, hourOf t = hourUs * k ∧ hourUs * k ≤ t ∧ t < hourUs * k + hourUs :=
    ⟨t / hourUs, Nat.mul_comm _ _, Nat.mul_div_le t hourUs, Nat.lt_mul_div_succ t (by decide)⟩
  have hstart : hourUs * m ≤ t + windowUs := by
    rw [contextStart] at hlow
    omega
  have hnear : m = k ∨ k = m + 1 ∨ m = k + 1 := by
    simp only [hourUs, windowUs] at hle hlt hhigh' hstart
    omega
  rw [buckets, hk, List.mem_cons, List.mem_append]
  rcases hnear with rfl | rfl | rfl
  · exact Or.inl rfl
  · have hguard : t - hourUs * (m + 1) ≤ windowUs ∧ hourUs * (m + 1) ≠ 0 := by
      refine ⟨?_, Nat.mul_ne_zero (by decide) (Nat.succ_ne_zero m)⟩
      rw [Nat.mul_succ] at hle ⊢
      omega
    refine Or.inr (Or.inl ?_)
    rw [if_pos hguard, List.mem_singleton, Nat.mul_succ, Nat.add_sub_cancel]
  · have hguard : t - hourUs * k ≥ hourUs - windowUs ∧ hourUs * k + hourUs ≤ maxMonotonicUs := by
      rw [Nat.mul_succ] at hstart hmax
      exact ⟨by omega, hmax⟩
    refine Or.inr (Or.inr ?_)
    rw [if_pos hguard, List.mem_singleton, Nat.mul_succ]

variable {e : NetworkEvent D}

theorem monotonic_of_valid {d : EventDigests D} [DecidableEq D] (h : validateEvent d e = .ok ()) :
    e.journalMonotonicUs ≤ maxMonotonicUs := by
  rw [validateEvent] at h
  obtain ⟨_, hidentity, _⟩ := bind_eq_ok.mp h
  rw [validIdentity] at hidentity
  split at hidentity
  · cases hidentity
  · split at hidentity
    · cases hidentity
    · split at hidentity
      · cases hidentity
      · split at hidentity
        · cases hidentity
        · rename_i htime
          simp only [Bool.or_eq_true, decide_eq_true_eq, not_or, not_lt] at htime
          exact htime.2

/-! ### Reading the context -/

section Context

variable {size : NetworkEvent D → Nat}

theorem readContext_eq {acc rest : List (NetworkEvent D)} {total : Nat}
    (h : (readContext size acc total rest).2 = false) :
    (readContext size acc total rest).1 = acc ++ rest ∧
      (rest ≠ [] → (acc ++ rest).length ≤ maxContextRecords) := by
  induction rest generalizing acc total with
  | nil => exact ⟨by rw [readContext, List.append_nil], fun hne => absurd rfl hne⟩
  | cons e rest ih =>
    rw [readContext] at h ⊢
    split at h
    · cases h
    · rename_i hlimit
      rw [if_neg hlimit]
      obtain ⟨hread, hlen⟩ := ih h
      refine ⟨by rw [hread, List.append_assoc, List.singleton_append], fun _ => ?_⟩
      cases rest with
      | nil =>
        rw [List.length_append, List.length_singleton]
        omega
      | cons e' rest =>
        have := hlen (List.cons_ne_nil _ _)
        simpa using this

/-- **A window that reaches no limit has read its whole context.** -/
theorem readContext_take {rows : List (NetworkEvent D)}
    (h : (readContext size [] 0 (rows.take (maxContextRecords + 1))).2 = false) :
    (readContext size [] 0 (rows.take (maxContextRecords + 1))).1 = rows := by
  obtain ⟨hread, hlen⟩ := readContext_eq h
  rw [List.nil_append] at hread hlen
  refine hread.trans (List.take_of_length_le ?_)
  by_contra hlong
  have htake : (rows.take (maxContextRecords + 1)).length = maxContextRecords + 1 :=
    List.length_take_of_le (by omega)
  have hne : rows.take (maxContextRecords + 1) ≠ [] := by
    intro hnil
    rw [hnil] at htake
    cases htake
  have := hlen hne
  omega

end Context

/-! ### Selected observations -/

section Selected

variable [LinearOrder D] {events : List (NetworkEvent D)} {p : Peer D} {hour : Nat} {det : Detector D}
  {limits : InputLimits} {report : NetworkReport D} {findings : List (NetworkFinding D)}

theorem inContext_iff {key : WindowKey D} :
    inContext key e = true ↔ e.peer = key.1 ∧ contextStart key.2 ≤ e.journalMonotonicUs ∧
      e.journalMonotonicUs ≤ contextEnd key.2 := by
  simp [inContext, and_assoc]

variable {id : D}

theorem mem_selectedIds : id ∈ selectedIds events hour findings ↔
    ∃ f ∈ findings, touches events hour f = true ∧ id ∈ f.evidenceIds := by
  simp only [selectedIds, List.mem_dedup, List.mem_flatMap, List.mem_filter, and_assoc]

theorem lookup_eventId (hd : Distinct events) (hpeer : ∀ e ∈ events, e.peer = p) (he : e ∈ events) :
    lookup events e.eventId = some e := by
  cases hfind : lookup events e.eventId with
  | none =>
    have := List.find?_eq_none.mp hfind e (List.mem_reverse.mpr he)
    simp at this
  | some a =>
    have ha : a ∈ events := List.mem_reverse.mp (List.mem_of_find?_eq_some hfind)
    have hid : a.eventId = e.eventId := by simpa using List.find?_some hfind
    rw [hd.eq_of_eventId hpeer ha he hid]

/-- **What a case cites is part of a probe.** -/
theorem probed_of_selected (hd : Distinct events) (hpeer : ∀ e ∈ events, e.peer = p)
    (hreport : detectNetwork det limits events = .ok report)
    (h : id ∈ selectedIds events hour report.findings) :
    ∃ e ∈ events, e.eventId = id ∧ Probed events e := by
  obtain ⟨f, hf, -, hid⟩ := Iff.mp mem_selectedIds h
  exact (detectNetwork_findings hd hpeer hreport).mp ⟨f, hf, hid⟩

/-- **An observation of the hour is cited exactly when it is part of a probe.** -/
theorem mem_selected_of_hour (hd : Distinct events) (hpeer : ∀ e ∈ events, e.peer = p)
    (hreport : detectNetwork det limits events = .ok report) (he : e ∈ events)
    (hhour : inHour hour e = true) :
    e.eventId ∈ selectedIds events hour report.findings ↔ Probed events e := by
  constructor
  · intro h
    obtain ⟨a, ha, hid, hprobed⟩ := probed_of_selected hd hpeer hreport h
    rw [← hd.eq_of_eventId hpeer ha he hid]
    exact hprobed
  · intro hprobed
    obtain ⟨f, hf, hid⟩ := (detectNetwork_findings hd hpeer hreport).mpr ⟨e, he, rfl, hprobed⟩
    refine Iff.mpr mem_selectedIds ⟨f, hf, ?_, hid⟩
    rw [touches, List.any_eq_true]
    exact ⟨e.eventId, hid, by rw [lookup_eventId hd hpeer he]; exact hhour⟩

/-- The evidence of a case are the observations of the selected ids. -/
theorem mem_selectedRows_ids (hd : Distinct events) (hpeer : ∀ e ∈ events, e.peer = p)
    (hreport : detectNetwork det limits events = .ok report) :
    id ∈ (selectedRows events hour report.findings).map NetworkEvent.eventId ↔
      id ∈ selectedIds events hour report.findings := by
  simp only [selectedRows, List.mem_map, List.mem_insertionSort, List.mem_filterMap]
  constructor
  · intro ⟨e, ⟨id', hid', hlookup⟩, hid⟩
    have hsame : e.eventId = id' := by simpa using List.find?_some hlookup
    rw [← hid, hsame]
    exact hid'
  · intro hid
    obtain ⟨e, he, rfl, -⟩ := probed_of_selected hd hpeer hreport hid
    exact ⟨e, ⟨e.eventId, hid, lookup_eventId hd hpeer he⟩, rfl⟩

end Selected

/-! ### Saving a case -/

section Saving

variable [LinearOrder D] {A : Analysis D}

/-- The ids a payload lists. -/
def Payload.ids (payload : Payload D) : List D := payload.evidence.map NetworkEvent.eventId

/-- A payload is active exactly when it lists something. -/
def Payload.Sound (payload : Payload D) : Prop := payload.active = true ↔ payload.ids ≠ []

/-- What the cases hold is what their payloads list, and their flags say whether that is
anything. -/
structure BookRight (book : CaseBook (WindowKey D) (Payload D) D) : Prop where
  members : book.Members Payload.ids
  sound : ∀ key payload, book.payload? key = some payload → payload.Sound

/-- What saving a case leaves alone. -/
structure SameInput (A B : Analysis D) : Prop where
  cursor : B.cursor = A.cursor
  context : B.context = A.context
  losses : B.losses = A.losses
  windows : B.windows = A.windows

omit [LinearOrder D] in
theorem SameInput.refl (A : Analysis D) : SameInput A A := ⟨rfl, rfl, rfl, rfl⟩

theorem storeCase_sameInput (A : Analysis D) (key : WindowKey D) (payload : Payload D)
    (events : List (NetworkEvent D)) (selected : Option (List D)) (now : ℚ) :
    SameInput A (storeCase A key payload events selected now) := by
  rw [storeCase]
  split
  · exact SameInput.refl A
  · exact ⟨rfl, rfl, rfl, rfl⟩

theorem storeCase_book (A : Analysis D) (key : WindowKey D) (payload : Payload D)
    (events : List (NetworkEvent D)) (selected : Option (List D)) (now : ℚ) :
    (storeCase A key payload events selected now).book = A.book.revise key payload selected now := by
  rw [storeCase]
  split
  · rename_i hsame
    rw [CaseBook.revise.eq_def, if_pos hsame]
  · rfl

/-- What saving a case does to the book: the payload of one key, and what it holds. -/
structure Saved (A B : Analysis D) (key : WindowKey D) : Prop where
  same : SameInput A B
  right : BookRight B.book
  others : ∀ k, k ≠ key → ∀ id, id ∈ B.book.holds k ↔ id ∈ A.book.holds k
  keys : ∀ k, (B.book.payload? k).isSome → k = key ∨ (A.book.payload? k).isSome

theorem BookRight.revise {book : CaseBook (WindowKey D) (Payload D) D} {key : WindowKey D}
    {payload : Payload D} {selected : Option (List D)} {now : ℚ} (h : BookRight book)
    (hsound : payload.Sound) (hmembers : (book.revise key payload selected now).Members Payload.ids) :
    BookRight (book.revise key payload selected now) := by
  refine ⟨hmembers, fun k old hk => ?_⟩
  rw [CaseBook.payload?_revise] at hk
  split at hk
  · cases hk
    exact hsound
  · exact h.sound k old hk

theorem payload?_revise_isSome {book : CaseBook (WindowKey D) (Payload D) D} {key k : WindowKey D}
    {payload : Payload D} {selected : Option (List D)} {now : ℚ}
    (h : ((book.revise key payload selected now).payload? k).isSome) :
    k = key ∨ (book.payload? k).isSome := by
  rw [CaseBook.payload?_revise] at h
  split at h
  · rename_i hk
    exact Or.inl hk.symm
  · exact Or.inr h

/-- **A case that was analysed holds exactly what was selected.** -/
theorem saveCase_saved {key : WindowKey D} {events : List (NetworkEvent D)} {det : Detector D}
    {limits : InputLimits} {report : NetworkReport D} (hA : BookRight A.book)
    (hd : Distinct events) (hpeer : ∀ e ∈ events, e.peer = key.1)
    (hreport : detectNetwork det limits events = .ok report) (coverage : Finset Note) (now : ℚ) :
    Saved A (saveCase A key coverage events report.findings now) key ∧
      ∀ id, id ∈ (saveCase A key coverage events report.findings now).book.holds key ↔
        id ∈ selectedIds events key.2 report.findings := by
  have hids : ∀ id, id ∈ (completePayload key coverage events report.findings
      (A.book.payload? key)).ids ↔ id ∈ selectedIds events key.2 report.findings :=
    fun id => mem_selectedRows_ids hd hpeer hreport
  rw [saveCase]
  split
  · rename_i hempty
    refine ⟨⟨SameInput.refl A, hA, fun _ _ _ => Iff.rfl, fun _ hk => Or.inr hk⟩, fun id => ?_⟩
    rw [List.isEmpty_iff.mp hempty.1]
    exact iff_of_false (hA.members.of_none (Option.isNone_iff_eq_none.mp hempty.2) id)
      List.not_mem_nil
  · obtain ⟨book, hbook⟩ : ∃ book, book = A.book.revise key (completePayload key coverage events
        report.findings (A.book.payload? key)) (some (selectedIds events key.2 report.findings)) now :=
      ⟨_, rfl⟩
    obtain ⟨hmembers, hholds⟩ : book.Members Payload.ids ∧ ∀ k id, id ∈ book.holds k ↔
        if k = key then id ∈ selectedIds events key.2 report.findings else id ∈ A.book.holds k :=
      hbook ▸ hA.members.revise_some hids now
    have hsound : (completePayload key coverage events report.findings
        (A.book.payload? key)).Sound := by
      rw [Payload.Sound, Ne, List.eq_nil_iff_forall_not_mem]
      simp only [hids]
      rw [← List.eq_nil_iff_forall_not_mem]
      show (!List.isEmpty _) = true ↔ _
      rw [Bool.not_eq_true', ← Bool.not_eq_true, List.isEmpty_iff]
    refine ⟨⟨storeCase_sameInput A key _ events _ now, ?_, fun k hk id => ?_, fun k hk => ?_⟩,
      fun id => ?_⟩
    · rw [storeCase_book]
      exact hA.revise hsound (hbook ▸ hmembers)
    · rw [storeCase_book, ← hbook, hholds k id, if_neg hk]
    · rw [storeCase_book] at hk
      exact payload?_revise_isSome hk
    · rw [storeCase_book, ← hbook, hholds key id, if_pos rfl]

/-- **A case that could not be analysed keeps what it holds.** -/
theorem saveStale_saved (hA : BookRight A.book) (key : WindowKey D) (coverage : Finset Note)
    (now : ℚ) : Saved A (saveStale A key coverage now) key := by
  rw [saveStale]
  cases hold : A.book.payload? key with
  | none => exact ⟨SameInput.refl A, hA, fun _ _ _ => Iff.rfl, fun _ hk => Or.inr hk⟩
  | some old =>
    have hids : (stalePayload coverage old).ids = old.ids := rfl
    obtain ⟨hmembers, hholds⟩ := hA.members.revise_none hold hids now
    have hsound : (stalePayload coverage old).Sound := hA.sound key old hold
    refine ⟨storeCase_sameInput A key _ [] none now, ?_, fun k _ id => ?_, fun k hk => ?_⟩
    · rw [storeCase_book]
      exact hA.revise hsound hmembers
    · rw [storeCase_book, hholds k]
    · rw [storeCase_book] at hk
      exact payload?_revise_isSome hk

end Saving

end RiskOps.Telemetry.Network
