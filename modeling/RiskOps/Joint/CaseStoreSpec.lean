import RiskOps.Joint.CaseStore

/-!
# RiskOps.Joint.CaseStoreSpec — what one call of the joint case store can do

`Effect` lists the ways a successful call changes the store, and `step_effect` proves that there
are no others. Every invariant of the store is a case analysis over it.
-/

namespace RiskOps.Joint

open RiskOps.Lib

/-- The call refers to this work item. -/
def Op.item? : Op → Option WorkItem
  | .publish item _ _ => some item
  | .fail item _ _ => some item
  | _ => none

/-- The call records a failed discovery. -/
def Op.reportsFailure : Op → Bool
  | .failDiscovery _ _ _ => true
  | .recordDiscoveryFailure _ _ => true
  | _ => false

/-- A pending item that the work item describes, with its registration. -/
structure Store.Awaits (s : Store) (item : WorkItem) (i : Item) (r : Registration) : Prop where
  found : s.items.find? item.names = some i
  pending : i.outcome = none
  registered : s.registrations.find? (fun r => r.seq = item.registrationSeq) = some r
  incident : r.incidentId = item.incidentId
  generation : i.capturedGeneration = item.requestGeneration
  revision : i.capturedRevision = item.networkRevision

/-- The registration still requests what the item captured. -/
def Registration.requests (r : Registration) (item : WorkItem) : Prop :=
  r.requestGeneration = item.requestGeneration ∧ r.requestedRevision = item.networkRevision

inductive Effect (env : Env) (s : Store) : Op → Store → Reply → Prop
  | discoveryRunning {target : Nat} {producer identity : String} {d : Discovery}
      (h : s.discovery = some d) (hd : d.complete = false) :
      Effect env s (.beginDiscovery target producer identity) s (.discovery d)
  | cycleRunning {identity : String} {c : Cycle} (h : s.cycle = some c)
      (hc : c.attemptedComplete = false) : Effect env s (.beginCycle identity) s (.cycle c)
  | ignored {op : Op} {reply : Reply} (h : reply = .superseded ∨ reply = .alreadyProcessed) :
      Effect env s op s reply
  | registered {requests : List AnchorRequest} {rows : List Registration}
      {summary : RegisterSummary}
      (h : registerAll env.limits.registrationLimit s.registrations requests = .ok (rows, summary)) :
      Effect env s (.register requests) { s with registrations := rows }
        (.registered summary rows.length)
  | discoveryBegun {target : Nat} {producer identity : String} {d : Discovery}
      (hprev : ∀ d, s.discovery = some d → d.complete = true)
      (hd : d.cycleId = identity) (herror : d.error = none) :
      Effect env s (.beginDiscovery target producer identity)
        { s with
          discovery := some d
          runtime := { s.runtime with
            recoveryDiscoveryDone := d.complete
            recoveryRefreshCycle := none
            recoveryDiscoveryCycle := some identity
            discoveryError := if d.complete then none else s.runtime.discoveryError } }
        (.discovery d)
  | pageApplied {cycleId : String} {cursor : Nat} {page : DiscoveryPage} {current d : Discovery}
      {rows : List Registration} {summary : RegisterSummary}
      (hcurrent : currentDiscovery s cycleId cursor = some current)
      (hrows : registerAll env.limits.registrationLimit s.registrations page.eligible =
        .ok (rows, summary))
      (hd : d.cycleId = current.cycleId ∧ d.complete = page.complete ∧ d.error = none) :
      Effect env s (.applyDiscoveryPage cycleId cursor page)
        { s with
          registrations := rows
          discovery := some d
          runtime := if page.complete then s.runtime.discovered cycleId else s.runtime } .applied
  | discoveryFailed {op : Op} {code : String} {d : Option Discovery} (hop : op.reportsFailure = true) :
      Effect env s op { s with discovery := d, runtime := s.runtime.fail code } .recorded
  | cycleBegun {identity : String} {c : Cycle}
      (hprev : ∀ c, s.cycle = some c → c.attemptedComplete = true) :
      Effect env s (.beginCycle identity) (s.withCycle identity).recoverIfComplete (.cycle c)
  | finished {op : Op} {item : WorkItem} {o : Outcome} {e : Option String} {i : Item}
      {r : Registration} {s₁ : Store} {rows : List Registration} (hop : op.item? = some item)
      (hawaits : s.Awaits item i r)
      (hs₁ : s₁ = s ∨ ∃ value caseId now, o = .published ∧ r.requests item ∧
        s.addRevision env item value caseId now = .ok s₁)
      (hrows : rows.map Registration.seq = s.registrations.map Registration.seq) :
      Effect env s op ({ s₁ with registrations := rows }.finish item o e) (.outcome o)

/-! ### The methods -/

theorem map_seq_updateRegistration {seq : Nat} {f : Registration → Registration}
    (hf : ∀ r, (f r).seq = r.seq) (rows : List Registration) :
    (updateRegistration seq f rows).map Registration.seq = rows.map Registration.seq := by
  rw [updateRegistration, List.map_map]
  refine List.map_congr_left fun r _ => ?_
  simp only [Function.comp_apply]
  split
  · exact hf r
  · rfl

/-- **`_register`.** One request leaves the rows alone, appends a row while there is room, or
requests a newer revision of one. -/
theorem registerOne_cases {limit : Nat} {x y : List Registration × RegisterSummary}
    {item : AnchorRequest} (h : registerOne limit x item = .ok y) :
    y.1 = x.1 ∨
    (x.1.length < limit ∧ y.1 = x.1 ++ [newRegistration (lastSeq x.1 + 1) item]) ∨
    ∃ seq, y.1 = updateRegistration seq (Registration.request item.revision) x.1 := by
  unfold registerOne at h
  cases hf : x.1.find? fun r => r.incidentId = item.incidentId with
  | none =>
    rw [hf] at h
    simp only at h
    split at h
    · simp at h
    · rename_i hroom
      obtain rfl := Except.ok.inj h
      exact Or.inr (Or.inl ⟨by omega, rfl⟩)
  | some row =>
    rw [hf] at h
    simp only at h
    split at h
    · simp at h
    · split at h
      · obtain rfl := Except.ok.inj h
        exact Or.inl rfl
      · obtain rfl := Except.ok.inj h
        exact Or.inr (Or.inr ⟨row.seq, rfl⟩)

theorem foldlM_registerOne {limit : Nat} {P : List Registration → Prop}
    (hstep : ∀ x item y, registerOne limit x item = .ok y → P x.1 → P y.1)
    {requests : List AnchorRequest} {x y : List Registration × RegisterSummary}
    (h : requests.foldlM (registerOne limit) x = .ok y) (hx : P x.1) : P y.1 := by
  induction requests generalizing x with
  | nil =>
    obtain rfl := Except.ok.inj h
    exact hx
  | cons item requests ih =>
    rw [List.foldlM_cons] at h
    obtain ⟨z, hz, hzy⟩ := bind_eq_ok.mp h
    exact ih hzy (hstep x item z hz hx)

/-- **Loop rule of `_register`.** What every request keeps, the whole list keeps. -/
theorem registerAll_invariant {limit : Nat} {P : List Registration → Prop}
    (hstep : ∀ x item y, registerOne limit x item = .ok y → P x.1 → P y.1)
    {rows rows' : List Registration} {requests : List AnchorRequest} {summary : RegisterSummary}
    (h : registerAll limit rows requests = .ok (rows', summary)) (hrows : P rows) : P rows' :=
  foldlM_registerOne (x := (rows, ⟨0, 0, 0⟩)) (y := (rows', summary)) hstep h hrows

theorem recoverIfComplete_eq (s : Store) : s.recoverIfComplete = s ∨
    s.recoverIfComplete = { s with runtime := { s.runtime with revalidationPending := false } } := by
  unfold Store.recoverIfComplete
  split
  · exact Or.inr rfl
  · exact Or.inl rfl

/-- **`_pending`.** It hands out the registration of a pending item that is still requested,
finishes a pending item that is not, or changes nothing. -/
theorem pending_cases (s : Store) (item : WorkItem) :
    (∃ i r, s.pending item = .ok r ∧ s.Awaits item i r ∧ r.requests item) ∨
    (∃ i r, s.pending item = .error (s.finish item .superseded none, .outcome .superseded) ∧
      s.Awaits item i r) ∨
    s.pending item = .error (s, .alreadyProcessed) := by
  unfold Store.pending
  cases hi : s.items.find? item.names with
  | none => exact Or.inr (Or.inr rfl)
  | some i =>
    cases hr : s.registrations.find? fun r => r.seq = item.registrationSeq with
    | none => exact Or.inr (Or.inr rfl)
    | some r =>
      simp only [Option.bind_some, Option.map_some]
      split
      · exact Or.inr (Or.inr rfl)
      · rename_i hmatch
        simp only [Bool.or_eq_true, not_or, Bool.not_eq_true, Bool.not_eq_false', decide_eq_true_eq,
          not_not, Item.isPending, Option.isNone_iff_eq_none] at hmatch
        have hawaits : s.Awaits item i r :=
          ⟨hi, hmatch.1.1.1, hr, hmatch.1.1.2, hmatch.1.2, hmatch.2⟩
        split
        · exact Or.inr (Or.inl ⟨i, r, rfl, hawaits⟩)
        · rename_i hrequest
          simp only [Bool.or_eq_true, not_or, decide_eq_true_eq, not_not] at hrequest
          exact Or.inl ⟨i, r, rfl, hawaits, hrequest⟩

variable {env : Env} {s s' : Store}

theorem addRevision_registrations {item : WorkItem} {value : ValidatedRead} {caseId now : String}
    (h : s.addRevision env item value caseId now = .ok s') :
    s'.registrations = s.registrations := by
  unfold Store.addRevision at h
  simp only at h
  split at h
  · simp at h
  · split at h
    · simp at h
    · rw [← Except.ok.inj h]

theorem publishCase_effect {item : WorkItem} {i : Item} {r : Registration} {value : ValidatedRead}
    {caseId now : String} {reply : Reply} {op : Op} (hop : op.item? = some item)
    (hawaits : s.Awaits item i r) (hreq : r.requests item)
    (h : s.publishCase env item r value caseId now = .ok (s', reply)) :
    Effect env s op s' reply := by
  unfold Store.publishCase at h
  split at h
  · simp at h
  · simp only at h
    split at h
    · cases hadd : s.addRevision env item value caseId now with
      | error e => simp [hadd] at h
      | ok s₁ =>
        rw [hadd] at h
        simp only at h
        split at h
        · simp at h
        · simp only [Except.ok.injEq, Prod.mk.injEq] at h
          obtain ⟨rfl, rfl⟩ := h
          refine .finished hop hawaits (Or.inr ⟨value, caseId, now, rfl, hreq, hadd⟩) ?_
          refine (map_seq_updateRegistration (fun r => ?_) _).trans ?_
          · rfl
          · rw [addRevision_registrations hadd]
    · split at h
      · simp at h
      · simp only [Except.ok.injEq, Prod.mk.injEq] at h
        obtain ⟨rfl, rfl⟩ := h
        refine .finished hop hawaits (Or.inl rfl) (map_seq_updateRegistration (fun r => ?_) _)
        rfl

theorem publish_effect {item : WorkItem} {value : ValidatedRead} {now : String} {reply : Reply}
    (h : publish env s item value now = .ok (s', reply)) :
    Effect env s (.publish item value now) s' reply := by
  unfold publish at h
  cases hv : env.validateRead item value with
  | error e => simp [hv] at h
  | ok v =>
    rw [hv] at h
    simp only at h
    rcases pending_cases s item with ⟨i, r, hp, hawaits, hreq⟩ | ⟨i, r, hp, hawaits⟩ | hp
    · rw [hp] at h
      simp only at h
      split at h
      · simp at h
      · split at h
        · simp only [Except.ok.injEq, Prod.mk.injEq] at h
          obtain ⟨rfl, rfl⟩ := h
          refine .finished rfl hawaits (Or.inl rfl) (map_seq_updateRegistration (fun r => ?_) _)
          rfl
        · exact publishCase_effect rfl hawaits hreq h
    · rw [hp] at h
      simp only [Except.ok.injEq, Prod.mk.injEq] at h
      obtain ⟨rfl, rfl⟩ := h
      exact @Effect.finished _ _ _ item _ _ i r s s.registrations rfl hawaits (Or.inl rfl) rfl
    · rw [hp] at h
      simp only [Except.ok.injEq, Prod.mk.injEq] at h
      obtain ⟨rfl, rfl⟩ := h
      exact .ignored (Or.inr rfl)

theorem fail_effect {item : WorkItem} {code now : String} {reply : Reply}
    (h : fail env s item code now = .ok (s', reply)) :
    Effect env s (.fail item code now) s' reply := by
  unfold fail at h
  split at h
  · simp at h
  · rcases pending_cases s item with ⟨i, r, hp, hawaits, -⟩ | ⟨i, r, hp, hawaits⟩ | hp
    · rw [hp] at h
      simp only [Except.ok.injEq, Prod.mk.injEq] at h
      obtain ⟨rfl, rfl⟩ := h
      refine .finished rfl hawaits (Or.inl rfl) (map_seq_updateRegistration (fun r => ?_) _)
      rfl
    · rw [hp] at h
      simp only [Except.ok.injEq, Prod.mk.injEq] at h
      obtain ⟨rfl, rfl⟩ := h
      exact @Effect.finished _ _ _ item _ _ i r s s.registrations rfl hawaits (Or.inl rfl) rfl
    · rw [hp] at h
      simp only [Except.ok.injEq, Prod.mk.injEq] at h
      obtain ⟨rfl, rfl⟩ := h
      exact .ignored (Or.inr rfl)

theorem register_effect {requests : List AnchorRequest} {reply : Reply}
    (h : register env s requests = .ok (s', reply)) :
    Effect env s (.register requests) s' reply := by
  unfold register at h
  split at h
  · simp at h
  · cases hr : registerAll env.limits.registrationLimit s.registrations requests with
    | error e => simp [hr] at h
    | ok x =>
      rw [hr] at h
      simp only [Except.ok.injEq, Prod.mk.injEq] at h
      obtain ⟨rfl, rfl⟩ := h
      exact .registered hr

theorem beginDiscovery_effect {target : Nat} {producer identity : String} {reply : Reply}
    (h : beginDiscovery env s target producer identity = .ok (s', reply)) :
    Effect env s (.beginDiscovery target producer identity) s' reply := by
  unfold beginDiscovery at h
  split at h
  · simp at h
  · split at h
    · simp at h
    · simp only at h
      -- The row a new discovery starts with.
      let d : Discovery := ⟨identity, producer, target, s.runtime.catalogMinSeq - 1,
        decide (target < s.runtime.catalogMinSeq), 0, 0, ⟨0, 0, 0⟩, none⟩
      cases hd : s.discovery with
      | none =>
        rw [hd] at h
        simp only [Except.ok.injEq, Prod.mk.injEq] at h
        obtain ⟨rfl, rfl⟩ := h
        refine Effect.discoveryBegun (d := d) (fun d hprev => ?_) rfl rfl
        rw [hd] at hprev
        exact absurd hprev (by simp)
      | some previous =>
        rw [hd] at h
        simp only at h
        split at h
        · rename_i hrunning
          simp only [Except.ok.injEq, Prod.mk.injEq] at h
          obtain ⟨rfl, rfl⟩ := h
          exact .discoveryRunning hd (by simpa using hrunning)
        · rename_i hdone
          split at h
          · simp at h
          · simp only [Except.ok.injEq, Prod.mk.injEq] at h
            obtain ⟨rfl, rfl⟩ := h
            refine Effect.discoveryBegun (d := d) (fun d hprev => ?_) rfl rfl
            obtain rfl := Option.some.inj (hd.symm.trans hprev)
            simpa using hdone

theorem applyDiscoveryPage_effect {cycleId : String} {cursor : Nat} {page : DiscoveryPage}
    {reply : Reply} (h : applyDiscoveryPage env s cycleId cursor page = .ok (s', reply)) :
    Effect env s (.applyDiscoveryPage cycleId cursor page) s' reply := by
  unfold applyDiscoveryPage at h
  split at h
  · simp at h
  · cases hc : currentDiscovery s cycleId cursor with
    | none =>
      rw [hc] at h
      simp only [Except.ok.injEq, Prod.mk.injEq] at h
      obtain ⟨rfl, rfl⟩ := h
      exact .ignored (Or.inl rfl)
    | some current =>
      rw [hc] at h
      simp only at h
      split at h
      · simp at h
      · split at h
        · simp at h
        · cases hr : registerAll env.limits.registrationLimit s.registrations page.eligible with
          | error e => simp [hr] at h
          | ok x =>
            rw [hr] at h
            simp only [Except.ok.injEq, Prod.mk.injEq] at h
            obtain ⟨rfl, rfl⟩ := h
            exact .pageApplied hc hr ⟨rfl, rfl, rfl⟩

theorem failDiscovery_effect {cycleId : String} {cursor : Nat} {code : String} {reply : Reply}
    (h : failDiscovery env s cycleId cursor code = .ok (s', reply)) :
    Effect env s (.failDiscovery cycleId cursor code) s' reply := by
  unfold failDiscovery at h
  split at h
  · simp at h
  · split at h <;> simp only [Except.ok.injEq, Prod.mk.injEq] at h <;> obtain ⟨rfl, rfl⟩ := h
    · exact .ignored (Or.inl rfl)
    · exact .discoveryFailed rfl

theorem recordDiscoveryFailure_effect {code : String} {guards : FailureGuard} {reply : Reply}
    (h : recordDiscoveryFailure env s code guards = .ok (s', reply)) :
    Effect env s (.recordDiscoveryFailure code guards) s' reply := by
  unfold recordDiscoveryFailure at h
  split at h
  · simp at h
  · split at h <;> simp only [Except.ok.injEq, Prod.mk.injEq] at h <;> obtain ⟨rfl, rfl⟩ := h
    · exact .discoveryFailed rfl
    · exact .ignored (Or.inl rfl)

theorem beginCycle_effect {identity : String} {reply : Reply}
    (h : beginCycle env s identity = .ok (s', reply)) :
    Effect env s (.beginCycle identity) s' reply := by
  unfold beginCycle at h
  simp only at h
  cases hc : s.cycle with
  | none =>
    rw [hc] at h
    dsimp only at h
    split at h
    · cases h
    · split at h
      · cases h
      · obtain ⟨rfl, rfl⟩ := Prod.mk.inj (Except.ok.inj h)
        exact .cycleBegun (by simp [hc])
  | some current =>
    rw [hc] at h
    dsimp only at h
    split at h
    · rename_i hrunning
      obtain ⟨rfl, rfl⟩ := Prod.mk.inj (Except.ok.inj h)
      exact .cycleRunning hc (by simpa using hrunning)
    · rename_i hdone
      split at h
      · cases h
      · split at h
        · cases h
        · obtain ⟨rfl, rfl⟩ := Prod.mk.inj (Except.ok.inj h)
          refine .cycleBegun fun c hprev => ?_
          obtain rfl := Option.some.inj (hc.symm.trans hprev)
          simpa using hdone

/-- **Every successful call** has one of the effects. -/
theorem step_effect {op : Op} {reply : Reply} (h : step env s op = .ok (s', reply)) :
    Effect env s op s' reply := by
  cases op with
  | register requests => exact register_effect h
  | beginDiscovery target producer identity => exact beginDiscovery_effect h
  | applyDiscoveryPage cycleId cursor page => exact applyDiscoveryPage_effect h
  | failDiscovery cycleId cursor code => exact failDiscovery_effect h
  | recordDiscoveryFailure code guards => exact recordDiscoveryFailure_effect h
  | beginCycle identity => exact beginCycle_effect h
  | publish item value now => exact publish_effect h
  | fail item code now => exact fail_effect h

/-- A call is refused and changes nothing, or has an effect. -/
theorem next_cases (env : Env) (s : Store) (op : Op) :
    next env s op = s ∨ ∃ reply, step env s op = .ok (next env s op, reply) ∧
      Effect env s op (next env s op) reply := by
  unfold next
  cases h : step env s op with
  | error e => exact Or.inl rfl
  | ok x => exact Or.inr ⟨x.2, rfl, step_effect h⟩

end RiskOps.Joint
