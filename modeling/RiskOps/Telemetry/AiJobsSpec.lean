import RiskOps.Telemetry.AiJobs

/-!
# RiskOps.Telemetry.AiJobsSpec

What one method call of the analysis queue can do, stated once. Every later
invariant is read off these lemmas, never off the definitions:

* `recover_spec`, `lease_spec`, `finish_spec` — the job table after `_recover`,
  the second half of `claim`, and `_finish`, as a map over the rows before;
* `attemptRow_eq_some_iff` — what `Ledger._attempt` checks;
* `reserve_cases`, `complete_cases`, `fail_cases` — the three ledger methods;
* `step_effect` — which tables a whole method call touches.

Attempt rows are only ever added or have their state rewritten, so all that is
tracked about them is `Attempt.SameCall`.
-/

namespace RiskOps.Telemetry.AiJobs

open RiskOps.Lib

/-! ### Attempts -/

/-- Two versions of one attempt row: the state may differ, the call may not. -/
def Attempt.SameCall (a b : Attempt) : Prop :=
  b.callId = a.callId ∧ b.jobId = a.jobId ∧ b.number = a.number

/-- Every attempt of `before` is still an attempt of `after`. -/
def AttemptsKept (before after : Table Attempt.callId) : Prop :=
  ∀ a ∈ before, ∃ b ∈ after, a.SameCall b

theorem AttemptsKept.refl (t : Table Attempt.callId) : AttemptsKept t t :=
  fun a ha => ⟨a, ha, rfl, rfl, rfl⟩

theorem AttemptsKept.trans {t₁ t₂ t₃ : Table Attempt.callId} (h₁ : AttemptsKept t₁ t₂)
    (h₂ : AttemptsKept t₂ t₃) : AttemptsKept t₁ t₃ := by
  intro a ha
  obtain ⟨b, hb, hab⟩ := h₁ a ha
  obtain ⟨c, hc, hbc⟩ := h₂ b hb
  exact ⟨c, hc, hbc.1.trans hab.1, hbc.2.1.trans hab.2.1, hbc.2.2.trans hab.2.2⟩

theorem AttemptsKept.of_insert {t t' : Table Attempt.callId} {a : Attempt}
    (h : t.insert a = some t') : AttemptsKept t t' :=
  fun b hb => ⟨b, (Table.mem_of_insert h).mpr (Or.inl hb), rfl, rfl, rfl⟩

/-- Rewriting attempt states keeps every attempt. -/
theorem setAttemptState_kept (db : Queue) (callId : Option String) (state : JobState)
    (error : Option String) :
    AttemptsKept db.attempts (db.setAttemptState callId state error).attempts := by
  intro a ha
  simp only [Queue.setAttemptState]
  refine ⟨_, Table.mem_update_of_mem ha, ?_⟩
  split <;> exact ⟨rfl, rfl, rfl⟩

@[simp] theorem setAttemptState_jobs (db : Queue) (callId : Option String) (state : JobState)
    (error : Option String) : (db.setAttemptState callId state error).jobs = db.jobs := rfl

/-! ### `_recover` -/

/-- The row `_recover` writes for a job it looked at. -/
def recoverJob (acc : Account) (maxAttempts : Nat) (seen j : Job) : Job :=
  match recoveredState acc maxAttempts seen with
  | none => j
  | some state => { j with state := state, errorCode := some "lease_expired" }

theorem recoverRow_find? (acc : Account) (m : Nat) (db : Queue) (r : Job) (id : String) :
    (recoverRow acc m db r).jobs.find? id =
      (db.jobs.find? id).map fun j => if j.id = r.id then recoverJob acc m r j else j := by
  unfold recoverRow recoverJob
  cases recoveredState acc m r with
  | none => simp
  | some state => simp [Queue.setJobState]

theorem recoverRow_attempts (acc : Account) (m : Nat) (db : Queue) (r : Job) :
    AttemptsKept db.attempts (recoverRow acc m db r).attempts := by
  unfold recoverRow
  cases recoveredState acc m r with
  | none => exact .refl _
  | some state =>
    exact setAttemptState_kept (db.setJobState r.id state (some "lease_expired")) _ _ _

@[simp] theorem recoverJob_id (acc : Account) (m : Nat) (seen j : Job) :
    (recoverJob acc m seen j).id = j.id := by
  unfold recoverJob; split <;> rfl

/-- The whole loop, row by row: with distinct ids no job is rewritten twice. -/
theorem recover_fold_find? (acc : Account) (m : Nat) :
    ∀ (rs : List Job) (db : Queue) (id : String), (rs.map Job.id).Nodup →
      (rs.foldl (recoverRow acc m) db).jobs.find? id =
        (db.jobs.find? id).map fun j =>
          match rs.find? (fun r => j.id = r.id) with
          | some r => recoverJob acc m r j
          | none => j := by
  intro rs
  induction rs with
  | nil => intro db id _; simp
  | cons r rs ih =>
    intro db id hnd
    rw [List.map_cons] at hnd
    obtain ⟨hr, hnd'⟩ := List.nodup_cons.mp hnd
    rw [List.foldl_cons, ih _ _ hnd', recoverRow_find?, Option.map_map]
    congr 1
    funext j
    by_cases hj : j.id = r.id
    · have hnone : rs.find? (fun r' => j.id = r'.id) = none := by
        rw [List.find?_eq_none]
        intro r' hr' hid
        exact hr (List.mem_map.mpr ⟨r', hr', by simpa [← hj] using (of_decide_eq_true hid).symm⟩)
      have hid : (recoverJob acc m r j).id = j.id := recoverJob_id ..
      simp only [Function.comp, if_pos hj, hid, hnone]
      simp [hj]
    · simp [hj]

theorem recover_fold_attempts (acc : Account) (m : Nat) :
    ∀ (rs : List Job) (db : Queue),
      AttemptsKept db.attempts (rs.foldl (recoverRow acc m) db).attempts
  | [], _ => .refl _
  | r :: rs, db => (recoverRow_attempts acc m db r).trans (recover_fold_attempts acc m rs _)

/-- The jobs `_recover` looks at are current rows, running or uncertain. -/
theorem mem_expiredRows {db : Queue} {now : ℚ} {r : Job} (h : r ∈ expiredRows db now) :
    r ∈ db.jobs ∧ r.state = .running := by
  have := List.mem_mergeSort.mp (List.mem_of_mem_take h)
  simp only [Table.mem_select, Bool.and_eq_true, decide_eq_true_eq] at this
  exact ⟨this.1, this.2.1⟩

variable {acc : Account}

theorem mem_pendingRows {q : QueueRef} {db : Queue} {r : Job} (h : r ∈ pendingRows q db acc) :
    r ∈ db.jobs ∧ r.state = .uncertain := by
  have page : ∀ {p : Job → Bool} {le : Job → Job → Bool},
      r ∈ ((db.jobs.select fun j => j.state = .uncertain && p j).mergeSort le).take 100 →
        r ∈ db.jobs ∧ r.state = .uncertain := by
    intro p le hr
    have := List.mem_mergeSort.mp (List.mem_of_mem_take hr)
    simp only [Table.mem_select, Bool.and_eq_true, decide_eq_true_eq] at this
    exact ⟨this.1, this.2.1⟩
  unfold pendingRows at h
  cases q with
  | ssh => exact page h
  | joint n =>
    simp only at h
    split at h
    · exact page (p := fun _ => true) (by simpa using h)
    · exact page h

theorem nodup_page {t : Table Job.id} {p : Job → Bool} {le : Job → Job → Bool} {n : Nat} :
    ((((t.select p).mergeSort le).take n).map Job.id).Nodup := by
  have hsel : ((t.select p).map Job.id).Nodup := t.nodup.sublist (List.filter_sublist.map _)
  have hsort : (((t.select p).mergeSort le).map Job.id).Nodup :=
    ((List.mergeSort_perm _ _).map Job.id).nodup_iff.mpr hsel
  exact hsort.sublist ((List.take_sublist _ _).map _)

theorem recoverRows_nodup (q : QueueRef) (db : Queue) (acc : Account) (now : ℚ) :
    ((expiredRows db now ++ pendingRows q db acc).map Job.id).Nodup := by
  rw [List.map_append]
  refine List.nodup_append.mpr ⟨nodup_page, ?_, ?_⟩
  · unfold pendingRows
    cases q with
    | ssh => exact nodup_page
    | joint n => simp only; split <;> exact nodup_page
  · -- A job cannot be both running and uncertain.
    intro a ha b hb hab
    obtain ⟨r, hr, rfl⟩ := List.mem_map.mp ha
    obtain ⟨r', hr', rfl⟩ := List.mem_map.mp hb
    obtain ⟨hmem, hrun⟩ := mem_expiredRows hr
    obtain ⟨hmem', hunc⟩ := mem_pendingRows hr'
    rw [Table.eq_of_key_eq hmem hmem' hab, hunc] at hrun
    exact absurd hrun (by simp)

/-- What `_recover` does to one job. -/
inductive Recovered (acc : Account) (m : Nat) : Job → Job → Prop
  | kept (j : Job) : Recovered acc m j j
  | moved (j : Job) (state : JobState) (hfrom : j.state = .running ∨ j.state = .uncertain)
      (hto : recoveredState acc m j = some state) :
      Recovered acc m j { j with state := state, errorCode := some "lease_expired" }

/-- **`_recover`.** Each job is kept or moved as `recoveredState` says; no job
appears or disappears, and every attempt is kept. -/
theorem recover_spec (q : QueueRef) (db : Queue) (acc : Account) (now : ℚ) (m : Nat) :
    ∃ f : Job → Job,
      (∀ id, (recover q db acc now m).jobs.find? id = (db.jobs.find? id).map f) ∧
      (∀ j ∈ db.jobs, Recovered acc m j (f j)) ∧
      AttemptsKept db.attempts (recover q db acc now m).attempts := by
  refine ⟨_, fun id => recover_fold_find? acc m _ _ id (recoverRows_nodup q db acc now), ?_,
    recover_fold_attempts acc m _ { db with cursor := nextCursor q db acc }⟩
  intro j hj
  cases hf : (expiredRows db now ++ pendingRows q db acc).find? (fun r => j.id = r.id) with
  | none => exact .kept j
  | some r =>
    have hrow : r ∈ db.jobs ∧ (r.state = .running ∨ r.state = .uncertain) := by
      rcases List.mem_append.mp (List.mem_of_find?_eq_some hf) with h | h
      · exact ⟨(mem_expiredRows h).1, Or.inl (mem_expiredRows h).2⟩
      · exact ⟨(mem_pendingRows h).1, Or.inr (mem_pendingRows h).2⟩
    have hid : j.id = r.id := by simpa using List.find?_some hf
    obtain rfl : j = r := Table.eq_of_key_eq hj hrow.1 hid
    simp only [recoverJob]
    cases hs : recoveredState acc m j with
    | none => exact .kept j
    | some state => exact .moved j state hrow.2 hs

/-! ### The lease half of `claim` -/

/-- What a lease does to the row it takes: a recoverable job keeps its call, a
queued one starts the next attempt. -/
inductive Leased (token : String) (until' : ℚ) : Job → Job → Prop
  | again (j : Job) (h : j.state = .recoverable) :
      Leased token until' j
        { j with state := .running, leaseToken := some token, leaseUntil := some until',
                 errorCode := none }
  | fresh (j : Job) (h : j.state = .queued) (runId callId : String) :
      Leased token until' j
        { j with state := .running, leaseToken := some token, leaseUntil := some until',
                 attemptCount := j.attemptCount + 1, runId := some runId, callId := some callId,
                 errorCode := none }

variable {db' : Queue}

/-- **Leasing.** Either nothing was claimable, or exactly one row is rewritten
as `Leased` says, the worker's copy carries that row's lease and call, and the
attempt of a call just started exists under that call's hash. -/
theorem lease_spec {callHash : String → String → String}
    {attemptPath : QueueRef → String → Nat → String} {q : QueueRef} {db : Queue} {token : String}
    {now leaseSeconds : ℚ} {recoverOnly : Bool} {reply : Reply}
    (h : lease callHash attemptPath q db token now leaseSeconds recoverOnly = .ok (db', reply)) :
    (db' = db ∧ reply = .noJob) ∨
    ∃ row ∈ db.jobs, ∃ row', Leased token (now + leaseSeconds) row row' ∧
      reply = .claimed { row' with errorCode := row.errorCode } ∧
      (∀ id, db'.jobs.find? id =
        (db.jobs.find? id).map fun j => if j.id = row.id then row' else j) ∧
      AttemptsKept db.attempts db'.attempts ∧
      (row.state = .queued → ∃ a ∈ db'.attempts, row'.callId = some a.callId ∧ a.jobId = row.id ∧
        a.number = row'.attemptCount ∧
        a.callId = callHash (attemptPath q row.id a.number) row.requestSha) := by
  unfold lease at h
  cases hrow : ((db.jobs.select fun j =>
      j.state = .recoverable || (!recoverOnly && j.state = .queued)).mergeSort createdOrder).head? with
  | none =>
    rw [hrow] at h
    simp only [Except.ok.injEq, Prod.mk.injEq] at h
    exact Or.inl ⟨h.1.symm, h.2.symm⟩
  | some row =>
    rw [hrow] at h
    have hmem : row ∈ db.jobs ∧ (row.state = .recoverable ∨ row.state = .queued) := by
      have := List.mem_mergeSort.mp (List.mem_of_head? hrow)
      simp only [Table.mem_select, Bool.or_eq_true, Bool.and_eq_true, decide_eq_true_eq] at this
      exact ⟨this.1, this.2.imp_right And.right⟩
    -- Rewriting "the row with this id" is rewriting `row` itself.
    have hmap : ∀ (f : Job → Job) (id : String),
        ((db.jobs.find? id).map fun j => if j.id = row.id then f j else j) =
          (db.jobs.find? id).map fun j => if j.id = row.id then f row else j := by
      intro f id
      cases hf : db.jobs.find? id with
      | none => rfl
      | some j =>
        by_cases hj : j.id = row.id
        · rw [Table.eq_of_key_eq (Table.mem_of_find? hf) hmem.1 hj]
          simp
        · simp [hj]
    refine Or.inr ⟨row, hmem.1, ?_⟩
    by_cases hrec : row.state = .recoverable
    · simp only [hrec, if_true, Except.ok.injEq, Prod.mk.injEq] at h
      obtain ⟨rfl, rfl⟩ := h
      refine ⟨_, .again row hrec, rfl, fun id => ?_, .refl _, fun hq => ?_⟩
      · rw [Table.find?_update, hmap]
      · simp [hq] at hrec
    · have hq : row.state = .queued := hmem.2.resolve_left hrec
      simp only [if_neg hrec] at h
      split at h
      · simp at h
      · rename_i attempts hins
        simp only [Except.ok.injEq, Prod.mk.injEq] at h
        obtain ⟨rfl, rfl⟩ := h
        refine ⟨_, .fresh row hq _ _, rfl, fun id => ?_, .of_insert hins, fun _ => ?_⟩
        · rw [Table.find?_update, hmap]
        · exact ⟨_, (Table.mem_of_insert hins).mpr (Or.inr rfl), rfl, rfl, rfl, rfl⟩

/-! ### `_finish` -/

/-- The row `_finish` writes for the job whose lease is held. -/
def finishJob (job : Job) (state : JobState) (record error : Option String) (j : Job) : Job :=
  if holdsLease job j then { j with state := state, resultJson := record, errorCode := error } else j

variable {job : Job}

theorem holdsLease_iff {row : Job} :
    holdsLease job row = true ↔
      row.id = job.id ∧ row.requestSha = job.requestSha ∧
      (job.leaseToken.isSome ∧ row.leaseToken = job.leaseToken) ∧
      (job.callId.isSome ∧ row.callId = job.callId) ∧
      (row.state = .running ∨ row.state = .uncertain) := by
  simp [holdsLease, and_assoc]

/-- **`_finish`.** Only the row whose lease is held is rewritten. -/
theorem finish_spec (db : Queue) (job : Job) (state : JobState) (record error : Option String) :
    (∀ id, (finish db job state record error).jobs.find? id =
      (db.jobs.find? id).map (finishJob job state record error)) ∧
    AttemptsKept db.attempts (finish db job state record error).attempts := by
  unfold finish
  split
  · refine ⟨fun id => ?_, setAttemptState_kept _ _ _ _⟩
    rw [setAttemptState_jobs, Table.find?_update]
    rfl
  · rename_i hnone
    refine ⟨fun id => ?_, .refl _⟩
    cases hf : db.jobs.find? id with
    | none => rfl
    | some j =>
      have hj : holdsLease job j = false := by
        by_contra hj
        exact hnone (List.any_eq_true.mpr ⟨j, Table.mem_of_find? hf, by simpa using hj⟩)
      simp [finishJob, hj]

theorem attempt_eq_ok_iff {db : Queue} {row : Job} :
    attempt db job = .ok row ↔
      db.jobs.find? job.id = some row ∧ row.requestSha = job.requestSha ∧
      ∃ a ∈ db.attempts, a.jobId = row.id ∧ job.callId = some a.callId ∧
        a.number = job.attemptCount := by
  unfold attempt attemptRow
  cases hf : db.jobs.find? job.id with
  | none => simp
  | some r =>
    simp only [Option.filter_some, Bool.and_eq_true, decide_eq_true_eq, List.any_eq_true]
    constructor
    · intro h
      split at h
      · simp at h
      · rename_i row' hcond
        split at hcond
        · rename_i hok
          obtain rfl := Option.some.inj hcond
          obtain rfl := Except.ok.inj h
          obtain ⟨hsha, a, ha, ⟨hj, hc⟩, hn⟩ := hok
          exact ⟨rfl, hsha, a, ha, hj, hc, hn⟩
        · simp at hcond
    · rintro ⟨hr, hsha, a, ha, hj, hc, hn⟩
      obtain rfl := Option.some.inj hr
      rw [if_pos ⟨hsha, a, ha, ⟨hj, hc⟩, hn⟩]

/-- **`retry_unsubmitted`** is a `_finish` whose target state depends on whether
the call was ever reserved. -/
theorem retryUnsubmitted_cases {db : Queue} {m : Nat} (h : retryUnsubmitted db acc job m = .ok db')
    :
    ∃ row state, attempt db job = .ok row ∧
      db' = finish db job state none (some "provider_unavailable") ∧
      (((acc.callOf job).isSome ∧ state = .uncertain) ∨
        (acc.callOf job = none ∧
          state = if job.attemptCount < m then JobState.queued else .failed)) := by
  unfold retryUnsubmitted at h
  cases ha : attempt db job with
  | error e => simp [ha, bind, Except.bind] at h
  | ok row =>
    simp only [ha, bind, Except.bind, pure, Except.pure, Except.ok.injEq] at h
    subst h
    refine ⟨row, _, rfl, rfl, ?_⟩
    cases acc.callOf job with
    | none => exact Or.inr ⟨rfl, by simp⟩
    | some c => exact Or.inl ⟨rfl, by simp⟩

/-! ### `enqueue` and `set_budget` -/

theorem enqueue_cases {db : Queue} {jobId cacheKey requestSha : String} {now : ℚ} {queueLimit : Nat}
    {reply : Reply} (h : enqueue db jobId cacheKey requestSha now queueLimit = .ok (db', reply)) :
    db' = db ∨
    ∃ j, j.id = jobId ∧ j.cacheKey = cacheKey ∧ j.state = .queued ∧ j.attemptCount = 0 ∧
      j.callId = none ∧ (∀ j' ∈ db.jobs, j'.cacheKey ≠ cacheKey) ∧
      db.jobs.insert j = some db'.jobs ∧ db'.attempts = db.attempts := by
  unfold enqueue at h
  split at h
  · simp only [Except.ok.injEq, Prod.mk.injEq] at h
    exact Or.inl h.1.symm
  · rename_i hnone
    split at h
    · simp at h
    · split at h
      · simp at h
      · rename_i jobs hins
        simp only [Except.ok.injEq, Prod.mk.injEq] at h
        obtain ⟨rfl, -⟩ := h
        refine Or.inr ⟨_, rfl, rfl, rfl, rfl, rfl, fun j' hj' => ?_, hins, rfl⟩
        simpa using List.find?_eq_none.mp hnone j' hj'

variable {acc' : Account}

theorem setBudget_cases {total daily : Int} (h : setBudget acc total daily = .ok acc') :
    acc' = { acc with totalLimit := some total, dailyLimit := some daily } ∧
      0 < daily ∧ daily ≤ total ∧
      acc.totalLimit.getD total = total ∧ acc.dailyLimit.getD daily = daily := by
  unfold setBudget at h
  split at h
  · simp at h
  · rename_i hrange
    split at h
    · simp at h
    · rename_i hsame
      simp only [not_or, not_not] at hsame hrange
      exact ⟨(Except.ok.inj h).symm, hrange.1, hrange.2.1, hsame⟩

/-! ### The ledger -/

/-- **`reserve`.** It returns a recorded answer and changes nothing, or inserts
one row for the job's current call while the lease is active and the budget
covers it. -/
theorem reserve_cases {utcDay : ℚ → String} {db : Queue} {callId : String} {amount : Int}
    {now ownerNow : ℚ} {reply : Reply}
    (h : reserve utcDay db acc job callId amount now ownerNow = .ok (acc', reply)) :
    (acc' = acc ∧ ∃ record, reply = .recorded record) ∨
    (reply = .permitted ∧ job.callId = some callId ∧ acc.calls.find? callId = none ∧
      (∃ row, attempt db job = .ok row ∧ row.state = .running ∧ row.callId = job.callId) ∧
      0 < amount ∧ acc.halted = false ∧
      acc.committed + amount ≤ acc.totalLimit.getD 0 ∧
      acc.committedOn (utcDay ownerNow) + amount ≤ acc.dailyLimit.getD 0 ∧
      ∃ calls, acc' = { acc with calls := calls } ∧
        acc.calls.insert (reservedCall callId (utcDay ownerNow) amount) = some calls) := by
  unfold reserve at h
  by_cases hcall : job.callId = some callId
  swap
  · simp [hcall, bind, Except.bind, throw, throwThe, MonadExceptOf.throw] at h
  by_cases hamount : 0 < amount ∧ amount ≤ maxAmount
  swap
  · simp only [hcall, ne_eq, not_true_eq_false, if_false, hamount, not_false_eq_true, if_true] at h
    simp [bind, Except.bind, throw, throwThe, MonadExceptOf.throw] at h
  cases hatt : attempt db job with
  | error e =>
    simp [hcall, hamount, hatt, bind, Except.bind] at h
  | ok row =>
    simp only [hcall, hamount, hatt, bind, Except.bind, pure, Except.pure, throw, throwThe,
      MonadExceptOf.throw, ne_eq, not_true_eq_false, if_false, and_self] at h
    cases hprev : acc.calls.find? callId with
    | some previous =>
      rw [hprev] at h
      simp only at h
      split at h
      · simp at h
      · split at h
        · simp only [Except.ok.injEq, Prod.mk.injEq] at h
          exact Or.inl ⟨h.1.symm, _, h.2.symm⟩
        · simp at h
    | none =>
      rw [hprev] at h
      simp only at h
      by_cases hact : isActive row job now
      swap
      · simp [hact] at h
      by_cases hbudget : acc.halted ∨ acc.totalLimit.getD 0 < acc.committed + amount
          ∨ acc.dailyLimit.getD 0 < acc.committedOn (utcDay ownerNow) + amount
      · simp [hact, hbudget] at h
      · simp only [hact, hbudget, Bool.not_true, Bool.false_eq_true, if_false] at h
        split at h
        · simp at h
        · rename_i calls hins
          simp only [Except.ok.injEq, Prod.mk.injEq] at h
          simp only [not_or, Bool.not_eq_true, not_lt] at hbudget
          simp only [isActive, Bool.and_eq_true, decide_eq_true_eq] at hact
          exact Or.inr ⟨h.2.symm, hcall, rfl, ⟨row, rfl, hact.1.1.1, hact.1.2⟩, hamount.1,
            hbudget.1, hbudget.2.1, hbudget.2.2, calls, h.1.symm, hins⟩

/-- **`complete`.** It confirms an earlier settlement, or settles the open call:
the charge and the record are written, and a charge above the reservation
halts the account. -/
theorem complete_cases {db : Queue} {callId : String} {charged : Int} {encoded : Option String}
    (h : complete db acc job callId charged encoded = .ok acc') :
    job.callId = some callId ∧ (∃ row, attempt db job = .ok row) ∧
    (acc' = acc ∧ (∃ c, acc.calls.find? callId = some c ∧ c.charged = some charged) ∨
      ∃ c record, acc.calls.find? callId = some c ∧ c.charged = none ∧ encoded = some record ∧
        acc'.calls = (acc.updateCall callId (Call.settle charged record) (Call.settle_id _ _)).calls ∧
        acc'.totalLimit = acc.totalLimit ∧ acc'.dailyLimit = acc.dailyLimit ∧
        acc'.halted = (acc.halted || decide (c.reserved < charged))) := by
  unfold complete at h
  by_cases hcall : job.callId = some callId
  swap
  · simp [hcall, bind, Except.bind, throw, throwThe, MonadExceptOf.throw] at h
  by_cases hrange : 0 ≤ charged ∧ charged ≤ maxAmount
  swap
  · simp only [hcall, ne_eq, not_true_eq_false, if_false, hrange, not_false_eq_true, if_true] at h
    simp [bind, Except.bind, throw, throwThe, MonadExceptOf.throw] at h
  cases encoded with
  | none => simp [hcall, hrange, bind, Except.bind, throw, throwThe, MonadExceptOf.throw] at h
  | some record =>
    cases hatt : attempt db job with
    | error e => simp [hcall, hrange, hatt, bind, Except.bind, pure, Except.pure] at h
    | ok row =>
      refine ⟨hcall, ⟨row, rfl⟩, ?_⟩
      simp only [hcall, hrange, hatt, bind, Except.bind, pure, Except.pure, throw, throwThe,
        MonadExceptOf.throw, ne_eq, not_true_eq_false, if_false, and_self] at h
      cases hf : acc.calls.find? callId with
      | none => simp [hf] at h
      | some c =>
        rw [hf] at h
        simp only at h
        cases hc : c.charged with
        | some x =>
          simp only [hc, Option.isSome_some, if_true] at h
          split at h
          · simp at h
          · rename_i hsame
            simp only [not_or, not_not] at hsame
            exact Or.inl ⟨(Except.ok.inj h).symm, c, rfl, hc.trans hsame.1⟩
        | none =>
          simp only [hc, Option.isSome_none, Bool.false_eq_true, if_false,
            Except.ok.injEq] at h
          subst h
          exact Or.inr ⟨c, record, rfl, hc, rfl, rfl, rfl, rfl, rfl⟩

/-- **`fail`.** It changes nothing, or marks the open call uncertain. -/
theorem fail_cases {db : Queue} {callId code : String} (h : fail db acc job callId code = .ok acc')
    :
    acc' = acc ∨
      ∃ c, acc.calls.find? callId = some c ∧ c.charged = none ∧
        acc' = acc.updateCall callId (Call.markUncertain code) (Call.markUncertain_id _) := by
  unfold fail at h
  by_cases hcall : job.callId = some callId
  swap
  · simp [hcall, bind, Except.bind, throw, throwThe, MonadExceptOf.throw] at h
  by_cases hcode : isFailureCode code
  swap
  · simp only [hcall, ne_eq, not_true_eq_false, if_false, hcode, Bool.not_false, if_true] at h
    simp [bind, Except.bind, throw, throwThe, MonadExceptOf.throw] at h
  cases hatt : attempt db job with
  | error e => simp [hcall, hcode, hatt, bind, Except.bind] at h
  | ok row =>
    simp only [hcall, hcode, hatt, bind, Except.bind, pure, Except.pure, throw, throwThe,
      MonadExceptOf.throw, ne_eq, not_true_eq_false, if_false, Bool.not_true,
      Bool.false_eq_true] at h
    cases hf : acc.calls.find? callId with
    | none => simp [hf] at h
    | some c =>
      rw [hf] at h
      simp only at h
      cases hc : c.charged with
      | some x =>
        simp only [hc, Option.isSome_some, if_true, Except.ok.injEq] at h
        exact Or.inl h.symm
      | none =>
        simp only [hc, Option.isSome_none, Bool.false_eq_true, if_false] at h
        split at h
        · split at h
          · simp at h
          · exact Or.inl (Except.ok.inj h).symm
        · exact Or.inr ⟨c, rfl, hc, (Except.ok.inj h).symm⟩

/-! ### Whole method calls -/

section Effect

variable (callHash : String → String → String) (attemptPath : QueueRef → String → Nat → String)
  (utcDay : ℚ → String)

/-- The world a successful method call leaves, by method: queue methods replace
one queue database, ledger methods replace the account. -/
inductive Effect (w : World) : Op → World → Reply → Prop
  | enqueue {q jobId cacheKey requestSha now queueLimit db reply}
      (h : enqueue (w.queue q) jobId cacheKey requestSha now queueLimit = .ok (db, reply)) :
      Effect w (.enqueue q jobId cacheKey requestSha now queueLimit) (w.setQueue q db) reply
  | claim {q token recoverNow now leaseSeconds m recoverOnly db reply}
      (h : lease callHash attemptPath q (recover q (w.queue q) w.account recoverNow m) token now
        leaseSeconds recoverOnly = .ok (db, reply)) :
      Effect w (.claim q token recoverNow now leaseSeconds m recoverOnly) (w.setQueue q db) reply
  | reserve {q job callId amount now ownerNow acc reply}
      (h : reserve utcDay (w.queue q) w.account job callId amount now ownerNow = .ok (acc, reply)) :
      Effect w (.reserve q job callId amount now ownerNow false) { w with account := acc } reply
  | reserveLost {n job callId amount now ownerNow acc reply}
      (h : reserve utcDay (w.queue (.joint n)) w.account job callId amount now ownerNow =
        .ok (acc, reply)) :
      Effect w (.reserve (.joint n) job callId amount now ownerNow true)
        { w with account := acc } (if reply = .permitted then .lost else .done)
  | complete {q job callId charged encoded acc}
      (h : complete (w.queue q) w.account job callId charged encoded = .ok acc) :
      Effect w (.complete q job callId charged encoded) { w with account := acc } .done
  | fail {q job callId code acc} (h : fail (w.queue q) w.account job callId code = .ok acc) :
      Effect w (.fail q job callId code) { w with account := acc } .done
  | finish {q job state record error} :
      Effect w (.finish q job state record error)
        (w.setQueue q (finish (w.queue q) job state record error)) .done
  | retryUnsubmitted {q job m db} (h : retryUnsubmitted (w.queue q) w.account job m = .ok db) :
      Effect w (.retryUnsubmitted q job m) (w.setQueue q db) .done
  | setBudget {total daily acc} (h : setBudget w.account total daily = .ok acc) :
      Effect w (.setBudget total daily) { w with account := acc } .done

/-- A step of a run is a successful method call or no change. -/
theorem next_cases (w : World) (op : Op) :
    (∃ e, step callHash attemptPath utcDay w op = .error e ∧
      next callHash attemptPath utcDay w op = w) ∨
    ∃ w' reply, step callHash attemptPath utcDay w op = .ok (w', reply) ∧
      next callHash attemptPath utcDay w op = w' := by
  unfold next
  cases h : step callHash attemptPath utcDay w op with
  | error e => exact Or.inl ⟨e, rfl, rfl⟩
  | ok p => exact Or.inr ⟨p.1, p.2, rfl, rfl⟩

variable {callHash attemptPath utcDay}

theorem step_effect {w w' : World} {op : Op} {reply : Reply}
    (h : step callHash attemptPath utcDay w op = .ok (w', reply)) :
    Effect callHash attemptPath utcDay w op w' reply := by
  cases op with
  | enqueue q jobId cacheKey requestSha now queueLimit =>
    obtain ⟨⟨db, r⟩, hdb, h⟩ := bind_eq_ok.mp h
    cases h
    exact .enqueue hdb
  | claim q token recoverNow now leaseSeconds m recoverOnly =>
    obtain ⟨⟨db, r⟩, hdb, h⟩ := bind_eq_ok.mp h
    cases h
    exact .claim hdb
  | reserve q job callId amount now ownerNow localLost =>
    obtain ⟨⟨acc, r⟩, hacc, h⟩ := bind_eq_ok.mp h
    cases localLost with
    | false => cases h; exact .reserve hacc
    | true =>
      cases q with
      | ssh => cases h
      | joint n => cases h; exact .reserveLost hacc
  | complete q job callId charged encoded =>
    obtain ⟨acc, hacc, h⟩ := bind_eq_ok.mp h
    cases h
    exact .complete hacc
  | fail q job callId code =>
    obtain ⟨acc, hacc, h⟩ := bind_eq_ok.mp h
    cases h
    exact .fail hacc
  | finish q job state record error =>
    cases h
    exact .finish
  | retryUnsubmitted q job m =>
    obtain ⟨db, hdb, h⟩ := bind_eq_ok.mp h
    cases h
    exact .retryUnsubmitted hdb
  | setBudget total daily =>
    obtain ⟨acc, hacc, h⟩ := bind_eq_ok.mp h
    cases h
    exact .setBudget hacc

end Effect

end RiskOps.Telemetry.AiJobs
