import RiskOps.Telemetry.AiJobsSpec

/-!
# RiskOps.Telemetry.AiJobsPaid

**At most one paid call per job.** Attempts draw fresh call ids, leases expire
between `claim` and `reserve`, and recovery may put a job back in the queue; a
job is nevertheless paid for at most once. The invariant `Inv` ties the three
tables to the history of insertions:

* a job for which a row was ever inserted is not `queued`, and the row of its
  *current* call exists, so recovery and retry can never requeue it;
* a job with a call id has the attempt row of that call, numbered with the
  job's attempt count, so a worker's copy that passes `_attempt` and `_finish`
  agrees with the row on the number of attempts;
* a queued job still has an attempt left.
-/

namespace RiskOps.Telemetry.AiJobs

open RiskOps.Lib

/-! ### The invariant -/

/-- What holds of one job, given how many call rows were ever inserted for it. -/
structure JobInv (m inserted : Nat) (attempts : Table Attempt.callId) (acc : Account) (j : Job) :
    Prop where
  bounded : j.attemptCount ≤ m
  requeued : j.state = .queued → j.attemptCount < m
  current : ∀ c, j.callId = some c →
    ∃ a ∈ attempts, a.callId = c ∧ a.jobId = j.id ∧ a.number = j.attemptCount
  once : inserted ≤ 1
  paid : 0 < inserted → j.state ≠ .queued ∧ (acc.callOf j).isSome

/-- The invariant of the whole system after the events `H`. -/
structure Inv (m : Nat) (H : List Event) (w : World) : Prop where
  job : ∀ q, ∀ j ∈ (w.queue q).jobs,
    JobInv m (H.count (.inserted q j.id)) (w.queue q).attempts w.account j
  cache : ∀ q, ∀ j ∈ (w.queue q).jobs, ∀ j' ∈ (w.queue q).jobs, j.cacheKey = j'.cacheKey → j = j'
  unborn : ∀ q id, (w.queue q).jobs.find? id = none → H.count (.inserted q id) = 0
  permitted : ∀ q id, H.count (.permitted q id) ≤ H.count (.inserted q id)

theorem inv_init (m : Nat) : Inv m [] World.init where
  job := fun _ j hj => absurd hj (Table.not_mem_empty j)
  cache := fun _ j hj => absurd hj (Table.not_mem_empty j)
  unborn := fun _ _ _ => rfl
  permitted := fun _ _ => le_refl 0

/-- The method calls of the claim: no `finish` puts a job back in the queue, and
no claim or retry is given more than `m` attempts. -/
def Admitted (m : Nat) : Op → Prop
  | .finish _ _ state _ _ => state ≠ .queued
  | .claim _ _ _ _ _ maxAttempts _ => maxAttempts ≤ m
  | .retryUnsubmitted _ _ maxAttempts => maxAttempts ≤ m
  | _ => True

/-! ### Rewriting a queue, growing the account -/

variable {m n : Nat} {acc : Account} {j : Job}

/-- Attempts may be added or re-stated without harm. -/
theorem JobInv.of_attempts {t t' : Table Attempt.callId} (h : JobInv m n t acc j)
    (hkept : AttemptsKept t t') : JobInv m n t' acc j := by
  refine { h with current := fun c hc => ?_ }
  obtain ⟨a, ha, hca, hja, hna⟩ := h.current c hc
  obtain ⟨b, hb, hcb, hjb, hnb⟩ := hkept a ha
  exact ⟨b, hb, hcb.trans hca, hjb.trans hja, hnb.trans hna⟩

variable {H : List Event} {w : World} {q : QueueRef}

/-- **Queue rule.** A queue method that rewrites each row by `f`, keeping cache
keys and the row invariant, keeps the system invariant. -/
theorem Inv.of_map {db : Queue} {f : Job → Job} (hinv : Inv m H w)
    (hfind : ∀ id, db.jobs.find? id = ((w.queue q).jobs.find? id).map f)
    (hkey : ∀ j ∈ (w.queue q).jobs, (f j).cacheKey = j.cacheKey)
    (hjob : ∀ j ∈ (w.queue q).jobs, ∀ n, JobInv m n (w.queue q).attempts w.account j →
      JobInv m n db.attempts w.account (f j)) :
    Inv m H (w.setQueue q db) where
  job := by
    intro q' j' hj'
    by_cases hq : q' = q
    · subst hq
      rw [World.setQueue_self] at hj' ⊢
      obtain ⟨j, hj, hid, rfl⟩ := Table.mem_of_find?_map hfind hj'
      rw [← hid]
      exact hjob j hj _ (hinv.job q' j hj)
    · rw [World.setQueue_ne _ _ hq] at hj' ⊢
      exact hinv.job q' j' hj'
  cache := by
    intro q' j' hj' k' hk' hkk
    by_cases hq : q' = q
    · subst hq
      rw [World.setQueue_self] at hj' hk'
      obtain ⟨j, hj, -, rfl⟩ := Table.mem_of_find?_map hfind hj'
      obtain ⟨k, hk, -, rfl⟩ := Table.mem_of_find?_map hfind hk'
      rw [hkey j hj, hkey k hk] at hkk
      rw [hinv.cache q' j hj k hk hkk]
    · rw [World.setQueue_ne _ _ hq] at hj' hk'
      exact hinv.cache q' j' hj' k' hk' hkk
  unborn := by
    intro q' id hnone
    by_cases hq : q' = q
    · subst hq
      rw [World.setQueue_self, hfind, Option.map_eq_none_iff] at hnone
      exact hinv.unborn q' id hnone
    · rw [World.setQueue_ne _ _ hq] at hnone
      exact hinv.unborn q' id hnone
  permitted := hinv.permitted

/-- Calls are never deleted. -/
def CallsKept (acc acc' : Account) : Prop :=
  ∀ c, (acc.calls.find? c).isSome → (acc'.calls.find? c).isSome

variable {acc' : Account}

theorem CallsKept.callOf (h : CallsKept acc acc') (hj : (acc.callOf j).isSome) :
    (acc'.callOf j).isSome := by
  unfold Account.callOf at hj ⊢
  cases hc : j.callId with
  | none => simp [hc] at hj
  | some c => rw [hc] at hj; exact h c hj

theorem callsKept_updateCall (acc : Account) (id : String) (f : Call → Call)
    (hf : ∀ c, (f c).id = c.id) : CallsKept acc (acc.updateCall id f hf) := by
  intro c hc
  simpa [Account.updateCall] using hc

variable {job : Job}

theorem complete_callsKept {db : Queue} {callId : String} {charged : Int} {encoded : Option String}
    (h : complete db acc job callId charged encoded = .ok acc') : CallsKept acc acc' := by
  rcases (complete_cases h).2.2 with ⟨rfl, -⟩ | ⟨c, record, -, -, -, hcalls, -⟩
  · exact fun _ hk => hk
  · intro k hk
    rw [hcalls]
    exact callsKept_updateCall _ _ _ _ k hk

theorem fail_callsKept {db : Queue} {callId code : String}
    (h : fail db acc job callId code = .ok acc') : CallsKept acc acc' := by
  rcases fail_cases h with rfl | ⟨c, -, -, rfl⟩
  · exact fun _ hk => hk
  · exact callsKept_updateCall _ _ _ _

theorem setBudget_callsKept {total daily : Int} (h : setBudget acc total daily = .ok acc') :
    CallsKept acc acc' := by
  obtain ⟨rfl, -⟩ := setBudget_cases h
  exact fun _ hk => hk

theorem JobInv.of_calls {t : Table Attempt.callId} (h : JobInv m n t acc j)
    (hkept : CallsKept acc acc') : JobInv m n t acc' j :=
  { h with paid := fun hn => ⟨(h.paid hn).1, hkept.callOf (h.paid hn).2⟩ }

/-- **Account rule.** A ledger method that keeps every call keeps the
invariant. -/
theorem Inv.of_account (hinv : Inv m H w) (hkept : CallsKept w.account acc) :
    Inv m H { w with account := acc } where
  job := fun q j hj => (hinv.job q j hj).of_calls hkept
  cache := hinv.cache
  unborn := hinv.unborn
  permitted := hinv.permitted

/-! ### Each method keeps it -/

theorem recoveredState_queued (h : recoveredState acc m j = some .queued) :
    acc.callOf j = none ∧ j.attemptCount < m := by
  unfold recoveredState at h
  split at h
  · simp at h
  · split at h
    · simp at h
    · split at h
      · simp at h
      · rename_i hcall
        refine ⟨by simpa using hcall, ?_⟩
        by_contra hlt
        simp [hlt] at h

variable {m' : Nat} {j' : Job}

theorem JobInv.recovered {t : Table Attempt.callId} (h : JobInv m n t acc j) (hm : m' ≤ m)
    (hr : Recovered acc m' j j') : JobInv m n t acc j' := by
  cases hr with
  | kept => exact h
  | moved state hfrom hto =>
    refine ⟨h.bounded, fun hq => ?_, h.current, h.once, fun hn => ⟨fun hq => ?_, (h.paid hn).2⟩⟩
    · simp only at hq; subst hq
      exact lt_of_lt_of_le (recoveredState_queued hto).2 hm
    · simp only at hq; subst hq
      have := (h.paid hn).2
      rw [(recoveredState_queued hto).1] at this
      exact absurd this (by simp)

theorem Recovered.cacheKey (h : Recovered acc m j j') : j'.cacheKey = j.cacheKey := by
  cases h <;> rfl

theorem inv_recover (hinv : Inv m H w) (hm : m' ≤ m) (q : QueueRef) (now : ℚ) :
    Inv m H (w.setQueue q (recover q (w.queue q) w.account now m')) := by
  obtain ⟨f, hfind, hrec, hatt⟩ := recover_spec q (w.queue q) w.account now m'
  exact hinv.of_map hfind (fun j hj => (hrec j hj).cacheKey)
    (fun j hj n hn => (hn.recovered hm (hrec j hj)).of_attempts hatt)

theorem JobInv.leased {t t' : Table Attempt.callId} {token : String} {until' : ℚ}
    (h : JobInv m n t acc j) (hl : Leased token until' j j') (hkept : AttemptsKept t t')
    (hcur : j.state = .queued → ∃ a ∈ t', j'.callId = some a.callId ∧ a.jobId = j.id ∧
      a.number = j'.attemptCount) : JobInv m n t' acc j' := by
  cases hl with
  | again hs =>
    exact ⟨h.bounded, by simp, (h.of_attempts hkept).current, h.once,
      fun hn => ⟨by simp, (h.paid hn).2⟩⟩
  | fresh hs runId callId =>
    -- A queued job was never paid for, so the new call id cannot orphan a row.
    refine ⟨h.requeued hs, by simp, fun c hc => ?_, h.once, fun hn => absurd hs (h.paid hn).1⟩
    obtain ⟨a, ha, hca, hja, hna⟩ := hcur hs
    simp only [Option.some.injEq] at hc hca
    exact ⟨a, ha, hca.symm.trans hc, hja, hna⟩

theorem Leased.same {token : String} {until' : ℚ} (h : Leased token until' j j') :
    j'.id = j.id ∧ j'.cacheKey = j.cacheKey := by
  cases h <;> exact ⟨rfl, rfl⟩

theorem inv_lease {callHash : String → String → String}
    {attemptPath : QueueRef → String → Nat → String} {db : Queue} {token : String}
    {now leaseSeconds : ℚ} {recoverOnly : Bool} {reply : Reply} (hinv : Inv m H w)
    (h : lease callHash attemptPath q (w.queue q) token now leaseSeconds recoverOnly =
      .ok (db, reply)) : Inv m H (w.setQueue q db) := by
  rcases lease_spec h with ⟨rfl, -⟩ | ⟨row, hrow, row', hl, -, hfind, hkept, hcur⟩
  · refine hinv.of_map (f := id) (fun k => by simp) (fun _ _ => rfl) (fun j _ n hn => hn)
  · refine hinv.of_map hfind (fun j hj => ?_) (fun j hj n hn => ?_)
    · by_cases hid : j.id = row.id
      · rw [if_pos hid, hl.same.2, Table.eq_of_key_eq hj hrow hid]
      · rw [if_neg hid]
    · by_cases hid : j.id = row.id
      · rw [if_pos hid]
        obtain rfl : j = row := Table.eq_of_key_eq hj hrow hid
        refine hn.leased hl hkept fun hs => ?_
        obtain ⟨a, ha, hca, hja, hna, -⟩ := hcur hs
        exact ⟨a, ha, hca, hja, hna⟩
      · rw [if_neg hid]
        exact hn.of_attempts hkept

/-- `_finish` to a state other than `queued`, or to `queued` with an attempt
left and no call row. -/
theorem JobInv.finished {m n : Nat} {t : Table Attempt.callId} {acc : Account} {job j : Job}
    {state : JobState} {record error : Option String} (h : JobInv m n t acc j)
    (hq : holdsLease job j = true → state = .queued →
      acc.callOf j = none ∧ j.attemptCount < m) :
    JobInv m n t acc (finishJob job state record error j) := by
  unfold finishJob
  split
  · rename_i hheld
    refine ⟨h.bounded, fun hs => (hq hheld hs).2, h.current, h.once,
      fun hn => ⟨fun hs => ?_, (h.paid hn).2⟩⟩
    have := (h.paid hn).2
    rw [(hq hheld hs).1] at this
    exact absurd this (by simp)
  · exact h

theorem inv_finish (hinv : Inv m H w) (q : QueueRef) {state : JobState}
    (record error : Option String)
    (hq : ∀ j ∈ (w.queue q).jobs, holdsLease job j = true → state = .queued →
      w.account.callOf j = none ∧ j.attemptCount < m) :
    Inv m H (w.setQueue q (finish (w.queue q) job state record error)) := by
  obtain ⟨hfind, hkept⟩ := finish_spec (w.queue q) job state record error
  refine hinv.of_map hfind (fun j _ => ?_)
    (fun j hj n hn => (hn.finished (hq j hj)).of_attempts hkept)
  unfold finishJob; split <;> rfl

theorem inv_retryUnsubmitted (hinv : Inv m H w) (hm : m' ≤ m) {db : Queue}
    (h : retryUnsubmitted (w.queue q) w.account job m' = .ok db) : Inv m H (w.setQueue q db) := by
  obtain ⟨row, state, hatt, rfl, hstate⟩ := retryUnsubmitted_cases h
  refine inv_finish hinv q _ _ fun j hj hheld hq => ?_
  obtain ⟨hid, -, -, ⟨-, hcall⟩, -⟩ := holdsLease_iff.mp hheld
  rcases hstate with ⟨-, hs⟩ | ⟨hnone, hs⟩
  · rw [hs] at hq; exact absurd hq (by simp)
  · have hlt : job.attemptCount < m' := by
      by_contra hge
      rw [hs, if_neg hge] at hq
      exact absurd hq (by simp)
    refine ⟨by simpa [Account.callOf, hcall] using hnone, ?_⟩
    -- The copy passed `_attempt`, so its attempt is the row's current one.
    obtain ⟨-, -, a, ha, -, hca, hna⟩ := attempt_eq_ok_iff.mp hatt
    obtain ⟨b, hb, hcb, -, hnb⟩ := (hinv.job q j hj).current a.callId (hcall.trans hca)
    rw [Table.eq_of_key_eq hb ha hcb] at hnb
    omega

theorem inv_enqueue (hm : 0 < m) (hinv : Inv m H w) {jobId cacheKey requestSha : String} {now : ℚ}
    {queueLimit : Nat} {db : Queue} {reply : Reply}
    (h : enqueue (w.queue q) jobId cacheKey requestSha now queueLimit = .ok (db, reply)) :
    Inv m H (w.setQueue q db) := by
  rcases enqueue_cases h with rfl | ⟨j, rfl, rfl, hstate, hcount, hcall, hfresh, hins, hatt⟩
  · exact hinv.of_map (f := id) (fun k => by simp) (fun _ _ => rfl) (fun j _ n hn => hn)
  · have hold := Table.find?_none_of_insert hins
    constructor
    · intro q' j' hj'
      by_cases hq : q' = q
      · subst hq
        rw [World.setQueue_self] at hj' ⊢
        rw [hatt]
        rcases (Table.mem_of_insert hins).mp hj' with hj' | rfl
        · exact hinv.job q' j' hj'
        · rw [hinv.unborn q' j'.id hold]
          exact ⟨by omega, by omega, by simp [hcall], by omega, by omega⟩
      · rw [World.setQueue_ne _ _ hq] at hj' ⊢
        exact hinv.job q' j' hj'
    · intro q' a ha b hb hab
      by_cases hq : q' = q
      · subst hq
        rw [World.setQueue_self] at ha hb
        rcases (Table.mem_of_insert hins).mp ha with ha | rfl
        · rcases (Table.mem_of_insert hins).mp hb with hb | rfl
          · exact hinv.cache q' a ha b hb hab
          · exact absurd hab (hfresh a ha)
        · rcases (Table.mem_of_insert hins).mp hb with hb | rfl
          · exact absurd hab.symm (hfresh b hb)
          · rfl
      · rw [World.setQueue_ne _ _ hq] at ha hb
        exact hinv.cache q' a ha b hb hab
    · intro q' id hnone
      by_cases hq : q' = q
      · subst hq
        rw [World.setQueue_self, Table.find?_insert hins] at hnone
        split at hnone
        · simp at hnone
        · exact hinv.unborn q' id hnone
      · rw [World.setQueue_ne _ _ hq] at hnone
        exact hinv.unborn q' id hnone
    · exact hinv.permitted

/-! ### Reservations -/

theorem callsKept_insert {c : Call} {calls : Table Call.id} (h : acc.calls.insert c = some calls) :
    CallsKept acc { acc with calls := calls } := by
  intro k hk
  simp only
  rw [Table.find?_insert h]
  split
  · rfl
  · exact hk

/-- A granted reservation is the first insertion for its job: had there been an
earlier one, the row of the current call would exist. -/
theorem inv_reserved (hinv : Inv m H w) {row : Job} {callId day : String} {amount : Int}
    {calls : Table Call.id} {E : List Event} (hcall : job.callId = some callId)
    (hnone : w.account.calls.find? callId = none) (hatt : attempt (w.queue q) job = .ok row)
    (hrun : row.state = .running) (hrow : row.callId = job.callId)
    (hins : w.account.calls.insert (reservedCall callId day amount) = some calls)
    (hE : E = [.inserted q job.id] ∨ E = [.inserted q job.id, .permitted q job.id]) :
    Inv m (H ++ E) { w with account := { w.account with calls := calls } } := by
  obtain ⟨hfind, -, -⟩ := attempt_eq_ok_iff.mp hatt
  have hmem := Table.mem_of_find? hfind
  have hid : row.id = job.id := Table.find?_key hfind
  have hzero : H.count (.inserted q job.id) = 0 := by
    rw [← hid]
    by_contra hpos
    have := ((hinv.job q row hmem).paid (Nat.pos_of_ne_zero hpos)).2
    simp [Account.callOf, hrow, hcall, hnone] at this
  have hcount : ∀ q' id, E.count (.inserted q' id) = if q' = q ∧ id = job.id then 1 else 0 := by
    intro q' id
    by_cases h : q' = q ∧ id = job.id
    · obtain ⟨rfl, rfl⟩ := h
      rcases hE with rfl | rfl <;> simp
    · rw [if_neg h]
      have hne : Event.inserted q job.id ≠ Event.inserted q' id := by
        intro he
        injection he with h₁ h₂
        exact h ⟨h₁.symm, h₂.symm⟩
      rcases hE with rfl | rfl <;> simp [hne]
  have hgrown := hinv.of_account (callsKept_insert hins)
  constructor
  · intro q' j hj
    rw [List.count_append, hcount]
    by_cases h : q' = q ∧ j.id = job.id
    · obtain ⟨rfl, hjid⟩ := h
      obtain rfl : j = row := Table.eq_of_key_eq hj hmem (hjid.trans hid.symm)
      rw [hjid, hzero, if_pos ⟨rfl, rfl⟩]
      have hj' := hgrown.job q' j hj
      refine ⟨hj'.bounded, hj'.requeued, hj'.current, by omega, fun _ => ⟨by simp [hrun], ?_⟩⟩
      have hself := Table.find?_insert hins callId
      simp [Account.callOf, hrow, hcall, hself, reservedCall]
    · rw [if_neg h, Nat.add_zero]
      exact hgrown.job q' j hj
  · exact hgrown.cache
  · intro q' id hnone'
    rw [List.count_append, hcount, hinv.unborn q' id hnone', if_neg]
    rintro ⟨rfl, rfl⟩
    rw [hfind] at hnone'
    exact absurd hnone' (by simp)
  · intro q' id
    have hle := hinv.permitted q' id
    have hEle : E.count (.permitted q' id) ≤ E.count (.inserted q' id) := by
      rw [hcount]
      rcases hE with rfl | rfl
      · simp
      · by_cases h : q' = q ∧ id = job.id
        · obtain ⟨rfl, rfl⟩ := h
          simp
        · have hne : Event.permitted q job.id ≠ Event.permitted q' id := by
            intro he
            injection he with h₁ h₂
            exact h ⟨h₁.symm, h₂.symm⟩
          simp [hne]
    rw [List.count_append, List.count_append]
    omega

/-! ### Runs -/

section Runs

variable {callHash : String → String → String} {attemptPath : QueueRef → String → Nat → String}
  {utcDay : ℚ → String}

theorem World.setQueue_setQueue (w : World) (q : QueueRef) (db db' : Queue) :
    (w.setQueue q db).setQueue q db' = w.setQueue q db' := by
  unfold World.setQueue
  congr 1
  funext q'
  by_cases h : q' = q <;> simp [h]

/-- The events of a reservation, by what `Ledger.reserve` did to the account. -/
theorem inv_reserve (hinv : Inv m H w) {callId : String} {amount : Int} {now ownerNow : ℚ}
    {localLost : Bool} {reply reply' : Reply} (hstep : step callHash attemptPath utcDay w
      (.reserve q job callId amount now ownerNow localLost) = .ok ({ w with account := acc }, reply'))
    (h : reserve utcDay (w.queue q) w.account job callId amount now ownerNow = .ok (acc, reply))
    (hreply : reply' = .permitted → reply = .permitted) :
    Inv m (H ++ emit callHash attemptPath utcDay w
      (.reserve q job callId amount now ownerNow localLost)) { w with account := acc } := by
  have hnext : next callHash attemptPath utcDay w
      (.reserve q job callId amount now ownerNow localLost) = { w with account := acc } := by
    simp [next, hstep]
  simp only [emit, hnext, hstep]
  rcases reserve_cases h with ⟨rfl, record, rfl⟩ | ⟨rfl, hcall, hnone, ⟨row, hatt, hrun, hrow⟩, -, -,
    -, -, calls, rfl, hins⟩
  · -- Nothing was inserted, and the reply was not a permission.
    have : reply' ≠ .permitted := fun hp => by simpa using hreply hp
    simpa [this] using hinv
  · rw [Table.rows_of_insert hins, if_pos (by simp)]
    refine inv_reserved hinv hcall hnone hatt hrun hrow hins ?_
    by_cases hp : reply' = .permitted
    · exact Or.inr (by simp [hp])
    · exact Or.inl (by simp [hp])

/-- **One method call keeps the invariant.** -/
theorem inv_step (hm : 1 ≤ m) {op : Op} (hop : Admitted m op) (hinv : Inv m H w) :
    Inv m (H ++ emit callHash attemptPath utcDay w op) (next callHash attemptPath utcDay w op) := by
  rcases next_cases callHash attemptPath utcDay w op with
    ⟨e, hstep, hnext⟩ | ⟨w', reply, hstep, hnext⟩
  · have hemit : emit callHash attemptPath utcDay w op = [] := by
      cases op <;> simp [emit, hstep, hnext]
    rw [hnext, hemit, List.append_nil]
    exact hinv
  · rw [hnext]
    cases step_effect hstep with
    | enqueue h => simpa [emit] using inv_enqueue hm hinv h
    | @claim q token recoverNow now leaseSeconds m' recoverOnly db _ h =>
      have hrec := inv_recover hinv (show m' ≤ m from hop) q recoverNow
      rw [← World.setQueue_self w q (recover q (w.queue q) w.account recoverNow m')] at h
      have hlease := inv_lease hrec h
      rw [World.setQueue_setQueue] at hlease
      simpa [emit] using hlease
    | reserve h => exact inv_reserve hinv hstep h (fun hp => hp)
    | reserveLost h =>
      refine inv_reserve hinv hstep h (fun hp => ?_)
      split at hp <;> simp at hp
    | complete h =>
      have hkept := complete_callsKept h
      simpa [emit] using hinv.of_account hkept
    | fail h =>
      have hkept := fail_callsKept h
      simpa [emit] using hinv.of_account hkept
    | finish =>
      simpa [emit] using inv_finish hinv _ _ _ fun j _ _ hq => absurd hq hop
    | retryUnsubmitted h => simpa [emit] using inv_retryUnsubmitted hinv hop h
    | setBudget h =>
      have hkept := setBudget_callsKept h
      simpa [emit] using hinv.of_account hkept

/-- **At most one paid call per analysis.** In every run of the queues, with any
workers, copies, clocks and lost local commits, at most one call row is inserted
for a job over all its attempts, permission to submit is handed out at most
once, a cache key has at most one job, and no job is attempted more often than
the largest limit passed to a claim or retry. -/
theorem at_most_one_paid_call {m : Nat} (hm : 1 ≤ m) (ops : List Op)
    (hops : ∀ op ∈ ops, Admitted m op) :
    (∀ q id, (trace (next callHash attemptPath utcDay) (emit callHash attemptPath utcDay)
      World.init ops).count (.inserted q id) ≤ 1) ∧
    (∀ q id, (trace (next callHash attemptPath utcDay) (emit callHash attemptPath utcDay)
      World.init ops).count (.permitted q id) ≤ 1) ∧
    (∀ q, ∀ j ∈ ((run (next callHash attemptPath utcDay) World.init ops).queue q).jobs,
      ∀ j' ∈ ((run (next callHash attemptPath utcDay) World.init ops).queue q).jobs,
        j.cacheKey = j'.cacheKey → j = j') ∧
    (∀ q, ∀ j ∈ ((run (next callHash attemptPath utcDay) World.init ops).queue q).jobs,
      j.attemptCount ≤ m) := by
  have hstep : ∀ H w op, Admitted m op → Inv m H w →
      Inv m (H ++ emit callHash attemptPath utcDay w op) (next callHash attemptPath utcDay w op) :=
    fun _ _ _ hop h => inv_step hm hop h
  have hinv := trace_invariant hstep hops (inv_init m)
  rw [List.nil_append] at hinv
  have hone : ∀ q id, (trace (next callHash attemptPath utcDay) (emit callHash attemptPath utcDay)
      World.init ops).count (.inserted q id) ≤ 1 := by
    intro q id
    cases hf : ((run (next callHash attemptPath utcDay) World.init ops).queue q).jobs.find? id with
    | none => rw [hinv.unborn q id hf]; omega
    | some j =>
      have := (hinv.job q j (Table.mem_of_find? hf)).once
      rwa [Table.find?_key hf] at this
  exact ⟨hone, fun q id => (hinv.permitted q id).trans (hone q id), hinv.cache,
    fun q j hj => (hinv.job q j hj).bounded⟩

end Runs

/-- A worker's copy of the only job of `paidRun`. -/
def paidCopy : Job where
  id := "a"
  cacheKey := "k"
  requestSha := "s"
  created := 0
  state := .running
  attemptCount := 1
  leaseToken := some "t"
  leaseUntil := some 300
  callId := some "a/1:s"
  runId := some "a/1"
  resultJson := none
  errorCode := none

/-- Enqueue, claim, reserve, and reserve again after losing the answer. -/
def paidRun : List Op :=
  [.setBudget 100 50, .enqueue .ssh "a" "k" "s" 0 100, .claim .ssh "t" 0 0 300 2 false,
   .reserve .ssh paidCopy "a/1:s" 40 10 10 false, .reserve .ssh paidCopy "a/1:s" 40 10 10 false]

/-- In `paidRun` the row is inserted, and permission is given no second time. -/
theorem paidRun_pays_once :
    (trace (next (fun r s => r ++ ":" ++ s) (fun _ id n => id ++ "/" ++ toString n) (fun _ => "day"))
      (emit (fun r s => r ++ ":" ++ s) (fun _ id n => id ++ "/" ++ toString n) (fun _ => "day"))
      World.init paidRun).count (.inserted .ssh "a") = 1 ∧
    (trace (next (fun r s => r ++ ":" ++ s) (fun _ id n => id ++ "/" ++ toString n) (fun _ => "day"))
      (emit (fun r s => r ++ ":" ++ s) (fun _ id n => id ++ "/" ++ toString n) (fun _ => "day"))
      World.init paidRun).count (.permitted .ssh "a") ≤ 1 := by
  refine ⟨by decide +kernel, ?_⟩
  refine (at_most_one_paid_call (m := 2) (by decide) paidRun ?_).2.1 .ssh "a"
  intro op hop
  simp only [paidRun, List.mem_cons, List.not_mem_nil, or_false] at hop
  rcases hop with rfl | rfl | rfl | rfl | rfl <;> simp [Admitted]

end RiskOps.Telemetry.AiJobs
