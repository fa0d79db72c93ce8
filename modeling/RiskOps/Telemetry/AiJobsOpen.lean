import RiskOps.Telemetry.AiJobsLease
import RiskOps.Telemetry.AiJobsBudget

/-!
# RiskOps.Telemetry.AiJobsOpen — a reservation stays open until it is settled

Between `Ledger.reserve` and `Ledger.complete` a provider is asked, and other workers go on
claiming, recovering and settling. `Open` says what `Ledger.complete` needs to find: the attempt of
the worker's job and the uncharged row of its call. Every method call keeps it, except a settlement
of that very call.
-/

namespace RiskOps.Telemetry.AiJobs

open RiskOps.Lib

/-- The worker's attempt is on record and its call is reserved and not charged. -/
structure Open (q : QueueRef) (job : Job) (callId : String) (w : World) : Prop where
  call : job.callId = some callId
  attempted : ∃ row, attempt (w.queue q) job = .ok row
  uncharged : ∃ c, w.account.calls.find? callId = some c ∧ c.charged = none

/-- The method call settles `callId`. -/
def Op.completes (callId : String) : Op → Bool
  | .complete _ _ id _ _ => id = callId
  | _ => false

section Moves

variable {callHash : String → String → String} {attemptPath : QueueRef → String → Nat → String}
  {utcDay : ℚ → String}

variable {acc : Account} {q : QueueRef}

theorem JobMove.same_request {j j' : Job} {op : Op} (h : JobMove acc q j op j') :
    j'.id = j.id ∧ j'.requestSha = j.requestSha := by
  cases h with
  | same => exact ⟨rfl, rfl⟩
  | claimed hrec hl =>
    have hl' : _ := hl
    cases hrec with
    | kept => rcases hl' with rfl | hl' <;> [exact ⟨rfl, rfl⟩; (cases hl' <;> exact ⟨rfl, rfl⟩)]
    | moved => rcases hl' with rfl | hl' <;> [exact ⟨rfl, rfl⟩; (cases hl' <;> exact ⟨rfl, rfl⟩)]
  | finished hheld => exact ⟨rfl, rfl⟩
  | retried hheld hpaid => exact ⟨rfl, rfl⟩

variable (callHash attemptPath utcDay) in
/-- **Attempts are never deleted.** -/
theorem attempts_next (w : World) (q : QueueRef) (op : Op) :
    AttemptsKept (w.queue q).attempts
      ((next callHash attemptPath utcDay w op).queue q).attempts := by
  rcases next_cases callHash attemptPath utcDay w op with
    ⟨e, -, hnext⟩ | ⟨w', reply, hstep, hnext⟩
  · rw [hnext]; exact .refl _
  · rw [hnext]
    -- A method of another queue leaves this one alone.
    have hset : ∀ {q' : QueueRef} {db : Queue}, AttemptsKept (w.queue q').attempts db.attempts →
        AttemptsKept (w.queue q).attempts ((w.setQueue q' db).queue q).attempts := by
      intro q' db h
      by_cases hq : q = q'
      · subst hq
        rwa [World.setQueue_self]
      · rw [World.setQueue_ne _ _ hq]
        exact .refl _
    cases step_effect hstep with
    | enqueue h =>
      refine hset ?_
      rcases enqueue_cases h with rfl | ⟨j₀, -, -, -, -, -, -, -, hatt⟩
      · exact .refl _
      · rw [hatt]; exact .refl _
    | @claim q' token recoverNow now leaseSeconds m recoverOnly db reply h =>
      refine hset ?_
      obtain ⟨f, -, -, hkept⟩ := recover_spec q' (w.queue q') w.account recoverNow m
      rcases lease_spec h with ⟨rfl, rfl⟩ | ⟨row, -, row', -, -, -, hl, -⟩
      · exact hkept
      · exact hkept.trans hl
    | finish => exact hset (finish_spec _ _ _ _ _).2
    | retryUnsubmitted h =>
      obtain ⟨row, state, -, rfl, -⟩ := retryUnsubmitted_cases h
      exact hset (finish_spec _ _ _ _ _).2
    | reserve h => exact .refl _
    | reserveLost h => exact .refl _
    | complete h => exact .refl _
    | fail h => exact .refl _
    | setBudget h => exact .refl _

variable {w : World} {job : Job}

variable (callHash attemptPath utcDay) in
theorem attempted_next (h : ∃ row, attempt (w.queue q) job = .ok row) (op : Op) :
    ∃ row, attempt ((next callHash attemptPath utcDay w op).queue q) job = .ok row := by
  obtain ⟨row, hrow⟩ := h
  obtain ⟨hfind, hsha, a, ha, hjob, hcall, hnum⟩ := attempt_eq_ok_iff.mp hrow
  obtain ⟨row', hfind', hmove⟩ := job_cases callHash attemptPath utcDay hfind op
  obtain ⟨hid, hsha'⟩ := hmove.same_request
  obtain ⟨b, hb, hcall', hjob', hnum'⟩ := attempts_next callHash attemptPath utcDay w q op a ha
  refine ⟨row', attempt_eq_ok_iff.mpr ⟨hfind', hsha'.trans hsha, b, hb, ?_, ?_, ?_⟩⟩
  · rw [hjob', hjob, hid]
  · rw [hcall, hcall']
  · rw [hnum', hnum]

/-- Rewriting calls keeps a row uncharged when the row's own rewriting does. -/
theorem uncharged_updateCall {id callId : String} {f : Call → Call} (hf : ∀ c, (f c).id = c.id)
    (hcharged : id = callId → ∀ c, (f c).charged = c.charged)
    (h : ∃ c, acc.calls.find? callId = some c ∧ c.charged = none) :
    ∃ c, (acc.updateCall id f hf).calls.find? callId = some c ∧ c.charged = none := by
  obtain ⟨c, hc, hopen⟩ := h
  have hkey : c.id = callId := Table.find?_key hc
  refine ⟨if c.id = id then f c else c, by simp [Account.updateCall, hc], ?_⟩
  split
  · rename_i hid
    rw [hcharged (hid.symm.trans hkey), hopen]
  · exact hopen

theorem uncharged_reserve {db : Queue} {acc' : Account} {id callId : String} {amount : Int}
    {now ownerNow : ℚ} {reply : Reply}
    (hres : reserve utcDay db acc job id amount now ownerNow = .ok (acc', reply))
    (h : ∃ c, acc.calls.find? callId = some c ∧ c.charged = none) :
    ∃ c, acc'.calls.find? callId = some c ∧ c.charged = none := by
  obtain ⟨c, hc, hopen⟩ := h
  obtain ⟨c', hc', -, -, -⟩ := (reserve_move hres).kept hc
  rcases reserve_cases hres with ⟨rfl, -⟩ | ⟨-, -, hnone, -, -, -, -, -, calls, rfl, hins⟩
  · exact ⟨c, hc, hopen⟩
  · refine ⟨c, ?_, hopen⟩
    simp only
    rw [Table.find?_insert hins, if_neg, hc]
    rintro rfl
    rw [Table.find?_none_of_insert hins] at hc
    exact absurd hc (by simp)

variable (callHash attemptPath utcDay) in
/-- **One step.** A method call that does not settle the call keeps its reservation open. -/
theorem Open.next {callId : String} (h : Open q job callId w) {op : Op}
    (hop : op.completes callId = false) :
    Open q job callId (next callHash attemptPath utcDay w op) where
  call := h.call
  attempted := attempted_next callHash attemptPath utcDay h.attempted op
  uncharged := by
    have hopen := h.uncharged
    rcases next_cases callHash attemptPath utcDay w op with
      ⟨e, -, hnext⟩ | ⟨w', reply, hstep, hnext⟩
    · rw [hnext]; exact hopen
    · rw [hnext]
      cases step_effect hstep with
      | enqueue h => exact hopen
      | claim h => exact hopen
      | finish => exact hopen
      | retryUnsubmitted h => exact hopen
      | reserve h => exact uncharged_reserve h hopen
      | reserveLost h => exact uncharged_reserve h hopen
      | complete h =>
        obtain ⟨-, -, ⟨rfl, -⟩ | ⟨c, record, -, -, -, hcalls, -⟩⟩ := complete_cases h
        · exact hopen
        · simp only at hcalls ⊢
          rw [hcalls]
          refine uncharged_updateCall (Call.settle_id _ _) (fun hid => ?_) hopen
          simp [Op.completes, hid] at hop
      | fail h =>
        rcases fail_cases h with rfl | ⟨c, -, -, rfl⟩
        · exact hopen
        · exact uncharged_updateCall (Call.markUncertain_id _) (fun _ _ => rfl) hopen
      | setBudget h =>
        obtain ⟨rfl, -⟩ := setBudget_cases h
        exact hopen

variable (callHash attemptPath utcDay) in
/-- **A whole run.** -/
theorem Open.run {callId : String} (h : Open q job callId w) {ops : List Op}
    (hops : ∀ op ∈ ops, op.completes callId = false) :
    Open q job callId (run (AiJobs.next callHash attemptPath utcDay) w ops) :=
  run_invariant (P := Open q job callId) (Q := fun op => op.completes callId = false)
    (fun _ _ hop hw => Open.next callHash attemptPath utcDay hw hop) hops h

/-- The permission to submit leaves the reservation open. -/
theorem open_of_permitted {callId : String} {amount : Int} {now ownerNow : ℚ} {lost : Bool}
    {w' : World}
    (h : step callHash attemptPath utcDay w (.reserve q job callId amount now ownerNow lost) =
      .ok (w', .permitted)) : Open q job callId w' := by
  generalize hop : Op.reserve q job callId amount now ownerNow lost = op at h
  generalize hreply : Reply.permitted = reply at h
  cases step_effect h with
  | reserve hres =>
    cases hop
    rcases reserve_cases hres with ⟨-, record, hr⟩ | ⟨-, hcall, -, ⟨row, hatt, -⟩, -, -, -, -, calls,
      rfl, hins⟩
    · exact absurd (hreply.trans hr) (by simp)
    · refine ⟨hcall, ⟨row, hatt⟩, reservedCall callId (utcDay ownerNow) amount, ?_, rfl⟩
      simp only
      rw [Table.find?_insert hins]
      exact if_pos rfl
  | reserveLost hres =>
    split at hreply <;> simp at hreply
  | _ => cases hop

/-- **`complete` on an open call** succeeds exactly when the charge is in range and the record can
be encoded, and then the row carries the charge. -/
theorem Open.complete {q : QueueRef} {job : Job} {callId : String} {w : World}
    (h : Open q job callId w) {charged : Int} (hrange : 0 ≤ charged ∧ charged ≤ maxAmount)
    {record : String} :
    ∃ acc c, complete (w.queue q) w.account job callId charged (some record) = .ok acc ∧
      acc.calls.find? callId = some c ∧ c.charged = some charged ∧ c.record = some record := by
  obtain ⟨row, hrow⟩ := h.attempted
  obtain ⟨c, hc, hopen⟩ := h.uncharged
  have hkey : c.id = callId := Table.find?_key hc
  refine ⟨{ w.account.updateCall callId (Call.settle charged record) (Call.settle_id _ _) with
      halted := w.account.halted || decide (c.reserved < charged) }, c.settle charged record, ?_, ?_,
    rfl, rfl⟩
  · simp only [AiJobs.complete, h.call, hrange, hrow, hc, hopen, bind, Except.bind, pure,
      Except.pure, ne_eq, not_true_eq_false, if_false, and_self, Option.isSome_none,
      Bool.false_eq_true]
  · simp [Account.updateCall, hc, hkey]

/-- A record that cannot be encoded is refused. -/
theorem complete_none (db : Queue) (acc : Account) (job : Job) (callId : String) (charged : Int) :
    ∃ e, complete db acc job callId charged none = .error e := by
  unfold complete
  by_cases hcall : job.callId = some callId
  · by_cases hrange : 0 ≤ charged ∧ charged ≤ maxAmount
    · exact ⟨_, by simp [hcall, hrange, bind, Except.bind, throw, throwThe, MonadExceptOf.throw]; rfl⟩
    · refine ⟨.invalidSettlement, ?_⟩
      simp only [hcall, ne_eq, not_true_eq_false, if_false, hrange, not_false_eq_true, if_true]
      simp [bind, Except.bind, throw, throwThe, MonadExceptOf.throw]
  · exact ⟨.wrongCall, by simp [hcall, bind, Except.bind, throw, throwThe, MonadExceptOf.throw]⟩

end Moves

end RiskOps.Telemetry.AiJobs
