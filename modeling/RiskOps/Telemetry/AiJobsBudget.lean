import RiskOps.Telemetry.AiJobsSpec

/-!
# RiskOps.Telemetry.AiJobsBudget

**The analysis budget is never exceeded silently.** Reservations, settlements
and failures reach the account from the SSH queue and from every joint queue
bound to it, in any order. `Account.Sound` is the invariant: while the account
is not halted the committed sum of all calls is within the total limit and each
day's sum within the daily limit, and it is halted exactly when some call was
charged more than it had reserved.

Only three things happen to the call table: a row is inserted by a reservation
that the limits cover, an open row is settled, or an open row is marked
uncertain (`account_cases`). What is written once stays (`Call.Kept`).
-/

namespace RiskOps.Telemetry.AiJobs

open RiskOps.Lib

/-! ### What can happen to the account -/

/-- A method call leaves the account alone, sets the limits for the first time
(or to the same values), inserts a covered reservation, or rewrites one open
call by `f`. -/
inductive AccountMove (acc : Account) : Account → Prop
  | same : AccountMove acc acc
  | limits {total daily : Int} (hpos : 0 < daily) (hle : daily ≤ total)
      (ht : acc.totalLimit.getD total = total) (hd : acc.dailyLimit.getD daily = daily) :
      AccountMove acc { acc with totalLimit := some total, dailyLimit := some daily }
  | reserved {id day : String} {amount : Int} {calls : Table Call.id}
      (hhalt : acc.halted = false)
      (htotal : acc.committed + amount ≤ acc.totalLimit.getD 0)
      (hdaily : acc.committedOn day + amount ≤ acc.dailyLimit.getD 0)
      (hins : acc.calls.insert (reservedCall id day amount) = some calls) :
      AccountMove acc { acc with calls := calls }
  | settled {c : Call} {charged : Int} {record : String} (hc : acc.calls.find? c.id = some c)
      (hopen : c.charged = none) :
      AccountMove acc
        { acc.updateCall c.id (Call.settle charged record) (Call.settle_id _ _) with
          halted := acc.halted || decide (c.reserved < charged) }
  | failed {c : Call} {code : String} (hc : acc.calls.find? c.id = some c)
      (hopen : c.charged = none) :
      AccountMove acc (acc.updateCall c.id (Call.markUncertain code) (Call.markUncertain_id _))

variable {acc acc' : Account}

section Moves

variable {callHash : String → String → String} {attemptPath : QueueRef → String → Nat → String}
  {utcDay : ℚ → String}

variable {job : Job}

theorem reserve_move {db : Queue} {callId : String} {amount : Int} {now ownerNow : ℚ}
    {reply : Reply} (h : reserve utcDay db acc job callId amount now ownerNow = .ok (acc', reply)) :
    AccountMove acc acc' := by
  rcases reserve_cases h with ⟨rfl, -⟩ | ⟨-, -, -, -, -, hhalt, htotal, hdaily, calls, rfl, hins⟩
  · exact .same
  · exact .reserved hhalt htotal hdaily hins

theorem complete_move {db : Queue} {callId : String} {charged : Int} {encoded : Option String}
    (h : complete db acc job callId charged encoded = .ok acc') : AccountMove acc acc' := by
  obtain ⟨-, -, ⟨rfl, -⟩ | ⟨c, record, hf, hopen, -, hcalls, htotal, hdaily, hhalt⟩⟩ :=
    complete_cases h
  · exact .same
  · obtain rfl : c.id = callId := Table.find?_key hf
    obtain ⟨calls, total, daily, halted⟩ := acc'
    simp only at hcalls htotal hdaily hhalt
    subst hcalls htotal hdaily hhalt
    exact .settled hf hopen

theorem fail_move {db : Queue} {callId code : String} (h : fail db acc job callId code = .ok acc') :
    AccountMove acc acc' := by
  rcases fail_cases h with rfl | ⟨c, hf, hopen, rfl⟩
  · exact .same
  · obtain rfl : c.id = callId := Table.find?_key hf
    exact .failed hf hopen

variable (callHash attemptPath utcDay) in
/-- **Every method call** moves the account in one of these ways. -/
theorem account_cases (w : World) (op : Op) :
    AccountMove w.account (next callHash attemptPath utcDay w op).account := by
  rcases next_cases callHash attemptPath utcDay w op with
    ⟨e, -, hnext⟩ | ⟨w', reply, hstep, hnext⟩
  · rw [hnext]; exact .same
  · rw [hnext]
    cases step_effect hstep with
    | enqueue h => exact .same
    | claim h => exact .same
    | reserve h => exact reserve_move h
    | reserveLost h => exact reserve_move h
    | complete h => exact complete_move h
    | fail h => exact fail_move h
    | finish => exact .same
    | retryUnsubmitted h => exact .same
    | setBudget h =>
      obtain ⟨rfl, hpos, hle, ht, hd⟩ := setBudget_cases h
      exact .limits hpos hle ht hd

end Moves

variable {id : String}

theorem mem_updateCall {f : Call → Call} (hf : ∀ c, (f c).id = c.id) {c' : Call} :
    c' ∈ (acc.updateCall id f hf).calls ↔ ∃ c ∈ acc.calls, (if c.id = id then f c else c) = c' := by
  simp [Account.updateCall, Table.mem_update]

/-! ### Sums -/

variable {c : Call} {calls : Table Call.id}

theorem committed_insert (h : acc.calls.insert c = some calls) :
    ({ acc with calls := calls } : Account).committed = acc.committed + c.committed := by
  simp [Account.committed, Table.rows_of_insert h]

theorem committedOn_insert (h : acc.calls.insert c = some calls) (day : String) :
    ({ acc with calls := calls } : Account).committedOn day =
      acc.committedOn day + if c.day = day then c.committed else 0 := by
  unfold Account.committedOn Table.select
  simp only [Table.rows_of_insert h, List.filter_append, List.map_append, List.sum_append]
  by_cases hd : c.day = day <;> simp [hd]

/-- Rewriting a call without raising its commitment or moving its day lowers
every sum. -/
theorem committed_updateCall_le {f : Call → Call} {hf : ∀ c, (f c).id = c.id}
    (hle : ∀ c ∈ acc.calls, c.id = id → (f c).committed ≤ c.committed) :
    (acc.updateCall id f hf).committed ≤ acc.committed := by
  simp only [Account.committed, Account.updateCall, Table.update, List.map_map]
  refine List.sum_le_sum fun c hc => ?_
  by_cases h : c.id = id
  · simpa [h] using hle c hc h
  · simp [h]

theorem committedOn_updateCall_le {f : Call → Call} {hf : ∀ c, (f c).id = c.id}
    (hday : ∀ c, (f c).day = c.day)
    (hle : ∀ c ∈ acc.calls, c.id = id → (f c).committed ≤ c.committed) (day : String) :
    (acc.updateCall id f hf).committedOn day ≤ acc.committedOn day := by
  have hsame : ∀ c : Call, (if c.id = id then f c else c).day = c.day := by
    intro c; split
    · exact hday c
    · rfl
  simp only [Account.committedOn, Account.updateCall, Table.update, Table.select, List.filter_map,
    List.map_map, Function.comp_def, hsame]
  refine List.sum_le_sum fun c hc => ?_
  by_cases h : c.id = id
  · simpa [h] using hle c (List.mem_of_mem_filter hc) h
  · simp [h]

/-! ### The invariant -/

/-- Some call was charged more than it had reserved. -/
def Account.Overrun (acc : Account) : Prop :=
  ∃ c ∈ acc.calls, ∃ x, c.charged = some x ∧ c.reserved < x

/-- Within both limits. -/
def Account.WithinLimits (acc : Account) : Prop :=
  acc.committed ≤ acc.totalLimit.getD 0 ∧ ∀ day, acc.committedOn day ≤ acc.dailyLimit.getD 0

theorem Account.WithinLimits.updateCall (h : acc.WithinLimits) {f : Call → Call}
    (hf : ∀ c, (f c).id = c.id) (hday : ∀ c, (f c).day = c.day)
    (hle : ∀ c ∈ acc.calls, c.id = id → (f c).committed ≤ c.committed) :
    (acc.updateCall id f hf).WithinLimits :=
  ⟨(committed_updateCall_le hle).trans h.1,
    fun day => (committedOn_updateCall_le hday hle day).trans (h.2 day)⟩

@[simp] theorem Account.updateCall_halted (acc : Account) (id : String) (f : Call → Call)
    (hf : ∀ c, (f c).id = c.id) : (acc.updateCall id f hf).halted = acc.halted := rfl

structure Account.Sound (acc : Account) : Prop where
  within : acc.halted = false → acc.WithinLimits
  overrun : acc.halted = true ↔ acc.Overrun

theorem sound_init : World.init.account.Sound where
  within := fun _ => ⟨le_refl 0, fun _ => le_refl 0⟩
  overrun := by
    constructor
    · intro h; simp [World.init] at h
    · rintro ⟨c, hc, -⟩; exact absurd hc (Table.not_mem_empty c)

theorem sound_limits (h : acc.Sound) {total daily : Int} (hpos : 0 < daily) (hle : daily ≤ total)
    (ht : acc.totalLimit.getD total = total) (hd : acc.dailyLimit.getD daily = daily) :
    ({ acc with totalLimit := some total, dailyLimit := some daily } : Account).Sound := by
  refine ⟨fun hh => ⟨?_, fun day => ?_⟩, h.overrun⟩
  · -- An unset limit counted as 0, a set one is unchanged.
    have := (h.within hh).1
    cases hlim : acc.totalLimit with
    | none => rw [hlim] at this; exact le_trans this (by simpa using le_of_lt (hpos.trans_le hle))
    | some t => rw [hlim] at this ht; exact le_trans this (by simpa using le_of_eq ht)
  · have := (h.within hh).2 day
    cases hlim : acc.dailyLimit with
    | none => rw [hlim] at this; exact le_trans this (by simpa using le_of_lt hpos)
    | some t => rw [hlim] at this hd; exact le_trans this (by simpa using le_of_eq hd)

theorem sound_reserved (h : acc.Sound) {day : String} {amount : Int} (hhalt : acc.halted = false)
    (htotal : acc.committed + amount ≤ acc.totalLimit.getD 0)
    (hdaily : acc.committedOn day + amount ≤ acc.dailyLimit.getD 0)
    (hins : acc.calls.insert (reservedCall id day amount) = some calls) :
    ({ acc with calls := calls } : Account).Sound := by
  refine ⟨fun hh => ⟨?_, fun d => ?_⟩, ?_⟩
  · rw [committed_insert hins]; exact htotal
  · rw [committedOn_insert hins]
    by_cases hd : (reservedCall id day amount).day = d
    · rw [if_pos hd, ← hd]; exact hdaily
    · rw [if_neg hd, add_zero]; exact (h.within hhalt).2 d
  · rw [show ({ acc with calls := calls } : Account).halted = acc.halted from rfl, h.overrun]
    constructor
    · rintro ⟨c, hc, hx⟩
      exact ⟨c, (Table.mem_of_insert hins).mpr (Or.inl hc), hx⟩
    · rintro ⟨c, hc, x, hx, hlt⟩
      rcases (Table.mem_of_insert hins).mp hc with hc | rfl
      · exact ⟨c, hc, x, hx, hlt⟩
      · simp [reservedCall] at hx

theorem sound_settled (h : acc.Sound) {charged : Int} {record : String}
    (hc : acc.calls.find? c.id = some c) (hopen : c.charged = none) :
    ({ acc.updateCall c.id (Call.settle charged record) (Call.settle_id _ _) with
        halted := acc.halted || decide (c.reserved < charged) } : Account).Sound := by
  have hmem := Table.mem_of_find? hc
  constructor
  · intro hh
    simp only [Bool.or_eq_false_iff, decide_eq_false_iff_not, not_lt] at hh
    have hle : ∀ c' ∈ acc.calls, c'.id = c.id →
        (Call.settle charged record c').committed ≤ c'.committed := by
      intro c' hc' hid
      obtain rfl := Table.eq_of_key_eq hc' hmem hid
      simpa [Call.committed, Call.settle, hopen] using hh.2
    exact (h.within hh.1).updateCall (Call.settle_id _ _) (fun _ => rfl) hle
  · simp only [Bool.or_eq_true, decide_eq_true_eq, h.overrun]
    constructor
    · rintro (⟨c', hc', x, hx, hlt⟩ | hlt)
      · -- An overrun call was already settled, so it is not the one settled now.
        have hne : c'.id ≠ c.id := by
          intro hid
          obtain rfl := Table.eq_of_key_eq hc' hmem hid
          rw [hopen] at hx; simp at hx
        exact ⟨c', (mem_updateCall (Call.settle_id _ _)).mpr ⟨c', hc', by simp [hne]⟩, x, hx, hlt⟩
      · exact ⟨_, (mem_updateCall (Call.settle_id _ _)).mpr ⟨c, hmem, rfl⟩, charged, by simp [Call.settle],
          by simpa [Call.settle] using hlt⟩
    · rintro ⟨c', hc', x, hx, hlt⟩
      obtain ⟨c₀, hc₀, rfl⟩ := (mem_updateCall (Call.settle_id _ _)).mp hc'
      by_cases hid : c₀.id = c.id
      · obtain rfl := Table.eq_of_key_eq hc₀ hmem hid
        simp only [if_true, Call.settle, Option.some.injEq] at hx hlt
        exact Or.inr (hx ▸ hlt)
      · simp only [if_neg hid] at hx hlt
        exact Or.inl ⟨c₀, hc₀, x, hx, hlt⟩

theorem sound_failed (h : acc.Sound) {code : String} :
    (acc.updateCall c.id (Call.markUncertain code) (Call.markUncertain_id _)).Sound := by
  refine ⟨fun hh => (h.within hh).updateCall (Call.markUncertain_id _) (fun _ => rfl)
    (fun _ _ _ => le_refl _), ?_⟩
  rw [Account.updateCall_halted, h.overrun]
  constructor
  · rintro ⟨c', hc', x, hx, hlt⟩
    refine ⟨_, (mem_updateCall (Call.markUncertain_id _)).mpr ⟨c', hc', rfl⟩, x, ?_, ?_⟩
    · split <;> exact hx
    · split <;> exact hlt
  · rintro ⟨c', hc', x, hx, hlt⟩
    obtain ⟨c₀, hc₀, rfl⟩ := (mem_updateCall (Call.markUncertain_id _)).mp hc'
    refine ⟨c₀, hc₀, x, ?_, ?_⟩
    · split at hx <;> exact hx
    · split at hlt <;> exact hlt

theorem AccountMove.sound (hm : AccountMove acc acc') (h : acc.Sound) : acc'.Sound := by
  cases hm with
  | same => exact h
  | limits hpos hle ht hd => exact sound_limits h hpos hle ht hd
  | reserved hhalt htotal hdaily hins => exact sound_reserved h hhalt htotal hdaily hins
  | settled hc hopen => exact sound_settled h hc hopen
  | failed hc hopen => exact sound_failed h

/-! ### What is written stays -/

/-- `c'` is a later version of the call row `c`. -/
def Call.Kept (c c' : Call) : Prop :=
  c'.day = c.day ∧ c'.reserved = c.reserved ∧
    (c.charged.isSome → c'.charged = c.charged ∧ c'.record = c.record)

theorem Call.Kept.refl (c : Call) : c.Kept c := ⟨rfl, rfl, fun _ => ⟨rfl, rfl⟩⟩

theorem Call.Kept.trans {a b : Call} (h₁ : a.Kept b) (h₂ : b.Kept c) : a.Kept c := by
  refine ⟨h₂.1.trans h₁.1, h₂.2.1.trans h₁.2.1, fun hs => ?_⟩
  obtain ⟨hb, hrb⟩ := h₁.2.2 hs
  obtain ⟨hc, hrc⟩ := h₂.2.2 (by rw [hb]; exact hs)
  exact ⟨hc.trans hb, hrc.trans hrb⟩

/-- Rewriting the open call `c` keeps every call. -/
theorem kept_updateCall {f : Call → Call} (hf : ∀ c, (f c).id = c.id)
    (hc : acc.calls.find? c.id = some c) (hkept : c.Kept (f c)) {c₀ : Call}
    (h₀ : acc.calls.find? id = some c₀) :
    ∃ c', (acc.updateCall c.id f hf).calls.find? id = some c' ∧ c₀.Kept c' := by
  refine ⟨if c₀.id = c.id then f c₀ else c₀, by simp [Account.updateCall, h₀], ?_⟩
  by_cases hid : c₀.id = c.id
  · rw [if_pos hid]
    rwa [Table.eq_of_key_eq (Table.mem_of_find? h₀) (Table.mem_of_find? hc) hid]
  · rw [if_neg hid]
    exact .refl _

theorem AccountMove.kept (hm : AccountMove acc acc') (h : acc.calls.find? id = some c) :
    ∃ c', acc'.calls.find? id = some c' ∧ c.Kept c' := by
  cases hm with
  | same => exact ⟨c, h, .refl c⟩
  | limits => exact ⟨c, h, .refl c⟩
  | reserved hhalt htotal hdaily hins =>
    refine ⟨c, ?_, .refl c⟩
    simp only
    rw [Table.find?_insert hins, if_neg, h]
    rintro rfl
    rw [Table.find?_none_of_insert hins] at h
    exact absurd h (by simp)
  | settled hc hopen => exact kept_updateCall (Call.settle_id _ _) hc ⟨rfl, rfl, by simp [hopen]⟩ h
  | failed hc hopen =>
    exact kept_updateCall (Call.markUncertain_id _) hc ⟨rfl, rfl, by simp [hopen]⟩ h

/-- Once halted, no row is ever inserted again. -/
theorem AccountMove.halted (hm : AccountMove acc acc') (h : acc.halted = true) :
    acc'.halted = true ∧ acc'.calls.rows.length = acc.calls.rows.length := by
  cases hm with
  | same => exact ⟨h, rfl⟩
  | limits => exact ⟨h, rfl⟩
  | reserved hhalt => rw [h] at hhalt; exact absurd hhalt (by simp)
  | settled => exact ⟨by simp [h], by simp [Account.updateCall, Table.update]⟩
  | failed => exact ⟨h, by simp [Account.updateCall, Table.update]⟩

/-! ### Runs -/

section Runs

variable (callHash : String → String → String) (attemptPath : QueueRef → String → Nat → String)
  (utcDay : ℚ → String)

theorem run_kept {ops : List Op} {w : World} (h : w.account.calls.find? id = some c) :
    ∃ c', (run (next callHash attemptPath utcDay) w ops).account.calls.find? id = some c' ∧
      c.Kept c' := by
  refine run_preserves (P := fun w : World => ∃ c', w.account.calls.find? id = some c' ∧ c.Kept c')
    ?_ ⟨c, h, .refl c⟩
  rintro w op ⟨c', hc', hkept⟩
  obtain ⟨c'', hc'', hkept'⟩ := (account_cases callHash attemptPath utcDay w op).kept hc'
  exact ⟨c'', hc'', hkept.trans hkept'⟩

theorem run_halted {ops : List Op} {w : World} (h : w.account.halted = true) :
    (run (next callHash attemptPath utcDay) w ops).account.halted = true ∧
      (run (next callHash attemptPath utcDay) w ops).account.calls.rows.length =
        w.account.calls.rows.length := by
  refine run_preserves (P := fun w' : World => w'.account.halted = true ∧
    w'.account.calls.rows.length = w.account.calls.rows.length) ?_ ⟨h, rfl⟩
  rintro w' op ⟨hh, hlen⟩
  obtain ⟨hh', hlen'⟩ := (account_cases callHash attemptPath utcDay w' op).halted hh
  exact ⟨hh', hlen'.trans hlen⟩

/-- **The analysis budget is never exceeded silently.** In the world after any
run: the sums are within the limits unless the account is halted; it is halted
exactly when a call was charged above its reservation; once halted it stays so
and no continuation inserts a row; and no continuation changes a call's day, its
reservation or, once set, its charge and record. -/
theorem budget_never_exceeded_silently (ops : List Op) :
    ((run (next callHash attemptPath utcDay) World.init ops).account.halted = false →
      (run (next callHash attemptPath utcDay) World.init ops).account.WithinLimits) ∧
    ((run (next callHash attemptPath utcDay) World.init ops).account.halted = true ↔
      (run (next callHash attemptPath utcDay) World.init ops).account.Overrun) ∧
    ((run (next callHash attemptPath utcDay) World.init ops).account.halted = true →
      ∀ later, (run (next callHash attemptPath utcDay) World.init (ops ++ later)).account.halted =
          true ∧
        (run (next callHash attemptPath utcDay) World.init (ops ++ later)).account.calls.rows.length =
          (run (next callHash attemptPath utcDay) World.init ops).account.calls.rows.length) ∧
    (∀ id c, (run (next callHash attemptPath utcDay) World.init ops).account.calls.find? id = some c →
      ∀ later, ∃ c', (run (next callHash attemptPath utcDay) World.init
        (ops ++ later)).account.calls.find? id = some c' ∧ c.Kept c') := by
  have hsound : (run (next callHash attemptPath utcDay) World.init ops).account.Sound :=
    run_preserves (P := fun w : World => w.account.Sound)
      (fun w op h => (account_cases callHash attemptPath utcDay w op).sound h) sound_init
  refine ⟨hsound.within, hsound.overrun, fun hh later => ?_, fun id c hc later => ?_⟩
  · rw [run_append]
    exact run_halted callHash attemptPath utcDay hh
  · rw [run_append]
    exact run_kept callHash attemptPath utcDay hc

end Runs

end RiskOps.Telemetry.AiJobs
