import RiskOps.Lib.Decimal
import RiskOps.Lib.Run
import RiskOps.Lib.Table

/-!
# RiskOps.Triage.Budget — the ledger of paid evaluations

Model of `BudgetLedger` (`agents/triage_budget.py`). Every method is one transaction, so processes
that share a ledger take turns. A reservation is committed before the call it permits; it is settled
once, and what is neither settled nor marked stays as it was.

**The ceiling.** `int(amount * 1_000_000)` truncates the product, but the product was rounded to the
28 digits of the context before. A budget that lies close enough below a full micro-dollar gets one
micro-dollar more (`bounded_iff`).

A record is opaque here: it is an object, so what is read back is never `None`. The exponents of the
context are not bounded here; a product outside its range is refused by the source in one way or the
other, and it is refused here.
-/

namespace RiskOps.Triage.Budget

open RiskOps.Lib

/-! ### The ledger -/

/-- `status` with the columns it fills: `charged` and `record`, or `error`. -/
inductive Status (R : Type)
  | pending
  | complete (charged : Int) (record : R)
  | uncertain (error : String)

/-- A row of `calls`. -/
structure Call (R : Type) where
  id : String
  reserved : Int
  status : Status R

/-- `charged`. -/
def Call.charged {R : Type} (c : Call R) : Option Int :=
  match c.status with
  | .complete charged _ => some charged
  | _ => none

/-- `COALESCE(charged, reserved)`. -/
def Call.committed {R : Type} (c : Call R) : Int := c.charged.getD c.reserved

/-- The row of `budget`, and the calls. -/
structure Ledger (R : Type) where
  ceiling : Int
  halted : Bool
  calls : Table (Call.id : Call R → String)

inductive Error
  | valueError (message : String)
  | callUncertain (message : String)
  | budgetExceeded (message : String)
  | overflow
  deriving DecidableEq, Repr

/-- The greatest integer of a column. -/
def maxInteger : Int := 2 ^ 63 - 1

section

variable {R : Type}

/-- The sum of what is committed. -/
def Ledger.committed (db : Ledger R) : Int := (db.calls.rows.map Call.committed).sum

/-- `int(amount * 1_000_000)`. -/
def ceilingOf (amount : Decimal) : Nat := ((amount.scale 1000000).round 28).toInt

/-- `BudgetLedger(path, budget_usd)`; `none` is what is no finite number, or a negative one. A
ledger that is there is kept. -/
def openLedger (stored : Option (Ledger R)) (budget : Option Decimal) : Except Error (Ledger R) :=
  match budget with
  | none => .error (.valueError "budget must be finite and positive")
  | some amount =>
    if amount.coefficient = 0 then .error (.valueError "budget must be finite and positive")
    else if ceilingOf amount = 0 then .error (.valueError "budget must be positive")
    else if maxInteger < ceilingOf amount then .error .overflow
    else
      let db := stored.getD ⟨ceilingOf amount, false, .empty⟩
      if db.ceiling = ceilingOf amount then .ok db
      else .error (.valueError
        "this ledger already has a different budget; keep the original ceiling")

/-- `reserve(call_id, amount)`: the record of a completed call, or permission to run. -/
def reserve (db : Ledger R) (callId : String) (amount : Int) :
    Except Error (Option R × Ledger R) :=
  if amount ≤ 0 then .error (.valueError "reservation must be positive")
  else
    match db.calls.find? callId with
    | some previous =>
      match previous.status with
      | .complete _ record => .ok (some record, db)
      | _ => .error (.callUncertain
          "an earlier attempt is unresolved; its reservation is retained")
    | none =>
      if maxInteger < db.committed then .error .overflow
      else if db.halted ∨ db.ceiling < db.committed + amount then
        .error (.budgetExceeded "shared budget cannot cover the next call's reservation")
      else .ok (none, { db with calls := db.calls.insertOrIgnore ⟨callId, amount, .pending⟩ })

/-- `SET status=…` in the row of a call. -/
def Call.setStatus (callId : String) (status : Status R) (c : Call R) : Call R :=
  if c.id = callId then { c with status := status } else c

theorem Call.setStatus_id (callId : String) (status : Status R) (c : Call R) :
    (c.setStatus callId status).id = c.id := by
  unfold Call.setStatus
  split <;> rfl

/-- `UPDATE calls SET … WHERE id=?`. -/
def setStatus (db : Ledger R) (callId : String) (status : Status R) : Ledger R :=
  { db with
    calls := db.calls.update (Call.setStatus callId status) (Call.setStatus_id callId status) }

/-- `complete(call_id, charged, record)`. -/
def complete (db : Ledger R) (callId : String) (charged : Int) (record : R) :
    Except Error (Ledger R) :=
  if charged < 0 then .error (.valueError "charge cannot be negative")
  else
    match db.calls.find? callId with
    | some ⟨_, reserved, .pending⟩ =>
      if maxInteger < charged then .error .overflow
      else
        let settled := setStatus db callId (.complete charged record)
        .ok { settled with halted := settled.halted || decide (reserved < charged) }
    | _ => .error (.valueError "call does not have a pending reservation")

/-- `fail(call_id, code)`. -/
def fail (db : Ledger R) (callId : String) (code : String) : Ledger R :=
  match db.calls.find? callId with
  | some ⟨_, _, .pending⟩ => setStatus db callId (.uncertain code)
  | _ => db

/-- A call of a method by one of the processes. -/
inductive Action (R : Type)
  | openLedger (budget : Option Decimal)
  | reserve (callId : String) (amount : Int)
  | complete (callId : String) (charged : Int) (record : R)
  | fail (callId : String) (code : String)

/-- One transaction; one that raises is rolled back. -/
def next (db : Ledger R) : Action R → Ledger R
  | .openLedger budget => (Budget.openLedger (some db) budget).toOption.getD db
  | .reserve callId amount => ((Budget.reserve db callId amount).toOption.map Prod.snd).getD db
  | .complete callId charged record => (Budget.complete db callId charged record).toOption.getD db
  | .fail callId code => Budget.fail db callId code

/-- The permission a call of `reserve` gives. -/
def permissions (db : Ledger R) : Action R → List String
  | .reserve callId amount =>
    match Budget.reserve db callId amount with
    | .ok (none, _) => [callId]
    | _ => []
  | _ => []

/-! ### What one transaction does -/

variable {db db' : Ledger R} {a : Action R}

/-- A transaction leaves the ledger as it is, inserts a call it permits, settles a pending call or
marks one. -/
inductive Move (db : Ledger R) : Action R → List String → Ledger R → Prop
  | same (a : Action R) : Move db a [] db
  | reserved {callId : String} {amount : Int} (hpositive : 0 < amount)
      (hnew : db.calls.find? callId = none) (hhalted : db.halted = false)
      (hceiling : db.committed + amount ≤ db.ceiling) :
      Move db (.reserve callId amount) [callId]
        { db with calls := db.calls.insertOrIgnore ⟨callId, amount, .pending⟩ }
  | completed {callId : String} {reserved charged : Int} {record : R}
      (hpending : db.calls.find? callId = some ⟨callId, reserved, .pending⟩) :
      Move db (.complete callId charged record) []
        { setStatus db callId (.complete charged record) with
          halted := db.halted || decide (reserved < charged) }
  | failed {callId : String} {reserved : Int} {code : String}
      (hpending : db.calls.find? callId = some ⟨callId, reserved, .pending⟩) :
      Move db (.fail callId code) [] (setStatus db callId (.uncertain code))

theorem openLedger_stored {budget : Option Decimal} (h : openLedger (some db) budget = .ok db') :
    db' = db := by
  unfold openLedger at h
  split at h
  · cases h
  · split at h
    · cases h
    · split at h
      · cases h
      · split at h
        · cases h
        · dsimp only [Option.getD_some] at h
          split at h
          · exact (Except.ok.inj h).symm
          · cases h

/-- A call of `reserve` gives back a record, or permission for a new call that the rest of the
budget covers. -/
theorem reserve_cases {callId : String} {amount : Int} {record : Option R}
    (h : reserve db callId amount = .ok (record, db')) :
    (∃ r, record = some r ∧ db' = db) ∨
      (record = none ∧ 0 < amount ∧ db.calls.find? callId = none ∧ db.halted = false ∧
        db.committed + amount ≤ db.ceiling ∧
        db' = { db with calls := db.calls.insertOrIgnore ⟨callId, amount, .pending⟩ }) := by
  unfold reserve at h
  split at h
  · cases h
  · rename_i hpositive
    split at h
    · split at h
      · obtain ⟨rfl, rfl⟩ := Prod.mk.inj (Except.ok.inj h)
        exact .inl ⟨_, rfl, rfl⟩
      · cases h
    · rename_i hnew
      split at h
      · cases h
      · split at h
        · cases h
        · rename_i hceiling
          obtain ⟨hhalted, hle⟩ := not_or.mp hceiling
          obtain ⟨rfl, rfl⟩ := Prod.mk.inj (Except.ok.inj h)
          exact .inr ⟨rfl, not_le.mp hpositive, hnew, Bool.eq_false_iff.mpr hhalted,
            not_lt.mp hle, rfl⟩

/-- A new call that the rest of the budget covers is permitted. -/
theorem next_reserve {callId : String} {amount : Int} (hpositive : 0 < amount)
    (hnew : db.calls.find? callId = none) (hhalted : db.halted = false)
    (hsum : db.committed ≤ maxInteger) (hceiling : db.committed + amount ≤ db.ceiling) :
    next db (.reserve callId amount) =
      { db with calls := db.calls.insertOrIgnore ⟨callId, amount, .pending⟩ } := by
  have hcovered : ¬ (db.halted = true ∨ db.ceiling < db.committed + amount) := by
    rw [hhalted]
    exact not_or.mpr ⟨Bool.noConfusion, not_lt.mpr hceiling⟩
  simp only [next]
  rw [Budget.reserve, if_neg (not_le.mpr hpositive), hnew]
  dsimp only
  rw [if_neg (not_lt.mpr hsum), if_neg hcovered]
  rfl

/-- **Every transaction** is one of these. -/
theorem move_next (db : Ledger R) (a : Action R) : Move db a (permissions db a) (next db a) := by
  cases a with
  | openLedger budget =>
    have hsame : next db (.openLedger budget) = db := by
      dsimp only [next]
      cases hopen : Budget.openLedger (some db) budget with
      | error e => rfl
      | ok db' => exact openLedger_stored hopen
    rw [hsame]
    exact .same _
  | reserve callId amount =>
    dsimp only [permissions, next]
    cases hreserve : Budget.reserve db callId amount with
    | error e => exact .same _
    | ok reply =>
      obtain ⟨record, db'⟩ := reply
      rcases reserve_cases hreserve with
        ⟨record, rfl, rfl⟩ | ⟨rfl, hpositive, hnew, hhalted, hceiling, rfl⟩
      · exact .same _
      · exact .reserved hpositive hnew hhalted hceiling
  | complete callId charged record =>
    dsimp only [permissions, next]
    unfold Budget.complete
    split
    · exact .same _
    · split
      · rename_i id reserved hfind
        obtain rfl : id = callId := Table.find?_key hfind
        split
        · exact .same _
        · exact .completed hfind
      · exact .same _
  | fail callId code =>
    dsimp only [permissions, next]
    unfold Budget.fail
    split
    · rename_i id reserved hfind
      obtain rfl : id = callId := Table.find?_key hfind
      exact .failed hfind
    · exact .same _

/-! ### The bound -/

theorem committed_insert {c : Call R} (hnew : db.calls.find? c.id = none) :
    ({ db with calls := db.calls.insertOrIgnore c } : Ledger R).committed =
      db.committed + c.committed := by
  simp [Ledger.committed, Table.rows_insertOrIgnore hnew]

/-- The row of a pending call. -/
theorem eq_of_pending {callId : String} {reserved : Int} {c : Call R}
    (hpending : db.calls.find? callId = some ⟨callId, reserved, .pending⟩) (hc : c ∈ db.calls)
    (hid : c.id = callId) : c = ⟨callId, reserved, .pending⟩ := by
  rw [← Option.some.injEq, ← hpending, ← hid, Table.find?_of_mem hc]

/-- Filling in a pending call does not raise the sum unless it costs more than it reserved. -/
theorem committed_setStatus {callId : String} {reserved : Int} {status : Status R}
    (hpending : db.calls.find? callId = some ⟨callId, reserved, .pending⟩)
    (hle : (⟨callId, reserved, status⟩ : Call R).committed ≤ reserved) :
    (setStatus db callId status).committed ≤ db.committed := by
  simp only [Ledger.committed, setStatus, Table.update, List.map_map]
  refine List.sum_le_sum fun c hc => ?_
  rw [Function.comp_apply, Call.setStatus]
  split
  · rename_i hid
    obtain rfl := eq_of_pending hpending hc hid
    exact hle
  · exact le_rfl

/-- Until the ledger is halted it stays below its ceiling, and no call costs more than it
reserved. -/
structure Sound (db : Ledger R) : Prop where
  within : db.halted = false → db.committed ≤ db.ceiling
  covered : db.halted = false → ∀ c ∈ db.calls, c.committed ≤ c.reserved

theorem mem_setStatus {callId : String} {status : Status R} {c : Call R} :
    c ∈ (setStatus db callId status).calls ↔
      ∃ c₀ ∈ db.calls, c₀.setStatus callId status = c := by
  simp only [setStatus, Table.mem_update]

/-- **(step)** -/
theorem Sound.move {ids : List String} (h : Sound db) (hmove : Move db a ids db') : Sound db' := by
  cases hmove with
  | same => exact h
  | reserved hpositive hnew hhalted hceiling =>
    refine ⟨fun _ => ?_, fun _ c hc => ?_⟩
    · rw [committed_insert hnew]
      exact hceiling
    · rw [Table.mem_def, Table.rows_insertOrIgnore hnew, List.mem_append] at hc
      rcases hc with hc | hc
      · exact h.covered hhalted c hc
      · obtain rfl := List.mem_singleton.mp hc
        exact le_rfl
  | @completed callId reserved charged record hpending =>
    have hopen : ∀ {b : Bool}, (b || decide (reserved < charged)) = false →
        b = false ∧ charged ≤ reserved := fun hor => by
      obtain ⟨hb, hlt⟩ := Bool.or_eq_false_iff.mp hor
      exact ⟨hb, not_lt.mp (of_decide_eq_false hlt)⟩
    refine ⟨fun hor => ?_, fun hor c hc => ?_⟩
    · obtain ⟨hhalted, hle⟩ := hopen hor
      exact (committed_setStatus hpending (by exact hle)).trans (h.within hhalted)
    · obtain ⟨hhalted, hle⟩ := hopen hor
      obtain ⟨c₀, hc₀, rfl⟩ := Iff.mp mem_setStatus hc
      rw [Call.setStatus]
      split
      · rename_i hid
        obtain rfl := eq_of_pending hpending hc₀ hid
        exact hle
      · exact h.covered hhalted c₀ hc₀
  | @failed callId reserved code hpending =>
    refine ⟨fun hhalted => ?_, fun hhalted c hc => ?_⟩
    · exact (committed_setStatus hpending le_rfl).trans (h.within hhalted)
    · obtain ⟨c₀, hc₀, rfl⟩ := Iff.mp mem_setStatus hc
      rw [Call.setStatus]
      split
      · exact le_rfl
      · exact h.covered hhalted c₀ hc₀

/-! ### What stays -/

/-- What was reserved stays, and so does what was charged or marked. -/
structure Kept (db db' : Ledger R) : Prop where
  ceiling : db'.ceiling = db.ceiling
  halted : db.halted = true → db'.halted = true
  calls : ∀ c ∈ db.calls, ∃ c' ∈ db'.calls, c'.id = c.id ∧ c'.reserved = c.reserved ∧
    (c.status ≠ .pending → c' = c)

theorem Kept.refl (db : Ledger R) : Kept db db :=
  ⟨rfl, id, fun c hc => ⟨c, hc, rfl, rfl, fun _ => rfl⟩⟩

theorem Kept.trans {db₁ db₂ db₃ : Ledger R} (h : Kept db₁ db₂) (h' : Kept db₂ db₃) :
    Kept db₁ db₃ := by
  refine ⟨h'.ceiling.trans h.ceiling, h'.halted ∘ h.halted, fun c hc => ?_⟩
  obtain ⟨c₂, hc₂, hid, hreserved, hsettled⟩ := h.calls c hc
  obtain ⟨c₃, hc₃, hid', hreserved', hsettled'⟩ := h'.calls c₂ hc₂
  refine ⟨c₃, hc₃, hid'.trans hid, hreserved'.trans hreserved, fun hne => ?_⟩
  obtain rfl := hsettled hne
  exact hsettled' hne

theorem kept_setStatus {callId : String} {reserved : Int} (status : Status R)
    (hpending : db.calls.find? callId = some ⟨callId, reserved, .pending⟩) :
    ∀ c ∈ db.calls, ∃ c' ∈ (setStatus db callId status).calls, c'.id = c.id ∧
      c'.reserved = c.reserved ∧ (c.status ≠ .pending → c' = c) := by
  intro c hc
  refine ⟨_, Iff.mpr mem_setStatus ⟨c, hc, rfl⟩, ?_⟩
  rw [Call.setStatus]
  split
  · rename_i hid
    obtain rfl := eq_of_pending hpending hc hid
    exact ⟨rfl, rfl, fun hne => absurd rfl hne⟩
  · exact ⟨rfl, rfl, fun _ => rfl⟩

/-- **(step)** -/
theorem Move.kept {ids : List String} (hmove : Move db a ids db') : Kept db db' := by
  cases hmove with
  | same => exact .refl db
  | reserved hpositive hnew hhalted hceiling =>
    refine ⟨rfl, id, fun c hc => ⟨c, ?_, rfl, rfl, fun _ => rfl⟩⟩
    rw [Table.mem_def, Table.rows_insertOrIgnore hnew]
    exact List.mem_append_left _ hc
  | completed hpending =>
    exact ⟨rfl, fun hhalted => by rw [hhalted]; rfl, kept_setStatus _ hpending⟩
  | failed hpending => exact ⟨rfl, id, kept_setStatus _ hpending⟩

/-- **(run)** -/
theorem kept_run (db : Ledger R) (as : List (Action R)) : Kept db (run next db as) :=
  run_preserves (fun s a (h : Kept db s) => h.trans (move_next s a).kept) (.refl db)

/-! ### Permissions -/

/-- **(step)** A halted ledger permits nothing. -/
theorem Move.of_halted {ids : List String} (hmove : Move db a ids db') (h : db.halted = true) :
    db'.calls.rows.map Call.id = db.calls.rows.map Call.id := by
  have hsame : ∀ callId (status : Status R),
      (setStatus db callId status).calls.rows.map Call.id = db.calls.rows.map Call.id := by
    intro callId status
    rw [setStatus, Table.update, List.map_map]
    exact List.map_congr_left fun c _ => Call.setStatus_id callId status c
  cases hmove with
  | same => rfl
  | reserved hpositive hnew hhalted hceiling => rw [h] at hhalted; cases hhalted
  | completed hpending => exact hsame _ _
  | failed hpending => exact hsame _ _

/-- **(run)** -/
theorem ids_run_of_halted (h : db.halted = true) (as : List (Action R)) :
    (run next db as).calls.rows.map Call.id = db.calls.rows.map Call.id := by
  have hrun : (run next db as).halted = true ∧
      (run next db as).calls.rows.map Call.id = db.calls.rows.map Call.id := run_preserves
    (P := fun s : Ledger R => s.halted = true ∧
      s.calls.rows.map Call.id = db.calls.rows.map Call.id)
    (fun s a hs => ⟨(move_next s a).kept.halted hs.1, ((move_next s a).of_halted hs.1).trans hs.2⟩)
    ⟨h, rfl⟩
  exact hrun.2

/-- A permission is given for a new call, which is there from then on. -/
structure Permitted (ids : List String) (db : Ledger R) : Prop where
  once : ids.Nodup
  present : ∀ id ∈ ids, ∃ c ∈ db.calls, c.id = id

/-- **(step)** -/
theorem Permitted.move {ids ids' : List String} (h : Permitted ids db)
    (hmove : Move db a ids' db') : Permitted (ids ++ ids') db' := by
  have hpresent : ∀ id ∈ ids, ∃ c ∈ db'.calls, c.id = id := by
    intro id hid
    obtain ⟨c, hc, rfl⟩ := h.present id hid
    obtain ⟨c', hc', heq, -⟩ := hmove.kept.calls c hc
    exact ⟨c', hc', heq⟩
  cases hmove with
  | same => rw [List.append_nil]; exact ⟨h.once, hpresent⟩
  | @reserved callId amount hpositive hnew hhalted hceiling =>
    refine ⟨List.nodup_append.mpr ⟨h.once, List.nodup_singleton _, ?_⟩, ?_⟩
    · rintro id hid id' hid' rfl
      obtain rfl := List.mem_singleton.mp hid'
      obtain ⟨c, hc, heq⟩ := h.present id hid
      exact Table.find?_eq_none_iff.mp hnew c hc heq
    · intro id hid
      rcases List.mem_append.mp hid with hid | hid
      · exact hpresent id hid
      · obtain rfl := List.mem_singleton.mp hid
        refine ⟨⟨id, amount, .pending⟩, ?_, rfl⟩
        rw [Table.mem_def, Table.rows_insertOrIgnore hnew]
        exact List.mem_append_right _ (List.mem_singleton_self _)
  | completed => rw [List.append_nil]; exact ⟨h.once, hpresent⟩
  | failed => rw [List.append_nil]; exact ⟨h.once, hpresent⟩

/-- **(run)** -/
theorem permitted_run (as : List (Action R)) (h : Permitted [] db) :
    Permitted (trace next permissions db as) (run next db as) := by
  have hrun : Permitted ([] ++ trace next permissions db as) (run next db as) :=
    trace_invariant (R := Permitted) (Q := fun _ => True)
      (fun ids s a _ hs => hs.move (move_next s a)) (fun _ _ => trivial) h
  simpa using hrun

/-! ### Unsettled calls -/

/-- The call is not settled. -/
def Action.Leaves (callId : String) : Action R → Prop
  | .complete id _ _ => id ≠ callId
  | _ => True

/-- **(step)** A call that is not settled keeps its reservation. -/
theorem Move.unsettled {ids : List String} (hmove : Move db a ids db') {c c' : Call R}
    (hleaves : a.Leaves c.id) (hc : c ∈ db.calls) (hc' : c' ∈ db'.calls) (hid : c'.id = c.id)
    (hopen : c.charged = none) : c'.charged = none := by
  cases hmove with
  | same => rw [Table.eq_of_key_eq hc' hc hid]; exact hopen
  | reserved hpositive hnew hhalted hceiling =>
    rw [Table.mem_def, Table.rows_insertOrIgnore hnew, List.mem_append] at hc'
    rcases hc' with hc' | hc'
    · rw [Table.eq_of_key_eq hc' hc hid]
      exact hopen
    · obtain rfl := List.mem_singleton.mp hc'
      rfl
  | @completed callId reserved charged record hpending =>
    obtain ⟨c₀, hc₀, rfl⟩ := mem_setStatus.mp hc'
    rw [Call.setStatus_id] at hid
    obtain rfl := Table.eq_of_key_eq hc₀ hc hid
    rw [Call.setStatus, if_neg fun heq => hleaves heq.symm]
    exact hopen
  | @failed callId reserved code hpending =>
    obtain ⟨c₀, hc₀, rfl⟩ := mem_setStatus.mp hc'
    rw [Call.setStatus_id] at hid
    obtain rfl := Table.eq_of_key_eq hc₀ hc hid
    rw [Call.setStatus]
    split
    · rfl
    · exact hopen

/-- **(run)** -/
theorem unsettled_run {as : List (Action R)} {c : Call R} (hleaves : ∀ a ∈ as, a.Leaves c.id)
    (hc : c ∈ db.calls) (hopen : c.charged = none) :
    ∀ c' ∈ (run next db as).calls, c'.id = c.id → c'.charged = none := by
  have hrun : ∃ c₀ ∈ (run next db as).calls, c₀.id = c.id ∧ c₀.charged = none := run_invariant
    (Q := fun a => a.Leaves c.id)
    (P := fun s : Ledger R => ∃ c₀ ∈ s.calls, c₀.id = c.id ∧ c₀.charged = none)
    (fun s a ha ⟨c₀, hc₀, hid₀, hopen₀⟩ => by
      obtain ⟨c₁, hc₁, hid₁, -⟩ := (move_next s a).kept.calls c₀ hc₀
      refine ⟨c₁, hc₁, hid₁.trans hid₀, ?_⟩
      exact (move_next s a).unsettled (hid₀ ▸ ha) hc₀ hc₁ hid₁ hopen₀)
    hleaves ⟨c, hc, rfl, hopen⟩
  obtain ⟨c₀, hc₀, hid₀, hopen₀⟩ := hrun
  intro c' hc' hid
  rw [Table.eq_of_key_eq hc' hc₀ (hid.trans hid₀.symm)]
  exact hopen₀

/-! ### The ledger bounds spending -/

/-- **What the ledger promises** for a budget of `limit` micro-dollars, over every run. -/
structure Bounded (limit : Int) (db : Ledger R) : Prop where
  within : ∀ as, (run next db as).halted = false → (run next db as).committed ≤ limit
  stops : ∀ as bs, (∃ c ∈ (run next db as).calls, c.reserved < c.committed) →
    (run next db (as ++ bs)).calls.rows.map Call.id = (run next db as).calls.rows.map Call.id
  once : ∀ as, (trace next permissions db as).Nodup
  retained : ∀ as bs, ∀ c ∈ (run next db as).calls, c.charged = none →
    ∃ c' ∈ (run next db (as ++ bs)).calls, c'.id = c.id ∧ c'.reserved = c.reserved ∧
      (c.status ≠ .pending → c' = c) ∧
      ((∀ a ∈ bs, a.Leaves c.id) → c'.committed = c.reserved)

/-- What a budget that is opened is. -/
theorem openLedger_new {budget : Decimal} (h : openLedger none (some budget) = .ok db) :
    db = ⟨ceilingOf budget, false, .empty⟩ ∧ 0 < budget.coefficient ∧ 0 < ceilingOf budget ∧
      (ceilingOf budget : Int) ≤ maxInteger := by
  unfold openLedger at h
  dsimp only at h
  split at h
  · cases h
  · rename_i hzero
    split at h
    · cases h
    · rename_i hceiling
      split at h
      · cases h
      · rename_i hle
        dsimp only [Option.getD_none] at h
        rw [if_pos rfl] at h
        exact ⟨(Except.ok.inj h).symm, Nat.pos_of_ne_zero hzero, Nat.pos_of_ne_zero hceiling,
          not_lt.mp hle⟩

/-- The ceiling of a budget that is opened is not above it exactly when nothing is rounded up. -/
theorem ceilingOf_le_iff {budget : Decimal} (hpos : 0 < budget.coefficient)
    (hle : (ceilingOf budget : Int) ≤ maxInteger) :
    (ceilingOf budget : Int) ≤ ⌊budget.value * 1000000⌋ ↔
      Decimal.unit (budget.value * 1000000) 28 / 2 <
        ⌊budget.value * 1000000⌋ + 1 - budget.value * 1000000 := by
  have hscale : budget.value * 1000000 = (budget.scale 1000000).value := by
    rw [Decimal.value_scale]
    norm_num
  have hcoefficient : 0 < (budget.scale 1000000).coefficient := Nat.mul_pos hpos (by decide)
  have hdigits : ceilingOf budget < 10 ^ 27 := by
    unfold maxInteger at hle
    omega
  rw [hscale, ceilingOf, Decimal.toInt_eq_floor]
  exact Decimal.floor_round_le_iff hcoefficient (Decimal.unit_le_of_lt hcoefficient hdigits)

theorem sound_new (ceiling : Nat) : Sound (⟨ceiling, false, .empty⟩ : Ledger R) := by
  refine ⟨fun _ => ?_, fun _ c hc => absurd hc (Table.not_mem_empty c)⟩
  exact Int.natCast_nonneg ceiling

theorem sound_run (h : Sound db) (as : List (Action R)) : Sound (run next db as) :=
  run_preserves (fun s a hs => Sound.move hs (move_next s a)) h

/-- A ledger stays within its ceiling, whatever its budget was. -/
theorem bounded_of_le {ceiling : Nat} {limit : Int} (hle : (ceiling : Int) ≤ limit) :
    Bounded limit (⟨ceiling, false, .empty⟩ : Ledger R) where
  within as hhalted := by
    refine ((sound_run (sound_new ceiling) as).within hhalted).trans ?_
    rw [(kept_run _ as).ceiling]
    exact hle
  stops as bs := by
    rintro ⟨c, hc, hlt⟩
    have hhalted : (run next (⟨ceiling, false, .empty⟩ : Ledger R) as).halted = true := by
      by_contra hno
      have hcovered := (sound_run (sound_new ceiling) as).covered (Bool.eq_false_iff.mpr hno) c hc
      exact absurd hcovered (not_le.mpr hlt)
    rw [run_append]
    exact ids_run_of_halted hhalted bs
  once as := (permitted_run as ⟨List.nodup_nil, fun id hid => nomatch hid⟩).once
  retained as bs c hc hopen := by
    rw [run_append]
    obtain ⟨c', hc', hid, hreserved, hsettled⟩ := (kept_run (run next _ as) bs).calls c hc
    refine ⟨c', hc', hid, hreserved, hsettled, fun hleaves => ?_⟩
    rw [Call.committed, unsettled_run hleaves hc hopen c' hc' hid, Option.getD_none, hreserved]

/-- **The ledger bounds spending** except where the ceiling is rounded up: when the budget lies at
most half a unit of its 28th digit below a full micro-dollar. -/
theorem bounded_iff (budget : Decimal) (db : Ledger R)
    (hopen : openLedger none (some budget) = .ok db) :
    Bounded ⌊budget.value * 1000000⌋ db ↔
      Decimal.unit (budget.value * 1000000) 28 / 2 <
        ⌊budget.value * 1000000⌋ + 1 - budget.value * 1000000 := by
  obtain ⟨rfl, hpos, hceiling, hmax⟩ := openLedger_new hopen
  rw [← ceilingOf_le_iff hpos hmax]
  constructor
  · intro h
    -- one call may reserve the whole ceiling
    have hspent := h.within [.reserve "" (ceilingOf budget)]
    have hfresh : (⟨ceilingOf budget, false, .empty⟩ : Ledger R).committed = 0 := rfl
    have hnew : (⟨ceilingOf budget, false, .empty⟩ : Ledger R).calls.find? "" = none := rfl
    rw [run_cons, run_nil, next_reserve (Nat.cast_pos.mpr hceiling) hnew rfl
      (by rw [hfresh]; decide) (by rw [hfresh, zero_add])] at hspent
    have hsum := hspent rfl
    rw [committed_insert hnew, hfresh, zero_add] at hsum
    exact hsum
  · exact bounded_of_le

end

/-- A budget of ten dollars. -/
theorem bounded_iff_ten :
    Bounded ⌊(⟨10, 0⟩ : Decimal).value * 1000000⌋
        (⟨10000000, false, .empty⟩ : Ledger Unit) ↔
      Decimal.unit ((⟨10, 0⟩ : Decimal).value * 1000000) 28 / 2 <
        ⌊(⟨10, 0⟩ : Decimal).value * 1000000⌋ + 1 - (⟨10, 0⟩ : Decimal).value * 1000000 :=
  bounded_iff ⟨10, 0⟩ ⟨10000000, false, .empty⟩ rfl

/-- **The ceiling is rounded up**: of 0.9999999999999999999999999999999 dollars, 1000000
micro-dollars can be spent. -/
theorem ceiling_rounded_up :
    openLedger none (some ⟨9999999999999999999999999999999, -31⟩) =
        .ok (⟨1000000, false, .empty⟩ : Ledger Unit) ∧
      ¬ Bounded ⌊(⟨9999999999999999999999999999999, -31⟩ : Decimal).value * 1000000⌋
        (⟨1000000, false, .empty⟩ : Ledger Unit) := by
  refine ⟨rfl, fun h => ?_⟩
  have hfloor : ⌊(⟨9999999999999999999999999999999, -31⟩ : Decimal).value * 1000000⌋ = 999999 := by
    rw [Int.floor_eq_iff, Decimal.value]
    norm_num
  have hspent := h.within [.reserve "" 1000000] rfl
  rw [hfloor] at hspent
  exact absurd hspent (by decide)

end RiskOps.Triage.Budget
