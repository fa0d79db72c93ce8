import RiskOps.Lib.PyJson
import RiskOps.Lib.Run
import RiskOps.Telemetry.NoticeBridge

/-!
# RiskOps.Telemetry.Notifications — when the console is notified again

Model of `enqueue`, `incident`, `deliver_console` and of the loop of `tick` over due rows
(`telemetry/notifications.py`). The outbox has one row for a topic. It is rewritten by every
notification with another payload, and a rewritten row that was delivered is due again when the
cooldown has passed since then — at once when its priority is above that of the row it replaces.

**What goes wrong.** The row that is replaced need not be the one that was delivered last: a
notification that waits for the end of the cooldown is compared as well, and so is one that was
cancelled. After one of low priority, one of the delivered priority counts as an escalation; and
what replaces an escalation that still waits takes over when it was due (`Calm` says when neither
happens).

The tables of incidents that `incident` reads are an argument, as is whether a delivery raises. The
scans of `tick` before its loop make calls of `enqueue` and `incident` like any others.
-/

namespace RiskOps.Telemetry.Notifications

open RiskOps.Lib
open RiskOps.Telemetry.Bridge (Delivery cooldownSeconds)

/-! ### The tables -/

/-- `kind` and `object_id`: an incident, or what the other producers announce. -/
inductive Subject
  | incident (id : Str)
  | collection
  | health
  | briefing
  | httpIncident (id : Str)
  | networkIncident (id : Str)
  | networkCollection
  deriving DecidableEq

/-- `"incident:" + incident_id`. -/
def incidentTopic (id : Str) : Str := Str.ofString "incident:" ++ id

/-- A row of `notification_outbox`. -/
structure Notification (P : Type) where
  topic : Str
  subject : Subject
  priority : Int
  payload : P
  revision : Nat
  state : Delivery
  dueAt : ℚ
  attempts : Nat
  lastError : Option String
  lastDeliveredAt : Option ℚ
  updatedAt : ℚ

/-- A row of `notification_inbox`. -/
structure InboxRow (P : Type) where
  topic : Str
  revision : Nat
  subject : Subject
  payload : P
  deliveredAt : ℚ
  deriving DecidableEq

/-- `UNIQUE(topic,revision)`. -/
def InboxRow.key {P : Type} (r : InboxRow P) : Str × Nat := (r.topic, r.revision)

/-- A delivery that was made. -/
structure Sent (P : Type) where
  row : InboxRow P
  priority : Int
  deriving DecidableEq

/-- The last payload that was enqueued for a topic, and whether it was withdrawn since. -/
structure Asked (P : Type) where
  payload : P
  withdrawn : Bool
  deriving DecidableEq

/-- The database. `sent`, oldest first, `asked` and `clock`, the time of the last step, are its
history; nothing reads them. -/
structure Db (P : Type) where
  outbox : Table (Notification.topic : Notification P → Str)
  inbox : Table (InboxRow.key : InboxRow P → Str × Nat)
  sent : List (Sent P)
  asked : Str → Option (Asked P)
  clock : ℚ

/-- Before the first notification. -/
def Db.empty {P : Type} (start : ℚ) : Db P := ⟨.empty, .empty, [], fun _ => none, start⟩

/-- The arguments of `enqueue` but for the clock. The topic of an incident is used by `incident`
alone, which passes its kind and leaves the cooldown as it is. -/
structure Call (P : Type) where
  topic : Str
  subject : Subject
  payload : P
  priority : Int
  cooldown : ℚ
  subject_iff : ∀ id, subject = .incident id ↔ topic = incidentTopic id
  cooldown_eq : ∀ id, subject = .incident id → cooldown = cooldownSeconds

theorem incidentTopic_injective {id id' : Str} (h : incidentTopic id = incidentTopic id') :
    id = id' :=
  List.append_cancel_left h

/-- The call of `incident` for what the tables of the incident say. -/
def Call.ofIncident {P : Type} (id : Str) (payload : P) (priority : Int) : Call P where
  topic := incidentTopic id
  subject := .incident id
  payload := payload
  priority := priority
  cooldown := cooldownSeconds
  subject_iff := fun _ => ⟨fun h => by rw [Subject.incident.inj h],
    fun h => by rw [incidentTopic_injective h]⟩
  cooldown_eq := fun _ _ => rfl

section

variable {P : Type} [DecidableEq P]

/-! ### The functions -/

/-- When a notification that replaces `old` is due. -/
def dueAfter (old : Notification P) (priority : Int) (cooldown now : ℚ) : ℚ :=
  if priority > old.priority ∨ cooldown = 0 then now
  else
    match old.state, old.lastDeliveredAt with
    | .pending, _ => old.dueAt
    | _, some delivered => max now (delivered + cooldown)
    | _, none => now

/-- `enqueue(db, topic, kind, payload, now, priority=…, object_id=…, cooldown=…)`. -/
def enqueue (db : Db P) (c : Call P) (now : ℚ) : Db P :=
  match db.outbox.find? c.topic with
  | none =>
    { db with
      outbox := db.outbox.replace
        ⟨c.topic, c.subject, c.priority, c.payload, 1, .pending, now, 0, none, none, now⟩
      asked := Function.update db.asked c.topic (some ⟨c.payload, false⟩) }
  | some old =>
    if old.payload = c.payload ∧ old.state ≠ .cancelled then
      { db with asked := Function.update db.asked c.topic (some ⟨c.payload, false⟩) }
    else
      { db with
        outbox := db.outbox.replace { old with
          priority := c.priority
          payload := c.payload
          revision := old.revision + 1
          state := .pending
          dueAt := dueAfter old c.priority c.cooldown now
          attempts := if old.state = .pending then old.attempts else 0
          updatedAt := now }
        asked := Function.update db.asked c.topic (some ⟨c.payload, false⟩) }

/-- `UPDATE notification_outbox SET … WHERE topic=?`. -/
def setRow (rows : Table (Notification.topic : Notification P → Str)) (topic : Str)
    (f : Notification P → Notification P) (hf : ∀ r, (f r).topic = r.topic) :
    Table (Notification.topic : Notification P → Str) :=
  rows.update (fun r => if r.topic = topic then f r else r) fun r => by
    split
    · exact hf r
    · rfl

/-- `UPDATE notification_outbox SET state='cancelled' WHERE topic=? AND state='pending'`. -/
def cancel (db : Db P) (topic : Str) : Db P :=
  match db.outbox.find? topic with
  | none => db
  | some r =>
    if r.state = .pending then
      { db with
        outbox := setRow db.outbox topic (fun r => { r with state := .cancelled }) fun _ => rfl
        asked := Function.update db.asked topic
          ((db.asked topic).map fun a => { a with withdrawn := true }) }
    else db

/-- `incident(db, incident_id, now)`; `standing` is what the query gives for the incident. -/
def incident (db : Db P) (id : Str) (standing : Option (P × Int)) (now : ℚ) : Db P :=
  match standing with
  | none => cancel db (incidentTopic id)
  | some (payload, priority) => enqueue db (.ofIncident id payload priority) now

/-- The row `deliver_console` inserts. -/
def InboxRow.of (row : Notification P) (now : ℚ) : InboxRow P :=
  ⟨row.topic, row.revision, row.subject, row.payload, now⟩

/-- `deliver_console(db, row, now)`. -/
def deliverConsole (db : Db P) (row : Notification P) (now : ℚ) : Db P :=
  { db with
    inbox := db.inbox.insertOrIgnore (.of row now)
    sent := db.sent ++ [⟨.of row now, row.priority⟩] }

/-- What is shown of a delivery that failed. -/
def deliveryError : String := "站内通知写入失败，将自动重试"

/-- `now + min(3600, 30 * 2 ** min(attempts - 1, 7))`. -/
def retryAt (attempts : Nat) (now : ℚ) : ℚ := now + min 3600 (30 * 2 ^ min (attempts - 1) 7)

/-- One delivery inside its savepoint; `fails` when it raises. -/
def deliver (db : Db P) (row : Notification P) (fails : Bool) (now : ℚ) : Db P :=
  if fails then
    { db with
      outbox := setRow db.outbox row.topic (fun r =>
        { r with
          attempts := row.attempts + 1
          dueAt := retryAt (row.attempts + 1) now
          lastError := some deliveryError }) fun _ => rfl }
  else
    let delivered := deliverConsole db row now
    { delivered with
      outbox := setRow delivered.outbox row.topic (fun r =>
        { r with
          state := .delivered
          lastDeliveredAt := some now
          attempts := 0
          lastError := none }) fun _ => rfl }

/-- The body of the loop of `tick`. -/
def attempt (standing : Str → Option (P × Int)) (fails : Str → Bool) (now : ℚ) (db : Db P)
    (row : Notification P) : Db P :=
  match row.subject with
  | .incident id =>
    let db := incident db id (standing id) now
    match db.outbox.find? row.topic with
    | none => db
    | some row =>
      if row.state ≠ .pending ∨ row.dueAt > now then db
      else deliver db row (fails row.topic) now
  | _ => deliver db row (fails row.topic) now

/-- `DELIVERY_LIMIT`. -/
def deliveryLimit : Nat := 50

/-- `SELECT … WHERE state='pending' AND due_at<=? ORDER BY due_at,topic LIMIT ?`. -/
def dueRows (db : Db P) (now : ℚ) : List (Notification P) :=
  ((db.outbox.select fun r => r.state = .pending ∧ r.dueAt ≤ now).insertionSort fun a b =>
    a.dueAt < b.dueAt ∨ a.dueAt = b.dueAt ∧ a.topic ≤ b.topic).take deliveryLimit

/-- The loop of `tick(db, …, now, deliver=…)` over due rows. -/
def deliverDue (db : Db P) (standing : Str → Option (P × Int)) (fails : Str → Bool) (now : ℚ) :
    Db P :=
  (dueRows db now).foldl (attempt standing fails now) db

/-- What changes the database, and when. -/
inductive Action (P : Type)
  | enqueue (c : Call P) (now : ℚ)
  | incident (id : Str) (standing : Option (P × Int)) (now : ℚ)
  | deliverDue (standing : Str → Option (P × Int)) (fails : Str → Bool) (now : ℚ)

def Action.now : Action P → ℚ
  | .enqueue _ now => now
  | .incident _ _ now => now
  | .deliverDue _ _ now => now

/-- One step. -/
def next (db : Db P) (a : Action P) : Db P :=
  let db := { db with clock := a.now }
  match a with
  | .enqueue c now => Notifications.enqueue db c now
  | .incident id standing now => Notifications.incident db id standing now
  | .deliverDue standing fails now => Notifications.deliverDue db standing fails now

/-! ### What one topic sees -/

variable {db : Db P} {id : Str} {now : ℚ}

/-- What the database holds of a topic, and its history. -/
structure Seen (P : Type) where
  row : Option (Notification P)
  sent : List (Sent P)
  inbox : List (InboxRow P)
  asked : Option (Asked P)
  clock : ℚ

def Db.seen (db : Db P) (topic : Str) : Seen P where
  row := db.outbox.find? topic
  sent := db.sent.filter fun d => d.row.topic = topic
  inbox := db.inbox.rows.filter fun r => r.topic = topic
  asked := db.asked topic
  clock := db.clock

omit [DecidableEq P] in
theorem find?_setRow (rows : Table (Notification.topic : Notification P → Str)) (topic : Str)
    {f : Notification P → Notification P} (hf : ∀ r, (f r).topic = r.topic) (t : Str) :
    (setRow rows topic f hf).find? t =
      if topic = t then (rows.find? t).map f else rows.find? t := by
  rw [setRow, Table.find?_update]
  cases hrow : rows.find? t with
  | none => simp
  | some r =>
    have hkey := Table.find?_key hrow
    by_cases ht : topic = t
    · simp [ht, hkey]
    · have hne : r.topic ≠ topic := fun heq => ht (heq.symm.trans hkey)
      simp [ht, hne]

/-- What `enqueue` leaves under its topic. -/
def enqueuedRow (c : Call P) (now : ℚ) : Option (Notification P) → Notification P
  | none => ⟨c.topic, c.subject, c.priority, c.payload, 1, .pending, now, 0, none, none, now⟩
  | some old =>
    if old.payload = c.payload ∧ old.state ≠ .cancelled then old
    else
      { old with
        priority := c.priority
        payload := c.payload
        revision := old.revision + 1
        state := .pending
        dueAt := dueAfter old c.priority c.cooldown now
        attempts := if old.state = .pending then old.attempts else 0
        updatedAt := now }

theorem find?_enqueue (db : Db P) (c : Call P) (now : ℚ) (t : Str) :
    (enqueue db c now).outbox.find? t =
      if c.topic = t then some (enqueuedRow c now (db.outbox.find? t)) else db.outbox.find? t := by
  unfold enqueue
  cases hold : db.outbox.find? c.topic with
  | none =>
    dsimp only
    rw [Table.find?_replace]
    by_cases ht : c.topic = t
    · subst ht
      rw [if_pos rfl, if_pos rfl, hold]
      rfl
    · rw [if_neg ht, if_neg ht]
  | some old =>
    have hkey := Table.find?_key hold
    dsimp only
    split
    · rename_i hsame
      by_cases ht : c.topic = t
      · subst ht
        rw [if_pos rfl, hold, enqueuedRow, if_pos hsame]
      · rw [if_neg ht]
    · rename_i hnew
      dsimp only
      rw [Table.find?_replace, hkey]
      by_cases ht : c.topic = t
      · subst ht
        rw [if_pos rfl, if_pos rfl, hold, enqueuedRow, if_neg hnew]
        simp only [hkey]
      · rw [if_neg ht, if_neg ht]

theorem enqueue_frame (db : Db P) (c : Call P) (now : ℚ) :
    ∃ rows, enqueue db c now =
      { db with
        outbox := rows
        asked := Function.update db.asked c.topic (some ⟨c.payload, false⟩) } := by
  unfold enqueue
  split
  · exact ⟨_, rfl⟩
  · split
    · exact ⟨_, rfl⟩
    · exact ⟨_, rfl⟩

theorem seen_enqueue (db : Db P) (c : Call P) (now : ℚ) (t : Str) :
    (enqueue db c now).seen t =
      if c.topic = t then
        { db.seen t with
          row := some (enqueuedRow c now (db.seen t).row)
          asked := some ⟨c.payload, false⟩ }
      else db.seen t := by
  have hfind := find?_enqueue db c now t
  obtain ⟨rows, heq⟩ := enqueue_frame db c now
  rw [heq] at hfind ⊢
  split
  · rename_i ht
    subst ht
    rw [if_pos rfl] at hfind
    simp only [Db.seen, hfind, Function.update_self]
  · rename_i ht
    rw [if_neg ht] at hfind
    simp only [Db.seen, hfind, Function.update_of_ne (Ne.symm ht)]

/-- What `cancel` makes of a topic. -/
def Seen.cancel (v : Seen P) : Seen P :=
  match v.row with
  | none => v
  | some r =>
    if r.state = .pending then
      { v with
        row := some { r with state := .cancelled }
        asked := v.asked.map fun a => { a with withdrawn := true } }
    else v

omit [DecidableEq P] in
theorem seen_cancel (db : Db P) (topic t : Str) :
    (cancel db topic).seen t = if topic = t then (db.seen t).cancel else db.seen t := by
  unfold cancel
  by_cases ht : topic = t
  · subst ht
    rw [if_pos rfl, Seen.cancel]
    cases hrow : db.outbox.find? topic with
    | none => simp only [Db.seen, hrow]
    | some r =>
      simp only [Db.seen, hrow]
      split
      · simp only [find?_setRow, hrow, if_pos, Option.map_some, Function.update_self]
      · simp only [hrow]
  · rw [if_neg ht]
    split
    · rfl
    · split
      · simp only [Db.seen, find?_setRow, if_neg ht, Function.update_of_ne (Ne.symm ht)]
      · rfl

/-- What a delivery makes of a topic whose row it is. -/
def Seen.deliver (v : Seen P) (row : Notification P) (fails : Bool) (now : ℚ) : Seen P :=
  if fails then
    { v with
      row := v.row.map fun r =>
        { r with
          attempts := row.attempts + 1
          dueAt := retryAt (row.attempts + 1) now
          lastError := some deliveryError } }
  else
    { v with
      row := v.row.map fun r =>
        { r with
          state := .delivered
          lastDeliveredAt := some now
          attempts := 0
          lastError := none }
      sent := v.sent ++ [⟨.of row now, row.priority⟩]
      inbox :=
        if v.inbox.any fun r => r.revision = row.revision then v.inbox
        else v.inbox ++ [.of row now] }

omit [DecidableEq P] in
theorem inbox_deliverConsole (db : Db P) (row : Notification P) (now : ℚ) (t : Str) :
    (deliverConsole db row now).inbox.rows.filter (fun r => r.topic = t) =
      if row.topic = t then
        if (db.seen t).inbox.any fun r => r.revision = row.revision then (db.seen t).inbox
        else (db.seen t).inbox ++ [.of row now]
      else (db.seen t).inbox := by
  rw [deliverConsole]
  dsimp only
  cases hfind : db.inbox.find? (InboxRow.of row now).key with
  | none =>
    rw [Table.rows_insertOrIgnore hfind, List.filter_append, List.filter_singleton]
    by_cases ht : row.topic = t
    · subst ht
      have hnone : ¬ ((db.seen row.topic).inbox.any fun r => r.revision = row.revision) = true := by
        rw [List.any_eq_true]
        rintro ⟨r, hr, hrevision⟩
        obtain ⟨hr, htopic⟩ := List.mem_filter.mp hr
        refine Table.find?_eq_none_iff.mp hfind r hr (Prod.ext ?_ ?_)
        · exact of_decide_eq_true htopic
        · exact of_decide_eq_true hrevision
      rw [if_pos rfl, if_neg hnone]
      simp [InboxRow.of, Db.seen]
    · rw [if_neg ht]
      simp [InboxRow.of, Db.seen, ht]
  | some r =>
    have hignored : db.inbox.insertOrIgnore (InboxRow.of row now) = db.inbox := by
      rw [Table.insertOrIgnore, Table.insert_eq_none_iff.mpr (by rw [hfind]; rfl)]
      rfl
    rw [hignored]
    by_cases ht : row.topic = t
    · subst ht
      obtain ⟨hr, hkey⟩ := Table.find?_eq_some_iff.mp hfind
      have hany : ((db.seen row.topic).inbox.any fun r => r.revision = row.revision) = true := by
        refine List.any_eq_true.mpr ⟨r, List.mem_filter.mpr ⟨hr, ?_⟩, ?_⟩
        · exact decide_eq_true (congrArg Prod.fst hkey)
        · exact decide_eq_true (congrArg Prod.snd hkey)
      rw [if_pos rfl, if_pos hany]
      rfl
    · rw [if_neg ht]
      rfl

omit [DecidableEq P] in
theorem seen_deliver (db : Db P) (row : Notification P) (fails : Bool) (now : ℚ) (t : Str) :
    (deliver db row fails now).seen t =
      if row.topic = t then (db.seen t).deliver row fails now else db.seen t := by
  unfold deliver
  split
  · rename_i hfails
    by_cases ht : row.topic = t
    · rw [if_pos ht, Seen.deliver, if_pos hfails]
      simp only [Db.seen, find?_setRow, if_pos ht]
    · rw [if_neg ht]
      simp only [Db.seen, find?_setRow, if_neg ht]
  · rename_i hsent
    have hinbox := inbox_deliverConsole db row now t
    by_cases ht : row.topic = t
    · rw [if_pos ht] at hinbox ⊢
      rw [Seen.deliver, if_neg hsent, ← hinbox]
      simp only [Db.seen, find?_setRow, if_pos ht, deliverConsole, List.filter_append]
      simp [InboxRow.of, ht]
    · rw [if_neg ht] at hinbox ⊢
      simp only [Db.seen, find?_setRow, if_neg ht, deliverConsole, List.filter_append] at hinbox ⊢
      rw [hinbox]
      simp [InboxRow.of, ht]

/-! ### The invariant -/

/-- What holds of a topic whose calls leave the cooldown as it is. -/
structure Inv (v : Seen P) : Prop where
  fresh : v.row = none → v.sent = []
  asked : v.asked = v.row.map fun r => ⟨r.payload, r.state = .cancelled⟩
  updated : ∀ r, v.row = some r → r.updatedAt ≤ v.clock
  last : ∀ r, v.row = some r →
    r.lastDeliveredAt = v.sent.getLast?.map fun d => d.row.deliveredAt
  reached : ∀ r, v.row = some r → ∀ d ∈ v.sent, d.row.revision ≤ r.revision
  below : ∀ r, v.row = some r → r.state ≠ .delivered → ∀ d ∈ v.sent, d.row.revision < r.revision
  delivered : ∀ r, v.row = some r → r.state = .delivered →
    ∃ d, v.sent.getLast? = some d ∧ d.priority = r.priority ∧ d.row.payload = r.payload ∧
      d.row.revision = r.revision
  increasing : v.sent.Pairwise fun a b => a.row.revision < b.row.revision
  quiet : ∀ r, v.row = some r → r.state = .pending → ∀ d, v.sent.getLast? = some d →
    d.priority < r.priority ∨ d.row.deliveredAt + cooldownSeconds ≤ max r.dueAt r.updatedAt
  cooldown : v.sent.IsChain fun a b =>
    b.row.deliveredAt < a.row.deliveredAt + cooldownSeconds → a.priority < b.priority
  inbox : v.inbox = v.sent.map Sent.row

omit [DecidableEq P] in
theorem inv_empty (topic : Str) (start : ℚ) : Inv ((Db.empty start : Db P).seen topic) where
  fresh := fun _ => rfl
  asked := rfl
  updated := fun _ h => nomatch h
  last := fun _ h => nomatch h
  reached := fun _ h => nomatch h
  below := fun _ h => nomatch h
  delivered := fun _ h => nomatch h
  increasing := List.Pairwise.nil
  quiet := fun _ h => nomatch h
  cooldown := List.IsChain.nil
  inbox := rfl

omit [DecidableEq P] in
/-- A later time. -/
theorem Inv.tick {v : Seen P} (h : Inv v) (hnow : v.clock ≤ now) : Inv { v with clock := now } :=
  { h with updated := fun r hr => (h.updated r hr).trans hnow }

/-! ### Steps -/

/-- A notification that neither counts a priority the last delivery had as an escalation nor takes
over from an escalation that waits, before the cooldown has passed. -/
def Calm (v : Seen P) (payload : P) (priority : Int) (now : ℚ) : Prop :=
  ∀ old ∈ v.row, ∀ d ∈ v.sent.getLast?,
    (old.payload = payload ∧ old.state ≠ .cancelled) ∨ d.priority < priority ∨
    d.row.deliveredAt + cooldownSeconds ≤ now ∨
    priority ≤ old.priority ∧
      (old.state = .pending → d.row.deliveredAt + cooldownSeconds ≤ old.dueAt)

instance (v : Seen P) (payload : P) (priority : Int) (now : ℚ) :
    Decidable (Calm v payload priority now) :=
  inferInstanceAs (Decidable (∀ old ∈ v.row, ∀ d ∈ v.sent.getLast?, _))

omit [DecidableEq P] in
/-- When the replaced row is due, it is not too early. -/
theorem Inv.due {v : Seen P} (h : Inv v) {old : Notification P} (hold : v.row = some old)
    {payload : P} {priority : Int} (hcalm : Calm v payload priority now)
    (hnew : ¬ (old.payload = payload ∧ old.state ≠ .cancelled)) {d : Sent P}
    (hd : v.sent.getLast? = some d) :
    d.priority < priority ∨ d.row.deliveredAt + cooldownSeconds ≤
      max (dueAfter old priority cooldownSeconds now) now := by
  have hlast := h.last old hold
  rw [hd] at hlast
  rcases hcalm old hold d hd with hsame | hhigher | hpassed | ⟨hle, hpending⟩
  · exact absurd hsame hnew
  · exact .inl hhigher
  · exact .inr (le_max_of_le_right hpassed)
  · have hno : ¬ (priority > old.priority ∨ cooldownSeconds = 0) := by
      rintro (hgt | hzero)
      · exact absurd hle (not_le.mpr hgt)
      · norm_num [cooldownSeconds] at hzero
    refine .inr (le_max_of_le_left ?_)
    rw [dueAfter, if_neg hno]
    cases hstate : old.state with
    | pending => exact hpending hstate
    | delivered =>
      rw [hlast]
      exact le_max_right _ _
    | cancelled =>
      rw [hlast]
      exact le_max_right _ _

/-- **(step)** A notification. -/
theorem Inv.enqueue {v : Seen P} (h : Inv v) (c : Call P) (hcooldown : c.cooldown = cooldownSeconds)
    (hnow : v.clock = now) (hcalm : Calm v c.payload c.priority now) :
    Inv { v with row := some (enqueuedRow c now v.row), asked := some ⟨c.payload, false⟩ } := by
  cases hrow : v.row with
  | none =>
    have hsent := h.fresh hrow
    have hinbox := h.inbox
    rw [hsent] at hinbox
    simp only [enqueuedRow, hsent, hinbox]
    constructor
    case cooldown => exact List.IsChain.nil
    all_goals simp [hnow]
  | some old =>
    by_cases hsame : old.payload = c.payload ∧ old.state ≠ .cancelled
    · -- nothing is written
      have hasked : v.asked = some ⟨c.payload, false⟩ := by
        rw [h.asked, hrow, Option.map_some, hsame.1, decide_eq_false hsame.2]
      rw [enqueuedRow, if_pos hsame, ← hrow, ← hasked]
      exact h
    · rw [enqueuedRow, if_neg hsame, hcooldown]
      have hbelow : ∀ d ∈ v.sent, d.row.revision < old.revision + 1 := fun d hd =>
        Nat.lt_succ_of_le (h.reached old hrow d hd)
      constructor
      case fresh => exact fun hnone => nomatch hnone
      case asked => rfl
      case increasing => exact h.increasing
      case cooldown => exact h.cooldown
      case inbox => exact h.inbox
      all_goals
        intro r hr
        obtain rfl := Option.some.inj hr
      case updated => exact hnow.ge
      case last => exact h.last old hrow
      case reached => exact fun d hd => (hbelow d hd).le
      case below => exact fun _ => hbelow
      case delivered => exact fun hstate => nomatch hstate
      case quiet => exact fun _ d hd => h.due hrow hcalm hsame hd

omit [DecidableEq P] in
/-- **(step)** The row is withdrawn while it is pending. -/
theorem Inv.cancel {v : Seen P} (h : Inv v) : Inv v.cancel := by
  unfold Seen.cancel
  split
  · exact h
  · rename_i old hrow
    split
    · rename_i hpending
      have hstate : old.state ≠ .delivered := by rw [hpending]; exact Delivery.noConfusion
      constructor
      case fresh => exact fun hnone => nomatch hnone
      case asked =>
        dsimp only
        rw [h.asked, hrow, Option.map_some, Option.map_some, Option.map_some]
        rfl
      case increasing => exact h.increasing
      case cooldown => exact h.cooldown
      case inbox => exact h.inbox
      all_goals
        intro r hr
        obtain rfl := Option.some.inj hr
      case updated => exact h.updated old hrow
      case last => exact h.last old hrow
      case reached => exact h.reached old hrow
      case below => exact fun _ => h.below old hrow hstate
      case delivered => exact fun hstate => nomatch hstate
      case quiet => exact fun hstate => nomatch hstate
    · exact h

theorem le_retryAt (attempts : Nat) (now : ℚ) : now ≤ retryAt attempts now := by
  have hwait : (0 : ℚ) ≤ min 3600 (30 * 2 ^ min (attempts - 1) 7) := by positivity
  unfold retryAt
  linarith

omit [DecidableEq P] in
/-- **(step)** A delivery of the pending row that is due. -/
theorem Inv.deliver {v : Seen P} (h : Inv v) {row : Notification P} (hrow : v.row = some row)
    (hpending : row.state = .pending) (hdue : row.dueAt ≤ now) (hnow : v.clock = now)
    (fails : Bool) : Inv (v.deliver row fails now) := by
  have hstate : row.state ≠ .delivered := by rw [hpending]; exact Delivery.noConfusion
  have hreached : max row.dueAt row.updatedAt ≤ now :=
    max_le hdue ((h.updated row hrow).trans hnow.le)
  have hquiet := h.quiet row hrow hpending
  unfold Seen.deliver
  split
  · rw [hrow, Option.map_some]
    constructor
    case fresh => exact fun hnone => nomatch hnone
    case asked => exact h.asked.trans (by rw [hrow]; rfl)
    case increasing => exact h.increasing
    case cooldown => exact h.cooldown
    case inbox => exact h.inbox
    all_goals
      intro r hr
      obtain rfl := Option.some.inj hr
    case updated => exact h.updated row hrow
    case last => exact h.last row hrow
    case reached => exact h.reached row hrow
    case below => exact h.below row hrow
    case delivered => exact fun hdelivered => absurd hdelivered hstate
    case quiet =>
      intro _ d hd
      exact (hquiet d hd).imp id fun hle =>
        le_max_of_le_left ((hle.trans hreached).trans (le_retryAt _ now))
  · -- no revision of the inbox is that of the row
    have hfresh : ¬ (v.inbox.any fun r => r.revision = row.revision) = true := by
      rw [h.inbox, List.any_eq_true]
      rintro ⟨r, hr, heq⟩
      obtain ⟨d, hd, rfl⟩ := List.mem_map.mp hr
      exact (h.below row hrow hstate d hd).ne (of_decide_eq_true heq)
    rw [if_neg hfresh, hrow, Option.map_some]
    constructor
    case fresh => exact fun hnone => nomatch hnone
    case asked =>
      have hasked := h.asked
      rw [hrow, Option.map_some, hpending] at hasked
      exact hasked
    case increasing =>
      refine List.pairwise_append.mpr ⟨h.increasing, List.pairwise_singleton _ _, ?_⟩
      rintro a ha b hb
      obtain rfl := List.mem_singleton.mp hb
      exact h.below row hrow hstate a ha
    case cooldown =>
      refine List.isChain_append.mpr ⟨h.cooldown, List.isChain_singleton _, ?_⟩
      intro a ha b hb hearly
      obtain rfl := Option.some.inj hb
      exact (hquiet a ha).resolve_right fun hle => absurd hearly (not_lt.mpr (hle.trans hreached))
    case inbox =>
      dsimp only
      rw [h.inbox, List.map_append, List.map_singleton]
    all_goals
      intro r hr
      obtain rfl := Option.some.inj hr
    case updated => exact h.updated row hrow
    case last =>
      dsimp only
      rw [List.getLast?_concat]
      rfl
    case reached =>
      intro d hd
      rcases List.mem_append.mp hd with hd | hd
      · exact h.reached row hrow d hd
      · obtain rfl := List.mem_singleton.mp hd
        exact le_rfl
    case below => exact fun hne => absurd rfl hne
    case delivered => exact fun _ => ⟨_, List.getLast?_concat, rfl, rfl, rfl⟩
    case quiet => exact fun hstate => nomatch hstate

/-! ### Runs -/

/-- The topics of incidents hold their notifications, and no other topic does. -/
def Matching (db : Db P) : Prop :=
  ∀ r ∈ db.outbox, ∀ id, r.subject = .incident id ↔ r.topic = incidentTopic id

theorem Matching.enqueue (h : Matching db) (c : Call P) (now : ℚ) :
    Matching (Notifications.enqueue db c now) := by
  intro r hr id
  have hfind := Table.find?_of_mem hr
  rw [find?_enqueue] at hfind
  split at hfind
  · cases hold : db.outbox.find? r.topic with
    | none =>
      rw [hold] at hfind
      rw [← Option.some.inj hfind]
      exact c.subject_iff id
    | some old =>
      have hiff := h old (Table.mem_of_find? hold) id
      rw [hold] at hfind
      rw [← Option.some.inj hfind, enqueuedRow]
      split <;> exact hiff
  · exact h r (Table.mem_of_find? hfind) id

omit [DecidableEq P] in
theorem Matching.setRow {db' : Db P} {topic : Str} {f : Notification P → Notification P}
    (hf : ∀ r, (f r).topic = r.topic) (h : Matching db) (hsubject : ∀ r, (f r).subject = r.subject)
    (hrows : db'.outbox = Notifications.setRow db.outbox topic f hf) : Matching db' := by
  intro r hr id
  rw [hrows] at hr
  obtain ⟨old, hold, rfl⟩ := Table.mem_update.mp hr
  split
  · rw [hsubject, hf]
    exact h old hold id
  · exact h old hold id

omit [DecidableEq P] in
theorem Matching.deliver (h : Matching db) (row : Notification P) (fails : Bool) (now : ℚ) :
    Matching (deliver db row fails now) := by
  unfold Notifications.deliver
  split
  · exact h.setRow (fun _ => by exact rfl) (fun _ => by exact rfl) rfl
  · exact h.setRow (fun _ => by exact rfl) (fun _ => by exact rfl) rfl

theorem Matching.incident (h : Matching db) (id : Str) (standing : Option (P × Int)) (now : ℚ) :
    Matching (incident db id standing now) := by
  unfold Notifications.incident
  split
  · unfold Notifications.cancel
    split
    · exact h
    · split
      · exact h.setRow (fun _ => by exact rfl) (fun _ => by exact rfl) rfl
      · exact h
  · exact h.enqueue _ now

theorem Matching.attempt (h : Matching db) (standing : Str → Option (P × Int)) (fails : Str → Bool)
    (now : ℚ) (row : Notification P) : Matching (attempt standing fails now db row) := by
  unfold Notifications.attempt
  split
  · rename_i id _
    have hchecked := h.incident id (standing id) now
    dsimp only
    split
    · exact hchecked
    · split
      · exact hchecked
      · exact hchecked.deliver _ _ now
  · exact h.deliver _ _ now

theorem seen_incident_of_ne (db : Db P) {t : Str} (ht : incidentTopic id ≠ t)
    (standing : Option (P × Int)) (now : ℚ) : (incident db id standing now).seen t = db.seen t := by
  unfold incident
  split
  · rw [seen_cancel, if_neg ht]
  · rw [seen_enqueue]
    exact if_neg ht

/-- **(step)** The incident is announced or withdrawn. -/
theorem inv_incident {standing : Option (P × Int)} (h : Inv (db.seen (incidentTopic id)))
    (hnow : db.clock = now)
    (hcalm : ∀ q ∈ standing, Calm (db.seen (incidentTopic id)) q.1 q.2 now) :
    Inv ((incident db id standing now).seen (incidentTopic id)) := by
  unfold incident
  split
  · rw [seen_cancel, if_pos rfl]
    exact h.cancel
  · rename_i payload priority
    rw [seen_enqueue]
    split
    · exact h.enqueue (.ofIncident id payload priority) rfl hnow (hcalm (payload, priority) rfl)
    · rename_i hne
      exact absurd rfl hne

theorem seen_attempt_of_ne (db : Db P) {t : Str} {row : Notification P} (ht : row.topic ≠ t)
    (hsubject : ∀ id, row.subject = .incident id → row.topic = incidentTopic id)
    (standing : Str → Option (P × Int)) (fails : Str → Bool) (now : ℚ) :
    (attempt standing fails now db row).seen t = db.seen t := by
  unfold attempt
  split
  · rename_i id hid
    have hne : incidentTopic id ≠ t := hsubject id hid ▸ ht
    have hchecked := seen_incident_of_ne db hne (standing id) now
    dsimp only
    split
    · exact hchecked
    · rename_i r hr
      split
      · exact hchecked
      · rw [seen_deliver, Table.find?_key hr, if_neg ht, hchecked]
  · rw [seen_deliver, if_neg ht]

theorem clock_incident (db : Db P) (id : Str) (standing : Option (P × Int)) (now : ℚ) :
    (incident db id standing now).clock = db.clock := by
  unfold incident
  split
  · unfold cancel
    split
    · rfl
    · split <;> rfl
  · obtain ⟨rows, heq⟩ := enqueue_frame db (.ofIncident id _ _) now
    rw [heq]

omit [DecidableEq P] in
theorem clock_deliver (row : Notification P) (fails : Bool) (now : ℚ) :
    (deliver db row fails now).clock = db.clock := by
  unfold deliver
  split <;> rfl

theorem clock_attempt (standing : Str → Option (P × Int)) (fails : Str → Bool) (now : ℚ)
    (row : Notification P) : (attempt standing fails now db row).clock = db.clock := by
  unfold attempt
  split
  · rename_i id _
    have hchecked := clock_incident db id (standing id) now
    dsimp only
    split
    · exact hchecked
    · split
      · exact hchecked
      · exact (clock_deliver _ _ now).trans hchecked
  · exact clock_deliver _ _ now

/-- **(step)** The loop comes to the row of the incident. -/
theorem inv_attempt {row : Notification P} {standing : Str → Option (P × Int)} {fails : Str → Bool}
    (h : Inv (db.seen (incidentTopic id))) (hsubject : row.subject = .incident id)
    (htopic : row.topic = incidentTopic id) (hnow : db.clock = now)
    (hcalm : ∀ q ∈ standing id, Calm (db.seen (incidentTopic id)) q.1 q.2 now) :
    Inv ((attempt standing fails now db row).seen (incidentTopic id)) := by
  have hchecked := inv_incident h hnow hcalm
  unfold attempt
  rw [hsubject]
  dsimp only
  split
  · exact hchecked
  · rename_i r hr
    split
    · exact hchecked
    · rename_i hdue
      obtain ⟨hpending, hle⟩ := not_or.mp hdue
      have hkey : r.topic = incidentTopic id := (Table.find?_key hr).trans htopic
      rw [seen_deliver, if_pos hkey]
      exact hchecked.deliver (htopic ▸ hr) (not_not.mp hpending) (not_lt.mp hle)
        ((clock_incident db id _ now).trans hnow) _

/-- **(run)** The loop over due rows. -/
theorem inv_foldl {standing : Str → Option (P × Int)} {fails : Str → Bool}
    {rows : List (Notification P)} (hnodup : (rows.map Notification.topic).Nodup)
    (hrows : ∀ r ∈ rows, ∀ id, r.subject = .incident id ↔ r.topic = incidentTopic id)
    (h : Inv (db.seen (incidentTopic id))) (hnow : db.clock = now)
    (hcalm : (∃ r ∈ rows, r.topic = incidentTopic id) →
      ∀ q ∈ standing id, Calm (db.seen (incidentTopic id)) q.1 q.2 now) :
    Inv ((rows.foldl (attempt standing fails now) db).seen (incidentTopic id)) := by
  induction rows generalizing db with
  | nil => exact h
  | cons row rows ih =>
    have hrow := hrows row List.mem_cons_self
    obtain ⟨hfirst, hnodup⟩ := List.nodup_cons.mp hnodup
    have hrest : ∀ r ∈ rows, ∀ id, r.subject = .incident id ↔ r.topic = incidentTopic id :=
      fun r hr => hrows r (List.mem_cons_of_mem _ hr)
    have hclock := (clock_attempt standing fails now row).trans hnow
    rw [List.foldl_cons]
    by_cases ht : row.topic = incidentTopic id
    · -- no other row has the topic
      refine ih hnodup hrest ?_ hclock ?_
      · exact inv_attempt h ((hrow id).mpr ht) ht hnow (hcalm ⟨row, List.mem_cons_self, ht⟩)
      · rintro ⟨r, hr, heq⟩
        exact absurd (List.mem_map.mpr ⟨r, hr, heq.trans ht.symm⟩) hfirst
    · have hsame := seen_attempt_of_ne db ht (fun id => (hrow id).mp) standing fails now
      refine ih hnodup hrest (hsame ▸ h) hclock ?_
      rw [hsame]
      rintro ⟨r, hr, heq⟩
      exact hcalm ⟨r, List.mem_cons_of_mem _ hr, heq⟩

omit [DecidableEq P] in
theorem mem_dueRows {r : Notification P} (h : r ∈ dueRows db now) : r ∈ db.outbox :=
  (Table.mem_select.mp ((List.perm_insertionSort _ _).mem_iff.mp (List.mem_of_mem_take h))).1

omit [DecidableEq P] in
theorem nodup_dueRows (db : Db P) (now : ℚ) : ((dueRows db now).map Notification.topic).Nodup := by
  refine List.Nodup.sublist ((List.take_sublist _ _).map _) ?_
  refine (((List.perm_insertionSort _ _).map _).nodup_iff).mpr ?_
  exact db.outbox.nodup.sublist (List.filter_sublist.map _)

/-- The clock does not go back, and the notifications of the incident are calm. -/
def Admitted (id : Str) (db : Db P) (a : Action P) : Prop :=
  db.clock ≤ a.now ∧
    match a with
    | .enqueue c now => c.topic = incidentTopic id → Calm (db.seen c.topic) c.payload c.priority now
    | .incident id' standing now => id' = id →
        ∀ q ∈ standing, Calm (db.seen (incidentTopic id)) q.1 q.2 now
    | .deliverDue standing _ now => (∃ r ∈ dueRows db now, r.topic = incidentTopic id) →
        ∀ q ∈ standing id, Calm (db.seen (incidentTopic id)) q.1 q.2 now

instance (id : Str) (db : Db P) : ∀ a, Decidable (Admitted id db a)
  | .enqueue c now =>
    inferInstanceAs (Decidable (db.clock ≤ now ∧ (c.topic = incidentTopic id → Calm _ _ _ _)))
  | .incident id' standing now =>
    inferInstanceAs (Decidable (db.clock ≤ now ∧ (id' = id → ∀ q ∈ standing, Calm _ _ _ _)))
  | .deliverDue standing _ now =>
    inferInstanceAs (Decidable (db.clock ≤ now ∧
      ((∃ r ∈ dueRows db now, r.topic = incidentTopic id) → ∀ q ∈ standing id, Calm _ _ _ _)))

/-- **(step)** -/
theorem inv_next {a : Action P} (hadmitted : Admitted id db a)
    (h : Matching db ∧ Inv (db.seen (incidentTopic id))) :
    Matching (next db a) ∧ Inv ((next db a).seen (incidentTopic id)) := by
  obtain ⟨hclock, hcalm⟩ := hadmitted
  obtain ⟨hmatching, hinv⟩ := h
  have htick : Inv (Db.seen { db with clock := a.now } (incidentTopic id)) := hinv.tick hclock
  have hkept : Matching { db with clock := a.now } := hmatching
  cases a with
  | enqueue c now =>
    refine ⟨hkept.enqueue c now, ?_⟩
    dsimp only [next]
    rw [seen_enqueue]
    split
    · rename_i ht
      have hcalm : Calm (db.seen c.topic) c.payload c.priority now := hcalm ht
      rw [ht] at hcalm
      exact htick.enqueue c (c.cooldown_eq id ((c.subject_iff id).mpr ht)) rfl hcalm
    · exact htick
  | incident id' standing now =>
    refine ⟨hkept.incident id' standing now, ?_⟩
    dsimp only [next]
    by_cases hid : id' = id
    · subst hid
      exact inv_incident htick rfl (hcalm rfl)
    · rw [seen_incident_of_ne _ fun heq => hid (incidentTopic_injective heq)]
      exact htick
  | deliverDue standing fails now =>
    refine ⟨?_, ?_⟩
    · dsimp only [next]
      exact List.foldlRecOn _ _ hkept fun _ hb row _ => hb.attempt standing fails now row
    · refine inv_foldl (nodup_dueRows _ now) ?_ htick rfl hcalm
      exact fun r hr => hkept r (mem_dueRows hr)

/-- **The cooldown of an incident holds**: a delivery within it has a higher priority than the one
before, no revision is delivered twice, and the last payload is delivered or pending unless it was
withdrawn. -/
structure CooldownHolds (v : Seen P) : Prop where
  escalated : v.sent.IsChain fun a b =>
    b.row.deliveredAt < a.row.deliveredAt + cooldownSeconds → a.priority < b.priority
  once : (v.sent.map fun d => d.row.revision).Nodup
  shown : v.inbox = v.sent.map Sent.row
  current : ∀ a, v.asked = some a → a.withdrawn = false →
    (∃ r, v.row = some r ∧ r.state = .pending ∧ r.payload = a.payload) ∨
      ∃ d, v.sent.getLast? = some d ∧ d.row.payload = a.payload

omit [DecidableEq P] in
theorem Inv.cooldownHolds {v : Seen P} (h : Inv v) : CooldownHolds v where
  escalated := h.cooldown
  once := (List.pairwise_map.mpr h.increasing).imp fun hlt => hlt.ne
  shown := h.inbox
  current := by
    intro a ha hkept
    rw [h.asked] at ha
    obtain ⟨r, hr, rfl⟩ := Option.map_eq_some_iff.mp ha
    cases hstate : r.state with
    | pending => exact .inl ⟨r, hr, hstate, rfl⟩
    | delivered =>
      obtain ⟨d, hd, -, hpayload, -⟩ := h.delivered r hr hstate
      exact .inr ⟨d, hd, hpayload⟩
    | cancelled => exact absurd hstate (of_decide_eq_false hkept)

/-- **(run)** In every run whose clock does not go back and whose notifications of the incident are
calm, whatever else is announced, delivered or fails, its cooldown holds. -/
theorem cooldown_of_calm (id : Str) (start : ℚ) (as : List (Action P))
    (h : StepsSatisfy next (Admitted id) (Db.empty start) as) :
    CooldownHolds ((run next (Db.empty start) as).seen (incidentTopic id)) := by
  have hrun : Matching (run next (Db.empty start) as) ∧
      Inv ((run next (Db.empty start) as).seen (incidentTopic id)) :=
    run_invariant_of_steps (P := fun db => Matching db ∧ Inv (db.seen (incidentTopic id)))
      (fun _ _ hadmitted hdb => inv_next hadmitted hdb) h
      ⟨fun _ hr => absurd hr (Table.not_mem_empty _), inv_empty _ start⟩
  exact hrun.2.cooldownHolds

end

/-- A notification within the cooldown, of the priority that was delivered. -/
theorem cooldown_of_calm_repeat :
    CooldownHolds ((run next (Db.empty 0)
      [.incident [97] (some (0, 2)) 0, .deliverDue (fun _ => some (0, 2)) (fun _ => false) 0,
        .incident [97] (some (1, 2)) 10] : Db Nat).seen (incidentTopic [97])) :=
  cooldown_of_calm [97] 0 _ ⟨by decide +kernel, by decide +kernel, by decide +kernel, trivial⟩

/-- **The cooldown does not hold**: after a delivery of priority 2 a notification of priority 1
waits for its end, and one of priority 2 that replaces it is delivered at once. -/
theorem escalated_over_waiting :
    ¬ CooldownHolds ((run next (Db.empty 0)
      [.incident [97] (some (0, 2)) 0, .deliverDue (fun _ => some (0, 2)) (fun _ => false) 0,
        .incident [97] (some (1, 1)) 10, .incident [97] (some (2, 2)) 20,
        .deliverDue (fun _ => some (2, 2)) (fun _ => false) 20] : Db Nat).seen
          (incidentTopic [97])) := by
  intro h
  have hescalated := h.escalated
  revert hescalated
  decide +kernel

end RiskOps.Telemetry.Notifications
