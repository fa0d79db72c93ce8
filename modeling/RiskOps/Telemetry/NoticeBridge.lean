import RiskOps.Lib.Run
import RiskOps.Telemetry.HttpIncidents
import RiskOps.Telemetry.NetworkIncidents

/-!
# RiskOps.Telemetry.NoticeBridge — the notification bridge

Model of `publish` of `telemetry/http_worker.py` and `telemetry/network_worker.py` with `enqueue` of
`telemetry/notifications.py`. A case update overwrites the outbox row of its topic with a higher
revision; a publisher copies pending rows, imports each into the console in one transaction and
acknowledges it in another one of the source.

**Two databases, no common lock.** Between any two transactions of a publisher, other publishers,
case updates and crashes may come. What holds nevertheless is kept by the mark the console keeps for
a topic: a revision is imported only above it, and acknowledged only at or below it.

An exception inside the console transaction rolls it back and ends the call, as a crash there does.
`INSERT OR IGNORE` of a daily briefing is an update of a topic without a row.
-/

namespace RiskOps.Telemetry.Bridge

open RiskOps.Lib

/-! ### The two databases -/

/-- What a row of `http_notice_outbox` or `network_notice_outbox` announces. -/
structure Notice (T P : Type) where
  topic : T
  revision : Nat
  cancelled : Bool
  payload : P
  deriving DecidableEq

/-- A row of the outbox. -/
structure OutboxRow (T P : Type) where
  notice : Notice T P
  pending : Bool

/-- The primary key of the outbox. -/
def OutboxRow.topic {T P : Type} (r : OutboxRow T P) : T := r.notice.topic

abbrev Outbox (T P : Type) := Table (OutboxRow.topic : OutboxRow T P → T)

/-- `notification_outbox.kind` of what the bridge imports. -/
inductive Kind
  | briefing
  | httpIncident
  | networkIncident
  deriving DecidableEq, Repr

inductive Delivery
  | pending
  | delivered
  | cancelled
  deriving DecidableEq, Repr

/-- A row of `notification_outbox`. -/
structure Notification (T P O : Type) where
  topic : T
  kind : Kind
  objectId : Option O
  priority : Nat
  payload : P
  revision : Nat
  state : Delivery
  dueAt : ℚ
  attempts : Nat
  lastDeliveredAt : Option ℚ
  updatedAt : ℚ

/-- The console: its notifications, and of `notification_meta` the last imported revisions. -/
structure Console (T P O : Type) where
  notifications : Table (Notification.topic : Notification T P O → T)
  marks : Table (Prod.fst : T × Nat → T)

/-- What an import asks of `enqueue`. -/
structure Request (O : Type) where
  kind : Kind
  priority : Nat
  objectId : Option O

/-- What the two `publish` functions differ in. -/
structure Source (P O : Type) where
  /-- The limits the call accepts. -/
  limitAllowed : Int → Bool
  /-- The arguments of `enqueue`; `none` when the payload lacks a field. -/
  request : P → Option (Request O)

/-- A row of a table after a replacement: the new one, or one under another key. -/
theorem mem_replace {ρ κ : Type} [DecidableEq κ] {key : ρ → κ} {t : Table key} {r new : ρ}
    (h : r ∈ t.replace new) : r = new ∨ r ∈ t ∧ key r ≠ key new := by
  have hfind := Table.find?_of_mem h
  rw [Table.find?_replace] at hfind
  split at hfind
  · exact .inl (Option.some.inj hfind).symm
  · rename_i hne
    exact .inr ⟨Table.mem_of_find? hfind, Ne.symm hne⟩

section

variable {T P O W : Type} [LinearOrder T] [DecidableEq P] [DecidableEq W]

/-! ### `notifications.enqueue` -/

/-- `COOLDOWN_SECONDS`. -/
def cooldownSeconds : ℚ := 3600

/-- When a notification that replaces `old` is due. -/
def dueAfter (old : Notification T P O) (priority : Nat) (now : ℚ) : ℚ :=
  let due :=
    match old.state, old.lastDeliveredAt with
    | .pending, _ => old.dueAt
    | _, some delivered => max now (delivered + cooldownSeconds)
    | _, none => now
  if priority > old.priority then now else due

/-- `enqueue(db, topic, kind, payload, now, priority=…, object_id=…)`. -/
def enqueue (rows : Table (Notification.topic : Notification T P O → T)) (topic : T) (payload : P)
    (now : ℚ) (q : Request O) : Table (Notification.topic : Notification T P O → T) :=
  match rows.find? topic with
  | none =>
    rows.replace ⟨topic, q.kind, q.objectId, q.priority, payload, 1, .pending, now, 0, none, now⟩
  | some old =>
    if old.payload = payload ∧ old.state ≠ .cancelled then rows
    else
      rows.replace { old with
        priority := q.priority
        payload := payload
        revision := old.revision + 1
        state := .pending
        dueAt := dueAfter old q.priority now
        attempts := if old.state = .pending then old.attempts else 0
        updatedAt := now }

/-- `UPDATE notification_outbox SET state='cancelled' WHERE topic=? AND state='pending'`. -/
def cancelPending (rows : Table (Notification.topic : Notification T P O → T)) (topic : T) :
    Table (Notification.topic : Notification T P O → T) :=
  rows.update (fun r => if r.topic = topic ∧ r.state = .pending then { r with state := .cancelled } else r)
    fun r => by split <;> rfl

/-! ### `publish` -/

/-- `notifications._get(db, key, 0)`. -/
def Console.mark (c : Console T P O) (topic : T) : Nat := ((c.marks.find? topic).map Prod.snd).getD 0

/-- The console transaction of one row; `none` when it raises. -/
def importNotice (source : Source P O) (now : ℚ) (c : Console T P O) (n : Notice T P) :
    Option (Console T P O) :=
  if n.revision > c.mark n.topic then
    if n.cancelled then
      some ⟨cancelPending c.notifications n.topic, c.marks.replace (n.topic, n.revision)⟩
    else
      match source.request n.payload with
      | none => none
      | some q =>
        some ⟨enqueue c.notifications n.topic n.payload now q, c.marks.replace (n.topic, n.revision)⟩
  else some c

/-- `SELECT * FROM … WHERE pending=1 ORDER BY topic LIMIT ?`; a negative limit is none. -/
def pendingRows (outbox : Outbox T P) (limit : Int) : List (Notice T P) :=
  let rows := (outbox.select OutboxRow.pending).insertionSort fun a b => a.topic ≤ b.topic
  (if limit < 0 then rows else rows.take limit.toNat).map OutboxRow.notice

/-- `UPDATE … SET pending=0 WHERE topic=? AND revision=?`. -/
def acknowledge (outbox : Outbox T P) (n : Notice T P) : Outbox T P :=
  outbox.update (fun r => if r.topic = n.topic ∧ r.notice.revision = n.revision
    then { r with pending := false } else r) fun r => by split <;> rfl

/-- A call of `publish`: the rows it still has to handle, and whether it has imported the first. -/
structure Publisher (T P : Type) where
  rows : List (Notice T P)
  imported : Bool

/-- The system. `written` and `imports` are its history, oldest first; nothing reads them. -/
structure State (T P O W : Type) where
  outbox : Outbox T P
  console : Console T P O
  publishers : W → Option (Publisher T P)
  written : List (Notice T P)
  imports : List (Notice T P)

inductive Action (T P O W : Type)
  /-- A case update commits. -/
  | update (n : Notice T P)
  /-- A worker calls `publish` and reads the pending rows. -/
  | select (w : W) (limit : Int)
  /-- The console transaction of its next row. -/
  | importNext (w : W) (now : ℚ)
  /-- The source transaction of that row. -/
  | acknowledge (w : W)
  /-- The worker is stopped, or its call has ended. -/
  | crash (w : W)
  /-- The console delivers or changes its notifications. -/
  | console (f : Table (Notification.topic : Notification T P O → T) →
      Table (Notification.topic : Notification T P O → T))

/-- The update raises the revision of its topic. -/
def raises (outbox : Outbox T P) (n : Notice T P) : Bool :=
  match outbox.find? n.topic with
  | none => 1 ≤ n.revision
  | some r => r.notice.revision < n.revision

/-- One step. -/
def next (source : Source P O) (s : State T P O W) : Action T P O W → State T P O W
  | .update n =>
    if raises s.outbox n then
      { s with outbox := s.outbox.replace ⟨n, true⟩, written := s.written ++ [n] }
    else s
  | .select w limit =>
    if (s.publishers w).isNone ∧ source.limitAllowed limit then
      { s with publishers := Function.update s.publishers w (some ⟨pendingRows s.outbox limit, false⟩) }
    else s
  | .importNext w now =>
    match s.publishers w with
    | some ⟨n :: rest, false⟩ =>
      match importNotice source now s.console n with
      | none => { s with publishers := Function.update s.publishers w none }
      | some c =>
        { s with
          console := c
          publishers := Function.update s.publishers w (some ⟨n :: rest, true⟩)
          imports := if n.revision > s.console.mark n.topic then s.imports ++ [n] else s.imports }
    | _ => s
  | .acknowledge w =>
    match s.publishers w with
    | some ⟨n :: rest, true⟩ =>
      { s with
        outbox := Bridge.acknowledge s.outbox n
        publishers := Function.update s.publishers w (some ⟨rest, false⟩) }
    | _ => s
  | .crash w => { s with publishers := Function.update s.publishers w none }
  | .console f => { s with console := { s.console with notifications := f s.console.notifications } }

/-- Before the first update. -/
def State.empty : State T P O W := ⟨.empty, ⟨.empty, .empty⟩, fun _ => none, [], []⟩

/-! ### What an import does -/

variable {source : Source P O} {s : State T P O W} {c : Console T P O} {n : Notice T P}

omit [DecidableEq P] in
theorem mark_replace (c : Console T P O) (rows : Table (Notification.topic : Notification T P O → T))
    (topic t : T) (revision : Nat) :
    (Console.mark ⟨rows, c.marks.replace (topic, revision)⟩ t : Nat) =
      if topic = t then revision else c.mark t := by
  rw [Console.mark, Console.mark, Table.find?_replace]
  split
  · rfl
  · rfl

/-- **The mark after a console transaction**: the greater of the revision and the mark. -/
theorem mark_importNotice {now : ℚ} {c' : Console T P O} (h : importNotice source now c n = some c')
    (t : T) :
    c'.mark t = if n.topic = t ∧ c.mark t < n.revision then n.revision else c.mark t := by
  unfold importNotice at h
  split at h
  · rename_i hnew
    -- both branches write the same mark
    have hmark : ∃ rows, c' = ⟨rows, c.marks.replace (n.topic, n.revision)⟩ := by
      split at h
      · exact ⟨_, (Option.some.inj h).symm⟩
      · split at h
        · cases h
        · exact ⟨_, (Option.some.inj h).symm⟩
    obtain ⟨rows, rfl⟩ := hmark
    rw [mark_replace]
    by_cases ht : n.topic = t
    · subst ht
      rw [if_pos rfl, if_pos ⟨rfl, hnew⟩]
    · rw [if_neg ht, if_neg (fun hand => ht hand.1)]
  · rename_i hold
    obtain rfl := Option.some.inj h
    rw [if_neg]
    rintro ⟨rfl, hlt⟩
    exact hold hlt

/-- **What the import of a revision leaves in the console.** An announced revision has its
notification, with its payload: pending, unless that payload was there already and not cancelled.
After a cancelled one nothing of the topic is pending. Other topics keep what they have. -/
structure Imported (source : Source P O) (now : ℚ) (c c' : Console T P O) (n : Notice T P) : Prop where
  mark : c.mark n.topic < n.revision ∧ c'.mark n.topic = n.revision
  announced : n.cancelled = false → ∃ q r, source.request n.payload = some q ∧
    c'.notifications.find? n.topic = some r ∧ r.payload = n.payload ∧ r.state ≠ .cancelled ∧
    (c.notifications.find? n.topic = some r ∨
      r.state = .pending ∧ r.priority = q.priority ∧ r.updatedAt = now)
  withdrawn : n.cancelled = true → ∀ r, c'.notifications.find? n.topic = some r → r.state ≠ .pending
  others : ∀ t, t ≠ n.topic →
    c'.notifications.find? t = c.notifications.find? t ∧ c'.mark t = c.mark t

theorem enqueue_notification (rows : Table (Notification.topic : Notification T P O → T)) (topic : T)
    (payload : P) (now : ℚ) (q : Request O) :
    (∃ r, (enqueue rows topic payload now q).find? topic = some r ∧ r.payload = payload ∧
      r.state ≠ .cancelled ∧ (rows.find? topic = some r ∨
        r.state = .pending ∧ r.priority = q.priority ∧ r.updatedAt = now)) ∧
      ∀ t, t ≠ topic → (enqueue rows topic payload now q).find? t = rows.find? t := by
  unfold enqueue
  split
  · refine ⟨⟨_, by rw [Table.find?_replace]; exact if_pos rfl, rfl, by simp, .inr ⟨rfl, rfl, rfl⟩⟩,
      fun t ht => ?_⟩
    rw [Table.find?_replace]
    exact if_neg (Ne.symm ht)
  · rename_i old hold
    split
    · rename_i hsame
      exact ⟨⟨old, hold, hsame.1, hsame.2, .inl hold⟩, fun _ _ => rfl⟩
    · have hkey : old.topic = topic := Table.find?_key hold
      refine ⟨⟨_, by rw [Table.find?_replace]; exact if_pos hkey, rfl, by simp, .inr ⟨rfl, rfl, rfl⟩⟩,
        fun t ht => ?_⟩
      rw [Table.find?_replace]
      exact if_neg fun h => ht (h.symm.trans hkey)

/-- A console transaction above the mark imports the revision; another one does nothing. -/
theorem imported_of_importNotice {now : ℚ} {c' : Console T P O}
    (h : importNotice source now c n = some c') :
    if n.revision > c.mark n.topic then Imported source now c c' n else c' = c := by
  have hmark := mark_importNotice h
  have hothers : ∀ t, t ≠ n.topic → c'.mark t = c.mark t := fun t ht => by
    rw [hmark, if_neg fun hand => ht hand.1.symm]
  unfold importNotice at h
  split
  · rename_i hnew
    have hraised : c.mark n.topic < n.revision ∧ c'.mark n.topic = n.revision :=
      ⟨hnew, by rw [hmark, if_pos ⟨rfl, hnew⟩]⟩
    rw [if_pos hnew] at h
    split at h
    · rename_i hcancelled
      obtain rfl := Option.some.inj h
      refine ⟨hraised, fun h => absurd (h.symm.trans hcancelled) nofun, fun _ r hr => ?_,
        fun t ht => ⟨?_, hothers t ht⟩⟩
      · rw [cancelPending, Table.find?_update] at hr
        obtain ⟨old, hold, rfl⟩ := Option.map_eq_some_iff.mp hr
        split
        · exact nofun
        · rename_i hnot
          exact fun hpending => hnot ⟨Table.find?_key hold, hpending⟩
      · rw [cancelPending, Table.find?_update]
        cases hold : c.notifications.find? t with
        | none => rfl
        | some old =>
          rw [Option.map_some, if_neg fun hand => ht ((Table.find?_key hold).symm.trans hand.1)]
    · rename_i hcancelled
      split at h
      · cases h
      · rename_i q hq
        obtain rfl := Option.some.inj h
        obtain ⟨⟨r, hr⟩, hrest⟩ := enqueue_notification c.notifications n.topic n.payload now q
        exact ⟨hraised, fun _ => ⟨q, r, hq, hr⟩, fun h => absurd h hcancelled,
          fun t ht => ⟨hrest t ht, hothers t ht⟩⟩
  · rename_i hold
    rw [if_neg hold] at h
    exact (Option.some.inj h).symm

omit [DecidableEq P] in
/-- Only the transactions of `publish` import: one extends the history by the revision it imports,
and every other step leaves history and marks alone and, but for the console's own, the
notifications. -/
def ImportStep (source : Source P O) (s s' : State T P O W) (a : Action T P O W) : Prop :=
  (s'.imports = s.imports ∧ s'.console.marks = s.console.marks ∧
    (s'.console.notifications = s.console.notifications ∨ ∃ f, a = .console f)) ∨
  ∃ w now n, a = .importNext w now ∧ s'.imports = s.imports ++ [n] ∧
    Imported source now s.console s'.console n

theorem importStep (s : State T P O W) (a : Action T P O W) :
    ImportStep source s (Bridge.next source s a) a := by
  cases a with
  | console f => exact .inl ⟨rfl, rfl, .inr ⟨f, rfl⟩⟩
  | crash w => exact .inl ⟨rfl, rfl, .inl rfl⟩
  | importNext w now =>
    rw [Bridge.next]
    split
    · rename_i n rest hw
      split
      · exact .inl ⟨rfl, rfl, .inl rfl⟩
      · rename_i c himport
        have himported := imported_of_importNotice himport
        by_cases hnew : n.revision > s.console.mark n.topic
        · rw [if_pos hnew] at himported
          exact .inr ⟨w, now, n, rfl, if_pos hnew, himported⟩
        · rw [if_neg hnew] at himported
          exact .inl ⟨if_neg hnew, by rw [himported], .inl (by rw [himported])⟩
    · exact .inl ⟨rfl, rfl, .inl rfl⟩
  | _ =>
    rw [Bridge.next]
    split
    · exact .inl ⟨rfl, rfl, .inl rfl⟩
    · exact .inl ⟨rfl, rfl, .inl rfl⟩

/-! ### The invariant -/

/-- What holds between the two databases, the publishers and the history. -/
structure Linked (s : State T P O W) : Prop where
  positive : ∀ n ∈ s.written, 1 ≤ n.revision
  raised : s.written.Pairwise fun a b => a.topic = b.topic → a.revision < b.revision
  current : ∀ r ∈ s.outbox, r.notice ∈ s.written
  newest : ∀ n ∈ s.written, ∃ r ∈ s.outbox, r.topic = n.topic ∧ n.revision ≤ r.notice.revision
  held : ∀ w p, s.publishers w = some p → ∀ n ∈ p.rows, n ∈ s.written
  imported : ∀ n ∈ s.imports, n ∈ s.written
  increasing : s.imports.Pairwise fun a b => a.topic = b.topic → a.revision < b.revision
  below : ∀ n ∈ s.imports, n.revision ≤ s.console.mark n.topic
  marked : ∀ t, s.console.mark t = 0 ∨ ∃ n ∈ s.imports, n.topic = t ∧ n.revision = s.console.mark t
  awaiting : ∀ w n rest, s.publishers w = some ⟨n :: rest, true⟩ →
    n.revision ≤ s.console.mark n.topic
  settled : ∀ r ∈ s.outbox, r.pending = false → r.notice.revision ≤ s.console.mark r.topic

omit [DecidableEq P] [DecidableEq W] in
theorem linked_empty : Linked (State.empty : State T P O W) := by
  constructor
  case marked => exact fun t => .inl rfl
  case raised => exact List.Pairwise.nil
  case increasing => exact List.Pairwise.nil
  all_goals simp [State.empty]

omit [DecidableEq P] in
/-- A publisher takes up, gives up or drops rows that were written. -/
theorem Linked.publisher (h : Linked s) {w : W} {p : Option (Publisher T P)}
    (hrows : ∀ q, p = some q → ∀ n ∈ q.rows, n ∈ s.written)
    (hawait : ∀ n rest, p = some ⟨n :: rest, true⟩ → n.revision ≤ s.console.mark n.topic) :
    Linked { s with publishers := Function.update s.publishers w p } where
  positive := h.positive
  raised := h.raised
  current := h.current
  newest := h.newest
  imported := h.imported
  increasing := h.increasing
  below := h.below
  marked := h.marked
  settled := h.settled
  held := by
    intro w' q hq
    dsimp only at hq ⊢
    by_cases hw : w' = w
    · subst hw
      rw [Function.update_self] at hq
      exact hrows q hq
    · rw [Function.update_of_ne hw] at hq
      exact h.held w' q hq
  awaiting := by
    intro w' n rest hq
    dsimp only at hq ⊢
    by_cases hw : w' = w
    · subst hw
      rw [Function.update_self] at hq
      exact hawait n rest hq
    · rw [Function.update_of_ne hw] at hq
      exact h.awaiting w' n rest hq

omit [DecidableEq P] in
theorem mem_of_pendingRows {outbox : Outbox T P} {limit : Int} (h : n ∈ pendingRows outbox limit) :
    ∃ r ∈ outbox, r.notice = n := by
  obtain ⟨r, hr, rfl⟩ := List.mem_map.mp h
  have hsorted : r ∈ (outbox.select OutboxRow.pending).insertionSort fun a b => a.topic ≤ b.topic := by
    split at hr
    · exact hr
    · exact List.mem_of_mem_take hr
  exact ⟨r, (Table.mem_select.mp ((List.perm_insertionSort _ _).mem_iff.mp hsorted)).1, rfl⟩

/-! ### Steps -/

omit [DecidableEq P] [DecidableEq W] in
theorem Linked.lt_of_raises (h : Linked s) (hraises : raises s.outbox n = true) :
    1 ≤ n.revision ∧ ∀ m ∈ s.written, m.topic = n.topic → m.revision < n.revision := by
  unfold raises at hraises
  split at hraises
  · rename_i hnone
    refine ⟨by simpa using hraises, fun m hm htopic => ?_⟩
    obtain ⟨r, hr, hrt, -⟩ := h.newest m hm
    exact absurd (hrt.trans htopic) (Table.find?_eq_none_iff.mp hnone r hr)
  · rename_i r hr
    have hlt : r.notice.revision < n.revision := by simpa using hraises
    refine ⟨by omega, fun m hm htopic => ?_⟩
    obtain ⟨r', hr', hrt, hle⟩ := h.newest m hm
    rw [Table.eq_of_key_eq hr' (Table.mem_of_find? hr)
      ((hrt.trans htopic).trans (Table.find?_key hr).symm)] at hle
    omega

omit [DecidableEq P] [DecidableEq W] in
/-- **A case update.** The row it writes is pending and its revision above all before. -/
theorem Linked.update (h : Linked s) (hraises : raises s.outbox n = true) :
    Linked { s with outbox := s.outbox.replace ⟨n, true⟩, written := s.written ++ [n] } := by
  obtain ⟨hpos, hlt⟩ := h.lt_of_raises hraises
  constructor
  case positive =>
    intro m hm
    rcases List.mem_append.mp hm with hm | hm
    · exact h.positive m hm
    · obtain rfl := List.mem_singleton.mp hm
      exact hpos
  case raised =>
    refine List.pairwise_append.mpr ⟨h.raised, List.pairwise_singleton _ _, fun a ha b hb htopic => ?_⟩
    obtain rfl := List.mem_singleton.mp hb
    exact hlt a ha htopic
  case current =>
    intro r hr
    rcases mem_replace hr with rfl | ⟨hr, -⟩
    · exact List.mem_append_right _ (List.mem_singleton_self n)
    · exact List.mem_append_left _ (h.current r hr)
  case newest =>
    have hnew : (⟨n, true⟩ : OutboxRow T P) ∈ s.outbox.replace ⟨n, true⟩ := by
      refine Table.mem_of_find? (k := n.topic) ?_
      rw [Table.find?_replace]
      exact if_pos rfl
    intro m hm
    rcases List.mem_append.mp hm with hm | hm
    · by_cases htopic : m.topic = n.topic
      · exact ⟨_, hnew, htopic.symm, le_of_lt (hlt m hm htopic)⟩
      · obtain ⟨r, hr, hrt, hle⟩ := h.newest m hm
        refine ⟨r, Table.mem_of_find? (k := r.topic) ?_, hrt, hle⟩
        rw [Table.find?_replace, if_neg, Table.find?_of_mem hr]
        exact fun heq => htopic (hrt.symm.trans heq.symm)
    · obtain rfl := List.mem_singleton.mp hm
      exact ⟨_, hnew, rfl, le_refl _⟩
  case held => exact fun w p hp m hm => List.mem_append_left _ (h.held w p hp m hm)
  case imported => exact fun m hm => List.mem_append_left _ (h.imported m hm)
  case increasing => exact h.increasing
  case below => exact h.below
  case marked => exact h.marked
  case awaiting => exact h.awaiting
  case settled =>
    intro r hr hpending
    rcases mem_replace hr with rfl | ⟨hr, -⟩
    · cases hpending
    · exact h.settled r hr hpending

/-- The history of imports after a console transaction. -/
def importsAfter (s : State T P O W) (n : Notice T P) : List (Notice T P) :=
  if n.revision > s.console.mark n.topic then s.imports ++ [n] else s.imports

omit [DecidableEq W] in
/-- **A console transaction.** It imports above the mark and raises the mark to what it imports. -/
theorem Linked.import (h : Linked s) (hn : n ∈ s.written) {now : ℚ}
    (himport : importNotice source now s.console n = some c) :
    Linked { s with console := c, imports := importsAfter s n } ∧ n.revision ≤ c.mark n.topic := by
  have hmark := mark_importNotice himport
  have hmono : ∀ t, s.console.mark t ≤ c.mark t := by
    intro t
    rw [hmark]
    split
    · rename_i hnew
      exact le_of_lt hnew.2
    · exact le_refl _
  have hmem : ∀ m ∈ importsAfter s n, m ∈ s.imports ∨
      m = n ∧ s.console.mark n.topic < n.revision := by
    intro m hm
    unfold importsAfter at hm
    split at hm
    · rename_i hnew
      rcases List.mem_append.mp hm with hm | hm
      · exact .inl hm
      · exact .inr ⟨List.mem_singleton.mp hm, hnew⟩
    · exact .inl hm
  refine ⟨?_, ?_⟩
  constructor
  case positive => exact h.positive
  case raised => exact h.raised
  case current => exact h.current
  case newest => exact h.newest
  case held => exact h.held
  case imported =>
    intro m hm
    rcases hmem m hm with hm | ⟨rfl, -⟩
    · exact h.imported m hm
    · exact hn
  case increasing =>
    dsimp only [importsAfter]
    split
    · rename_i hnew
      refine List.pairwise_append.mpr ⟨h.increasing, List.pairwise_singleton _ _, ?_⟩
      intro a ha b hb htopic
      obtain rfl := List.mem_singleton.mp hb
      have hle := h.below a ha
      rw [htopic] at hle
      omega
    · exact h.increasing
  case below =>
    intro m hm
    rcases hmem m hm with hm | ⟨rfl, hnew⟩
    · exact le_trans (h.below m hm) (hmono _)
    · dsimp only
      rw [hmark, if_pos ⟨rfl, hnew⟩]
  case marked =>
    intro t
    dsimp only [importsAfter]
    rw [hmark]
    by_cases hnew : n.topic = t ∧ s.console.mark t < n.revision
    · obtain ⟨rfl, hlt⟩ := hnew
      rw [if_pos ⟨rfl, hlt⟩, if_pos hlt]
      exact .inr ⟨n, List.mem_append_right _ (List.mem_singleton_self n), rfl, rfl⟩
    · rw [if_neg hnew]
      refine (h.marked t).imp_right fun hex => ?_
      obtain ⟨m, hm, htopic, hrev⟩ := hex
      refine ⟨m, ?_, htopic, hrev⟩
      split
      · exact List.mem_append_left _ hm
      · exact hm
  case awaiting => exact fun w m rest hp => le_trans (h.awaiting w m rest hp) (hmono _)
  case settled => exact fun r hr hpending => le_trans (h.settled r hr hpending) (hmono _)
  · rw [hmark]
    split
    · exact le_refl _
    · rename_i hold
      by_contra hlt
      exact hold ⟨rfl, by omega⟩

omit [DecidableEq P] [DecidableEq W] in
theorem mem_acknowledge {outbox : Outbox T P} {r : OutboxRow T P} :
    r ∈ acknowledge outbox n ↔ ∃ r' ∈ outbox, (if r'.topic = n.topic ∧
      r'.notice.revision = n.revision then { r' with pending := false } else r') = r := by
  rw [acknowledge, Table.mem_update]

omit [DecidableEq P] [DecidableEq W] in
/-- **An acknowledgement.** It reaches only the revision the publisher imported. -/
theorem Linked.acknowledge (h : Linked s) (hle : n.revision ≤ s.console.mark n.topic) :
    Linked { s with outbox := Bridge.acknowledge s.outbox n } where
  positive := h.positive
  raised := h.raised
  held := h.held
  imported := h.imported
  increasing := h.increasing
  below := h.below
  marked := h.marked
  awaiting := h.awaiting
  current := by
    intro r hr
    obtain ⟨r', hr', heq⟩ := Iff.mp mem_acknowledge hr
    have hnotice : r.notice = r'.notice := by
      rw [← heq]
      split
      · rfl
      · rfl
    rw [hnotice]
    exact h.current r' hr'
  newest := by
    intro m hm
    obtain ⟨r, hr, htopic, hrev⟩ := h.newest m hm
    refine ⟨_, Iff.mpr mem_acknowledge ⟨r, hr, rfl⟩, ?_⟩
    split
    · exact ⟨htopic, hrev⟩
    · exact ⟨htopic, hrev⟩
  settled := by
    intro r hr hpending
    obtain ⟨r', hr', heq⟩ := Iff.mp mem_acknowledge hr
    split at heq
    · rename_i hmatch
      subst heq
      dsimp only [OutboxRow.topic] at hmatch ⊢
      rw [hmatch.1, hmatch.2]
      exact hle
    · subst heq
      exact h.settled r' hr' hpending

theorem Linked.next (h : Linked s) (a : Action T P O W) : Linked (Bridge.next source s a) := by
  cases a with
  | update n =>
    rw [Bridge.next]
    split
    · rename_i hraises
      exact h.update hraises
    · exact h
  | select w limit =>
    rw [Bridge.next]
    split
    · refine h.publisher ?_ ?_
      · intro q hq n hn
        obtain rfl := Option.some.inj hq
        obtain ⟨r, hr, rfl⟩ := mem_of_pendingRows hn
        exact h.current r hr
      · intro n rest heq
        cases congrArg Publisher.imported (Option.some.inj heq)
    · exact h
  | importNext w now =>
    rw [Bridge.next]
    split
    · rename_i n rest hw
      have hrows := h.held w _ hw
      split
      · exact h.publisher (fun q hq => by cases hq) (fun m rest heq => by cases heq)
      · rename_i c himport
        obtain ⟨hlinked, hle⟩ := h.import (hrows n List.mem_cons_self) himport
        refine hlinked.publisher ?_ ?_
        · intro q hq
          obtain rfl := Option.some.inj hq
          exact hrows
        · intro m rest' heq
          cases heq
          exact hle
    · exact h
  | acknowledge w =>
    rw [Bridge.next]
    split
    · rename_i n rest hw
      refine (h.acknowledge (h.awaiting w n rest hw)).publisher ?_ ?_
      · intro q hq m hm
        obtain rfl := Option.some.inj hq
        exact h.held w _ hw m (List.mem_cons_of_mem _ hm)
      · intro m rest' heq
        cases heq
    · exact h
  | crash w => exact h.publisher (fun q hq => by cases hq) (fun m rest heq => by cases heq)
  | console f =>
    exact ⟨h.positive, h.raised, h.current, h.newest, h.held, h.imported, h.increasing, h.below,
      h.marked, h.awaiting, h.settled⟩

/-! ### Whole runs -/

omit [DecidableEq P] [DecidableEq W] in
/-- A revision is written once. -/
theorem Linked.written_unique (h : Linked s) {a b : Notice T P} (ha : a ∈ s.written)
    (hb : b ∈ s.written) (htopic : a.topic = b.topic) (hrev : a.revision = b.revision) : a = b := by
  have hkeys : (s.written.map fun n => (n.topic, n.revision)).Nodup := by
    rw [List.Nodup, List.pairwise_map]
    refine h.raised.imp fun hlt heq => ?_
    obtain ⟨ht, hr⟩ := Prod.mk.inj heq
    exact absurd hr (ne_of_lt (hlt ht))
  exact List.inj_on_of_nodup_map hkeys ha hb (Prod.ext htopic hrev)

omit [DecidableEq P] [DecidableEq W] in
/-- What the console has marked has been imported, in this revision or a later one. -/
theorem Linked.exists_import (h : Linked s) {t : T} {revision : Nat} (hpos : 1 ≤ revision)
    (hle : revision ≤ s.console.mark t) : ∃ n ∈ s.imports, n.topic = t ∧ revision ≤ n.revision := by
  obtain hzero | ⟨n, hn, htopic, hrev⟩ := h.marked t
  · omega
  · exact ⟨n, hn, htopic, hrev ▸ hle⟩

omit [DecidableEq P] [DecidableEq W] in
/-- The newest revision of a topic is pending until it is imported. -/
theorem Linked.pending_newest (h : Linked s) {n : Notice T P} (hn : n ∈ s.written)
    (hnewest : ∀ m ∈ s.written, m.topic = n.topic → m.revision ≤ n.revision)
    (hmissing : n ∉ s.imports) : ⟨n, true⟩ ∈ s.outbox := by
  obtain ⟨r, hr, htopic, hle⟩ := h.newest n hn
  -- the row holds the newest revision
  have hnotice : r.notice = n := h.written_unique (h.current r hr) hn htopic
    (le_antisymm (hnewest _ (h.current r hr) htopic) hle)
  cases hpending : r.pending with
  | true =>
    have hrow : r = ⟨n, true⟩ := by rw [← hnotice, ← hpending]
    exact hrow ▸ hr
  | false =>
    obtain ⟨m, hm, hmt, hmle⟩ :=
      h.exists_import (h.positive _ (h.current r hr)) (h.settled r hr hpending)
    have hmt' : m.topic = n.topic := hmt.trans htopic
    have hmn : m = n := h.written_unique (h.imported m hm) hn hmt'
      (le_antisymm (hnewest m (h.imported m hm) hmt') (hnotice ▸ hmle))
    exact absurd (hmn ▸ hm) hmissing

/-- **The bridge imports every revision at most once and never loses the last.** In every run, for
every topic: the imported revisions increase, each is imported as it was written, an acknowledged
row has been imported or overtaken, and the newest revision is pending until it is imported.
An import leaves the notification of its revision in the console, and nothing else imports. -/
theorem bridge_never_loses (source : Source P O) (actions : List (Action T P O W)) :
    let s := run (Bridge.next source) State.empty actions
    (∀ t, ((s.imports.filter fun n => n.topic = t).map Notice.revision).Pairwise (· < ·)) ∧
    (∀ n ∈ s.imports, n ∈ s.written ∧
      ∀ m ∈ s.written, m.topic = n.topic → m.revision = n.revision → m = n) ∧
    (∀ r ∈ s.outbox, r.pending = false →
      ∃ n ∈ s.imports, n.topic = r.topic ∧ r.notice.revision ≤ n.revision) ∧
    (∀ n ∈ s.written, (∀ m ∈ s.written, m.topic = n.topic → m.revision ≤ n.revision) → n ∉ s.imports →
      ⟨n, true⟩ ∈ s.outbox) ∧
    ∀ a, ImportStep source s (Bridge.next source s a) a := by
  have hrun : Linked (run (Bridge.next source) State.empty actions) :=
    run_preserves (P := Linked) (fun _ a hs => hs.next a) linked_empty
  intro s
  have h : Linked s := hrun
  refine ⟨fun t => ?_, fun n hn => ⟨h.imported n hn, ?_⟩, fun r hr hpending => ?_,
    fun n hn hnewest hmissing => ?_, importStep s⟩
  · rw [List.pairwise_map]
    refine (h.increasing.sublist List.filter_sublist).imp_of_mem fun ha hb hlt => hlt ?_
    have hat := (List.mem_filter.mp ha).2
    have hbt := (List.mem_filter.mp hb).2
    exact (of_decide_eq_true hat).trans (of_decide_eq_true hbt).symm
  · intro m hm htopic hrev
    exact h.written_unique hm (h.imported n hn) htopic hrev
  · exact h.exists_import (h.positive _ (h.current r hr)) (h.settled r hr hpending)
  · exact h.pending_newest hn hnewest hmissing

end

/-! ### The two sources -/

/-- `publish` of `network_worker.py`. -/
def networkSource {D : Type} : Source (Network.Payload D) (Network.WindowKey D) where
  limitAllowed limit := 1 ≤ limit && limit ≤ 200
  request payload := some ⟨.networkIncident, 1, some payload.key⟩

/-- What `http_notice_outbox` carries: a case, or the briefing of a day. -/
inductive HttpPayload (B : Type)
  | incident (payload : Http.Payload)
  | daily (briefing : B)

/-- `publish` of `http_worker.py`. -/
def httpSource {B : Type} : Source (HttpPayload B) Http.WindowKey where
  limitAllowed _ := true
  request
    | .daily _ => some ⟨.briefing, 0, none⟩
    | .incident payload =>
      some ⟨.httpIncident, if payload.assessment.priority = some "P2" then 2 else 1, some payload.key⟩

end RiskOps.Telemetry.Bridge
