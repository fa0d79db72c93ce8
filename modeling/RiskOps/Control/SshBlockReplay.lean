import RiskOps.Control.SshBlockReplies

/-!
# RiskOps.Control.SshBlockReplay — what decides a stored block

**The stored block on a key is decided by the last first execution on it.** A request is
*executed* when it arrives while no receipt is stored under its id and it gets as far as
its pending receipt; it is *kept* unless it returns `error`, which falls back to the
blocks before it. Everything else a call does to the stored blocks is to sweep out what
has expired or is protected by then.

Over a run, `changes` lists the executions that were kept and the sweeps;
`stored_run` says that the store is what this list makes of it, key by key.
A request that is rejected, or whose first read fails, leaves no receipt: sending its id
again is then a first execution.
-/

namespace RiskOps.Control

open RiskOps.Lib

/-- What happens to the stored blocks. -/
inductive Change where
  | swept (now : ℚ) (networks : List Network)
  | executed (requestId : List Char) (key : Key) (block : Option (Option Int))

/-- The stored block on a key: its deadline, if there is a block. -/
def World.stored (w : World) (key : Key) : Option (Option Int) :=
  (w.store.blocks.find? key).map Block.expiresAt

/-- A block on `key` survives a sweep. -/
def survives (now : ℚ) (networks : List Network) (key : Key) (expiresAt : Option Int) : Bool :=
  running now expiresAt && !protectedIp key.ip networks

/-- What a change makes of the block on a key. -/
def Change.apply (key : Key) (block : Option (Option Int)) : Change → Option (Option Int)
  | .swept now networks => block.filter (survives now networks key)
  | .executed _ k b => if k = key then b else block

/-- The block an action puts on its key. -/
def Action.target : Action → Option (Key × Option (Option Int))
  | .add key expiresAt _ => some (key, some expiresAt)
  | .delete key => some (key, none)
  | _ => none

section Calls

variable (sha256 : List Char → List Char) (collapse : List Network → List Network)
variable (config : Config)

/-- The execution stands: it crashed with its intent stored, or did not return `error`. -/
def kept (intent : Intent) (call : Call) : Bool :=
  call.crash.isSome || (settle collapse intent call).2.status ≠ .error

/-- The changes of a call, in order. -/
def changes (w : World) (call : Call) : List Change :=
  match prepare sha256 config w call with
  | .error _ => []
  | .ok intent =>
    .swept call.now call.networks ::
      if (w.receipt? intent.request).isNone && kept collapse intent call then
        (intent.request.action.target.map fun t =>
          Change.executed intent.request.requestId t.1 t.2).toList
      else []

/-! ### One call -/

/-- The blocks stored after a call that came to an intent. -/
theorem blocks_next {w : World} {call : Call} {intent : Intent}
    (hp : prepare sha256 config w call = .ok intent) :
    (next sha256 collapse config w call).store.blocks
      = if kept collapse intent call then intent.desired else intent.previous := by
  rcases execute_cases sha256 collapse config w call with
    ⟨outcome, hp', -⟩ | ⟨intent', hp', ⟨hc, he⟩ | ⟨hc, he⟩ | ⟨hc, he⟩⟩
  · simp [hp] at hp'
  all_goals obtain rfl : intent = intent' := Except.ok.inj (hp.symm.trans hp')
  · simp [next, he, kept, hc, pendingStore, Store.save]
  · simp [next, he, kept, hc, pendingStore, Store.save]
  · rcases settle_cases collapse intent call with ⟨-, code, hs⟩ | ⟨-, r, hs, -, hstatus⟩
    · simp [next, he, kept, hc, hs, reply, Store.save]
    · have hne : r.status ≠ .error := by
        rcases hstatus with h | ⟨h, -⟩
        · simp [h]
        · simp [h]
      simp [next, he, kept, hc, hs, hne, Store.save]

theorem stored_desired (w : World) (now : ℚ) (networks : List Network) (key : Key) :
    ((w.store.desired now networks).find? key).map Block.expiresAt
      = (w.stored key).filter (survives now networks key) := by
  rw [find?_desired, World.stored]
  cases w.store.blocks.find? key with
  | none => rfl
  | some b =>
    by_cases h : running now b.expiresAt && !protectedIp key.ip networks
    · simp [Option.filter_some, survives, h]
    · simp [Option.filter_some, survives, h]

/-- **Step.** The stored block on a key changes as the call's changes say. -/
theorem stored_step (w : World) (call : Call) (key : Key) :
    (next sha256 collapse config w call).stored key
      = (changes sha256 collapse config w call).foldl (Change.apply key) (w.stored key) := by
  unfold changes
  cases hp : prepare sha256 config w call with
  | error outcome =>
    rcases execute_cases sha256 collapse config w call with ⟨outcome', -, he⟩ | ⟨intent, hp', -⟩
    · simp [next, he]
    · simp [hp] at hp'
  | ok intent =>
    obtain ⟨-, hprev, -, hmode⟩ := prepare_ok sha256 config hp
    have hsweep : (intent.previous.find? key).map Block.expiresAt
        = (w.stored key).filter (survives call.now call.networks key) := by
      rw [hprev, stored_desired]
    rw [World.stored, blocks_next sha256 collapse config hp, List.foldl_cons]
    change _ = List.foldl _ ((w.stored key).filter (survives call.now call.networks key)) _
    rw [← hsweep]
    -- Only a first execution changes more than the sweep does.
    cases hmode with
    | restore _ hwrites hdesired =>
      have htarget : intent.request.action.target = none := by
        cases haction : intent.request.action <;> simp_all [Action.target, Action.writes]
      simp [hdesired, htarget]
    | replay receipt _ hreceipt _ _ hdesired => simp [hdesired, hreceipt]
    | first hwrites hreceipt _ hdesired =>
      cases hkept : kept collapse intent call with
      | false => simp
      | true =>
        simp only [hreceipt, Option.isNone_none, Bool.and_self, if_true, hdesired]
        rw [find?_intend]
        cases haction : intent.request.action with
        | add k expiresAt ttl =>
          by_cases hk : k = key
          · simp [Action.target, Change.apply, hk]
          · simp [Action.target, Change.apply, hk]
        | delete k =>
          by_cases hk : k = key
          · simp [Action.target, Change.apply, hk]
          · simp [Action.target, Change.apply, hk]
        | status ip channel => simp [haction, Action.writes] at hwrites
        | check ip channel => simp [haction, Action.writes] at hwrites

/-! ### Whole runs -/

/-- **Run.** The stored block on a key is what the changes of the run make of it. -/
theorem stored_run (w : World) (calls : List Call) (key : Key) :
    (run (next sha256 collapse config) w calls).stored key
      = (trace (next sha256 collapse config) (changes sha256 collapse config) w
          calls).foldl (Change.apply key) (w.stored key) := by
  induction calls generalizing w with
  | nil => rfl
  | cons call calls ih =>
    rw [run_cons, ih, trace, List.foldl_append, stored_step]

/-- Every sweep in the list spares a block on the key with this deadline. -/
def survivesAll (key : Key) (list : List Change) (expiresAt : Option Int) : Bool :=
  list.all fun
    | .swept now networks => survives now networks key expiresAt
    | .executed _ _ _ => true

/-- After the last execution on a key only sweeps touch its block. -/
theorem foldl_apply_of_not_executed {key : Key} {list : List Change}
    (h : ∀ id b, .executed id key b ∉ list) (block : Option (Option Int)) :
    list.foldl (Change.apply key) block = block.filter (survivesAll key list) := by
  induction list generalizing block with
  | nil => cases block <;> simp [survivesAll, Option.filter]
  | cons change list ih =>
    have htail : ∀ id b, .executed id key b ∉ list := fun id b hmem =>
      h id b (List.mem_cons_of_mem _ hmem)
    rw [List.foldl_cons, ih htail]
    cases change with
    | swept now networks =>
      rw [Change.apply, Option.filter_filter]
      congr 1
    | executed id k b =>
      have hk : k ≠ key := fun hk => h id b (hk ▸ List.mem_cons_self)
      have hall : survivesAll key (.executed id k b :: list) = survivesAll key list := by
        funext expiresAt
        simp [survivesAll]
      rw [Change.apply, if_neg hk, hall]

/-! ### Receipts -/

/-- A writing call that comes to an intent stores its receipt. -/
theorem receipts_of_writes {w : World} {call : Call} {intent : Intent}
    (hp : prepare sha256 config w call = .ok intent)
    (hwrites : intent.request.action.writes = true) :
    ∃ r, ∀ id, (next sha256 collapse config w call).store.receipts.find? id
      = if intent.request.requestId = id then
          some ⟨intent.request.requestId, fingerprint sha256 intent.request, r⟩
        else w.store.receipts.find? id := by
  rcases execute_cases sha256 collapse config w call with
    ⟨outcome, hp', -⟩ | ⟨intent', hp', h⟩
  · simp [hp] at hp'
  obtain rfl : intent = intent' := Except.ok.inj (hp.symm.trans hp')
  rcases h with ⟨-, he⟩ | ⟨-, he⟩ | ⟨-, he⟩
  · refine ⟨reply intent.request .uncertain .pendingVerification, fun id => ?_⟩
    simp only [next, he, pendingStore, Store.save, hwrites, if_true]
    exact Table.find?_replace _ _ _
  · refine ⟨reply intent.request .uncertain .pendingVerification, fun id => ?_⟩
    simp only [next, he, pendingStore, Store.save, hwrites, if_true]
    exact Table.find?_replace _ _ _
  · refine ⟨(settle collapse intent call).2, fun id => ?_⟩
    simp only [next, he, pendingStore, Store.save, hwrites, if_true]
    rw [Table.find?_replace, Table.find?_replace]
    by_cases hid : intent.request.requestId = id
    · simp [hid]
    · simp [hid]

/-- Any other call leaves the receipts alone. -/
theorem receipts_next (w : World) (call : Call) :
    (next sha256 collapse config w call).store.receipts = w.store.receipts ∨
    ∃ intent, prepare sha256 config w call = .ok intent ∧
      intent.request.action.writes = true := by
  rcases execute_cases sha256 collapse config w call with
    ⟨outcome, -, he⟩ | ⟨intent, hp, h⟩
  · exact Or.inl (by rw [next, he])
  · by_cases hwrites : intent.request.action.writes = true
    · exact Or.inr ⟨intent, hp, hwrites⟩
    · refine Or.inl ?_
      rcases h with ⟨-, he⟩ | ⟨-, he⟩ | ⟨-, he⟩
      · simp [next, he, pendingStore, Store.save, hwrites]
      · simp [next, he, pendingStore, Store.save, hwrites]
      · simp [next, he, pendingStore, Store.save, hwrites]

/-- A receipt is never taken away. -/
theorem receipt_kept {w : World} (call : Call) {id : List Char}
    (h : (w.store.receipts.find? id).isSome) :
    ((next sha256 collapse config w call).store.receipts.find? id).isSome := by
  rcases receipts_next sha256 collapse config w call with hsame | ⟨intent, hp, hwrites⟩
  · rwa [hsame]
  · obtain ⟨r, hfind⟩ := receipts_of_writes sha256 collapse config hp hwrites
    rw [hfind]
    split
    · rfl
    · exact h

/-- The ids of the executions in a list of changes. -/
def executedIds (list : List Change) : List (List Char) :=
  list.filterMap fun
    | .executed id _ _ => some id
    | .swept _ _ => none

/-- A call executes at most the request it carries, and only without a receipt. -/
theorem executedIds_changes (w : World) (call : Call) :
    executedIds (changes sha256 collapse config w call) = [] ∨
    ∃ intent, prepare sha256 config w call = .ok intent ∧ w.receipt? intent.request = none ∧
      intent.request.action.writes = true ∧
      executedIds (changes sha256 collapse config w call) = [intent.request.requestId] := by
  unfold changes
  cases hp : prepare sha256 config w call with
  | error outcome => exact Or.inl rfl
  | ok intent =>
    cases hreceipt : w.receipt? intent.request with
    | some receipt => exact Or.inl (by simp [executedIds, hreceipt])
    | none =>
      cases hkept : kept collapse intent call with
      | false => exact Or.inl (by simp [executedIds, hkept])
      | true =>
        cases haction : intent.request.action with
        | add k expiresAt ttl =>
          exact Or.inr ⟨intent, rfl, hreceipt, by rw [haction]; rfl,
            by simp [executedIds, hreceipt, hkept, haction, Action.target]⟩
        | delete k =>
          exact Or.inr ⟨intent, rfl, hreceipt, by rw [haction]; rfl,
            by simp [executedIds, hreceipt, hkept, haction, Action.target]⟩
        | status ip channel =>
          exact Or.inl (by simp [executedIds, haction, Action.target])
        | check ip channel =>
          exact Or.inl (by simp [executedIds, haction, Action.target])

/-- Each id is executed at most once. -/
theorem executedIds_run (w : World) (calls : List Call) :
    (executedIds (trace (next sha256 collapse config) (changes sha256 collapse config) w
      calls)).Nodup ∧
    ∀ id ∈ executedIds (trace (next sha256 collapse config) (changes sha256 collapse config) w
      calls), w.store.receipts.find? id = none := by
  induction calls generalizing w with
  | nil => simp [trace, executedIds]
  | cons call calls ih =>
    obtain ⟨hnodup, hfresh⟩ := ih (next sha256 collapse config w call)
    have hback : ∀ id, (next sha256 collapse config w call).store.receipts.find? id = none →
        w.store.receipts.find? id = none := by
      intro id hnone
      by_contra hsome
      have := receipt_kept sha256 collapse config call (Option.isSome_iff_ne_none.mpr hsome)
      simp [hnone] at this
    have happ : executedIds (trace (next sha256 collapse config) (changes sha256 collapse config)
        w (call :: calls)) = executedIds (changes sha256 collapse config w call) ++
          executedIds (trace (next sha256 collapse config) (changes sha256 collapse config)
            (next sha256 collapse config w call) calls) := by
      simp [trace, executedIds]
    rw [happ]
    rcases executedIds_changes sha256 collapse config w call with
      hnone | ⟨intent, hp, hreceipt, hwrites, hone⟩
    · rw [hnone, List.nil_append]
      exact ⟨hnodup, fun id hid => hback id (hfresh id hid)⟩
    · obtain ⟨r, hfind⟩ := receipts_of_writes sha256 collapse config hp hwrites
      have hnew : intent.request.requestId ∉ executedIds (trace (next sha256 collapse config)
          (changes sha256 collapse config) (next sha256 collapse config w call) calls) := by
        intro hmem
        have := hfresh _ hmem
        simp [hfind] at this
      rw [hone, List.singleton_append, List.nodup_cons]
      refine ⟨⟨hnew, hnodup⟩, fun id hid => ?_⟩
      rcases List.mem_cons.mp hid with rfl | hid
      · exact hreceipt
      · exact hback id (hfresh id hid)

/-- Every stored receipt was left by an earlier request of its id. -/
theorem receipt_origin (firewall : Option Installed) (calls : List Call) :
    ∀ id receipt, (run (next sha256 collapse config) ⟨⟨.empty, .empty⟩, firewall⟩
        calls).store.receipts.find? id = some receipt →
      ∃ c ∈ calls, ∃ original, c.demand.read config = .ok original ∧ original.requestId = id ∧
        receipt.fingerprint = fingerprint sha256 original := by
  have hrun : ∀ (calls : List Call) (w : World) id receipt,
      (run (next sha256 collapse config) w calls).store.receipts.find? id = some receipt →
        w.store.receipts.find? id = some receipt ∨
        ∃ c ∈ calls, ∃ original, c.demand.read config = .ok original ∧ original.requestId = id ∧
          receipt.fingerprint = fingerprint sha256 original := by
    intro calls
    induction calls with
    | nil => intro w id receipt h; exact Or.inl h
    | cons call calls ih =>
      intro w id receipt h
      rcases ih _ id receipt h with h | ⟨c, hc, original, h⟩
      · rcases receipts_next sha256 collapse config w call with hsame | ⟨intent, hp, hwrites⟩
        · exact Or.inl (hsame ▸ h)
        · obtain ⟨r, hfind⟩ := receipts_of_writes sha256 collapse config hp hwrites
          rw [hfind] at h
          split at h
          · rename_i hid
            refine Or.inr ⟨call, List.mem_cons_self, intent.request,
              (prepare_ok sha256 config hp).1, hid, ?_⟩
            rw [← Option.some.inj h]
          · exact Or.inl h
      · exact Or.inr ⟨c, List.mem_cons_of_mem _ hc, original, h⟩
  intro id receipt h
  exact (hrun calls _ id receipt h).resolve_left (by simp)

/-! ### Retransmissions -/

/-- A request sent again under a settled receipt changes nothing. -/
theorem execute_of_settled {w : World} {call : Call} {request : Request} {receipt : Receipt}
    (hread : call.demand.read config = .ok request) (hwrites : request.action.writes = true)
    (hreceipt : w.receipt? request = some receipt)
    (hsettled : receipt.response.status ≠ .uncertain ∨
      receipt.fingerprint ≠ fingerprint sha256 request) :
    (execute sha256 collapse config w call).1 = w := by
  rcases execute_cases sha256 collapse config w call with ⟨outcome, -, he⟩ | ⟨intent, hp, -⟩
  · rw [he]
  · obtain ⟨hread', -, -, hmode⟩ := prepare_ok sha256 config hp
    obtain rfl := Except.ok.inj (hread.symm.trans hread')
    cases hmode with
    | restore _ hno _ => simp [hwrites] at hno
    | first _ hnone _ _ => simp [hnone] at hreceipt
    | replay receipt' _ hreceipt' hsame huncertain _ =>
      obtain rfl := Option.some.inj (hreceipt.symm.trans hreceipt')
      rcases hsettled with h | h
      · exact absurd huncertain h
      · exact absurd hsame h

/-- A taken id with other content is answered `request_id_conflict`. -/
theorem execute_of_conflict {w : World} {call : Call} {request : Request} {receipt : Receipt}
    (hread : call.demand.read config = .ok request) (hwrites : request.action.writes = true)
    (hreceipt : w.receipt? request = some receipt)
    (hother : receipt.fingerprint ≠ fingerprint sha256 request) :
    execute sha256 collapse config w call
      = (w, .replied (reply request .rejected .requestIdConflict)) := by
  have hconflict : conflicts sha256 request (w.receipt? request) = true := by
    simp [conflicts, hreceipt, hother]
  simp [execute, prepare, hread, existingReceipt_of_writes hwrites, hconflict]

/-- **A replayed request never overrides a later one.** In every world reached by a run of
calls from an empty store, with any crashes and firewall outcomes:

* the stored block on a key is the one its last kept first execution put there, unless a
  later call swept it out as expired or protected; a key never executed on has no block;
* an id is executed at most once, and a request whose id has a receipt executes nothing;
* a request whose receipt is not uncertain changes neither store nor firewall;
* a request whose id was taken by a request of other content is answered
  `request_id_conflict` and changes nothing, SHA-256 collisions apart. -/
theorem replay_never_overrides (firewall : Option Installed) (calls : List Call) :
    let start : World := ⟨⟨.empty, .empty⟩, firewall⟩
    let w := run (next sha256 collapse config) start calls
    let log := trace (next sha256 collapse config) (changes sha256 collapse config) start calls
    (∀ key before id block after, log = before ++ .executed id key block :: after →
      (∀ id' block', .executed id' key block' ∉ after) →
        w.stored key = block.filter (survivesAll key after)) ∧
    (∀ key, (∀ id block, .executed id key block ∉ log) → w.stored key = none) ∧
    (executedIds log).Nodup ∧
    ∀ call request receipt, call.demand.read config = .ok request →
      request.action.writes = true → w.receipt? request = some receipt →
        executedIds (changes sha256 collapse config w call) = [] ∧
        (receipt.response.status ≠ .uncertain →
          (execute sha256 collapse config w call).1 = w) ∧
        ∃ c ∈ calls, ∃ original, c.demand.read config = .ok original ∧
          original.requestId = request.requestId ∧
          (request.text ≠ original.text → sha256 request.text = sha256 original.text ∨
            execute sha256 collapse config w call
              = (w, .replied (reply request .rejected .requestIdConflict))) := by
  intro start w log
  have hstored : ∀ key, w.stored key = log.foldl (Change.apply key) none := fun key =>
    stored_run sha256 collapse config start calls key
  refine ⟨?_, ?_, (executedIds_run sha256 collapse config start calls).1, ?_⟩
  · intro key before id block after hlog hlast
    rw [hstored, hlog, List.foldl_append, List.foldl_cons, foldl_apply_of_not_executed hlast]
    simp [Change.apply]
  · intro key hnone
    rw [hstored, foldl_apply_of_not_executed hnone]
    rfl
  · intro call request receipt hread hwrites hreceipt
    refine ⟨?_, fun h => execute_of_settled sha256 collapse config hread hwrites hreceipt
      (Or.inl h), ?_⟩
    · rcases executedIds_changes sha256 collapse config w call with h | ⟨intent, hp, hnone, -, -⟩
      · exact h
      · obtain ⟨hread', -⟩ := prepare_ok sha256 config hp
        obtain rfl := Except.ok.inj (hread.symm.trans hread')
        simp [hnone] at hreceipt
    · obtain ⟨c, hc, original, hread', hid, hprint⟩ :=
        receipt_origin sha256 collapse config firewall calls _ _ hreceipt
      refine ⟨c, hc, original, hread', hid, fun _ => ?_⟩
      by_cases hsame : receipt.fingerprint = fingerprint sha256 request
      · exact Or.inl (hsame.symm.trans hprint)
      · exact Or.inr (execute_of_conflict sha256 collapse config hread hwrites hreceipt hsame)

end Calls

/-! ### A rejected request leaves no receipt -/

/-- The request with a deadline beyond the configured maximum. -/
def lateCall : Call := { addCall .refused .absent with demand := .request (addRaw 1700090000) }

/-- The request for an hour, sent a day too early. -/
def earlyCall : Call := { addCall .refused .absent with now := 1699900000 }

/-- **After a rejection the id is free.** A request rejected for its deadline leaves no
receipt: other content under its id is executed instead of answered
`request_id_conflict`, and so is the same request sent again once its deadline is in
range. -/
theorem rejected_id_executed :
    (lateCall.demand.read webConfig = .ok (addRequest 1700090000) ∧
      (addRequest 1700090000).text ≠ (addRequest 1700003600).text ∧
      (execute requestDigest id webConfig freshWorld lateCall).2
        = .replied (reply (addRequest 1700090000) .rejected .deadlineOutOfRange) ∧
      (execute requestDigest id webConfig (next requestDigest id webConfig freshWorld lateCall)
        (addCall (.timeout true) .absent)).2
        = .replied (reply (addRequest 1700003600) .uncertain .commandTimeout) ∧
      (execute requestDigest id webConfig (next requestDigest id webConfig freshWorld lateCall)
        (addCall (.timeout true) .absent)).1.stored webKey = some (some 1700003600)) ∧
    (execute requestDigest id webConfig freshWorld earlyCall).2
        = .replied (reply (addRequest 1700003600) .rejected .deadlineOutOfRange) ∧
      (execute requestDigest id webConfig (next requestDigest id webConfig freshWorld earlyCall)
        (addCall (.timeout true) .absent)).1.stored webKey = some (some 1700003600) := by
  refine ⟨⟨?_, ?_, ?_, ?_, ?_⟩, ?_, ?_⟩
  · have h : validateRequest webConfig (addRaw 1700090000) = .ok (addRequest 1700090000) := by
      decide +kernel
    exact h
  all_goals decide +kernel

end RiskOps.Control
