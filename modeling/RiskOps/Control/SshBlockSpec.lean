import RiskOps.Control.SshBlockControl

/-!
# RiskOps.Control.SshBlockSpec — what one call of the helper can do

**One inversion lemma for `execute`.** A call either stops before it stores anything,
or it has an *intent*: the blocks to store, which are the running unprotected blocks
it started from, changed by its action when this is the first execution of the
request. Everything proved about runs of the helper goes through `Mode` and
`execute_cases`.
-/

namespace RiskOps.Control

open RiskOps.Lib

/-! ### Tables of blocks -/

theorem mem_desired {store : Store} {now : ℚ} {networks : List Network} {b : Block} :
    b ∈ store.desired now networks ↔
      b ∈ store.blocks ∧ running now b.expiresAt = true ∧ protectedIp b.key.ip networks = false := by
  simp [Store.desired, Table.mem_delete]

/-- What `desired` finds under a key. -/
theorem find?_desired (store : Store) (now : ℚ) (networks : List Network) (key : Key) :
    (store.desired now networks).find? key
      = (store.blocks.find? key).filter fun b =>
          running now b.expiresAt && !protectedIp key.ip networks := by
  cases hf : store.blocks.find? key with
  | none =>
    refine Table.find?_eq_none_iff.mpr fun b hb => ?_
    exact Table.find?_eq_none_iff.mp hf b (Iff.mp mem_desired hb).1
  | some b =>
    obtain ⟨hmem, rfl⟩ := Table.find?_eq_some_iff.mp hf
    by_cases hkeep : running now b.expiresAt && !protectedIp b.key.ip networks
    · rw [Option.filter_some, if_pos hkeep]
      simp only [Bool.and_eq_true, Bool.not_eq_true'] at hkeep
      exact Table.find?_eq_some_iff.mpr ⟨Iff.mpr mem_desired ⟨hmem, hkeep⟩, rfl⟩
    · rw [Option.filter_some, if_neg hkeep]
      refine Table.find?_eq_none_iff.mpr fun b' hb' hkey => hkeep ?_
      obtain ⟨hb', hrun, hprot⟩ := Iff.mp mem_desired hb'
      obtain rfl := Table.eq_of_key_eq hb' hmem hkey
      simp [hrun, hprot]

theorem mem_replace {t : Table Block.key} {b b' : Block} (h : b' ∈ t.replace b) :
    b' ∈ t ∨ b' = b := by
  have hf := Table.find?_of_mem h
  rw [Table.find?_replace] at hf
  by_cases hk : b.key = b'.key
  · rw [if_pos hk] at hf
    exact Or.inr (Option.some.inj hf).symm
  · rw [if_neg hk] at hf
    exact Or.inl (Table.mem_of_find? hf)

/-- What an action's intent finds under a key. -/
theorem find?_intend (action : Action) (desired : Table Block.key) (key : Key) :
    (action.intend desired).find? key =
      match action with
      | .add k expiresAt _ => if k = key then some ⟨k, expiresAt⟩ else desired.find? key
      | .delete k => if k = key then none else desired.find? key
      | _ => desired.find? key := by
  cases action with
  | add k expiresAt ttl => exact Table.find?_replace desired ⟨k, expiresAt⟩ key
  | delete k =>
    simp only [Action.intend]
    by_cases hk : k = key
    · rw [if_pos hk]
      refine Table.find?_eq_none_iff.mpr fun b hb hkey => ?_
      have := (Table.mem_delete.mp hb).2
      simp [hkey, hk] at this
    · rw [if_neg hk]
      cases hf : desired.find? key with
      | none =>
        exact Table.find?_eq_none_iff.mpr fun b hb =>
          Table.find?_eq_none_iff.mp hf b (Table.mem_delete.mp hb).1
      | some b =>
        obtain ⟨hmem, hkey⟩ := Table.find?_eq_some_iff.mp hf
        refine Table.find?_eq_some_iff.mpr ⟨Table.mem_delete.mpr ⟨hmem, ?_⟩, hkey⟩
        simpa [hkey] using fun h : key = k => hk h.symm
  | status ip channel => rfl
  | check ip channel => rfl

section Calls

variable (sha256 : List Char → List Char) (collapse : List Network → List Network)
variable (config : Config)

/-! ### The intent of a call -/

/-- The receipt stored under the request's id. -/
def World.receipt? (w : World) (request : Request) : Option Receipt :=
  w.store.receipts.find? request.requestId

/-- How a call comes to its intent. -/
inductive Mode (w : World) (call : Call) (intent : Intent) : Prop where
  /-- `--restore` reapplies what is stored. -/
  | restore (h : call.demand.restores = true) (hwrites : intent.request.action.writes = false)
      (hdesired : intent.desired = intent.previous)
  /-- An uncertain request sent again reapplies what is stored. -/
  | replay (receipt : Receipt) (hwrites : intent.request.action.writes = true)
      (hreceipt : w.receipt? intent.request = some receipt)
      (hsame : receipt.fingerprint = fingerprint sha256 intent.request)
      (huncertain : receipt.response.status = .uncertain)
      (hdesired : intent.desired = intent.previous)
  /-- A request without receipt is executed. -/
  | first (hwrites : intent.request.action.writes = true)
      (hreceipt : w.receipt? intent.request = none)
      (hallowed : refusal config intent.request.action call.networks call.now = none)
      (hdesired : intent.desired = intent.request.action.intend intent.previous)

/-- Only a request writes; `--restore` makes a `check`. -/
theorem not_restores_of_writes {demand : Demand} {request : Request}
    (h : demand.read config = .ok request) (hwrites : request.action.writes = true) :
    demand.restores = false := by
  cases demand with
  | request raw => rfl
  | restore stamp =>
    rw [← Except.ok.inj h] at hwrites
    exact absurd hwrites Bool.false_ne_true

theorem existingReceipt_of_writes {w : World} {request : Request}
    (hwrites : request.action.writes = true) :
    existingReceipt w.store request = w.receipt? request := by
  simp [existingReceipt, hwrites, World.receipt?]

theorem existingReceipt_of_not_writes {w : World} {request : Request}
    (hwrites : request.action.writes = false) : existingReceipt w.store request = none := by
  simp [existingReceipt, hwrites]

/-- A call that gets past the first read. -/
theorem prepare_eq {w : World} {call : Call} {result : Except Outcome Intent}
    (h : prepare sha256 config w call = result) :
    (∃ code, result = .error (.raised code)) ∨
    ∃ request, call.demand.read config = .ok request ∧
      ((conflicts sha256 request (existingReceipt w.store request) = true ∧
          result = .error (.replied (reply request .rejected .requestIdConflict))) ∨
        ∃ actual, conflicts sha256 request (existingReceipt w.store request) = false ∧
          call.read.blocks call.now = .ok actual ∧
          plan config call request (existingReceipt w.store request)
            (w.store.desired call.now call.networks) actual = result) := by
  unfold prepare at h
  cases hread : call.demand.read config with
  | error code =>
    simp only [hread] at h
    exact Or.inl ⟨code, h.symm⟩
  | ok request =>
    simp only [hread] at h
    by_cases hconflict : conflicts sha256 request (existingReceipt w.store request) = true
    · rw [if_pos hconflict] at h
      exact Or.inr ⟨request, rfl, Or.inl ⟨hconflict, h.symm⟩⟩
    · rw [if_neg hconflict] at h
      cases hblocks : call.read.blocks call.now with
      | error code =>
        simp only [hblocks] at h
        exact Or.inl ⟨code, h.symm⟩
      | ok actual =>
        simp only [hblocks] at h
        exact Or.inr ⟨request, rfl, Or.inr ⟨actual, by simpa using hconflict, rfl, h⟩⟩

/-- **Inversion of the first half**, when it comes to an intent. -/
theorem prepare_ok {w : World} {call : Call} {intent : Intent}
    (h : prepare sha256 config w call = .ok intent) :
    call.demand.read config = .ok intent.request ∧
      intent.previous = w.store.desired call.now call.networks ∧
      intent.desired.rows.length ≤ maxBlocks ∧ Mode sha256 config w call intent := by
  rcases prepare_eq sha256 config h with
    ⟨code, hc⟩ | ⟨request, hread, ⟨-, hc⟩ | ⟨actual, hsame, -, hplan⟩⟩
  · simp at hc
  · simp at hc
  unfold plan at hplan
  split at hplan
  · simp at hplan
  rename_i hgo
  split at hplan
  · simp at hplan
  rename_i hfresh
  split at hplan
  · simp at hplan
  rename_i hrefusal
  split at hplan
  · simp at hplan
  rename_i hcapacity
  obtain rfl := Except.ok.inj hplan
  refine ⟨hread, rfl, by simpa using hcapacity, ?_⟩
  by_cases hwrites : request.action.writes = true
  · have hrequest := not_restores_of_writes config hread hwrites
    rw [existingReceipt_of_writes hwrites] at hsame hfresh hrefusal ⊢
    cases hreceipt : w.receipt? request with
    | none =>
      refine Mode.first hwrites hreceipt ?_ ?_
      · simpa [reconciles, hrequest, hreceipt] using hrefusal
      · simp [intended, reconciles, hrequest]
    | some receipt =>
      have huncertain : receipt.response.status = .uncertain := by
        simpa [reconciles, hrequest, hreceipt] using hfresh
      refine Mode.replay receipt hwrites hreceipt ?_ huncertain ?_
      · simpa [conflicts, hreceipt] using hsame
      · simp [intended, reconciles, huncertain]
  · have hrestores : call.demand.restores = true := by simpa [hwrites] using hgo
    exact Mode.restore hrestores (by simpa using hwrites) (by simp [intended, reconciles, hrestores])

/-- How a call can end before it stores anything. -/
inductive Stop (w : World) (call : Call) : Outcome → Prop where
  | raised (code : Code) : Stop w call (.raised code)
  /-- The id is taken by a request of other content. -/
  | conflict {request : Request} (receipt : Receipt) (hread : call.demand.read config = .ok request)
      (hwrites : request.action.writes = true) (hreceipt : w.receipt? request = some receipt)
      (hother : receipt.fingerprint ≠ fingerprint sha256 request) :
      Stop w call (.replied (reply request .rejected .requestIdConflict))
  /-- `status`, `check`, or a request whose receipt is not uncertain. -/
  | observed {r : Reply} (hread : call.demand.read config = .ok r.request) (hstatus : r.status = .ok)
      (hreceipt : r.request.action.writes = true → ∃ receipt, w.receipt? r.request = some receipt ∧
        receipt.fingerprint = fingerprint sha256 r.request ∧ receipt.response.status ≠ .uncertain) :
      Stop w call (.replied r)
  /-- A first request that is refused. -/
  | refused {request : Request} (code : Code) (hread : call.demand.read config = .ok request)
      (hwrites : request.action.writes = true) (hreceipt : w.receipt? request = none) :
      Stop w call (.replied (refuse request code))
  /-- Too many blocks. -/
  | capacity {request : Request} (hread : call.demand.read config = .ok request)
      (hactual : ∃ actual, call.read.blocks call.now = .ok actual)
      (hfull : maxBlocks < (intended call request (existingReceipt w.store request)
        (w.store.desired call.now call.networks)).rows.length)
      (hreceipt : request.action.writes = true → ∀ receipt, w.receipt? request = some receipt →
        receipt.fingerprint = fingerprint sha256 request ∧ receipt.response.status = .uncertain) :
      Stop w call (.replied (reply request .rejected .capacityReached))

/-- **Inversion of the first half**, when it stops. -/
theorem prepare_error {w : World} {call : Call} {outcome : Outcome}
    (h : prepare sha256 config w call = .error outcome) : Stop sha256 config w call outcome := by
  rcases prepare_eq sha256 config h with
    ⟨code, hc⟩ | ⟨request, hread, ⟨hconflict, hc⟩ | ⟨actual, hsame, hactual, hplan⟩⟩
  · obtain rfl := Except.error.inj hc
    exact .raised code
  · obtain rfl := Except.error.inj hc
    by_cases hwrites : request.action.writes = true
    · rw [existingReceipt_of_writes hwrites] at hconflict
      cases hreceipt : w.receipt? request with
      | none => simp [conflicts, hreceipt] at hconflict
      | some receipt =>
        exact .conflict receipt hread hwrites hreceipt
          (by simpa [conflicts, hreceipt] using hconflict)
    · rw [existingReceipt_of_not_writes (by simpa using hwrites)] at hconflict
      simp [conflicts] at hconflict
  unfold plan at hplan
  split at hplan
  · rename_i hquery
    obtain rfl := Except.error.inj hplan
    refine .observed hread rfl fun hwrites => ?_
    change request.action.writes = true at hwrites
    simp [hwrites] at hquery
  split at hplan
  · rename_i hgo hfresh
    obtain rfl := Except.error.inj hplan
    refine .observed hread rfl fun hwrites => ?_
    change request.action.writes = true at hwrites
    have hrequest := not_restores_of_writes config hread hwrites
    rw [existingReceipt_of_writes hwrites] at hsame hfresh
    cases hreceipt : w.receipt? request with
    | none => simp [hreceipt] at hfresh
    | some receipt =>
      have hprint : receipt.fingerprint = fingerprint sha256 request := by
        simpa [conflicts, hreceipt] using hsame
      exact ⟨receipt, hreceipt, hprint, by simpa [reconciles, hrequest, hreceipt] using hfresh⟩
  rename_i hgo hfresh
  split at hplan
  · rename_i code hrefusal
    obtain rfl := Except.error.inj hplan
    have hnot : reconciles call (existingReceipt w.store request) = false := by
      by_contra hrec
      simp [hrec] at hrefusal
    have hwrites : request.action.writes = true := by
      by_contra hno
      simp only [reconciles, Bool.or_eq_false_iff] at hnot
      simp [hno, hnot.1] at hgo
    refine .refused code hread hwrites ?_
    rw [existingReceipt_of_writes hwrites] at hfresh hnot
    simpa [hnot] using hfresh
  split at hplan
  · rename_i hfull
    obtain rfl := Except.error.inj hplan
    refine .capacity hread ⟨actual, hactual⟩ hfull fun hwrites receipt hreceipt => ?_
    have hrequest := not_restores_of_writes config hread hwrites
    rw [existingReceipt_of_writes hwrites, hreceipt] at hsame hfresh
    exact ⟨by simpa [conflicts] using hsame, by simpa [reconciles, hrequest] using hfresh⟩
  · simp at hplan

/-! ### The second half -/

/-- The batch was refused or could not start, or it was applied and the command that
reads it back could not start. -/
def FailsDefinitely (call : Call) : Prop :=
  call.batch = .refused ∨ call.batch = .unavailable ∨
    call.batch = .done ∧ call.readback = .failed .unavailable

theorem listedBlocks_not_definite {now : ℚ} {code : Code} {es : List ListedElement}
    {found : List (Key × Option ℚ)} (h : listedBlocks now es found = .error code) :
    definite code = false := by
  induction es generalizing found with
  | nil => simp [listedBlocks] at h
  | cons e es ih =>
    unfold listedBlocks at h
    cases hip : canonicalIp e.val with
    | error c =>
      have hc : c = .invalidIp := by
        unfold canonicalIp at hip
        repeat' split at hip
        all_goals simp_all
      simp only [hip, Except.error.injEq] at h
      rw [← h, hc]
      rfl
    | ok ip =>
      simp only [hip] at h
      split at h
      · rw [← Except.error.inj h]; rfl
      split at h
      · rw [← Except.error.inj h]; rfl
      split at h
      · rw [← Except.error.inj h]; rfl
      · exact ih h

/-- The readback fails definitely only when its command cannot start. -/
theorem verify_definite {networks : List Network} {desired : Table Block.key}
    {readback : ReadOutcome} {now : ℚ} {code : Code}
    (h : verify collapse networks desired readback now = .error code) :
    definite code = true ↔ readback = .failed .unavailable := by
  cases readback with
  | failed failure =>
    rw [← Except.error.inj h]
    cases failure <;> simp [definite, ReadFailure.code]
  | absent =>
    rw [← Except.error.inj h]
    simp [definite]
  | table listing =>
    simp only [reduceCtorEq, iff_false, Bool.not_eq_true]
    unfold verify at h
    simp only at h
    split at h
    · rw [← Except.error.inj h]; rfl
    split at h
    · rename_i hblocks
      rw [← Except.error.inj h]
      exact listedBlocks_not_definite hblocks
    split at h
    · simp at h
    · rw [← Except.error.inj h]; rfl

/-- **Inversion of the second half.** A definite failure falls back to the blocks
before the request and answers `error`; anything else keeps the intent. -/
theorem settle_cases (intent : Intent) (call : Call) :
    (FailsDefinitely call ∧ ∃ code,
      settle collapse intent call = (intent.previous, reply intent.request .error code)) ∨
    (¬ FailsDefinitely call ∧ ∃ r, settle collapse intent call = (intent.desired, r) ∧
      r.request = intent.request ∧
      (r.status = .uncertain ∨ r.status = .ok ∧ ∃ actual,
        batchAnswer collapse intent call = .ok actual)) := by
  have hanswer : ∀ code, batchAnswer collapse intent call = .error code →
      (definite code = true ↔ FailsDefinitely call) := by
    intro code h
    unfold batchAnswer at h
    cases hb : call.batch with
    | done =>
      rw [hb] at h
      simpa [FailsDefinitely, hb] using verify_definite collapse h
    | refused => rw [hb] at h; rw [← Except.error.inj h]; simp [FailsDefinitely, hb, definite]
    | unavailable => rw [hb] at h; rw [← Except.error.inj h]; simp [FailsDefinitely, hb, definite]
    | timeout applied => rw [hb] at h; rw [← Except.error.inj h]; simp [FailsDefinitely, hb, definite]
    | tooLong applied => rw [hb] at h; rw [← Except.error.inj h]; simp [FailsDefinitely, hb, definite]
    | unreadable applied =>
      rw [hb] at h; rw [← Except.error.inj h]; simp [FailsDefinitely, hb, definite]
  unfold settle
  cases hans : batchAnswer collapse intent call with
  | ok actual =>
    refine Or.inr ⟨?_, _, rfl, rfl, Or.inr ⟨rfl, actual, rfl⟩⟩
    rintro (hb | hb | ⟨hb, hread⟩)
    · simp [batchAnswer, hb, BatchOutcome.code?] at hans
    · simp [batchAnswer, hb, BatchOutcome.code?] at hans
    · simp [batchAnswer, hb, BatchOutcome.code?, verify, hread] at hans
  | error code =>
    by_cases hdef : definite code = true
    · exact Or.inl ⟨(hanswer code hans).mp hdef, code, by simp [hdef]⟩
    · refine Or.inr ⟨fun hf => hdef ((hanswer code hans).mpr hf),
        reply intent.request .uncertain code, by simp [hdef], rfl, Or.inl rfl⟩

/-! ### The whole call -/

/-- The world after a call. -/
def next (w : World) (call : Call) : World := (execute sha256 collapse config w call).1

/-- **Inversion of `execute`.** -/
theorem execute_cases (w : World) (call : Call) :
    (∃ outcome, prepare sha256 config w call = .error outcome ∧
      execute sha256 collapse config w call = (w, outcome)) ∨
    ∃ intent, prepare sha256 config w call = .ok intent ∧
      ((call.crash = some .beforeApply ∧ execute sha256 collapse config w call
          = (⟨pendingStore sha256 w intent, w.firewall⟩, .crashed)) ∨
        (call.crash = some .afterApply ∧ execute sha256 collapse config w call
          = (⟨pendingStore sha256 w intent, appliedFirewall config w intent call⟩, .crashed)) ∨
        (call.crash = none ∧ execute sha256 collapse config w call
          = (⟨(pendingStore sha256 w intent).save sha256 (settle collapse intent call).1
                intent.request (settle collapse intent call).2,
              appliedFirewall config w intent call⟩,
            .replied (settle collapse intent call).2))) := by
  unfold execute
  cases hp : prepare sha256 config w call with
  | error outcome => exact Or.inl ⟨outcome, rfl, rfl⟩
  | ok intent =>
    refine Or.inr ⟨intent, rfl, ?_⟩
    cases hc : call.crash with
    | none => exact Or.inr (Or.inr ⟨rfl, by simp⟩)
    | some crash =>
      cases crash with
      | beforeApply => exact Or.inl ⟨rfl, by simp⟩
      | afterApply => exact Or.inr (Or.inl ⟨rfl, by simp⟩)

end Calls

end RiskOps.Control
