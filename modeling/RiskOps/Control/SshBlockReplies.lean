import RiskOps.Control.SshBlockSpec

/-!
# RiskOps.Control.SshBlockReplies — when a definite failure reply is truthful

**`error` and `rejected` promise that the request has no effect.** A reply is compared
with `base`, the world as it would be had the request's id never been sent: on a first
delivery that is the world before the call, on the replay of an uncertain request it
is whatever the earlier deliveries started from.

The promise is kept except in two situations, and exactly then (`truthful_iff`):

* the batch is applied and the command that reads it back cannot be started: the
  failure carries the code of a batch that never ran, and is taken for one;
* an uncertain request is replayed and refused, while an earlier delivery has left its
  intent: the blocks to fall back to already contain it.
-/

namespace RiskOps.Control

open RiskOps.Lib

/-! ### Comparing worlds -/

/-- The element the firewall holds on a key, with its deadline. -/
def installedOn (firewall : Option Installed) (key : Key) : Option (Option ℚ) :=
  firewall.bind fun sets => (sets.block key.channel key.ip.version).lookup key.ip

/-- The stored blocks agree, except for expired and protected ones. -/
def SameStored (now : ℚ) (networks : List Network) (store base : Store) : Prop :=
  ∀ key, (store.desired now networks).find? key = (base.desired now networks).find? key

/-- The installed sets agree, except for expired and protected elements. -/
def SameInstalled (now : ℚ) (networks : List Network) (firewall base : Option Installed) : Prop :=
  ∀ key, protectedIp key.ip networks = false → ∀ expiry : Option ℚ,
    (expiry.all fun e : ℚ => decide (now < e)) = true →
      (installedOn firewall key = some expiry ↔ installedOn base key = some expiry)

/-- The world is what it would be without the request. -/
def Untouched (call : Call) (base w : World) : Prop :=
  SameStored call.now call.networks w.store base.store ∧
    SameInstalled call.now call.networks w.firewall base.firewall

theorem SameStored.refl (now : ℚ) (networks : List Network) (store : Store) :
    SameStored now networks store store := fun _ => rfl

theorem SameInstalled.refl (now : ℚ) (networks : List Network) (firewall : Option Installed) :
    SameInstalled now networks firewall firewall := fun _ _ _ _ => Iff.rfl

theorem Untouched.refl (call : Call) (w : World) : Untouched call w w :=
  ⟨.refl _ _ _, .refl _ _ _⟩

/-- Falling back to `desired` stores the same blocks up to expired and protected ones. -/
theorem sameStored_of_blocks {now : ℚ} {networks : List Network} {store store' base : Store}
    (h : store'.blocks = store.desired now networks) :
    SameStored now networks store' base ↔ SameStored now networks store base := by
  have hsame : ∀ key, (store'.desired now networks).find? key
      = (store.desired now networks).find? key := by
    intro key
    rw [find?_desired, h, find?_desired, Option.filter_filter]
    simp
  simp only [SameStored, hsame]

section Calls

variable (sha256 : List Char → List Char) (collapse : List Network → List Network)
variable (config : Config)

/-- How the request comes in: for the first time, or again while its receipt is
uncertain. `base` is the world without the request. -/
inductive Delivery (w base : World) (request : Request) : Prop where
  | first (hreceipt : w.receipt? request = none) (hbase : base = w)
  | replay (receipt : Receipt) (hreceipt : w.receipt? request = some receipt)
      (hsame : receipt.fingerprint = fingerprint sha256 request)
      (huncertain : receipt.response.status = .uncertain)

/-- A definite failure reply leaves the world as it would be without the request. -/
def Truthful (w base : World) (call : Call) : Prop :=
  ∀ r, (execute sha256 collapse config w call).2 = .replied r →
    r.status = .error ∨ r.status = .rejected →
      Untouched call base (execute sha256 collapse config w call).1

/-- When definite failure replies are truthful. The first two conditions are about calls
that come to an intent and return, the last about a store beyond its capacity. -/
structure HoldsWhen (w base : World) (call : Call) (request : Request) : Prop where
  /-- A refused batch leaves what the earlier deliveries left, which must be nothing. -/
  refused : ∀ intent, prepare sha256 config w call = .ok intent → call.crash = none →
    call.batch = .refused ∨ call.batch = .unavailable → Untouched call base w
  /-- If the readback cannot start, the batch must not have changed anything. -/
  readback : ∀ intent, prepare sha256 config w call = .ok intent → call.crash = none →
    call.batch = .done → call.readback = .failed .unavailable →
      SameStored call.now call.networks w.store base.store ∧
        SameInstalled call.now call.networks (appliedFirewall config w intent call) base.firewall
  /-- A replay over capacity is rejected as the earlier deliveries left it. -/
  full : (∃ actual, call.read.blocks call.now = .ok actual) → w.receipt? request ≠ none →
    maxBlocks < (w.store.desired call.now call.networks).rows.length → Untouched call base w

/-- What a call that fails definitely leaves behind. -/
theorem execute_of_failsDefinitely {w : World} {call : Call} {intent : Intent}
    (hp : prepare sha256 config w call = .ok intent) (hcrash : call.crash = none)
    (hfails : FailsDefinitely call) :
    ∃ code store, store.blocks = w.store.desired call.now call.networks ∧
      execute sha256 collapse config w call
        = (⟨store, appliedFirewall config w intent call⟩,
            .replied (reply intent.request .error code)) := by
  obtain ⟨-, hprev, -, -⟩ := prepare_ok sha256 config hp
  rcases settle_cases collapse intent call with ⟨-, code, hs⟩ | ⟨hnot, -⟩
  · rcases execute_cases sha256 collapse config w call with
      ⟨outcome, hp', -⟩ | ⟨intent', hp', ⟨hc, -⟩ | ⟨hc, -⟩ | ⟨-, he⟩⟩
    · simp [hp] at hp'
    · simp [hcrash] at hc
    · simp [hcrash] at hc
    · obtain rfl : intent = intent' := Except.ok.inj (hp.symm.trans hp')
      exact ⟨code, _, hprev, by rw [he, hs]⟩
  · exact absurd hfails hnot

/-- A replay over a store beyond its capacity is rejected. -/
theorem prepare_of_full {w : World} {call : Call} {request : Request} {receipt : Receipt}
    {actual : List (Key × Option ℚ)} (hread : call.demand.read config = .ok request)
    (hwrites : request.action.writes = true) (hreceipt : w.receipt? request = some receipt)
    (hsame : receipt.fingerprint = fingerprint sha256 request)
    (huncertain : receipt.response.status = .uncertain)
    (hactual : call.read.blocks call.now = .ok actual)
    (hfull : maxBlocks < (w.store.desired call.now call.networks).rows.length) :
    prepare sha256 config w call
      = .error (.replied (reply request .rejected .capacityReached)) := by
  have hrec : reconciles call (some receipt) = true := by simp [reconciles, huncertain]
  have hplan : plan config call request (some receipt) (w.store.desired call.now call.networks)
      actual = .error (.replied (reply request .rejected .capacityReached)) := by
    simp [plan, hwrites, hrec, intended, hfull]
  have hok : conflicts sha256 request (some receipt) = false := by simp [conflicts, hsame]
  simp only [prepare, hread, existingReceipt_of_writes hwrites, hreceipt, hok, hactual, hplan,
    Bool.false_eq_true, if_false]

/-- **When a definite failure reply is truthful.** For every store state, request and
outcome of the firewall commands, exactly under `HoldsWhen`. -/
theorem truthful_iff (w base : World) (call : Call) (request : Request)
    (hread : call.demand.read config = .ok request) (hwrites : request.action.writes = true)
    (hdelivery : Delivery sha256 w base request) :
    Truthful sha256 collapse config w base call ↔ HoldsWhen sha256 config w base call request := by
  constructor
  · intro h
    refine ⟨?_, ?_, ?_⟩
    · intro intent hp hcrash hbatch
      have hfails : FailsDefinitely call := hbatch.imp_right Or.inl
      obtain ⟨code, store, hblocks, hex⟩ :=
        execute_of_failsDefinitely sha256 collapse config hp hcrash hfails
      have hpost := h _ (by rw [hex]) (Or.inl rfl)
      have hkept : appliedFirewall config w intent call = w.firewall := by
        rcases hbatch with hbatch | hbatch
        · simp [appliedFirewall, hbatch, BatchOutcome.applied]
        · simp [appliedFirewall, hbatch, BatchOutcome.applied]
      rw [hex, hkept] at hpost
      exact ⟨(sameStored_of_blocks hblocks).mp hpost.1, hpost.2⟩
    · intro intent hp hcrash hbatch hback
      obtain ⟨code, store, hblocks, hex⟩ :=
        execute_of_failsDefinitely sha256 collapse config hp hcrash (Or.inr (Or.inr ⟨hbatch, hback⟩))
      have hpost := h _ (by rw [hex]) (Or.inl rfl)
      rw [hex] at hpost
      exact ⟨(sameStored_of_blocks hblocks).mp hpost.1, hpost.2⟩
    · rintro ⟨actual, hactual⟩ hsent hfull
      cases hdelivery with
      | first hreceipt _ => exact absurd hreceipt hsent
      | replay receipt hreceipt hsame huncertain =>
        have hp := prepare_of_full sha256 config hread hwrites hreceipt hsame huncertain hactual hfull
        have hex : execute sha256 collapse config w call
            = (w, .replied (reply request .rejected .capacityReached)) := by
          simp [execute, hp]
        have hpost := h _ (by rw [hex]) (Or.inr rfl)
        rw [hex] at hpost
        exact hpost
  · intro h r hr hstatus
    rcases execute_cases sha256 collapse config w call with
      ⟨outcome, hp, he⟩ | ⟨intent, hp, ⟨-, he⟩ | ⟨-, he⟩ | ⟨hcrash, he⟩⟩
    · rw [he] at hr ⊢
      change outcome = .replied r at hr
      subst hr
      change Untouched call base w
      cases prepare_error sha256 config hp with
      | conflict receipt hread' _ hreceipt hother =>
        obtain rfl := Except.ok.inj (hread.symm.trans hread')
        cases hdelivery with
        | first hnone _ => simp [hnone] at hreceipt
        | replay receipt' hreceipt' hsame _ =>
          obtain rfl := Option.some.inj (hreceipt.symm.trans hreceipt')
          exact absurd hsame hother
      | observed _ hok _ => simp [hok] at hstatus
      | refused code hread' _ hnone =>
        obtain rfl := Except.ok.inj (hread.symm.trans hread')
        cases hdelivery with
        | first _ hbase => exact hbase ▸ Untouched.refl call w
        | replay receipt hreceipt _ _ => simp [hnone] at hreceipt
      | capacity hread' hactual hfull _ =>
        obtain rfl := Except.ok.inj (hread.symm.trans hread')
        cases hdelivery with
        | first _ hbase => exact hbase ▸ Untouched.refl call w
        | replay receipt hreceipt _ huncertain =>
          refine h.full hactual (by simp [hreceipt]) ?_
          simpa [existingReceipt_of_writes hwrites, hreceipt, intended, reconciles, huncertain]
            using hfull
    · simp [he] at hr
    · simp [he] at hr
    · rcases settle_cases collapse intent call with ⟨hfails, -⟩ | ⟨-, r', hs, -, hstat⟩
      · obtain ⟨code, store, hblocks, hex⟩ :=
          execute_of_failsDefinitely sha256 collapse config hp hcrash hfails
        rw [hex]
        rcases hfails with hbatch | hbatch | ⟨hbatch, hback⟩
        · have hbase := h.refused intent hp hcrash (Or.inl hbatch)
          refine ⟨(sameStored_of_blocks hblocks).mpr hbase.1, ?_⟩
          simpa [appliedFirewall, hbatch, BatchOutcome.applied] using hbase.2
        · have hbase := h.refused intent hp hcrash (Or.inr hbatch)
          refine ⟨(sameStored_of_blocks hblocks).mpr hbase.1, ?_⟩
          simpa [appliedFirewall, hbatch, BatchOutcome.applied] using hbase.2
        · have hbase := h.readback intent hp hcrash hbatch hback
          exact ⟨(sameStored_of_blocks hblocks).mpr hbase.1, hbase.2⟩
      · rw [he, hs] at hr
        obtain rfl : r' = r := by simpa using hr
        rcases hstat with hstat | ⟨hstat, -⟩
        · simp [hstat] at hstatus
        · simp [hstat] at hstatus

end Calls

/-! ### A block that stays after an `error` -/

/-- A host with SSH on port 22. -/
def webConfig : Config := ⟨"web-1".toList, [22], 86400⟩

/-- `add` of `203.0.113.9` on the `ssh` channel until `deadline`. -/
def addRaw (deadline : Int) : Json :=
  .obj [("version".toList, .int 1), ("source_id".toList, .str "web-1".toList),
    ("action".toList, .str "add".toList), ("request_id".toList, .str "r1".toList),
    ("ip".toList, .str "203.0.113.9".toList), ("channel".toList, .str "ssh".toList),
    ("expires_at".toList, .int deadline)]

/-- The block it asks for. -/
def webKey : Key := ⟨⟨.v4 3405803785, rfl⟩, .ssh⟩

/-- The request `addRaw` is read as. -/
def addRequest (deadline : Int) : Request :=
  ⟨"web-1".toList, "r1".toList, .add webKey (some deadline) none⟩

/-- SHA-256 on the texts of the requests until 1700003600 and 1700090000. -/
def requestDigest (text : List Char) : List Char :=
  if text = (addRequest 1700003600).text then
    "18c9826e90579fd5b6593838c1700df0f78e8042e1865feb4ecbb7bb609afbc1".toList
  else "5cb8cb02dde79474c029b2b343f54c36d4c626cebabc4780e52ff2e3566e8287".toList

/-- A request for an hour delivered with `192.0.2.0/24` protected, on a host without the
table. -/
def addCall (batch : BatchOutcome) (readback : ReadOutcome) : Call :=
  { demand := .request (addRaw 1700003600)
    networks := [.v4 3221225984 24]
    now := 1700000000
    applyNow := 1700000000
    readNow := 1700000001
    read := .absent
    batch := batch
    readback := readback
    crash := none }

/-- `203.0.113.0/24`. -/
def blockedNetwork : Network := .v4 3405803776 24

/-- The sets after the block took effect, a second later. -/
def addedListing : Listing :=
  ⟨some (addCall .done .absent).networks,
    [⟨.ssh, .four, .str "203.0.113.9".toList, true, some 3599⟩]⟩

/-- Nothing stored, no table. -/
def freshWorld : World := ⟨⟨.empty, .empty⟩, none⟩

theorem addCall_read (batch : BatchOutcome) (readback : ReadOutcome) :
    (addCall batch readback).demand.read webConfig = .ok (addRequest 1700003600) := by
  have h : validateRequest webConfig (addRaw 1700003600) = .ok (addRequest 1700003600) := by
    decide
  exact h

/-- A refused first delivery leaves nothing. -/
theorem refused_add_untouched :
    Truthful requestDigest id webConfig freshWorld freshWorld (addCall .refused .absent) :=
  (truthful_iff requestDigest id webConfig freshWorld freshWorld (addCall .refused .absent)
    (addRequest 1700003600) (addCall_read _ _) rfl (.first rfl rfl)).mpr
    ⟨fun _ _ _ _ => .refl _ _, fun _ _ _ h => by simp [addCall] at h, fun _ h => absurd rfl h⟩

/-- **An `error` after the block took effect.** The batch is applied, the command that
reads it back cannot be started: the reply is `error`, and the address is blocked. -/
theorem error_after_apply :
    (execute requestDigest id webConfig freshWorld (addCall .done (.failed .unavailable))).2
        = .replied (reply (addRequest 1700003600) .error .commandUnavailable) ∧
      installedOn (execute requestDigest id webConfig freshWorld
        (addCall .done (.failed .unavailable))).1.firewall webKey = some (some 1700003600) ∧
      ¬ Truthful requestDigest id webConfig freshWorld freshWorld
        (addCall .done (.failed .unavailable)) := by
  have hreply : (execute requestDigest id webConfig freshWorld
      (addCall .done (.failed .unavailable))).2
        = .replied (reply (addRequest 1700003600) .error .commandUnavailable) := by decide +kernel
  have hblocked : installedOn (execute requestDigest id webConfig freshWorld
      (addCall .done (.failed .unavailable))).1.firewall webKey = some (some 1700003600) := by
    decide +kernel
  refine ⟨hreply, hblocked, fun h => ?_⟩
  have hsame := (h _ hreply (Or.inl rfl)).2 webKey (by decide) (some 1700003600)
    (by decide)
  exact absurd (hsame.mp hblocked) (by decide)

end RiskOps.Control
