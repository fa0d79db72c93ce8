import RiskOps.Control.SshBlockProtected

/-!
# RiskOps.Control.SshBlockVerified — what a `verified` change leaves

**Store and firewall are in step after a `verified` change.**
-/

namespace RiskOps.Control

open RiskOps.Lib

/-- The sets hold the networks and the stored blocks, as a batch at `now` installs them. -/
def World.InStep (w : World) (networks : List Network) (now : ℚ) : Prop :=
  w.firewall = some
    { allow := fun v => networks.filter (netVersion · = v)
      block := fun c v => installedElements w.store.blocks now now c v }

section Calls

variable (sha256 : List Char → List Char) (collapse : List Network → List Network) (config : Config)

/-- The call stops at its checks. -/
def Stops (w : World) (call : Call) : Prop :=
  ∃ outcome, prepare sha256 config w call = .error outcome

/-- No check answers a change with `verified`. -/
theorem not_stops_of_verified {w : World} {call : Call} {r : Reply} (hcode : r.code = .verified)
    (hchange : call.demand.restores = true ∨ r.request.action.writes = true) :
    prepare sha256 config w call ≠ .error (.replied r) := by
  intro h
  rcases prepare_eq sha256 config h with ⟨code, hc⟩ | ⟨q, -, ⟨-, hc⟩ | ⟨actual, -, -, hplan⟩⟩
  · cases hc
  · cases hc
    cases hcode
  unfold plan at hplan
  split at hplan
  · rename_i hquery
    cases hplan
    simp only [Bool.and_eq_true, Bool.not_eq_true'] at hquery
    exact hchange.elim (ne_true_of_eq_false hquery.2) (ne_true_of_eq_false hquery.1)
  split at hplan
  · cases hplan
    cases hcode
  split at hplan
  · rename_i code hrefusal
    cases hplan
    have hverified : code = .verified := by
      rw [← hcode, refuse]
      split <;> rfl
    subst hverified
    split at hrefusal
    · cases hrefusal
    · unfold refusal at hrefusal
      repeat' split at hrefusal
      all_goals cases hrefusal
  split at hplan
  · cases hplan
    cases hcode
  · cases hplan

/-- **A verified change took effect.** The blocks that were running, with the change in them, are
stored and are what the firewall holds, until another call gets past its checks. -/
theorem verified_in_step {w : World} {call : Call} {r : Reply} {rest : List Call}
    (hread : call.read.present = w.firewall.isSome)
    (hreply : (execute sha256 collapse config w call).2 = .replied r) (hok : r.status = .ok)
    (hcode : r.code = .verified)
    (hchange : call.demand.restores = true ∨ r.request.action.writes = true)
    (hrest : StepsSatisfy (next sha256 collapse config) (Stops sha256 config)
      (next sha256 collapse config w call) rest) :
    (run (next sha256 collapse config) w (call :: rest)).InStep call.networks call.applyNow ∧
      (run (next sha256 collapse config) w (call :: rest)).store.blocks =
        intended call r.request (existingReceipt w.store r.request)
          (w.store.desired call.now call.networks) := by
  have hsame : next sha256 collapse config w call = run (next sha256 collapse config) _ rest :=
    run_invariant_of_steps (fun s c ⟨_, hstop⟩ hs => hs.trans (by rw [next, execute, hstop]))
      hrest rfl
  rw [run_cons, ← hsame, next]
  rcases execute_cases sha256 collapse config w call with
    ⟨outcome, hp, he⟩ | ⟨intent, hp, ⟨-, he⟩ | ⟨-, he⟩ | ⟨-, he⟩⟩
  all_goals rw [he] at hreply
  · obtain rfl : outcome = .replied r := hreply
    exact absurd hp (not_stops_of_verified sha256 config hcode hchange)
  · cases hreply
  · cases hreply
  obtain rfl := Outcome.replied.inj hreply
  rcases settle_cases collapse intent call with ⟨-, code, hs⟩ | ⟨-, r, hs, hr, hstatus⟩
  · rw [hs] at hok
    cases hok
  rw [hs] at hok
  obtain hbad | ⟨-, _, hans⟩ := hstatus
  · cases hbad.symm.trans hok
  have hdone : call.batch = .done := by
    unfold batchAnswer at hans
    cases hb : call.batch <;> rw [hb] at hans <;> first | rfl | cases hans
  rw [he, hs, hr]
  constructor
  · rw [World.InStep, appliedFirewall, hdone]
    exact run_applyBatch hread.symm
  · obtain ⟨hdemand, hprevious, -, hmode⟩ := prepare_ok sha256 config hp
    change intent.desired = _
    rw [← hprevious]
    cases hmode with
    | restore hrestores _ hdesired =>
      rw [hdesired, intended, if_pos (by simp [reconciles, hrestores])]
    | replay receipt hwrites hreceipt _ huncertain hdesired =>
      rw [hdesired, existingReceipt_of_writes hwrites, hreceipt, intended,
        if_pos (by simp [reconciles, huncertain])]
    | first hwrites hreceipt _ hdesired =>
      have hrequest := not_restores_of_writes config hdemand hwrites
      rw [hdesired, existingReceipt_of_writes hwrites, hreceipt, intended,
        if_neg (by simp [reconciles, hrequest])]

end Calls

/-- A verified `add`. -/
theorem verified_in_step_add :
    World.InStep (run (next requestDigest id webConfig) freshWorld
      [addCall .done (.table addedListing)]) [.v4 3221225984 24] 1700000000 := by
  have hreply : (execute requestDigest id webConfig freshWorld
      (addCall .done (.table addedListing))).2
    = .replied { reply (addRequest 1700003600) .ok .verified with
        observed := some (.block true (some 1700003600) (some 3599)) } := by decide +kernel
  exact (verified_in_step requestDigest id webConfig rfl hreply rfl rfl (.inr rfl)
    (show StepsSatisfy _ _ _ [] from trivial)).1

end RiskOps.Control
