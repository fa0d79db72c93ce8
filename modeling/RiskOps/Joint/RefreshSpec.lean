import RiskOps.Joint.Refresh

/-!
# RiskOps.Joint.RefreshSpec — what the history says of a discovery and of a refresh cycle

The checkpoint recognises cycles by their identities only. `DiscoverySince` and `CycleSince` say
what the log of the store's calls knows of the current discovery and the current cycle: it is one
the observer knew, or it was begun since. Both survive every call of the store
(`DiscoverySince.step`, `CycleSince.step`).

The second half runs processes symbolically: `At w st` is a machine whose world and checkpoint are
known, and each way to access the world has a rule that goes from one such machine to the next.
-/

namespace RiskOps.Joint.Refresh

open RiskOps.Lib (Faulty)
open RiskOps.Lib.Faulty

/-! ### What a call does to the discovery and to the cycle -/

variable {s : Store}

theorem currentDiscovery_open {cycleId : String} {cursor : Nat} {d : Discovery}
    (h : currentDiscovery s cycleId cursor = some d) : d.complete = false := by
  obtain ⟨-, hcond⟩ := Option.filter_eq_some_iff.mp h
  simp only [Bool.and_eq_true, Bool.not_eq_true'] at hcond
  exact hcond.2

variable {env : Env} {s' : Store} {op : Op}

/-- A recorded failure writes at most the error of a discovery that is not complete. -/
theorem failure_discovery {reply : Reply} (hop : op.reportsFailure = true)
    (h : step env s op = .ok (s', reply)) :
    s'.discovery = s.discovery ∨ ∃ d d', s.discovery = some d ∧ d.complete = false ∧
      s'.discovery = some d' ∧ d'.cycleId = d.cycleId ∧ d'.complete = false := by
  cases op with
  | failDiscovery cycleId cursor code =>
    simp only [step, failDiscovery] at h
    split at h
    · cases h
    · cases hcurrent : currentDiscovery s cycleId cursor with
      | none =>
        simp only [hcurrent, Except.ok.injEq, Prod.mk.injEq] at h
        exact Or.inl (by rw [← h.1])
      | some current =>
        simp only [hcurrent, Except.ok.injEq, Prod.mk.injEq] at h
        have hopen := currentDiscovery_open hcurrent
        exact Or.inr ⟨current, { current with error := some code },
          (currentDiscovery_some hcurrent).1, hopen, by rw [← h.1], rfl, hopen⟩
  | recordDiscoveryFailure code guards =>
    simp only [step, recordDiscoveryFailure] at h
    split at h
    · cases h
    · split at h <;> simp only [Except.ok.injEq, Prod.mk.injEq] at h <;>
        exact Or.inl (by rw [← h.1])
  | _ => simp [Op.reportsFailure] at hop

/-- **The discovery row.** A call leaves it alone, begins a new one, or goes on with one that is
not complete; the events say when one began and when one became complete. -/
theorem discovery_cases {reply : Reply} (h : step env s op = .ok (s', reply)) :
    s'.discovery = s.discovery ∨
    (∃ d, s'.discovery = some d ∧ op.events s reply =
      .discoveryBegun d.cycleId :: if d.complete then [.discoveryCompleted d.cycleId] else []) ∨
    ∃ d d', s.discovery = some d ∧ d.complete = false ∧ s'.discovery = some d' ∧
      d'.cycleId = d.cycleId ∧
      (d'.complete = true → op.events s reply = [.discoveryCompleted d'.cycleId]) := by
  have hrecover (x : Store) : x.recoverIfComplete.discovery = x.discovery := by
    rcases recoverIfComplete_eq x with heq | heq <;> rw [heq]
  have heffect := step_effect h
  cases heffect with
  | discoveryRunning hd hrunning => exact Or.inl rfl
  | cycleRunning hc hrunning => exact Or.inl rfl
  | ignored hreply => exact Or.inl rfl
  | registered hrows => exact Or.inl rfl
  | @discoveryBegun target producer identity d hprev hd herror =>
    refine Or.inr (Or.inl ⟨d, rfl, ?_⟩)
    have hall : s.discovery.all Discovery.complete = true := by
      cases hdiscovery : s.discovery with
      | none => rfl
      | some d => exact hprev d hdiscovery
    simp only [Op.events, hall, if_true, hd]
  | @pageApplied cycleId cursor page current d rows summary hcurrent hrows hd =>
    obtain ⟨hdiscovery, hid⟩ := currentDiscovery_some hcurrent
    refine Or.inr (Or.inr ⟨current, d, hdiscovery, currentDiscovery_open hcurrent, rfl, hd.1, ?_⟩)
    intro hcomplete
    simp only [Op.events, ← hd.2.1, hcomplete, if_true, hd.1, hid]
  | @discoveryFailed _ code d hop =>
    rcases failure_discovery hop h with heq | ⟨d, d', hd, hopen, hd', hid, hopen'⟩
    · exact Or.inl heq
    · refine Or.inr (Or.inr ⟨d, d', hd, hopen, hd', hid, fun hcomplete => ?_⟩)
      rw [hopen'] at hcomplete
      cases hcomplete
  | @cycleBegun identity c hprev =>
    refine Or.inl ?_
    rw [hrecover]
    rfl
  | @finished _ item o e i r s₁ rows hop hawaits hs₁ hrows =>
    refine Or.inl ?_
    rw [Store.finish, hrecover]
    rcases hs₁ with rfl | ⟨value, caseId, now, -, -, hadd⟩
    · rfl
    · exact (addRevision_frame hadd).2.2.2

/-- **The cycle row.** A call keeps its identity or begins a new one. -/
theorem cycle_cases {reply : Reply} (h : step env s op = .ok (s', reply)) :
    s'.cycle.map Cycle.cycleId = s.cycle.map Cycle.cycleId ∨
    ∃ c, s'.cycle = some c ∧ op.events s reply = [.refreshBegun c.cycleId] := by
  have heffect := step_effect h
  cases heffect with
  | @cycleBegun identity c hprev =>
    have hall : s.cycle.all Cycle.attemptedComplete = true := by
      cases hc : s.cycle with
      | none => rfl
      | some c => exact hprev c hc
    rw [(recoverIfComplete_frame _).2.1]
    exact Or.inr ⟨_, rfl, by simp only [Op.events, hall, if_true]⟩
  | @finished _ item o e i r s₁ rows hop hawaits hs₁ hrows =>
    refine Or.inl ?_
    have hcycle : s₁.cycle = s.cycle := by
      rcases hs₁ with rfl | ⟨value, caseId, now, -, -, hadd⟩
      · rfl
      · exact (addRevision_frame hadd).1
    rw [Store.finish, (recoverIfComplete_frame _).2.1, ← hcycle, Option.map_map]
    refine congrArg (fun f => s₁.cycle.map f) (funext fun c => ?_)
    simp only [Function.comp_apply, Cycle.settle]
    cases o <;> rfl
  | _ => exact Or.inl rfl

/-! ### Since a point of the history -/

/-- The discovery began and became complete, in this order. -/
def Ran (es : List RecoveryEvent) (id : String) : Prop :=
  ∃ t₁ t₂, es = t₁ ++ .discoveryCompleted id :: t₂ ∧ .discoveryBegun id ∈ t₁

/-- The current discovery is an old one, or it began in `es`. -/
def DiscoverySince (old : Discovery → Prop) (es : List RecoveryEvent) (s : Store) : Prop :=
  ∀ d, s.discovery = some d →
    old d ∨ (.discoveryBegun d.cycleId ∈ es ∧ (d.complete = true → Ran es d.cycleId))

/-- The current refresh cycle is an old one, or it began in `es`. -/
def CycleSince (old : String → Prop) (es : List RecoveryEvent) (s : Store) : Prop :=
  ∀ c, s.cycle = some c → old c.cycleId ∨ .refreshBegun c.cycleId ∈ es

variable {es : List RecoveryEvent}

theorem Ran.append {id : String} (h : Ran es id) (more : List RecoveryEvent) :
    Ran (es ++ more) id := by
  obtain ⟨t₁, t₂, rfl, hbegun⟩ := h
  exact ⟨t₁, t₂ ++ more, by simp, hbegun⟩

theorem DiscoverySince.congr {old : Discovery → Prop} {more : List RecoveryEvent}
    (h : DiscoverySince old es s) (hs : s'.discovery = s.discovery) :
    DiscoverySince old (es ++ more) s' := by
  intro d hd
  rw [hs] at hd
  rcases h d hd with hold | ⟨hbegun, hran⟩
  · exact Or.inl hold
  · exact Or.inr ⟨List.mem_append_left more hbegun, fun hcomplete => (hran hcomplete).append more⟩

/-- A discovery whose begin is among the events of a call. -/
theorem discoverySince_begun {old : Discovery → Prop} {more : List RecoveryEvent} {d : Discovery}
    (hd : s.discovery = some d) :
    DiscoverySince old (es ++ ((.discoveryBegun d.cycleId ::
      if d.complete then [.discoveryCompleted d.cycleId] else []) ++ more)) s := by
  intro d' hd'
  obtain rfl := Option.some.inj (hd.symm.trans hd')
  refine Or.inr ⟨by simp, fun hcomplete => ?_⟩
  rw [hcomplete, if_pos rfl]
  exact ⟨es ++ [.discoveryBegun d.cycleId], more, by simp, by simp⟩

/-- **One call.** A known discovery that is not complete may go on and stays known. -/
theorem DiscoverySince.step {old : Discovery → Prop} {reply : Reply} (h : DiscoverySince old es s)
    (hold : ∀ d d', old d → d.complete = false → d'.cycleId = d.cycleId → old d')
    (hstep : step env s op = .ok (s', reply)) :
    DiscoverySince old (es ++ recoveryEvents env s op) s' := by
  simp only [recoveryEvents, hstep]
  rcases discovery_cases hstep with heq | ⟨d, hd, hevents⟩ | ⟨d, d', hd, hopen, hd', hid, hevents⟩
  · exact h.congr heq
  · rw [hevents]
    exact discoverySince_begun hd
  · intro x hx
    obtain rfl := Option.some.inj (hd'.symm.trans hx)
    rcases h d hd with hknown | ⟨hbegun, -⟩
    · exact Or.inl (hold d d' hknown hopen hid)
    · rw [← hid] at hbegun
      refine Or.inr ⟨List.mem_append_left _ hbegun, fun hcomplete => ?_⟩
      rw [hevents hcomplete]
      exact ⟨es, recoveredEvent s s', by simp, hbegun⟩

/-- **One call.** -/
theorem CycleSince.step {old : String → Prop} {reply : Reply} (h : CycleSince old es s)
    (hstep : step env s op = .ok (s', reply)) :
    CycleSince old (es ++ recoveryEvents env s op) s' := by
  simp only [recoveryEvents, hstep]
  intro c hc
  rcases cycle_cases hstep with hid | ⟨c', hc', hevents⟩
  · rw [hc, Option.map_some] at hid
    obtain ⟨c₀, hc₀, heq⟩ := Option.map_eq_some_iff.mp hid.symm
    rw [← heq]
    rcases h c₀ hc₀ with hknown | hbegun
    · exact Or.inl hknown
    · exact Or.inr (List.mem_append_left _ hbegun)
  · obtain rfl := Option.some.inj (hc'.symm.trans hc)
    exact Or.inr (by simp [hevents])

/-! ### Calls by a process -/

/-- What a commit did. -/
theorem commit_ok {w w' : World} {now : Nat} {reply : Reply}
    (h : w.commit env now op = .ok (w', reply)) :
    step env w.store op = .ok (w'.store, reply) ∧
      w'.log = w.log ++ recoveryEvents env w.store op ∧ w'.checkpoint = w.checkpoint ∧
      w'.storeId = w.storeId ∧ w'.queryEpoch = w.queryEpoch := by
  unfold World.commit at h
  cases hstep : step env w.store op with
  | error e => simp [hstep] at h
  | ok x =>
    obtain ⟨s, reply'⟩ := x
    simp only [hstep, Except.ok.injEq, Prod.mk.injEq] at h
    obtain ⟨rfl, rfl⟩ := h
    exact ⟨rfl, rfl, rfl, rfl, rfl⟩

/-- The log grows, so what is older than its end stays where it is. -/
theorem drop_commit {w w' : World} {now n : Nat} {reply : Reply}
    (h : w.commit env now op = .ok (w', reply)) (hn : n ≤ w.log.length) :
    n ≤ w'.log.length ∧ w'.log.drop n = w.log.drop n ++ recoveryEvents env w.store op := by
  rw [(commit_ok h).2.1, List.drop_append_of_le_length hn, List.length_append]
  exact ⟨by omega, rfl⟩

/-- A property of the world that calls of a kind keep. -/
def Stable (env : Env) (K : Op → Prop) (P : World → Prop) : Prop :=
  ∀ w w' now op reply, K op → P w → w.commit env now op = .ok (w', reply) → P w'

/-- The process changes the world by calls of a kind only, and the checkpoint in memory not at
all: what these calls keep, it keeps. -/
def Calls {α : Type} (env : Env) (K : Op → Prop) (x : Process α) : Prop :=
  ∀ (P : World → Prop) (st : Checkpoint), Stable env K P →
    Keeps (fun m => P m.world ∧ m.state = st) x

section Processes

variable {env : Env} {o : Outside} {K : Op → Prop} {α β : Type}

theorem Calls.bind {x : Process α} {f : α → Process β} (hx : Calls env K x)
    (hf : ∀ a, Calls env K (f a)) : Calls env K (x >>= f) :=
  fun P st hP => (hx P st hP).bind fun a => hf a P st hP

theorem Calls.pure (a : α) : Calls env K (Pure.pure a : Process α) := fun _ _ _ => Keeps.pure a

theorem Calls.throw (e : Stop) : Calls env K (MonadExcept.throw e : Process α) :=
  fun _ _ _ => Keeps.throw e

theorem Calls.get : Calls env K (MonadState.get : Process Machine) := fun _ _ _ => Keeps.get

theorem Calls.ask (f : Nat → α) : Calls env K (Refresh.ask f) := by
  intro P st _
  exact Keeps.get.bind fun m => Keeps.bind (Triple.modify fun m h => h) fun _ => Keeps.pure _

theorem Calls.access : Calls env K (Refresh.access o) := by
  refine (Calls.ask _).bind fun a => ?_
  cases a with
  | none => exact Calls.pure ()
  | some stop => exact Calls.throw stop

theorem Calls.look (f : World → α) : Calls env K (Refresh.look o f) :=
  Calls.access.bind fun _ => Calls.get.bind fun _ => Calls.pure _

theorem Calls.catching {x : Process α} {f : String → Process α} (hx : Calls env K x)
    (hf : ∀ c, Calls env K (f c)) : Calls env K (Refresh.catching x f) := by
  intro P st hP
  refine (hx P st hP).tryCatch fun stop => ?_
  cases stop with
  | code c => exact hf c P st hP
  | crash => exact Keeps.throw _

theorem Calls.ite {c : Prop} [Decidable c] {x y : Process α} (hx : Calls env K x)
    (hy : Calls env K y) : Calls env K (if c then x else y) :=
  fun P st hP => Keeps.ite (hx P st hP) (hy P st hP)

/-! ### Symbolic runs -/

/-- A machine with a known world and checkpoint. -/
def At (w : World) (st : Checkpoint) (m : Machine) : Prop := m.world = w ∧ m.state = st

theorem triple_at {P : World → Checkpoint → Prop} {x : Process α} {Q : α → Machine → Prop}
    {E : Stop → Machine → Prop} (h : ∀ w st, P w st → Triple (At w st) x Q E) :
    Triple (fun m => P m.world m.state) x Q E :=
  fun m hm => h m.world m.state hm m ⟨rfl, rfl⟩

variable {w : World} {st : Checkpoint} {Q : β → Machine → Prop} {E : Stop → Machine → Prop}

theorem ask_bind {f : Nat → α} {k : α → Process β} (h : ∀ a, Triple (At w st) (k a) Q E) :
    Triple (At w st) (ask f >>= k) Q E :=
  Triple.bind (R := fun _ => At w st)
    (Triple.bind (R := fun _ => At w st) (Triple.get fun _ h => h) fun _ =>
      Triple.bind (R := fun _ => At w st) (Triple.modify fun _ h => h) fun _ =>
        Triple.pure fun _ h => h) h

theorem access_at {Q : Unit → Machine → Prop} (hE : ∀ e m, At w st m → E e m)
    (h : ∀ m, At w st m → Q () m) : Triple (At w st) (access o) Q E := by
  refine ask_bind fun a => ?_
  cases a with
  | none => exact Triple.pure h
  | some stop => exact Triple.throw (hE stop)

theorem access_bind {k : Unit → Process β} (hE : ∀ e m, At w st m → E e m)
    (h : Triple (At w st) (k ()) Q E) : Triple (At w st) (access o >>= k) Q E :=
  Triple.bind (R := fun _ => At w st) (access_at hE fun _ h => h) fun _ => h

theorem get_bind {k : Machine → Process β} (h : ∀ n, Triple (At w st) (k ⟨w, st, n⟩) Q E) :
    Triple (At w st) (get >>= k) Q E := by
  intro m hm
  obtain ⟨rfl, rfl⟩ := hm
  exact h m.reads m ⟨rfl, rfl⟩

theorem look_bind {f : World → α} {k : α → Process β} (hE : ∀ e m, At w st m → E e m)
    (h : Triple (At w st) (k (f w)) Q E) : Triple (At w st) (look o f >>= k) Q E := by
  refine Triple.bind (R := fun a m => a = f w ∧ At w st m) ?_ fun a => ?_
  · refine access_bind hE (get_bind fun _ => ?_)
    exact Triple.pure fun _ h => ⟨rfl, h⟩
  · refine Triple.of_fact fun ha => ?_
    rw [ha]
    exact h

theorem update_bind {f : Checkpoint → Checkpoint} {k : Unit → Process β}
    (h : Triple (At w (f st)) (k ()) Q E) : Triple (At w st) (update f >>= k) Q E := by
  refine Triple.bind (R := fun _ => At w (f st)) ?_ fun _ => h
  refine Triple.modify fun m hm => ?_
  obtain ⟨rfl, rfl⟩ := hm
  exact ⟨rfl, rfl⟩

theorem update_at {f : Checkpoint → Checkpoint} {Q : Unit → Machine → Prop}
    (h : ∀ m, At w (f st) m → Q () m) : Triple (At w st) (update f) Q E := by
  refine Triple.modify fun m hm => h _ ?_
  obtain ⟨rfl, rfl⟩ := hm
  exact ⟨rfl, rfl⟩

/-- **A call.** It is refused, or its transaction is committed; it may stop before and after. -/
theorem call_at {Q : Unit → Machine → Prop} (hE : ∀ e m, At w st m → E e m)
    (hE' : ∀ w' now reply, w.commit env now op = .ok (w', reply) → ∀ e m, At w' st m → E e m)
    (h : ∀ w' now reply, w.commit env now op = .ok (w', reply) → ∀ m, At w' st m → Q () m) :
    Triple (At w st) (call env o op) Q E := by
  refine access_bind hE (ask_bind fun now => get_bind fun _ => ?_)
  cases hcommit : w.commit env now op with
  | error e =>
    simp only
    exact Triple.throw fun m hm => hE _ m hm
  | ok x =>
    obtain ⟨w', reply⟩ := x
    simp only
    refine Triple.bind (R := fun _ => At w' st) ?_ fun _ => ?_
    · exact Triple.modify fun m hm => ⟨rfl, hm.2⟩
    · exact access_at (hE' w' now reply hcommit) (h w' now reply hcommit)

theorem call_bind {k : Unit → Process β} (hE : ∀ e m, At w st m → E e m)
    (hE' : ∀ w' now reply, w.commit env now op = .ok (w', reply) → ∀ e m, At w' st m → E e m)
    (h : ∀ w' now reply, w.commit env now op = .ok (w', reply) →
      Triple (At w' st) (k ()) Q E) : Triple (At w st) (call env o op >>= k) Q E := by
  refine Triple.bind
    (R := fun _ m => ∃ w', (∃ now reply, w.commit env now op = .ok (w', reply)) ∧ At w' st m)
    (call_at hE hE' fun w' now reply hcommit m hm => ⟨w', ⟨now, reply, hcommit⟩, hm⟩) fun _ => ?_
  exact Triple.exists fun w' => Triple.of_fact fun ⟨now, reply, hcommit⟩ => h w' now reply hcommit

theorem Calls.call (hop : K op) : Calls env K (Refresh.call env o op) := by
  intro P st hP m hm
  obtain ⟨hworld, rfl⟩ := hm
  refine call_at (w := m.world) (fun _ m' hm' => ?_) (fun w' now reply hcommit _ m' hm' => ?_)
    (fun w' now reply hcommit m' hm' => ?_) m ⟨rfl, rfl⟩
  · exact ⟨hm'.1 ▸ hworld, hm'.2⟩
  · exact ⟨hm'.1 ▸ hP _ _ _ _ _ hop hworld hcommit, hm'.2⟩
  · exact ⟨hm'.1 ▸ hP _ _ _ _ _ hop hworld hcommit, hm'.2⟩

end Processes

/-! ### The manual commands -/

/-- The calls that do not touch the refresh cycle. -/
def Op.aboutDiscovery : Op → Prop
  | .beginDiscovery _ _ _ => True
  | .applyDiscoveryPage _ _ _ => True
  | .failDiscovery _ _ _ => True
  | .recordDiscoveryFailure _ _ => True
  | _ => False

section Commands

variable {env : Env} {o : Outside}

theorem openDiscovery_calls (current : Option Discovery) :
    Calls env Op.aboutDiscovery (openDiscovery env o current) := by
  refine Calls.catching (Calls.access.bind fun _ => (Calls.ask _).bind fun target => ?_) fun c =>
    (Calls.call trivial).bind fun _ => Calls.throw _
  cases target with
  | error c => exact Calls.throw _
  | ok target => exact (Calls.ask _).bind fun _ => Calls.call trivial

theorem readPage_calls (current : Discovery) :
    Calls env Op.aboutDiscovery (readPage env o current) := by
  refine Calls.catching (Calls.access.bind fun _ => (Calls.ask _).bind fun page => ?_) fun c =>
    (Calls.call trivial).bind fun _ => Calls.throw _
  cases page with
  | error c => exact Calls.throw _
  | ok page => exact Calls.call trivial

theorem currentOrNew_calls : Calls env Op.aboutDiscovery (currentOrNew env o) :=
  (Calls.look _).bind fun current =>
    Calls.ite ((openDiscovery_calls current).bind fun _ => Calls.get.bind fun _ => Calls.pure _)
      (Calls.pure _)

theorem discover_calls : Calls env Op.aboutDiscovery (discover env o) := by
  refine Calls.access.bind fun _ => currentOrNew_calls.bind fun current => ?_
  cases current with
  | none => exact Calls.throw _
  | some current =>
    exact Calls.ite (Calls.pure _) ((readPage_calls current).bind fun _ => Calls.look _)

theorem failItem_calls (item : WorkItem) (c : String) :
    Calls env (fun _ => True) (failItem env o item c) :=
  (Calls.ask _).bind fun _ => Calls.call trivial

theorem failKnown_calls (item : WorkItem) (c : String) :
    Calls env (fun _ => True) (failKnown env o item c) :=
  Calls.ite (failItem_calls item c) (Calls.throw _)

theorem attempt_calls (item : WorkItem) : Calls env (fun _ => True) (attempt env o item) := by
  refine Calls.access.bind fun _ => (Calls.ask _).bind fun read => ?_
  rcases read with (c | c) | value
  · exact failItem_calls item c
  · exact failKnown_calls item c
  · exact Calls.catching ((Calls.ask _).bind fun _ => Calls.call trivial) (failKnown_calls item)

theorem reconcileItems_calls (n : Nat) (selected : Option String) :
    Calls env (fun _ => True) (reconcileItems env o n selected) := by
  induction n generalizing selected with
  | zero => exact Calls.pure ()
  | succ n ih =>
    refine (Calls.ask _).bind fun late => Calls.ite (Calls.pure ()) ?_
    refine (Calls.look _).bind fun item => ?_
    cases item with
    | none => exact Calls.pure ()
    | some item =>
      refine Calls.ite (Calls.pure ()) ((Calls.ask _).bind fun late => ?_)
      exact Calls.ite (Calls.pure ()) ((attempt_calls item).bind fun _ => ih _)

theorem reconcileStep_calls : Calls env (fun _ => True) (reconcileStep env o) :=
  Calls.access.bind fun _ => (reconcileItems_calls 5 none).bind fun _ => Calls.access

theorem openCycle_calls : Calls env (fun _ => True) (openCycle env o) :=
  (Calls.ask _).bind fun _ => (Calls.call trivial).bind fun _ => Calls.get.bind fun _ =>
    Calls.pure _

theorem recheck_calls (base : Base) : Calls env (fun _ => True) (recheck env o base) := by
  refine Calls.ite (Calls.catching Calls.access fun c => ?_) (Calls.pure ())
  refine (Calls.call trivial).bind fun _ => Calls.bind ?_ fun _ => Calls.throw _
  exact fun P st _ => Triple.modify fun m hm => hm

theorem refresh_calls (configSha : String) :
    Calls env (fun _ => True) (refresh env o configSha) :=
  Calls.access.bind fun _ => (Calls.look _).bind fun base => (recheck_calls base).bind fun _ =>
    openCycle_calls.bind fun _ => reconcileStep_calls

end Commands

end RiskOps.Joint.Refresh
