import RiskOps.Joint.RefreshSpec

/-!
# RiskOps.Joint.RefreshRun — a success of the checkpoint did happen

`Sound` is what a checkpoint that still counts as `qualified` owes to the history: while the round
discovers, the current discovery is one the round knew or one it began; while it refreshes, its
discovery ran within the round and the current cycle is one the round knew or one begun after the
discovery was complete. Manual commands and crashes cannot break it, because it speaks of the log
of all calls (`Sound.commit`).

The steps of a tick keep it (`discoveryStep_spec`, `refreshStep_spec`), `_finish` turns it into a
success (`finish_spec`), and `success_is_real` is the statement about runs.
-/

namespace RiskOps.Joint.Refresh

open RiskOps.Lib (Faulty run run_append run_preserves)
open RiskOps.Lib.Faulty

/-! ### What a checkpoint owes to the history -/

/-- A discovery that was there before the round, or is not the one it follows. -/
def Checkpoint.knewDiscovery (c : Checkpoint) (d : Discovery) : Prop :=
  match c.discoveryId with
  | none => c.previousDiscoveryId = some d.cycleId ∧ d.complete = true
  | some id => d.cycleId ≠ id

/-- A refresh cycle that was there before the refresh, or is not the one it follows. -/
def Checkpoint.knewCycle (c : Checkpoint) (cycleId : String) : Prop :=
  match c.refreshId with
  | none => c.previousRefreshId = some cycleId
  | some id => cycleId ≠ id

/-- The discovery of the round ran within it, and what the round knows of the cycle since. -/
def Refreshing (es : List RecoveryEvent) (s : Store) (c : Checkpoint) : Prop :=
  ∃ id t₁ t₂, c.discoveryId = some id ∧ es = t₁ ++ .discoveryCompleted id :: t₂ ∧
    .discoveryBegun id ∈ t₁ ∧ CycleSince c.knewCycle t₂ s

def RoundSound (w : World) (c : Checkpoint) : Prop :=
  match c.phase with
  | .idle => True
  | .discover => DiscoverySince c.knewDiscovery (w.log.drop c.roundStart) w.store
  | .refresh => Refreshing (w.log.drop c.roundStart) w.store c

/-- A qualified round is one the history confirms. -/
structure Sound (w : World) (c : Checkpoint) : Prop where
  started : c.roundStart ≤ w.log.length
  round : c.qualified = true → RoundSound w c

variable {c : Checkpoint}

theorem knewDiscovery_open (d d' : Discovery) (h : c.knewDiscovery d) (hopen : d.complete = false)
    (hid : d'.cycleId = d.cycleId) : c.knewDiscovery d' := by
  unfold Checkpoint.knewDiscovery at h ⊢
  cases hc : c.discoveryId with
  | none =>
    simp only [hc, hopen] at h
    exact absurd h.2 (by simp)
  | some id =>
    simp only [hc] at h ⊢
    rwa [hid]

variable {env : Env} {w w' : World} {op : Op}

/-- **Any call by anyone.** -/
theorem Sound.commit {now : Nat} {reply : Reply} (h : Sound w c)
    (hcommit : w.commit env now op = .ok (w', reply)) : Sound w' c := by
  obtain ⟨hstep, -⟩ := commit_ok hcommit
  obtain ⟨hlength, hdrop⟩ := drop_commit hcommit h.started
  refine ⟨hlength, fun hqualified => ?_⟩
  have hround := h.round hqualified
  unfold RoundSound at hround ⊢
  rw [hdrop]
  cases hphase : c.phase with
  | idle => trivial
  | discover =>
    simp only [hphase] at hround ⊢
    exact hround.step knewDiscovery_open hstep
  | refresh =>
    simp only [hphase] at hround ⊢
    obtain ⟨id, t₁, t₂, hid, hes, hbegun, hcycle⟩ := hround
    exact ⟨id, t₁, _, hid, by rw [hes]; simp, hbegun, hcycle.step hstep⟩

/-- A checkpoint that counts for nothing. -/
theorem sound_of_unqualified (hstarted : c.roundStart ≤ w.log.length) (h : c.qualified = false) :
    Sound w c :=
  ⟨hstarted, fun hqualified => absurd hqualified (by simp [h])⟩

/-- **`_start`.** Unfinished work that was there before makes the round count for nothing. -/
theorem sound_start {base : Base} (c : Checkpoint) (hbase : base.discovery = w.store.discovery) :
    Sound w (c.start base w.log.length) := by
  unfold Checkpoint.start
  split
  · exact sound_of_unqualified (Nat.le_refl _) rfl
  · split
    · exact sound_of_unqualified (Nat.le_refl _) rfl
    · rename_i hdone
      refine ⟨Nat.le_refl _, fun _ d hd => Or.inl ?_⟩
      rw [← hbase] at hd
      refine ⟨by simp [Base.discoveryId, hd], ?_⟩
      simpa [hd] using hdone

/-! ### What is known during a tick -/

/-- What the checkpoint says of success is not new: it was said before the tick. -/
def Modest (before : Option Nat) (c : Checkpoint) : Prop :=
  ∀ t, c.lastSuccessAt = some t → before = some t

/-- A success, as the store and its history have it. -/
def Success (w : World) (roundStart t : Nat) : Prop :=
  ∃ d r t₁ t₂ t₃ t₄,
    w.store.discovery = some d ∧ d.complete = true ∧ d.error = none ∧
    w.store.cycle = some r ∧ r.itemCount = w.store.items.length ∧ w.cycleFinishedAt = some t ∧
    (∀ i ∈ w.store.items, i.cycleId = r.cycleId ∧
      (i.outcome = some .published ∨ i.outcome = some .unchanged)) ∧
    w.store.runtime.revalidationPending = false ∧
    (∀ reg ∈ w.store.registrations, reg.refreshState = .fresh) ∧
    w.log = t₁ ++ [.discoveryBegun d.cycleId] ++ t₂ ++ [.discoveryCompleted d.cycleId] ++ t₃
      ++ [.refreshBegun r.cycleId] ++ t₄ ∧ roundStart ≤ t₁.length

/-- What the checkpoint says of success was said before the tick, or happened. -/
def Honest (before : Option Nat) (w : World) (c : Checkpoint) : Prop :=
  ∀ t, c.lastSuccessAt = some t → before = some t ∨ Success w c.roundStart t

/-- The durable side of a tick before anything is finished. -/
structure Ready (before : Option Nat) (w : World) : Prop where
  settled : Settled w.store
  sound : ∀ c, w.checkpoint = some c → Sound w c ∧ Modest before c

/-- The checkpoint in memory beside it. -/
structure Held (before : Option Nat) (w : World) (st : Checkpoint) : Prop where
  ready : Ready before w
  started : st.roundStart ≤ w.log.length
  modest : Modest before st

/-- Both, after the step. -/
structure Reported (before : Option Nat) (w : World) (st : Checkpoint) : Prop where
  settled : Settled w.store
  sound : Sound w st
  honest : Honest before w st
  durable : ∀ c, w.checkpoint = some c → Sound w c ∧ Honest before w c

/-- The durable side of a run. -/
structure Durable (before : Option Nat) (w : World) : Prop where
  settled : Settled w.store
  sound : ∀ c, w.checkpoint = some c → Sound w c ∧ Honest before w c

theorem Ready.durable {before : Option Nat} (h : Ready before w) : Durable before w :=
  ⟨h.settled, fun c hc => ⟨(h.sound c hc).1, fun t ht => Or.inl ((h.sound c hc).2 t ht)⟩⟩

theorem Ready.stable {before : Option Nat} {K : Op → Prop} : Stable env K (Ready before) := by
  intro w w' now op reply _ h hcommit
  obtain ⟨hstep, -, hcheckpoint, -⟩ := commit_ok hcommit
  have hnext : w'.store = Joint.next env w.store op := by rw [Joint.next, hstep]
  refine ⟨hnext ▸ h.settled.next op, fun c hc => ?_⟩
  rw [hcheckpoint] at hc
  obtain ⟨hsound, hmodest⟩ := h.sound c hc
  exact ⟨hsound.commit hcommit, hmodest⟩

theorem Held.commit {before : Option Nat} {st : Checkpoint} {now : Nat} {reply : Reply}
    (h : Held before w st) (hcommit : w.commit env now op = .ok (w', reply)) : Held before w' st :=
  ⟨Ready.stable (K := fun _ => True) w w' now op reply trivial h.ready hcommit, (drop_commit hcommit h.started).1,
    h.modest⟩

theorem Held.reported {before : Option Nat} {st : Checkpoint} (h : Held before w st)
    (hsound : Sound w st) : Reported before w st :=
  ⟨h.ready.settled, hsound, fun t ht => Or.inl (h.modest t ht), h.ready.durable.sound⟩

/-- What `base` says is what the world is. -/
structure Sees (base : Base) (w : World) : Prop where
  discovery : base.discovery = w.store.discovery
  cycle : base.cycle = w.store.cycle
  finished : base.cycleFinishedAt = w.cycleFinishedAt
  pending : base.revalidationPending = w.store.runtime.revalidationPending

section Steps

variable {env : Env} {o : Outside} {before : Option Nat} {w : World} {st : Checkpoint}

theorem catching_triple {α : Type} {P : Machine → Prop} {Q : α → Machine → Prop}
    {R E : Stop → Machine → Prop} {x : Process α} {f : String → Process α} (hx : Triple P x Q R)
    (hcrash : ∀ m, R .crash m → E .crash m) (hf : ∀ c, Triple (R (.code c)) (f c) Q E) :
    Triple P (catching x f) Q E := by
  refine Triple.tryCatch hx fun stop => ?_
  cases stop with
  | code c => exact hf c
  | crash => exact Triple.throw hcrash

theorem startRound_at {f : Base → Nat → Checkpoint → Checkpoint} {base : Base}
    {Q : Unit → Machine → Prop} {E : Stop → Machine → Prop}
    (h : ∀ m, At w (f base w.log.length st) m → Q () m) :
    Triple (At w st) (startRound f base) Q E :=
  get_bind fun _ => update_at h

theorem nowOr_bind {β : Type} {now : Option Nat} {k : Nat → Process β}
    {Q : β → Machine → Prop} {E : Stop → Machine → Prop}
    (h : ∀ a, Triple (At w st) (k a) Q E) : Triple (At w st) (nowOr o now >>= k) Q E := by
  cases now with
  | none => exact ask_bind h
  | some now => exact Triple.bind (R := fun _ => At w st) (Triple.pure fun _ h => h) h

/-! ### The discovery step -/

/-- The current discovery began at or after this point of the log. -/
def Fresh (n : Nat) (w : World) : Prop :=
  n ≤ w.log.length ∧ DiscoverySince (fun _ => False) (w.log.drop n) w.store

theorem fresh_stable {K : Op → Prop} (n : Nat) : Stable env K (Fresh n) := by
  intro w w' now op reply _ h hcommit
  obtain ⟨hlength, hdrop⟩ := drop_commit hcommit h.1
  refine ⟨hlength, ?_⟩
  rw [hdrop]
  exact h.2.step (fun _ _ hfalse _ _ => hfalse) (commit_ok hcommit).1

variable {s s' : Store}

/-- `begin_discovery` begins one when there is none that goes on. -/
theorem beginDiscovery_begun {target : Nat} {producer identity : String} {reply : Reply}
    (h : step env s (.beginDiscovery target producer identity) = .ok (s', reply))
    (hdone : s.discovery.all Discovery.complete = true) :
    ∃ d, s'.discovery = some d ∧ recoveryEvents env s (.beginDiscovery target producer identity) =
      (.discoveryBegun d.cycleId :: if d.complete then [.discoveryCompleted d.cycleId] else [])
        ++ recoveredEvent s s' := by
  simp only [recoveryEvents, h]
  simp only [step, beginDiscovery] at h
  split at h
  · cases h
  · split at h
    · cases h
    · split at h
      · simp only [Except.ok.injEq, Prod.mk.injEq] at h
        obtain ⟨rfl, rfl⟩ := h
        exact ⟨_, rfl, by simp only [Op.events, hdone, if_true]⟩
      · rename_i previous hprevious
        rw [hprevious, Option.all_some] at hdone
        split at h
        · rename_i hopen
          exact absurd hopen (by simp [hdone])
        · split at h
          · cases h
          · simp only [Except.ok.injEq, Prod.mk.injEq] at h
            obtain ⟨rfl, rfl⟩ := h
            exact ⟨_, rfl, by simp only [Op.events, hprevious, Option.all_some, hdone, if_true]⟩

variable {n : Nat}

theorem fresh_begun {now target : Nat} {producer identity : String} {reply : Reply}
    (hn : n ≤ w.log.length) (hdone : w.store.discovery.all Discovery.complete = true)
    (h : w.commit env now (.beginDiscovery target producer identity) = .ok (w', reply)) :
    Fresh n w' := by
  obtain ⟨hlength, hdrop⟩ := drop_commit h hn
  obtain ⟨d, hd, hevents⟩ := beginDiscovery_begun (commit_ok h).1 hdone
  refine ⟨hlength, ?_⟩
  rw [hdrop, hevents]
  exact discoverySince_begun hd

theorem openDiscovery_fresh (current : Option Discovery) (hn : n ≤ w.log.length)
    (hdone : w.store.discovery.all Discovery.complete = true) :
    Triple (At w st) (openDiscovery env o current)
      (fun _ m => Fresh n m.world ∧ m.state = st) (fun _ _ => True) := by
  refine catching_triple (R := fun _ _ => True) ?_ (fun _ _ => trivial) fun c => ?_
  · refine access_bind (fun _ _ _ => trivial) (ask_bind fun target => ?_)
    cases target with
    | error c => exact Triple.throw fun _ _ => trivial
    | ok target =>
      refine ask_bind fun identity => call_at (fun _ _ _ => trivial)
        (fun _ _ _ _ _ _ _ => trivial) fun w' now reply hcommit m hm => ?_
      exact ⟨hm.1 ▸ fresh_begun hn hdone hcommit, hm.2⟩
  · refine Triple.bind (R := fun _ _ => True) ?_ fun _ => Triple.throw fun _ _ => trivial
    refine triple_at (P := fun _ _ => True) fun w st _ => ?_
    exact call_at (fun _ _ _ => trivial) (fun _ _ _ _ _ _ _ => trivial) fun _ _ _ _ _ _ => trivial

theorem currentOrNew_fresh (hn : n ≤ w.log.length)
    (hknown : DiscoverySince (fun d => d.complete = true) (w.log.drop n) w.store) :
    Triple (At w st) (currentOrNew env o)
      (fun r m => r = m.world.store.discovery ∧ Fresh n m.world ∧ m.state = st)
      (fun _ _ => True) := by
  refine look_bind (fun _ _ _ => trivial) (Triple.ite (fun hdone => ?_) fun hopen => ?_)
  · refine Triple.bind (openDiscovery_fresh _ hn hdone) fun _ => ?_
    exact Triple.bind (R := fun r m => r = m ∧ Fresh n m.world ∧ m.state = st)
      (Triple.get fun _ h => ⟨rfl, h⟩) fun r => Triple.pure fun m h => ⟨by rw [h.1], h.2⟩
  · refine Triple.pure fun m hm => ?_
    obtain ⟨rfl, rfl⟩ := hm
    refine ⟨rfl, ⟨hn, fun d hd => ?_⟩, rfl⟩
    rcases hknown d hd with hcomplete | hbegun
    · exact absurd (by rw [hd, Option.all_some, hcomplete]) hopen
    · exact Or.inr hbegun

/-- **`discover`** ends with a discovery that began since, when the one before it is complete or
began since. -/
theorem discover_fresh (hn : n ≤ w.log.length)
    (hknown : DiscoverySince (fun d => d.complete = true) (w.log.drop n) w.store) :
    Triple (At w st) (discover env o)
      (fun r m => r = m.world.store.discovery ∧ Fresh n m.world) (fun _ _ => True) := by
  refine access_bind (fun _ _ _ => trivial) (Triple.bind (currentOrNew_fresh hn hknown) ?_)
  intro current
  cases current with
  | none => exact Triple.throw fun _ _ => trivial
  | some current =>
    refine Triple.ite (fun hcomplete => Triple.pure fun m hm => ⟨hm.1, hm.2.1⟩) fun hopen => ?_
    refine Triple.bind (R := fun _ m => Fresh n m.world ∧ m.state = st) ?_ fun _ => ?_
    · exact ((readPage_calls current : Calls env Op.aboutDiscovery (readPage env o current))
        (Fresh n) st (fresh_stable n)).weaken
        (fun _ h => h.2) (fun _ _ h => h) fun _ _ _ => trivial
    · refine triple_at (P := fun w st' => Fresh n w ∧ st' = st) fun w st' hfresh => ?_
      refine access_bind (fun _ _ _ => trivial) (get_bind fun k => Triple.pure fun m hm => ?_)
      exact ⟨by rw [hm.1], hm.1 ▸ hfresh.1⟩

theorem aboutDiscovery_cycle {reply : Reply} (hop : Op.aboutDiscovery op)
    (h : step env s op = .ok (s', reply)) : s'.cycle = s.cycle := by
  have heffect := step_effect h
  cases heffect with
  | cycleBegun hprev => exact hop.elim
  | finished hitem hawaits hs₁ hrows =>
    cases op with
    | publish item value now => exact hop.elim
    | fail item code now => exact hop.elim
    | _ => cases hitem
  | _ => rfl

/-- What `discover` leaves for the discovery step. -/
theorem discover_spec (hheld : Held before w st)
    (hknown : st.qualified = true →
      DiscoverySince (fun d => d.complete = true) (w.log.drop st.roundStart) w.store) :
    Triple (At w st) (discover env o)
      (fun r m => Held before m.world st ∧ m.world.store.cycle = w.store.cycle ∧ m.state = st ∧
        (st.qualified = true → r = m.world.store.discovery ∧ Fresh st.roundStart m.world))
      (fun _ m => Held before m.world m.state) := by
  have hstable : Stable env Op.aboutDiscovery fun w' =>
      Held before w' st ∧ w'.store.cycle = w.store.cycle := by
    intro w₁ w₂ now op reply hop h hcommit
    exact ⟨h.1.commit hcommit, (aboutDiscovery_cycle hop (commit_ok hcommit).1).trans h.2⟩
  have hcalls := (discover_calls : Calls env Op.aboutDiscovery (discover env o)) _ st hstable
  cases hqualified : st.qualified with
  | false =>
    refine hcalls.weaken (fun m hm => ?_) (fun r m hm => ?_) fun e m hm => ?_
    · obtain ⟨rfl, rfl⟩ := hm
      exact ⟨⟨hheld, rfl⟩, rfl⟩
    · exact ⟨hm.1.1, hm.1.2, hm.2, by simp⟩
    · exact hm.2 ▸ hm.1.1
  | true =>
    refine ((discover_fresh hheld.started (hknown hqualified)).and hcalls).weaken
      (fun m hm => ⟨hm, ?_⟩) (fun r m hm => ?_) fun e m hm => ?_
    · obtain ⟨rfl, rfl⟩ := hm
      exact ⟨⟨hheld, rfl⟩, rfl⟩
    · exact ⟨hm.2.1.1, hm.2.1.2, hm.2.2, fun _ => hm.1⟩
    · exact hm.2.2 ▸ hm.2.1.1

/-- The discovery the round follows from here on. -/
theorem Sound.adoptDiscovery {base : Base} (h : Sound w st) (hphase : st.phase = .discover)
    (hbase : base.discovery = w.store.discovery) : Sound w (st.adoptDiscovery base) := by
  unfold Checkpoint.adoptDiscovery
  split
  · rename_i hadopt
    simp only [Bool.and_eq_true, decide_eq_true_eq, Option.isNone_iff_eq_none] at hadopt
    obtain ⟨⟨hnone, -⟩, hnew⟩ := hadopt
    refine ⟨h.started, fun hqualified => ?_⟩
    have hround := h.round hqualified
    simp only [RoundSound, hphase] at hround ⊢
    intro d hd
    have hid : base.discoveryId = some d.cycleId := by rw [Base.discoveryId, hbase, hd]; rfl
    rcases hround d hd with hknew | hbegun
    · simp only [Checkpoint.knewDiscovery, hnone] at hknew
      exact absurd (hid.trans hknew.1.symm) hnew
    · exact Or.inr hbegun
  · exact h

/-- A qualified round knows the current discovery as complete, or began it. -/
theorem Sound.known {base : Base} (h : Sound w st) (hphase : st.phase = .discover)
    (hbase : base.discovery = w.store.discovery)
    (haligned : st.discoveryId = none ∨ st.discoveryId = base.discoveryId)
    (hqualified : st.qualified = true) :
    DiscoverySince (fun d => d.complete = true) (w.log.drop st.roundStart) w.store := by
  have hround := h.round hqualified
  simp only [RoundSound, hphase] at hround
  intro d hd
  have hid : base.discoveryId = some d.cycleId := by rw [Base.discoveryId, hbase, hd]; rfl
  rcases hround d hd with hknew | hbegun
  · rcases haligned with hnone | hsame
    · simp only [Checkpoint.knewDiscovery, hnone] at hknew
      exact Or.inl hknew.2
    · simp only [Checkpoint.knewDiscovery, hsame, hid] at hknew
      exact absurd rfl hknew
  · exact Or.inr hbegun

/-- What is known once the round has a discovery. -/
structure Advanced (before : Option Nat) (w : World) (st : Checkpoint) (base : Base)
    (d : Discovery) : Prop where
  held : Held before w st
  phase : st.phase = .discover
  follows : st.discoveryId = some d.cycleId
  cycle : base.cycle = w.store.cycle
  began : st.qualified = true → w.store.discovery = some d ∧
    .discoveryBegun d.cycleId ∈ w.log.drop st.roundStart ∧
    (d.complete = true → Ran (w.log.drop st.roundStart) d.cycleId)

theorem advance_spec {base : Base} (hheld : Held before w st) (hsound : Sound w st)
    (hphase : st.phase = .discover) (hsees : Sees base w)
    (haligned : st.discoveryId = none ∨ st.discoveryId = base.discoveryId) :
    Triple (At w st) (advance env o base)
      (fun d m => Advanced before m.world m.state base d)
      (fun _ m => Held before m.world m.state) := by
  refine get_bind fun n => ?_
  simp only
  cases hcurrent : base.discovery.filter fun d => some d.cycleId = st.discoveryId && d.complete with
  | some current =>
    obtain ⟨hdiscovery, hcond⟩ := Option.filter_eq_some_iff.mp hcurrent
    simp only [Bool.and_eq_true, decide_eq_true_eq] at hcond
    simp only
    cases current.error with
    | some c =>
      refine Triple.throw fun m hm => ?_
      obtain ⟨rfl, rfl⟩ := hm
      exact hheld
    | none =>
      refine Triple.pure fun m hm => ?_
      obtain ⟨rfl, rfl⟩ := hm
      refine ⟨hheld, hphase, hcond.1.symm, hsees.cycle, fun hqualified => ?_⟩
      have hd := hsees.discovery.symm.trans hdiscovery
      have hround := hsound.round hqualified
      simp only [RoundSound, hphase] at hround
      refine ⟨hd, (hround current hd).resolve_left fun hknew => ?_⟩
      simp only [Checkpoint.knewDiscovery, ← hcond.1] at hknew
      exact hknew rfl
  | none =>
    simp only
    refine Triple.bind (discover_spec hheld fun hqualified =>
      hsound.known hphase hsees.discovery haligned hqualified) fun r => ?_
    cases r with
    | none => exact Triple.throw fun m hm => hm.2.2.1 ▸ hm.1
    | some d =>
      refine Triple.bind (R := fun _ m => Advanced before m.world m.state base d)
        (Triple.modify fun m hm => ?_) fun _ => Triple.pure fun _ h => h
      obtain ⟨hheld, hcycle, hstate, hfresh⟩ := hm
      simp only [hstate]
      refine ⟨⟨hheld.ready, hheld.started, hheld.modest⟩, hphase, rfl,
        hsees.cycle.trans hcycle.symm, fun hqualified => ?_⟩
      obtain ⟨hd, -, hsince⟩ := hfresh hqualified
      exact ⟨hd.symm, (hsince d hd.symm).resolve_left id⟩

/-- **`_realign`** begins a round anew. -/
theorem realign_reported {base : Base} (hheld : Held before w st) (hsees : Sees base w) :
    Triple (At w st) (startRound Checkpoint.realign base)
      (fun _ m => Reported before m.world m.state) (fun _ m => Held before m.world m.state) := by
  refine startRound_at fun m hm => ?_
  obtain ⟨rfl, hstate⟩ := hm
  rw [hstate]
  have hsound := sound_start (w := m.world) { st with
    phase := .idle, qualified := false, discoveryId := none, refreshId := none,
    resumeDiscovery := false, nextAttemptAt := none } hsees.discovery
  refine Held.reported ⟨hheld.ready, hsound.started, fun t ht => hheld.modest t ?_⟩ hsound
  rw [← ht, Checkpoint.realign, Checkpoint.start]
  split <;> [rfl; (split <;> rfl)]

/-- **`_discovery_step`.** -/
theorem discoveryStep_spec {base : Base} (hheld : Held before w st) (hsound : Sound w st)
    (hphase : st.phase = .discover) (hsees : Sees base w) :
    Triple (At w st) (discoveryStep env o base)
      (fun _ m => Reported before m.world m.state) (fun _ m => Held before m.world m.state) := by
  refine get_bind fun n => Triple.ite (fun hlost => ?_) fun haligned => ?_
  · exact realign_reported hheld hsees
  · refine update_bind ?_
    have hheld' : Held before w (st.adoptDiscovery base) := by
      unfold Checkpoint.adoptDiscovery
      split
      · exact ⟨hheld.ready, hheld.started, hheld.modest⟩
      · exact hheld
    have hphase' : (st.adoptDiscovery base).phase = .discover := by
      unfold Checkpoint.adoptDiscovery
      split <;> exact hphase
    have haligned' : (st.adoptDiscovery base).discoveryId = none ∨
        (st.adoptDiscovery base).discoveryId = base.discoveryId := by
      unfold Checkpoint.adoptDiscovery
      split
      · exact Or.inr rfl
      · cases hid : st.discoveryId with
        | none => exact Or.inl rfl
        | some id =>
          simp only [hid, Option.isSome_some, Bool.true_and, decide_eq_true_eq, not_not]
            at haligned
          exact Or.inr haligned.symm
    refine Triple.bind (advance_spec hheld' (hsound.adoptDiscovery hphase hsees.discovery) hphase'
      hsees haligned') fun d => ?_
    refine triple_at (P := fun w st => Advanced before w st base d) fun w st h => ?_
    refine Triple.ite (fun hcomplete => update_at fun m hm => ?_) fun hopen =>
      Triple.pure fun m hm => ?_
    · obtain ⟨rfl, hstate⟩ := hm
      rw [hstate]
      refine Held.reported ⟨h.held.ready, h.held.started, h.held.modest⟩
        ⟨h.held.started, fun hqualified => ?_⟩
      obtain ⟨-, -, hran⟩ := h.began hqualified
      obtain ⟨t₁, t₂, hes, hbegun⟩ := hran hcomplete
      refine ⟨d.cycleId, t₁, t₂, h.follows, hes, hbegun, fun c hc => Or.inl ?_⟩
      simp only [Checkpoint.knewCycle, Base.cycleId, h.cycle, hc, Option.map_some]
    · obtain ⟨rfl, rfl⟩ := hm
      refine h.held.reported ⟨h.held.started, fun hqualified => ?_⟩
      obtain ⟨hd, hbegun, hran⟩ := h.began hqualified
      simp only [RoundSound, h.phase]
      intro d' hd'
      obtain rfl := Option.some.inj (hd.symm.trans hd')
      exact Or.inr ⟨hbegun, hran⟩

/-! ### The end of a cycle -/

theorem afterCycle_frame (spec : RefreshSpec) (now completed : Nat) (error : Option String)
    (c : Checkpoint) :
    (c.afterCycle spec now completed error).qualified = false ∧
      (c.afterCycle spec now completed error).lastSuccessAt = c.lastSuccessAt ∧
      (c.afterCycle spec now completed error).roundStart = c.roundStart := by
  unfold Checkpoint.afterCycle
  split
  · exact ⟨rfl, rfl, rfl⟩
  · split <;> exact ⟨rfl, rfl, rfl⟩

/-- A clean round whose cycle is finished, with every registration fresh, is a success. -/
theorem success_of_cleanRound {base : Base} {cycle : Cycle} {completed : Nat}
    (hsettled : Settled w.store) (hsound : Sound w st) (hphase : st.phase = .refresh)
    (hsees : Sees base w) (hcycle : base.cycle = some cycle)
    (hid : st.refreshId = some cycle.cycleId) (hcompleted : base.cycleFinishedAt = some completed)
    (hclean : st.cleanRound base cycle completed = true)
    (hfresh : ∀ reg ∈ w.store.registrations, reg.refreshState = .fresh) :
    Success w st.roundStart completed := by
  simp only [Checkpoint.cleanRound, Bool.and_eq_true, Bool.not_eq_true', Option.any_eq_true,
    decide_eq_true_eq, Option.isNone_iff_eq_none] at hclean
  obtain ⟨⟨⟨⟨hqualified, -⟩, d, hd, ⟨⟨hdiscovery, hcomplete⟩, herror⟩, -⟩, hall⟩, hpending⟩ := hclean
  have hround := hsound.round hqualified
  simp only [RoundSound, hphase] at hround
  obtain ⟨id, t₁, t₂, hround, hes, hbegun, hsince⟩ := hround
  obtain rfl : d.cycleId = id := Option.some.inj (hdiscovery.trans hround)
  have hcurrent : w.store.cycle = some cycle := hsees.cycle.symm.trans hcycle
  -- The cycle is the one the round follows, so it is not an older one.
  have hrefresh : .refreshBegun cycle.cycleId ∈ t₂ := by
    refine (hsince cycle hcurrent).resolve_left fun hknew => ?_
    simp only [Checkpoint.knewCycle, hid] at hknew
    exact hknew rfl
  obtain ⟨u₁, u₂, rfl⟩ := List.append_of_mem hbegun
  obtain ⟨u₃, u₄, rfl⟩ := List.append_of_mem hrefresh
  refine ⟨d, cycle, w.log.take st.roundStart ++ u₁, u₂, u₃, u₄, hsees.discovery.symm.trans hd,
    hcomplete, herror, hcurrent, (hsettled.counted cycle hcurrent).1,
    hsees.finished.symm.trans hcompleted, fun i hi => ?_, hsees.pending.symm.trans hpending,
    hfresh, ?_, ?_⟩
  · obtain ⟨c, hc, howner⟩ := hsettled.owned i hi
    obtain rfl := Option.some.inj (hcurrent.symm.trans hc)
    exact ⟨howner.symm, hsettled.refreshed hcurrent hall hi⟩
  · rw [← List.take_append_drop st.roundStart w.log]
    conv_lhs => rw [hes]
    rw [List.take_append_drop]
    simp
  · rw [List.length_append, List.length_take]
    have := hsound.started
    omega

theorem allFresh_spec {clean : Bool} :
    Triple (At w st) (allFresh o clean)
      (fun success m => At w st m ∧ (success = true → clean = true ∧
        ∀ reg ∈ w.store.registrations, reg.refreshState = .fresh))
      (fun _ => At w st) := by
  refine Triple.ite (fun hclean => ?_) fun _ => Triple.pure fun _ hm => ⟨hm, by simp⟩
  refine access_bind (fun _ _ hm => hm) (get_bind fun n => Triple.pure fun m hm => ⟨hm, ?_⟩)
  intro hall
  exact ⟨hclean, by simpa using hall⟩

variable {spec : RefreshSpec}

/-- What comes after a finished cycle counts for nothing until the next round. -/
theorem reported_afterCycle {now completed : Nat} {error : Option String} (hready : Ready before w)
    (hstarted : c.roundStart ≤ w.log.length) (hhonest : Honest before w c) :
    Reported before w (c.afterCycle spec now completed error) := by
  obtain ⟨hunqualified, hlast, hstart⟩ := afterCycle_frame spec now completed error c
  refine ⟨hready.settled, sound_of_unqualified (hstart ▸ hstarted) hunqualified, fun t ht => ?_,
    hready.durable.sound⟩
  rw [hlast] at ht
  rw [hstart]
  exact hhonest t ht

/-- **`_finish`.** -/
theorem finish_spec {base : Base} {now : Option Nat} (hheld : Held before w st)
    (hsound : Sound w st) (hphase : st.phase = .refresh) (hsees : Sees base w) :
    Triple (At w st) (finish o spec base now)
      (fun _ m => Reported before m.world m.state) (fun _ m => Held before m.world m.state) := by
  have hstop : ∀ m, At w st m → Held before m.world m.state := by
    intro m hm
    obtain ⟨rfl, rfl⟩ := hm
    exact hheld
  refine nowOr_bind fun now => get_bind fun n => ?_
  cases hcycle : base.cycle with
  | none => exact Triple.throw hstop
  | some cycle =>
    refine Triple.ite (fun _ => Triple.throw hstop) fun hid => ?_
    cases hcompleted : base.cycleFinishedAt with
    | none => exact Triple.throw hstop
    | some completed =>
      refine Triple.ite (fun _ => Triple.throw hstop) fun _ => update_bind ?_
      refine Triple.bind (allFresh_spec.weaken (fun _ h => h) (fun _ _ h => h) ?_) fun success => ?_
      · intro e m hm
        obtain ⟨rfl, hstate⟩ := hm
        rw [hstate]
        exact ⟨hheld.ready, hheld.started, hheld.modest⟩
      · refine triple_at (P := fun w' st' => (w' = w ∧ st' = _) ∧ _) fun w' st' h => ?_
        obtain ⟨⟨rfl, rfl⟩, hsuccess⟩ := h
        refine update_at fun m hm => ?_
        obtain ⟨rfl, hstate⟩ := hm
        rw [hstate]
        cases success with
        | false =>
          exact reported_afterCycle hheld.ready hheld.started fun t ht =>
            Or.inl (hheld.modest t ht)
        | true =>
          obtain ⟨hclean, hfresh⟩ := hsuccess rfl
          refine reported_afterCycle hheld.ready hheld.started fun t ht => Or.inr ?_
          obtain rfl := Option.some.inj ht
          have hsuccess : Success m.world st.roundStart completed :=
            success_of_cleanRound hheld.ready.settled hsound hphase hsees hcycle
              (not_not.mp hid).symm hcompleted hclean hfresh
          exact hsuccess

theorem finishNow_spec {now : Option Nat} (hheld : Held before w st) (hsound : Sound w st)
    (hphase : st.phase = .refresh) :
    Triple (At w st) (finishNow o spec now)
      (fun _ m => Reported before m.world m.state) (fun _ m => Held before m.world m.state) := by
  refine look_bind (fun e m hm => ?_) (finish_spec hheld hsound hphase ⟨rfl, rfl, rfl, rfl⟩)
  obtain ⟨rfl, rfl⟩ := hm
  exact hheld

/-- The end of a step whose cycle may go on. -/
theorem capacityFailure_bind {k : Unit → Process Unit} (hheld : Held before w st)
    (h : Triple (At w st) (k ()) (fun _ m => Reported before m.world m.state)
      (fun _ m => Held before m.world m.state)) :
    Triple (At w st) (capacityFailure o >>= k)
      (fun _ m => Reported before m.world m.state) (fun _ m => Held before m.world m.state) := by
  have hstop : ∀ m, At w st m → Held before m.world m.state := by
    intro m hm
    obtain ⟨rfl, rfl⟩ := hm
    exact hheld
  refine Triple.bind (R := fun _ => At w st) ?_ fun _ => h
  exact look_bind (fun _ => hstop) (Triple.ite (fun _ => Triple.throw hstop) fun _ =>
    Triple.pure fun _ hm => hm)

/-! ### The refresh step -/

/-- **The checkpoint file** holds the old content or the new. -/
theorem saveState_at {Q : Unit → Machine → Prop} {E : Stop → Machine → Prop}
    (hE : ∀ e m, At w st m → E e m)
    (hE' : ∀ e m, At { w with checkpoint := some st } st m → E e m)
    (h : ∀ m, At { w with checkpoint := some st } st m → Q () m) :
    Triple (At w st) (saveState env o) Q E := by
  refine get_bind fun n => Triple.ite (fun _ => ?_) fun _ => Triple.throw (hE _)
  refine access_bind hE (Triple.bind (R := fun _ => At { w with checkpoint := some st } st)
    (Triple.modify fun m hm => ?_) fun _ => access_at hE' h)
  obtain ⟨rfl, rfl⟩ := hm
  exact ⟨rfl, rfl⟩

theorem Held.saved (hheld : Held before w st) (hsound : Sound w st) :
    Held before { w with checkpoint := some st } st := by
  refine ⟨⟨hheld.ready.settled, fun c hc => ?_⟩, hheld.started, hheld.modest⟩
  obtain rfl := Option.some.inj hc
  exact ⟨⟨hsound.started, hsound.round⟩, hheld.modest⟩

theorem saveState_bind {k : Unit → Process Unit} {Q : Unit → Machine → Prop}
    {E : Stop → Machine → Prop} (hE : ∀ e m, At w st m → E e m)
    (hE' : ∀ e m, At { w with checkpoint := some st } st m → E e m)
    (h : Triple (At { w with checkpoint := some st } st) (k ()) Q E) :
    Triple (At w st) (saveState env o >>= k) Q E :=
  Triple.bind (saveState_at hE hE' fun _ hm => hm) fun _ => h

theorem endStep_spec {now : Option Nat} (hheld : Held before w st) (hsound : Sound w st)
    (hphase : st.phase = .refresh) :
    Triple (At w st) (endStep o spec now)
      (fun _ m => Reported before m.world m.state) (fun _ m => Held before m.world m.state) := by
  refine capacityFailure_bind hheld (get_bind fun n => look_bind (fun e m hm => ?_)
    (Triple.ite (fun _ => finishNow_spec hheld hsound hphase) fun _ => Triple.pure fun m hm => ?_))
  · obtain ⟨rfl, rfl⟩ := hm
    exact hheld
  · obtain ⟨rfl, rfl⟩ := hm
    exact hheld.reported hsound

theorem endFirstStep_spec {now : Option Nat} (hheld : Held before w st) (hsound : Sound w st)
    (hphase : st.phase = .refresh) :
    Triple (At w st) (endFirstStep o spec now)
      (fun _ m => Reported before m.world m.state) (fun _ m => Held before m.world m.state) := by
  have hstop : ∀ m, At w st m → Held before m.world m.state := by
    intro m hm
    obtain ⟨rfl, rfl⟩ := hm
    exact hheld
  refine capacityFailure_bind hheld (look_bind (fun _ => hstop) ?_)
  cases w.store.cycle with
  | none => exact Triple.throw hstop
  | some current =>
    refine Triple.ite (fun _ => finishNow_spec hheld hsound hphase) fun _ =>
      Triple.pure fun m hm => ?_
    obtain ⟨rfl, rfl⟩ := hm
    exact hheld.reported hsound

/-- The items of a step, before its end. -/
theorem reconcileStep_bind {k : Unit → Process Unit} (hheld : Held before w st)
    (hsound : Sound w st)
    (h : ∀ w, Held before w st → Sound w st → Triple (At w st) (k ())
      (fun _ m => Reported before m.world m.state) (fun _ m => Held before m.world m.state)) :
    Triple (At w st) (reconcileStep env o >>= k)
      (fun _ m => Reported before m.world m.state) (fun _ m => Held before m.world m.state) := by
  have hstable : Stable env (fun _ => True) fun w => Held before w st ∧ Sound w st :=
    fun _ _ _ _ _ _ h hcommit => ⟨h.1.commit hcommit, h.2.commit hcommit⟩
  refine Triple.bind (((reconcileStep_calls : Calls env (fun _ => True) (reconcileStep env o))
    _ st hstable).weaken
    (fun m hm => ?_) (fun _ _ h => h) fun e m hm => hm.2 ▸ hm.1.1) fun _ => ?_
  · obtain ⟨rfl, rfl⟩ := hm
    exact ⟨⟨hheld, hsound⟩, rfl⟩
  · refine triple_at (P := fun w' st' => (Held before w' st ∧ Sound w' st) ∧ st' = st)
      fun w' st' hw' => ?_
    obtain ⟨⟨hheld', hsound'⟩, rfl⟩ := hw'
    exact h w' hheld' hsound'

theorem continueRefresh_spec {base : Base} {now : Option Nat} (hheld : Held before w st)
    (hsound : Sound w st) (hphase : st.phase = .refresh) (hsees : Sees base w) :
    Triple (At w st) (continueRefresh env o spec base now)
      (fun _ m => Reported before m.world m.state) (fun _ m => Held before m.world m.state) :=
  Triple.ite (fun _ => finish_spec hheld hsound hphase hsees) fun _ =>
    reconcileStep_bind hheld hsound fun _ hheld hsound => endStep_spec hheld hsound hphase

theorem beginCycle_reply {identity : String} {reply : Reply}
    (h : step env s (.beginCycle identity) = .ok (s', reply)) : ∃ c, reply = .cycle c := by
  simp only [step, beginCycle] at h
  split at h
  · split at h
    · cases h
    · split at h
      · cases h
      · exact ⟨_, (Prod.mk.inj (Except.ok.inj h)).2.symm⟩
  · split at h
    · exact ⟨_, (Prod.mk.inj (Except.ok.inj h)).2.symm⟩
    · split at h
      · cases h
      · split at h
        · cases h
        · exact ⟨_, (Prod.mk.inj (Except.ok.inj h)).2.symm⟩

/-- `begin_cycle` begins one when there is none that goes on. -/
theorem beginCycle_begun {identity : String} {reply : Reply}
    (h : step env s (.beginCycle identity) = .ok (s', reply))
    (hdone : s.cycle.all Cycle.attemptedComplete = true) :
    ∃ c, s'.cycle = some c ∧ .refreshBegun c.cycleId ∈ recoveryEvents env s (.beginCycle identity) := by
  simp only [recoveryEvents, h]
  obtain ⟨c, rfl⟩ := beginCycle_reply h
  have heffect := step_effect h
  cases heffect with
  | cycleRunning hc hrunning =>
    rw [hc, Option.all_some, hrunning] at hdone
    cases hdone
  | ignored hreply => rcases hreply with hreply | hreply <;> cases hreply
  | cycleBegun hprev =>
    rw [(recoverIfComplete_frame _).2.1]
    exact ⟨_, rfl, by simp only [Op.events, hdone, if_true]; simp⟩

theorem openCycle_spec (hheld : Held before w st) :
    Triple (At w st) (openCycle env o)
      (fun r m => ∃ w', (r = w'.store.cycle ∧
        ∃ now identity reply, w.commit env now (.beginCycle identity) = .ok (w', reply)) ∧ At w' st m)
      (fun _ m => Held before m.world m.state) := by
  refine ask_bind fun identity => call_bind (fun e m hm => ?_)
    (fun w' now reply hcommit e m hm => ?_) fun w' now reply hcommit => get_bind fun n =>
      Triple.pure fun m hm => ⟨w', ⟨rfl, now, identity, reply, hcommit⟩, hm⟩
  · obtain ⟨rfl, rfl⟩ := hm
    exact hheld
  · obtain ⟨rfl, rfl⟩ := hm
    exact hheld.commit hcommit

/-- A failed check of the sources is recorded and ends the step. -/
theorem checkSources_spec {base : Base} (hheld : Held before w st) :
    Triple (At w st) (checkSources env o base) (fun _ => At w st)
      (fun _ m => Held before m.world m.state) := by
  have hstop : ∀ m, At w st m → Held before m.world m.state := by
    intro m hm
    obtain ⟨rfl, rfl⟩ := hm
    exact hheld
  refine Triple.ite (fun _ => ?_) fun _ => Triple.pure fun _ hm => hm
  refine catching_triple (R := fun _ => At w st) (access_at (fun _ _ hm => hm) fun _ hm => hm) hstop
    fun c => call_bind (fun _ => hstop) (fun w' now reply hcommit e m hm => ?_)
      fun w' now reply hcommit => update_bind (Triple.throw fun m hm => ?_)
  · obtain ⟨rfl, rfl⟩ := hm
    exact hheld.commit hcommit
  · rw [hm.1, hm.2]
    have hheld' := hheld.commit hcommit
    exact ⟨hheld'.ready, hheld'.started, hheld'.modest⟩

theorem firstStep_spec {current : Cycle} {now : Option Nat} (hheld : Held before w st)
    (hsound : Sound w st) (hphase : st.phase = .refresh) :
    Triple (At w st) (firstStep env o spec current now)
      (fun _ m => Reported before m.world m.state) (fun _ m => Held before m.world m.state) := by
  refine ask_bind fun late => Triple.ite (fun _ => Triple.throw fun m hm => ?_) fun _ =>
    Triple.ite (fun _ => endFirstStep_spec hheld hsound hphase) fun _ =>
      reconcileStep_bind hheld hsound fun _ hheld hsound => endFirstStep_spec hheld hsound hphase
  obtain ⟨rfl, rfl⟩ := hm
  exact hheld

/-- The cycle that was just begun is one the round follows. -/
theorem Sound.follow {now : Nat} {identity : String} {reply : Reply} (h : Sound w st)
    (hphase : st.phase = .refresh) (hdone : w.store.cycle.all Cycle.attemptedComplete = true)
    (hcommit : w.commit env now (.beginCycle identity) = .ok (w', reply)) (id : Option String) :
    Sound w' { st with refreshId := id } := by
  obtain ⟨hlength, hdrop⟩ := drop_commit hcommit h.started
  refine ⟨hlength, fun hqualified => ?_⟩
  have hround := h.round hqualified
  simp only [RoundSound, hphase] at hround ⊢
  obtain ⟨id, t₁, t₂, hid, hes, hbegun, -⟩ := hround
  obtain ⟨c, hc, hevent⟩ := beginCycle_begun (commit_ok hcommit).1 hdone
  refine ⟨id, t₁, t₂ ++ recoveryEvents env w.store (.beginCycle identity), hid, ?_, hbegun, ?_⟩
  · rw [hdrop, hes]
    simp
  · intro c' hc'
    obtain rfl := Option.some.inj (hc.symm.trans hc')
    exact Or.inr (List.mem_append_right t₂ hevent)

theorem beginRefresh_spec {base : Base} {now : Option Nat} (hheld : Held before w st)
    (hsound : Sound w st) (hphase : st.phase = .refresh)
    (hdone : w.store.cycle.all Cycle.attemptedComplete = true) :
    Triple (At w st) (beginRefresh env o spec base now)
      (fun _ m => Reported before m.world m.state) (fun _ m => Held before m.world m.state) := by
  refine Triple.bind (checkSources_spec hheld) fun _ => Triple.bind (openCycle_spec hheld) fun r => ?_
  refine Triple.exists fun w' => Triple.of_fact fun ⟨hr, at', identity, reply, hcommit⟩ => ?_
  have hheld' : Held before w' st := hheld.commit hcommit
  cases r with
  | none =>
    refine Triple.throw fun m hm => ?_
    obtain ⟨rfl, rfl⟩ := hm
    exact hheld'
  | some current =>
    have hsound' := hsound.follow hphase hdone hcommit (some current.cycleId)
    have hheld' : Held before w' { st with refreshId := some current.cycleId } :=
      ⟨hheld'.ready, hheld'.started, hheld'.modest⟩
    refine update_bind (saveState_bind (fun e m hm => ?_) (fun e m hm => ?_)
      (firstStep_spec (hheld'.saved hsound') ⟨hsound'.started, hsound'.round⟩ hphase))
    · rw [hm.1, hm.2]
      exact hheld'
    · rw [hm.1, hm.2]
      exact hheld'.saved hsound'

theorem Sound.requalify {base : Base} (h : Sound w st) : Sound w (st.requalify base) := by
  unfold Checkpoint.requalify
  split
  · exact h
  · exact sound_of_unqualified h.started rfl

theorem requalify_frame (base : Base) (c : Checkpoint) :
    (c.requalify base).phase = c.phase ∧ (c.requalify base).lastSuccessAt = c.lastSuccessAt ∧
      (c.requalify base).roundStart = c.roundStart := by
  unfold Checkpoint.requalify
  split <;> exact ⟨rfl, rfl, rfl⟩

/-- A cycle the round did not know was begun since. -/
theorem Sound.adoptCycle {base : Base} (h : Sound w st) (hphase : st.phase = .refresh)
    (hsees : Sees base w) (hnone : st.refreshId = none)
    (hnew : base.cycleId ≠ st.previousRefreshId) :
    Sound w { st with refreshId := base.cycleId } := by
  refine ⟨h.started, fun hqualified => ?_⟩
  have hround := h.round hqualified
  simp only [RoundSound, hphase] at hround ⊢
  obtain ⟨id, t₁, t₂, hid, hes, hbegun, hcycle⟩ := hround
  refine ⟨id, t₁, t₂, hid, hes, hbegun, fun c hc => Or.inr ((hcycle c hc).resolve_left ?_)⟩
  intro hknew
  simp only [Checkpoint.knewCycle, hnone] at hknew
  exact hnew (by rw [hknew, Base.cycleId, hsees.cycle, hc]; rfl)

/-- **`_refresh_step`.** -/
theorem refreshStep_spec {base : Base} {now : Option Nat} (hheld : Held before w st)
    (hsound : Sound w st) (hphase : st.phase = .refresh) (hsees : Sees base w) :
    Triple (At w st) (refreshStep env o spec base now)
      (fun _ m => Reported before m.world m.state) (fun _ m => Held before m.world m.state) := by
  refine update_bind ?_
  obtain ⟨hframe, hlast, hstart⟩ := requalify_frame base st
  replace hheld : Held before w (st.requalify base) :=
    ⟨hheld.ready, hstart ▸ hheld.started, fun t ht => hheld.modest t (hlast ▸ ht)⟩
  replace hsound : Sound w (st.requalify base) := hsound.requalify
  replace hphase := hframe.trans hphase
  generalize st.requalify base = st at *
  refine get_bind fun n => Triple.ite (fun _ => realign_reported hheld hsees) fun _ =>
    Triple.ite (fun _ => continueRefresh_spec hheld hsound hphase hsees) fun hnone =>
      Triple.ite (fun hnew => update_bind ?_) fun hsame =>
        Triple.ite (fun _ => update_bind ?_) fun hdone => ?_
  · simp only [Bool.not_eq_true, Option.isSome_eq_false_iff, Option.isNone_iff_eq_none] at hnone
    simp only [Bool.and_eq_true, decide_eq_true_eq] at hnew
    exact continueRefresh_spec ⟨hheld.ready, hheld.started, hheld.modest⟩
      (hsound.adoptCycle hphase hsees hnone hnew.2) hphase hsees
  · exact continueRefresh_spec ⟨hheld.ready, hheld.started, hheld.modest⟩
      (sound_of_unqualified hsound.started rfl) hphase hsees
  · refine beginRefresh_spec hheld hsound hphase ?_
    rw [← hsees.cycle]
    cases hcycle : base.cycle with
    | none => rfl
    | some c => simpa [hcycle] using hdone

/-! ### The tick -/

theorem reported_rest (h : Reported before w st) : Reported before w st.rest := by
  unfold Checkpoint.rest
  split
  · exact ⟨h.settled, ⟨h.sound.started, h.sound.round⟩, h.honest, h.durable⟩
  · exact h

theorem failed_frame (spec : RefreshSpec) (base : Base) (c : String) (now : Nat) (st : Checkpoint) :
    (st.failed spec base c now).qualified = false ∧
      (st.failed spec base c now).lastSuccessAt = st.lastSuccessAt ∧
      (st.failed spec base c now).roundStart = st.roundStart := by
  refine ⟨?_, ?_, ?_⟩ <;> simp only [Checkpoint.failed] <;> split <;> rfl

/-- The step of a round, whatever stops it. -/
theorem guardedStep_spec {base : Base} {now : Option Nat} (hheld : Held before w st)
    (hsound : Sound w st) (hphase : st.phase ≠ .idle) (hsees : Sees base w) :
    Triple (At w st) (guardedStep env o spec base now)
      (fun _ m => Reported before m.world m.state) (fun _ m => Durable before m.world) := by
  refine catching_triple (R := fun _ m => Held before m.world m.state) ?_
    (fun _ h => h.ready.durable) fun c => ?_
  · refine Triple.bind (R := fun _ m => Reported before m.world m.state) ?_ fun _ =>
      Triple.modify fun m h => reported_rest h
    refine get_bind fun n => Triple.ite (fun hdiscover => ?_) fun hother => ?_
    · exact discoveryStep_spec hheld hsound hdiscover hsees
    · refine refreshStep_spec hheld hsound ?_ hsees
      cases hst : st.phase with
      | idle => exact absurd hst hphase
      | discover => exact absurd hst hother
      | refresh => rfl
  · refine triple_at fun w st hheld => look_bind (fun e m hm => hm.1 ▸ hheld.ready.durable)
      (nowOr_bind fun now => update_at fun m hm => ?_)
    obtain ⟨hunqualified, hlast, hstart⟩ := failed_frame spec (w.base spec.configSha) c now st
    rw [hm.1, hm.2]
    refine Held.reported ⟨hheld.ready, hstart ▸ hheld.started, fun t ht => ?_⟩
      (sound_of_unqualified (hstart ▸ hheld.started) hunqualified)
    exact hheld.modest t (hlast ▸ ht)

theorem Reported.saved (h : Reported before w st) :
    Durable before { w with checkpoint := some st } := by
  refine ⟨h.settled, fun c hc => ?_⟩
  obtain rfl := Option.some.inj hc
  exact ⟨⟨h.sound.started, h.sound.round⟩, h.honest⟩

theorem Reported.toDurable (h : Reported before w st) : Durable before w := ⟨h.settled, h.durable⟩

theorem loadState_bind {β : Type} {k : Option Checkpoint → Process β} {Q : β → Machine → Prop}
    {E : Stop → Machine → Prop} (hE : ∀ e m, At w st m → E e m)
    (h : ∀ c, c = none ∨ c = w.checkpoint → Triple (At w st) (k c) Q E) :
    Triple (At w st) (loadState o >>= k) Q E := by
  refine Triple.bind (R := fun c m => (c = none ∨ c = w.checkpoint) ∧ At w st m) ?_ fun c =>
    Triple.of_fact (h c)
  refine catching_triple (R := fun _ => At w st) ?_ (hE _) fun _ =>
    Triple.pure fun _ hm => ⟨Or.inl rfl, hm⟩
  exact access_bind (fun _ _ hm => hm) (get_bind fun n => Triple.pure fun m hm => ⟨Or.inr rfl, hm⟩)

/-- The checkpoint a tick starts from says no more than the file did. -/
theorem startingState_held {loaded : Option Checkpoint} (binding : Binding) (now : Nat)
    (hready : Ready before w) (hloaded : loaded = none ∨ loaded = w.checkpoint) :
    Held before w (startingState binding now loaded) ∧
      Sound w (startingState binding now loaded) := by
  have hnew : Held before w (newState binding) ∧ Sound w (newState binding) :=
    ⟨⟨hready, Nat.zero_le _, by intro t ht; cases ht⟩,
      sound_of_unqualified (Nat.zero_le _) rfl⟩
  cases loaded with
  | none => exact hnew
  | some c =>
    rcases hloaded with hloaded | hloaded
    · cases hloaded
    · obtain ⟨hsound, hmodest⟩ := hready.sound c hloaded.symm
      have hold : Held before w c ∧ Sound w c := ⟨⟨hready, hsound.started, hmodest⟩, hsound⟩
      simp only [startingState]
      split
      · exact hnew
      · split
        · exact hold
        · split
          · exact hnew
          · exact hold

theorem start_frame (base : Base) (n : Nat) (c : Checkpoint) :
    (c.start base n).phase ≠ .idle ∧ (c.start base n).lastSuccessAt = c.lastSuccessAt := by
  unfold Checkpoint.start
  split
  · exact ⟨by simp, rfl⟩
  · split <;> exact ⟨by simp, rfl⟩

theorem startIfIdle_bind {base : Base} {k : Unit → Process Unit} {Q : Unit → Machine → Prop}
    {E : Stop → Machine → Prop} (hheld : Held before w st) (hsound : Sound w st)
    (hsees : Sees base w)
    (h : ∀ st, Held before w st → Sound w st → st.phase ≠ .idle → Triple (At w st) (k ()) Q E) :
    Triple (At w st) (startIfIdle base >>= k) Q E := by
  refine Triple.bind (R := fun _ m => ∃ st, (Held before w st ∧ Sound w st ∧ st.phase ≠ .idle) ∧
    At w st m) ?_ fun _ => Triple.exists fun st => Triple.of_fact fun ⟨h₁, h₂, h₃⟩ => h st h₁ h₂ h₃
  refine get_bind fun n => Triple.ite (fun _ => startRound_at fun m hm => ?_) fun hphase =>
    Triple.pure fun m hm => ⟨st, ⟨hheld, hsound, hphase⟩, hm⟩
  obtain ⟨hphase, hlast⟩ := start_frame base w.log.length st
  have hsound' := sound_start st hsees.discovery
  exact ⟨_, ⟨⟨hheld.ready, hsound'.started, fun t ht => hheld.modest t (hlast ▸ ht)⟩, hsound',
    hphase⟩, hm⟩

/-- **`tick`.** -/
theorem tick_spec {now : Option Nat} (hready : Ready before w) :
    Triple (At w st) (tick env o spec now) (fun _ m => Durable before m.world)
      (fun _ m => Durable before m.world) := by
  have hbefore : ∀ st m, At w st m → Durable before m.world :=
    fun st m hm => hm.1 ▸ hready.durable
  refine Triple.ite (fun _ => ?_) fun _ => Triple.pure (hbefore st)
  refine nowOr_bind fun current => access_bind (fun _ => hbefore _) (access_bind (fun _ => hbefore _)
    (look_bind (fun _ => hbefore _) (loadState_bind (fun _ => hbefore _) fun loaded hloaded => ?_)))
  obtain ⟨hheld, hsound⟩ := startingState_held (w.base spec.configSha).binding current hready hloaded
  refine update_bind (get_bind fun n => Triple.ite (fun _ => Triple.pure (hbefore _)) fun _ => ?_)
  refine startIfIdle_bind hheld hsound ⟨rfl, rfl, rfl, rfl⟩ fun st hheld hsound hphase => ?_
  have hheld' : Held before w { st with
      progress := .running, lastAttemptAt := some current, nextAttemptAt := none } :=
    ⟨hheld.ready, hheld.started, hheld.modest⟩
  have hsound' : Sound w { st with
      progress := .running, lastAttemptAt := some current, nextAttemptAt := none } :=
    ⟨hsound.started, hsound.round⟩
  have hsaved := hheld'.saved hsound'
  refine update_bind (saveState_bind (fun _ => hbefore _) (fun e m hm => hm.1 ▸ hsaved.ready.durable)
    (Triple.bind (guardedStep_spec hsaved ⟨hsound'.started, hsound'.round⟩ hphase
      ⟨rfl, rfl, rfl, rfl⟩) fun _ => ?_))
  refine triple_at fun w st hreported => ?_
  refine saveState_bind (fun e m hm => hm.1 ▸ hreported.toDurable)
    (fun e m hm => hm.1 ▸ hreported.saved) (access_at (fun e m hm => hm.1 ▸ hreported.saved)
      fun m hm => hm.1 ▸ hreported.saved)

/-! ### Runs -/

/-- The processes of the other commands keep what calls keep. -/
theorem durable_of_calls {α : Type} {K : Op → Prop} {x : Process α} (h : Calls env K x)
    (hready : Ready before w) :
    Triple (At w st) x (fun _ m => Durable before m.world) (fun _ m => Durable before m.world) := by
  refine (h (Ready before) st Ready.stable).weaken (fun m hm => ?_) (fun _ _ hm => hm.1.durable)
    fun _ _ hm => hm.1.durable
  obtain ⟨rfl, rfl⟩ := hm
  exact ⟨hready, rfl⟩

end Steps

/-- **One command**, whatever it takes from outside and wherever it stops. -/
theorem next_durable {before : Option Nat} (hready : Ready before w) (x : Outside × Command) :
    Durable before (w.next env x) := by
  obtain ⟨o, command⟩ := x
  have h : Triple (At w (newState ⟨"", "", ""⟩)) (command.process env o)
      (fun _ m => Durable before m.world) (fun _ m => Durable before m.world) := by
    cases command with
    | tick spec now => exact tick_spec hready
    | discover => exact durable_of_calls (discover_calls.bind fun _ => Calls.pure _) hready
    | refresh configSha => exact durable_of_calls (refresh_calls configSha) hready
    | call op => exact durable_of_calls (Calls.call (K := fun _ => True) trivial) hready
  have hend := h ⟨w, newState ⟨"", "", ""⟩, 0⟩ ⟨rfl, rfl⟩
  unfold World.next
  simp only
  split at hend <;> rename_i heq <;> rw [heq] <;> exact hend

/-- The last success the checkpoint file tells of. -/
def World.lastSuccess (w : World) : Option Nat := w.checkpoint.bind Checkpoint.lastSuccessAt

theorem ready_of_durable {before : Option Nat} (h : Durable before w) : Ready w.lastSuccess w :=
  ⟨h.settled, fun c hc => ⟨(h.sound c hc).1, fun t ht => by rw [World.lastSuccess, hc]; exact ht⟩⟩

theorem ready_run (env : Env) (storeId queryEpoch : String) (catalogMinSeq : Nat)
    (xs : List (Outside × Command)) :
    Ready (run (World.next env) (World.create storeId queryEpoch catalogMinSeq) xs).lastSuccess
      (run (World.next env) (World.create storeId queryEpoch catalogMinSeq) xs) := by
  refine run_preserves (P := fun w => Ready w.lastSuccess w)
    (fun w x h => ready_of_durable (next_durable h x)) ?_
  exact ⟨settled_create catalogMinSeq, fun c hc => by cases hc⟩

/-- **A success of the checkpoint did happen.** Take any run of ticks, manual commands and other
calls, each with any readings of the clock, any failures of the sources and any point where it
crashes. When the checkpoint file tells of a success it did not tell of before the last command,
the current discovery and the current refresh cycle began after the round did, the discovery was
complete before the cycle began, the cycle finished at the time told with every item published or
unchanged, no revalidation is pending and every registration is fresh. -/
theorem success_is_real (env : Env) (storeId queryEpoch : String) (catalogMinSeq : Nat)
    (xs : List (Outside × Command)) (x : Outside × Command) (c : Checkpoint) (t : Nat)
    (hc : (run (World.next env) (World.create storeId queryEpoch catalogMinSeq)
      (xs ++ [x])).checkpoint = some c)
    (ht : c.lastSuccessAt = some t)
    (hnew : (run (World.next env) (World.create storeId queryEpoch catalogMinSeq) xs).lastSuccess
      ≠ some t) :
    Success (run (World.next env) (World.create storeId queryEpoch catalogMinSeq) (xs ++ [x]))
      c.roundStart t := by
  have hready := ready_run env storeId queryEpoch catalogMinSeq xs
  rw [run_append] at hc ⊢
  generalize run (World.next env) (World.create storeId queryEpoch catalogMinSeq) xs = w at *
  exact (((next_durable hready x).sound c hc).2 t ht).resolve_left hnew

/-- An anchor is registered; of two ticks, the second publishes its case. -/
theorem success_is_real_two_ticks :
    let hex := String.ofList (List.replicate 32 'a')
    let env : Env := ⟨⟨5, 5, 1000⟩, "producer", fun _ value => .ok value, []⟩
    let o : Outside := ⟨fun _ => 5, fun _ => hex, fun _ => none, fun _ => false, fun _ => .ok 0,
      fun _ => .error "evidence_invalid",
      fun _ => .ok ⟨.accepted "JOINT-1", "sha", "x", "", "anchor"⟩⟩
    let x : Outside × Command :=
      (o, .tick ⟨true, 10, 3, String.ofList (List.replicate 64 'a')⟩ none)
    let xs : List (Outside × Command) := [(o, .call (.register [⟨"network-1", 1⟩])), x]
    let w := run (World.next env) (World.create hex hex 1) (xs ++ [x])
    w.store.revisions.length = 1 ∧ Success w 0 5 := by
  intro hex env o x xs w
  have hnew : (run (World.next env) (World.create hex hex 1) xs).lastSuccess ≠ some 5 := by
    decide +kernel
  have hlast : w.lastSuccess = some 5 ∧ w.checkpoint.map Checkpoint.roundStart = some 0 := by
    decide +kernel
  obtain ⟨c, hc, ht⟩ := Option.bind_eq_some_iff.mp hlast.1
  have hstart : c.roundStart = 0 := by
    rw [hc] at hlast
    exact Option.some.inj hlast.2
  exact ⟨by decide +kernel, hstart ▸ success_is_real env hex hex 1 xs x c 5 hc ht hnew⟩

end RiskOps.Joint.Refresh
