import RiskOps.Joint.CaseStoreSpec

/-!
# RiskOps.Joint.CaseStoreCycles — each item of a refresh cycle is settled once

Workers hold `WorkItem`s of the current cycle or of an older one and call `publish` and `fail` with
them at any time. `Settled` relates the counters of the cycle row to the states of its items; the
events of a run (`cycleEvents`) record which item each call finished.
-/

namespace RiskOps.Joint

open RiskOps.Lib

/-- The counter of an outcome. -/
def Cycle.counter (c : Cycle) : Outcome → Nat
  | .published => c.published
  | .unchanged => c.unchanged
  | .failed => c.failed
  | .notEligible => c.notEligible
  | .superseded => c.superseded

/-- The number of items of the cycle in state `pending`. -/
def Store.pendingCount (s : Store) : Nat := s.items.countP Item.isPending

/-- The number of items that ended with an outcome. -/
def Store.settledCount (s : Store) (o : Outcome) : Nat :=
  s.items.countP fun i => i.outcome = some o

/-- The cycle row describes its items. -/
structure Settled (s : Store) : Prop where
  registrations : (s.registrations.map Registration.seq).Nodup
  items : (s.items.map Item.registrationSeq).Nodup
  owned : ∀ i ∈ s.items, ∃ c, s.cycle = some c ∧ c.cycleId = i.cycleId
  counted : ∀ c, s.cycle = some c →
    c.itemCount = s.items.length ∧ ∀ o, c.counter o = s.settledCount o

/-- What a publication adds to. -/
def Store.catalogue (s : Store) : List CaseRow × List RevisionRow × List SummaryRow × Counters :=
  (s.cases, s.revisions, s.summaries, s.counters)

theorem settled_create (catalogMinSeq : Nat) : Settled (Store.create catalogMinSeq) := by
  constructor <;> simp [Store.create]

/-- Every item is pending or has one of the outcomes. -/
theorem length_items (items : List Item) :
    items.length = items.countP Item.isPending + items.countP (fun i => i.outcome = some .published)
      + items.countP (fun i => i.outcome = some .unchanged)
      + items.countP (fun i => i.outcome = some .failed)
      + items.countP (fun i => i.outcome = some .notEligible)
      + items.countP (fun i => i.outcome = some .superseded) := by
  induction items with
  | nil => rfl
  | cons i items ih =>
    obtain ⟨cycleId, seq, generation, revision, outcome, error⟩ := i
    cases outcome with
    | none => simp [List.countP_cons, Item.isPending] at ih ⊢; omega
    | some o => cases o <;> simp [Item.isPending] at ih ⊢ <;> omega

variable {s : Store}

/-- **Counters.** What is not counted as attempted is pending. -/
theorem Settled.attempted (h : Settled s) {c : Cycle} (hc : s.cycle = some c) :
    c.attempted + s.pendingCount = c.itemCount := by
  obtain ⟨hcount, hcounter⟩ := h.counted c hc
  have hlength := length_items s.items
  have h₁ := hcounter .published
  have h₂ := hcounter .unchanged
  have h₃ := hcounter .failed
  have h₄ := hcounter .notEligible
  have h₅ := hcounter .superseded
  simp only [Cycle.counter, Store.settledCount] at h₁ h₂ h₃ h₄ h₅
  rw [hcount, hlength, Cycle.attempted, h₁, h₂, h₃, h₄, h₅, Store.pendingCount]
  omega

/-! ### Registering and beginning a cycle -/

theorem le_foldl_max {l : List Nat} {n a : Nat} (h : n ∈ l ∨ n ≤ a) : n ≤ l.foldl max a := by
  induction l generalizing a with
  | nil => simpa using h
  | cons m l ih =>
    refine ih ?_
    rcases h with h | h
    · rcases List.mem_cons.mp h with rfl | h
      · exact Or.inr (Nat.le_max_right a n)
      · exact Or.inl h
    · exact Or.inr (Nat.le_trans h (Nat.le_max_left a m))

variable {r : Registration}

theorem seq_le_lastSeq {rows : List Registration} (h : r ∈ rows) : r.seq ≤ lastSeq rows :=
  le_foldl_max (Or.inl (List.mem_map.mpr ⟨r, h, rfl⟩))

/-- A new registration gets a new sequence number. -/
theorem registerOne_nodup {limit : Nat} {x y : List Registration × RegisterSummary}
    {item : AnchorRequest} (hy : registerOne limit x item = .ok y)
    (hx : (x.1.map Registration.seq).Nodup) : (y.1.map Registration.seq).Nodup := by
  rcases registerOne_cases hy with heq | ⟨-, heq⟩ | ⟨seq, heq⟩
  · rw [heq]
    exact hx
  · rw [heq, List.map_append, List.nodup_append]
    refine ⟨hx, by simp, ?_⟩
    intro n hn m hm hnm
    obtain ⟨r, hr, rfl⟩ := List.mem_map.mp hn
    simp only [List.map_cons, List.map_nil, List.mem_singleton, newRegistration] at hm
    have := seq_le_lastSeq hr
    omega
  · rw [heq, map_seq_updateRegistration (fun r => ?_)]
    · exact hx
    · rfl

theorem registerAll_nodup {limit : Nat} {rows rows' : List Registration}
    {requests : List AnchorRequest} {summary : RegisterSummary}
    (h : registerAll limit rows requests = .ok (rows', summary))
    (hrows : (rows.map Registration.seq).Nodup) : (rows'.map Registration.seq).Nodup :=
  registerAll_invariant (P := fun x => (x.map Registration.seq).Nodup)
    (fun _ _ _ hy hx => registerOne_nodup hy hx) h hrows

variable {s' : Store}

/-- A call that leaves the cycle and its items alone. -/
theorem Settled.congr (h : Settled s)
    (hregistrations : (s'.registrations.map Registration.seq).Nodup) (hcycle : s'.cycle = s.cycle)
    (hitems : s'.items = s.items) : Settled s' where
  registrations := hregistrations
  items := by rw [hitems]; exact h.items
  owned := by rw [hitems, hcycle]; exact h.owned
  counted := by simp only [hcycle, Store.settledCount, hitems]; exact h.counted

theorem recoverIfComplete_frame (s : Store) :
    s.recoverIfComplete.registrations = s.registrations ∧ s.recoverIfComplete.cycle = s.cycle ∧
      s.recoverIfComplete.items = s.items ∧ s.recoverIfComplete.catalogue = s.catalogue := by
  rcases recoverIfComplete_eq s with heq | heq <;> rw [heq] <;> exact ⟨rfl, rfl, rfl, rfl⟩

theorem Settled.recoverIfComplete (h : Settled s) : Settled s.recoverIfComplete := by
  obtain ⟨hregistrations, hcycle, hitems, -⟩ := recoverIfComplete_frame s
  exact h.congr (by rw [hregistrations]; exact h.registrations) hcycle hitems

/-- The frozen items are those of all registrations. -/
theorem withCycle_items (s : Store) (identity : String) :
    (s.withCycle identity).items = s.registrations.map (freeze identity) := by
  have hall : (s.registrations.filter fun r => r.seq ≤ lastSeq s.registrations)
      = s.registrations := by
    refine List.filter_eq_self.mpr fun r hr => ?_
    simpa using seq_le_lastSeq hr
  simp only [Store.withCycle]
  rw [hall]

theorem Settled.withCycle (h : Settled s) (identity : String) :
    Settled (s.withCycle identity) where
  registrations := h.registrations
  items := by
    rw [withCycle_items, List.map_map]
    exact h.registrations
  owned := by
    rw [withCycle_items]
    intro i hi
    obtain ⟨r, -, rfl⟩ := List.mem_map.mp hi
    exact ⟨_, rfl, rfl⟩
  counted := by
    intro c hc
    obtain rfl := Option.some.inj hc
    have hnone : ∀ o, (s.withCycle identity).settledCount o = 0 := by
      intro o
      rw [Store.settledCount, withCycle_items, List.countP_eq_zero]
      intro i hi
      obtain ⟨r, -, rfl⟩ := List.mem_map.mp hi
      simp [freeze]
    rw [withCycle_items]
    refine ⟨by simp, fun o => ?_⟩
    rw [hnone o]
    cases o <;> rfl

/-! ### Finishing an item -/

/-- The item after it was finished. -/
def Item.finish (o : Outcome) (error : Option String) (i : Item) : Item :=
  { i with outcome := some o, fixedErrorCode := error }

/-- The items after `_finish`. -/
def finishItems (item : WorkItem) (o : Outcome) (error : Option String) (items : List Item) :
    List Item :=
  items.map fun i => if item.names i then i.finish o error else i

variable {i : Item}

/-- Only the item that was found carries the key of the work item. -/
theorem finishItems_eq {items : List Item} {item : WorkItem} (o : Outcome) (error : Option String)
    (hnodup : (items.map Item.registrationSeq).Nodup) (hfound : items.find? item.names = some i) :
    ∃ l₁ l₂, items = l₁ ++ i :: l₂ ∧
      finishItems item o error items = l₁ ++ i.finish o error :: l₂ := by
  obtain ⟨hname, l₁, l₂, rfl, hl₁⟩ := List.find?_eq_some_iff_append.mp hfound
  refine ⟨l₁, l₂, rfl, ?_⟩
  have hseq : i.registrationSeq = item.registrationSeq := by
    simp only [WorkItem.names, Bool.and_eq_true, decide_eq_true_eq] at hname
    exact hname.2
  rw [List.map_append, List.map_cons, List.nodup_append] at hnodup
  have hl₂ : ∀ j ∈ l₂, item.names j = false := by
    intro j hj
    have hne : i.registrationSeq ≠ j.registrationSeq := by
      intro heq
      refine (List.nodup_cons.mp hnodup.2.1).1 ?_
      rw [heq]
      exact List.mem_map.mpr ⟨j, hj, rfl⟩
    simp only [WorkItem.names, Bool.and_eq_false_iff, decide_eq_false_iff_not]
    exact Or.inr fun heq => hne (hseq.trans heq.symm)
  have hsame : ∀ l : List Item, (∀ j ∈ l, item.names j = false) →
      l.map (fun i => if item.names i then i.finish o error else i) = l := by
    intro l hl
    refine (List.map_congr_left fun j hj => ?_).trans (List.map_id l)
    rw [hl j hj]
    rfl
  rw [finishItems, List.map_append, List.map_cons, hname, if_pos rfl, hsame l₂ hl₂,
    hsame l₁ fun j hj => by simpa using hl₁ j hj]

theorem finish_frame (item : WorkItem) (o : Outcome) (error : Option String) (s : Store) :
    (s.finish item o error).registrations = s.registrations ∧
    (∃ remaining, (s.finish item o error).cycle = s.cycle.map (Cycle.settle o remaining)) ∧
    (s.finish item o error).items = finishItems item o error s.items ∧
    (s.finish item o error).catalogue = s.catalogue := by
  unfold Store.finish
  obtain ⟨hregistrations, hcycle, hitems, hcatalogue⟩ := recoverIfComplete_frame
    { s with
      items := finishItems item o error s.items
      cycle := s.cycle.map (Cycle.settle o
        (((finishItems item o error s.items).filter Item.isPending).map Item.registrationSeq).min?) }
  exact ⟨hregistrations, ⟨_, hcycle⟩, hitems, hcatalogue⟩

theorem settle_counter (o o' : Outcome) (remaining : Option Nat) (c : Cycle) :
    (c.settle o remaining).counter o' = c.counter o' + if o = o' then 1 else 0 := by
  cases o <;> cases o' <;> rfl

theorem settle_frame (o : Outcome) (remaining : Option Nat) (c : Cycle) :
    (c.settle o remaining).cycleId = c.cycleId ∧ (c.settle o remaining).itemCount = c.itemCount := by
  cases o <;> exact ⟨rfl, rfl⟩

theorem Settled.finish (h : Settled s) {item : WorkItem}
    (hfound : s.items.find? item.names = some i) (hpending : i.outcome = none) (o : Outcome)
    (error : Option String) : Settled (s.finish item o error) := by
  obtain ⟨hregistrations, ⟨remaining, hcycle⟩, hitems, -⟩ := finish_frame item o error s
  obtain ⟨l₁, l₂, hsplit, hfinish⟩ := finishItems_eq o error h.items hfound
  rw [hfinish] at hitems
  exact {
    registrations := by rw [hregistrations]; exact h.registrations
    items := by
      rw [hitems]
      have hitems' := h.items
      rw [hsplit] at hitems'
      simpa [Item.finish] using hitems'
    owned := by
      rw [hitems, hcycle]
      intro j hj
      -- Every item was there before, up to its outcome.
      have hold : ∃ j₀ ∈ s.items, j₀.cycleId = j.cycleId := by
        rw [hsplit]
        rcases List.mem_append.mp hj with hj | hj
        · exact ⟨j, List.mem_append_left _ hj, rfl⟩
        · rcases List.mem_cons.mp hj with rfl | hj
          · exact ⟨i, by simp, rfl⟩
          · exact ⟨j, by simp [hj], rfl⟩
      obtain ⟨j₀, hj₀, hid⟩ := hold
      obtain ⟨c, hc, hcid⟩ := h.owned j₀ hj₀
      exact ⟨c.settle o remaining, by rw [hc]; rfl,
        (settle_frame o remaining c).1.trans (hcid.trans hid)⟩
    counted := by
      intro c' hc'
      rw [hcycle] at hc'
      obtain ⟨c, hc, rfl⟩ := Option.map_eq_some_iff.mp hc'
      obtain ⟨hcount, hcounter⟩ := h.counted c hc
      rw [(settle_frame o remaining c).2, hitems, hcount, hsplit]
      refine ⟨by simp, fun o' => ?_⟩
      have hbefore := hcounter o'
      rw [Store.settledCount, hsplit] at hbefore
      rw [settle_counter, hbefore, Store.settledCount, hitems]
      simp only [List.countP_append, List.countP_cons, Item.finish, hpending, Option.some.injEq,
        decide_eq_true_eq]
      by_cases ho : o = o' <;> simp [ho]; omega }

theorem Settled.rows (h : Settled s) {rows : List Registration}
    (hrows : rows.map Registration.seq = s.registrations.map Registration.seq) :
    Settled { s with registrations := rows } :=
  h.congr (by simp only [hrows]; exact h.registrations) rfl rfl

variable {env : Env}

theorem addRevision_frame {item : WorkItem} {value : ValidatedRead} {caseId now : String}
    (h : s.addRevision env item value caseId now = .ok s') :
    s'.cycle = s.cycle ∧ s'.items = s.items ∧ s'.runtime = s.runtime ∧
      s'.discovery = s.discovery := by
  unfold Store.addRevision at h
  simp only at h
  split at h
  · simp at h
  · split at h
    · simp at h
    · rw [← Except.ok.inj h]
      exact ⟨rfl, rfl, rfl, rfl⟩

/-- **One call** keeps the counters of the cycle. -/
theorem Settled.next (h : Settled s) (op : Op) : Settled (next env s op) := by
  rcases next_cases env s op with hsame | ⟨reply, -, heffect⟩
  · rw [hsame]; exact h
  · generalize Joint.next env s op = s' at heffect
    cases heffect with
    | discoveryRunning => exact h
    | cycleRunning => exact h
    | ignored => exact h
    | registered hrows => exact h.congr (registerAll_nodup hrows h.registrations) rfl rfl
    | discoveryBegun => exact h.congr h.registrations rfl rfl
    | pageApplied hcurrent hrows hd =>
      exact h.congr (registerAll_nodup hrows h.registrations) rfl rfl
    | discoveryFailed => exact h.congr h.registrations rfl rfl
    | cycleBegun => exact (h.withCycle _).recoverIfComplete
    | @finished _ item o e i r s₁ rows hop hawaits hs₁ hrows =>
      rcases hs₁ with rfl | ⟨value, caseId, now, -, -, hadd⟩
      · exact (h.rows hrows).finish hawaits.found hawaits.pending o e
      · obtain ⟨hcycle, hitems, -, -⟩ := addRevision_frame hadd
        have hregistrations := addRevision_registrations hadd
        have h₁ : Settled s₁ :=
          h.congr (by rw [hregistrations]; exact h.registrations) hcycle hitems
        refine (h₁.rows (by rw [hrows, hregistrations])).finish (i := i) ?_ hawaits.pending o e
        simp only [hitems]
        exact hawaits.found

theorem settled_run (env : Env) (catalogMinSeq : Nat) (ops : List Op) :
    Settled (run (next env) (Store.create catalogMinSeq) ops) :=
  run_preserves (P := Settled) (fun _ op hs => Settled.next hs op) (settled_create catalogMinSeq)

/-! ### What a run settles -/

inductive CycleEvent
  | begun (cycleId : String)
  | settled (cycleId : String) (registrationSeq : Nat)
  deriving Repr, DecidableEq

/-- The cycle a call begins, and the item it finishes. -/
def cycleEvents (env : Env) (s : Store) (op : Op) : List CycleEvent :=
  match step env s op with
  | .error _ => []
  | .ok (_, reply) =>
    match reply with
    | .cycle _ =>
      match op with
      | .beginCycle identity =>
        if s.cycle.all Cycle.attemptedComplete then [.begun identity] else []
      | _ => []
    | .outcome _ => op.item?.toList.map fun item => .settled item.cycleId item.registrationSeq
    | _ => []

def CycleEvent.begun? : CycleEvent → Option String
  | .begun cycleId => some cycleId
  | .settled _ _ => none

def CycleEvent.settled? : CycleEvent → Option (String × Nat)
  | .begun _ => none
  | .settled cycleId registrationSeq => some (cycleId, registrationSeq)

/-- The identities of the cycles begun. -/
def begunCycles (t : List CycleEvent) : List String := t.filterMap CycleEvent.begun?

/-- The items finished, by cycle and registration. -/
def settledItems (t : List CycleEvent) : List (String × Nat) := t.filterMap CycleEvent.settled?

/-- The key of an item. -/
def Item.key (i : Item) : String × Nat := (i.cycleId, i.registrationSeq)

/-- No item was finished twice so far, and what was finished is no longer pending. -/
structure SettledOnce (t : List CycleEvent) (s : Store) : Prop where
  once : (settledItems t).Nodup
  known : ∀ k ∈ settledItems t, k.1 ∈ begunCycles t
  current : ∀ c, s.cycle = some c → c.cycleId ∈ begunCycles t
  done : ∀ i ∈ s.items, i.key ∈ settledItems t → i.outcome ≠ none

variable {t : List CycleEvent}

theorem SettledOnce.congr (h : SettledOnce t s) (hcycle : s'.cycle = s.cycle)
    (hitems : s'.items = s.items) : SettledOnce (t ++ []) s' := by
  rw [List.append_nil]
  exact ⟨h.once, h.known, by rw [hcycle]; exact h.current, by rw [hitems]; exact h.done⟩

theorem SettledOnce.begun (h : SettledOnce t s) {identity : String}
    (hnew : identity ∉ begunCycles t) :
    SettledOnce (t ++ [.begun identity]) (s.withCycle identity).recoverIfComplete := by
  obtain ⟨-, hcycle, hitems, -⟩ := recoverIfComplete_frame (s.withCycle identity)
  have hsettled : settledItems (t ++ [.begun identity]) = settledItems t := by
    simp [settledItems, CycleEvent.settled?]
  have hbegun : begunCycles (t ++ [.begun identity]) = begunCycles t ++ [identity] := by
    simp [begunCycles, CycleEvent.begun?]
  exact {
    once := by rw [hsettled]; exact h.once
    known := by
      rw [hsettled, hbegun]
      exact fun k hk => List.mem_append_left _ (h.known k hk)
    current := by
      rw [hcycle, hbegun]
      intro c hc
      obtain rfl := Option.some.inj hc
      simp
    done := by
      -- No item of the new cycle was finished: its identity is new.
      rw [hitems, withCycle_items, hsettled]
      intro i hi hkey
      obtain ⟨r, -, rfl⟩ := List.mem_map.mp hi
      exact absurd (h.known _ hkey) hnew }

theorem Store.Awaits.key {item : WorkItem} (h : s.Awaits item i r) :
    i.key = (item.cycleId, item.registrationSeq) := by
  have hname := List.find?_some h.found
  simp only [WorkItem.names, Bool.and_eq_true, decide_eq_true_eq] at hname
  rw [Item.key, hname.1, hname.2]

theorem SettledOnce.finish {s₁ : Store} {item : WorkItem} (hsettled : Settled s)
    (h : SettledOnce t s) (hawaits : s.Awaits item i r) (hitems : s₁.items = s.items)
    (hcycle : s₁.cycle = s.cycle) (o : Outcome) (error : Option String) :
    SettledOnce (t ++ [.settled item.cycleId item.registrationSeq]) (s₁.finish item o error) := by
  obtain ⟨-, ⟨remaining, hcycle'⟩, hitems', -⟩ := finish_frame item o error s₁
  obtain ⟨l₁, l₂, hsplit, hfinish⟩ := finishItems_eq o error hsettled.items hawaits.found
  rw [hitems, hfinish] at hitems'
  have hkey := hawaits.key
  have hmem : i ∈ s.items := List.mem_of_find?_eq_some hawaits.found
  have hlist : settledItems (t ++ [.settled item.cycleId item.registrationSeq]) =
      settledItems t ++ [i.key] := by
    simp [settledItems, CycleEvent.settled?, hkey]
  have hbegun : begunCycles (t ++ [.settled item.cycleId item.registrationSeq]) =
      begunCycles t := by
    simp [begunCycles, CycleEvent.begun?]
  have hfresh : i.key ∉ settledItems t := fun hin => h.done i hmem hin hawaits.pending
  have hnodup := hsettled.items
  rw [hsplit, List.map_append, List.map_cons, List.nodup_append, List.nodup_cons] at hnodup
  exact {
    once := by
      rw [hlist, List.nodup_append]
      refine ⟨h.once, by simp, ?_⟩
      intro k hk k' hk' heq
      rw [List.mem_singleton] at hk'
      exact hfresh (by rw [← hk', ← heq]; exact hk)
    known := by
      rw [hlist, hbegun]
      intro k hk
      rcases List.mem_append.mp hk with hk | hk
      · exact h.known k hk
      · rw [List.mem_singleton.mp hk]
        obtain ⟨c, hc, hid⟩ := hsettled.owned i hmem
        have hcurrent := h.current c hc
        rw [hid] at hcurrent
        exact hcurrent
    current := by
      rw [hcycle', hbegun, hcycle]
      intro c' hc'
      obtain ⟨c, hc, rfl⟩ := Option.map_eq_some_iff.mp hc'
      rw [(settle_frame o remaining c).1]
      exact h.current c hc
    done := by
      rw [hitems', hlist]
      intro j hj hin
      -- The finished item is done; no other item has its key.
      have hother : ∀ j ∈ s.items, j.registrationSeq ≠ i.registrationSeq →
          j.key ∈ settledItems t ++ [i.key] → j.outcome ≠ none := by
        intro j hj hne hin
        rcases List.mem_append.mp hin with hin | hin
        · exact h.done j hj hin
        · exact absurd (congrArg Prod.snd (List.mem_singleton.mp hin)) hne
      rcases List.mem_append.mp hj with hj | hj
      · refine hother j (by rw [hsplit]; exact List.mem_append_left _ hj) ?_ hin
        exact hnodup.2.2 _ (List.mem_map.mpr ⟨j, hj, rfl⟩) _ List.mem_cons_self
      · rcases List.mem_cons.mp hj with rfl | hj
        · simp [Item.finish]
        · refine hother j (by rw [hsplit]; simp [hj]) (fun heq => ?_) hin
          exact hnodup.2.1.1 (List.mem_map.mpr ⟨j, hj, heq⟩) }

/-- **One call** finishes at most one item, and not one that was finished before. -/
theorem SettledOnce.next (hsettled : Settled s) (h : (begunCycles t).Nodup → SettledOnce t s)
    (op : Op) :
    (begunCycles (t ++ cycleEvents env s op)).Nodup →
      SettledOnce (t ++ cycleEvents env s op) (next env s op) := by
  intro hids
  have hold : SettledOnce t s := by
    refine h ?_
    rw [begunCycles, List.filterMap_append] at hids
    exact (List.nodup_append.mp hids).1
  unfold cycleEvents at hids ⊢
  cases hstep : step env s op with
  | error e =>
    have hsame : Joint.next env s op = s := by rw [Joint.next, hstep]
    rw [hsame]
    exact hold.congr rfl rfl
  | ok x =>
    obtain ⟨s', reply⟩ := x
    have hnext : Joint.next env s op = s' := by rw [Joint.next, hstep]
    have heffect := step_effect hstep
    rw [hnext]
    rw [hstep] at hids
    clear hstep hnext
    cases heffect with
    | discoveryRunning => exact hold.congr rfl rfl
    | @cycleRunning identity c hc hrunning =>
      have hno : s.cycle.all Cycle.attemptedComplete = false := by simp [hc, hrunning]
      simp only [hno]
      exact hold.congr rfl rfl
    | ignored hreply =>
      rcases hreply with rfl | rfl <;> exact hold.congr rfl rfl
    | registered hrows => exact hold.congr rfl rfl
    | discoveryBegun => exact hold.congr rfl rfl
    | pageApplied hcurrent hrows hd => exact hold.congr rfl rfl
    | discoveryFailed => exact hold.congr rfl rfl
    | @cycleBegun identity c hprev =>
      have hall : s.cycle.all Cycle.attemptedComplete = true := by
        cases hc : s.cycle with
        | none => rfl
        | some c => exact hprev c hc
      simp only [hall, if_true] at hids ⊢
      refine hold.begun ?_
      rw [begunCycles, List.filterMap_append, List.nodup_append] at hids
      intro hin
      exact hids.2.2 identity hin identity (by simp [CycleEvent.begun?]) rfl
    | @finished _ item o e i r s₁ rows hop hawaits hs₁ hrows =>
      simp only [hop, Option.toList_some, List.map_cons, List.map_nil]
      rcases hs₁ with rfl | ⟨value, caseId, now, -, -, hadd⟩
      · refine hold.finish hsettled hawaits ?_ ?_ o e <;> rfl
      · obtain ⟨hcycle, hitems, -, -⟩ := addRevision_frame hadd
        refine hold.finish hsettled hawaits ?_ ?_ o e
        · exact hitems
        · exact hcycle

/-! ### What a call publishes -/

/-- **Publications.** Only a call for a pending item whose registration still requests what the
item captured adds to the catalogue. -/
theorem catalogue_of_effect {op : Op} {reply : Reply} (h : Effect env s op s' reply) :
    s'.catalogue = s.catalogue ∨
      ∃ item i r, op.item? = some item ∧ s.Awaits item i r ∧ r.requests item := by
  cases h with
  | cycleBegun => exact Or.inl (recoverIfComplete_frame _).2.2.2
  | @finished _ item o e i r s₁ rows hop hawaits hs₁ hrows =>
    rcases hs₁ with rfl | ⟨value, caseId, now, -, hrequests, -⟩
    · refine Or.inl ((finish_frame item o e _).2.2.2.trans ?_)
      rfl
    · exact Or.inr ⟨item, i, r, hop, hawaits, hrequests⟩
  | _ => exact Or.inl rfl

theorem next_catalogue {op : Op} (h : (next env s op).catalogue ≠ s.catalogue) :
    ∃ item i r, op.item? = some item ∧ s.Awaits item i r ∧ r.requests item := by
  rcases next_cases env s op with hsame | ⟨reply, -, heffect⟩
  · exact absurd (congrArg Store.catalogue hsame) h
  · exact (catalogue_of_effect heffect).resolve_left h

/-- The handle belongs to a cycle that is no longer the current one. -/
def WorkItem.replaced (item : WorkItem) (s : Store) : Prop :=
  ∀ c, s.cycle = some c → c.cycleId ≠ item.cycleId

/-- The item of the handle has an outcome. -/
def WorkItem.finished (item : WorkItem) (s : Store) : Prop :=
  ∀ i ∈ s.items, item.names i = true → i.outcome ≠ none

/-- The registration of the handle requests another revision or generation. -/
def WorkItem.superseded (item : WorkItem) (s : Store) : Prop :=
  ∀ r ∈ s.registrations, r.seq = item.registrationSeq → ¬r.requests item

theorem Settled.awaits (hsettled : Settled s) {item : WorkItem} (h : s.Awaits item i r)
    (hrequests : r.requests item) : ¬item.replaced s ∧ ¬item.finished s ∧ ¬item.superseded s := by
  have hmem := List.mem_of_find?_eq_some h.found
  refine ⟨fun hreplaced => ?_, fun hfinished => ?_, fun hsuperseded => ?_⟩
  · obtain ⟨c, hc, hid⟩ := hsettled.owned i hmem
    exact hreplaced c hc (hid.trans (congrArg Prod.fst h.key))
  · exact hfinished i hmem (List.find?_some h.found) h.pending
  · exact hsuperseded r (List.mem_of_find?_eq_some h.registered)
      (by simpa using List.find?_some h.registered) hrequests

/-- **Refresh cycles settle each item exactly once.** Along every sequence of calls, with any work
items: when the identities drawn for the cycles differ, no item is finished twice; the outcome
counters and the pending items always make up the cycle; and a call adds to the catalogue only for
a pending item whose registration requests, at that moment, what the item captured, so a call for a
replaced cycle, a finished item or a superseded request publishes nothing. -/
theorem items_settle_once (env : Env) (catalogMinSeq : Nat) (ops : List Op) :
    let s := run (next env) (Store.create catalogMinSeq) ops
    let t := trace (next env) (cycleEvents env) (Store.create catalogMinSeq) ops
    ((begunCycles t).Nodup → (settledItems t).Nodup) ∧
    (∀ c, s.cycle = some c → c.attempted + s.pendingCount = c.itemCount ∧
      c.itemCount = s.items.length ∧ ∀ o, c.counter o = s.settledCount o) ∧
    (∀ op, (next env s op).catalogue ≠ s.catalogue → ∃ item i r, op.item? = some item ∧
      s.Awaits item i r ∧ r.requestGeneration = i.capturedGeneration ∧
      r.requestedRevision = i.capturedRevision) ∧
    ∀ op item, op.item? = some item →
      item.replaced s ∨ item.finished s ∨ item.superseded s →
      (next env s op).catalogue = s.catalogue := by
  intro s t
  have hsettled : Settled s := settled_run env catalogMinSeq ops
  have hrun : Settled s ∧ ((begunCycles ([] ++ t)).Nodup → SettledOnce ([] ++ t) s) := by
    refine trace_invariant (Q := fun _ => True) (R := fun t s => Settled s ∧
      ((begunCycles t).Nodup → SettledOnce t s)) ?_ (fun _ _ => trivial) ?_
    · intro t s op _ h
      exact ⟨h.1.next op, SettledOnce.next h.1 h.2 op⟩
    · refine ⟨settled_create catalogMinSeq, fun _ => ?_⟩
      constructor <;> simp [settledItems, Store.create]
  refine ⟨fun hids => (hrun.2 hids).once, fun c hc => ?_, fun op hop => ?_,
    fun op item hop hitem => ?_⟩
  · exact ⟨hsettled.attempted hc, hsettled.counted c hc⟩
  · obtain ⟨item, i, r, hitem, hawaits, hrequests⟩ := next_catalogue hop
    exact ⟨item, i, r, hitem, hawaits, hrequests.1.trans hawaits.generation.symm,
      hrequests.2.trans hawaits.revision.symm⟩
  · by_contra hchanged
    obtain ⟨item', i, r, hitem', hawaits, hrequests⟩ := next_catalogue hchanged
    obtain rfl := Option.some.inj (hop.symm.trans hitem')
    obtain ⟨h₁, h₂, h₃⟩ := hsettled.awaits hawaits hrequests
    rcases hitem with hitem | hitem | hitem
    · exact h₁ hitem
    · exact h₂ hitem
    · exact h₃ hitem

/-- Two cycles of one registration: the handle of the first is finished, then refused. -/
theorem items_settle_once_two_cycles :
    let env : Env := ⟨⟨5, 5, 1000⟩, "producer", fun _ value => .ok value, ["unavailable"]⟩
    let item : WorkItem := ⟨"cycle-1", 1, 1, 1, "network-1"⟩
    let ops : List Op := [.register [⟨"network-1", 1⟩], .beginCycle "cycle-1",
      .fail item "unavailable" "now", .beginCycle "cycle-2", .fail item "unavailable" "now"]
    let t := trace (next env) (cycleEvents env) (Store.create 1) ops
    begunCycles t = ["cycle-1", "cycle-2"] ∧ settledItems t = [("cycle-1", 1)] ∧
      (settledItems t).Nodup := by
  intro env item ops t
  have hbegun : begunCycles t = ["cycle-1", "cycle-2"] := by decide
  refine ⟨hbegun, by decide, (items_settle_once env 1 ops).1 ?_⟩
  change (begunCycles t).Nodup
  rw [hbegun]
  decide

end RiskOps.Joint
