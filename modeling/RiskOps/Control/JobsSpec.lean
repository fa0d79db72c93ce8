import RiskOps.Control.Jobs

/-!
# RiskOps.Control.JobsSpec — what the steps of the job queue do

One lemma for each transaction says what it changes. `Queue` is what the tables keep in every
state, `Advances` what a step never takes back: a settled item, the status of a finished job, the
identities of a job and of the plan it came from.

A result transaction advances the queue when it is `Current`: the job's items are still the ones
the worker copied when it claimed.
-/

namespace RiskOps.Control.Jobs

open RiskOps.Lib

/-! ### Previews -/

theorem addItem_ne_nil (items : List PlanItem) (item : PlanItem) : addItem items item ≠ [] := by
  unfold addItem
  split
  · rename_i h
    exact List.ne_nil_of_mem h
  · simp

theorem foldl_addItem_ne_nil {new items : List PlanItem} (h : items ≠ [] ∨ new ≠ []) :
    new.foldl addItem items ≠ [] := by
  induction new generalizing items with
  | nil =>
    rcases h with h | h
    · exact h
    · exact absurd rfl h
  | cons item new ih => exact ih (Or.inl (addItem_ne_nil items item))

variable {chosen : List Channel}

/-- A chosen channel leaves a channel to act on: `ssh` is dropped only for `tcp`. -/
theorem itemChannels_ne_nil (action : JobAction) (h : chosen ≠ []) :
    itemChannels action chosen ≠ [] := by
  obtain ⟨c, hc⟩ := List.exists_mem_of_ne_nil chosen h
  by_cases htcp : Channel.tcp ∈ chosen
  · exact List.ne_nil_of_mem (a := Channel.tcp) (by simp [itemChannels, htcp])
  · refine List.ne_nil_of_mem (a := c) ?_
    cases c <;> simp [itemChannels, hc, htcp]

variable {config : Config} {operatorIp : Option HostIp}

theorem addTarget_ne_nil {action : JobAction} {duration : Option Int} {items items' : List PlanItem}
    {t : Target} (hchosen : chosen ≠ [])
    (h : addTarget config action chosen duration operatorIp items t = .ok items') :
    items' ≠ [] := by
  unfold addTarget at h
  split at h
  · simp at h
  · obtain ⟨ip, -, h⟩ := bind_eq_ok.mp h
    split at h
    · simp at h
    · rw [← Except.ok.inj h]
      refine foldl_addItem_ne_nil (Or.inr ?_)
      simpa using itemChannels_ne_nil action hchosen

theorem foldlM_addTarget_ne_nil {action : JobAction} {duration : Option Int} {targets : List Target}
    {items items' : List PlanItem} (hchosen : chosen ≠ []) (hne : items ≠ [] ∨ targets ≠ [])
    (h : targets.foldlM (addTarget config action chosen duration operatorIp) items = .ok items') :
    items' ≠ [] := by
  induction targets generalizing items with
  | nil =>
    obtain rfl := Except.ok.inj h
    rcases hne with hne | hne
    · exact hne
    · exact absurd rfl hne
  | cons t targets ih =>
    rw [List.foldlM_cons] at h
    obtain ⟨items₁, hitems₁, h⟩ := bind_eq_ok.mp h
    exact ih (Or.inl (addTarget_ne_nil hchosen hitems₁)) h

/-- **A preview has an item.** -/
theorem previewItems_ne_nil {body : Body} {items : List PlanItem}
    (h : previewItems config body operatorIp = .ok items) : items ≠ [] := by
  unfold previewItems at h
  split at h
  · simp at h
  · split at h
    · simp at h
    · split at h
      · simp at h
      · split at h
        · simp at h
        · rename_i hchannels
          split at h
          · simp at h
          · rename_i htargets
            obtain ⟨items', hitems', h⟩ := bind_eq_ok.mp h
            split at h
            · simp at h
            · obtain rfl := Except.ok.inj h
              simp only [Bool.or_eq_true, not_or, List.isEmpty_iff, List.any_eq_true, not_exists,
                not_and] at hchannels htargets
              refine foldlM_addTarget_ne_nil ?_ (Or.inr htargets.1) hitems'
              obtain ⟨c, hc⟩ := List.exists_mem_of_ne_nil _ hchannels.1.1
              obtain ⟨channel, hchannel⟩ : ∃ x, readChannel c = some x :=
                Option.ne_none_iff_exists'.mp (by simpa using hchannels.2 c hc)
              exact List.ne_nil_of_mem (List.mem_filterMap.mpr ⟨c, hc, hchannel⟩)

variable {db' : Db} {actor planId : String}

/-- A preview stores a plan with items and no job. -/
theorem preview_spec {db : Db} {body : Option Body} {operatorIp : Option (List Char)} {now : ℚ}
    {plan : Plan} (h : preview config db actor body operatorIp now planId = .ok (db', plan)) :
    plan.items ≠ [] ∧ plan.jobId = none ∧ db.plans.insert plan = some db'.plans ∧
      db'.jobs = db.jobs ∧ db'.blocks = db.blocks := by
  unfold preview at h
  cases body with
  | none => simp at h
  | some body =>
    obtain ⟨items, hitems, h⟩ := bind_eq_ok.mp h
    simp only at h
    split at h
    · simp at h
    · rename_i plans hplans
      obtain ⟨rfl, rfl⟩ := Prod.mk.inj (Except.ok.inj h)
      exact ⟨previewItems_ne_nil hitems, rfl, hplans, rfl, rfl⟩

/-! ### Executing a plan -/

/-- The row of a plan that was executed as `jobId`. -/
def Plan.confirm (planId jobId : String) (p : Plan) : Plan :=
  if p.id = planId then { p with jobId := some jobId } else p

theorem Plan.confirm_id (planId jobId : String) (p : Plan) : (p.confirm planId jobId).id = p.id := by
  unfold Plan.confirm
  split <;> rfl

variable {jobId : String} {job : Job}

/-- A plan answers with the job it has, or gets a new one. -/
theorem execute_spec {db : Db} {now : ℚ} {requestIds : Nat → String}
    (h : execute db actor planId now jobId requestIds = .ok (db', job)) :
    ∃ plan, db.plans.find? planId = some plan ∧ plan.actor = actor ∧
      ((plan.jobId = some job.id ∧ db' = db ∧ db.jobs.find? job.id = some job) ∨
      (plan.jobId = none ∧ job.id = jobId ∧ job.created = now ∧ job.status = .queued ∧
        job.items = plan.items.mapIdx (fun i item => newItem now (requestIds i) item) ∧
        db.jobs.insert job = some db'.jobs ∧ db'.blocks = db.blocks ∧
        ∀ id, db'.plans.find? id = (db.plans.find? id).map (Plan.confirm planId jobId))) := by
  unfold execute at h
  cases hp : (db.plans.find? planId).filter fun p => p.actor = actor with
  | none => simp [hp] at h
  | some plan =>
    obtain ⟨hplan, hactor⟩ := Option.filter_eq_some_iff.mp hp
    rw [hp] at h
    simp only at h
    refine ⟨plan, hplan, by simpa using hactor, ?_⟩
    cases hid : plan.jobId with
    | some id =>
      rw [hid] at h
      cases hj : db.jobs.find? id with
      | none => simp [hj] at h
      | some found =>
        simp only [hj, Option.elim_some, Except.ok.injEq, Prod.mk.injEq] at h
        obtain ⟨rfl, rfl⟩ := h
        rw [Table.find?_key hj]
        exact Or.inl ⟨rfl, rfl, hj⟩
    | none =>
      rw [hid] at h
      simp only at h
      split at h
      · simp at h
      · split at h
        · simp at h
        · rename_i jobs hjobs
          obtain ⟨rfl, rfl⟩ := Prod.mk.inj (Except.ok.inj h)
          refine Or.inr ⟨rfl, rfl, rfl, rfl, rfl, hjobs, rfl, fun id => ?_⟩
          exact Table.find?_update db.plans (Plan.confirm planId jobId)
            (Plan.confirm_id planId jobId) id

/-! ### The two transactions of a worker -/

theorem earliest_eq_none {jobs : List Job} (h : earliest jobs = none) : jobs = [] := by
  cases jobs with
  | nil => rfl
  | cons a as =>
    unfold earliest at h
    split at h
    · simp at h
    · split at h <;> simp at h

variable {j : Job}

/-- The queue is served in the order of creation. -/
theorem earliest_spec {jobs : List Job} (h : earliest jobs = some j) :
    j ∈ jobs ∧ ∀ k ∈ jobs, j.created ≤ k.created := by
  induction jobs generalizing j with
  | nil => simp [earliest] at h
  | cons i jobs ih =>
    unfold earliest at h
    cases hrest : earliest jobs with
    | none =>
      rw [hrest] at h
      obtain rfl := Option.some.inj h
      simp [earliest_eq_none hrest]
    | some k =>
      rw [hrest] at h
      obtain ⟨hk, hmin⟩ := ih hrest
      simp only at h
      split at h
      · rename_i hlt
        obtain rfl := Option.some.inj h
        refine ⟨List.mem_cons_of_mem _ hk, fun m hm => ?_⟩
        rcases List.mem_cons.mp hm with rfl | hm
        · exact hlt.le
        · exact hmin m hm
      · rename_i hle
        obtain rfl := Option.some.inj h
        refine ⟨List.mem_cons_self, fun m hm => ?_⟩
        rcases List.mem_cons.mp hm with rfl | hm
        · exact le_refl _
        · exact (not_lt.mp hle).trans (hmin m hm)

theorem Db.head_spec {db : Db} (h : db.head = some j) :
    j ∈ db.jobs ∧ j.active = true ∧ ∀ k ∈ db.jobs, k.created < j.created → k.active = false := by
  obtain ⟨hj, hmin⟩ := earliest_spec h
  obtain ⟨hmem, hactive⟩ := List.mem_filter.mp hj
  refine ⟨hmem, hactive, fun k hk hlt => ?_⟩
  by_contra hka
  rw [Bool.not_eq_false] at hka
  exact absurd (hmin k (List.mem_filter.mpr ⟨hk, hka⟩)) (not_le.mpr hlt)

theorem updateJob_find? (db : Db) (jobId : String) (f : Job → Job) (hf : ∀ j, (f j).id = j.id)
    (id : String) : (db.updateJob jobId f hf).jobs.find? id =
      (db.jobs.find? id).map fun j => if j.id = jobId then f j else j := by
  have hkey : ∀ j : Job, (if j.id = jobId then f j else j).id = j.id := by
    intro j
    split
    · exact hf j
    · rfl
  exact Table.find?_update db.jobs _ hkey id

theorem mem_updateJob {db : Db} {f : Job → Job} (hf : ∀ j, (f j).id = j.id)
    (h : j ∈ (db.updateJob jobId f hf).jobs) :
    ∃ j₀ ∈ db.jobs, (if j₀.id = jobId then f j₀ else j₀) = j := by
  have hfind := Table.find?_of_mem h
  rw [updateJob_find?, Option.map_eq_some_iff] at hfind
  obtain ⟨j₀, hj₀, heq⟩ := hfind
  exact ⟨j₀, Table.mem_of_find? hj₀, heq⟩

/-- The job row after a claim. -/
def Job.claim (items : List Item) (now : ℚ) (j : Job) : Job :=
  { j with status := .running, items := items, leaseUntil := now + 90, updated := now }

variable {c : Claim}

/-- A claim takes the first active item of the head, when its lease is over. -/
theorem claim_spec {db : Db} {now : ℚ} (h : db.claim now = some (db', c)) :
    ∃ job item, db.head = some job ∧ c.jobId = job.id ∧ job.leaseUntil ≤ now ∧
      job.items[c.index]? = some item ∧ item.active = true ∧
      (∀ k i, k < c.index → job.items[k]? = some i → i.active = false) ∧
      c.items = job.items.set c.index item.claim ∧
      db' = db.updateJob job.id (Job.claim c.items now) (fun _ => rfl) := by
  unfold Db.claim at h
  cases hhead : db.head with
  | none => simp [hhead] at h
  | some job =>
    rw [hhead] at h
    simp only at h
    split at h
    · simp at h
    · rename_i hlease
      cases hidx : job.items.findIdx? Item.active with
      | none => simp [hidx] at h
      | some index =>
        rw [hidx] at h
        obtain ⟨rfl, rfl⟩ := Prod.mk.inj (Option.some.inj h)
        obtain ⟨hlt, hactive, hbefore⟩ := List.findIdx?_eq_some_iff_getElem.mp hidx
        refine ⟨job, job.items[index], rfl, rfl, not_lt.mp hlease,
          List.getElem?_eq_getElem hlt, hactive, fun k i hk hi => ?_, ?_, rfl⟩
        · obtain ⟨hklt, rfl⟩ := List.getElem?_eq_some_iff.mp hi
          simpa using hbefore k hk
        · exact List.modify_eq_set_get _ hlt

/-- The job row after a result. -/
def Job.record (items : List Item) (item : Item) (now : ℚ) (j : Job) : Job :=
  { j with
    status := resultStatus items, items := items, updated := now
    leaseUntil := if item.status = .pending then now + 10 else 0 }

theorem record_jobs (db : Db) (c : Claim) (item : Item) (now : ℚ) (id : String) :
    (db.record c item now).jobs.find? id = (db.jobs.find? id).map fun j =>
      if j.id = c.jobId then j.record (c.items.set c.index item) item now else j :=
  updateJob_find? _ c.jobId (Job.record (c.items.set c.index item) item now) (fun _ => rfl) id

/-- What an answer leaves of the item. -/
theorem answer_spec (i : Item) (now : ℚ) (response : Option Response) :
    (i.answer now response).requestId = i.requestId ∧ (i.answer now response).plan = i.plan ∧
      (i.answer now response).status ≠ .running := by
  have hun : i.unconfirmed.status ≠ .running := by
    unfold Item.unconfirmed
    simp only
    split <;> simp
  cases response with
  | none => exact ⟨rfl, rfl, hun⟩
  | some r =>
    unfold Item.answer
    simp only
    split
    · exact ⟨rfl, rfl, hun⟩
    · split
      · exact ⟨rfl, rfl, by simp⟩
      · split
        · exact ⟨rfl, rfl, by simp⟩
        · exact ⟨rfl, rfl, hun⟩

/-- A job is active while one of its items is. -/
theorem resultStatus_active (items : List Item) :
    (resultStatus items).active = items.any Item.active := by
  unfold resultStatus
  split
  · rename_i h
    rw [h]
    rfl
  · rename_i h
    rw [Bool.not_eq_true] at h
    rw [h]
    split
    · rfl
    · split <;> rfl

/-! ### What the tables keep -/

/-- A job is open while one of its items is, and every plan has an item. -/
structure Queue (db : Db) : Prop where
  consistent : ∀ j ∈ db.jobs, j.active = j.items.any Item.active
  planned : ∀ p ∈ db.plans, p.items ≠ []

theorem queue_empty : Queue Db.empty :=
  ⟨fun j hj => absurd hj (Table.not_mem_empty j), fun p hp => absurd hp (Table.not_mem_empty p)⟩

theorem Queue.preview {db : Db} {body : Option Body} {operatorIp : Option (List Char)} {now : ℚ}
    {plan : Plan} (h : Queue db)
    (hpreview : preview config db actor body operatorIp now planId = .ok (db', plan)) :
    Queue db' := by
  obtain ⟨hne, -, hplans, hjobs, -⟩ := preview_spec hpreview
  refine ⟨by rw [hjobs]; exact h.consistent, fun p hp => ?_⟩
  rcases (Table.mem_of_insert hplans).mp hp with hp | rfl
  · exact h.planned p hp
  · exact hne

theorem Queue.execute {db : Db} {now : ℚ} {requestIds : Nat → String} (h : Queue db)
    (hexecute : execute db actor planId now jobId requestIds = .ok (db', job)) : Queue db' := by
  obtain ⟨plan, hplan, -, ⟨-, rfl, -⟩ | ⟨-, -, -, hstatus, hitems, hjobs, -, hplans⟩⟩ :=
    execute_spec hexecute
  · exact h
  · refine ⟨fun j hj => ?_, fun p hp => ?_⟩
    · rcases (Table.mem_of_insert hjobs).mp hj with hj | rfl
      · exact h.consistent j hj
      · -- The plan has an item, and a new item is pending.
        have hfirst : j.items.any Item.active = true := by
          cases hp : plan.items with
          | nil => exact absurd hp (h.planned plan (Table.mem_of_find? hplan))
          | cons item items => simp [hitems, hp, newItem, Item.active, ItemStatus.active]
        rw [hfirst, Job.active, hstatus]
        rfl
    · have hp' := Table.find?_of_mem hp
      rw [hplans, Option.map_eq_some_iff] at hp'
      obtain ⟨p₀, hp₀, rfl⟩ := hp'
      have hne := h.planned p₀ (Table.mem_of_find? hp₀)
      unfold Plan.confirm
      split <;> exact hne

theorem Queue.claim {db db' : Db} {now : ℚ} {c : Claim} (h : Queue db)
    (hclaim : db.claim now = some (db', c)) : Queue db' := by
  obtain ⟨job, item, -, -, -, hitem, -, -, hitems, rfl⟩ := claim_spec hclaim
  refine ⟨fun j hj => ?_, h.planned⟩
  obtain ⟨j₀, hj₀, rfl⟩ := mem_updateJob (f := Job.claim c.items now) (fun _ => rfl) hj
  split
  · have hlt := (List.getElem?_eq_some_iff.mp hitem).1
    have hany : c.items.any Item.active = true := by
      rw [hitems]
      exact List.any_eq_true.mpr ⟨item.claim, List.mem_set hlt item.claim, rfl⟩
    simp only [Job.claim, Job.active, hany]
    rfl
  · exact h.consistent j₀ hj₀

theorem Queue.record {db : Db} (h : Queue db) (c : Claim) (item : Item) (now : ℚ) :
    Queue (db.record c item now) := by
  refine ⟨fun j hj => ?_, h.planned⟩
  obtain ⟨j₀, hj₀, rfl⟩ := mem_updateJob
    (f := Job.record (c.items.set c.index item) item now) (fun _ => rfl) hj
  split
  · exact resultStatus_active _
  · exact h.consistent j₀ hj₀

/-! ### What a step never takes back -/

/-- Settled items and the result of a finished job stay. -/
structure Job.Advances (j j' : Job) : Prop where
  created : j'.created = j.created
  requests : j'.items.map Item.requestId = j.items.map Item.requestId
  settled : ∀ (k : Nat) (i : Item), j.items[k]? = some i → i.active = false → j'.items[k]? = some i
  finished : j.active = false → j'.status = j.status ∧ j'.items = j.items

theorem Job.Advances.refl (j : Job) : j.Advances j :=
  ⟨rfl, rfl, fun _ _ h _ => h, fun _ => ⟨rfl, rfl⟩⟩

theorem Job.Advances.trans {j₁ j₂ j₃ : Job} (h₁ : j₁.Advances j₂) (h₂ : j₂.Advances j₃) :
    j₁.Advances j₃ where
  created := h₂.created.trans h₁.created
  requests := h₂.requests.trans h₁.requests
  settled := fun k i hi hs => h₂.settled k i (h₁.settled k i hi hs) hs
  finished := by
    intro hf
    obtain ⟨hstatus, hitems⟩ := h₁.finished hf
    obtain ⟨hstatus', hitems'⟩ := h₂.finished (by rw [Job.active, hstatus]; exact hf)
    exact ⟨hstatus'.trans hstatus, hitems'.trans hitems⟩

/-- Every job advances and every executed plan keeps its job and its actor. -/
structure Advances (db db' : Db) : Prop where
  jobs : ∀ id j, db.jobs.find? id = some j → ∃ j', db'.jobs.find? id = some j' ∧ j.Advances j'
  plans : ∀ id p jobId, db.plans.find? id = some p → p.jobId = some jobId →
    ∃ p', db'.plans.find? id = some p' ∧ p'.jobId = some jobId ∧ p'.actor = p.actor

theorem Advances.refl (db : Db) : Advances db db :=
  ⟨fun _ j hj => ⟨j, hj, .refl j⟩, fun _ p _ hp hid => ⟨p, hp, hid, rfl⟩⟩

theorem Advances.trans {db₁ db₂ db₃ : Db} (h₁ : Advances db₁ db₂) (h₂ : Advances db₂ db₃) :
    Advances db₁ db₃ where
  jobs := by
    intro id j hj
    obtain ⟨j₂, hj₂, hadv⟩ := h₁.jobs id j hj
    obtain ⟨j₃, hj₃, hadv'⟩ := h₂.jobs id j₂ hj₂
    exact ⟨j₃, hj₃, hadv.trans hadv'⟩
  plans := by
    intro id p jobId hp hid
    obtain ⟨p₂, hp₂, hid₂, hactor⟩ := h₁.plans id p jobId hp hid
    obtain ⟨p₃, hp₃, hid₃, hactor'⟩ := h₂.plans id p₂ jobId hp₂ hid₂
    exact ⟨p₃, hp₃, hid₃, hactor'.trans hactor⟩

/-- Inserting a row leaves the rows there are. -/
theorem find?_of_insert {ρ κ : Type} {key : ρ → κ} [DecidableEq κ] {t t' : Table key} {r a : ρ}
    {k : κ} (h : t.insert r = some t') (ha : t.find? k = some a) : t'.find? k = some a := by
  rw [Table.find?_insert h, if_neg]
  · exact ha
  · intro hk
    rw [← hk, Table.find?_none_of_insert h] at ha
    exact absurd ha (by simp)

theorem advances_preview {db : Db} {body : Option Body} {operatorIp : Option (List Char)} {now : ℚ}
    {plan : Plan} (h : preview config db actor body operatorIp now planId = .ok (db', plan)) :
    Advances db db' := by
  obtain ⟨-, -, hplans, hjobs, -⟩ := preview_spec h
  refine ⟨fun id j hj => ⟨j, by rw [hjobs]; exact hj, .refl j⟩, fun id p jobId hp hid => ?_⟩
  exact ⟨p, find?_of_insert hplans hp, hid, rfl⟩

theorem advances_execute {db : Db} {now : ℚ} {requestIds : Nat → String}
    (h : execute db actor planId now jobId requestIds = .ok (db', job)) : Advances db db' := by
  obtain ⟨plan, hplan, -, ⟨-, rfl, -⟩ | ⟨hnone, -, -, -, -, hjobs, -, hplans⟩⟩ := execute_spec h
  · exact .refl _
  · refine ⟨fun id j hj => ⟨j, find?_of_insert hjobs hj, .refl j⟩, fun id p jobId' hp hid => ?_⟩
    refine ⟨p.confirm planId jobId, by rw [hplans, hp]; rfl, ?_⟩
    -- The plan that is executed had no job.
    have hne : p.id ≠ planId := by
      intro heq
      rw [Table.find?_key hp] at heq
      rw [heq, hplan] at hp
      rw [← Option.some.inj hp, hnone] at hid
      exact absurd hid (by simp)
    rw [Plan.confirm, if_neg hne]
    exact ⟨hid, rfl⟩

/-- Replacing an open item of an open job. -/
theorem Job.advances_set {j' : Job} {index : Nat} {old new : Item}
    (hold : j.items[index]? = some old) (hopen : old.active = true) (hactive : j.active = true)
    (hcreated : j'.created = j.created) (hitems : j'.items = j.items.set index new)
    (hrequest : new.requestId = old.requestId) : j.Advances j' where
  created := hcreated
  requests := by
    rw [hitems, List.map_set]
    obtain ⟨hlt, rfl⟩ := List.getElem?_eq_some_iff.mp hold
    rw [hrequest, ← List.getElem_map Item.requestId (h := by simpa using hlt)]
    exact List.set_getElem_self _
  settled := by
    intro k i hi hs
    rw [hitems, List.getElem?_set_ne]
    · exact hi
    · intro heq
      rw [← heq, hold] at hi
      rw [← Option.some.inj hi, hopen] at hs
      exact absurd hs (by simp)
  finished := by
    intro hf
    rw [hactive] at hf
    exact absurd hf (by simp)

theorem advances_claim {db : Db} {now : ℚ} (h : db.claim now = some (db', c)) :
    Advances db db' := by
  obtain ⟨job, item, hhead, -, -, hitem, hopen, -, hitems, rfl⟩ := claim_spec h
  refine ⟨fun id j hj => ?_, fun id p jobId hp hid => ⟨p, hp, hid, rfl⟩⟩
  have hfind := updateJob_find? db job.id (Job.claim c.items now) (fun _ => rfl) id
  rw [hj, Option.map_some] at hfind
  refine ⟨_, hfind, ?_⟩
  split
  · rename_i hid
    obtain ⟨hmem, hactive, -⟩ := Db.head_spec hhead
    obtain rfl : j = job := Table.eq_of_key_eq (Table.mem_of_find? hj) hmem hid
    have hadvances : j.Advances (j.claim c.items now) :=
      Job.advances_set hitem hopen hactive rfl hitems rfl
    exact hadvances
  · exact .refl j

/-- The job's items are still the ones the worker copied. -/
def Current (db : Db) (c : Claim) : Prop :=
  ∃ j, db.jobs.find? c.jobId = some j ∧ j.items = c.items

/-- A phase as the steps of one run build it: the claimed item is running, and what will be
recorded is an answer to it. -/
def Phase.Valid : Phase → Prop
  | .idle => True
  | .claimed c => ∃ i, c.items[c.index]? = some i ∧ i.status = .running
  | .answered c item => ∃ i now response, c.items[c.index]? = some i ∧ i.status = .running ∧
      item = i.answer now response

theorem advances_record {db : Db} {item : Item} (hqueue : Queue db)
    (hvalid : (Phase.answered c item).Valid) (hcurrent : Current db c) (now : ℚ) :
    Advances db (db.record c item now) := by
  obtain ⟨old, at_, response, hold, hrunning, rfl⟩ := hvalid
  obtain ⟨job, hjob, hitems⟩ := hcurrent
  have hopen : old.active = true := by rw [Item.active, hrunning]; rfl
  refine ⟨fun id j hj => ?_, fun id p jobId hp hid => ⟨p, hp, hid, rfl⟩⟩
  have hfind := record_jobs db c (old.answer at_ response) now id
  rw [hj, Option.map_some] at hfind
  refine ⟨_, hfind, ?_⟩
  split
  · rename_i hid
    rw [Table.find?_key hj] at hid
    rw [hid] at hj
    obtain rfl := Option.some.inj (hjob.symm.trans hj)
    rw [← hitems] at hold
    have hactive : job.active = true := by
      rw [hqueue.consistent job (Table.mem_of_find? hjob)]
      exact List.any_eq_true.mpr ⟨old, List.mem_of_getElem? hold, hopen⟩
    refine Job.advances_set hold hopen hactive rfl ?_ (answer_spec old at_ response).1
    rw [hitems]
    rfl
  · exact .refl j

end RiskOps.Control.Jobs
