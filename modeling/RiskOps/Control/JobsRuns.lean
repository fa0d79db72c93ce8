import RiskOps.Control.JobsSpec

/-!
# RiskOps.Control.JobsRuns — runs of one and of several workers

**One worker** never finds its copy changed, so nothing it recorded is taken back, jobs are worked
off in the order they were created, and an open job can always be claimed once its lease is over.

**Several workers** write back their copies without looking: a result transaction that is not
`Current` undoes what another worker recorded. Runs without one keep every recorded result.
-/

namespace RiskOps.Control.Jobs

open RiskOps.Lib

variable {ω : Type} [DecidableEq ω]

/-! ### One step -/

/-- The ways a step changes the world. -/
inductive Effect (config : Config) (s : World ω) : Op ω → World ω → Prop
  | ignored {op : Op ω}
      (h : ∀ w now c item, op = .record w now → s.workers w ≠ .answered c item) :
      Effect config s op s
  | previewed {actor : String} {body : Option Body} {operatorIp : Option (List Char)} {now : ℚ}
      {planId : String} {db : Db} {plan : Plan}
      (h : preview config s.db actor body operatorIp now planId = .ok (db, plan)) :
      Effect config s (.preview actor body operatorIp now planId) { s with db := db }
  | executed {actor planId : String} {now : ℚ} {jobId : String} {requestIds : Nat → String}
      {db : Db} {job : Job} (h : execute s.db actor planId now jobId requestIds = .ok (db, job)) :
      Effect config s (.execute actor planId now jobId requestIds) { s with db := db }
  | claimed {w : ω} {now : ℚ} {db : Db} {c : Claim} (hw : s.workers w = .idle)
      (h : s.db.claim now = some (db, c)) :
      Effect config s (.claim w now) ({ s with db := db }.setWorker w (.claimed c))
  | answered {w : ω} {now : ℚ} {response : Option Response} {c : Claim} {item : Item}
      (hw : s.workers w = .claimed c) (h : c.items[c.index]? = some item) :
      Effect config s (.call w now response)
        (s.setWorker w (.answered c (item.answer now response)))
  | recorded {w : ω} {now : ℚ} {c : Claim} {item : Item} (hw : s.workers w = .answered c item) :
      Effect config s (.record w now)
        ({ s with db := s.db.record c item now }.setWorker w .idle)
  | crashed (w : ω) : Effect config s (.crash w) (s.setWorker w .idle)

theorem next_effect (config : Config) (s : World ω) (op : Op ω) :
    Effect config s op (next config s op) := by
  unfold next
  cases op with
  | preview actor body operatorIp now planId =>
    simp only
    split
    · exact .ignored (by simp)
    · rename_i h
      exact .previewed h
  | execute actor planId now jobId requestIds =>
    simp only
    split
    · exact .ignored (by simp)
    · rename_i h
      exact .executed h
  | claim w now =>
    simp only
    split
    · rename_i hw
      split
      · exact .ignored (by simp)
      · rename_i h
        exact .claimed hw h
    · exact .ignored (by simp)
  | call w now response =>
    simp only
    split
    · rename_i hw
      split
      · exact .ignored (by simp)
      · rename_i h
        exact .answered hw h
    · exact .ignored (by simp)
  | record w now =>
    simp only
    split
    · rename_i hw
      exact .recorded hw
    · rename_i hother
      refine .ignored fun w' now' c item heq => ?_
      obtain ⟨rfl, -⟩ := Op.record.inj heq
      exact hother c item
  | crash w => exact .crashed w

/-- The tables are consistent and every worker is where its steps brought it. -/
structure Sound (s : World ω) : Prop where
  queue : Queue s.db
  valid : ∀ w, (s.workers w).Valid

omit [DecidableEq ω] in
theorem sound_init : Sound (World.init : World ω) := ⟨queue_empty, fun _ => trivial⟩

theorem setWorker_valid {s : World ω} (h : ∀ w, (s.workers w).Valid) (w : ω) {phase : Phase}
    (hphase : phase.Valid) : ∀ v, ((s.setWorker w phase).workers v).Valid := by
  intro v
  by_cases hv : v = w
  · subst hv
    simpa [World.setWorker] using hphase
  · simpa [World.setWorker, hv] using h v

variable {config : Config}

theorem Sound.next {s : World ω} (h : Sound s) (op : Op ω) : Sound (Jobs.next config s op) := by
  have heffect := next_effect config s op
  generalize Jobs.next config s op = s' at heffect
  cases heffect with
  | ignored => exact h
  | previewed hpreview => exact ⟨h.queue.preview hpreview, h.valid⟩
  | executed hexecute => exact ⟨h.queue.execute hexecute, h.valid⟩
  | @claimed w now db c hw hclaim =>
    refine ⟨h.queue.claim hclaim, setWorker_valid h.valid w ?_⟩
    obtain ⟨job, item, -, -, -, hitem, -, -, hitems, -⟩ := claim_spec hclaim
    refine ⟨item.claim, ?_, rfl⟩
    rw [hitems, List.getElem?_set_self]
    exact (List.getElem?_eq_some_iff.mp hitem).1
  | @answered w now response c item hw hitem =>
    refine ⟨h.queue, setWorker_valid h.valid w ?_⟩
    have hvalid := h.valid w
    rw [hw] at hvalid
    obtain ⟨i, hi, hrunning⟩ := hvalid
    obtain rfl := Option.some.inj (hi.symm.trans hitem)
    exact ⟨i, now, response, hi, hrunning, rfl⟩
  | @recorded w now c item hw =>
    exact ⟨h.queue.record c item now, setWorker_valid h.valid w trivial⟩
  | crashed w => exact ⟨h.queue, setWorker_valid h.valid w trivial⟩

/-- A result transaction finds the job as the worker left it. -/
def Unraced (s : World ω) : Op ω → Prop
  | .record w _ => ∀ c item, s.workers w = .answered c item → Current s.db c
  | _ => True

theorem Sound.advances {s : World ω} (h : Sound s) {op : Op ω} (hop : Unraced s op) :
    Advances s.db (Jobs.next config s op).db := by
  have heffect := next_effect config s op
  generalize Jobs.next config s op = s' at heffect
  cases heffect with
  | ignored => exact .refl _
  | previewed hpreview => exact advances_preview hpreview
  | executed hexecute => exact advances_execute hexecute
  | claimed hw hclaim => exact advances_claim hclaim
  | answered hw hitem => exact .refl _
  | @recorded w now c item hw =>
    have hvalid := h.valid w
    rw [hw] at hvalid
    exact advances_record h.queue hvalid (hop c item hw) now
  | crashed w => exact .refl _

theorem sound_run (config : Config) (ops : List (Op ω)) :
    Sound (run (next config) (World.init : World ω) ops) :=
  run_preserves (P := Sound) (fun _ op h => h.next op) sound_init

variable {ops : List (Op ω)}

/-- **A run without a raced result** never takes anything back. -/
theorem advances_run {s : World ω} (hs : Sound s) (h : StepsSatisfy (next config) Unraced s ops) :
    Advances s.db (run (next config) s ops).db := by
  induction ops generalizing s with
  | nil => exact .refl _
  | cons op ops ih => exact (hs.advances h.1).trans (ih (hs.next op) h.2)

/-! ### One worker -/

/-- The claim a worker carries. -/
def Phase.claim? : Phase → Option Claim
  | .idle => none
  | .claimed c => some c
  | .answered c _ => some c

/-- Every copy is that of the job. -/
def Held (s : World ω) : Prop := ∀ w c, (s.workers w).claim? = some c → Current s.db c

variable {db' : Db} {c : Claim}

theorem claim_current {db : Db} {now : ℚ} (h : db.claim now = some (db', c)) : Current db' c := by
  obtain ⟨job, item, hhead, hid, -, -, -, -, -, rfl⟩ := claim_spec h
  have hfind := updateJob_find? db job.id (Job.claim c.items now) (fun _ => rfl) job.id
  rw [Table.find?_of_mem (Db.head_spec hhead).1, Option.map_some, if_pos rfl] at hfind
  exact ⟨_, by rw [hid]; exact hfind, rfl⟩

section Single

variable [Subsingleton ω]

theorem setWorker_claim? {s : World ω} {w v : ω} {phase : Phase}
    (h : ((s.setWorker w phase).workers v).claim? = some c) : phase.claim? = some c := by
  obtain rfl := Subsingleton.elim v w
  simpa [World.setWorker] using h

theorem Held.next {s : World ω} (h : Held s) (op : Op ω) : Held (Jobs.next config s op) := by
  have heffect := next_effect config s op
  generalize Jobs.next config s op = s' at heffect
  cases heffect with
  | ignored => exact h
  | previewed hpreview =>
    intro w c hc
    obtain ⟨j, hj, hitems⟩ := h w c hc
    exact ⟨j, by rw [(preview_spec hpreview).2.2.2.1]; exact hj, hitems⟩
  | executed hexecute =>
    intro w c hc
    obtain ⟨j, hj, hitems⟩ := h w c hc
    obtain ⟨plan, -, -, ⟨-, rfl, -⟩ | ⟨-, -, -, -, -, hjobs, -⟩⟩ := execute_spec hexecute
    · exact ⟨j, hj, hitems⟩
    · exact ⟨j, find?_of_insert hjobs hj, hitems⟩
  | claimed hw hclaim =>
    intro w c hc
    obtain rfl := Option.some.inj (setWorker_claim? hc)
    exact claim_current hclaim
  | @answered w now response c item hw hitem =>
    intro v c' hc'
    obtain rfl := Option.some.inj (setWorker_claim? hc')
    exact h w c (by rw [hw]; rfl)
  | recorded hw =>
    intro v c hc
    exact absurd (setWorker_claim? hc) (by simp [Phase.claim?])
  | crashed w =>
    intro v c hc
    exact absurd (setWorker_claim? hc) (by simp [Phase.claim?])

/-- **A single worker is never raced.** -/
theorem Held.unraced {s : World ω} (h : Held s) :
    StepsSatisfy (Jobs.next config) Unraced s ops := by
  induction ops generalizing s with
  | nil => trivial
  | cons op ops ih =>
    refine ⟨?_, ih (h.next op)⟩
    cases op with
    | record w now => exact fun c item hw => h w c (by rw [hw]; rfl)
    | _ => trivial

omit [DecidableEq ω] [Subsingleton ω] in
theorem held_init : Held (World.init : World ω) := by
  intro w c hc
  exact absurd hc (by simp [World.init, Phase.claim?])

/-! ### The order of requests -/

/-- The reading of the clock a step makes. -/
def Op.now? : Op ω → Option ℚ
  | .preview _ _ _ now _ => some now
  | .execute _ _ now _ _ => some now
  | .claim _ now => some now
  | .call _ now _ => some now
  | .record _ now => some now
  | .crash _ => none

/-- At time `t` no job is newer than `t`, and the claimed item is the first open one of the first
open job. -/
structure Ordered (s : World ω) (t : ℚ) : Prop where
  created : ∀ j ∈ s.db.jobs, j.created ≤ t
  first : ∀ w c, (s.workers w).claim? = some c → ∃ j, s.db.jobs.find? c.jobId = some j ∧
    (∀ k ∈ s.db.jobs, k.created < j.created → k.active = false) ∧
    ∀ (k : Nat) (i : Item), k < c.index → c.items[k]? = some i → i.active = false

theorem claim_ordered {db : Db} {now : ℚ} (h : db.claim now = some (db', c)) :
    ∃ j, db'.jobs.find? c.jobId = some j ∧
      (∀ k ∈ db'.jobs, k.created < j.created → k.active = false) ∧
      ∀ (k : Nat) (i : Item), k < c.index → c.items[k]? = some i → i.active = false := by
  obtain ⟨job, item, hhead, hid, -, -, -, hbefore, hitems, rfl⟩ := claim_spec h
  obtain ⟨hmem, -, hfirst⟩ := Db.head_spec hhead
  have hfind := updateJob_find? db job.id (Job.claim c.items now) (fun _ => rfl) job.id
  rw [Table.find?_of_mem hmem, Option.map_some, if_pos rfl] at hfind
  refine ⟨_, by rw [hid]; exact hfind, fun k hk hlt => ?_, fun k i hk hi => ?_⟩
  · obtain ⟨k₀, hk₀, rfl⟩ := mem_updateJob (f := Job.claim c.items now) (fun _ => rfl) hk
    split at hlt
    · rename_i hsame
      rw [Table.eq_of_key_eq hk₀ hmem hsame] at hlt
      exact absurd hlt (lt_irrefl _)
    · rename_i hother
      rw [if_neg hother]
      exact hfirst k₀ hk₀ hlt
  · rw [hitems, List.getElem?_set_ne (Nat.ne_of_gt hk)] at hi
    exact hbefore k i hk hi

variable {t : ℚ}

theorem created_updateJob {db : Db} {jobId : String} {f : Job → Job} (hf : ∀ j, (f j).id = j.id)
    (hcreated : ∀ j, (f j).created = j.created) (h : ∀ j ∈ db.jobs, j.created ≤ t) :
    ∀ j ∈ (db.updateJob jobId f hf).jobs, j.created ≤ t := by
  intro j hj
  obtain ⟨j₀, hj₀, rfl⟩ := mem_updateJob hf hj
  split
  · rw [hcreated]
    exact h j₀ hj₀
  · exact h j₀ hj₀

theorem Ordered.next {s : World ω} {t' : ℚ} (h : Ordered s t) {op : Op ω} (hle : t ≤ t')
    (hnow : ∀ x, op.now? = some x → t < x ∧ x ≤ t') : Ordered (Jobs.next config s op) t' := by
  have hold : ∀ j ∈ s.db.jobs, j.created ≤ t' := fun j hj => (h.created j hj).trans hle
  have hnone : ∀ {w : ω} {db : Db}, (∀ j ∈ db.jobs, j.created ≤ t') →
      Ordered ({ s with db := db }.setWorker w .idle) t' := by
    intro w db hdb
    refine ⟨hdb, fun v c hc => ?_⟩
    exact absurd (setWorker_claim? hc) (by simp [Phase.claim?])
  have heffect := next_effect config s op
  generalize Jobs.next config s op = s' at heffect
  cases heffect with
  | ignored => exact ⟨hold, h.first⟩
  | previewed hpreview =>
    have hjobs := (preview_spec hpreview).2.2.2.1
    refine ⟨by simp only [hjobs]; exact hold, by simp only [hjobs]; exact h.first⟩
  | executed hexecute =>
    obtain ⟨plan, -, -, ⟨-, rfl, -⟩ | ⟨-, -, hcreated, -, -, hjobs, -⟩⟩ := execute_spec hexecute
    · exact ⟨hold, h.first⟩
    · obtain ⟨hlt, hle'⟩ := hnow _ rfl
      refine ⟨fun j hj => ?_, fun w c hc => ?_⟩
      · rcases (Table.mem_of_insert hjobs).mp hj with hj | rfl
        · exact hold j hj
        · rw [hcreated]; exact hle'
      · obtain ⟨j, hj, hfirst, hindex⟩ := h.first w c hc
        refine ⟨j, find?_of_insert hjobs hj, fun k hk hkj => ?_, hindex⟩
        rcases (Table.mem_of_insert hjobs).mp hk with hk | rfl
        · exact hfirst k hk hkj
        · -- The new job is newer than every other.
          rw [hcreated] at hkj
          exact absurd ((h.created j (Table.mem_of_find? hj)).trans_lt hlt) (not_lt.mpr hkj.le)
  | @claimed w now db c hw hclaim =>
    refine ⟨?_, fun v c hc => ?_⟩
    · obtain ⟨job, item, -, -, -, -, -, -, -, rfl⟩ := claim_spec hclaim
      exact created_updateJob (f := Job.claim c.items now) (fun _ => rfl) (fun _ => rfl) hold
    · obtain rfl := Option.some.inj (setWorker_claim? hc)
      exact claim_ordered hclaim
  | @answered w now response c item hw hitem =>
    refine ⟨hold, fun v c' hc' => ?_⟩
    obtain rfl := Option.some.inj (setWorker_claim? hc')
    exact h.first w c (by rw [hw]; rfl)
  | @recorded w now c item hw =>
    refine hnone ?_
    exact created_updateJob (f := Job.record (c.items.set c.index item) item now)
      (fun _ => rfl) (fun _ => rfl) hold
  | crashed w => exact hnone hold

/-- **A run with an increasing clock** sends in the order of creation. -/
theorem ordered_run {s : World ω} (h : Ordered s t) (hlater : ∀ x ∈ ops.filterMap Op.now?, t < x)
    (hclock : (ops.filterMap Op.now?).Pairwise (· < ·)) :
    ∃ t', Ordered (run (Jobs.next config) s ops) t' := by
  induction ops generalizing s t with
  | nil => exact ⟨t, h⟩
  | cons op ops ih =>
    cases hnow : op.now? with
    | none =>
      rw [List.filterMap_cons_none hnow] at hlater hclock
      exact ih (h.next le_rfl (by simp [hnow])) hlater hclock
    | some x =>
      rw [List.filterMap_cons_some hnow] at hlater hclock
      have hx := hlater x List.mem_cons_self
      obtain ⟨hafter, hclock⟩ := List.pairwise_cons.mp hclock
      refine ih (h.next hx.le fun y hy => ?_) hafter hclock
      obtain rfl := Option.some.inj (hnow.symm.trans hy)
      exact ⟨hx, le_rfl⟩

end Single

/-! ### Several workers -/

/-- The verified result a step records: the row of the block, or none for a lifted one. -/
def verifiedEvents (s : World ω) : Op ω → List (BlockKey × Option BlockRow)
  | .record w now =>
    match s.workers w with
    | .answered _ item =>
      if item.status = .ok then
        [(item.key, if item.plan.action = .ban then some ⟨item.key, item.expiresAt, now⟩ else none)]
      else []
    | _ => []
  | _ => []

/-- The latest verified result for a source, address and channel. -/
def lastVerified (t : List (BlockKey × Option BlockRow)) (key : BlockKey) : Option BlockRow :=
  t.foldl (fun row e => if e.1 = key then e.2 else row) none

theorem recordBlock_find? (blocks : Table BlockRow.key) (item : Item) (now : ℚ) (key : BlockKey) :
    (recordBlock blocks item now).find? key =
      if item.status = .ok ∧ item.key = key then
        if item.plan.action = .ban then some ⟨item.key, item.expiresAt, now⟩ else none
      else blocks.find? key := by
  unfold recordBlock
  by_cases hok : item.status = .ok
  · by_cases hban : item.plan.action = .ban
    · simp [hok, hban, Table.find?_replace]
    · simp [hok, hban, Table.find?_delete_key]
  · simp [hok]

/-- **The blocks table** holds the latest recorded verified result of every key. -/
theorem blocks_run (config : Config) (ops : List (Op ω)) (key : BlockKey) :
    (run (next config) (World.init : World ω) ops).db.blocks.find? key =
      lastVerified (trace (next config) verifiedEvents World.init ops) key := by
  refine trace_invariant (Q := fun _ => True) (h := [])
    (R := fun t (s : World ω) => s.db.blocks.find? key = lastVerified t key) ?_ (fun _ _ => trivial) rfl
  intro t s op _ hs
  have heffect := next_effect config s op
  -- Only a result transaction touches the table.
  have hframe : ∀ s' : World ω, s'.db.blocks = s.db.blocks → verifiedEvents s op = [] →
      s'.db.blocks.find? key = lastVerified (t ++ verifiedEvents s op) key := by
    intro s' hblocks hnone
    rw [hblocks, hnone, List.append_nil, hs]
  generalize next config s op = s' at heffect
  cases heffect with
  | previewed hpreview => exact hframe _ (preview_spec hpreview).2.2.2.2 rfl
  | executed hexecute =>
    refine hframe _ ?_ rfl
    obtain ⟨plan, -, -, ⟨-, rfl, -⟩ | ⟨-, -, -, -, -, -, hblocks, -⟩⟩ := execute_spec hexecute
    · rfl
    · exact hblocks
  | claimed hw hclaim =>
    obtain ⟨job, item, -, -, -, -, -, -, -, rfl⟩ := claim_spec hclaim
    exact hframe _ rfl rfl
  | answered hw hitem => exact hframe _ rfl rfl
  | crashed w => exact hframe _ rfl rfl
  | @recorded w now c item hw =>
    have hblocks : ({ s with db := s.db.record c item now }.setWorker w .idle).db.blocks =
        recordBlock s.db.blocks item now := rfl
    rw [hblocks, recordBlock_find?, hs]
    simp only [verifiedEvents, hw, lastVerified]
    by_cases hok : item.status = .ok
    · simp [hok, List.foldl_append]
    · simp [hok]
  | ignored hop =>
    refine hframe s rfl ?_
    cases op with
    | record w now =>
      simp only [verifiedEvents]
      split
      · rename_i c item hw
        exact absurd hw (hop w now c item rfl)
      · rfl
    | _ => rfl

/-- **Results stand in every run without a raced result transaction**, whatever the order of the
workers' steps: a settled item keeps its result, a finished job stays finished, and the blocks table
holds the latest recorded verified result. -/
theorem unraced_results_stand (config : Config) (ops₁ ops₂ : List (Op ω))
    (h : StepsSatisfy (next config) Unraced (World.init : World ω) (ops₁ ++ ops₂)) :
    let s₁ := run (next config) (World.init : World ω) ops₁
    let s₂ := run (next config) (World.init : World ω) (ops₁ ++ ops₂)
    (∀ j ∈ s₁.db.jobs, ∃ j' ∈ s₂.db.jobs, j'.id = j.id ∧
      (∀ (k : Nat) (i : Item), j.items[k]? = some i → i.active = false → j'.items[k]? = some i) ∧
      (j.active = false → j'.status = j.status)) ∧
    ∀ key, s₂.db.blocks.find? key =
      lastVerified (trace (next config) verifiedEvents World.init (ops₁ ++ ops₂)) key := by
  intro s₁ s₂
  have hadvances : Advances s₁.db s₂.db := by
    simp only [s₂, run_append]
    exact advances_run (sound_run config ops₁) h.append
  refine ⟨fun j hj => ?_, blocks_run config (ops₁ ++ ops₂)⟩
  obtain ⟨j', hj', hadv⟩ := hadvances.jobs j.id j (Table.find?_of_mem hj)
  exact ⟨j', Table.mem_of_find? hj', Table.find?_key hj', hadv.settled,
    fun hf => (hadv.finished hf).1⟩

/-- One source and no protected network. -/
def oneSource : Config := ⟨["server"], []⟩

/-- A ban of one address on `udp` is previewed and executed. -/
def oneBan : List (Op ω) :=
  [.preview "operator" (some ⟨"ban", [⟨"server", ['1', '0', '.', '0', '.', '0', '.', '1']⟩], ["udp"],
      none, ['x']⟩) none 1 "plan",
    .execute "operator" "plan" 2 "job" fun _ => "request"]

/-- The response that confirms it. -/
def oneBanConfirmed : Response :=
  ⟨.number 1, .text "server".toList, .text "request".toList, .text "ok".toList,
    .text ['1', '0', '.', '0', '.', '0', '.', '1'], .text "udp".toList, .bool true, .none⟩

/-- The lease of the first worker is over when the second one takes the item and has it confirmed. -/
def takenOver : List (Op Bool) :=
  oneBan ++ [.claim true 10, .claim false 100, .call false 101 (some oneBanConfirmed),
    .record false 102]

def Db.statuses (db : Db) : List (String × JobStatus × List ItemStatus) :=
  db.jobs.rows.map fun j => (j.id, j.status, j.items.map Item.status)

/-- The second worker's result stands when the first one's call fails and it ends before it records
anything. -/
theorem unraced_results_stand_one :
    let late : List (Op Bool) := [.call true 103 none, .crash true]
    StepsSatisfy (next oneSource) Unraced (World.init : World Bool) (takenOver ++ late) ∧
    (run (next oneSource) (World.init : World Bool) takenOver).db.statuses = [("job", .done, [.ok])] ∧
    ∀ j ∈ (run (next oneSource) (World.init : World Bool) takenOver).db.jobs,
      ∃ j' ∈ (run (next oneSource) (World.init : World Bool) (takenOver ++ late)).db.jobs,
        j'.id = j.id ∧ (j.active = false → j'.status = j.status) := by
  intro late
  have hops : StepsSatisfy (next oneSource) Unraced (World.init : World Bool) (takenOver ++ late) := by
    have hcurrent : (match (run (next oneSource) (World.init : World Bool)
          (takenOver.take 5)).workers false with
        | .answered c _ => decide (((run (next oneSource) (World.init : World Bool)
            (takenOver.take 5)).db.jobs.find? c.jobId).map Job.items = some c.items)
        | _ => true) = true := by decide +kernel
    refine ⟨trivial, trivial, trivial, trivial, trivial, fun c item hw => ?_, trivial, trivial, trivial⟩
    rw [show (run (next oneSource) (World.init : World Bool) (takenOver.take 5)).workers false =
      .answered c item from hw] at hcurrent
    exact Option.map_eq_some_iff.mp (of_decide_eq_true hcurrent)
  refine ⟨hops, by decide +kernel, fun j hj => ?_⟩
  obtain ⟨j', hj', hid, -, hstatus⟩ := (unraced_results_stand oneSource takenOver late hops).1 j hj
  exact ⟨j', hj', hid, hstatus⟩

/-- The first worker's call fails at last. -/
def tooLate : List (Op Bool) := [.call true 103 none, .record true 104]

/-- **A late result undoes a recorded one**: the confirmed item is pending again and the finished
job runs again. -/
theorem late_result_undoes :
    let s₁ := run (next oneSource) (World.init : World Bool) takenOver
    let s₂ := run (next oneSource) (World.init : World Bool) (takenOver ++ tooLate)
    ¬((∀ j ∈ s₁.db.jobs, ∃ j' ∈ s₂.db.jobs, j'.id = j.id ∧
      (∀ (k : Nat) (i : Item), j.items[k]? = some i → i.active = false → j'.items[k]? = some i) ∧
      (j.active = false → j'.status = j.status)) ∧
    ∀ key, s₂.db.blocks.find? key =
      lastVerified (trace (next oneSource) verifiedEvents World.init (takenOver ++ tooLate)) key) := by
  intro s₁ s₂ hclaim
  have h₁ : s₁.db.statuses = [("job", .done, [.ok])] := by decide +kernel
  have h₂ : s₂.db.statuses = [("job", .running, [.pending])] := by decide +kernel
  obtain ⟨j, hj, hstatus⟩ : ∃ j ∈ s₁.db.jobs, j.status = .done := by
    obtain ⟨j, hj, heq⟩ := List.mem_map.mp (h₁ ▸ List.mem_singleton_self _ : _ ∈ s₁.db.statuses)
    exact ⟨j, hj, congrArg (fun x => x.2.1) heq⟩
  obtain ⟨j', hj', -, -, hsame⟩ := hclaim.1 j hj
  have hdone : j'.status = .done := by
    rw [hsame (by rw [Job.active, hstatus]; rfl), hstatus]
  have hmem : (j'.id, j'.status, j'.items.map Item.status) ∈ s₂.db.statuses :=
    List.mem_map.mpr ⟨j', hj', rfl⟩
  rw [h₂, List.mem_singleton, hdone] at hmem
  exact absurd (congrArg (fun x => x.2.1) hmem) (by simp)

/-! ### The queue of one worker -/

/-- An open job can be claimed once every lease is over. -/
theorem claim_isSome {db : Db} (h : Queue db) {j : Job} (hj : j ∈ db.jobs) {i : Item}
    (hi : i ∈ j.items) (hopen : i.active = true) {now : ℚ}
    (hlease : ∀ k ∈ db.jobs, k.leaseUntil ≤ now) : ∃ db' c, db.claim now = some (db', c) := by
  have hactive : j.active = true := by
    rw [h.consistent j hj]
    exact List.any_eq_true.mpr ⟨i, hi, hopen⟩
  unfold Db.claim
  cases hhead : db.head with
  | none =>
    have hnil := earliest_eq_none hhead
    exact absurd (List.mem_filter.mpr ⟨hj, hactive⟩) (by rw [hnil]; exact List.not_mem_nil)
  | some job =>
    obtain ⟨hmem, hjob, -⟩ := Db.head_spec hhead
    simp only [if_neg (not_lt.mpr (hlease job hmem))]
    cases hidx : job.items.findIdx? Item.active with
    | none =>
      rw [h.consistent job hmem, List.any_eq_true] at hjob
      obtain ⟨x, hx, hxa⟩ := hjob
      have := List.findIdx?_eq_none_iff.mp hidx x hx
      rw [hxa] at this
      exact absurd this (by simp)
    | some index => exact ⟨_, _, rfl⟩

theorem exists_lt_all (times : List ℚ) : ∃ t, ∀ x ∈ times, t < x := by
  induction times with
  | nil => exact ⟨0, by simp⟩
  | cons x times ih =>
    obtain ⟨t, ht⟩ := ih
    refine ⟨min t x - 1, fun y hy => ?_⟩
    rcases List.mem_cons.mp hy with rfl | hy
    · linarith [min_le_right t y]
    · linarith [min_le_left t x, ht y hy]

/-- After an execution the plan has its actor and its job, with the request ids drawn. -/
theorem execute_links {db : Db} {actor planId : String} {now : ℚ} {jobId : String}
    {requestIds : Nat → String} {job : Job}
    (h : execute db actor planId now jobId requestIds = .ok (db', job)) :
    (∃ p, db'.plans.find? planId = some p ∧ p.jobId = some job.id ∧ p.actor = actor) ∧
      db'.jobs.find? job.id = some job := by
  obtain ⟨plan, hplan, hactor, ⟨hid, rfl, hjob⟩ | ⟨-, hid, -, -, -, hjobs, -, hplans⟩⟩ :=
    execute_spec h
  · exact ⟨⟨plan, hplan, hid, hactor⟩, hjob⟩
  · refine ⟨⟨plan.confirm planId jobId, by rw [hplans, hplan]; rfl, ?_⟩, ?_⟩
    · rw [Plan.confirm, if_pos (Table.find?_key hplan), hid]
      exact ⟨rfl, hactor⟩
    · rw [Table.find?_insert hjobs, if_pos rfl]

/-- **The queue of a single worker**, which may crash between any two of its steps, with a strictly
increasing clock and arbitrary replies. A job is open exactly while one of its items is; a settled
item never changes again; a request is sent for the first open item of the first open job, and the
answer is stored in that item; repeated execution of a plan by its actor succeeds and returns its one
job; and while an item is open, the idle worker claims one as soon as the leases are over. -/
theorem queue_never_wedges (config : Config) (ops : List (Op Unit))
    (hclock : (ops.filterMap Op.now?).Pairwise (· < ·)) :
    let s := run (next config) (World.init : World Unit) ops
    (∀ j ∈ s.db.jobs, j.active = true ↔ ∃ i ∈ j.items, i.active = true) ∧
    (∀ ops₁ ops₂, ops = ops₁ ++ ops₂ →
      ∀ j ∈ (run (next config) (World.init : World Unit) ops₁).db.jobs, ∃ j' ∈ s.db.jobs,
        j'.id = j.id ∧
        ∀ (k : Nat) (i : Item), j.items[k]? = some i → i.active = false → j'.items[k]? = some i) ∧
    (∀ c, s.workers () = .claimed c → ∃ j, s.db.jobs.find? c.jobId = some j ∧ j.items = c.items ∧
      (∀ (k : Nat) (i : Item), k < c.index → j.items[k]? = some i → i.active = false) ∧
      ∀ k ∈ s.db.jobs, k.created < j.created → ∀ i ∈ k.items, i.active = false) ∧
    (∀ c item, s.workers () = .answered c item → ∀ now,
      ∃ j ∈ (next config s (.record () now)).db.jobs, j.id = c.jobId ∧
        j.items = c.items.set c.index item ∧ (j.active = true ↔ ∃ i ∈ j.items, i.active = true)) ∧
    (∀ ops₁ actor planId now jobId requestIds ops₂ db₁ job₁,
      ops = ops₁ ++ .execute actor planId now jobId requestIds :: ops₂ →
      execute (run (next config) (World.init : World Unit) ops₁).db actor planId now jobId
        requestIds = .ok (db₁, job₁) →
      (∀ now' jobId' requestIds', ∃ job₂,
        execute s.db actor planId now' jobId' requestIds' = .ok (s.db, job₂)) ∧
      ∀ actor' now' jobId' requestIds' db₂ job₂,
        execute s.db actor' planId now' jobId' requestIds' = .ok (db₂, job₂) →
        db₂ = s.db ∧ job₂.id = job₁.id ∧
          job₂.items.map Item.requestId = job₁.items.map Item.requestId) ∧
    (s.workers () = .idle → (∃ j ∈ s.db.jobs, ∃ i ∈ j.items, i.active = true) →
      ∀ now, (∀ j ∈ s.db.jobs, j.leaseUntil ≤ now) →
        ∃ c, (next config s (.claim () now)).workers () = .claimed c) := by
  intro s
  have hsound : Sound s := sound_run config ops
  have hheld : ∀ ops₁, Held (run (next config) (World.init : World Unit) ops₁) := fun ops₁ =>
    run_preserves (P := Held) (fun _ op h => h.next op) held_init
  obtain ⟨t, ht⟩ := exists_lt_all (ops.filterMap Op.now?)
  obtain ⟨t', hordered⟩ : ∃ t', Ordered s t' := by
    refine ordered_run (t := t) ⟨?_, ?_⟩ ht hclock
    · exact fun j hj => absurd hj (Table.not_mem_empty j)
    · exact fun w c hc => absurd hc (by simp [World.init, Phase.claim?])
  -- From any earlier state on, nothing is taken back.
  have hadvances : ∀ ops₁ ops₂, ops = ops₁ ++ ops₂ →
      Advances (run (next config) (World.init : World Unit) ops₁).db s.db := by
    intro ops₁ ops₂ hops
    simp only [s, hops, run_append]
    exact advances_run (sound_run config ops₁) (hheld ops₁).unraced
  have hopen : ∀ j ∈ s.db.jobs, j.active = true ↔ ∃ i ∈ j.items, i.active = true := by
    intro j hj
    rw [hsound.queue.consistent j hj, List.any_eq_true]
  refine ⟨hopen, ?_, ?_, ?_, ?_, ?_⟩
  · intro ops₁ ops₂ hops j hj
    obtain ⟨j', hj', hadv⟩ := (hadvances ops₁ ops₂ hops).jobs j.id j (Table.find?_of_mem hj)
    exact ⟨j', Table.mem_of_find? hj', Table.find?_key hj', hadv.settled⟩
  · intro c hc
    have hclaim : (s.workers ()).claim? = some c := by rw [hc]; rfl
    obtain ⟨j, hj, hfirst, hindex⟩ := hordered.first () c hclaim
    obtain ⟨j', hj', hitems⟩ := hheld ops () c hclaim
    obtain rfl := Option.some.inj (hj.symm.trans hj')
    refine ⟨j, hj, hitems, by rw [hitems]; exact hindex, fun k hk hlt i hi => ?_⟩
    by_contra hactive
    rw [Bool.not_eq_false] at hactive
    have := (hopen k hk).mpr ⟨i, hi, hactive⟩
    rw [hfirst k hk hlt] at this
    exact absurd this (by simp)
  · intro c item hanswered now
    obtain ⟨j, hj, hitems⟩ := hheld ops () c (by rw [hanswered]; rfl)
    have hrecorded := record_jobs s.db c item now c.jobId
    have hid := Table.find?_key hj
    rw [hj, Option.map_some, if_pos hid] at hrecorded
    refine ⟨j.record (c.items.set c.index item) item now, ?_, hid, rfl, ?_⟩
    · rw [next, hanswered]
      exact Table.mem_of_find? hrecorded
    · rw [← List.any_eq_true]
      exact iff_of_eq (congrArg (· = true) (resultStatus_active _))
  · intro ops₁ actor planId now jobId requestIds ops₂ db₁ job₁ hops hexecute
    have hstep : (run (next config) (World.init : World Unit)
        (ops₁ ++ [.execute actor planId now jobId requestIds])).db = db₁ := by
      rw [run_append, run_cons, run_nil, next, hexecute]
    have hadv := hadvances (ops₁ ++ [.execute actor planId now jobId requestIds]) ops₂ (by simp [hops])
    rw [hstep] at hadv
    obtain ⟨⟨p, hp, hlink, hactor⟩, hjob⟩ := execute_links hexecute
    obtain ⟨p', hp', hlink', hactor'⟩ := hadv.plans planId p job₁.id hp hlink
    obtain ⟨j', hj', hjadv⟩ := hadv.jobs job₁.id job₁ hjob
    refine ⟨fun now' jobId' requestIds' => ⟨j', ?_⟩, fun actor' now' jobId' requestIds' db₂ job₂
      hagain => ?_⟩
    · have hown : p'.actor = actor := hactor'.trans hactor
      simp [execute, hp', Option.filter_some, hown, hlink', hj']
    obtain ⟨plan, hplan, -, ⟨hid, rfl, hfound⟩ | ⟨hnone, -⟩⟩ := execute_spec hagain
    · obtain rfl := Option.some.inj (hp'.symm.trans hplan)
      have hids : job₁.id = job₂.id := Option.some.inj (hlink'.symm.trans hid)
      rw [hids] at hj'
      obtain rfl := Option.some.inj (hj'.symm.trans hfound)
      exact ⟨rfl, hids.symm, hjadv.requests⟩
    · obtain rfl := Option.some.inj (hp'.symm.trans hplan)
      rw [hnone] at hlink'
      exact absurd hlink' (by simp)
  · intro hidle hjobs now hlease
    obtain ⟨j, hj, i, hi, hactive⟩ := hjobs
    obtain ⟨db', c, hclaim⟩ := claim_isSome hsound.queue hj hi hactive hlease
    refine ⟨c, ?_⟩
    simp only [next, hidle, hclaim]
    simp [World.setWorker]

/-- The worker crashes after its request was sent, and its successor finishes the job. -/
theorem queue_never_wedges_crash :
    let ops : List (Op Unit) := oneBan ++ [.claim () 10, .call () 11 (some oneBanConfirmed),
      .crash (), .claim () 101, .call () 102 (some oneBanConfirmed), .record () 103]
    let s := run (next oneSource) (World.init : World Unit) ops
    (ops.filterMap Op.now?).Pairwise (· < ·) ∧
      ∀ j ∈ s.db.jobs, j.active = true ↔ ∃ i ∈ j.items, i.active = true := by
  intro ops s
  have hclock : (ops.filterMap Op.now?).Pairwise (· < ·) := by decide
  exact ⟨hclock, (queue_never_wedges oneSource ops hclock).1⟩

end RiskOps.Control.Jobs
