import RiskOps.Telemetry.JournalDelivery

/-!
# RiskOps.Telemetry.RecoveryPackage — a package taken while the collector runs

Model of `capture_state_dir` and `build` (`scripts/recovery_package.py`) on a telemetry cohort. The
files of the collector's state directory are copied one at a time and without its lock; the database
snapshot comes last. Every file is copied as it was at one moment, and the collector goes on between
the copies.

**What carries it.** Whatever page was ever spooled is still the pending one or has landed, and the
receipts only grow. So of the restored files the cursor lies in the restored receipts, and the
pending page begins in them or right behind them. That is less than what the collector keeps in
step, and it is enough: a page behind such a cursor overlaps the receipts or continues them.

**What does not hold.** The pending file of a collection that failed before the first page has no
cursor. Copied before a state file that has one, it puts the cursor back to none.
-/

namespace RiskOps.Telemetry.Store

/-- Known ids in front add nothing. -/
theorem newIds_append_known {known xs ys : List (List Char)} (h : ∀ x ∈ xs, x ∈ known) :
    newIds known (xs ++ ys) = newIds known ys := by
  induction xs with
  | nil => rfl
  | cons x xs ih =>
    rw [List.cons_append, newIds, if_pos (h x List.mem_cons_self)]
    exact ih fun y hy => h y (List.mem_cons_of_mem _ hy)

end RiskOps.Telemetry.Store

namespace RiskOps.Telemetry.JournalCollector

open RiskOps.Lib.PyJson Store
open RiskOps.Lib (StepsSatisfy Str run run_append run_nil run_invariant_of_steps stepsSatisfy_append
  stepsSatisfy_of_forall)

/-! ### The package -/

/-- The files of a source in the state directory. -/
inductive StateFile
  | state
  | pending

/-- The copies: the cursor of the state file, and the pending batch. -/
structure Files where
  state : Option (Option Str)
  pending : Option Pending

/-- A pattern of `capture_state_dir` reaches a file: `if path.name in files: continue`, and a file
that is not there is not listed. -/
def Files.copy (files : Files) (w : World) : StateFile → Files
  | .state => if files.state.isSome then files else { files with state := some w.cursor }
  | .pending => if files.pending.isSome then files else { files with pending := w.pending }

/-- The collector and the package that is being built. -/
structure Cohort where
  world : World
  files : Files

/-- The collector does a step, or `build` copies a file. -/
inductive CohortStep
  | collector (step : Step)
  | copy (file : StateFile)

def Cohort.start (journal : List Members) : Cohort := ⟨World.start journal, none, none⟩

/-- The directory and the database put back, and no process. The journal is the host's. -/
def Files.restore (files : Files) (db : Db) (journal : List Members) : World :=
  ⟨journal, files.state.join, files.pending, .idle, [], db⟩

/-- The first cursor the restored collector works from: that of the pending batch, which it sends
before anything else, or that of the state file. -/
def Files.resumeCursor (files : Files) : Option Str :=
  match files.pending with
  | some p => p.nextCursor
  | none => files.state.join

section

variable (lib : Library) (cal : Calendar) (limit : Nat) (source : SourceConfig)
  (hostname : List Char)

def Cohort.next (c : Cohort) : CohortStep → Cohort
  | .collector step =>
    { c with world := JournalCollector.next lib cal limit source hostname c.world step }
  | .copy file => { c with files := c.files.copy c.world file }

def Cohort.Admissible (c : Cohort) : CohortStep → Prop
  | .collector step => JournalCollector.Admissible limit source c.world step
  | .copy _ => True

/-- The records exported in a run: those of a batch that was spooled. -/
def ExportedIn (w : World) (steps : List Step) (x : List Char) : Prop :=
  ∃ done rest p, steps = done ++ rest ∧
    (run (next lib cal limit source hostname) w done).pending = some p ∧ x ∈ p.body.ids

/-- The records exported while the files are copied. -/
def Cohort.ExportedIn (c : Cohort) (steps : List CohortStep) (x : List Char) : Prop :=
  ∃ done rest p, steps = done ++ rest ∧
    (run (Cohort.next lib cal limit source hostname) c done).world.pending = some p ∧ x ∈ p.body.ids

/-- **Nothing exported is skipped**: the store has a stretch of the journal that no exported record
lies before, each record once; and of what the saved cursor has passed it has every exported
record. -/
structure NothingSkipped (exported : List Char → Prop) (w : World) : Prop where
  stretch : ∃ before after, w.ids = before ++ w.ingested source ++ after ∧
    ∀ x, exported x → x ∈ w.ids ∧ x ∉ before
  once : (w.ingested source).Nodup
  passed : ∀ c behind ahead, w.cursor = some c → w.ids = behind ++ text c :: ahead →
    ∀ x, exported x → x ∈ behind ++ [text c] → x ∈ w.ingested source

end

/-! ### A page copied earlier -/

variable {front : List (List Char)}

/-- Two stretches of a list without duplicates: one that lies inside the other begins inside it. -/
theorem stretch_inside {ids inner after before page rest : List (List Char)} (hnodup : ids.Nodup)
    (houter : ids = front ++ inner ++ after) (hpage : ids = before ++ page ++ rest)
    (hne : page ≠ []) (hsub : ∀ x ∈ page, x ∈ inner) :
    ∃ old, old <+: inner ∧ before = front ++ old := by
  cases page with
  | nil => exact absurd rfl hne
  | cons x page =>
    obtain ⟨old, more, hinner⟩ := List.append_of_mem (hsub x List.mem_cons_self)
    have hsplit : ids = (front ++ old) ++ x :: (more ++ after) := by
      rw [houter, hinner]
      simp only [List.append_assoc, List.cons_append]
    have hsplit' : ids = before ++ x :: (page ++ rest) := by
      rw [hpage]
      simp only [List.append_assoc, List.cons_append]
    rw [hsplit, List.nodup_middle, List.nodup_cons, List.mem_append, not_or] at hnodup
    obtain ⟨hbefore, -, -⟩ := (List.append_cons_inj_of_notMem hnodup.1.1 hnodup.1.2).mp
      (hsplit.symm.trans hsplit')
    exact ⟨old, ⟨x :: more, hinner.symm⟩, hbefore.symm⟩

/-- What stays true of a page once it is spooled. -/
structure Spooled (v : Position) (p : Pending) : Prop where
  segment : p.body.ids ≠ [] → ∃ before after, v.ids = before ++ p.body.ids ++ after
  last : p.body.ids ≠ [] → p.nextCursor.map text = p.body.ids.getLast?
  empty : p.body.ids = [] → ∀ c, p.nextCursor = some c → text c ∈ v.ingested
  state : v.pending = some p ∨ Landed v.ingested p.body

/-- The files and the receipts in step. -/
abbrev Position.InSync (v : Position) : Prop :=
  Sync v.ids v.ingested v.cursor v.pending v.requests v.phase

variable {p : Pending}

theorem Position.InSync.spooled {v : Position} (h : v.InSync) (hp : v.pending = some p) :
    Spooled v p := by
  rcases h.page p hp with hfresh | hdone
  · obtain ⟨before, after, hsegment⟩ := hfresh.segment
    refine ⟨fun _ => ⟨before ++ v.ingested, after, ?_⟩, hfresh.last, fun heq c hc => ?_, .inl hp⟩
    · rw [hsegment]
      simp only [List.append_assoc]
    · rw [hfresh.empty heq] at hc
      exact h.saved c hc
  · obtain ⟨old, hold⟩ := hdone.suffix
    obtain ⟨before, after, hsegment⟩ := h.segment
    refine ⟨fun _ => ⟨before ++ old, after, ?_⟩, fun _ => hdone.last,
      fun heq => absurd heq hdone.nonempty, .inl hp⟩
    rw [hsegment, hold]
    simp only [List.append_assoc]

variable {v' : Position}

/-- The pending page goes only when it has landed. -/
theorem Moves.pending {v : Position} (hmove : Moves v v') (h : v.InSync) (hp : v.pending = some p) :
    v'.pending = some p ∨ Landed v'.ingested p.body := by
  cases hmove with
  | spool p' hphase hpending hpage =>
    rw [hp] at hpending
    cases hpending
  | unlink p' hphase =>
    have hstep := h.inStep
    rw [hphase] at hstep
    obtain ⟨hpending, hlanded, -⟩ := hstep
    obtain rfl := Option.some.inj (hp.symm.trans hpending)
    exact .inr hlanded
  | _ => exact .inl hp

theorem Spooled.moves {v : Position} (h : Spooled v p) (hsync : v.InSync) (hmove : Moves v v') :
    Spooled v' p where
  segment := fun hne => by
    obtain ⟨before, after, hsegment⟩ := h.segment hne
    obtain ⟨more, hmore⟩ := hmove.ids
    exact ⟨before, after ++ more, by rw [← hmore, hsegment, List.append_assoc]⟩
  last := h.last
  empty := fun heq c hc => hmove.ingested.subset (h.empty heq c hc)
  state := by
    rcases h.state with hp | hlanded
    · exact hmove.pending hsync hp
    · exact .inr fun x hx => hmove.ingested.subset (hlanded x hx)

/-! ### Behind the receipts -/

/-- A page that begins in the receipts or right behind them, and has a cursor. -/
structure Within (ids front ingested : List (List Char)) (p : Pending) : Prop where
  segment : p.body.ids ≠ [] →
    ∃ old after, old <+: ingested ∧ ids = front ++ old ++ p.body.ids ++ after
  last : p.body.ids ≠ [] → p.nextCursor.map text = p.body.ids.getLast?
  empty : p.body.ids = [] → ∃ c, p.nextCursor = some c ∧ text c ∈ ingested

theorem Within.mono {ids ingested : List (List Char)} (h : Within ids front ingested p)
    (more new : List (List Char)) :
    Within (ids ++ more) front (ingested ++ new) p where
  segment := fun hne => by
    obtain ⟨old, after, hold, hsegment⟩ := h.segment hne
    exact ⟨old, after ++ more, hold.trans (List.prefix_append _ _),
      by rw [hsegment, List.append_assoc]⟩
  last := h.last
  empty := fun heq => by
    obtain ⟨c, hc, hmem⟩ := h.empty heq
    exact ⟨c, hc, List.mem_append_left _ hmem⟩

theorem Within.nextCursor {ids ingested : List (List Char)} (h : Within ids front ingested p) :
    p.nextCursor ≠ none := by
  intro hnone
  by_cases hne : p.body.ids = []
  · obtain ⟨c, hc, -⟩ := h.empty hne
    rw [hc] at hnone
    cases hnone
  · have hlast := h.last hne
    rw [hnone, Option.map_none, eq_comm, List.getLast?_eq_none_iff] at hlast
    exact hne hlast

/-- When the page has landed, its cursor has a receipt. -/
theorem Within.landed {ids ingested : List (List Char)} (h : Within ids front ingested p)
    (hlanded : Landed ingested p.body) {c : Str} (hc : p.nextCursor = some c) :
    text c ∈ ingested := by
  by_cases hne : p.body.ids = []
  · obtain ⟨c', hc', hmem⟩ := h.empty hne
    rw [hc] at hc'
    rwa [Option.some.inj hc']
  · have hlast := h.last hne
    rw [hc] at hlast
    exact hlanded _ (List.mem_of_getLast? hlast.symm)

/-- **A page that overlaps the receipts or continues them** adds what is missing, in order. -/
theorem Within.deliver {ids ingested after : List (List Char)} (hnodup : ids.Nodup)
    (hids : ids = front ++ ingested ++ after) (h : Within ids front ingested p) :
    ∃ after', ids = front ++ (ingested ++ newIds ingested p.body.ids) ++ after' := by
  by_cases hne : p.body.ids = []
  · exact ⟨after, by rw [hne, newIds, List.append_nil, hids]⟩
  · obtain ⟨old, rest, ⟨more, hmore⟩, hsegment⟩ := h.segment hne
    have hboth : more ++ after = p.body.ids ++ rest := by
      rw [hids, ← hmore, List.append_assoc, List.append_assoc, List.append_assoc, List.append_assoc]
        at hsegment
      exact List.append_cancel_left (List.append_cancel_left hsegment)
    rcases List.append_eq_append_iff.mp hboth with ⟨tail, hpage, hafter⟩ | ⟨tail, hrest, -⟩
    · -- the page reaches past the receipts
      refine ⟨rest, ?_⟩
      have hfresh : ∀ x ∈ tail, x ∉ ingested := by
        intro x hx hin
        rw [hids, hafter, List.append_assoc] at hnodup
        have hinner := (List.nodup_append.mp hnodup).2.1
        exact (List.nodup_append.mp hinner).2.2 x hin x (List.mem_append_left _ hx) rfl
      have htail : tail.Nodup := by
        rw [hids, hafter] at hnodup
        exact (List.nodup_append.mp (List.nodup_append.mp hnodup).2.1).1
      have hknown : ∀ x ∈ more, x ∈ ingested := fun x hx => by
        rw [← hmore]
        exact List.mem_append_right _ hx
      rw [hpage, newIds_append_known hknown, newIds_fresh hfresh htail, hids, hafter]
      simp only [List.append_assoc]
    · -- the page is a part of them
      refine ⟨after, ?_⟩
      have hknown : ∀ x ∈ p.body.ids, x ∈ ingested := fun x hx => by
        rw [← hmore, hrest]
        exact List.mem_append_right _ (List.mem_append_left _ hx)
      rw [newIds_known hknown, List.append_nil, hids]

variable {x : List Char}

/-- No record of the page lies before the receipts. -/
theorem Within.placed {ids ingested : List (List Char)} (hnodup : ids.Nodup)
    (h : Within ids front ingested p) (hx : x ∈ p.body.ids) : x ∈ ids ∧ x ∉ front := by
  obtain ⟨old, after, -, hsegment⟩ := h.segment (List.ne_nil_of_mem hx)
  have hmem : x ∈ old ++ p.body.ids ++ after :=
    List.mem_append_left _ (List.mem_append_right _ hx)
  have hids : ids = front ++ (old ++ p.body.ids ++ after) := by
    rw [hsegment]
    simp only [List.append_assoc]
  rw [hids] at hnodup ⊢
  exact ⟨List.mem_append_right _ hmem,
    fun hfront => (List.nodup_append.mp hnodup).2.2 x hfront x hmem rfl⟩

/-- The receipts are the stretch of the journal behind `front`, and the collector works inside them
or right behind them. -/
structure Trails (front : List (List Char)) (v : Position) : Prop where
  nodup : v.ids.Nodup
  segment : ∃ after, v.ids = front ++ v.ingested ++ after
  saved : ∀ c, v.cursor = some c → text c ∈ v.ingested
  atRest : v.pending = none → v.cursor ≠ none
  page : ∀ p, v.pending = some p → Within v.ids front v.ingested p
  sent : ∀ b ∈ v.requests, (∃ p, v.pending = some p ∧ p.body = b) ∨ Landed v.ingested b
  inStep : InStep v.ingested v.cursor v.pending v.phase

section

variable {front : List (List Char)} {v : Position}

/-- A page behind a cursor that has a receipt begins in the receipts or right behind them. -/
theorem Trails.within (h : Trails front v) (hpending : v.pending = none)
    (hpage : Page v.ids v.cursor p) : Within v.ids front v.ingested p := by
  obtain ⟨c, hcursor⟩ := Option.ne_none_iff_exists'.mp (h.atRest hpending)
  have hsaved := h.saved c hcursor
  refine ⟨fun hne => ?_, hpage.last, fun heq => ⟨c, (hpage.empty heq).trans hcursor, hsaved⟩⟩
  obtain ⟨before, rest, hsegment, hbefore⟩ := hpage.segment hne
  obtain ⟨start, hstart⟩ := List.getLast?_eq_some_iff.mp (hbefore c hcursor)
  obtain ⟨after, hids⟩ := h.segment
  obtain ⟨old, more, hingested⟩ := List.append_of_mem hsaved
  -- the cursor is at one place of the journal
  have hsplit : v.ids = (front ++ old) ++ text c :: (more ++ after) := by
    rw [hids, hingested]
    simp only [List.append_assoc, List.cons_append]
  have hsplit' : v.ids = start ++ text c :: (p.body.ids ++ rest) := by
    rw [hsegment, hstart]
    simp only [List.append_assoc, List.cons_append, List.nil_append]
  have hnodup := h.nodup
  rw [hsplit, List.nodup_middle, List.nodup_cons, List.mem_append, not_or] at hnodup
  obtain ⟨hfront, -, -⟩ := (List.append_cons_inj_of_notMem hnodup.1.1 hnodup.1.2).mp
    (hsplit.symm.trans hsplit')
  refine ⟨old ++ [text c], rest, ⟨more, ?_⟩, ?_⟩
  · rw [hingested]
    simp only [List.append_assoc, List.cons_append, List.nil_append]
  · rw [hsegment, hstart, ← hfront]
    simp only [List.append_assoc]

theorem Trails.append (h : Trails front v) {new : List (List Char)}
    (hnodup : (v.ids ++ new).Nodup) : Trails front { v with ids := v.ids ++ new } where
  nodup := hnodup
  segment := by
    obtain ⟨after, hids⟩ := h.segment
    exact ⟨after ++ new, by dsimp only; rw [hids, List.append_assoc]⟩
  saved := h.saved
  atRest := h.atRest
  page := fun p hp => by
    have hpage := (h.page p hp).mono new []
    rwa [List.append_nil] at hpage
  sent := h.sent
  inStep := h.inStep

/-- A request adds the records of the pending page, or nothing. -/
theorem Trails.deliver (h : Trails front v) {b : Body} (hb : b ∈ v.requests) :
    Trails front { v with ingested := v.ingested ++ newIds v.ingested b.ids } where
  nodup := h.nodup
  segment := by
    obtain ⟨after, hids⟩ := h.segment
    rcases h.sent b hb with ⟨p, hp, rfl⟩ | hlanded
    · exact (h.page p hp).deliver h.nodup hids
    · exact ⟨after, by dsimp only; rw [newIds_known hlanded, List.append_nil, hids]⟩
  saved := fun c hc => List.mem_append_left _ (h.saved c hc)
  atRest := h.atRest
  page := fun p hp => by
    have hpage := (h.page p hp).mono [] (newIds v.ingested b.ids)
    rwa [List.append_nil] at hpage
  sent := fun b' hb' => (h.sent b' hb').imp_right fun hlanded x hx =>
    List.mem_append_left _ (hlanded x hx)
  inStep := h.inStep.mono fun x hx => List.mem_append_left _ hx

/-- **What one step keeps.** -/
theorem Trails.moves (h : Trails front v) (hmove : Moves v v') : Trails front v' := by
  cases hmove with
  | stay => exact h
  | append new hnodup => exact h.append hnodup
  | spool p hphase hpending hpage =>
    refine ⟨h.nodup, h.segment, h.saved, fun hnone => (by cases hnone), fun p' hp' => ?_,
      fun b hb => ?_, ?_⟩
    · obtain rfl := Option.some.inj hp'
      exact h.within hpending hpage
    · rcases h.sent b hb with ⟨p', hp', -⟩ | hlanded
      · rw [hpending] at hp'
        cases hp'
      · exact .inr hlanded
    · dsimp only
      rw [hphase]
      trivial
  | send p hphase hpending =>
    refine ⟨h.nodup, h.segment, h.saved, h.atRest, h.page, fun b hb => ?_, hpending⟩
    rcases List.mem_cons.mp hb with rfl | hb
    · exact .inl ⟨p, hpending, rfl⟩
    · exact h.sent b hb
  | deliver b hb => exact h.deliver hb
  | ack p hb hphase =>
    have hdelivered := h.deliver hb
    have hstep := hdelivered.inStep
    dsimp only at hstep
    rw [hphase] at hstep
    exact ⟨hdelivered.nodup, hdelivered.segment, hdelivered.saved, hdelivered.atRest,
      hdelivered.page, hdelivered.sent, hstep, fun x hx => mem_newIds hx⟩
  | saveCursor p hphase =>
    have hstep := h.inStep
    rw [hphase] at hstep
    obtain ⟨hpending, hlanded⟩ := hstep
    have hpage := h.page p hpending
    exact ⟨h.nodup, h.segment, fun c hc => hpage.landed hlanded hc, fun _ => hpage.nextCursor,
      h.page, h.sent, hpending, hlanded, rfl⟩
  | unlink p hphase =>
    have hstep := h.inStep
    rw [hphase] at hstep
    obtain ⟨hpending, hlanded, hcursor⟩ := hstep
    refine ⟨h.nodup, h.segment, h.saved, fun _ => ?_, fun p' hp' => (by cases hp'),
      fun b hb => ?_, trivial⟩
    · dsimp only
      rw [hcursor]
      exact (h.page p hpending).nextCursor
    · rcases h.sent b hb with ⟨p', hp', rfl⟩ | hlanded'
      · obtain rfl := Option.some.inj (hpending.symm.trans hp')
        exact .inr hlanded
      · exact .inr hlanded'
  | stop => exact ⟨h.nodup, h.segment, h.saved, h.atRest, h.page, h.sent, trivial⟩

end

/-! ### The moment of the snapshot -/

section

variable {front : List (List Char)} {v : Position}

/-- Where the receipts begin: there, or at the pending page when there are none. -/
structure BeginsAt (front : List (List Char)) (v : Position) : Prop where
  segment : ∃ after, v.ids = front ++ v.ingested ++ after
  page : ∀ p, v.pending = some p →
    ∃ old after, old <+: v.ingested ∧ v.ids = front ++ old ++ p.body.ids ++ after

theorem Position.InSync.beginsAt (h : v.InSync) : ∃ front, BeginsAt front v := by
  obtain ⟨before, after, hids⟩ := h.segment
  cases hp : v.pending with
  | none => exact ⟨before, ⟨after, hids⟩, fun p hp' => by rw [hp] at hp'; cases hp'⟩
  | some p =>
    rcases h.page p hp with hfresh | hdone
    · obtain ⟨front, rest, hsegment⟩ := hfresh.segment
      refine ⟨front, ⟨p.body.ids ++ rest, ?_⟩,
        fun p' hp' => ⟨v.ingested, rest, List.prefix_refl _, ?_⟩⟩
      · rw [hsegment]
        simp only [List.append_assoc]
      · obtain rfl := Option.some.inj (hp.symm.trans hp')
        rw [hsegment]
        simp only [List.append_assoc]
    · obtain ⟨old, hold⟩ := hdone.suffix
      refine ⟨before, ⟨after, hids⟩, fun p' hp' => ⟨old, after, ⟨p.body.ids, hold.symm⟩, ?_⟩⟩
      obtain rfl := Option.some.inj (hp.symm.trans hp')
      rw [hids, hold]
      simp only [List.append_assoc]

/-- A page spooled before begins in the receipts or right behind them. -/
theorem Spooled.segment_at (h : Spooled v p) (hnodup : v.ids.Nodup) (hbegins : BeginsAt front v)
    (hne : p.body.ids ≠ []) :
    ∃ old after, old <+: v.ingested ∧ v.ids = front ++ old ++ p.body.ids ++ after := by
  rcases h.state with hp | hlanded
  · exact hbegins.page p hp
  · obtain ⟨before, rest, hsegment⟩ := h.segment hne
    obtain ⟨after, hids⟩ := hbegins.segment
    obtain ⟨old, hold, rfl⟩ := stretch_inside hnodup hids hsegment hne hlanded
    exact ⟨old, rest, hold, hsegment⟩

theorem Spooled.within (h : Spooled v p) (hnodup : v.ids.Nodup) (hbegins : BeginsAt front v)
    (hnext : p.nextCursor ≠ none) :
    Within v.ids front v.ingested p where
  segment := h.segment_at hnodup hbegins
  last := h.last
  empty := fun heq => by
    obtain ⟨c, hc⟩ := Option.ne_none_iff_exists'.mp hnext
    exact ⟨c, hc, h.empty heq c hc⟩

theorem Spooled.placed (h : Spooled v p) (hnodup : v.ids.Nodup) (hbegins : BeginsAt front v)
    (hx : x ∈ p.body.ids) : x ∈ v.ids ∧ x ∉ front := by
  have hne := List.ne_nil_of_mem hx
  have hwithin : Within v.ids front v.ingested p :=
    ⟨h.segment_at hnodup hbegins, h.last, fun heq => absurd heq hne⟩
  exact hwithin.placed hnodup hx

/-- From the first receipt or the first page with a record on, the collector has a cursor. -/
theorem Position.InSync.trails (h : v.InSync) (hbegins : BeginsAt front v)
    (hstarted : v.ingested ≠ [] ∨ ∃ p, v.pending = some p ∧ p.body.ids ≠ []) : Trails front v := by
  refine ⟨h.nodup, hbegins.segment, h.saved, fun hnone hcursor => ?_, fun p hp => ?_, h.sent,
    h.inStep⟩
  · have hlast := h.atRest hnone
    rw [hcursor, Option.map_none, List.getLast?_eq_none_iff] at hlast
    rcases hstarted with hne | ⟨p, hp, -⟩
    · exact hne hlast
    · rw [hp] at hnone
      cases hnone
  · have hspooled := h.spooled hp
    refine ⟨fun _ => hbegins.page p hp, hspooled.last, fun heq => ?_⟩
    rcases h.page p hp with hfresh | hdone
    · -- a batch without records keeps the cursor, which has a receipt
      cases hcursor : v.cursor with
      | none =>
        have hend := hfresh.atEnd
        rw [hcursor, Option.map_none, List.getLast?_eq_none_iff] at hend
        rcases hstarted with hne | ⟨p', hp', hne⟩
        · exact absurd hend hne
        · obtain rfl := Option.some.inj (hp.symm.trans hp')
          exact absurd heq hne
      | some c => exact ⟨c, (hfresh.empty heq).trans hcursor, h.saved c hcursor⟩
    · exact absurd heq hdone.nonempty

/-- What the copies say of the receipts. -/
structure Copied (files : Files) (v : Position) : Prop where
  state : ∀ c, files.state = some (some c) → text c ∈ v.ingested
  pending : ∀ p, files.pending = some p → Spooled v p

variable {files : Files}

theorem Copied.moves (h : Copied files v) (hsync : v.InSync) (hmove : Moves v v') :
    Copied files v' where
  state := fun c hc => hmove.ingested.subset (h.state c hc)
  pending := fun p hp => (h.pending p hp).moves hsync hmove

theorem Copied.cursor (h : Copied files v) {c : Str} (hc : files.state.join = some c) :
    text c ∈ v.ingested :=
  h.state c (Option.join_eq_some_iff.mp hc)

/-- Copies with a cursor to resume from say that the collector has begun. -/
theorem Copied.started (h : Copied files v) (hresume : files.resumeCursor ≠ none) :
    v.ingested ≠ [] ∨ ∃ p, v.pending = some p ∧ p.body.ids ≠ [] := by
  obtain ⟨c, hc⟩ := Option.ne_none_iff_exists'.mp hresume
  unfold Files.resumeCursor at hc
  split at hc
  · rename_i p hp
    have hspooled := h.pending p hp
    by_cases hne : p.body.ids = []
    · exact .inl (List.ne_nil_of_mem (hspooled.empty hne c hc))
    · rcases hspooled.state with hpending | hlanded
      · exact .inr ⟨p, hpending, hne⟩
      · obtain ⟨x, hx⟩ := List.exists_mem_of_ne_nil _ hne
        exact .inl (List.ne_nil_of_mem (hlanded x hx))
  · exact .inl (List.ne_nil_of_mem (h.cursor hc))

end

/-! ### Runs -/

variable {c : Cohort} {w : World} {a : Step}

section

variable {lib : Library} {cal : Calendar} {limit : Nat} {source : SourceConfig}
  {hostname : List Char}

/-- The collector is sound, and the copies fit the receipts. -/
structure Cohort.Sound (source : SourceConfig) (c : Cohort) : Prop where
  world : JournalCollector.Sound source c.world
  copied : Copied c.files (c.world.position source)

theorem Cohort.Sound.copy (h : c.Sound source) (file : StateFile) :
    Copied (c.files.copy c.world file) (c.world.position source) := by
  cases file with
  | state =>
    rw [Files.copy]
    split
    · exact h.copied
    · exact ⟨fun cursor hc => h.world.sync.saved cursor (Option.some.inj hc), h.copied.pending⟩
  | pending =>
    rw [Files.copy]
    split
    · exact h.copied
    · have hsync : (c.world.position source).InSync := h.world.sync
      exact ⟨h.copied.state, fun p hp => hsync.spooled hp⟩

/-- **One step of the collector or of the build** keeps both. -/
theorem Cohort.Sound.next (h : c.Sound source) {a : CohortStep} (ha : c.Admissible limit source a) :
    (c.next lib cal limit source hostname a).Sound source := by
  cases a with
  | collector step =>
    exact ⟨h.world.next ha, h.copied.moves h.world.sync (moves_next h.world.kept ha).2⟩
  | copy file => exact ⟨h.world, h.copy file⟩

theorem Cohort.sound_start {journal : List Members} (h : (journal.map entryId).Nodup) :
    (Cohort.start journal).Sound source :=
  ⟨JournalCollector.sound_start h, ⟨fun _ hc => (by cases hc), fun _ hp => (by cases hp)⟩⟩

/-- A page spooled at some moment of the build, at its end. -/
theorem Cohort.Sound.spooled (h : c.Sound source) {steps : List CohortStep}
    (hsteps : StepsSatisfy (Cohort.next lib cal limit source hostname)
      (Cohort.Admissible limit source) c steps)
    (hx : c.ExportedIn lib cal limit source hostname steps x) :
    ∃ p, x ∈ p.body.ids ∧ Spooled
      ((run (Cohort.next lib cal limit source hostname) c steps).world.position source) p := by
  obtain ⟨done, rest, p, rfl, hp, hmem⟩ := hx
  obtain ⟨hdone, hrest⟩ := stepsSatisfy_append.mp hsteps
  refine ⟨p, hmem, ?_⟩
  rw [run_append]
  have hmid := run_invariant_of_steps (P := Cohort.Sound source) (fun c a ha hc => hc.next ha)
    hdone h
  have hsync : ((run (Cohort.next lib cal limit source hostname) c done).world.position
      source).InSync := hmid.world.sync
  refine (run_invariant_of_steps
    (P := fun c => c.Sound source ∧ Spooled (c.world.position source) p)
    (fun c a ha hc => ⟨hc.1.next ha, ?_⟩) hrest ⟨hmid, hsync.spooled hp⟩).2
  cases a with
  | collector step => exact hc.2.moves hc.1.world.sync (moves_next hc.1.world.kept ha).2
  | copy file => exact hc.2

/-- The collector behind the receipts, between two steps. -/
structure Trailing (source : SourceConfig) (front : List (List Char)) (w : World) : Prop where
  kept : BatchesKept w.db
  trails : Trails front (w.position source)

theorem trailing_next (h : Trailing source front w) (ha : Admissible limit source w a) :
    Trailing source front (next lib cal limit source hostname w a) :=
  have hstep := moves_next h.kept ha
  ⟨hstep.1, h.trails.moves hstep.2⟩

theorem trailing_run (h : Trailing source front w) {steps : List Step}
    (hsteps : StepsSatisfy (next lib cal limit source hostname) (Admissible limit source) w steps) :
    Trailing source front (run (next lib cal limit source hostname) w steps) :=
  run_invariant_of_steps (P := Trailing source front) (fun _ _ ha hw => trailing_next hw ha)
    hsteps h

/-- The journal and the receipts only grow. -/
theorem Trailing.grows (h : Trailing source front w) {steps : List Step}
    (hsteps : StepsSatisfy (next lib cal limit source hostname) (Admissible limit source) w steps) :
    w.ids <+: (run (next lib cal limit source hostname) w steps).ids ∧
      w.ingested source <+:
        (run (next lib cal limit source hostname) w steps).ingested source := by
  induction steps generalizing w with
  | nil => exact ⟨List.prefix_refl _, List.prefix_refl _⟩
  | cons a steps ih =>
    obtain ⟨hids, hingested⟩ := ih (trailing_next h hsteps.1) hsteps.2
    have hmove : Moves (w.position source)
        ((next lib cal limit source hostname w a).position source) :=
      (moves_next h.kept hsteps.1).2
    exact ⟨hmove.ids.trans hids, hmove.ingested.trans hingested⟩

/-- No exported record lies before the receipts. -/
theorem Trailing.placed (h : Trailing source front w) {steps : List Step}
    (hsteps : StepsSatisfy (next lib cal limit source hostname) (Admissible limit source) w steps)
    (hx : ExportedIn lib cal limit source hostname w steps x) :
    x ∈ (run (next lib cal limit source hostname) w steps).ids ∧ x ∉ front := by
  obtain ⟨done, rest, p, rfl, hp, hmem⟩ := hx
  obtain ⟨hdone, hrest⟩ := stepsSatisfy_append.mp hsteps
  have hmid := trailing_run h hdone
  obtain ⟨hin, hout⟩ := (hmid.trails.page p hp).placed hmid.trails.nodup hmem
  rw [run_append]
  exact ⟨(hmid.grows hrest).1.subset hin, hout⟩

/-- What the invariant says of the exported records. -/
theorem Trailing.nothingSkipped (h : Trailing source front w) {exported : List Char → Prop}
    (hexported : ∀ x, exported x → x ∈ w.ids ∧ x ∉ front) : NothingSkipped source exported w := by
  obtain ⟨after, hids⟩ := h.trails.segment
  have hnodup : w.ids.Nodup := h.trails.nodup
  change w.ids = front ++ w.ingested source ++ after at hids
  refine ⟨⟨front, after, hids, hexported⟩, ?_, fun c behind ahead hcursor hsplit x hx hpassed => ?_⟩
  · rw [hids] at hnodup
    exact (List.nodup_append.mp (List.nodup_append.mp hnodup).1).2.1
  · obtain ⟨old, more, hingested⟩ := List.append_of_mem (h.trails.saved c hcursor)
    change w.ingested source = old ++ text c :: more at hingested
    have hsplit' : w.ids = (front ++ old) ++ text c :: (more ++ after) := by
      rw [hids, hingested]
      simp only [List.append_assoc, List.cons_append]
    rw [hsplit, List.nodup_middle, List.nodup_cons, List.mem_append, not_or] at hnodup
    obtain ⟨rfl, -, -⟩ := (List.append_cons_inj_of_notMem hnodup.1.1 hnodup.1.2).mp
      (hsplit.symm.trans hsplit')
    rw [hingested]
    rw [List.append_assoc] at hpassed
    rcases List.mem_append.mp hpassed with hfront | hold
    · exact absurd hfront (hexported x hx).2
    · rcases List.mem_append.mp hold with hold | hlast
      · exact List.mem_append_left _ hold
      · rw [List.mem_singleton.mp hlast]
        exact List.mem_append_right _ List.mem_cons_self

/-- **The restored collector works behind the restored receipts**, and so does the original. -/
theorem Cohort.Sound.trailing (h : c.Sound source) (hresume : c.files.resumeCursor ≠ none) :
    ∃ front, BeginsAt front (c.world.position source) ∧ Trailing source front c.world ∧
      ∀ journal, c.world.ids <+: journal.map entryId → (journal.map entryId).Nodup →
        Trailing source front (c.files.restore c.world.db journal) := by
  have hsync : (c.world.position source).InSync := h.world.sync
  obtain ⟨front, hbegins⟩ := hsync.beginsAt
  have htrails := hsync.trails hbegins (h.copied.started hresume)
  refine ⟨front, hbegins, ⟨h.world.kept, htrails⟩,
    fun journal hjournal hnodup => ⟨h.world.kept, ?_⟩⟩
  obtain ⟨more, hmore⟩ := hjournal
  obtain ⟨after, hids⟩ := htrails.segment
  have hgrown : (c.files.restore c.world.db journal).ids = c.world.ids ++ more := hmore.symm
  refine ⟨hnodup, ⟨after ++ more, ?_⟩, fun cursor hc => h.copied.cursor hc, fun hnone hcursor => ?_,
    fun p hp => ?_, fun b hb => (by cases hb), trivial⟩
  · change (c.files.restore c.world.db journal).ids = _
    rw [hgrown]
    change c.world.ids = _ at hids
    rw [hids, List.append_assoc]
    rfl
  · refine hresume ?_
    change c.files.pending = none at hnone
    rw [Files.resumeCursor, hnone]
    exact hcursor
  · change c.files.pending = some p at hp
    have hnext : p.nextCursor ≠ none := by
      rw [Files.resumeCursor, hp] at hresume
      exact hresume
    have hwithin := ((h.copied.pending p hp).within htrails.nodup hbegins hnext).mono more []
    rw [List.append_nil] at hwithin
    change Within (c.files.restore c.world.db journal).ids front (c.world.ingested source) p
    rw [hgrown]
    exact hwithin

/-- **A recovery package skips nothing.** Take the copies of the two files while the collector runs,
in any order and between any of its steps; then the database; let the collector go on. When the
copies have a cursor to resume from, then in every run of the restored collector nothing exported by
either one is skipped, what the snapshot has stays, and an attempt that the server accepts finishes
the pending page. -/
theorem package_skips_nothing {journal : List Members} (hjournal : (journal.map entryId).Nodup)
    (events : List CohortStep)
    (hevents : StepsSatisfy (Cohort.next lib cal limit source hostname)
      (Cohort.Admissible limit source) (Cohort.start journal) events)
    (later : List Step)
    (hlater : StepsSatisfy (next lib cal limit source hostname) (Admissible limit source)
      (run (Cohort.next lib cal limit source hostname) (Cohort.start journal) events).world later)
    (hresume : (run (Cohort.next lib cal limit source hostname) (Cohort.start journal)
      events).files.resumeCursor ≠ none)
    (steps : List Step) :
    let taken := run (Cohort.next lib cal limit source hostname) (Cohort.start journal) events
    let restored := taken.files.restore taken.world.db
      (run (next lib cal limit source hostname) taken.world later).journal
    StepsSatisfy (next lib cal limit source hostname) (Admissible limit source) restored steps →
    let w := run (next lib cal limit source hostname) restored steps
    NothingSkipped source
      (fun x => (Cohort.start journal).ExportedIn lib cal limit source hostname events x ∨
        ExportedIn lib cal limit source hostname taken.world later x ∨
        ExportedIn lib cal limit source hostname restored steps x) w ∧
    taken.world.ingested source <+: w.ingested source ∧
    ∀ p now uuid db, w.pending = some p → validSpool source p = true →
      handle lib cal source hostname now uuid w.db p.body = some db →
      (run (next lib cal limit source hostname) w (attempt p now uuid)).pending = none ∧
        (run (next lib cal limit source hostname) w (attempt p now uuid)).cursor = p.nextCursor ∧
        Landed ((run (next lib cal limit source hostname) w (attempt p now uuid)).ingested source)
          p.body := by
  intro taken restored hsteps w
  have hsound : taken.Sound source := run_invariant_of_steps (P := Cohort.Sound source)
    (fun c a ha hc => hc.next ha) hevents (Cohort.sound_start hjournal)
  obtain ⟨front, hbegins, horiginal, hrestored⟩ := hsound.trailing hresume
  have hgrown := horiginal.grows hlater
  have hrestored : Trailing source front restored :=
    hrestored _ hgrown.1 (trailing_run horiginal hlater).trails.nodup
  have hw : Trailing source front w := trailing_run hrestored hsteps
  have hgrown' := hrestored.grows hsteps
  refine ⟨hw.nothingSkipped fun x hx => ?_, hgrown'.2,
    fun p now uuid db hp hvalid hhandle => attempt_finishes hw.kept hp hvalid hhandle⟩
  rcases hx with hbuild | hlater' | hresumed
  · obtain ⟨p, hmem, hspooled⟩ := (Cohort.sound_start hjournal).spooled hevents hbuild
    obtain ⟨hin, hout⟩ := hspooled.placed horiginal.trails.nodup hbegins hmem
    exact ⟨hgrown'.1.subset (hgrown.1.subset hin), hout⟩
  · obtain ⟨hin, hout⟩ := horiginal.placed hlater hlater'
    exact ⟨hgrown'.1.subset hin, hout⟩
  · exact hrestored.placed hsteps hresumed

/-- **The state file first.** When no pending file is copied before the state file, a captured
cursor is a cursor to resume from. -/
theorem resumeCursor_of_state_first {journal : List Members}
    (hjournal : (journal.map entryId).Nodup) {events : List CohortStep}
    (hevents : StepsSatisfy (Cohort.next lib cal limit source hostname)
      (fun c a => c.Admissible limit source a ∧ (a = .copy .state → c.files.pending = none))
      (Cohort.start journal) events)
    (hcursor : (run (Cohort.next lib cal limit source hostname) (Cohort.start journal)
      events).files.state.join ≠ none) :
    (run (Cohort.next lib cal limit source hostname) (Cohort.start journal)
      events).files.resumeCursor ≠ none := by
  have hinv := run_invariant_of_steps
    (P := fun c : Cohort => c.Sound source ∧
      (c.files.state.join ≠ none → ∀ p, c.files.pending = some p → p.nextCursor ≠ none))
    (fun c a ha hc => ⟨hc.1.next ha.1, ?_⟩) hevents
    ⟨Cohort.sound_start hjournal, fun _ p hp => (by cases hp)⟩
  · rw [Files.resumeCursor]
    split
    · rename_i p hp
      exact hinv.2 hcursor p hp
    · exact hcursor
  · obtain ⟨⟨hadmissible, hfirst⟩, hsound, hnext⟩ := And.intro ha hc
    cases a with
    | collector step => exact hnext
    | copy file =>
      cases file with
      | state =>
        -- the copy of the pending file is still to come
        intro _ p hp
        rw [Cohort.next, Files.copy] at hp
        dsimp only at hp
        split at hp
        · rw [hfirst rfl] at hp
          cases hp
        · rw [hfirst rfl] at hp
          cases hp
      | pending =>
        rw [Cohort.next, Files.copy]
        dsimp only
        split
        · exact hnext
        · intro hstate p hp
          obtain ⟨cursor, hstate⟩ := Option.ne_none_iff_exists'.mp hstate
          have hsync : (c.world.position source).InSync := hsound.world.sync
          obtain ⟨front, hbegins⟩ := hsync.beginsAt
          have hreceipt := hsound.copied.cursor hstate
          have htrails := hsync.trails hbegins (.inl (List.ne_nil_of_mem hreceipt))
          exact (htrails.page p hp).nextCursor

end

/-! ### The cursor put back -/

/-- An export of the entry with this cursor. -/
def exportAt (cursor : String) : List UInt8 :=
  (dumps (.obj [(Str.ofString "__CURSOR", .str (Str.ofString cursor)),
      (Str.ofString "__REALTIME_TIMESTAMP", .str (Str.ofString "1767225600000000")),
      (Str.ofString "MESSAGE", .str (Str.ofString "Connection closed"))]) ++
    10 :: (dumps (.obj [(Str.ofString "__riskops_checkpoint__", .str (Str.ofString cursor)),
      (Str.ofString "cursor_status", .str (Str.ofString "initial"))]) ++ [10])).map UInt8.ofNat

/-- A fetch, and the attempt to send what it spools. -/
def collected (batchId : String) (fetched : Except String (List UInt8)) : List Step :=
  let spool := Step.spool (Str.ofString batchId) (Str.ofString "2026-01-01T00:00:00Z") fetched
  let built := buildPending oneTimeCalendar 100 edge (Str.ofString batchId)
    (Str.ofString "2026-01-01T00:00:00Z") none fetched
  spool :: built.toOption.toList.flatMap fun p => attempt p 1767225600 (Nat.toDigits 10)

/-- Three entries. -/
def threeEntries : List Members :=
  ["s=1;i=2", "s=1;i=3", "s=1;i=4"].map fun cursor =>
    [(Str.ofString "__CURSOR", .str (Str.ofString cursor))]

/-- A collection that fails, and the attempt to send its spool. -/
def failedFirst : List Step := collected "a" (.error "ssh_timeout")

/-- The first collection fails; its spool is copied before it is sent. The next one brings an entry,
and the state file with its cursor is copied. -/
def pendingFirst : List CohortStep :=
  (failedFirst.take 1).map CohortStep.collector ++ .copy .pending ::
      (failedFirst.drop 1).map CohortStep.collector ++
    (collected "b" (.ok (exportAt "s=1;i=2"))).map CohortStep.collector ++ [.copy .state]

@[irreducible] def pendingFirstTaken : Cohort :=
  run (Cohort.next oneTime oneTimeCalendar 100 edge "edge".toList) (Cohort.start threeEntries)
    pendingFirst

def pendingFirstRestored : World :=
  pendingFirstTaken.files.restore pendingFirstTaken.world.db pendingFirstTaken.world.journal

/-- The restored collector sends the spool, and collects again. -/
def resumed (ps : List Pending) : List Step :=
  ps.flatMap (fun p => attempt p 1767225600 (Nat.toDigits 10)) ++
    collected "c" (.ok (exportAt "s=1;i=4"))

theorem admissible_exportAt {cursor : String} {batchId collectedAt : Str}
    (before after : List (List Char))
    (hexport : (exportObjects 100 (exportAt cursor)).toOption.map (fun objects =>
      (objects.dropLast.map entryId,
        (objects.getLast?.bind (parseCheckpoint none)).map Checkpoint.status)) =
      some ([cursor.toList], some .initial)) (hids : w.ids = before ++ [cursor.toList] ++ after)
    (hcursor : w.cursor = none) :
    Admissible 100 edge w (.spool batchId collectedAt (.ok (exportAt cursor))) := by
  intro objects hobjects
  rw [hobjects] at hexport
  obtain ⟨hrecords, hstatus⟩ := Prod.mk.inj (Option.some.inj hexport)
  refine ⟨⟨before, after, ?_, fun c hc => ?_⟩, fun last checkpoint hlast hcheckpoint => ?_⟩
  · rw [hrecords]
    exact hids
  · rw [hcursor] at hc
    cases hc
  · rw [hcursor] at hcheckpoint
    rw [hlast, Option.bind_some, hcheckpoint] at hstatus
    rw [Option.some.inj hstatus]
    decide

theorem admissible_attempt {now : ℚ} {uuid : Nat → List Char} (ha : a ∈ attempt p now uuid)
    (w : World) : Admissible 100 edge w a := by
  simp only [attempt, List.mem_cons, List.not_mem_nil, or_false] at ha
  rcases ha with rfl | rfl | rfl | rfl | rfl <;> trivial

theorem admissible_attempts {ps : List Pending} {now : ℚ} {uuid : Nat → List Char}
    (ha : a ∈ ps.flatMap fun p => attempt p now uuid) (w : World) : Admissible 100 edge w a := by
  obtain ⟨p, -, hmem⟩ := List.mem_flatMap.mp ha
  exact admissible_attempt hmem w

theorem stepsSatisfy_attempted (ps : List Pending) (w : World) :
    StepsSatisfy (next oneTime oneTimeCalendar 100 edge "edge".toList) (Admissible 100 edge) w
      (ps.flatMap fun p => attempt p 1767225600 (Nat.toDigits 10)) :=
  stepsSatisfy_of_forall (fun _ ha w => admissible_attempts ha w) w

theorem stepsSatisfy_collected {batchId : String} {fetched : Except String (List UInt8)}
    (h : Admissible 100 edge w
      (.spool (Str.ofString batchId) (Str.ofString "2026-01-01T00:00:00Z") fetched)) :
    StepsSatisfy (next oneTime oneTimeCalendar 100 edge "edge".toList) (Admissible 100 edge) w
      (collected batchId fetched) :=
  ⟨h, stepsSatisfy_attempted _ _⟩

theorem stepsSatisfy_collector {steps : List Step}
    (h : StepsSatisfy (next oneTime oneTimeCalendar 100 edge "edge".toList) (Admissible 100 edge)
      c.world steps) :
    StepsSatisfy (Cohort.next oneTime oneTimeCalendar 100 edge "edge".toList)
      (Cohort.Admissible 100 edge) c (steps.map .collector) := by
  induction steps generalizing c with
  | nil => trivial
  | cons a steps ih => exact ⟨h.1, ih (c := c.next _ _ _ _ _ (.collector a)) h.2⟩

/-- The entry exported as `cursor`, as its export is read. -/
theorem exportAt_two : (exportObjects 100 (exportAt "s=1;i=2")).toOption.map (fun objects =>
      (objects.dropLast.map entryId,
        (objects.getLast?.bind (parseCheckpoint none)).map Checkpoint.status)) =
      some (["s=1;i=2".toList], some .initial) := by decide +kernel

theorem exportAt_four : (exportObjects 100 (exportAt "s=1;i=4")).toOption.map (fun objects =>
      (objects.dropLast.map entryId,
        (objects.getLast?.bind (parseCheckpoint none)).map Checkpoint.status)) =
      some (["s=1;i=4".toList], some .initial) := by decide +kernel

/-- A page is spooled, and its pending file is copied. -/
@[irreducible] def pageCopied : List CohortStep :=
  [.collector (.spool (Str.ofString "b") (Str.ofString "2026-01-01T00:00:00Z")
    (.ok (exportAt "s=1;i=2"))), .copy .pending]

def pageCopiedTaken : Cohort :=
  run (Cohort.next oneTime oneTimeCalendar 100 edge "edge".toList) (Cohort.start threeEntries)
    pageCopied

theorem admissible_failed {a : CohortStep} (c : Cohort)
    (ha : a ∈ (failedFirst.take 1).map CohortStep.collector ++ .copy .pending ::
      (failedFirst.drop 1).map CohortStep.collector) : c.Admissible 100 edge a := by
  have hstep : ∀ step ∈ failedFirst, ∀ w, Admissible 100 edge w step := by
    intro step hmem w
    rcases List.mem_cons.mp hmem with rfl | hmem
    · trivial
    · exact admissible_attempts hmem w
  rcases List.mem_append.mp ha with hmem | hmem
  · obtain ⟨step, hin, rfl⟩ := List.mem_map.mp hmem
    exact hstep step (List.mem_of_mem_take hin) c.world
  · rcases List.mem_cons.mp hmem with rfl | hmem
    · trivial
    · obtain ⟨step, hin, rfl⟩ := List.mem_map.mp hmem
      exact hstep step (List.mem_of_mem_drop hin) c.world

theorem pendingFirst_admissible :
    StepsSatisfy (Cohort.next oneTime oneTimeCalendar 100 edge "edge".toList)
      (Cohort.Admissible 100 edge) (Cohort.start threeEntries) pendingFirst := by
  rw [pendingFirst, stepsSatisfy_append, stepsSatisfy_append]
  refine ⟨⟨stepsSatisfy_of_forall (fun a ha c => admissible_failed c ha) _, stepsSatisfy_collector
    (stepsSatisfy_collected (admissible_exportAt [] ["s=1;i=3".toList, "s=1;i=4".toList]
      exportAt_two ?_ ?_))⟩, True.intro, True.intro⟩
  · decide +kernel
  · decide +kernel

theorem stepsSatisfy_resumed {ps : List Pending} {before : List (List Char)}
    (hids : (run (next oneTime oneTimeCalendar 100 edge "edge".toList) w
      (ps.flatMap fun p => attempt p 1767225600 (Nat.toDigits 10))).ids =
        before ++ ["s=1;i=4".toList] ++ [])
    (hcursor : (run (next oneTime oneTimeCalendar 100 edge "edge".toList) w
      (ps.flatMap fun p => attempt p 1767225600 (Nat.toDigits 10))).cursor = none) :
    StepsSatisfy (next oneTime oneTimeCalendar 100 edge "edge".toList) (Admissible 100 edge) w
      (resumed ps) :=
  stepsSatisfy_append.mpr ⟨stepsSatisfy_attempted ps w,
    stepsSatisfy_collected (admissible_exportAt _ _ exportAt_four hids hcursor)⟩

/-- What the run comes to. -/
theorem pendingFirst_run :
    pendingFirstTaken.files.state.join = some (Str.ofString "s=1;i=2") ∧
    (run (next oneTime oneTimeCalendar 100 edge "edge".toList) pendingFirstRestored
      (pendingFirstTaken.files.pending.toList.flatMap
        fun p => attempt p 1767225600 (Nat.toDigits 10))).ids =
      ["s=1;i=2".toList, "s=1;i=3".toList] ++ ["s=1;i=4".toList] ++ [] ∧
    (run (next oneTime oneTimeCalendar 100 edge "edge".toList) pendingFirstRestored
      (pendingFirstTaken.files.pending.toList.flatMap
        fun p => attempt p 1767225600 (Nat.toDigits 10))).cursor = none ∧
    (run (next oneTime oneTimeCalendar 100 edge "edge".toList) pendingFirstRestored
      (resumed pendingFirstTaken.files.pending.toList)).ids =
      ["s=1;i=2".toList, "s=1;i=3".toList, "s=1;i=4".toList] ∧
    (run (next oneTime oneTimeCalendar 100 edge "edge".toList) pendingFirstRestored
      (resumed pendingFirstTaken.files.pending.toList)).ingested edge =
      ["s=1;i=2".toList, "s=1;i=4".toList] := by
  decide +kernel

/-- The page is sent, and the state file with its cursor is copied; the next collection fails, and
its pending file is copied. -/
def stateCopied : List CohortStep :=
  (collected "b" (.ok (exportAt "s=1;i=2"))).map CohortStep.collector ++ [.copy .state,
    .collector (.spool (Str.ofString "c") (Str.ofString "2026-01-01T00:00:00Z")
      (.error "ssh_timeout")), .copy .pending]

theorem resumeCursor_of_state_first_page :
    let files := (run (Cohort.next oneTime oneTimeCalendar 100 edge "edge".toList)
      (Cohort.start threeEntries) stateCopied).files
    files.pending.isSome ∧ files.resumeCursor ≠ none := by
  have hcollected : StepsSatisfy (Cohort.next oneTime oneTimeCalendar 100 edge "edge".toList)
      (Cohort.Admissible 100 edge) (Cohort.start threeEntries)
      ((collected "b" (.ok (exportAt "s=1;i=2"))).map .collector) :=
    stepsSatisfy_collector (stepsSatisfy_collected (admissible_exportAt []
      ["s=1;i=3".toList, "s=1;i=4".toList] exportAt_two (by decide +kernel) rfl))
  refine ⟨by decide +kernel, resumeCursor_of_state_first (by decide +kernel) ?_ (by decide +kernel)⟩
  rw [stateCopied, stepsSatisfy_append]
  exact ⟨hcollected.and fun a ha _ heq => by simp [heq] at ha,
    ⟨trivial, fun _ => Option.isNone_iff_eq_none.mp (by decide +kernel)⟩,
    ⟨trivial, fun heq => nomatch heq⟩, ⟨trivial, fun heq => nomatch heq⟩, trivial⟩

/-- A package of the page alone, and a collector that sends it. -/
theorem package_skips_nothing_page :
    ∃ steps, NothingSkipped edge
      (fun x =>
        (Cohort.start threeEntries).ExportedIn oneTime oneTimeCalendar 100 edge "edge".toList
          pageCopied x ∨
        ExportedIn oneTime oneTimeCalendar 100 edge "edge".toList pageCopiedTaken.world [] x ∨
        ExportedIn oneTime oneTimeCalendar 100 edge "edge".toList
          (pageCopiedTaken.files.restore pageCopiedTaken.world.db pageCopiedTaken.world.journal)
          steps x)
      (run (next oneTime oneTimeCalendar 100 edge "edge".toList)
        (pageCopiedTaken.files.restore pageCopiedTaken.world.db pageCopiedTaken.world.journal)
        steps) := by
  have hspool : Admissible 100 edge (Cohort.start threeEntries).world (.spool (Str.ofString "b")
      (Str.ofString "2026-01-01T00:00:00Z") (.ok (exportAt "s=1;i=2"))) :=
    admissible_exportAt [] ["s=1;i=3".toList, "s=1;i=4".toList] exportAt_two (by decide +kernel) rfl
  have hadmissible : StepsSatisfy (Cohort.next oneTime oneTimeCalendar 100 edge "edge".toList)
      (Cohort.Admissible 100 edge) (Cohort.start threeEntries) pageCopied := by
    rw [pageCopied]
    exact ⟨hspool, True.intro, True.intro⟩
  have hresume : pageCopiedTaken.files.resumeCursor ≠ none := by decide +kernel
  exact ⟨_, (@package_skips_nothing oneTime oneTimeCalendar 100 edge "edge".toList threeEntries
    (by decide +kernel) pageCopied hadmissible [] trivial hresume _
    (stepsSatisfy_attempted pageCopiedTaken.files.pending.toList _)).1⟩

/-- **A cursor put back.** The captured cursor is that of the first entry; the spool of the failed
collection, copied before it, is acknowledged again and saves its own: none. The next export begins
where the exporter likes, and the second entry is skipped. -/
theorem pendingFirst_skips :
    (threeEntries.map entryId).Nodup ∧
    StepsSatisfy (Cohort.next oneTime oneTimeCalendar 100 edge "edge".toList)
      (Cohort.Admissible 100 edge) (Cohort.start threeEntries) pendingFirst ∧
    pendingFirstTaken.files.state.join = some (Str.ofString "s=1;i=2") ∧
    StepsSatisfy (next oneTime oneTimeCalendar 100 edge "edge".toList) (Admissible 100 edge)
      pendingFirstRestored (resumed pendingFirstTaken.files.pending.toList) ∧
    ¬NothingSkipped edge
      (fun x =>
        (Cohort.start threeEntries).ExportedIn oneTime oneTimeCalendar 100 edge "edge".toList
          pendingFirst x ∨
        ExportedIn oneTime oneTimeCalendar 100 edge "edge".toList pendingFirstTaken.world [] x ∨
        ExportedIn oneTime oneTimeCalendar 100 edge "edge".toList pendingFirstRestored
          (resumed pendingFirstTaken.files.pending.toList) x)
      (run (next oneTime oneTimeCalendar 100 edge "edge".toList) pendingFirstRestored
        (resumed pendingFirstTaken.files.pending.toList)) := by
  refine ⟨by decide +kernel, pendingFirst_admissible, pendingFirst_run.1,
    stepsSatisfy_resumed pendingFirst_run.2.1 pendingFirst_run.2.2.1, fun h => ?_⟩
  obtain ⟨before, after, hids, -⟩ := h.stretch
  rw [pendingFirst_run.2.2.2.1, pendingFirst_run.2.2.2.2] at hids
  -- behind the first entry comes the second
  cases before with
  | nil =>
    obtain ⟨-, hrest⟩ := List.cons.inj hids
    exact absurd (List.cons.inj hrest).1 (by decide)
  | cons x before =>
    have hlen := congrArg List.length hids
    simp only [List.length_cons, List.length_append, List.length_nil] at hlen
    obtain ⟨-, hrest⟩ := List.cons.inj hids
    cases before with
    | nil => exact absurd (List.cons.inj hrest).1 (by decide)
    | cons y before =>
      rw [List.length_cons] at hlen
      omega

end RiskOps.Telemetry.JournalCollector
