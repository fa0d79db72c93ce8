import RiskOps.Lib.Run
import RiskOps.Telemetry.HttpStore
import RiskOps.Telemetry.NetworkIncidents

/-!
# RiskOps.Telemetry.CaseOutbox — the outbox follows the cases

**What a publisher finds in the outbox is what the cases are.** `_save_case` writes a revision and
its notice in one transaction, so in every state the outbox has one row for each case, with its
current revision and payload (`Shows`), and a transaction raises the revision of one topic at most
(`RaisesOne`).
-/

namespace RiskOps.Telemetry.Outbox

open RiskOps.Lib

/-! ### An outbox of a case book -/

section

variable {κ π ε ρ : Type} [DecidableEq κ] {topic : ρ → κ}
  {revision : ρ → Nat} {shown : ρ → π} {pending : ρ → Bool} {book book' : CaseBook κ π ε}
  {outbox outbox' : Table topic}

/-- The outbox shows every case as it is now. -/
def Shows (revision : ρ → Nat) (shown : ρ → π) (book : CaseBook κ π ε) (outbox : Table topic) :
    Prop :=
  ∀ key, (outbox.find? key).map (fun r => (revision r, shown r)) =
    (book.cases.find? key).map fun c => (c.revision, c.payload)

/-- The row raises the revision of its topic. -/
def Raises (revision : ρ → Nat) (outbox : Table topic) (row : ρ) : Prop :=
  1 ≤ revision row ∧ ∀ r ∈ outbox, topic r = topic row → revision r < revision row

/-- The outbox is left alone, or a pending row raises one topic. -/
def RaisesOne (revision : ρ → Nat) (pending : ρ → Bool) (outbox outbox' : Table topic) : Prop :=
  outbox' = outbox ∨ ∃ row, pending row = true ∧ Raises revision outbox row ∧
    outbox' = outbox.replace row

/-- What a transaction leaves: an outbox that shows the cases, with one topic raised at most. -/
def Follows (revision : ρ → Nat) (shown : ρ → π) (pending : ρ → Bool) (book' : CaseBook κ π ε)
    (outbox outbox' : Table topic) : Prop :=
  Shows revision shown book' outbox' ∧ RaisesOne revision pending outbox outbox'

theorem Shows.stays (h : Shows revision shown book outbox)
    (hsame : book' = book ∧ outbox' = outbox) :
    Follows revision shown pending book' outbox outbox' := by
  obtain ⟨rfl, rfl⟩ := hsame
  exact ⟨h, .inl rfl⟩

/-- **A new revision of a case raises the revision of its topic**, and is shown. -/
theorem Shows.revise [DecidableEq π] [DecidableEq ε] {payload : π}
    (h : Shows revision shown book outbox) (row : ρ)
    (hchange : book.payload? (topic row) ≠ some payload)
    (hrev : revision row = book.nextRevision (topic row)) (hshown : shown row = payload)
    (hpending : pending row = true) (selected : Option (List ε)) (now : ℚ) :
    Follows revision shown pending (book.revise (topic row) payload selected now) outbox
      (outbox.replace row) := by
  refine ⟨fun key => ?_, .inr ⟨row, hpending, ⟨?_, fun r hr htopic => ?_⟩, rfl⟩⟩
  · rw [CaseBook.revise.eq_def, if_neg hchange]
    dsimp only
    rw [Table.find?_replace, Table.find?_replace]
    by_cases hkey : topic row = key
    · rw [if_pos hkey, if_pos hkey, Option.map_some, Option.map_some, hrev, hshown]
    · rw [if_neg hkey, if_neg hkey]
      exact h key
  · rw [hrev, CaseBook.nextRevision]
    omega
  · have hcase := h (topic r)
    rw [Table.find?_of_mem hr, Option.map_some] at hcase
    obtain ⟨c, hc, hpair⟩ := Option.map_eq_some_iff.mp hcase.symm
    rw [hrev, ← htopic, CaseBook.nextRevision, hc, Option.map_some, Option.getD_some,
      (Prod.mk.inj hpair).1]
    exact Nat.lt_succ_self _

end

/-! ### The network analysis -/

section Network

variable {D : Type} [LinearOrder D] {A A' : Network.Analysis D}

def NetworkShows (A : Network.Analysis D) : Prop :=
  Shows Network.Notice.revision Network.Notice.payload A.book A.outbox

def NetworkFollows (A A' : Network.Analysis D) : Prop :=
  Follows Network.Notice.revision Network.Notice.payload Network.Notice.pending A'.book A.outbox
    A'.outbox

theorem network_storeCase (h : NetworkShows A) (key : Network.WindowKey D)
    (payload : Network.Payload D) (events : List (Network.NetworkEvent D))
    (selected : Option (List D)) (now : ℚ) :
    NetworkFollows A (Network.storeCase A key payload events selected now) := by
  rw [Network.storeCase]
  split
  · exact h.stays ⟨rfl, rfl⟩
  · rename_i hchange
    exact h.revise (Network.notice key (A.book.nextRevision key) payload now) hchange rfl rfl rfl
      selected now

theorem network_takeIn (env : Network.Env D) (now : ℚ) (limit : Nat) (db : Network.Db D) :
    (Network.takeIn env now limit db).book = db.analysis.book ∧
      (Network.takeIn env now limit db).outbox = db.analysis.outbox := by
  let same (B : Network.Analysis D) := B.book = db.analysis.book ∧ B.outbox = db.analysis.outbox
  rw [Network.takeIn, Network.pruneContext, Network.intake]
  refine List.foldlRecOn (motive := same) _ _ ?_ fun _ hB _ _ => hB
  refine List.foldlRecOn (motive := same) _ _ ?_ fun _ hB _ _ => hB
  refine List.foldlRecOn (motive := same) _ _ ⟨rfl, rfl⟩ fun B hB row _ => ?_
  rw [Network.intakeReceipt]
  dsimp only
  split
  · split
    · exact hB
    · exact hB
  · exact hB

/-- **What one transaction does to the outbox.** -/
theorem network_next {env : Network.Env D} {db : Network.Db D} (h : NetworkShows db.analysis)
    (op : Network.Op D) : NetworkFollows db.analysis (Network.next env db op).analysis := by
  have hstale : ∀ key coverage now,
      NetworkFollows db.analysis (Network.saveStale db.analysis key coverage now) :=
    fun _ _ _ => by
      rw [Network.saveStale]
      split
      · exact h.stays ⟨rfl, rfl⟩
      · exact network_storeCase h _ _ _ _ _
  cases op with
  | ingest delivery => exact h.stays ⟨rfl, rfl⟩
  | takeIn now limit => exact h.stays (network_takeIn env now limit db)
  | analyze now key =>
    rw [Network.next]
    split
    · split
      · rename_i A' hA'
        rw [Network.analyzeWindow] at hA'
        dsimp only at hA'
        split at hA'
        · rw [← Except.ok.inj hA']
          exact hstale _ _ _
        · split at hA'
          · rw [← Except.ok.inj hA']
            exact hstale _ _ _
          · obtain ⟨report, -, hdone⟩ := bind_eq_ok.mp hA'
            rw [← Except.ok.inj hdone, Network.saveCase]
            dsimp only
            split
            · exact h.stays ⟨rfl, rfl⟩
            · exact network_storeCase h _ _ _ _ _
      · exact h.stays ⟨rfl, rfl⟩
    · exact h.stays ⟨rfl, rfl⟩

/-- **The outbox follows the cases.** In every state that deliveries and transactions of the
analysis lead to it has one row for each case, with its current revision and payload, and the next
transaction leaves it alone or raises one topic. -/
theorem network_outbox_follows (env : Network.Env D) (ops : List (Network.Op D))
    (op : Network.Op D) :
    let db := run (Network.next env) .empty ops
    NetworkShows db.analysis ∧ NetworkFollows db.analysis (Network.next env db op).analysis := by
  have h : NetworkShows (run (Network.next env) .empty ops).analysis :=
    run_preserves (P := fun db : Network.Db D => NetworkShows db.analysis)
      (fun _ op h => (network_next h op).1) fun _ => rfl
  exact ⟨h, network_next h op⟩

end Network

/-! ### The HTTP analysis -/

section Http

variable {A A' : Http.Analysis}

def HttpShows (A : Http.Analysis) : Prop :=
  Shows Http.Notice.revision Http.Notice.payload A.book A.outbox

def HttpFollows (A A' : Http.Analysis) : Prop :=
  Follows Http.Notice.revision Http.Notice.payload Http.Notice.pending A'.book A.outbox A'.outbox

theorem http_storeCase (h : HttpShows A) (key : Http.WindowKey) (payload : Http.Payload)
    (events : List Http.HttpEvent) (selected : Option (List (List Char))) (now : ℚ) :
    HttpFollows A (Http.storeCase A key payload events selected now) := by
  rw [Http.storeCase]
  split
  · exact h.stays ⟨rfl, rfl⟩
  · rename_i hchange
    exact h.revise (Http.notice key (A.book.nextRevision key) payload now) hchange rfl rfl rfl
      selected now

theorem http_saveCase (h : HttpShows A) (key : Http.WindowKey) (coverage : Http.Coverage)
    (events : List Http.HttpEvent) (findings : List Http.WebFinding) (now : ℚ) :
    HttpFollows A (Http.saveCase A key coverage events findings now) := by
  rw [Http.saveCase.eq_def]
  split
  · dsimp only
    split
    · exact h.stays ⟨rfl, rfl⟩
    · exact http_storeCase h _ _ _ _ _
  · exact h.stays ⟨rfl, rfl⟩
  · exact http_storeCase h _ _ _ _ _

theorem http_intake (now : ℚ) (limit : Nat) (A : Http.Analysis) :
    (Http.intake now limit A).2.book = A.book ∧ (Http.intake now limit A).2.outbox = A.outbox := by
  have hrows : ((Http.intakeRows A limit).foldl (Http.intakeRow now) A).book = A.book ∧
      ((Http.intakeRows A limit).foldl (Http.intakeRow now) A).outbox = A.outbox :=
    List.foldlRecOn (motive := fun B : Http.Analysis => B.book = A.book ∧ B.outbox = A.outbox)
      _ _ ⟨rfl, rfl⟩ fun _ hB _ _ => hB
  rw [Http.intake]
  dsimp only
  split
  · exact hrows
  · exact hrows

theorem http_ingest {env : Http.Env} {now : ℚ} {batch : Http.HttpBatch} {db db' : Http.Db}
    {r : Http.Response} (h : Http.ingest env now batch db = .ok (r, db')) :
    db'.analysis.book = db.analysis.book ∧ db'.analysis.outbox = db.analysis.outbox := by
  rw [Http.ingest] at h
  obtain ⟨_, -, h⟩ := bind_eq_ok.mp h
  split at h
  · split at h
    · obtain ⟨-, rfl⟩ := Prod.mk.inj (Except.ok.inj h)
      exact ⟨rfl, rfl⟩
    · cases h
  · obtain ⟨st, -, h⟩ := bind_eq_ok.mp h
    obtain ⟨-, rfl⟩ := Prod.mk.inj (Except.ok.inj h)
    exact ⟨rfl, rfl⟩

/-- **What one transaction does to the outbox.** -/
theorem http_next {env : Http.Env} {db : Http.Db} (h : HttpShows db.analysis) (s : Http.Step) :
    HttpFollows db.analysis (Http.next env db s).analysis := by
  rw [Http.next]
  split
  · split
    · rename_i hok
      exact h.stays (http_ingest hok)
    · exact h.stays ⟨rfl, rfl⟩
  · exact h.stays (http_intake _ _ _)
  · split
    · split
      · rename_i A' hA'
        rw [Http.analyzeWindow] at hA'
        obtain ⟨findings, -, hdone⟩ := bind_eq_ok.mp hA'
        rw [← Except.ok.inj hdone]
        exact http_saveCase h _ _ _ _ _
      · exact h.stays ⟨rfl, rfl⟩
    · exact h.stays ⟨rfl, rfl⟩
  · exact h.stays ⟨rfl, rfl⟩

/-- **The outbox of the HTTP analysis follows its cases**, as that of the network analysis does. -/
theorem http_outbox_follows (env : Http.Env) (steps : List Http.Step) (s : Http.Step) :
    let db := run (Http.next env) .empty steps
    HttpShows db.analysis ∧ HttpFollows db.analysis (Http.next env db s).analysis := by
  have h : HttpShows (run (Http.next env) .empty steps).analysis :=
    run_preserves (P := fun db : Http.Db => HttpShows db.analysis)
      (fun _ s h => (http_next h s).1) fun _ => rfl
  exact ⟨h, http_next h s⟩

end Http

end RiskOps.Telemetry.Outbox
