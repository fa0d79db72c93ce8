import RiskOps.Lib.PyJson
import RiskOps.Telemetry.NoticeBridge

/-!
# RiskOps.Telemetry.NoticePair — the check on a restored pair of databases

Model of `check_http_pair` (`scripts/recovery_package.py`) and of the notification part of
`check_pair` (`scripts/network_recovery.py`): **what a source and a console that are restored
together have to agree on**, topic by topic.

**Pairs of one moment** pass, whatever publishers were doing (`pair_check_exact`). **Pairs of two
moments** that pass satisfy the invariant of the bridge again (`Linked.restored`): the console marks
nothing above the source, so what it has imported the source had written.

The revisions and marks are numbers and the flags booleans here, which the checks test first.
-/

namespace RiskOps.Telemetry.Bridge

open RiskOps.Lib

/-! ### The check -/

/-- What the two checks differ in. -/
structure PairCheck where
  /-- The kind of the topics. -/
  kind : Str
  /-- The second query lists the marks of the producer, not all of them. -/
  ofProducer : Bool

def httpPair : PairCheck := ⟨Str.ofString "http:", true⟩

def networkPair : PairCheck := ⟨Str.ofString "network:", false⟩

/-- What the topics of a producer start with. -/
def PairCheck.topicPrefix (k : PairCheck) (producer : Str) : Str := k.kind ++ producer ++ [58]

/-- `[0-9a-f]{32}`. -/
def isProducerId (s : Str) : Bool :=
  s.length = 32 && s.all fun c => (48 ≤ c && c ≤ 57) || (97 ≤ c && c ≤ 102)

/-- A letter as `LIKE` compares it. -/
def lowerCase (c : Nat) : Nat := if 65 ≤ c && c ≤ 90 then c + 32 else c

/-- `name LIKE prefix || '%'`, of the part of the name behind that of the import. -/
def PairCheck.lists (k : PairCheck) (producer topic : Str) : Bool :=
  let start := k.topicPrefix producer
  !k.ofProducer || (topic.take start.length).map lowerCase = start.map lowerCase

section

variable {P O W : Type}

/-- The checks on a row of the outbox. -/
def PairCheck.row (k : PairCheck) (producer : Str) (c : Console Str P O) (r : OutboxRow Str P) :
    Bool :=
  (k.topicPrefix producer).isPrefixOf r.topic && 1 ≤ r.notice.revision
    && c.mark r.topic ≤ r.notice.revision && (r.pending || c.mark r.topic = r.notice.revision)

/-- `check_http_pair(http, console)`: the number of imported topics; `none` when the two are
incompatible. -/
def checkPair (k : PairCheck) (producer : Option Str) (outbox : Outbox Str P)
    (c : Console Str P O) : Option Nat :=
  match producer with
  | none => none
  | some producer =>
    if isProducerId producer && outbox.rows.all (k.row producer c)
        && c.marks.rows.all fun m => !k.lists producer m.1 || (outbox.find? m.1).isSome then
      some (outbox.rows.countP fun r => c.mark r.topic ≠ 0)
    else none

variable {k : PairCheck} {producer : Str} {outbox : Outbox Str P} {c : Console Str P O}

theorem checkPair_isSome : (checkPair k (some producer) outbox c).isSome = true ↔
    isProducerId producer = true ∧ (∀ r ∈ outbox, k.row producer c r = true) ∧
      ∀ m ∈ c.marks, k.lists producer m.1 = true → ∃ r ∈ outbox, r.topic = m.1 := by
  have hfind : ∀ t, (outbox.find? t).isSome = true ↔ ∃ r ∈ outbox, r.topic = t := by
    intro t
    rw [Option.isSome_iff_exists]
    exact ⟨fun ⟨r, hr⟩ => ⟨r, Table.mem_of_find? hr, Table.find?_key hr⟩,
      fun ⟨r, hr, ht⟩ => ⟨r, ht ▸ Table.find?_of_mem hr⟩⟩
  have hif : ∀ {p : Prop} [Decidable p] (n : Nat), (if p then some n else none).isSome = true ↔ p := by
    intro p _ n
    split <;> simp_all
  rw [checkPair, hif]
  simp only [Bool.and_eq_true, List.all_eq_true, Bool.or_eq_true, Bool.not_eq_true', and_assoc,
    Table.mem_def]
  refine and_congr_right fun _ => and_congr_right fun _ => forall₂_congr fun m _ => ?_
  rw [hfind, ← Bool.not_eq_true, ← imp_iff_not_or]
  rfl

theorem PairCheck.row_iff {r : OutboxRow Str P} : k.row producer c r = true ↔
    (∃ identity, r.topic = k.topicPrefix producer ++ identity) ∧ 1 ≤ r.notice.revision ∧
      c.mark r.topic ≤ r.notice.revision ∧
      (r.pending = false → c.mark r.topic = r.notice.revision) := by
  simp only [PairCheck.row, Bool.and_eq_true, List.isPrefixOf_iff_prefix, decide_eq_true_eq,
    Bool.or_eq_true, and_assoc]
  refine and_congr ?_ (and_congr_right fun _ => and_congr_right fun _ => ?_)
  · exact exists_congr fun _ => eq_comm
  · cases r.pending <;> simp

theorem PairCheck.lists_append (identity : Str) :
    k.lists producer (k.topicPrefix producer ++ identity) = true := by
  simp [PairCheck.lists]

end

/-! ### Pairs of one moment -/

section

variable {T P O W : Type} [LinearOrder T] [DecidableEq P] [DecidableEq W] {source : Source P O}
  {s : State T P O W}

omit [DecidableEq P] [DecidableEq W] in
theorem Console.exists_mark (c : Console T P O) {t : T} (h : 0 < c.mark t) :
    ∃ m ∈ c.marks, m.1 = t := by
  unfold Console.mark at h
  cases hfind : c.marks.find? t with
  | none =>
    rw [hfind] at h
    exact absurd h (Nat.lt_irrefl 0)
  | some m => exact ⟨m, Table.mem_of_find? hfind, Table.find?_key hfind⟩

/-- Every mark is one of an import. -/
def Marked (s : State T P O W) : Prop := ∀ m ∈ s.console.marks, ∃ n ∈ s.imports, n.topic = m.1

theorem Marked.next (h : Marked s) (a : Action T P O W) : Marked (Bridge.next source s a) := by
  cases a with
  | importNext w now =>
    rw [Bridge.next]
    split
    · rename_i n rest hw
      split
      · exact h
      · rename_i c himport
        intro m hm
        dsimp only at hm ⊢
        by_cases hnew : n.revision > s.console.mark n.topic
        · rw [if_pos hnew]
          have hmarks : c.marks = s.console.marks.replace (n.topic, n.revision) := by
            unfold importNotice at himport
            rw [if_pos hnew] at himport
            split at himport
            · exact congrArg Console.marks (Option.some.inj himport).symm
            · split at himport
              · cases himport
              · exact congrArg Console.marks (Option.some.inj himport).symm
          rw [hmarks] at hm
          rcases mem_replace hm with rfl | ⟨hm, -⟩
          · exact ⟨n, List.mem_append_right _ (List.mem_singleton_self n), rfl⟩
          · obtain ⟨n', hn', ht⟩ := h m hm
            exact ⟨n', List.mem_append_left _ hn', ht⟩
        · rw [if_neg hnew]
          unfold importNotice at himport
          rw [if_neg hnew] at himport
          obtain rfl := Option.some.inj himport
          exact h m hm
    · exact h
  | update n =>
    rw [Bridge.next]
    split <;> exact h
  | select w limit =>
    rw [Bridge.next]
    split <;> exact h
  | acknowledge w =>
    rw [Bridge.next]
    split <;> exact h
  | crash w => exact h
  | console f => exact h

omit [DecidableEq P] [DecidableEq W] in
/-- The source announces at least what the console has marked. -/
theorem Linked.mark_le (h : Linked s) {r : OutboxRow T P} (hr : r ∈ s.outbox) :
    s.console.mark r.topic ≤ r.notice.revision := by
  obtain hzero | ⟨n, hn, htopic, hrev⟩ := h.marked r.topic
  · omega
  · obtain ⟨r', hr', htopic', hle⟩ := h.newest n (h.imported n hn)
    rw [Table.eq_of_key_eq hr' hr (htopic'.trans htopic)] at hle
    omega

/-- Later steps append to what was written. -/
theorem written_run (s : State T P O W) (actions : List (Action T P O W)) :
    ∃ new, (run (Bridge.next source) s actions).written = s.written ++ new := by
  induction actions generalizing s with
  | nil => exact ⟨[], (List.append_nil _).symm⟩
  | cons a actions ih =>
    obtain ⟨later, hlater⟩ := ih (Bridge.next source s a)
    have hstep : ∃ new, (Bridge.next source s a).written = s.written ++ new := by
      cases a with
      | update n =>
        rw [Bridge.next]
        split
        · exact ⟨[n], rfl⟩
        · exact ⟨[], (List.append_nil _).symm⟩
      | importNext w now =>
        rw [Bridge.next]
        split
        · split <;> exact ⟨[], (List.append_nil _).symm⟩
        · exact ⟨[], (List.append_nil _).symm⟩
      | select w limit =>
        rw [Bridge.next]
        split <;> exact ⟨[], (List.append_nil _).symm⟩
      | acknowledge w =>
        rw [Bridge.next]
        split <;> exact ⟨[], (List.append_nil _).symm⟩
      | crash w => exact ⟨[], (List.append_nil _).symm⟩
      | console f => exact ⟨[], (List.append_nil _).symm⟩
    obtain ⟨new, hnew⟩ := hstep
    exact ⟨new ++ later, by rw [run_cons, hlater, hnew, List.append_assoc]⟩

/-! ### Pairs of two moments -/

/-- A source and a console that are restored together; no call of `publish` is running. -/
def restored (a b : State T P O W) : State T P O W :=
  ⟨a.outbox, b.console, fun _ => none, a.written, b.imports⟩

omit [DecidableEq P] [DecidableEq W] in
/-- **Two moments fit together** when the source has written what the console has imported, and
waits for what it has not. -/
theorem Linked.restored {a b : State T P O W} (ha : Linked a) (hb : Linked b)
    (himported : ∀ n ∈ b.imports, n ∈ a.written)
    (hsettled : ∀ r ∈ a.outbox, r.pending = false → r.notice.revision ≤ b.console.mark r.topic) :
    Linked (Bridge.restored a b) where
  positive := ha.positive
  raised := ha.raised
  current := ha.current
  newest := ha.newest
  held := fun w p hp => by cases hp
  imported := himported
  increasing := hb.increasing
  below := hb.below
  marked := hb.marked
  awaiting := fun w n rest hp => by cases hp
  settled := hsettled

end

section

variable {P O W : Type} [DecidableEq P] [DecidableEq W] {source : Source P O} {k : PairCheck}
  {producer : Str}

/-- The topics of what was written are the producer's. -/
def Owned (k : PairCheck) (producer : Str) (s : State Str P O W) : Prop :=
  ∀ n ∈ s.written, ∃ identity, n.topic = k.topicPrefix producer ++ identity

theorem Owned.next {s : State Str P O W} (h : Owned k producer s) {a : Action Str P O W}
    (ha : ∀ n, a = .update n → ∃ identity, n.topic = k.topicPrefix producer ++ identity) :
    Owned k producer (Bridge.next source s a) := by
  cases a with
  | update n =>
    rw [Bridge.next]
    split
    · intro m hm
      rcases List.mem_append.mp hm with hm | hm
      · exact h m hm
      · obtain rfl := List.mem_singleton.mp hm
        exact ha m rfl
    · exact h
  | importNext w now =>
    rw [Bridge.next]
    split
    · split <;> exact h
    · exact h
  | select w limit =>
    rw [Bridge.next]
    split <;> exact h
  | acknowledge w =>
    rw [Bridge.next]
    split <;> exact h
  | crash w => exact h
  | console f => exact h

/-- What holds of every state of a run of one producer. -/
theorem owned_run {actions : List (Action Str P O W)}
    (howned : ∀ n, .update n ∈ actions →
      ∃ identity, n.topic = k.topicPrefix producer ++ identity) :
    Linked (run (Bridge.next source) State.empty actions) ∧
      Marked (run (Bridge.next source) State.empty actions) ∧
      Owned k producer (run (Bridge.next source) State.empty actions) := by
  have hempty : Marked (State.empty : State Str P O W) := fun m hm => absurd hm (Table.not_mem_empty m)
  refine ⟨run_preserves (P := Linked) (fun _ a h => h.next a) linked_empty,
    run_preserves (P := Marked) (fun _ a h => h.next a) hempty, ?_⟩
  have hstart : Owned k producer (State.empty : State Str P O W) := fun n hn => by cases hn
  refine run_invariant (P := Owned k producer)
    (Q := fun a => ∀ n, a = .update n → ∃ identity, n.topic = k.topicPrefix producer ++ identity)
    (fun s a ha h => Owned.next h ha) (fun a ha n heq => ?_) hstart
  rw [heq] at ha
  exact howned n ha

omit [DecidableEq P] [DecidableEq W] in
/-- The state of one moment passes. -/
theorem checkPair_same {s : State Str P O W} (hproducer : isProducerId producer = true)
    (h : Linked s) (hmarked : Marked s) (howned : Owned k producer s) :
    (checkPair k (some producer) s.outbox s.console).isSome = true := by
  refine checkPair_isSome.mpr ⟨hproducer, fun r hr => PairCheck.row_iff.mpr ⟨?_, ?_, ?_, ?_⟩, ?_⟩
  · exact howned _ (h.current r hr)
  · exact h.positive _ (h.current r hr)
  · exact h.mark_le hr
  · exact fun hpending => le_antisymm (h.mark_le hr) (h.settled r hr hpending)
  · intro m hm _
    obtain ⟨n, hn, ht⟩ := hmarked m hm
    obtain ⟨r, hr, hrt, -⟩ := h.newest n (h.imported n hn)
    exact ⟨r, hr, hrt.trans ht⟩

omit [DecidableEq P] [DecidableEq W] in
/-- A pair that passes, of a source that comes before its console. -/
theorem imported_of_checkPair {a b : State Str P O W} (ha : Linked a) (hb : Linked b)
    (howned : Owned k producer b) {new : List (Notice Str P)}
    (hwritten : b.written = a.written ++ new)
    (hpass : (checkPair k (some producer) a.outbox b.console).isSome = true) :
    ∀ n ∈ b.imports, n ∈ a.written := by
  obtain ⟨-, hrows, hmarks⟩ := checkPair_isSome.mp hpass
  intro n hn
  have hin := hb.imported n hn
  have hle := hb.below n hn
  have hpos := hb.positive n hin
  obtain ⟨identity, htopic⟩ := howned n hin
  -- the mark of its topic is listed, so the source has a row for the topic
  have hrow : ∃ r ∈ a.outbox, r.topic = n.topic := by
    obtain ⟨m, hm, hkey⟩ := b.console.exists_mark (t := n.topic) (by omega)
    rw [← hkey]
    refine hmarks m hm ?_
    rw [hkey, htopic]
    exact PairCheck.lists_append identity
  obtain ⟨r, hr, hrt⟩ := hrow
  obtain ⟨-, -, hmark, -⟩ := PairCheck.row_iff.mp (hrows r hr)
  rw [hrt] at hmark
  rw [hwritten] at hin
  rcases List.mem_append.mp hin with hin | hnew
  · exact hin
  · -- what was written later is above the row
    have hraised := hb.raised
    rw [hwritten] at hraised
    have hlt := (List.pairwise_append.mp hraised).2.2 r.notice (ha.current r hr) n hnew hrt
    omega

/-- **The check on a pair is the invariant of the bridge.** In every run of one producer the source
and the console pass as they stand. And when a source and a console of two moments of the run pass,
either of them the later one, every run that goes on from the two has the newest revision of each
topic imported or pending. -/
theorem pair_check_exact (source : Source P O) (k : PairCheck) {producer : Str}
    (hproducer : isProducerId producer = true) {before after : List (Action Str P O W)}
    (howned : ∀ n, .update n ∈ before ++ after →
      ∃ identity, n.topic = k.topicPrefix producer ++ identity) :
    let s := run (Bridge.next source) State.empty before
    let s' := run (Bridge.next source) State.empty (before ++ after)
    (checkPair k (some producer) s.outbox s.console).isSome = true ∧
    ∀ a b, (a = s ∧ b = s' ∨ a = s' ∧ b = s) →
      (checkPair k (some producer) a.outbox b.console).isSome = true →
      ∀ more, let final := run (Bridge.next source) (restored a b) more
        ∀ n ∈ final.written, (∀ m ∈ final.written, m.topic = n.topic → m.revision ≤ n.revision) →
          n ∈ final.imports ∨ ⟨n, true⟩ ∈ final.outbox := by
  intro s s'
  obtain ⟨hs, hmarked, hs_owned⟩ : Linked s ∧ Marked s ∧ Owned k producer s :=
    owned_run fun n hn => howned n (List.mem_append_left _ hn)
  obtain ⟨hs', -, hs'_owned⟩ : Linked s' ∧ Marked s' ∧ Owned k producer s' := owned_run howned
  obtain ⟨new, hnew⟩ : ∃ new, (run (Bridge.next source) s after).written = s.written ++ new :=
    written_run s after
  rw [← run_append] at hnew
  refine ⟨checkPair_same hproducer hs hmarked hs_owned, fun a b hab hpass more => ?_⟩
  have hsettled : ∀ r ∈ a.outbox, r.pending = false → r.notice.revision ≤ b.console.mark r.topic :=
    fun r hr hpending => le_of_eq
      ((PairCheck.row_iff.mp ((checkPair_isSome.mp hpass).2.1 r hr)).2.2.2 hpending).symm
  have hlinked : Linked (restored a b) := by
    obtain ⟨rfl, rfl⟩ | ⟨rfl, rfl⟩ := hab
    · exact hs.restored hs' (imported_of_checkPair hs hs' hs'_owned hnew hpass) hsettled
    · refine hs'.restored hs (fun n hn => ?_) hsettled
      rw [hnew]
      exact List.mem_append_left _ (hs.imported n hn)
  have hfinal : Linked (run (Bridge.next source) (restored a b) more) :=
    run_preserves (P := Linked) (fun _ a h => h.next a) hlinked
  intro final n hn hnewest
  by_cases himported : n ∈ final.imports
  · exact Or.inl himported
  · exact Or.inr (hfinal.pending_newest hn hnewest himported)

end

/-! ### A small pair -/

def smallProducer : Str := List.replicate 32 97

def smallNotice : Notice Str Unit := ⟨httpPair.topicPrefix smallProducer ++ [49], 1, false, ()⟩

def smallSource : Source Unit Unit := ⟨fun _ => true, fun _ => some ⟨.httpIncident, 1, none⟩⟩

/-- The source before an import and the console after it: the notice is imported, and pending. -/
def smallPair : State Str Unit Unit Unit :=
  restored (run (Bridge.next smallSource) State.empty [.update smallNotice])
    (run (Bridge.next smallSource) State.empty
      ([.update smallNotice] ++ [.select () (-1), .importNext () 0]))

/-- Importing again from the pair, the notice is not lost. -/
theorem small_pair_passes :
    let final := run (Bridge.next smallSource) smallPair [.importNext () 0]
    smallNotice ∈ final.imports ∨ ⟨smallNotice, true⟩ ∈ final.outbox := by
  have hproducer : isProducerId smallProducer = true := by decide
  have howned : ∀ n, .update n ∈ ([.update smallNotice] ++ [.select () (-1), .importNext () 0] :
      List (Action Str Unit Unit Unit)) →
        ∃ identity, n.topic = httpPair.topicPrefix smallProducer ++ identity := by
    intro n hn
    simp only [List.cons_append, List.nil_append, List.mem_cons, Action.update.injEq,
      List.not_mem_nil, or_false, reduceCtorEq] at hn
    exact ⟨[49], by rw [hn]; rfl⟩
  exact (pair_check_exact smallSource httpPair hproducer howned).2 _ _ (Or.inl ⟨rfl, rfl⟩)
    (by decide +kernel) [.importNext () 0] smallNotice (by decide +kernel) (by decide +kernel)

end RiskOps.Telemetry.Bridge
