import RiskOps.Lib.Lawful

/-!
# RiskOps.Lib.Sliding — one sliding window over sorted rows

**A scan that keeps counters for the rows of a time window and joins the windows that
pass a test.** The rows are sorted by time. For each row the window ends in it and starts
at the first row that is recent enough; counters are updated as rows enter and leave, and
windows that pass and share a row become one interval of positions.

`Counts` says what the counters stand for. With it the intervals are described by windows
alone: every row of an interval lies in a passing window (`scan_sound`), every passing
window lies in one interval (`scan_complete`), neighbouring rows of an interval share a
passing window (`scan_joined`) and intervals do not overlap (`scan_unique`).
-/

namespace RiskOps.Lib.Sliding

/-! ### The scan -/

/-- The clock, the width of the window, and the counters with their test. The test also
reads how many rows are in the window. -/
structure Rule (α σ : Type) where
  time : α → ℚ
  width : ℚ
  init : σ
  enter : σ → α → σ
  leave : σ → α → σ
  live : Nat → σ → Bool

/-- Joined windows: the first and last position, and how many windows. -/
structure Interval where
  start : Nat
  stop : Nat
  count : Nat
  deriving DecidableEq

/-- The state of the scan, the latest interval first. -/
structure State (σ : Type) where
  left : Nat
  counts : σ
  intervals : List Interval

/-- `rows[start:stop]`. -/
def slice {α : Type} (l : List α) (start stop : Nat) : List α := (l.take stop).drop start

/-- A new window joins the latest interval when they share a position. -/
def extend (left right : Nat) : List Interval → List Interval
  | [] => [⟨left, right, 1⟩]
  | iv :: older =>
    if left ≤ iv.stop then ⟨iv.start, right, iv.count + 1⟩ :: older
    else ⟨left, right, 1⟩ :: iv :: older

namespace Rule

variable {α σ : Type} (R : Rule α σ)

/-- Rows leave at the left while they are too old; `rest` are the rows from `left` on. -/
def expire (now : ℚ) : List α → State σ → State σ
  | [], st => st
  | e :: rest, st =>
    if now - R.time e > R.width then
      expire now rest { st with left := st.left + 1, counts := R.leave st.counts e }
    else st

/-- One row of the scan. -/
def step (rows : List α) (st : State σ) (right : Nat) (x : α) : State σ :=
  let st := { st with counts := R.enter st.counts x }
  let st := R.expire (R.time x) (rows.drop st.left) st
  if R.live (right - st.left + 1) st.counts then
    { st with intervals := extend st.left right st.intervals }
  else st

/-- The rows from position `right` on. -/
def run (rows : List α) : Nat → List α → State σ → State σ
  | _, [], st => st
  | right, x :: rest, st => run rows (right + 1) rest (R.step rows st right x)

/-- The intervals, in order. -/
def scan (rows : List α) : List Interval :=
  (R.run rows 0 rows ⟨0, R.init, []⟩).intervals.reverse

/-! ### What the counters stand for -/

/-- The counters abstract the rows of the window, and the test decides `Q`. -/
structure Counts (Abs : σ → List α → Prop) (Q : List α → Prop) : Prop where
  width : 0 ≤ R.width
  init : Abs R.init []
  enter : ∀ c seg x, Abs c seg → Abs (R.enter c x) (seg ++ [x])
  leave : ∀ c e seg, Abs c (e :: seg) → Abs (R.leave c e) seg
  live : ∀ c seg, Abs c seg → (R.live seg.length c = true ↔ Q seg)

/-- The row is too old for a window that ends in `x`. -/
def Expired (x e : α) : Prop := R.time x - R.time e > R.width

instance (x e : α) : Decidable (R.Expired x e) :=
  inferInstanceAs (Decidable (R.time x - R.time e > R.width))

/-- Where the window that ends in `x` starts. -/
def start (rows : List α) (x : α) : Nat := (rows.takeWhile fun e => R.Expired x e).length

/-- The window that ends in position `r` passes. -/
def Passes (Q : List α → Prop) (rows : List α) (r : Nat) (x : α) : Prop :=
  rows[r]? = some x ∧ Q (slice rows (R.start rows x) (r + 1))

end Rule

variable {iv : Interval} {p : Nat}

section Positions

variable {α σ : Type} {R : Rule α σ} {Abs : σ → List α → Prop} {Q : List α → Prop}
  {rows pre rest : List α} {x : α}

/-- Rows in order of time. -/
def Timed (R : Rule α σ) (rows : List α) : Prop := rows.Pairwise fun a b => R.time a ≤ R.time b

theorem takeWhile_append_expired {a b : List α} (h : ∀ e ∈ a, R.Expired x e) :
    (a ++ b).takeWhile (fun e => decide (R.Expired x e)) =
      a ++ b.takeWhile fun e => decide (R.Expired x e) := by
  rw [List.takeWhile_append_of_pos]
  intro e he
  exact decide_eq_true (h e he)

/-- What `expire` does to the segment `seg` followed by the new row. -/
theorem expire_spec (hc : R.Counts Abs Q) (x : α) (rest : List α) (seg : List α) (st : State σ)
    (habs : Abs st.counts (seg ++ [x])) :
    ∃ k ≤ seg.length, (R.expire (R.time x) (seg ++ x :: rest) st).left = st.left + k ∧
      Abs (R.expire (R.time x) (seg ++ x :: rest) st).counts (seg.drop k ++ [x]) ∧
      (R.expire (R.time x) (seg ++ x :: rest) st).intervals = st.intervals ∧
      (seg ++ x :: rest).takeWhile (fun e => decide (R.Expired x e)) = seg.take k := by
  induction seg generalizing st with
  | nil =>
    have hx : ¬ R.time x - R.time x > R.width := by
      rw [sub_self]
      exact not_lt.mpr hc.width
    refine ⟨0, le_rfl, ?_⟩
    rw [List.nil_append, Rule.expire, if_neg hx]
    refine ⟨rfl, habs, rfl, ?_⟩
    rw [List.takeWhile_cons_of_neg (by simpa using (show ¬ R.Expired x x from hx)), List.take_zero]
  | cons e seg ih =>
    rw [List.cons_append, Rule.expire]
    by_cases he : R.time x - R.time e > R.width
    · rw [if_pos he]
      obtain ⟨k, hk, hleft, hcounts, hint, htake⟩ :=
        ih { st with left := st.left + 1, counts := R.leave st.counts e } (hc.leave _ _ _ habs)
      refine ⟨k + 1, by simpa using hk, by rw [hleft]; dsimp only; omega, hcounts, hint, ?_⟩
      have hexp : decide (R.Expired x e) = true := decide_eq_true he
      rw [List.takeWhile_cons, if_pos hexp, htake, List.take_succ_cons]
    · rw [if_neg he]
      refine ⟨0, Nat.zero_le _, rfl, habs, rfl, ?_⟩
      rw [List.takeWhile_cons_of_neg (by simpa using (show ¬ R.Expired x e from he)),
        List.take_zero]

/-- What the scan knows after the rows `pre`. -/
structure Inv (R : Rule α σ) (Abs : σ → List α → Prop) (Q : List α → Prop) (rows pre rest : List α)
    (st : State σ) : Prop where
  left_le : st.left ≤ pre.length
  expired : ∀ e ∈ pre.take st.left, ∀ x ∈ rest, R.Expired x e
  counts : Abs st.counts (pre.drop st.left)
  inside : ∀ iv ∈ st.intervals, iv.start ≤ iv.stop ∧ iv.stop < pre.length
  started : ∀ iv ∈ st.intervals, iv.start ≤ st.left
  complete : ∀ r < pre.length, ∀ x, R.Passes Q rows r x →
    ∃ iv ∈ st.intervals, iv.start ≤ R.start rows x ∧ r ≤ iv.stop
  sound : ∀ iv ∈ st.intervals, ∀ p, iv.start ≤ p → p ≤ iv.stop →
    ∃ r x, R.Passes Q rows r x ∧ R.start rows x ≤ p ∧ p ≤ r
  joined : ∀ iv ∈ st.intervals, ∀ p, iv.start ≤ p → p < iv.stop →
    ∃ r x, R.Passes Q rows r x ∧ R.start rows x ≤ p ∧ p < r
  apart : st.intervals.Pairwise fun newer older => older.stop < newer.start

theorem inv_init (hc : R.Counts Abs Q) : Inv R Abs Q rows [] rows ⟨0, R.init, []⟩ where
  left_le := le_rfl
  expired := by simp
  counts := by simpa using hc.init
  inside := by simp
  started := by simp
  complete := by simp
  sound := by simp
  joined := by simp
  apart := List.Pairwise.nil

/-! ### A new window among the intervals -/

section Extend

variable {left right : Nat} {ivs : List Interval}

/-- An interval after a window is an old one, or ends where the window ends. -/
theorem mem_extend (h : iv ∈ extend left right ivs) :
    iv ∈ ivs ∨ iv.stop = right ∧
      (iv.start = left ∨ ∃ iv₀ ∈ ivs, left ≤ iv₀.stop ∧ iv.start = iv₀.start) := by
  cases ivs with
  | nil =>
    obtain rfl := List.mem_singleton.mp h
    exact Or.inr ⟨rfl, Or.inl rfl⟩
  | cons iv₀ older =>
    rw [extend] at h
    split at h
    · rename_i hjoin
      rcases List.mem_cons.mp h with rfl | hiv
      · exact Or.inr ⟨rfl, Or.inr ⟨iv₀, List.mem_cons_self, hjoin, rfl⟩⟩
      · exact Or.inl (List.mem_cons_of_mem _ hiv)
    · rcases List.mem_cons.mp h with rfl | hiv
      · exact Or.inr ⟨rfl, Or.inl rfl⟩
      · exact Or.inl hiv

/-- A position of an interval is one of an old interval or of the window. -/
theorem position_extend (h : iv ∈ extend left right ivs) (hp : iv.start ≤ p) :
    (p ≤ iv.stop → (∃ iv' ∈ ivs, iv'.start ≤ p ∧ p ≤ iv'.stop) ∨ left ≤ p ∧ p ≤ right) ∧
    (p < iv.stop → (∃ iv' ∈ ivs, iv'.start ≤ p ∧ p < iv'.stop) ∨ left ≤ p ∧ p < right) := by
  rcases mem_extend h with hiv | ⟨hstop, hstart | ⟨iv₀, hiv₀, hjoin, hstart⟩⟩
  · exact ⟨fun hp' => Or.inl ⟨iv, hiv, hp, hp'⟩, fun hp' => Or.inl ⟨iv, hiv, hp, hp'⟩⟩
  · exact ⟨fun hp' => Or.inr (by omega), fun hp' => Or.inr (by omega)⟩
  · constructor
    · intro hp'
      by_cases hold : p ≤ iv₀.stop
      · exact Or.inl ⟨iv₀, hiv₀, by omega, hold⟩
      · exact Or.inr (by omega)
    · intro hp'
      by_cases hold : p < iv₀.stop
      · exact Or.inl ⟨iv₀, hiv₀, by omega, hold⟩
      · exact Or.inr (by omega)

/-- Old intervals stay parts of intervals. -/
theorem extend_covers (left : Nat) (hstop : ∀ iv ∈ ivs, iv.stop ≤ right) (h : iv ∈ ivs) :
    ∃ iv' ∈ extend left right ivs, iv'.start ≤ iv.start ∧ iv.stop ≤ iv'.stop := by
  cases ivs with
  | nil => simp at h
  | cons iv₀ older =>
    rw [extend]
    split
    · rcases List.mem_cons.mp h with rfl | hiv
      · exact ⟨_, List.mem_cons_self, le_rfl, hstop _ List.mem_cons_self⟩
      · exact ⟨iv, List.mem_cons_of_mem _ hiv, le_rfl, le_rfl⟩
    · exact ⟨iv, List.mem_cons_of_mem _ h, le_rfl, le_rfl⟩

/-- The window is a part of an interval. -/
theorem extend_covers_window (hstart : ∀ iv ∈ ivs, iv.start ≤ left) :
    ∃ iv ∈ extend left right ivs, iv.start ≤ left ∧ right ≤ iv.stop := by
  cases ivs with
  | nil => exact ⟨_, List.mem_singleton_self _, le_rfl, le_rfl⟩
  | cons iv₀ older =>
    rw [extend]
    split
    · exact ⟨_, List.mem_cons_self, hstart iv₀ List.mem_cons_self, le_rfl⟩
    · exact ⟨_, List.mem_cons_self, le_rfl, le_rfl⟩

theorem apart_extend (hin : ∀ iv ∈ ivs, iv.start ≤ iv.stop)
    (h : ivs.Pairwise fun newer older => older.stop < newer.start) :
    (extend left right ivs).Pairwise fun newer older => older.stop < newer.start := by
  cases ivs with
  | nil => exact List.pairwise_singleton _ _
  | cons iv₀ older =>
    obtain ⟨hapart, holder⟩ := List.pairwise_cons.mp h
    rw [extend]
    split
    · exact List.pairwise_cons.mpr ⟨hapart, holder⟩
    · rename_i hjoin
      refine List.pairwise_cons.mpr ⟨fun iv hiv => ?_, h⟩
      have hin₀ := hin iv₀ List.mem_cons_self
      rcases List.mem_cons.mp hiv with rfl | hiv
      · exact not_le.mp hjoin
      · have := hapart iv hiv
        dsimp only
        omega

end Extend

/-! ### One row -/

/-- Rows before the start of the window of `x` have expired for every later row. -/
theorem expired_of_start (htimed : Timed R rows) (hrows : rows = pre ++ x :: rest) {e y : α}
    (he : e ∈ rows.take (R.start rows x)) (hy : y ∈ rest) : R.Expired y e := by
  have htake : rows.takeWhile (fun e => decide (R.Expired x e)) = rows.take (R.start rows x) :=
    List.prefix_iff_eq_take.mp (List.takeWhile_prefix _)
  have hxe : R.Expired x e := of_decide_eq_true
    (List.mem_takeWhile_imp (p := fun e => decide (R.Expired x e)) (x := e) (htake ▸ he))
  have hxy : R.time x ≤ R.time y :=
    (List.pairwise_cons.mp (List.pairwise_append.mp (hrows ▸ htimed)).2.1).1 y hy
  unfold Rule.Expired at hxe ⊢
  linarith

/-- The state once the old rows have left: it is at the start of the window of `x`,
its counters stand for that window, and the intervals are those before. -/
theorem Inv.window (hc : R.Counts Abs Q) {st : State σ} (hrows : rows = pre ++ x :: rest)
    (h : Inv R Abs Q rows pre (x :: rest) st) :
    ∃ st' : State σ, R.step rows st pre.length x =
        (if R.live (pre.length - st'.left + 1) st'.counts then
          { st' with intervals := extend st'.left pre.length st'.intervals } else st') ∧
      st'.intervals = st.intervals ∧ st.left ≤ st'.left ∧ st'.left ≤ pre.length ∧
      R.start rows x = st'.left ∧ Abs st'.counts ((pre ++ [x]).drop st'.left) := by
  have hdrop : rows.drop st.left = pre.drop st.left ++ x :: rest := by
    rw [hrows, List.drop_append_of_le_length h.left_le]
  obtain ⟨k, hk, hleft, hcounts, hint, htake⟩ := expire_spec hc x rest
    (pre.drop st.left) { st with counts := R.enter st.counts x } (hc.enter _ _ x h.counts)
  have hle := h.left_le
  rw [List.length_drop] at hk
  rw [← hdrop] at hleft hcounts hint
  dsimp only at hleft
  refine ⟨_, rfl, hint, by dsimp only; omega, by dsimp only; omega, ?_, ?_⟩
  · have hold : ∀ e ∈ pre.take st.left, R.Expired x e := fun e he =>
      h.expired e he x List.mem_cons_self
    rw [hleft, Rule.start, hrows, ← List.take_append_drop st.left pre, List.append_assoc,
      takeWhile_append_expired hold, List.length_append, htake, List.length_take,
      List.length_take, List.length_drop]
    omega
  · rwa [List.drop_append_of_le_length (by dsimp only; omega), hleft, ← List.drop_drop]

/-- **One row.** -/
theorem Inv.step (hc : R.Counts Abs Q) {st : State σ} (htimed : Timed R rows)
    (hrows : rows = pre ++ x :: rest) (h : Inv R Abs Q rows pre (x :: rest) st) :
    Inv R Abs Q rows (pre ++ [x]) rest (R.step rows st pre.length x) := by
  obtain ⟨st', hstep, hint, hgrow, hle, hstart, hcounts⟩ := h.window hc hrows
  have hlength : (pre ++ [x]).length = pre.length + 1 := by simp
  have hslice : (pre ++ [x]).drop st'.left = slice rows st'.left (pre.length + 1) := by
    rw [slice, hrows, List.take_append, List.take_of_length_le (Nat.le_succ _),
      Nat.add_sub_cancel_left, List.take_succ_cons, List.take_zero]
  have hpass : R.live (pre.length - st'.left + 1) st'.counts = true ↔
      R.Passes Q rows pre.length x := by
    have hlive := hc.live _ _ hcounts
    rw [List.length_drop, hlength, Nat.succ_sub hle] at hlive
    rw [hlive, Rule.Passes, hstart, hslice]
    exact (and_iff_right (by simp [hrows])).symm
  have hexpired : ∀ e ∈ (pre ++ [x]).take st'.left, ∀ y ∈ rest, R.Expired y e := by
    intro e he y hy
    refine expired_of_start htimed hrows (?_ : e ∈ rows.take (R.start rows x)) hy
    rw [hstart, hrows, List.take_append_of_le_length hle]
    rwa [List.take_append_of_le_length hle] at he
  have hstarted : ∀ iv ∈ st.intervals, iv.start ≤ st'.left := fun iv hiv =>
    (h.started iv hiv).trans hgrow
  have hlast : ∀ r y, R.Passes Q rows r y → r < (pre ++ [x]).length →
      r < pre.length ∨ r = pre.length ∧ y = x := by
    rintro r y ⟨hy, -⟩ hr
    rw [hlength] at hr
    rcases Nat.lt_succ_iff_lt_or_eq.mp hr with hr | rfl
    · exact Or.inl hr
    · exact Or.inr ⟨rfl, by simpa [hrows] using hy.symm⟩
  rw [hstep]
  by_cases hlive : R.live (pre.length - st'.left + 1) st'.counts = true
  · -- The window passes and becomes an interval or a part of the latest one.
    have hx := hpass.mp hlive
    rw [if_pos hlive, hint]
    constructor
    · dsimp only; omega
    · exact hexpired
    · exact hcounts
    · intro iv hiv
      rcases mem_extend hiv with hold | ⟨hstop, hs | ⟨iv₀, hiv₀, -, hs⟩⟩
      · have := h.inside iv hold
        omega
      · omega
      · have := h.inside iv₀ hiv₀
        omega
    · intro iv hiv
      rcases mem_extend hiv with hold | ⟨-, hs | ⟨iv₀, hiv₀, -, hs⟩⟩
      · exact hstarted iv hold
      · exact hs.le
      · exact hs.le.trans (hstarted iv₀ hiv₀)
    · intro r hr y hy
      rcases hlast r y hy hr with hr | ⟨rfl, rfl⟩
      · obtain ⟨iv, hiv, h1, h2⟩ := h.complete r hr y hy
        obtain ⟨iv', hiv', h1', h2'⟩ :=
          extend_covers st'.left (fun iv hiv => (h.inside iv hiv).2.le) hiv
        exact ⟨iv', hiv', h1'.trans h1, h2.trans h2'⟩
      · rw [hstart]
        exact extend_covers_window hstarted
    · intro iv hiv p hp hp'
      rcases (position_extend hiv hp).1 hp' with ⟨iv', hiv', h1, h2⟩ | ⟨h1, h2⟩
      · exact h.sound iv' hiv' p h1 h2
      · exact ⟨_, _, hx, hstart ▸ h1, h2⟩
    · intro iv hiv p hp hp'
      rcases (position_extend hiv hp).2 hp' with ⟨iv', hiv', h1, h2⟩ | ⟨h1, h2⟩
      · exact h.joined iv' hiv' p h1 h2
      · exact ⟨_, _, hx, hstart ▸ h1, h2⟩
    · exact apart_extend (fun iv hiv => (h.inside iv hiv).1) h.apart
  · rw [if_neg hlive]
    constructor
    · omega
    · exact hexpired
    · exact hcounts
    · intro iv hiv
      have := h.inside iv (hint ▸ hiv)
      omega
    · exact fun iv hiv => hstarted iv (hint ▸ hiv)
    · intro r hr y hy
      rcases hlast r y hy hr with hr | ⟨rfl, rfl⟩
      · rw [hint]
        exact h.complete r hr y hy
      · exact absurd (hpass.mpr hy) hlive
    · exact fun iv hiv => h.sound iv (hint ▸ hiv)
    · exact fun iv hiv => h.joined iv (hint ▸ hiv)
    · rw [hint]
      exact h.apart

theorem Inv.run (hc : R.Counts Abs Q) {st : State σ} (htimed : Timed R rows)
    (hrows : rows = pre ++ rest) (h : Inv R Abs Q rows pre rest st) :
    Inv R Abs Q rows rows [] (R.run rows pre.length rest st) := by
  induction rest generalizing pre st with
  | nil =>
    rw [List.append_nil] at hrows
    subst hrows
    exact h
  | cons x rest ih =>
    have hnext := ih (by simpa using hrows) (Inv.step hc htimed hrows h)
    rw [List.length_append, List.length_singleton] at hnext
    exact hnext

theorem inv_scan (hc : R.Counts Abs Q) (htimed : Timed R rows) :
    Inv R Abs Q rows rows [] (R.run rows 0 rows ⟨0, R.init, []⟩) :=
  Inv.run hc htimed (show rows = [] ++ rows from rfl) (inv_init hc)

end Positions

/-! ### The scan by rows

The rows are strictly sorted by a key, so a row stands for its position and a window is the
rows up to its last one that have not expired. -/

/-- The rows of an interval. -/
def Interval.rows {α : Type} (iv : Interval) (rows : List α) : List α :=
  slice rows iv.start (iv.stop + 1)

section Elements

variable {α σ κ : Type} [LinearOrder κ] {R : Rule α σ} {ord : α → κ}
  {Abs : σ → List α → Prop} {Q : List α → Prop} {rows : List α}

/-- The window that ends in `x`. -/
def windowOf (R : Rule α σ) (ord : α → κ) (rows : List α) (x : α) : List α :=
  rows.filter fun e => decide (ord e ≤ ord x ∧ ¬ R.Expired x e)

/-- Rows strictly sorted by `ord`, which respects time. -/
structure Sorted (R : Rule α σ) (ord : α → κ) (rows : List α) : Prop where
  strict : rows.Pairwise fun a b => ord a < ord b
  timed : Timed R rows

theorem mem_windowOf {x e : α} :
    e ∈ windowOf R ord rows x ↔ e ∈ rows ∧ ord e ≤ ord x ∧ ¬ R.Expired x e := by
  rw [windowOf, List.mem_filter, decide_eq_true_iff]

/-- The part of a sorted filtered list is a part of the whole list's window. -/
theorem windowOf_filter (p : α → Bool) (x : α) :
    windowOf R ord (rows.filter p) x = (windowOf R ord rows x).filter p := by
  rw [windowOf, windowOf, List.filter_filter, List.filter_filter]
  congr 1
  funext e
  exact Bool.and_comm _ _

theorem Sorted.filter (h : Sorted R ord rows) (p : α → Bool) : Sorted R ord (rows.filter p) :=
  ⟨h.strict.filter p, h.timed.filter p⟩

theorem Sorted.lt_of_getElem? (h : Sorted R ord rows) {q : Nat} {a b : α} (ha : rows[p]? = some a)
    (hb : rows[q]? = some b) (hpq : p < q) : ord a < ord b := by
  obtain ⟨hp, rfl⟩ := List.getElem?_eq_some_iff.mp ha
  obtain ⟨hq, rfl⟩ := List.getElem?_eq_some_iff.mp hb
  exact List.pairwise_iff_getElem.mp h.strict p q hp hq hpq

theorem Sorted.position_lt (h : Sorted R ord rows) {q : Nat} {a b : α} (ha : rows[p]? = some a)
    (hb : rows[q]? = some b) (hlt : ord a < ord b) : p < q := by
  rcases Nat.lt_trichotomy p q with hpq | rfl | hpq
  · exact hpq
  · rw [ha] at hb
    exact absurd hlt (by rw [Option.some.inj hb]; exact lt_irrefl _)
  · exact absurd (h.lt_of_getElem? hb ha hpq) (not_lt.mpr hlt.le)

theorem mem_slice_iff {l : List α} {a b : Nat} {e : α} :
    e ∈ slice l a b ↔ ∃ p, a ≤ p ∧ p < b ∧ l[p]? = some e := by
  rw [slice, List.mem_iff_getElem?]
  constructor
  · intro ⟨i, hi⟩
    rw [List.getElem?_drop, List.getElem?_take] at hi
    by_cases hlt : a + i < b
    · rw [if_pos hlt] at hi
      exact ⟨a + i, Nat.le_add_right _ _, hlt, hi⟩
    · rw [if_neg hlt] at hi
      exact absurd hi (by simp)
  · intro ⟨p, hap, hpb, hp⟩
    refine ⟨p - a, ?_⟩
    rw [List.getElem?_drop, List.getElem?_take, Nat.add_sub_cancel' hap, if_pos hpb]
    exact hp

theorem filter_eq_dropWhile {p : α → Bool} {l : List α}
    (h : l.Pairwise fun a b => p b = true → p a = true) :
    l.filter (fun e => !p e) = l.dropWhile p := by
  induction l with
  | nil => rfl
  | cons a l ih =>
    obtain ⟨ha, hl⟩ := List.pairwise_cons.mp h
    by_cases hpa : p a = true
    · rw [List.dropWhile_cons_of_pos hpa, List.filter_cons_of_neg (by simp [hpa]), ih hl]
    · rw [List.dropWhile_cons_of_neg hpa, List.filter_eq_self]
      intro e he
      rcases List.mem_cons.mp he with rfl | he
      · simpa using hpa
      · have : p e ≠ true := fun hpe => hpa (ha e he hpe)
        simpa using this

variable {r : Nat}

/-- **The window by positions is the window by rows.** -/
theorem slice_start_eq (hc : 0 ≤ R.width) (h : Sorted R ord rows) {x : α} (hx : rows[r]? = some x) :
    slice rows (R.start rows x) (r + 1) = windowOf R ord rows x := by
  obtain ⟨hr, hxr⟩ := List.getElem?_eq_some_iff.mp hx
  have hpast : rows.take (r + 1) = rows.filter fun e => decide (ord e ≤ ord x) := by
    conv_rhs => rw [← List.take_append_drop (r + 1) rows]
    rw [List.filter_append, List.filter_eq_self.mpr, List.filter_eq_nil_iff.mpr, List.append_nil]
    · intro e he
      obtain ⟨i, hi⟩ := List.mem_iff_getElem?.mp he
      rw [List.getElem?_drop] at hi
      have := h.lt_of_getElem? hx hi (by omega)
      simpa using this
    · intro e he
      obtain ⟨i, hi⟩ := List.mem_iff_getElem?.mp he
      rw [List.getElem?_take] at hi
      split at hi
      · rename_i hlt
        rcases Nat.lt_succ_iff_lt_or_eq.mp hlt with hlt | rfl
        · exact decide_eq_true (h.lt_of_getElem? hi hx hlt).le
        · rw [Option.some.inj (hi.symm.trans hx)]
          exact decide_eq_true le_rfl
      · cases hi
  have hmono : rows.Pairwise fun a b =>
      decide (R.Expired x b) = true → decide (R.Expired x a) = true := by
    refine h.timed.imp ?_
    intro a b hab hb
    have hb' := of_decide_eq_true hb
    refine decide_eq_true ?_
    unfold Rule.Expired at hb' ⊢
    linarith
  -- The first unexpired row is not after `x`.
  have hstart : R.start rows x ≤ r := by
    by_contra hlt
    have hmem : x ∈ rows.takeWhile fun e => decide (R.Expired x e) := by
      rw [List.prefix_iff_eq_take.mp (List.takeWhile_prefix fun e => decide (R.Expired x e))]
      refine List.mem_iff_getElem?.mpr ⟨r, ?_⟩
      rw [List.getElem?_take, if_pos (by rw [Rule.start] at hlt; omega)]
      exact hx
    have hexp := of_decide_eq_true
      (List.mem_takeWhile_imp (p := fun e => decide (R.Expired x e)) (x := x) hmem)
    rw [Rule.Expired, sub_self] at hexp
    linarith
  have hdrop : rows.drop (R.start rows x) = rows.filter fun e => !decide (R.Expired x e) := by
    rw [filter_eq_dropWhile hmono]
    have hsplit := List.takeWhile_append_dropWhile (p := fun e => decide (R.Expired x e)) (l := rows)
    have hleft : (rows.takeWhile (fun e => decide (R.Expired x e)) ++
        rows.dropWhile fun e => decide (R.Expired x e)).drop (R.start rows x) =
          rows.dropWhile fun e => decide (R.Expired x e) := List.drop_left
    rw [hsplit] at hleft
    exact hleft
  have hfilter : windowOf R ord rows x =
      (rows.filter fun e => !decide (R.Expired x e)).filter fun e => decide (ord e ≤ ord x) := by
    rw [windowOf, List.filter_filter]
    congr 1
    funext e
    rw [Bool.decide_and, decide_not]
  have hcut : slice rows (R.start rows x) (r + 1) =
      (rows.drop (R.start rows x)).take (r + 1 - R.start rows x) := by
    rw [slice, List.drop_take]
  rw [hfilter, ← hdrop, hcut]
  conv_rhs => rw [← List.take_append_drop (r + 1 - R.start rows x)
    (rows.drop (R.start rows x))]
  rw [List.filter_append, List.filter_eq_self.mpr, List.filter_eq_nil_iff.mpr, List.append_nil]
  · intro e he
    rw [List.drop_drop, Nat.add_sub_cancel' (by omega)] at he
    obtain ⟨i, hi⟩ := List.mem_iff_getElem?.mp he
    rw [List.getElem?_drop] at hi
    have := h.lt_of_getElem? hx hi (by omega)
    simpa using this
  · intro e he
    rw [← List.drop_take] at he
    have hmem := List.mem_of_mem_drop he
    rw [hpast, List.mem_filter] at hmem
    exact hmem.2

theorem passes_iff (hc : 0 ≤ R.width) (h : Sorted R ord rows) {x : α} :
    R.Passes Q rows r x ↔ rows[r]? = some x ∧ Q (windowOf R ord rows x) := by
  constructor
  · intro ⟨hx, hq⟩
    exact ⟨hx, slice_start_eq hc h hx ▸ hq⟩
  · intro ⟨hx, hq⟩
    exact ⟨hx, (slice_start_eq hc h hx).symm ▸ hq⟩

/-- A position of the window is a row of the window. -/
theorem mem_window_of_position (hc : 0 ≤ R.width) (h : Sorted R ord rows) {x e : α}
    (hx : rows[r]? = some x) (he : rows[p]? = some e) (hp : R.start rows x ≤ p) (hpr : p ≤ r) :
    e ∈ windowOf R ord rows x := by
  rw [← slice_start_eq hc h hx]
  exact Iff.mpr mem_slice_iff ⟨p, hp, by omega, he⟩

theorem mem_scan (h : iv ∈ R.scan rows) :
    iv ∈ (R.run rows 0 rows ⟨0, R.init, []⟩).intervals := List.mem_reverse.mp h

theorem self_mem_windowOf (hc : 0 ≤ R.width) {x : α} (hx : x ∈ rows) :
    x ∈ windowOf R ord rows x := by
  refine mem_windowOf.mpr ⟨hx, le_rfl, ?_⟩
  rw [Rule.Expired, sub_self]
  exact not_lt.mpr hc

/-- **Every row of an interval lies in a window that passes.** -/
theorem scan_sound (hc : R.Counts Abs Q) (h : Sorted R ord rows) (hiv : iv ∈ R.scan rows) {e : α}
    (he : e ∈ iv.rows rows) :
    ∃ x ∈ rows, Q (windowOf R ord rows x) ∧ e ∈ windowOf R ord rows x := by
  obtain ⟨p, hp, hp', hep⟩ := mem_slice_iff.mp he
  obtain ⟨r, x, hpass, hstart, hpr⟩ :=
    (inv_scan hc h.timed).sound iv (mem_scan hiv) p hp (by omega)
  obtain ⟨hx, hq⟩ := (passes_iff hc.width h).mp hpass
  exact ⟨x, List.mem_of_getElem? hx, hq, mem_window_of_position hc.width h hx hep hstart hpr⟩

/-- **A window that passes lies in one interval.** -/
theorem scan_complete (hc : R.Counts Abs Q) (h : Sorted R ord rows) {x : α} (hx : x ∈ rows)
    (hq : Q (windowOf R ord rows x)) :
    ∃ iv ∈ R.scan rows, ∀ e ∈ windowOf R ord rows x, e ∈ iv.rows rows := by
  obtain ⟨r, hr⟩ := List.mem_iff_getElem?.mp hx
  have hrlt : r < rows.length := (List.getElem?_eq_some_iff.mp hr).1
  obtain ⟨iv, hiv, hstart, hstop⟩ :=
    (inv_scan hc h.timed).complete r hrlt x ((passes_iff hc.width h).mpr ⟨hr, hq⟩)
  refine ⟨iv, List.mem_reverse.mpr hiv, ?_⟩
  intro e he
  rw [← slice_start_eq hc.width h hr] at he
  obtain ⟨p, hp, hp', hep⟩ := mem_slice_iff.mp he
  exact mem_slice_iff.mpr ⟨p, hstart.trans hp, by omega, hep⟩

/-- **Rows of an interval are linked.** Between `d` and a later row of its interval there is a
window that passes, holds `d` and ends after it. -/
theorem scan_joined (hc : R.Counts Abs Q) (h : Sorted R ord rows) (hiv : iv ∈ R.scan rows) {d b : α}
    (hd : d ∈ iv.rows rows) (hb : b ∈ iv.rows rows) (hlt : ord d < ord b) :
    ∃ x ∈ rows, Q (windowOf R ord rows x) ∧ d ∈ windowOf R ord rows x ∧ ord d < ord x := by
  obtain ⟨p, hp, hp', hdp⟩ := mem_slice_iff.mp hd
  obtain ⟨q, hq, hq', hbq⟩ := mem_slice_iff.mp hb
  have hpq := h.position_lt hdp hbq hlt
  obtain ⟨r, x, hpass, hstart, hpr⟩ :=
    (inv_scan hc h.timed).joined iv (mem_scan hiv) p hp (by omega)
  obtain ⟨hx, hqx⟩ := (passes_iff hc.width h).mp hpass
  exact ⟨x, List.mem_of_getElem? hx, hqx, mem_window_of_position hc.width h hx hdp hstart hpr.le,
    h.lt_of_getElem? hdp hx hpr⟩

/-- **Two intervals share no row.** -/
theorem scan_unique (hc : R.Counts Abs Q) (h : Sorted R ord rows) {iv' : Interval}
    (hiv : iv ∈ R.scan rows) (hiv' : iv' ∈ R.scan rows) {e : α} (he : e ∈ iv.rows rows)
    (he' : e ∈ iv'.rows rows) : iv = iv' := by
  obtain ⟨p, hp, hpstop, hep⟩ := mem_slice_iff.mp he
  obtain ⟨q, hq, hqstop, heq⟩ := mem_slice_iff.mp he'
  have hpq : p = q := by
    rcases Nat.lt_trichotomy p q with hlt | heq' | hlt
    · exact absurd (h.lt_of_getElem? hep heq hlt) (lt_irrefl _)
    · exact heq'
    · exact absurd (h.lt_of_getElem? heq hep hlt) (lt_irrefl _)
  subst hpq
  have hapart := List.pairwise_iff_getElem.mp (inv_scan hc h.timed).apart
  obtain ⟨i, hi, rfl⟩ := List.mem_iff_getElem.mp (mem_scan hiv)
  obtain ⟨j, hj, rfl⟩ := List.mem_iff_getElem.mp (mem_scan hiv')
  rcases Nat.lt_trichotomy i j with hlt | rfl | hlt
  · have := hapart i j hi hj hlt
    omega
  · rfl
  · have := hapart j i hj hi hlt
    omega

end Elements

end RiskOps.Lib.Sliding
