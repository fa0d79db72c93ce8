import RiskOps.Lib.Lawful

/-!
# RiskOps.Lib.Clusters — overlapping windows, joined from left to right

**One pass that joins windows.** The windows are half-open ranges of positions, and both their ends
only move to the right. Each window joins the latest cluster if it starts before the cluster ends,
and opens a cluster otherwise.

The result is the partition into connected components: clusters share no position
(`clusters_apart`), every position of a cluster is in one of its windows (`mem_window_of_mem`), and
two windows are in one cluster iff a chain of overlapping windows leads from one to the other
(`same_cluster_iff`).
-/

namespace RiskOps.Lib

/-- The positions `start ≤ p < stop`, with what the window is about. -/
structure Window (τ : Type*) where
  start : Nat
  stop : Nat
  tag : τ

namespace Window

variable {τ : Type*}

/-- A position of the window. -/
def Holds (w : Window τ) (p : Nat) : Prop := w.start ≤ p ∧ p < w.stop

/-- Two windows with a common position. -/
def Meets (w w' : Window τ) : Prop := ∃ p, w.Holds p ∧ w'.Holds p

/-- The order of the pass: neither end moves to the left. -/
def Before (w w' : Window τ) : Prop := w.start ≤ w'.start ∧ w.stop ≤ w'.stop

end Window

/-- Joined windows: the range they cover, and the windows, oldest first. -/
structure Cluster (τ : Type*) where
  start : Nat
  stop : Nat
  members : List (Window τ)

namespace Cluster

variable {τ : Type*}

/-- A position of the cluster. -/
def Holds (c : Cluster τ) (p : Nat) : Prop := c.start ≤ p ∧ p < c.stop

/-- One window. The latest cluster comes first. -/
def join : List (Cluster τ) → Window τ → List (Cluster τ)
  | [], w => [⟨w.start, w.stop, [w]⟩]
  | c :: older, w =>
    if w.start < c.stop then ⟨c.start, w.stop, c.members ++ [w]⟩ :: older
    else ⟨w.start, w.stop, [w]⟩ :: c :: older

/-- All windows, the latest cluster first. -/
def joinAll (ws : List (Window τ)) : List (Cluster τ) := ws.foldl join []

theorem joinAll_snoc (ws : List (Window τ)) (w : Window τ) :
    joinAll (ws ++ [w]) = join (joinAll ws) w := by
  rw [joinAll, List.foldl_append]
  rfl

/-- The windows of a pass. -/
structure Passed (ws : List (Window τ)) : Prop where
  nonempty : ∀ w ∈ ws, w.start < w.stop
  ordered : ws.Pairwise Window.Before

/-- What a cluster is made of. -/
structure Formed (c : Cluster τ) : Prop where
  some : c.members ≠ []
  inside : ∀ w ∈ c.members, c.start ≤ w.start ∧ w.stop ≤ c.stop
  covered : ∀ p, c.Holds p → ∃ w ∈ c.members, w.Holds p
  chained : ∀ w ∈ c.members, ∀ w' ∈ c.members,
    Relation.ReflTransGen (fun a b => (a ∈ c.members ∧ b ∈ c.members) ∧ a.Meets b) w w'

/-- What holds of the clusters of the windows `ws`. -/
structure Inv (ws : List (Window τ)) (cs : List (Cluster τ)) : Prop where
  formed : ∀ c ∈ cs, c.Formed
  partition : cs.reverse.flatMap members = ws
  apart : cs.Pairwise fun newer older => older.stop ≤ newer.start
  latest : ∀ c ∈ cs.head?, ∃ w ∈ c.members, ws.getLast? = Option.some w ∧ w.stop = c.stop

theorem Formed.start_lt_stop {c : Cluster τ} (h : c.Formed)
    (hne : ∀ w ∈ c.members, w.start < w.stop) : c.start < c.stop := by
  obtain ⟨w, hw⟩ := List.exists_mem_of_ne_nil _ h.some
  have := h.inside w hw
  have := hne w hw
  omega

theorem formed_single {w : Window τ} : Formed ⟨w.start, w.stop, [w]⟩ where
  some := List.cons_ne_nil _ _
  inside u hu := by
    rw [List.mem_singleton.mp hu]
    exact ⟨le_rfl, le_rfl⟩
  covered p hp := ⟨w, List.mem_cons_self, hp⟩
  chained u hu u' hu' := by
    rw [List.mem_singleton.mp hu, List.mem_singleton.mp hu']

/-- **A window that starts inside the latest cluster joins it.** -/
theorem Formed.join {c : Cluster τ} {u w : Window τ} (h : c.Formed) (hu : u ∈ c.members)
    (hstop : u.stop = c.stop) (hbefore : u.Before w) (hw : w.start < w.stop)
    (hjoin : w.start < c.stop) : Formed ⟨c.start, w.stop, c.members ++ [w]⟩ := by
  have hstart : c.start ≤ w.start := (h.inside u hu).1.trans hbefore.1
  have hgrow : c.stop ≤ w.stop := hstop ▸ hbefore.2
  have hold : ∀ {v}, v ∈ c.members → v ∈ c.members ++ [w] := List.mem_append_left _
  have hnew : w ∈ c.members ++ [w] := List.mem_append_right _ List.mem_cons_self
  -- The new window overlaps the one that ends the cluster.
  have hmeets : u.Meets w := ⟨w.start, ⟨hbefore.1, by omega⟩, le_rfl, hw⟩
  have hmeets' : w.Meets u := ⟨w.start, ⟨le_rfl, hw⟩, hbefore.1, by omega⟩
  have hlift : ∀ v ∈ c.members, ∀ v' ∈ c.members, Relation.ReflTransGen
      (fun a b => (a ∈ c.members ++ [w] ∧ b ∈ c.members ++ [w]) ∧ a.Meets b) v v' :=
    fun v hv v' hv' => Relation.ReflTransGen.mono
      (fun a b hab => ⟨⟨hold hab.1.1, hold hab.1.2⟩, hab.2⟩) v v' (h.chained v hv v' hv')
  refine ⟨by simp, fun v hv => ?_, fun p hp => ?_, fun v hv v' hv' => ?_⟩
  · rcases List.mem_append.mp hv with hv | hv
    · exact ⟨(h.inside v hv).1, (h.inside v hv).2.trans hgrow⟩
    · rw [List.mem_singleton.mp hv]
      exact ⟨hstart, le_rfl⟩
  · by_cases hp' : p < c.stop
    · obtain ⟨v, hv, hvp⟩ := h.covered p ⟨hp.1, hp'⟩
      exact ⟨v, hold hv, hvp⟩
    · exact ⟨w, hnew, by omega, hp.2⟩
  · rcases List.mem_append.mp hv with hv | hv <;> rcases List.mem_append.mp hv' with hv' | hv'
    · exact hlift v hv v' hv'
    · rw [List.mem_singleton.mp hv']
      exact (hlift v hv u hu).tail ⟨⟨hold hu, hnew⟩, hmeets⟩
    · rw [List.mem_singleton.mp hv]
      exact .head ⟨⟨hnew, hold hu⟩, hmeets'⟩ (hlift u hu v' hv')
    · rw [List.mem_singleton.mp hv, List.mem_singleton.mp hv']

/-- **One window.** -/
theorem Inv.join {ws : List (Window τ)} {cs : List (Cluster τ)} {w : Window τ}
    (hpassed : Passed (ws ++ [w])) (h : Inv ws cs) : Inv (ws ++ [w]) (Cluster.join cs w) := by
  have hw : w.start < w.stop := hpassed.nonempty w (List.mem_append_right _ List.mem_cons_self)
  have hne : ∀ c ∈ cs, ∀ v ∈ c.members, v.start < v.stop := fun c hc v hv => by
    refine hpassed.nonempty v (List.mem_append_left _ ?_)
    rw [← h.partition, List.mem_flatMap]
    exact ⟨c, List.mem_reverse.mpr hc, hv⟩
  have hlast : (ws ++ [w]).getLast? = Option.some w := by simp
  cases cs with
  | nil =>
    have hnil : ws = [] := h.partition.symm
    subst hnil
    refine ⟨fun c hc => ?_, rfl, List.pairwise_singleton _ _, fun c hc => ?_⟩
    · rw [List.mem_singleton.mp hc]
      exact formed_single
    · obtain rfl := Option.some.inj hc
      exact ⟨w, List.mem_cons_self, hlast, rfl⟩
  | cons c older =>
    obtain ⟨u, hu, hulast, hustop⟩ := h.latest c rfl
    have hbefore : u.Before w :=
      (List.pairwise_append.mp hpassed.ordered).2.2 u (List.mem_of_getLast? hulast) w
        List.mem_cons_self
    have hformed := h.formed c List.mem_cons_self
    obtain ⟨hapart, holder⟩ := List.pairwise_cons.mp h.apart
    have hpartition := h.partition
    rw [List.reverse_cons, List.flatMap_append, List.flatMap_cons, List.flatMap_nil,
      List.append_nil] at hpartition
    rw [Cluster.join]
    split
    · rename_i hjoin
      refine ⟨fun d hd => ?_, ?_, List.pairwise_cons.mpr ⟨hapart, holder⟩, fun d hd => ?_⟩
      · rcases List.mem_cons.mp hd with rfl | hd
        · exact hformed.join hu hustop hbefore hw hjoin
        · exact h.formed d (List.mem_cons_of_mem _ hd)
      · rw [List.reverse_cons, List.flatMap_append, List.flatMap_cons, List.flatMap_nil,
          List.append_nil, ← List.append_assoc, hpartition]
      · obtain rfl := Option.some.inj hd
        exact ⟨w, List.mem_append_right _ List.mem_cons_self, hlast, rfl⟩
    · rename_i hapart'
      have hc := hformed.start_lt_stop (hne c List.mem_cons_self)
      refine ⟨fun d hd => ?_, ?_, List.pairwise_cons.mpr ⟨fun d hd => ?_, h.apart⟩,
        fun d hd => ?_⟩
      · rcases List.mem_cons.mp hd with rfl | hd
        · exact formed_single
        · exact h.formed d hd
      · rw [List.reverse_cons, List.flatMap_append, h.partition]
        rfl
      · rcases List.mem_cons.mp hd with rfl | hd
        · exact not_lt.mp hapart'
        · have := hapart d hd
          dsimp only
          omega
      · obtain rfl := Option.some.inj hd
        exact ⟨w, List.mem_cons_self, hlast, rfl⟩

theorem inv_joinAll {ws : List (Window τ)} (hpassed : Passed ws) : Inv ws (joinAll ws) := by
  induction ws using List.reverseRecOn with
  | nil =>
    exact ⟨fun _ hc => absurd hc List.not_mem_nil, rfl, List.Pairwise.nil,
      fun _ hc => by cases hc⟩
  | append_singleton ws w ih =>
    rw [joinAll_snoc]
    refine Inv.join hpassed (ih ⟨fun v hv => hpassed.nonempty v (List.mem_append_left _ hv), ?_⟩)
    exact (List.pairwise_append.mp hpassed.ordered).1

/-! ### The clusters of a pass -/

/-- The clusters, from left to right. -/
def ofWindows (ws : List (Window τ)) : List (Cluster τ) := (joinAll ws).reverse

section Pass

variable {ws : List (Window τ)} {c c' : Cluster τ} {w w' : Window τ}

theorem formed_of_mem (h : Passed ws) (hc : c ∈ ofWindows ws) : c.Formed :=
  (inv_joinAll h).formed c (List.mem_reverse.mp hc)

theorem flatMap_members (h : Passed ws) : (ofWindows ws).flatMap members = ws :=
  (inv_joinAll h).partition

theorem mem_of_member (h : Passed ws) (hc : c ∈ ofWindows ws) (hw : w ∈ c.members) : w ∈ ws := by
  rw [← flatMap_members h, List.mem_flatMap]
  exact ⟨c, hc, hw⟩

/-- **Clusters share no position.** -/
theorem clusters_apart (h : Passed ws) :
    (ofWindows ws).Pairwise fun older newer => older.stop ≤ newer.start := by
  rw [ofWindows, List.pairwise_reverse]
  exact (inv_joinAll h).apart

theorem eq_of_holds (h : Passed ws) (hc : c ∈ ofWindows ws) (hc' : c' ∈ ofWindows ws) {p : Nat}
    (hp : c.Holds p) (hp' : c'.Holds p) : c = c' := by
  have hapart := List.pairwise_iff_getElem.mp (clusters_apart h)
  obtain ⟨i, hi, rfl⟩ := List.mem_iff_getElem.mp hc
  obtain ⟨j, hj, rfl⟩ := List.mem_iff_getElem.mp hc'
  obtain ⟨hstart, hstop⟩ := hp
  obtain ⟨hstart', hstop'⟩ := hp'
  rcases Nat.lt_trichotomy i j with hlt | rfl | hlt
  · have := hapart i j hi hj hlt
    omega
  · rfl
  · have := hapart j i hj hi hlt
    omega

theorem holds_of_member (h : Passed ws) (hc : c ∈ ofWindows ws) (hw : w ∈ c.members) {p : Nat}
    (hp : w.Holds p) : c.Holds p := by
  obtain ⟨hstart, hstop⟩ := (formed_of_mem h hc).inside w hw
  exact ⟨hstart.trans hp.1, hp.2.trans_le hstop⟩

/-- **Every window is in one cluster**, the one its positions are in. -/
theorem member_iff (h : Passed ws) (hc : c ∈ ofWindows ws) (hw : w ∈ ws) :
    w ∈ c.members ↔ c.start ≤ w.start ∧ w.stop ≤ c.stop := by
  refine ⟨(formed_of_mem h hc).inside w, fun ⟨hstart, hstop⟩ => ?_⟩
  have hw' := hw
  rw [← flatMap_members h, List.mem_flatMap] at hw'
  obtain ⟨c', hc', hmem⟩ := hw'
  have hne := h.nonempty w hw
  have hp : w.Holds w.start := ⟨le_rfl, hne⟩
  rw [eq_of_holds h hc hc' ⟨hstart, hne.trans_le hstop⟩ (holds_of_member h hc' hmem hp)]
  exact hmem

theorem exists_cluster (h : Passed ws) (hw : w ∈ ws) : ∃ c ∈ ofWindows ws, w ∈ c.members := by
  rwa [← flatMap_members h, List.mem_flatMap] at hw

/-- The windows of a cluster are those inside it, in their order. -/
theorem members_eq (h : Passed ws) (hc : c ∈ ofWindows ws) :
    c.members = ws.filter fun w => decide (c.start ≤ w.start ∧ w.stop ≤ c.stop) := by
  obtain ⟨before, after, hsplit⟩ := List.append_of_mem hc
  have hnone : ∀ cs : List (Cluster τ), (∀ d ∈ cs, d ∈ ofWindows ws ∧ d.stop ≤ c.start ∨
      d ∈ ofWindows ws ∧ c.stop ≤ d.start) →
      (cs.flatMap members).filter (fun w => decide (c.start ≤ w.start ∧ w.stop ≤ c.stop)) = [] := by
    intro cs hcs
    rw [List.filter_eq_nil_iff]
    intro v hv hin
    obtain ⟨hstart, hstop⟩ := of_decide_eq_true hin
    obtain ⟨d, hd, hmem⟩ := List.mem_flatMap.mp hv
    rcases hcs d hd with ⟨hd, hapart⟩ | ⟨hd, hapart⟩
    all_goals
      have := h.nonempty v (mem_of_member h hd hmem)
      have := (formed_of_mem h hd).inside v hmem
      omega
  have hapart := clusters_apart h
  rw [hsplit] at hapart
  obtain ⟨-, hafter, hbetween⟩ := List.pairwise_append.mp hapart
  conv_rhs => rw [← flatMap_members h, hsplit]
  rw [List.flatMap_append, List.flatMap_cons, List.filter_append, List.filter_append,
    hnone before fun d hd => .inl ⟨by rw [hsplit]; exact List.mem_append_left _ hd,
      hbetween d hd c List.mem_cons_self⟩,
    hnone after fun d hd => .inr ⟨by
      rw [hsplit]; exact List.mem_append_right _ (List.mem_cons_of_mem _ hd),
      (List.pairwise_cons.mp hafter).1 d hd⟩,
    List.nil_append, List.append_nil, eq_comm, List.filter_eq_self]
  exact fun v hv => decide_eq_true ((formed_of_mem h hc).inside v hv)

/-- **The clusters are the components.** -/
theorem same_cluster_iff (h : Passed ws) (hw : w ∈ ws) :
    (∃ c ∈ ofWindows ws, w ∈ c.members ∧ w' ∈ c.members) ↔
      Relation.ReflTransGen (fun a b => (a ∈ ws ∧ b ∈ ws) ∧ a.Meets b) w w' := by
  constructor
  · intro ⟨c, hc, hmem, hmem'⟩
    refine Relation.ReflTransGen.mono (fun a b hab => ?_) w w'
      ((formed_of_mem h hc).chained w hmem w' hmem')
    exact ⟨⟨mem_of_member h hc hab.1.1, mem_of_member h hc hab.1.2⟩, hab.2⟩
  · intro hchain
    obtain ⟨c, hc, hmem⟩ := exists_cluster h hw
    refine ⟨c, hc, hmem, ?_⟩
    -- Along the chain the cluster does not change.
    induction hchain with
    | refl => exact hmem
    | tail _ hstep ih =>
      obtain ⟨⟨-, hb⟩, p, hpa, hpb⟩ := hstep
      obtain ⟨c', hc', hmem'⟩ := exists_cluster h hb
      rw [eq_of_holds h hc hc' (holds_of_member h hc ih hpa) (holds_of_member h hc' hmem' hpb)]
      exact hmem'

end Pass

/-! ### Clusters by what they are about -/

/-- What a cluster tells: the positions `start ≤ p < stop`, and whose windows they are. -/
structure Span where
  start : Nat
  stop : Nat
  members : List Nat

/-- The positions of a window are positions of the span. -/
def Span.Contains (s : Span) (window : Nat → Prop) : Prop :=
  ∀ p, window p → s.start ≤ p ∧ p < s.stop

/-- **The maximal clusters of the windows that qualify.** -/
structure Law (window : Nat → Nat → Prop) (qualifies : Nat → Prop) (spans : List Span) : Prop where
  apart : spans.Pairwise fun a b => a.stop ≤ b.start
  complete : ∀ i, qualifies i → ∃! s, s ∈ spans ∧ s.Contains (window i)
  sound : ∀ s ∈ spans, s.start < s.stop ∧ ∀ p, s.start ≤ p → p < s.stop →
    ∃ i ∈ s.members, window i p
  members : ∀ s ∈ spans, s.members.Pairwise (· < ·) ∧
    ∀ i, i ∈ s.members ↔ qualifies i ∧ s.Contains (window i)
  linked : ∀ i j, qualifies i → qualifies j →
    ((∃ s ∈ spans, s.Contains (window i) ∧ s.Contains (window j)) ↔
      Relation.ReflTransGen
        (fun a b => (qualifies a ∧ qualifies b) ∧ ∃ p, window a p ∧ window b p) i j)

/-- The span of a cluster. -/
def span (c : Cluster Nat) : Span := ⟨c.start, c.stop, c.members.map Window.tag⟩

section Law

variable {ws : List (Window Nat)} {window : Nat → Nat → Prop} {qualifies : Nat → Prop}

theorem span_contains_iff {c : Cluster Nat} {w : Window Nat} (hne : w.start < w.stop)
    (hwindow : ∀ p, window w.tag p ↔ w.Holds p) :
    c.span.Contains (window w.tag) ↔ c.start ≤ w.start ∧ w.stop ≤ c.stop := by
  constructor
  · intro h
    have hfirst := h w.start ((hwindow _).mpr ⟨le_rfl, hne⟩)
    have hlast := h (w.stop - 1) ((hwindow _).mpr ⟨by omega, by omega⟩)
    dsimp only [span] at hfirst hlast
    omega
  · intro h p hp
    obtain ⟨hstart, hstop⟩ := (hwindow p).mp hp
    exact ⟨h.1.trans hstart, hstop.trans_le h.2⟩

/-- **The pass finds the maximal clusters.** -/
theorem law_ofWindows (h : Passed ws) (htags : (ws.map Window.tag).Pairwise (· < ·))
    (hqualifies : ∀ i, qualifies i ↔ ∃ w ∈ ws, w.tag = i)
    (hwindow : ∀ w ∈ ws, ∀ p, window w.tag p ↔ w.Holds p) :
    Law window qualifies ((ofWindows ws).map span) := by
  have hcontains : ∀ c : Cluster Nat, ∀ w ∈ ws,
      (c.span.Contains (window w.tag) ↔ c.start ≤ w.start ∧ w.stop ≤ c.stop) :=
    fun c w hw => span_contains_iff (h.nonempty w hw) (hwindow w hw)
  have hmember : ∀ c ∈ ofWindows ws, ∀ w ∈ ws, (c.span.Contains (window w.tag) ↔ w ∈ c.members) :=
    fun c hc w hw => (hcontains c w hw).trans (member_iff h hc hw).symm
  have hne : ∀ c ∈ ofWindows ws, c.start < c.stop := fun c hc =>
    (formed_of_mem h hc).start_lt_stop fun w hw => h.nonempty w (mem_of_member h hc hw)
  refine ⟨?_, fun i hi => ?_, fun s hs => ?_, fun s hs => ⟨?_, fun i => ?_⟩, fun i j hi hj => ?_⟩
  · rw [List.pairwise_map]
    exact clusters_apart h
  · obtain ⟨w, hw, rfl⟩ := (hqualifies i).mp hi
    obtain ⟨c, hc, hmem⟩ := exists_cluster h hw
    refine ⟨c.span, ⟨List.mem_map_of_mem hc, (hmember c hc w hw).mpr hmem⟩, ?_⟩
    rintro _ ⟨hs, hin⟩
    obtain ⟨c', hc', rfl⟩ := List.mem_map.mp hs
    have hp : w.Holds w.start := ⟨le_rfl, h.nonempty w hw⟩
    rw [eq_of_holds h hc hc' (holds_of_member h hc hmem hp)
      (holds_of_member h hc' ((hmember c' hc' w hw).mp hin) hp)]
  · obtain ⟨c, hc, rfl⟩ := List.mem_map.mp hs
    refine ⟨hne c hc, fun p hp hp' => ?_⟩
    obtain ⟨w, hmem, hw⟩ := (formed_of_mem h hc).covered p ⟨hp, hp'⟩
    exact ⟨w.tag, List.mem_map_of_mem hmem, (hwindow w (mem_of_member h hc hmem) p).mpr hw⟩
  · obtain ⟨c, hc, rfl⟩ := List.mem_map.mp hs
    rw [span, members_eq h hc]
    exact htags.sublist (List.filter_sublist.map Window.tag)
  · obtain ⟨c, hc, rfl⟩ := List.mem_map.mp hs
    constructor
    · intro hi
      obtain ⟨w, hmem, rfl⟩ := List.mem_map.mp hi
      have hw := mem_of_member h hc hmem
      exact ⟨(hqualifies _).mpr ⟨w, hw, rfl⟩, (hmember c hc w hw).mpr hmem⟩
    · intro ⟨hi, hin⟩
      obtain ⟨w, hw, rfl⟩ := (hqualifies i).mp hi
      exact List.mem_map_of_mem ((hmember c hc w hw).mp hin)
  · obtain ⟨w, hw, rfl⟩ := (hqualifies i).mp hi
    obtain ⟨w', hw', rfl⟩ := (hqualifies j).mp hj
    constructor
    · intro ⟨s, hs, hin, hin'⟩
      obtain ⟨c, hc, rfl⟩ := List.mem_map.mp hs
      refine Relation.ReflTransGen.lift Window.tag (fun a b hab => ?_) w w'
        ((same_cluster_iff h hw).mp
          ⟨c, hc, (hmember c hc w hw).mp hin, (hmember c hc w' hw').mp hin'⟩)
      obtain ⟨⟨ha, hb⟩, p, hpa, hpb⟩ := hab
      exact ⟨⟨(hqualifies _).mpr ⟨a, ha, rfl⟩, (hqualifies _).mpr ⟨b, hb, rfl⟩⟩, p,
        (hwindow a ha p).mpr hpa, (hwindow b hb p).mpr hpb⟩
    · intro hchain
      obtain ⟨c, hc, hmem⟩ := exists_cluster h hw
      -- Along the chain the windows stay in the cluster.
      suffices hstay : ∀ k, Relation.ReflTransGen
          (fun a b => (qualifies a ∧ qualifies b) ∧ ∃ p, window a p ∧ window b p) w.tag k →
          c.span.Contains (window k) from
        ⟨c.span, List.mem_map_of_mem hc, hstay _ .refl, hstay _ hchain⟩
      intro k hk
      induction hk with
      | refl => exact (hmember c hc w hw).mpr hmem
      | tail _ hstep ih =>
        obtain ⟨⟨ha, hb⟩, p, hpa, hpb⟩ := hstep
        obtain ⟨u, hu, rfl⟩ := (hqualifies _).mp ha
        obtain ⟨v, hv, rfl⟩ := (hqualifies _).mp hb
        obtain ⟨c', hc', hmem'⟩ := exists_cluster h hv
        have hp := holds_of_member h hc ((hmember c hc u hu).mp ih) ((hwindow u hu p).mp hpa)
        have hp' := holds_of_member h hc' hmem' ((hwindow v hv p).mp hpb)
        rw [eq_of_holds h hc hc' hp hp']
        exact (hmember c' hc' v hv).mpr hmem'

end Law

/-! ### Windows by index -/

/-- The windows of the indices below `n`; an index may have none. -/
def windowsOf (f : Nat → Option (Window Nat)) (n : Nat) : List (Window Nat) :=
  (List.range n).filterMap f

/-- The window of an index is tagged with it, and windows move to the right with their indices. -/
structure Indexed (f : Nat → Option (Window Nat)) : Prop where
  tag : ∀ i w, f i = some w → w.tag = i
  nonempty : ∀ i w, f i = some w → w.start < w.stop
  ordered : ∀ i j w w', i < j → f i = some w → f j = some w' → w.Before w'

section Indexed

variable {f : Nat → Option (Window Nat)} {n : Nat}

theorem mem_windowsOf {w : Window Nat} : w ∈ windowsOf f n ↔ ∃ i < n, f i = some w := by
  rw [windowsOf, List.mem_filterMap]
  exact exists_congr fun i => and_congr_left fun _ => List.mem_range

theorem windowsOf_succ : windowsOf f (n + 1) = windowsOf f n ++ (f n).toList := by
  rw [windowsOf, List.range_succ, List.filterMap_append, ← windowsOf]
  cases hw : f n with
  | none => simp [hw]
  | some w => simp [hw]

theorem Indexed.passed (h : Indexed f) (n : Nat) : Passed (windowsOf f n) where
  nonempty w hw := by
    obtain ⟨i, -, hi⟩ := Iff.mp mem_windowsOf hw
    exact h.nonempty i w hi
  ordered := by
    rw [windowsOf, List.pairwise_filterMap]
    exact List.pairwise_lt_range.imp fun {i j} hij w hw w' hw' => h.ordered i j w w' hij hw hw'

/-- The law for windows by index. -/
theorem Indexed.law {window : Nat → Nat → Prop} {qualifies : Nat → Prop} (h : Indexed f)
    (hbound : ∀ i w, f i = some w → i < n) (hqualifies : ∀ i, qualifies i ↔ ∃ w, f i = some w)
    (hwindow : ∀ i w, f i = some w → ∀ p, window i p ↔ w.Holds p) :
    Law window qualifies ((ofWindows (windowsOf f n)).map span) := by
  refine law_ofWindows (h.passed n) ?_ (fun i => (hqualifies i).trans ?_) fun w hw p => ?_
  · rw [windowsOf, List.pairwise_map, List.pairwise_filterMap]
    refine List.pairwise_lt_range.imp fun {i j} hij w hw w' hw' => ?_
    rw [h.tag i w hw, h.tag j w' hw']
    exact hij
  · constructor
    · intro ⟨w, hw⟩
      exact ⟨w, Iff.mpr mem_windowsOf ⟨i, hbound i w hw, hw⟩, h.tag i w hw⟩
    · intro ⟨w, hw, htag⟩
      obtain ⟨j, -, hj⟩ := Iff.mp mem_windowsOf hw
      rw [h.tag j w hj] at htag
      exact ⟨w, htag ▸ hj⟩
  · obtain ⟨i, -, hi⟩ := Iff.mp mem_windowsOf hw
    rw [h.tag i w hi]
    exact hwindow i w hi p

/-- Clusters of windows end behind a position. -/
theorem Indexed.stop_pos (h : Indexed f) : ∀ c ∈ joinAll (windowsOf f n), c.start < c.stop := by
  intro c hc
  have hpassed := h.passed n
  exact ((inv_joinAll hpassed).formed c hc).start_lt_stop fun w hw =>
    hpassed.nonempty w (mem_of_member hpassed (List.mem_reverse.mpr hc) hw)

end Indexed

end Cluster

end RiskOps.Lib
