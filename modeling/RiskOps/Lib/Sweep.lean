import RiskOps.Lib.UnionFind

/-!
# RiskOps.Lib.Sweep — joining intervals in one pass

Intervals are taken in the order of their starts. A run of them has an anchor, and `reach` is the
latest end in it; the next interval joins the run when its start is close to `reach`, and begins one
of its own otherwise. Comparing with the latest end only is enough: `sweep_spec` says that the pass
joins all intervals that are close, and none that closeness does not connect.

When a start is close to an end is a parameter, of which only monotonicity is used.
-/

namespace RiskOps.Lib.Sweep

variable {ι F : Type} [LinearOrder F]

/-- What is asked of closeness: an earlier start and a later end are closer. -/
structure Closeness (close : F → F → Prop) : Prop where
  mono : ∀ {x x' y y'}, x ≤ x' → y' ≤ y → close x' y' → close x y
  refl : ∀ x, close x x

variable (start stop : ι → F) (index : ι → Nat) (close : F → F → Prop)

/-- The pass over the intervals behind the first of a run. -/
def sweep [∀ x y, Decidable (close x y)] : List ι → Nat → F → Sets → Sets
  | [], _, _, s => s
  | m :: rest, anchor, reach, s =>
    if close (start m) reach then sweep rest anchor (max reach (stop m)) (s.union anchor (index m))
    else sweep rest (index m) (stop m) s

/-- The pass over all intervals. -/
def sweepAll [∀ x y, Decidable (close x y)] (members : List ι) (s : Sets) : Sets :=
  match members with
  | [] => s
  | first :: rest => sweep start stop index close rest (index first) (stop first) s

/-- The run of the pass: its members are joined with the anchor, the latest of their ends is
`reach`, and all of them start before what is left. -/
structure Run (run rest : List ι) (anchor : Nat) (reach : F) (s : Sets) : Prop where
  anchored : ∀ m ∈ run, s.root (index m) = s.root anchor
  reached : ∃ m ∈ run, stop m = reach
  before : ∀ m ∈ run, stop m ≤ reach
  ordered : ∀ m ∈ run, ∀ x ∈ rest, start m ≤ start x
  size : anchor < s.size

/-- What the pass has done to the intervals that are left. -/
structure Swept (E : Nat → Nat → Prop) (run rest : List ι) (s s' : Sets) : Prop where
  size : s'.size = s.size
  sound : s'.Sound E
  kept : ∀ i j, s.root i = s.root j → s'.root i = s'.root j
  outer : ∀ m ∈ run, ∀ x ∈ rest, close (start x) (stop m) → s'.root (index m) = s'.root (index x)
  inner : rest.Pairwise fun m x => close (start x) (stop m) → s'.root (index m) = s'.root (index x)

variable {start stop index close} {E : Nat → Nat → Prop}

section

variable {run rest : List ι} {m : ι} {anchor : Nat} {reach : F} {s s' : Sets}

/-- An interval joins the run. -/
theorem Run.join (h : Run start stop index run (m :: rest) anchor reach s) (hm : index m < s.size)
    (hrest : ∀ x ∈ rest, start m ≤ start x) :
    Run start stop index (m :: run) rest anchor (max reach (stop m))
      (s.union anchor (index m)) where
  anchored k hk := by
    rcases List.mem_cons.mp hk with rfl | hk
    · exact (Sets.union_root h.size hm).symm
    · exact Sets.union_same h.size hm (h.anchored k hk)
  reached := by
    rcases max_choice reach (stop m) with hmax | hmax
    · obtain ⟨k, hk, hreach⟩ := h.reached
      exact ⟨k, List.mem_cons_of_mem _ hk, hreach.trans hmax.symm⟩
    · exact ⟨m, List.mem_cons_self, hmax.symm⟩
  before k hk := by
    rcases List.mem_cons.mp hk with rfl | hk
    · exact le_max_right _ _
    · exact le_max_of_le_left (h.before k hk)
  ordered k hk x hx := by
    rcases List.mem_cons.mp hk with rfl | hk
    · exact hrest x hx
    · exact h.ordered k hk x (List.mem_cons_of_mem _ hx)
  size := by
    rw [Sets.size_union]
    exact h.size

/-- An interval begins a run. -/
theorem run_single (hm : index m < s.size) (hrest : ∀ x ∈ rest, start m ≤ start x) :
    Run start stop index [m] rest (index m) (stop m) s where
  anchored k hk := by rw [List.mem_singleton.mp hk]
  reached := ⟨m, List.mem_singleton_self m, rfl⟩
  before k hk := by rw [List.mem_singleton.mp hk]
  ordered k hk x hx := by
    rw [List.mem_singleton.mp hk]
    exact hrest x hx
  size := hm

/-- After the interval has joined the run. -/
theorem Swept.join
    (h : Swept start stop index close E (m :: run) rest (s.union anchor (index m)) s')
    (hrun : Run start stop index run (m :: rest) anchor reach s) (hm : index m < s.size) :
    Swept start stop index close E run (m :: rest) s s' where
  size := h.size.trans (Sets.size_union _ _ _)
  sound := h.sound
  kept i j hij := h.kept i j (Sets.union_same hrun.size hm hij)
  outer k hk x hx hclose := by
    rcases List.mem_cons.mp hx with rfl | hx
    · refine h.kept _ _ ?_
      rw [← Sets.union_root hrun.size hm]
      exact Sets.union_same hrun.size hm (hrun.anchored k hk)
    · exact h.outer k (List.mem_cons_of_mem _ hk) x hx hclose
  inner := List.pairwise_cons.mpr ⟨fun x hx => h.outer m List.mem_cons_self x hx, h.inner⟩

/-- After the interval has begun a run: no interval from there on is close to one before. -/
theorem Swept.begin (h : Swept start stop index close E [m] rest s s') (hclose : Closeness close)
    (hrun : Run start stop index run (m :: rest) anchor reach s)
    (hrest : ∀ x ∈ rest, start m ≤ start x) (hapart : ¬ close (start m) reach) :
    Swept start stop index close E run (m :: rest) s s' where
  size := h.size
  sound := h.sound
  kept := h.kept
  outer k hk x hx hnear := by
    refine absurd (hclose.mono ?_ (hrun.before k hk) hnear) hapart
    rcases List.mem_cons.mp hx with rfl | hx
    · exact le_rfl
    · exact hrest x hx
  inner := List.pairwise_cons.mpr
    ⟨fun x hx => h.outer m (List.mem_singleton_self m) x hx, h.inner⟩

end

variable [∀ x y, Decidable (close x y)]

/-- **(run)** The pass joins the intervals of a run and those that are left as far as they are
close. -/
theorem swept_sweep (hclose : Closeness close) {run rest : List ι} {anchor : Nat} {reach : F}
    {s : Sets} (hrest : rest.Pairwise fun m x => start m ≤ start x)
    (hindex : ∀ m ∈ rest, index m < s.size)
    (hE : ∀ m ∈ run ++ rest, ∀ x ∈ rest, start m ≤ start x → close (start x) (stop m) →
      E (index m) (index x))
    (hsound : s.Sound E) (hrun : Run start stop index run rest anchor reach s) :
    Swept start stop index close E run rest s
      (sweep start stop index close rest anchor reach s) := by
  induction rest generalizing run anchor reach s with
  | nil =>
    exact ⟨rfl, hsound, fun _ _ h => h, fun _ _ _ hx => absurd hx List.not_mem_nil,
      List.Pairwise.nil⟩
  | cons m rest ih =>
    obtain ⟨hm, hrest⟩ := List.pairwise_cons.mp hrest
    obtain ⟨hmindex, hindex⟩ := List.forall_mem_cons.mp hindex
    rw [sweep]
    split
    · rename_i hjoin
      obtain ⟨k, hk, hkreach⟩ := hrun.reached
      have hlink : E (index k) (index m) :=
        hE k (List.mem_append_left _ hk) m List.mem_cons_self
          (hrun.ordered k hk m List.mem_cons_self) (hkreach ▸ hjoin)
      have hconnected : Relation.EqvGen E anchor (index m) :=
        (hsound _ _ (hrun.anchored k hk).symm).trans _ _ _ (.rel _ _ hlink)
      refine (ih hrest ?_ ?_ (hsound.union hrun.size hmindex hconnected)
        (hrun.join hmindex hm)).join hrun hmindex
      · intro x hx
        rw [Sets.size_union]
        exact hindex x hx
      · intro y hy x hx
        refine hE y ?_ x (List.mem_cons_of_mem _ hx)
        rw [List.cons_append] at hy
        exact List.perm_middle.mem_iff.mpr hy
    · rename_i hapart
      refine (ih hrest hindex ?_ hsound (run_single hmindex hm)).begin hclose hrun hm hapart
      intro y hy x hx
      exact hE y (List.mem_append_right _ hy) x (List.mem_cons_of_mem _ hx)

/-- **A pass over intervals in the order of their starts** joins those that are close, keeps what
was joined and joins nothing that is not connected. -/
theorem sweepAll_spec (hclose : Closeness close) {members : List ι} {s : Sets}
    (hmembers : members.Pairwise fun m x => start m ≤ start x)
    (hindex : ∀ m ∈ members, index m < s.size)
    (hE : ∀ m ∈ members, ∀ x ∈ members, start m ≤ start x → close (start x) (stop m) →
      E (index m) (index x))
    (hsound : s.Sound E) :
    (sweepAll start stop index close members s).size = s.size ∧
      (sweepAll start stop index close members s).Sound E ∧
      (∀ i j, s.root i = s.root j → (sweepAll start stop index close members s).root i =
        (sweepAll start stop index close members s).root j) ∧
      members.Pairwise fun m x => close (start x) (stop m) →
        (sweepAll start stop index close members s).root (index m) =
          (sweepAll start stop index close members s).root (index x) := by
  cases members with
  | nil => exact ⟨rfl, hsound, fun _ _ h => h, List.Pairwise.nil⟩
  | cons first rest =>
    obtain ⟨hfirst, hrest⟩ := List.pairwise_cons.mp hmembers
    obtain ⟨hfindex, hindex⟩ := List.forall_mem_cons.mp hindex
    have h := swept_sweep (E := E) hclose hrest hindex
      (fun m hm x hx => hE m hm x (List.mem_cons_of_mem _ hx)) hsound (run_single hfindex hfirst)
    exact ⟨h.size, h.sound, h.kept, List.pairwise_cons.mpr
      ⟨fun x hx => h.outer first (List.mem_singleton_self first) x hx, h.inner⟩⟩

end RiskOps.Lib.Sweep
