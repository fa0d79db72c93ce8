import RiskOps.Lib.Sweep
import RiskOps.Reduction.Dedup

/-!
# RiskOps.Reduction.Correlate — incidents of alert groups

Model of `correlate` (`reduction/correlate.py`). Groups that share a log record belong to one
incident, and so do groups of one source address whose periods lie close together. The first are
found with a table of owners, as in `deduplicate`; the second by one pass over the groups of each
address, in the order of their starts. `reduction_closures` says that both stages compute the
transitive closure of their links.

**Times.** `_seconds` gives floats. What is used of them is in `Clock`: they are ordered, and their
subtraction is monotone.
-/

namespace RiskOps.Reduction

open RiskOps.Lib

/-- `_seconds`, of the stamps that can be read, and the subtraction of its results. -/
structure Clock (F : Type) [LinearOrder F] [Zero F] where
  seconds : Str → Option F
  sub : F → F → F
  sub_mono : ∀ {x x' y y'}, x ≤ x' → y' ≤ y → sub x y ≤ sub x' y'
  sub_self : ∀ x, sub x x = 0

section

variable {F : Type} [LinearOrder F] [Zero F] (clock : Clock F)

/-- `_seconds(group.first_ts)`. -/
def start (g : AlertGroup) : F := (clock.seconds g.firstTs).getD 0

/-- `_seconds(group.last_ts)`. -/
def stop (g : AlertGroup) : F := (clock.seconds g.lastTs).getD 0

/-- The stamps of the group can be read. -/
def Readable (g : AlertGroup) : Prop :=
  (clock.seconds g.firstTs).isSome ∧ (clock.seconds g.lastTs).isSome

instance : DecidablePred (Readable clock) := fun _ => inferInstanceAs (Decidable (_ ∧ _))

/-- `sorted(groups, key=lambda group: group.group_id)`. -/
def sortGroups (groups : List AlertGroup) : List AlertGroup :=
  groups.insertionSort fun g h => g.groupId ≤ h.groupId

/-- The groups with their positions, under their source addresses. -/
def bySource (groups : List AlertGroup) : List (Str × List (AlertGroup × Nat)) :=
  Grouped.groupBy (fun m => m.1.srcIp) groups.zipIdx

/-- `members.sort(key=lambda index: (_seconds(groups[index].first_ts), groups[index].group_id))`. -/
def sortMembers (members : List (AlertGroup × Nat)) : List (AlertGroup × Nat) :=
  members.insertionSort fun m x =>
    toLex (start clock m.1, m.1.groupId) ≤ toLex (start clock x.1, x.1.groupId)

/-- The pass over the groups of one address. -/
def joinClose (gap : F) (s : Sets) (members : List (AlertGroup × Nat)) : Sets :=
  Sweep.sweepAll (fun m => start clock m.1) (fun m => stop clock m.1) Prod.snd
    (fun start reach => clock.sub start reach ≤ gap) (sortMembers clock members) s

/-- The sets after both loops. -/
def joinGroups (groups : List AlertGroup) (gap : F) : Sets :=
  (bySource groups).foldl (fun s source => joinClose clock gap s source.2)
    (Sets.claimAll (groups.map AlertGroup.evidence))

/-- `correlate(groups, gap_seconds=…)`. -/
def correlate (groups : List AlertGroup) (gap : F) : Except String (List (List AlertGroup)) :=
  if gap < 0 then .error "gap_seconds cannot be negative"
  else if ∀ g ∈ groups, Readable clock g then
    .ok ((joinGroups clock (sortGroups groups) gap).classes (sortGroups groups))
  else .error "Invalid isoformat string"

/-! ### What an incident is -/

/-- The periods of two groups overlap or lie at most `gap` apart. -/
def Near (gap : F) (g h : AlertGroup) : Prop :=
  (start clock g ≤ stop clock h ∧ start clock h ≤ stop clock g) ∨
    (stop clock g < start clock h ∧ clock.sub (start clock h) (stop clock g) ≤ gap) ∨
    (stop clock h < start clock g ∧ clock.sub (start clock g) (stop clock h) ≤ gap)

/-- Two of the groups share a log record, or are of one source address and near. -/
def SameActivity (groups : List AlertGroup) (gap : F) (g h : AlertGroup) : Prop :=
  g ∈ groups ∧ h ∈ groups ∧
    ((∃ record ∈ g.evidence, record ∈ h.evidence) ∨ g.srcIp = h.srcIp ∧ Near clock gap g h)

/-- **What `correlate` promises.** -/
structure Correlated (groups : List AlertGroup) (gap : F) (incidents : List (List AlertGroup)) :
    Prop where
  components : ∀ g ∈ groups, ∀ h ∈ groups, (∃ c ∈ incidents, g ∈ c ∧ h ∈ c) ↔
    Relation.EqvGen (SameActivity clock groups gap) g h
  groups : incidents.flatten.Perm groups

variable {clock} {gap : F} {groups : List AlertGroup} {g h : AlertGroup}

theorem closeness (hgap : 0 ≤ gap) :
    Sweep.Closeness fun start reach => clock.sub start reach ≤ gap where
  mono hx hy hclose := (clock.sub_mono hx hy).trans hclose
  refl x := (clock.sub_self x).trans_le hgap

theorem near_symm (hnear : Near clock gap g h) : Near clock gap h g := by
  rcases hnear with ⟨h₁, h₂⟩ | hlater | hearlier
  · exact .inl ⟨h₂, h₁⟩
  · exact .inr (.inr hlater)
  · exact .inr (.inl hearlier)

/-- A group that starts later is near when its start is close to the end of the other. -/
theorem near_iff (hgap : 0 ≤ gap) (hh : start clock h ≤ stop clock h)
    (hle : start clock g ≤ start clock h) :
    Near clock gap g h ↔ clock.sub (start clock h) (stop clock g) ≤ gap := by
  constructor
  · rintro (⟨-, hoverlap⟩ | ⟨-, hclose⟩ | ⟨hlt, -⟩)
    · exact ((clock.sub_mono hoverlap le_rfl).trans_eq (clock.sub_self _)).trans hgap
    · exact hclose
    · exact absurd (hle.trans hh) (not_le.mpr hlt)
  · intro hclose
    rcases le_or_gt (start clock h) (stop clock g) with hoverlap | hapart
    · exact .inl ⟨hle.trans hh, hoverlap⟩
    · exact .inr (.inl ⟨hapart, hclose⟩)

/-! ### The two loops -/

theorem perm_sortGroups (groups : List AlertGroup) : (sortGroups groups).Perm groups :=
  List.perm_insertionSort _ _

theorem sortGroups_perm {groups' : List AlertGroup}
    (hids : (groups.map AlertGroup.groupId).Nodup) (h : groups.Perm groups') :
    sortGroups groups = sortGroups groups' := by
  have hperm := ((perm_sortGroups groups).trans h).trans (perm_sortGroups groups').symm
  refine hperm.eq_of_pairwise ?_ (List.pairwise_insertionSort _ _) (List.pairwise_insertionSort _ _)
  intro a b ha hb hab hba
  refine List.inj_on_of_nodup_map hids ((perm_sortGroups groups).mem_iff.mp ha) ?_
    (le_antisymm hab hba)
  exact (perm_sortGroups groups).mem_iff.mp (hperm.mem_iff.mpr hb)

theorem mem_bySource {ip : Str} {members : List (AlertGroup × Nat)} :
    (ip, members) ∈ bySource groups ↔ (∃ m ∈ groups.zipIdx, m.1.srcIp = ip) ∧
      members = groups.zipIdx.filter fun m => m.1.srcIp = ip :=
  Grouped.mem_groupBy

/-- The members of an address. -/
theorem mem_members {ip : Str} {members : List (AlertGroup × Nat)} {i : Nat}
    (h : (ip, members) ∈ bySource groups) :
    (g, i) ∈ sortMembers clock members ↔ groups[i]? = some g ∧ g.srcIp = ip := by
  obtain ⟨-, rfl⟩ := Iff.mp mem_bySource h
  rw [sortMembers, (List.perm_insertionSort _ _).mem_iff, List.mem_filter, decide_eq_true_eq,
    List.mem_zipIdx_iff_getElem?]

theorem sortMembers_pairwise (members : List (AlertGroup × Nat)) :
    (sortMembers clock members).Pairwise fun m x => start clock m.1 ≤ start clock x.1 := by
  refine (List.pairwise_insertionSort _ members).imp fun h => ?_
  rcases Prod.Lex.le_iff.mp h with hlt | ⟨heq, -⟩
  · exact hlt.le
  · exact heq.le

/-- The positions of groups that belong together. -/
abbrev Together (clock : Clock F) (groups : List AlertGroup) (gap : F) : Nat → Nat → Prop :=
  Sets.At groups (SameActivity clock groups gap)

/-- What the sets are once the groups of some addresses have been taken. -/
structure Joined (clock : Clock F) (groups : List AlertGroup) (gap : F)
    (sources : List (Str × List (AlertGroup × Nat))) (s : Sets) : Prop where
  size : s.size = groups.length
  sound : s.Sound (Together clock groups gap)
  shared : ∀ i j, Sets.Share (groups.map AlertGroup.evidence) i j → s.root i = s.root j
  close : ∀ source ∈ sources, (sortMembers clock source.2).Pairwise fun m x =>
    clock.sub (start clock x.1) (stop clock m.1) ≤ gap → s.root m.2 = s.root x.2

theorem joined_evidence : Joined clock groups gap []
    (Sets.claimAll (groups.map AlertGroup.evidence)) := by
  obtain ⟨hsize, hsound, hjoined⟩ := Sets.claimAll_spec (groups.map AlertGroup.evidence)
  refine ⟨hsize.trans (List.length_map _), ?_, hjoined, fun _ h => absurd h List.not_mem_nil⟩
  intro i j hij
  refine (hsound i j hij).mono ?_
  rintro i j ⟨row, hrow, row', hrow', record, hrecord, hrecord'⟩
  rw [List.getElem?_map] at hrow hrow'
  obtain ⟨g, hg, rfl⟩ := Option.map_eq_some_iff.mp hrow
  obtain ⟨h, hh, rfl⟩ := Option.map_eq_some_iff.mp hrow'
  exact ⟨g, h, hg, hh, List.mem_of_getElem? hg, List.mem_of_getElem? hh,
    .inl ⟨record, hrecord, hrecord'⟩⟩

/-- **(step)** The pass over the groups of one address. -/
theorem Joined.joinClose {sources : List (Str × List (AlertGroup × Nat))} {s : Sets}
    (h : Joined clock groups gap sources s) (hgap : 0 ≤ gap)
    (hordered : ∀ g ∈ groups, start clock g ≤ stop clock g) {source : Str × List (AlertGroup × Nat)}
    (hsource : source ∈ bySource groups) :
    Joined clock groups gap (source :: sources) (joinClose clock gap s source.2) := by
  obtain ⟨ip, members⟩ := source
  have hindex : ∀ m ∈ sortMembers clock members, m.2 < s.size := by
    intro m hm
    rw [h.size]
    exact (List.getElem?_eq_some_iff.mp ((mem_members hsource).mp hm).1).1
  have hE : ∀ m ∈ sortMembers clock members, ∀ x ∈ sortMembers clock members,
      start clock m.1 ≤ start clock x.1 → clock.sub (start clock x.1) (stop clock m.1) ≤ gap →
      Together clock groups gap m.2 x.2 := by
    intro m hm x hx hle hclose
    obtain ⟨hmi, hmip⟩ := (mem_members hsource).mp hm
    obtain ⟨hxi, hxip⟩ := (mem_members hsource).mp hx
    have hxmem := List.mem_of_getElem? hxi
    exact ⟨m.1, x.1, hmi, hxi, List.mem_of_getElem? hmi, hxmem,
      .inr ⟨hmip.trans hxip.symm, (near_iff hgap (hordered _ hxmem) hle).mpr hclose⟩⟩
  obtain ⟨hsize, hsound, hkept, hclose⟩ :=
    Sweep.sweepAll_spec (closeness hgap) (sortMembers_pairwise members) hindex hE h.sound
  refine ⟨hsize.trans h.size, hsound, fun i j hij => hkept _ _ (h.shared i j hij), ?_⟩
  intro source' hsource'
  rcases List.mem_cons.mp hsource' with rfl | hsource'
  · exact hclose
  · exact (h.close source' hsource').imp fun hroot hnear => hkept _ _ (hroot hnear)

/-- **(run)** All addresses. -/
theorem joined_joinGroups (hgap : 0 ≤ gap) (hordered : ∀ g ∈ groups, start clock g ≤ stop clock g) :
    Joined clock groups gap (bySource groups) (joinGroups clock groups gap) := by
  suffices hall : ∀ (later done : List (Str × List (AlertGroup × Nat))) (s : Sets),
      (∀ source ∈ later, source ∈ bySource groups) → Joined clock groups gap done s →
      Joined clock groups gap (later.reverse ++ done)
        (later.foldl (fun s source => Reduction.joinClose clock gap s source.2) s) by
    have h := hall (bySource groups) [] _ (fun _ h => h) joined_evidence
    exact ⟨h.size, h.sound, h.shared, fun source hsource => h.close source (by simpa using hsource)⟩
  intro later
  induction later with
  | nil => intro done s _ h; exact h
  | cons source later ih =>
    intro done s hlater h
    obtain ⟨hsource, hlater⟩ := List.forall_mem_cons.mp hlater
    rw [List.reverse_cons, List.append_assoc]
    exact ih (source :: done) _ hlater (h.joinClose hgap hordered hsource)

/-- Groups that belong together are joined. -/
theorem root_of_together (hgap : 0 ≤ gap) (hordered : ∀ g ∈ groups, start clock g ≤ stop clock g)
    {i j : Nat} (hij : Together clock groups gap i j) :
    (joinGroups clock groups gap).root i = (joinGroups clock groups gap).root j := by
  have hjoined := joined_joinGroups hgap hordered
  obtain ⟨g, h, hg, hh, -, -, ⟨record, hrecord, hrecord'⟩ | ⟨hip, hnear⟩⟩ := hij
  · refine hjoined.shared i j ⟨_, ?_, _, ?_, record, hrecord, hrecord'⟩
    · rw [List.getElem?_map, hg]
      rfl
    · rw [List.getElem?_map, hh]
      rfl
  · -- both are among the members of their address, one before the other
    have hsource : (g.srcIp, groups.zipIdx.filter fun m => m.1.srcIp = g.srcIp) ∈ bySource groups :=
      Iff.mpr mem_bySource ⟨⟨(g, i), List.mem_zipIdx_iff_getElem?.mpr hg, rfl⟩, rfl⟩
    by_cases heq : (g, i) = (h, j)
    · rw [(Prod.mk.inj heq).2]
    · have hsymm : Std.Symm fun m x : AlertGroup × Nat => Near clock gap m.1 x.1 →
          (joinGroups clock groups gap).root m.2 = (joinGroups clock groups gap).root x.2 :=
        ⟨fun m x hroot hnear => (hroot (near_symm hnear)).symm⟩
      have hpairs : (sortMembers clock (groups.zipIdx.filter fun m => m.1.srcIp = g.srcIp)).Pairwise
          fun m x => Near clock gap m.1 x.1 →
            (joinGroups clock groups gap).root m.2 = (joinGroups clock groups gap).root x.2 := by
        refine ((sortMembers_pairwise _).and (hjoined.close _ hsource)).imp_of_mem ?_
        intro m x _ hx hpair hnear
        have hxmem := List.mem_of_getElem? ((mem_members hsource).mp hx).1
        exact hpair.2 ((near_iff hgap (hordered _ hxmem) hpair.1).mp hnear)
      exact hpairs.forall ((mem_members hsource).mpr ⟨hg, rfl⟩)
        ((mem_members hsource).mpr ⟨hh, hip.symm⟩) heq hnear

/-- **Correlation computes the classes**, and loses and repeats no group. -/
theorem correlated (hids : (groups.map AlertGroup.groupId).Nodup) (hgap : 0 ≤ gap)
    (hordered : ∀ g ∈ groups, start clock g ≤ stop clock g) :
    Correlated clock groups gap
      ((joinGroups clock (sortGroups groups) gap).classes (sortGroups groups)) := by
  have hperm := perm_sortGroups groups
  have hordered' : ∀ g ∈ sortGroups groups, start clock g ≤ stop clock g := fun g hg =>
    hordered g (hperm.mem_iff.mp hg)
  have hjoined := joined_joinGroups hgap hordered'
  have hsame : SameActivity clock (sortGroups groups) gap = SameActivity clock groups gap := by
    funext g h
    simp only [SameActivity, hperm.mem_iff]
  refine ⟨fun g hg h hh => ?_, (Sets.flatten_classes hjoined.size).trans hperm⟩
  rw [← hsame]
  refine Sets.same_class_iff ((hperm.nodup_iff).mpr hids.of_map) hjoined.size
    (fun a b hab => ⟨hab.1, hab.2.1⟩) hjoined.sound ?_ (hperm.mem_iff.mpr hg) (hperm.mem_iff.mpr hh)
  exact fun i j => root_of_together hgap hordered'

theorem correlate_eq (hgap : 0 ≤ gap) (hreadable : ∀ g ∈ groups, Readable clock g) :
    correlate clock groups gap =
      .ok ((joinGroups clock (sortGroups groups) gap).classes (sortGroups groups)) := by
  rw [correlate, if_neg (not_lt.mpr hgap), if_pos hreadable]

/-- **Both stages compute closures, independent of the order.** -/
theorem reduction_closures (alerts : List Alert) (hids : (alerts.map Alert.alertId).Nodup)
    (groups : List AlertGroup) (hgroups : (groups.map AlertGroup.groupId).Nodup) (hgap : 0 ≤ gap)
    (hreadable : ∀ g ∈ groups, Readable clock g)
    (hordered : ∀ g ∈ groups, start clock g ≤ stop clock g) :
    Deduplicated alerts (deduplicate alerts) ∧
      (∀ alerts', alerts.Perm alerts' → deduplicate alerts' = deduplicate alerts) ∧
      ∃ incidents, correlate clock groups gap = .ok incidents ∧
        Correlated clock groups gap incidents ∧
        ∀ groups', groups.Perm groups' → correlate clock groups' gap = .ok incidents := by
  refine ⟨deduplicated hids, fun alerts' h => (deduplicate_perm hids h).symm, _,
    correlate_eq hgap hreadable, correlated hgroups hgap hordered, fun groups' h => ?_⟩
  rw [correlate_eq hgap fun g hg => hreadable g (h.mem_iff.mpr hg), sortGroups_perm hgroups h]

end

/-- Three stamps of the first day, in seconds. -/
def firstDay : Clock Int where
  seconds s :=
    if s = Str.ofString "1970-01-01T00:00:00Z" then some 0
    else if s = Str.ofString "1970-01-01T00:10:00Z" then some 600
    else if s = Str.ofString "1970-01-01T01:05:00Z" then some 3900
    else none
  sub x y := x - y
  sub_mono hx hy := Int.sub_le_sub hx hy
  sub_self x := Int.sub_self x

/-- An alert of the first day. -/
def firstAlert (id record firstTs lastTs : String) : Alert :=
  ⟨Str.ofString id, Str.ofString "rule", Str.ofString "192.0.2.1", [Str.ofString "host"],
    [Str.ofString record], Str.ofString firstTs, Str.ofString lastTs⟩

/-- A group of the first day. -/
def firstGroup (id record firstTs lastTs : String) : AlertGroup :=
  ⟨Str.ofString id, Str.ofString "rule", Str.ofString "192.0.2.1", [Str.ofString "host"],
    [Str.ofString id], [Str.ofString record], Str.ofString firstTs, Str.ofString lastTs⟩

/-- An alert that is raised twice, and two groups of one address with a pause between them. -/
theorem reduction_closures_first_day :
    let alerts := [firstAlert "a1" "r1" "1970-01-01T00:00:00Z" "1970-01-01T00:10:00Z",
      firstAlert "a2" "r1" "1970-01-01T00:00:00Z" "1970-01-01T00:10:00Z"]
    let groups := [firstGroup "g1" "r1" "1970-01-01T00:00:00Z" "1970-01-01T00:10:00Z",
      firstGroup "g2" "r2" "1970-01-01T01:05:00Z" "1970-01-01T01:05:00Z"]
    Deduplicated alerts (deduplicate alerts) ∧
      (∀ alerts', alerts.Perm alerts' → deduplicate alerts' = deduplicate alerts) ∧
      ∃ incidents, correlate firstDay groups 3600 = .ok incidents ∧
        Correlated firstDay groups 3600 incidents ∧
        ∀ groups', groups.Perm groups' → correlate firstDay groups' 3600 = .ok incidents :=
  reduction_closures _ (by decide) _ (by decide) (by decide) (by decide) (by decide)

end RiskOps.Reduction
