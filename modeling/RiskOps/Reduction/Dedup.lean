import RiskOps.Lib.PyJson
import RiskOps.Lib.UnionFind

/-!
# RiskOps.Reduction.Dedup — one group for each detection

Model of `deduplicate` (`reduction/dedup.py`). Alerts are the same detection when they come from the
same rule, source address and hosts and share a log record; the first alert that names a record
under such a key owns it, and later ones are joined with it. What comes out are the connected
components (`Deduplicated`), whatever order the alerts come in.
-/

namespace RiskOps.Reduction

open RiskOps.Lib

/-- The fields of an alert that are read. -/
structure Alert where
  alertId : Str
  ruleId : Str
  srcIp : Str
  hosts : List Str
  evidence : List Str
  firstTs : Str
  lastTs : Str
  deriving DecidableEq

structure AlertGroup where
  groupId : Str
  ruleId : Str
  srcIp : Str
  hosts : List Str
  alertIds : List Str
  evidence : List Str
  firstTs : Str
  lastTs : Str
  deriving DecidableEq

/-- `(alert["rule_id"], alert["src_ip"], tuple(alert["hosts"]))`. -/
def Alert.key (a : Alert) : Str × Str × List Str := (a.ruleId, a.srcIp, a.hosts)

/-- `sorted(alerts, key=lambda alert: alert["alert_id"])`. -/
def sortAlerts (alerts : List Alert) : List Alert :=
  alerts.insertionSort fun a b => a.alertId ≤ b.alertId

/-- `tuple(sorted({record for alert in chosen for record in alert["evidence"]}))`. -/
def evidenceOf (chosen : List Alert) : List Str :=
  ((chosen.flatMap Alert.evidence).dedup).insertionSort (· ≤ ·)

/-- The group of some alerts, which are in order. -/
def groupOf : List Alert → Option AlertGroup
  | [] => none
  | first :: rest => some
    { groupId := first.alertId
      ruleId := first.ruleId
      srcIp := first.srcIp
      hosts := first.hosts
      alertIds := (first :: rest).map Alert.alertId
      evidence := evidenceOf (first :: rest)
      firstTs := rest.foldl (fun ts a => min ts a.firstTs) first.firstTs
      lastTs := rest.foldl (fun ts a => max ts a.lastTs) first.lastTs }

/-- The sets after the loop over the alerts. -/
def joinAlerts (alerts : List Alert) : Sets :=
  Sets.claimAll (alerts.map fun a => a.evidence.map fun record => (a.key, record))

/-- `deduplicate(alerts)`. -/
def deduplicate (alerts : List Alert) : List AlertGroup :=
  ((joinAlerts (sortAlerts alerts)).classes (sortAlerts alerts)).filterMap groupOf

/-! ### What a group is -/

/-- Two of the alerts are the same detection, as one log record shows. -/
def SameDetection (alerts : List Alert) (a b : Alert) : Prop :=
  a ∈ alerts ∧ b ∈ alerts ∧ a.key = b.key ∧ ∃ record ∈ a.evidence, record ∈ b.evidence

/-- **What `deduplicate` promises.** -/
structure Deduplicated (alerts : List Alert) (groups : List AlertGroup) : Prop where
  components : ∀ a ∈ alerts, ∀ b ∈ alerts,
    (∃ g ∈ groups, a.alertId ∈ g.alertIds ∧ b.alertId ∈ g.alertIds) ↔
      Relation.EqvGen (SameDetection alerts) a b
  alertIds : (groups.flatMap AlertGroup.alertIds).Perm (alerts.map Alert.alertId)
  evidence : ∀ g ∈ groups, g.evidence.Pairwise (· < ·) ∧
    ∀ record, record ∈ g.evidence ↔ ∃ a ∈ alerts, a.alertId ∈ g.alertIds ∧ record ∈ a.evidence
  key : ∀ g ∈ groups, ∀ a ∈ alerts, a.alertId ∈ g.alertIds →
    (g.ruleId, g.srcIp, g.hosts) = a.key

theorem perm_sortAlerts (alerts : List Alert) : (sortAlerts alerts).Perm alerts :=
  List.perm_insertionSort _ _

/-- With distinct ids the order does not matter. -/
theorem sortAlerts_perm {alerts alerts' : List Alert} (hids : (alerts.map Alert.alertId).Nodup)
    (h : alerts.Perm alerts') : sortAlerts alerts = sortAlerts alerts' := by
  have hperm := ((perm_sortAlerts alerts).trans h).trans (perm_sortAlerts alerts').symm
  refine hperm.eq_of_pairwise ?_ (List.pairwise_insertionSort _ _) (List.pairwise_insertionSort _ _)
  intro a b ha hb hab hba
  refine List.inj_on_of_nodup_map hids ((perm_sortAlerts alerts).mem_iff.mp ha) ?_
    (le_antisymm hab hba)
  exact (perm_sortAlerts alerts).mem_iff.mp (hperm.mem_iff.mpr hb)

theorem mem_evidenceOf {chosen : List Alert} {record : Str} :
    record ∈ evidenceOf chosen ↔ ∃ a ∈ chosen, record ∈ a.evidence := by
  rw [evidenceOf, (List.perm_insertionSort _ _).mem_iff, List.mem_dedup, List.mem_flatMap]

theorem evidenceOf_pairwise (chosen : List Alert) : (evidenceOf chosen).Pairwise (· < ·) := by
  have hle := List.pairwise_insertionSort (α := Str) (· ≤ ·) (chosen.flatMap Alert.evidence).dedup
  have hnodup := ((List.perm_insertionSort (· ≤ ·) _).nodup_iff).mpr
    (List.nodup_dedup (chosen.flatMap Alert.evidence))
  exact (hle.and hnodup).imp fun h => lt_of_le_of_ne h.1 h.2

theorem groupOf_spec {chosen : List Alert} {g : AlertGroup} (h : groupOf chosen = some g) :
    g.alertIds = chosen.map Alert.alertId ∧ g.evidence = evidenceOf chosen ∧
      ∃ first ∈ chosen, (g.ruleId, g.srcIp, g.hosts) = first.key := by
  cases chosen with
  | nil => cases h
  | cons first rest =>
    obtain rfl := Option.some.inj h
    exact ⟨rfl, rfl, first, List.mem_cons_self, rfl⟩

/-- The tags of two alerts meet when they are the same detection. -/
theorem share_tags (alerts : List Alert) :
    Sets.Share (alerts.map fun a => a.evidence.map fun record => (a.key, record)) =
      Sets.At alerts (SameDetection alerts) := by
  funext i j
  simp only [Sets.Share, Sets.At, List.getElem?_map, eq_iff_iff]
  constructor
  · rintro ⟨row, hrow, row', hrow', tag, htag, htag'⟩
    obtain ⟨a, ha, rfl⟩ := Option.map_eq_some_iff.mp hrow
    obtain ⟨b, hb, rfl⟩ := Option.map_eq_some_iff.mp hrow'
    obtain ⟨record, hrecord, rfl⟩ := List.mem_map.mp htag
    obtain ⟨record', hrecord', heq⟩ := List.mem_map.mp htag'
    obtain ⟨hkey, rfl⟩ := Prod.mk.inj heq
    exact ⟨a, b, ha, hb, List.mem_of_getElem? ha, List.mem_of_getElem? hb, hkey.symm, record',
      hrecord, hrecord'⟩
  · rintro ⟨a, b, ha, hb, -, -, hkey, record, hrecord, hrecord'⟩
    refine ⟨_, Option.map_eq_some_iff.mpr ⟨a, ha, rfl⟩, _, Option.map_eq_some_iff.mpr ⟨b, hb, rfl⟩,
      (a.key, record), List.mem_map_of_mem hrecord, ?_⟩
    exact List.mem_map.mpr ⟨record, hrecord', by rw [hkey]⟩

theorem joinAlerts_spec (alerts : List Alert) : (joinAlerts alerts).size = alerts.length ∧
    (joinAlerts alerts).Sound (Sets.At alerts (SameDetection alerts)) ∧
    ∀ i j, Sets.At alerts (SameDetection alerts) i j →
      (joinAlerts alerts).root i = (joinAlerts alerts).root j := by
  obtain ⟨hsize, hsound, hjoined⟩ :=
    Sets.claimAll_spec (alerts.map fun a => a.evidence.map fun record => (a.key, record))
  rw [share_tags] at hsound hjoined
  exact ⟨hsize.trans (List.length_map _), hsound, hjoined⟩

/-- What is the same detection has the same key. -/
theorem key_of_eqvGen {alerts : List Alert} {a b : Alert}
    (h : Relation.EqvGen (SameDetection alerts) a b) : a.key = b.key := by
  induction h with
  | rel _ _ h => exact h.2.2.1
  | refl => rfl
  | symm _ _ _ ih => exact ih.symm
  | trans _ _ _ _ _ ih ih' => exact ih.trans ih'

theorem sameDetection_sort (alerts : List Alert) :
    SameDetection (sortAlerts alerts) = SameDetection alerts := by
  funext a b
  simp only [SameDetection, (perm_sortAlerts alerts).mem_iff]

/-! ### The groups -/

section

variable {alerts : List Alert} {a b : Alert} {g : AlertGroup}

/-- The classes of the alerts. -/
def alertClasses (alerts : List Alert) : List (List Alert) :=
  (joinAlerts (sortAlerts alerts)).classes (sortAlerts alerts)

theorem perm_alertClasses (alerts : List Alert) : (alertClasses alerts).flatten.Perm alerts :=
  (Sets.flatten_classes (joinAlerts_spec _).1).trans (perm_sortAlerts alerts)

theorem same_alertClass_iff (hids : (alerts.map Alert.alertId).Nodup) (ha : a ∈ alerts)
    (hb : b ∈ alerts) :
    (∃ c ∈ alertClasses alerts, a ∈ c ∧ b ∈ c) ↔ Relation.EqvGen (SameDetection alerts) a b := by
  obtain ⟨hsize, hsound, hjoined⟩ := joinAlerts_spec (sortAlerts alerts)
  rw [← sameDetection_sort]
  refine Sets.same_class_iff ?_ hsize (fun a b h => ⟨h.1, h.2.1⟩) hsound hjoined ?_ ?_
  · exact ((perm_sortAlerts alerts).nodup_iff).mpr hids.of_map
  · exact (perm_sortAlerts alerts).mem_iff.mpr ha
  · exact (perm_sortAlerts alerts).mem_iff.mpr hb

theorem mem_deduplicate : g ∈ deduplicate alerts ↔ ∃ c ∈ alertClasses alerts, groupOf c = some g :=
  List.mem_filterMap

/-- Every class has a group. -/
theorem exists_groupOf {c : List Alert} (hc : c ∈ alertClasses alerts) :
    ∃ g, groupOf c = some g := by
  cases hcase : c with
  | nil => exact absurd hcase (Sets.ne_nil_of_mem_classes (joinAlerts_spec _).1 hc)
  | cons first rest => exact ⟨_, rfl⟩

/-- The alerts of a group are told by their ids. -/
theorem mem_alertIds_iff (hids : (alerts.map Alert.alertId).Nodup) {c : List Alert}
    (hc : c ∈ alertClasses alerts) (hg : groupOf c = some g) (ha : a ∈ alerts) :
    a.alertId ∈ g.alertIds ↔ a ∈ c := by
  rw [(groupOf_spec hg).1]
  constructor
  · intro h
    obtain ⟨b, hb, heq⟩ := List.mem_map.mp h
    have hmem : b ∈ alerts :=
      (perm_alertClasses alerts).mem_iff.mp (List.mem_flatten.mpr ⟨c, hc, hb⟩)
    exact List.inj_on_of_nodup_map hids hmem ha heq ▸ hb
  · exact List.mem_map_of_mem

theorem flatMap_alertIds (alerts : List Alert) :
    (deduplicate alerts).flatMap AlertGroup.alertIds =
      (alertClasses alerts).flatten.map Alert.alertId := by
  have hall : ∀ cs : List (List Alert), (∀ c ∈ cs, c ≠ []) →
      (cs.filterMap groupOf).flatMap AlertGroup.alertIds = cs.flatten.map Alert.alertId := by
    intro cs
    induction cs with
    | nil => intro _; rfl
    | cons c cs ih =>
      intro h
      obtain ⟨hc, hcs⟩ := List.forall_mem_cons.mp h
      cases c with
      | nil => exact absurd rfl hc
      | cons first rest =>
        rw [List.filterMap_cons, groupOf, List.flatMap_cons, ih hcs, List.flatten_cons,
          List.map_append]
  exact hall _ fun c hc => Sets.ne_nil_of_mem_classes (joinAlerts_spec _).1 hc

/-- **Deduplication computes the components**, and loses and repeats nothing. -/
theorem deduplicated (hids : (alerts.map Alert.alertId).Nodup) :
    Deduplicated alerts (deduplicate alerts) where
  components a ha b hb := by
    rw [← same_alertClass_iff hids ha hb]
    constructor
    · rintro ⟨g, hg, hag, hbg⟩
      obtain ⟨c, hc, hcg⟩ := Iff.mp mem_deduplicate hg
      exact ⟨c, hc, (mem_alertIds_iff hids hc hcg ha).mp hag,
        (mem_alertIds_iff hids hc hcg hb).mp hbg⟩
    · rintro ⟨c, hc, hac, hbc⟩
      obtain ⟨g, hcg⟩ := exists_groupOf hc
      exact ⟨g, Iff.mpr mem_deduplicate ⟨c, hc, hcg⟩, (mem_alertIds_iff hids hc hcg ha).mpr hac,
        (mem_alertIds_iff hids hc hcg hb).mpr hbc⟩
  alertIds := by
    rw [flatMap_alertIds]
    exact (perm_alertClasses alerts).map _
  evidence g hg := by
    obtain ⟨c, hc, hcg⟩ := Iff.mp mem_deduplicate hg
    rw [(groupOf_spec hcg).2.1]
    refine ⟨evidenceOf_pairwise c, fun record => mem_evidenceOf.trans ?_⟩
    have hmem : ∀ a ∈ c, a ∈ alerts := fun a ha =>
      (perm_alertClasses alerts).mem_iff.mp (List.mem_flatten.mpr ⟨c, hc, ha⟩)
    constructor
    · rintro ⟨a, ha, hrecord⟩
      exact ⟨a, hmem a ha, (mem_alertIds_iff hids hc hcg (hmem a ha)).mpr ha, hrecord⟩
    · rintro ⟨a, ha, hid, hrecord⟩
      exact ⟨a, (mem_alertIds_iff hids hc hcg ha).mp hid, hrecord⟩
  key g hg a ha hid := by
    obtain ⟨c, hc, hcg⟩ := Iff.mp mem_deduplicate hg
    obtain ⟨-, -, first, hfirst, hkey⟩ := groupOf_spec hcg
    have hmem : first ∈ alerts :=
      (perm_alertClasses alerts).mem_iff.mp (List.mem_flatten.mpr ⟨c, hc, hfirst⟩)
    have hac := (mem_alertIds_iff hids hc hcg ha).mp hid
    exact hkey.trans (key_of_eqvGen ((same_alertClass_iff hids hmem ha).mp ⟨c, hc, hfirst, hac⟩))

theorem deduplicate_perm {alerts' : List Alert} (hids : (alerts.map Alert.alertId).Nodup)
    (h : alerts.Perm alerts') : deduplicate alerts = deduplicate alerts' := by
  rw [deduplicate, deduplicate, sortAlerts_perm hids h]

end

end RiskOps.Reduction
