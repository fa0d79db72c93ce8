import RiskOps.Lib.Directory
import RiskOps.Lib.PyJson
import RiskOps.Lib.Run

/-!
# RiskOps.Telemetry.RecoveryPrune — rotation of recovery packages

Model of `prune`, `read_confirmations`, `managed_contents` and `read_manifest`
(`scripts/recovery_package.py`): **old packages are deleted file by file.** The packages of a store
are ordered by age; below the newest `keep`, a package with enough confirmations and nothing foreign
in it goes, entry by entry in the order of the names, the directory last. Which packages go is read
from the files that are deleted: a run that is cut can be finished by the same run exactly when the
package it had begun still has its manifest and enough of its confirmations
(`finishable_iff_stillEligible`).

A directory is its entries in the order of their names. Of a file only what `json.loads` makes of it
matters. Manifests have the types of fields that `build` gives them; one with others is taken to make
`prune` raise.
-/

namespace RiskOps.Telemetry.Prune

open RiskOps.Lib RiskOps.Lib.PyJson

/-! ### The store -/

/-- A file: bytes that are no UTF-8, a text that is no JSON or cannot be read, or a value. -/
inductive Content where
  | undecodable
  | unreadable
  | json (v : PyJson.Value)

/-- What stands in the directory of confirmations; `other` is no regular file. -/
inductive Record where
  | file (content : Content)
  | other

/-- What stands in a package; a link has the content of the file it leads to. -/
inductive Entry where
  | file (content : Content)
  | link (target : Option Content)
  | dir (records : Dir Str Record)
  | other

/-- The directory of a package. -/
abbrev Package := Dir Str Entry

/-- What stands in a store; `other` is no directory. -/
inductive Item where
  | package (p : Package)
  | other

/-- The directory of packages. -/
abbrev Store := Dir Str Item

/-! ### Names -/

/-- `MANIFEST_NAME`. -/
def manifestName : Str := Str.ofString "manifest.json"

/-- `CHECKSUM_NAME`. -/
def checksumName : Str := Str.ofString "SHA256SUMS"

/-- `SIGNATURE_NAME`. -/
def signatureName : Str := Str.ofString "manifest.json.asc"

/-- `CONFIRMATIONS`. -/
def confirmations : Str := Str.ofString "confirmations"

/-- `[0-9a-f]`. -/
def isHexDigit (c : Nat) : Bool := isDigit c || (97 ≤ c && c ≤ 102)

/-- `BACKUP_ID_RE.fullmatch`. -/
def isBackupId (name : Str) : Bool :=
  name.length = 28 && name.take 3 = Str.ofString "rp-" && ((name.drop 3).take 8).all isDigit &&
    (name.drop 11).take 1 = Str.ofString "T" && ((name.drop 12).take 6).all isDigit &&
    (name.drop 18).take 2 = Str.ofString "Z-" && (name.drop 20).all isHexDigit

/-- `record.name.endswith('.json')`. -/
def isJsonName (name : Str) : Bool := (Str.ofString ".json").isSuffixOf name

/-- A confirmation, or the temporary file an interrupted one left behind. -/
def isOwnName (name : Str) : Bool :=
  isJsonName name ||
    ((Str.ofString ".").isPrefixOf name && (Str.ofString ".tmp").isSuffixOf name)

/-! ### Manifests and confirmations -/

/-- Why a package is not read: a `PackageError`, or another exception. -/
inductive Refusal where
  | package
  | raised
  deriving DecidableEq

/-- The fields of a manifest that rotation reads; `sha256` is that of the sealed object. -/
structure Manifest where
  backupId : Str
  createdAt : Str
  storedObject : Str
  sha256 : Str

/-- `value.get(key)`. -/
def member (ms : List (Str × PyJson.Value)) (key : String) : Option PyJson.Value :=
  ms.lookup (Str.ofString key)

/-- `bool(value)`. -/
def truthy : PyJson.Value → Bool
  | .null => false
  | .bool b => b
  | .int n => n ≠ 0
  -- a digit but 0, or the letter of NaN and Infinity
  | .float l => (l.takeWhile fun c => c ≠ 101 && c ≠ 69).any fun c =>
    (49 ≤ c && c ≤ 57) || c = 78 || c = 73
  | .str s => !s.isEmpty
  | .arr vs => !vs.isEmpty
  | .obj ms => !ms.isEmpty

def asStr : PyJson.Value → Option Str
  | .str s => some s
  | _ => none

def asObj : PyJson.Value → Option (List (Str × PyJson.Value))
  | .obj ms => some ms
  | _ => none

/-- The fields, when they have their types. -/
def typedManifest (ms : List (Str × PyJson.Value)) : Option Manifest := do
  let backupId ← (member ms "backup_id").bind asStr
  let storedObject ← (member ms "stored_object").bind asStr
  let createdAt ← match member ms "created_at" with
    | some v => asStr v
    | none => some []
  let encryption := (member ms "encryption").filter truthy
  let sealed ← (encryption <|> member ms "archive").bind asObj
  let sha256 ← (member sealed "sha256").bind asStr
  let _ ← member sealed "bytes"
  return { backupId, createdAt, storedObject, sha256 }

/-- `manifest.get('manifest_version') == MANIFEST_VERSION`. -/
def isVersion : PyJson.Value → Bool
  | .int n => n = 1
  | .bool b => b
  -- 1.0, 1.00, 1e0
  | .float l =>
    let digits := l.takeWhile fun c => c ≠ 101 && c ≠ 69
    (digits = [49] || digits.take 2 = [49, 46] && (digits.drop 2).all (· = 48)) &&
      (l.drop digits.length).all fun c => !(49 ≤ c && c ≤ 57)
  | _ => false

/-- `read_manifest` on the content of `manifest.json`. -/
def parseManifest : Content → Except Refusal Manifest
  | .json (.obj ms) =>
    if !(member ms "manifest_version").any isVersion then .error .package
    else if !(["backup_id", "stored_object", "archive", "components"].all fun field =>
        (member ms field).isSome) then .error .package
    else
      match typedManifest ms with
      | some m => .ok m
      | none => .error .raised
  | _ => .error .package

/-- `read_manifest`. -/
def readManifest (p : Package) : Except Refusal Manifest :=
  match p.get manifestName with
  | some (.file content) => parseManifest content
  | some (.link (some content)) => parseManifest content
  | _ => .error .package

/-- The peer a record confirms the package for. A record that is no UTF-8 raises. -/
def readRecord (m : Manifest) : Record → Except Refusal (Option Str)
  | .file .undecodable => .error .raised
  | .file (.json (.obj ms)) =>
    match (member ms "peer").bind asStr with
    | none => .ok none
    | some peer =>
      if (member ms "sha256").bind asStr = some m.sha256 ∧
          (member ms "backup_id").bind asStr = some m.backupId then .ok (some peer)
      else .ok none
  | _ => .ok none

/-- The peers of `read_confirmations`, each once. -/
def readConfirmations (p : Package) (m : Manifest) : Except Refusal (List Str) :=
  match p.get confirmations with
  | some (.dir records) =>
    ((records.entries.filter fun e => isJsonName e.1).mapM fun e => readRecord m e.2).map
      fun peers => (peers.filterMap id).dedup
  | _ => .ok []

/-- `len(item['confirmed_by'])`. -/
def confirmedBy (p : Package) (m : Manifest) : Nat :=
  match readConfirmations p m with
  | .ok peers => peers.length
  | .error _ => 0

/-! ### What is deleted -/

/-- Something in a package that is deleted: an entry, or a record of its confirmations. -/
inductive Target where
  | entry (name : Str)
  | record (name : Str)

/-- `expected` of `managed_contents`. -/
def expected (m : Manifest) : List Str :=
  [manifestName, checksumName, signatureName, m.storedObject]

/-- The record is one that goes with its package. -/
def isOwnRecord : Str × Record → Bool
  | (name, .file _) => isOwnName name
  | (_, .other) => false

/-- The managed paths of an entry, none when something unexpected is there. -/
def entryTargets (m : Manifest) : Str × Entry → Option (List Target)
  | (name, .file _) => if name ∈ expected m then some [.entry name] else none
  | (name, .dir records) =>
    if name = confirmations ∧ records.entries.all isOwnRecord then
      some ((records.entries.map fun e => .record e.1) ++ [.entry name])
    else none
  | _ => none

/-- `managed_contents`, none when there is anything unexpected. -/
def managedContents (p : Package) (m : Manifest) : Option (List Target) :=
  (p.entries.mapM (entryTargets m)).map List.flatten

/-- `path.unlink()` or `path.rmdir()`. -/
def Package.delete (p : Package) : Target → Package
  | .entry name => p.erase name
  | .record name => p.modify confirmations fun
      | .dir records => .dir (records.erase name)
      | e => e

/-! ### Rotation -/

/-- What `prune` reads of a package: none when it is no package. -/
def readItem : Str × Item → Option (Except Refusal (Str × Manifest))
  | (name, .package p) => if isBackupId name then some ((readManifest p).map (name, ·)) else none
  | _ => none

/-- A readable package. -/
def readRow (e : Str × Item) : Option (Str × Manifest) :=
  match readItem e with
  | some (.ok row) => some row
  | _ => none

/-- The readable packages in the order of their names. -/
def readable (store : Store) : List (Str × Manifest) := store.entries.filterMap readRow

/-- Reading the package raises something else than a `PackageError`. -/
def Item.raises : Str × Item → Bool
  | (name, .package p) => isBackupId name &&
      match readManifest p with
      | .ok m => (readConfirmations p m).toOption.isNone
      | .error refusal => refusal = .raised
  | _ => false

/-- Newest first: `(created_at, backup_id)` in reverse. -/
def Newer (a b : Str × Manifest) : Prop :=
  toLex (b.2.createdAt, b.2.backupId) ≤ toLex (a.2.createdAt, a.2.backupId)

instance : DecidableRel Newer := fun a b => inferInstanceAs
  (Decidable (toLex (b.2.createdAt, b.2.backupId) ≤ toLex (a.2.createdAt, a.2.backupId)))

instance : Std.Total Newer := ⟨fun a b =>
  le_total (toLex (b.2.createdAt, b.2.backupId)) (toLex (a.2.createdAt, a.2.backupId))⟩

instance : IsTrans (Str × Manifest) Newer := ⟨fun _ _ _ hab hbc => le_trans hbc hab⟩

/-- `ordered`. -/
def ordered (store : Store) : List (Str × Manifest) := (readable store).insertionSort Newer

/-- What goes of a package below the newest: everything managed, or nothing. -/
def goes (store : Store) (required : Nat) (row : Str × Manifest) : Option (Str × List Target) :=
  match store.get row.1 with
  | some (.package p) =>
    if confirmedBy p row.2 < required then none
    else (managedContents p row.2).map (row.1, ·)
  | _ => none

/-- `prune` raises before it deletes anything. -/
def refused (store : Store) (keep required : Nat) : Bool :=
  keep < 1 || required < 1 || store.entries.any Item.raises

/-- The packages `prune` removes, with what it deletes of each. -/
def removed (store : Store) (keep required : Nat) : List (Str × List Target) :=
  if refused store keep required then []
  else ((ordered store).drop keep).filterMap (goes store required)

/-- One deletion. -/
inductive Deletion where
  | inside (package : Str) (target : Target)
  | package (name : Str)

/-- The deletions of a package: what it holds, and then its directory. -/
def deletions (row : Str × List Target) : List Deletion :=
  row.2.map (.inside row.1) ++ [.package row.1]

/-- A deletion inside what stands in a store. -/
def Item.delete : Item → Target → Item
  | .package p, target => .package (p.delete target)
  | .other, _ => .other

/-- A deletion on the store. -/
def Store.delete (store : Store) : Deletion → Store
  | .inside name target => store.modify name (·.delete target)
  | .package name => store.erase name

/-- The deletions of `prune --apply`, in their order. -/
def steps (store : Store) (keep required : Nat) : List Deletion :=
  (removed store keep required).flatMap deletions

/-- `prune --apply` that is cut after some deletions. -/
def interrupted (store : Store) (keep required cut : Nat) : Store :=
  ((steps store keep required).take cut).foldl Store.delete store

/-- `prune --apply`. -/
def prune (store : Store) (keep required : Nat) : Store :=
  (steps store keep required).foldl Store.delete store

/-! ### What a run does to the store -/

theorem foldl_inside (store : Store) (name : Str) (targets : List Target) :
    (targets.map (.inside name)).foldl Store.delete store
      = store.modify name fun item => targets.foldl Item.delete item := by
  induction targets generalizing store with
  | nil => exact Dir.modify_id.symm
  | cons target targets ih =>
    rw [List.map_cons, List.foldl_cons, ih, Store.delete, Dir.modify_modify]
    rfl

theorem foldl_deletions (store : Store) (row : Str × List Target) :
    (deletions row).foldl Store.delete store = store.eraseAll [row.1] := by
  rw [deletions, List.foldl_append, foldl_inside, List.foldl_cons, List.foldl_nil, Store.delete,
    Dir.erase, Dir.eraseAll_modify List.mem_cons_self]

theorem foldl_flatMap_deletions (store : Store) (rows : List (Str × List Target)) :
    (rows.flatMap deletions).foldl Store.delete store = store.eraseAll (rows.map Prod.fst) := by
  induction rows generalizing store with
  | nil => exact Dir.eraseAll_nil.symm
  | cons row rows ih =>
    rw [List.flatMap_cons, List.foldl_append, foldl_deletions, ih, Dir.eraseAll_eraseAll]
    rfl

section Run

variable (store : Store) (keep required : Nat)

/-- The names of the packages that go. -/
def gone : List Str := (removed store keep required).map Prod.fst

theorem prune_eq : prune store keep required = store.eraseAll (gone store keep required) :=
  foldl_flatMap_deletions store _

/-- A run that is cut has removed some packages whole, and begun at most one. -/
theorem interrupted_cases (cut : Nat) :
    interrupted store keep required cut = store.eraseAll (gone store keep required) ∨
      ∃ done row rest, ∃ targets : List Target, removed store keep required = done ++ row :: rest ∧
        interrupted store keep required cut
          = (store.eraseAll (done.map Prod.fst)).modify row.1 fun item =>
              targets.foldl Item.delete item := by
  rcases take_flatMap_cases deletions (removed store keep required) cut with
    h | ⟨done, row, rest, j, hrows, hj, h⟩
  · left
    rw [interrupted, steps, h]
    exact prune_eq store keep required
  · refine Or.inr ⟨done, row, rest, row.2.take j, hrows, ?_⟩
    have hlen : j ≤ (row.2.map (Deletion.inside row.1)).length := by
      simp only [deletions, List.length_append, List.length_singleton] at hj
      omega
    rw [interrupted, steps, h, List.foldl_append, foldl_flatMap_deletions, deletions,
      List.take_append_of_le_length hlen, ← List.map_take, foldl_inside]

end Run

/-! ### What is left of a package -/

/-- What is left of an entry: the entry, or fewer of its records. -/
def EntryShrinks (name : Str) (left whole : Entry) : Prop :=
  left = whole ∨ ∃ few all, name = confirmations ∧ left = .dir few ∧ whole = .dir all ∧
    few.entries ⊆ all.entries

/-- What is left of a package. -/
def Shrinks (left whole : Package) : Prop :=
  ∀ x ∈ left.entries, ∃ e, (x.1, e) ∈ whole.entries ∧ EntryShrinks x.1 x.2 e

section Monadic

variable {α β ε : Type}

theorem isSome_mapM_iff {f : α → Option β} {xs : List α} :
    (xs.mapM f).isSome = true ↔ ∀ x ∈ xs, (f x).isSome = true := by
  induction xs with
  | nil => simp
  | cons x xs ih =>
    rw [List.forall_mem_cons, ← ih, List.mapM_cons]
    cases f x <;> cases xs.mapM f <;> simp

end Monadic

namespace Shrinks

variable {left whole : Package} {m : Manifest}

theorem refl (p : Package) : Shrinks p p := fun x hx => ⟨x.2, hx, Or.inl rfl⟩

theorem delete (h : Shrinks left whole) (target : Target) : Shrinks (left.delete target) whole := by
  cases target with
  | entry name => exact fun x hx => h x (Dir.mem_eraseAll.mp hx).1
  | record name =>
    intro x hx
    obtain ⟨a, ha, hxa⟩ := Dir.mem_modify.mp hx
    obtain ⟨e, he, hshrinks⟩ := h (x.1, a) ha
    refine ⟨e, he, ?_⟩
    split at hxa
    · rename_i hname
      cases a with
      | dir records =>
        have hfew : (records.erase name).entries ⊆ records.entries :=
          fun y hy => (Dir.mem_eraseAll.mp hy).1
        rcases hshrinks with heq | ⟨few, all, hconf, heq, hall, hsub⟩
        · exact Or.inr ⟨_, records, hname, hxa, heq.symm, hfew⟩
        · obtain rfl := Entry.dir.inj heq
          exact Or.inr ⟨_, all, hname, hxa, hall, List.Subset.trans hfew hsub⟩
      | file c => exact hxa ▸ hshrinks
      | link c => exact hxa ▸ hshrinks
      | other => exact hxa ▸ hshrinks
    · exact hxa ▸ hshrinks

theorem deleteAll (targets : List Target) {item : Item} (h : item = .package whole) :
    ∃ left, targets.foldl Item.delete item = .package left ∧ Shrinks left whole := by
  subst h
  have hgen : ∀ p, Shrinks p whole →
      ∃ left, targets.foldl Item.delete (.package p) = .package left ∧ Shrinks left whole := by
    induction targets with
    | nil => exact fun p hp => ⟨p, rfl, hp⟩
    | cons target targets ih => exact fun p hp => ih (p.delete target) (hp.delete target)
  exact hgen whole (refl whole)

/-- The manifest that is left is the manifest, or gone. -/
theorem readManifest (h : Shrinks left whole) :
    Prune.readManifest left = Prune.readManifest whole ∨
      Prune.readManifest left = .error .package := by
  cases hget : left.get manifestName with
  | none =>
    right
    rw [Prune.readManifest, hget]
  | some e =>
    obtain ⟨e', he', hshrinks⟩ := h (manifestName, e) (Dir.mem_of_get hget)
    rcases hshrinks with heq | ⟨few, all, hname, -⟩
    · left
      rw [Prune.readManifest, Prune.readManifest, hget, Dir.get_of_mem he', ← heq]
    · exact absurd (show manifestName = confirmations from hname) (by decide)

/-- Records that are left are read as before. -/
theorem readConfirmations (h : Shrinks left whole) {peers : List Str}
    (hread : Prune.readConfirmations whole m = .ok peers) :
    ∃ fewer, Prune.readConfirmations left m = .ok fewer := by
  cases hget : left.get confirmations with
  | none => exact ⟨[], by rw [Prune.readConfirmations, hget]⟩
  | some e =>
    obtain ⟨e', he', hshrinks⟩ := h (confirmations, e) (Dir.mem_of_get hget)
    have hwhole := Dir.get_of_mem he'
    dsimp only at hwhole
    rcases hshrinks with heq | ⟨few, all, -, hfew, hall, hsub⟩
    · refine ⟨peers, ?_⟩
      rw [← hread, Prune.readConfirmations, Prune.readConfirmations, hget, hwhole, ← heq]
    · dsimp only at hfew hall
      subst hfew hall
      rw [Prune.readConfirmations, hwhole] at hread
      rw [Prune.readConfirmations, hget]
      obtain ⟨read, hread, -⟩ := map_eq_ok.mp hread
      have hok := exists_mapM_eq_ok.mp ⟨_, hread⟩
      obtain ⟨few', hfew'⟩ := exists_mapM_eq_ok.mpr fun x hx => hok x (List.mem_filter.mpr
        ⟨hsub (List.mem_filter.mp hx).1, (List.mem_filter.mp hx).2⟩)
      exact ⟨_, map_eq_ok.mpr ⟨_, hfew', rfl⟩⟩

/-- Nothing unexpected appears. -/
theorem managedContents (h : Shrinks left whole)
    (hwhole : (Prune.managedContents whole m).isSome = true) :
    (Prune.managedContents left m).isSome = true := by
  rw [Prune.managedContents, Option.isSome_map, isSome_mapM_iff] at hwhole ⊢
  intro x hx
  obtain ⟨e, he, hshrinks⟩ := h x hx
  have hentry := hwhole _ he
  obtain ⟨name, entry⟩ := x
  rcases hshrinks with heq | ⟨few, all, hname, hfew, hall, hsub⟩
  · dsimp only at heq
    rwa [heq]
  · dsimp only at hname hfew hall hentry ⊢
    subst hname hfew hall
    rw [entryTargets] at hentry ⊢
    split at hentry
    · rename_i hall
      rw [if_pos ⟨rfl, List.all_eq_true.mpr fun y hy => List.all_eq_true.mp hall.2 y (hsub hy)⟩]
      rfl
    · cases hentry

end Shrinks

/-! ### The packages that go -/

section Gone

variable {store : Store} {keep required : Nat} {row : Str × Manifest}

/-- A row is read from a package, which it names. -/
theorem readRow_eq_some_iff {e : Str × Item} :
    readRow e = some row ↔ ∃ p, e = (row.1, .package p) ∧ isBackupId row.1 = true ∧
      readManifest p = .ok row.2 := by
  obtain ⟨name, item⟩ := e
  obtain ⟨n, m⟩ := row
  cases item with
  | other => simp [readRow, readItem]
  | package p =>
    cases hid : isBackupId name with
    | false =>
      simp only [readRow, readItem, hid, Prod.mk.injEq]
      constructor
      · simp
      · rintro ⟨q, ⟨rfl, -⟩, htrue, -⟩
        rw [hid] at htrue
        cases htrue
    | true =>
      cases hread : readManifest p with
      | error refusal => simp [readRow, readItem, hid, hread, Except.map]
      | ok k =>
        simp only [readRow, readItem, hid, if_true, hread, Except.map, Option.some.injEq,
          Prod.mk.injEq, Item.package.injEq]
        constructor
        · rintro ⟨rfl, rfl⟩
          exact ⟨p, ⟨rfl, rfl⟩, hid, hread⟩
        · rintro ⟨q, ⟨rfl, rfl⟩, -, hq⟩
          exact ⟨rfl, Except.ok.inj (hread.symm.trans hq)⟩

theorem mem_readable :
    row ∈ readable store ↔ ∃ p, (row.1, .package p) ∈ store.entries ∧ isBackupId row.1 = true ∧
      readManifest p = .ok row.2 := by
  rw [readable, List.mem_filterMap]
  constructor
  · rintro ⟨e, hmem, hread⟩
    obtain ⟨p, rfl, hid, hmanifest⟩ := Iff.mp readRow_eq_some_iff hread
    exact ⟨p, hmem, hid, hmanifest⟩
  · rintro ⟨p, hmem, hid, hmanifest⟩
    exact ⟨_, hmem, Iff.mpr readRow_eq_some_iff ⟨p, rfl, hid, hmanifest⟩⟩

theorem nodup_readable (store : Store) : ((readable store).map Prod.fst).Nodup := by
  have hsub : ((readable store).map Prod.fst).Sublist (store.entries.map Prod.fst) := by
    rw [readable]
    induction store.entries with
    | nil => exact List.Sublist.refl _
    | cons e entries ih =>
      rw [List.filterMap_cons]
      split
      · exact ih.cons _
      · rename_i row hrow
        obtain ⟨p, rfl, -⟩ := Iff.mp readRow_eq_some_iff hrow
        exact ih.cons_cons _
  exact store.nodup.sublist hsub

theorem perm_ordered (store : Store) : (ordered store).Perm (readable store) :=
  List.perm_insertionSort _ _

theorem nodup_ordered (store : Store) : ((ordered store).map Prod.fst).Nodup :=
  ((perm_ordered store).map Prod.fst).nodup_iff.mpr (nodup_readable store)

/-- What goes of a row. -/
theorem goes_eq_some_iff {targets : Str × List Target} :
    goes store required row = some targets ↔ ∃ p ts, store.get row.1 = some (.package p) ∧
      required ≤ confirmedBy p row.2 ∧ managedContents p row.2 = some ts ∧
      targets = (row.1, ts) := by
  rw [goes]
  cases hget : store.get row.1 with
  | none => simp
  | some item =>
    cases item with
    | other => simp
    | package p =>
      by_cases hfew : confirmedBy p row.2 < required
      · simp [hfew]
      · simp [hfew, Nat.not_lt.mp hfew, eq_comm]

/-- The packages that go: below the newest, confirmed, with nothing foreign. -/
theorem mem_gone {name : Str} :
    name ∈ gone store keep required ↔ refused store keep required = false ∧
      ∃ row ∈ (ordered store).drop keep, row.1 = name ∧
        (goes store required row).isSome = true := by
  rw [gone, removed]
  cases hrefused : refused store keep required with
  | true => simp
  | false =>
    simp only [Bool.false_eq_true, if_false, true_and, List.mem_map, List.mem_filterMap]
    constructor
    · rintro ⟨targets, ⟨row, hrow, hgoes⟩, rfl⟩
      obtain ⟨p, ts, -, -, -, rfl⟩ := Iff.mp goes_eq_some_iff hgoes
      exact ⟨row, hrow, rfl, by rw [hgoes]; rfl⟩
    · rintro ⟨row, hrow, rfl, hgoes⟩
      obtain ⟨targets, hgoes⟩ := Option.isSome_iff_exists.mp hgoes
      obtain ⟨p, ts, -, -, -, rfl⟩ := Iff.mp goes_eq_some_iff hgoes
      exact ⟨_, ⟨row, hrow, hgoes⟩, rfl⟩

end Gone

/-! ### The store after the cut -/

/-- Rows above and below the newest name different packages. -/
theorem fst_ne_of_take {store : Store} {keep : Nat} {row row' : Str × Manifest}
    (h : row ∈ (ordered store).take keep) (h' : row' ∈ (ordered store).drop keep) :
    row.1 ≠ row'.1 := by
  have hnodup := nodup_ordered store
  rw [← List.take_append_drop keep (ordered store), List.map_append, List.nodup_append] at hnodup
  exact hnodup.2.2 _ (List.mem_map_of_mem h) _ (List.mem_map_of_mem h')

/-- A run that is cut: some packages are gone, and of one only a part is there. -/
structure CutShort (store : Store) (keep required : Nat) where
  done : List Str
  begun : Str
  whole : Package
  part : Package
  manifest : Manifest
  change : Item → Item
  done_gone : ∀ name ∈ done, name ∈ gone store keep required
  accepted : refused store keep required = false
  begun_row : (begun, manifest) ∈ (ordered store).drop keep
  begun_whole : store.get begun = some (.package whole)
  begun_confirmed : required ≤ confirmedBy whole manifest
  begun_managed : (managedContents whole manifest).isSome = true
  shrinks : Shrinks part whole
  change_whole : change (.package whole) = .package part

namespace CutShort

variable {store : Store} {keep required : Nat} (c : CutShort store keep required)

/-- What the run leaves. -/
def left : Store := (store.eraseAll c.done).modify c.begun c.change

theorem begun_read : isBackupId c.begun = true ∧ readManifest c.whole = .ok c.manifest := by
  have hmem := (perm_ordered store).mem_iff.mp (List.mem_of_mem_drop c.begun_row)
  obtain ⟨p, hp, hid, hread⟩ := Iff.mp mem_readable hmem
  have hget : store.get c.begun = some (.package p) := Dir.get_of_mem hp
  rw [c.begun_whole] at hget
  rw [Item.package.inj (Option.some.inj hget)]
  exact ⟨hid, hread⟩

theorem begun_gone : c.begun ∈ gone store keep required := by
  obtain ⟨targets, htargets⟩ := Option.isSome_iff_exists.mp c.begun_managed
  refine Iff.mpr mem_gone ⟨c.accepted, _, c.begun_row, rfl, Option.isSome_iff_exists.mpr ?_⟩
  exact ⟨_, Iff.mpr goes_eq_some_iff
    ⟨c.whole, targets, c.begun_whole, c.begun_confirmed, htargets, rfl⟩⟩

/-- The manifest of the begun package is there, or gone. -/
theorem readManifest_part :
    readManifest c.part = .ok c.manifest ∨ readManifest c.part = .error .package := by
  rw [← c.begun_read.2]
  exact c.shrinks.readManifest

/-- The entries that are left. -/
theorem mem_left {e : Str × Item} :
    e ∈ c.left.entries ↔ (e ∈ store.entries ∧ e.1 ∉ c.done ∧ e.1 ≠ c.begun) ∨
      (e = (c.begun, .package c.part) ∧ c.begun ∉ c.done) := by
  obtain ⟨name, item⟩ := e
  rw [left, Dir.mem_modify]
  simp only [Dir.mem_eraseAll]
  constructor
  · rintro ⟨a, ⟨hmem, hdone⟩, hitem⟩
    by_cases hname : name = c.begun
    · subst hname
      have ha : a = .package c.whole :=
        Option.some.inj ((Dir.get_of_mem hmem).symm.trans c.begun_whole)
      rw [if_pos rfl, ha, c.change_whole] at hitem
      exact Or.inr ⟨by rw [hitem], hdone⟩
    · rw [if_neg hname] at hitem
      exact Or.inl ⟨hitem ▸ hmem, hdone, hname⟩
  · rintro (⟨hmem, hdone, hname⟩ | ⟨heq, hdone⟩)
    · exact ⟨item, ⟨hmem, hdone⟩, (if_neg hname).symm⟩
    · obtain ⟨rfl, rfl⟩ := Prod.mk.inj heq
      refine ⟨.package c.whole, ⟨Dir.mem_of_get c.begun_whole, hdone⟩, ?_⟩
      rw [if_pos rfl, c.change_whole]

/-- What is left raises nothing. -/
theorem accepted_left : refused c.left keep required = false := by
  have haccepted := c.accepted
  simp only [refused, Bool.or_eq_false_iff, List.any_eq_false] at haccepted ⊢
  refine ⟨haccepted.1, fun e he => ?_⟩
  rcases c.mem_left.mp he with ⟨hstore, -, -⟩ | ⟨rfl, -⟩
  · exact haccepted.2 e hstore
  · have hwhole := haccepted.2 _ (Dir.mem_of_get c.begun_whole)
    simp only [Item.raises, c.begun_read.1, c.begun_read.2] at hwhole
    simp only [Item.raises, c.begun_read.1]
    rcases c.readManifest_part with hread | hread
    · cases hpeers : readConfirmations c.whole c.manifest with
      | error refusal => simp [hpeers, Except.toOption] at hwhole
      | ok peers =>
        obtain ⟨fewer, hfewer⟩ := c.shrinks.readConfirmations hpeers
        simp [hread, hfewer, Except.toOption]
    · simp [hread]

/-- The rows that are read of what is left. -/
def leaves (row : Str × Manifest) : Bool :=
  row.1 ∉ c.done && (row.1 ≠ c.begun || (readManifest c.part).toOption.isSome)

/-- What is read of an entry of what is left. -/
theorem readRow_left {name : Str} {item : Item} (hmem : (name, item) ∈ store.entries) :
    (if name ∉ c.done then readRow (name, if name = c.begun then c.change item else item) else none)
      = (readRow (name, item)).filter c.leaves := by
  by_cases hname : name = c.begun
  · subst hname
    have hitem : item = .package c.whole :=
      Option.some.inj ((Dir.get_of_mem hmem).symm.trans c.begun_whole)
    have hrow : readRow (c.begun, .package c.whole) = some (c.begun, c.manifest) :=
      readRow_eq_some_iff.mpr ⟨c.whole, rfl, c.begun_read⟩
    rw [hitem, hrow, if_pos rfl, c.change_whole]
    by_cases hdone : c.begun ∈ c.done
    · simp [Option.filter_some, leaves, hdone]
    · rcases c.readManifest_part with hread | hread
      · have hpart : readRow (c.begun, .package c.part) = some (c.begun, c.manifest) :=
          readRow_eq_some_iff.mpr ⟨c.part, rfl, c.begun_read.1, hread⟩
        simp [Option.filter_some, leaves, hdone, hread, hpart, Except.toOption]
      · simp [Option.filter_some, leaves, hdone, hread, readRow, readItem, c.begun_read.1,
          Except.toOption, Except.map]
  · rw [if_neg hname]
    cases hrow : readRow (name, item) with
    | none => simp
    | some row =>
      obtain ⟨p, heq, -⟩ := readRow_eq_some_iff.mp hrow
      obtain ⟨rfl, -⟩ := Prod.mk.inj heq
      by_cases hdone : row.1 ∈ c.done
      · simp [Option.filter_some, leaves, hdone]
      · simp [Option.filter_some, leaves, hdone, hname]

theorem readable_left : readable c.left = (readable store).filter c.leaves := by
  rw [left, readable, readable, List.filter_filterMap]
  simp only [Dir.modify, Dir.eraseAll, List.filterMap_map, List.filterMap_filter]
  refine List.filterMap_congr fun e he => ?_
  rw [← c.readRow_left he]
  by_cases hdone : e.1 ∈ c.done
  · simp [hdone]
  · by_cases hbegun : e.1 = c.begun
    · simp [hbegun]
    · simp [hdone, hbegun]

/-- The rows of what is left, in the order they had. -/
theorem ordered_left : ordered c.left = (ordered store).filter c.leaves := by
  rw [ordered, ordered, c.readable_left, filter_insertionSort]

theorem leaves_of_take {row : Str × Manifest} (h : row ∈ (ordered store).take keep) :
    row.1 ∉ c.done ∧ row.1 ≠ c.begun := by
  refine ⟨fun hmem => ?_, fst_ne_of_take h c.begun_row⟩
  obtain ⟨-, row', hrow', hname, -⟩ := mem_gone.mp (c.done_gone _ hmem)
  exact fst_ne_of_take h hrow' hname.symm

/-- The newest stay the newest. -/
theorem drop_ordered_left :
    (ordered c.left).drop keep = ((ordered store).drop keep).filter c.leaves := by
  rw [c.ordered_left]
  refine drop_filter_of_take fun row hrow => ?_
  obtain ⟨hdone, hbegun⟩ := c.leaves_of_take hrow
  simp [leaves, hdone, hbegun]

/-- The begun package is still read, and still confirmed. -/
def Resumable : Prop :=
  ∃ m, readManifest c.part = .ok m ∧ required ≤ confirmedBy c.part m

theorem get_left_of_ne {name : Str} (hdone : name ∉ c.done) (hbegun : name ≠ c.begun) :
    c.left.get name = store.get name := by
  rw [left, Dir.get_modify, Dir.get_eraseAll hdone]
  simp [hbegun]

theorem get_left_begun (hdone : c.begun ∉ c.done) :
    c.left.get c.begun = some (.package c.part) := by
  rw [left, Dir.get_modify, Dir.get_eraseAll hdone, c.begun_whole]
  simp [c.change_whole]

/-- The row of the begun package. -/
theorem eq_of_begun {row : Str × Manifest} (hrow : row ∈ ordered store) (h : row.1 = c.begun) :
    row = (c.begun, c.manifest) :=
  List.inj_on_of_nodup_map (nodup_ordered store) hrow (List.mem_of_mem_drop c.begun_row) h

theorem goes_left_of_ne {row : Str × Manifest} (hdone : row.1 ∉ c.done) (hbegun : row.1 ≠ c.begun) :
    goes c.left required row = goes store required row := by
  rw [goes, goes, c.get_left_of_ne hdone hbegun]

/-- The begun package goes in a second run when it can be resumed. -/
theorem goes_begun (hdone : c.begun ∉ c.done) :
    c.leaves (c.begun, c.manifest) = true ∧
        (goes c.left required (c.begun, c.manifest)).isSome = true ↔ c.Resumable := by
  have hleaves : c.leaves (c.begun, c.manifest) = (readManifest c.part).toOption.isSome := by
    simp [leaves, hdone]
  rw [hleaves]
  constructor
  · rintro ⟨hread, hgoes⟩
    obtain ⟨targets, hgoes⟩ := Option.isSome_iff_exists.mp hgoes
    obtain ⟨p, ts, hget, hconfirmed, -⟩ := goes_eq_some_iff.mp hgoes
    rw [c.get_left_begun hdone] at hget
    obtain rfl := Item.package.inj (Option.some.inj hget)
    rcases c.readManifest_part with hpart | hpart
    · exact ⟨c.manifest, hpart, hconfirmed⟩
    · rw [hpart] at hread
      cases hread
  · rintro ⟨m, hread, hconfirmed⟩
    rcases c.readManifest_part with hpart | hpart
    · obtain rfl := Except.ok.inj (hread.symm.trans hpart)
      obtain ⟨targets, htargets⟩ :=
        Option.isSome_iff_exists.mp (c.shrinks.managedContents c.begun_managed)
      have hgoes : goes c.left required (c.begun, c.manifest) = some (c.begun, targets) :=
        goes_eq_some_iff.mpr
          ⟨c.part, targets, c.get_left_begun hdone, hconfirmed, htargets, rfl⟩
      exact ⟨by rw [hread]; rfl, by rw [hgoes]; rfl⟩
    · rw [hpart] at hread
      cases hread

/-- What a second run removes. -/
theorem mem_gone_left {name : Str} :
    name ∈ gone c.left keep required ↔ name ∈ gone store keep required ∧ name ∉ c.done ∧
      (name = c.begun → c.Resumable) := by
  rw [mem_gone, mem_gone, c.drop_ordered_left]
  constructor
  · rintro ⟨-, row, hrow, rfl, hgoes⟩
    obtain ⟨hrow, hleaves⟩ := List.mem_filter.mp hrow
    have hdone : row.1 ∉ c.done := by
      simp only [leaves, Bool.and_eq_true, decide_eq_true_eq] at hleaves
      exact hleaves.1
    by_cases hbegun : row.1 = c.begun
    · obtain rfl := c.eq_of_begun (List.mem_of_mem_drop hrow) hbegun
      exact ⟨mem_gone.mp c.begun_gone, hdone, fun _ => (c.goes_begun hdone).mp ⟨hleaves, hgoes⟩⟩
    · rw [c.goes_left_of_ne hdone hbegun] at hgoes
      exact ⟨⟨c.accepted, row, hrow, rfl, hgoes⟩, hdone, fun h => absurd h hbegun⟩
  · rintro ⟨⟨-, row, hrow, rfl, hgoes⟩, hdone, hresume⟩
    refine ⟨c.accepted_left, row, ?_⟩
    by_cases hbegun : row.1 = c.begun
    · obtain rfl := c.eq_of_begun (List.mem_of_mem_drop hrow) hbegun
      obtain ⟨hleaves, hgoes⟩ := (c.goes_begun hdone).mpr (hresume rfl)
      exact ⟨List.mem_filter.mpr ⟨hrow, hleaves⟩, rfl, hgoes⟩
    · refine ⟨List.mem_filter.mpr ⟨hrow, ?_⟩, rfl, ?_⟩
      · simp [leaves, hdone, hbegun]
      · rwa [c.goes_left_of_ne hdone hbegun]

/-- A second run finishes what was begun exactly when the begun package can be resumed. -/
theorem prune_left_iff :
    prune c.left keep required = prune store keep required ↔ (c.begun ∉ c.done → c.Resumable) := by
  rw [prune_eq, prune_eq]
  constructor
  · intro heq hdone
    by_contra hstuck
    have hgone : c.begun ∉ gone c.left keep required := fun hmem =>
      hstuck ((c.mem_gone_left.mp hmem).2.2 rfl)
    have hsome := Dir.get_eraseAll hgone (d := c.left)
    rw [heq, Dir.get_eraseAll_of_mem c.begun_gone, c.get_left_begun hdone] at hsome
    cases hsome
  · intro hresume
    refine Dir.ext_mem fun e => ?_
    rw [Dir.mem_eraseAll, Dir.mem_eraseAll, c.mem_left, c.mem_gone_left]
    constructor
    · rintro ⟨⟨hmem, hdone, hbegun⟩ | ⟨rfl, hdone⟩, hgone⟩
      · exact ⟨hmem, fun h => hgone ⟨h, hdone, fun hname => absurd hname hbegun⟩⟩
      · exact absurd ⟨c.begun_gone, hdone, fun _ => hresume hdone⟩ hgone
    · rintro ⟨hmem, hgone⟩
      refine ⟨Or.inl ⟨hmem, fun h => hgone (c.done_gone _ h), fun hname => hgone ?_⟩,
        fun h => hgone h.1⟩
      rw [hname]
      exact c.begun_gone

end CutShort

/-- A run that is cut has done nothing, or it has removed packages and begun at most one. -/
theorem interrupted_eq (store : Store) (keep required cut : Nat) :
    interrupted store keep required cut = store ∨
      ∃ c : CutShort store keep required, interrupted store keep required cut = c.left := by
  have hrow : ∀ name ts, (name, ts) ∈ removed store keep required →
      refused store keep required = false ∧ ∃ p m, (name, m) ∈ (ordered store).drop keep ∧
        store.get name = some (.package p) ∧ required ≤ confirmedBy p m ∧
        (managedContents p m).isSome = true := by
    intro name ts hmem
    obtain ⟨haccepted, ⟨n, m⟩, hrow, rfl, hgoes⟩ := mem_gone.mp (List.mem_map_of_mem hmem)
    obtain ⟨targets, hgoes⟩ := Option.isSome_iff_exists.mp hgoes
    obtain ⟨p, ts, hget, hconfirmed, hmanaged, -⟩ := goes_eq_some_iff.mp hgoes
    exact ⟨haccepted, p, m, hrow, hget, hconfirmed, by rw [hmanaged]; rfl⟩
  rcases interrupted_cases store keep required cut with h | ⟨done, row, rest, targets, hrows, h⟩
  · cases hremoved : removed store keep required with
    | nil =>
      left
      rw [h, gone, hremoved]
      exact Dir.eraseAll_nil
    | cons row rows =>
      obtain ⟨haccepted, p, m, hmem, hget, hconfirmed, hmanaged⟩ :=
        hrow row.1 row.2 (by rw [hremoved]; exact List.mem_cons_self)
      exact Or.inr ⟨⟨gone store keep required, row.1, p, p, m, id, fun _ h => h, haccepted, hmem,
        hget, hconfirmed, hmanaged, Shrinks.refl p, rfl⟩, by rw [h, CutShort.left, Dir.modify_id]⟩
  · obtain ⟨haccepted, p, m, hmem, hget, hconfirmed, hmanaged⟩ :=
      hrow row.1 row.2 (by rw [hrows]; simp)
    obtain ⟨part, hpart, hshrinks⟩ := Shrinks.deleteAll targets (rfl : Item.package p = .package p)
    refine Or.inr ⟨⟨done.map Prod.fst, row.1, p, part, m,
      fun item => targets.foldl Item.delete item, fun name hname => ?_, haccepted, hmem, hget,
      hconfirmed, hmanaged, hshrinks, hpart⟩, h⟩
    rw [gone, hrows, List.map_append]
    exact List.mem_append_left _ hname

/-! ### Finishing what was begun -/

/-- A place in a package, or what is no package. -/
inductive Place where
  | item
  | entry (name : Str)
  | record (dir name : Str)

/-- A file stands there, or anything else that is no directory. -/
def Item.Holds : Item → Place → Prop
  | .other, .item => True
  | .package p, .entry name => ∃ e, p.get name = some e ∧ ∀ records, e ≠ .dir records
  | .package p, .record dir name =>
    ∃ records r, p.get dir = some (.dir records) ∧ records.get name = some r
  | _, _ => False

/-- The package can be read, and enough peers hold it. -/
def Eligible (required : Nat) (p : Package) : Prop :=
  ∃ m, readManifest p = .ok m ∧ required ≤ confirmedBy p m

/-- A file that was published with a package that enough peers hold, or one of its records. -/
def Item.Expendable (required : Nat) : Item → Place → Prop
  | .package p, .entry name =>
    ∃ m, readManifest p = .ok m ∧ required ≤ confirmedBy p m ∧ name ∈ expected m ∧
      ∃ content, p.get name = some (.file content)
  | .package p, .record dir name =>
    Eligible required p ∧ dir = confirmations ∧ isOwnName name = true ∧
      ∃ records content, p.get dir = some (.dir records) ∧
        records.get name = some (.file content)
  | _, _ => False

/-- The newest packages are as they were. -/
def NewestUntouched (store left : Store) (keep : Nat) : Prop :=
  ∀ row ∈ (ordered store).take keep, left.get row.1 = store.get row.1

/-- Nothing is lost but what may go. -/
def OnlyExpendableLost (store left : Store) (required : Nat) : Prop :=
  ∀ name item place, store.get name = some item → item.Holds place →
    (∃ item', left.get name = some item' ∧ item'.Holds place) ∨ item.Expendable required place

/-- A prune that is cut can be finished: by the same prune, and nothing else was lost. -/
structure Finishable (store : Store) (keep required cut : Nat) : Prop where
  newest : NewestUntouched store (interrupted store keep required cut) keep
  lost : OnlyExpendableLost store (interrupted store keep required cut) required
  again : prune (interrupted store keep required cut) keep required = prune store keep required

/-- Packages that could go and are still there can still go. -/
def StillEligible (store left : Store) (required : Nat) : Prop :=
  ∀ name p q, store.get name = some (.package p) → left.get name = some (.package q) →
    Eligible required p → Eligible required q

/-- All of a package that goes may go. -/
theorem expendable_of_managed {p : Package} {m : Manifest} {required : Nat} {place : Place}
    (hread : readManifest p = .ok m) (hconfirmed : required ≤ confirmedBy p m)
    (hmanaged : (managedContents p m).isSome = true) (h : (Item.package p).Holds place) :
    (Item.package p).Expendable required place := by
  rw [managedContents, Option.isSome_map, isSome_mapM_iff] at hmanaged
  cases place with
  | item => exact h.elim
  | entry name =>
    obtain ⟨e, hget, hdir⟩ := h
    have htargets := hmanaged _ (Dir.mem_of_get hget)
    refine ⟨m, hread, hconfirmed, ?_⟩
    cases e with
    | file content =>
      rw [entryTargets] at htargets
      split at htargets
      · rename_i hexpected
        exact ⟨hexpected, content, hget⟩
      · cases htargets
    | dir records => exact absurd rfl (hdir records)
    | link target => cases htargets
    | other => cases htargets
  | record dir name =>
    obtain ⟨records, r, hget, hrecord⟩ := h
    have htargets := hmanaged _ (Dir.mem_of_get hget)
    rw [entryTargets] at htargets
    split at htargets
    · rename_i hown
      have hr := List.all_eq_true.mp hown.2 _ (Dir.mem_of_get hrecord)
      cases r with
      | file content =>
        exact ⟨⟨m, hread, hconfirmed⟩, hown.1, hr, records, content, hget, hrecord⟩
      | other => cases hr
    · cases htargets

namespace CutShort

variable {store : Store} {keep required : Nat} (c : CutShort store keep required)

theorem newestUntouched : NewestUntouched store c.left keep := by
  intro row hrow
  obtain ⟨hdone, hbegun⟩ := c.leaves_of_take hrow
  exact c.get_left_of_ne hdone hbegun

theorem onlyExpendableLost : OnlyExpendableLost store c.left required := by
  intro name item place hget hholds
  by_cases hgone : name ∈ gone store keep required
  · right
    obtain ⟨-, ⟨n, m⟩, hrow, rfl, hgoes⟩ := mem_gone.mp hgone
    obtain ⟨targets, hgoes⟩ := Option.isSome_iff_exists.mp hgoes
    obtain ⟨p, ts, hp, hconfirmed, hmanaged, -⟩ := goes_eq_some_iff.mp hgoes
    obtain rfl := Option.some.inj (hget.symm.trans hp)
    have hmem := (perm_ordered store).mem_iff.mp (List.mem_of_mem_drop hrow)
    obtain ⟨q, hq, -, hread⟩ := mem_readable.mp hmem
    obtain rfl := Item.package.inj (Option.some.inj (hget.symm.trans (Dir.get_of_mem hq)))
    exact expendable_of_managed hread hconfirmed (by rw [hmanaged]; rfl) hholds
  · left
    refine ⟨item, ?_, hholds⟩
    rw [c.get_left_of_ne (fun h => hgone (c.done_gone _ h)), hget]
    rintro rfl
    exact hgone c.begun_gone

theorem stillEligible_iff :
    StillEligible store c.left required ↔ (c.begun ∉ c.done → c.Resumable) := by
  constructor
  · intro h hdone
    exact h c.begun c.whole c.part c.begun_whole (c.get_left_begun hdone)
      ⟨c.manifest, c.begun_read.2, c.begun_confirmed⟩
  · intro hresume name p q hp hq heligible
    have hdone : name ∉ c.done := by
      intro hmem
      rcases c.mem_left.mp (Dir.mem_of_get hq) with ⟨-, hout, -⟩ | ⟨heq, hbegun⟩
      · exact hout hmem
      · obtain ⟨rfl, -⟩ := Prod.mk.inj heq
        exact hbegun hmem
    by_cases hbegun : name = c.begun
    · subst hbegun
      rw [c.get_left_begun hdone] at hq
      obtain rfl := Item.package.inj (Option.some.inj hq)
      exact hresume hdone
    · rw [c.get_left_of_ne hdone hbegun, hp] at hq
      obtain rfl := Item.package.inj (Option.some.inj hq)
      exact heligible

end CutShort

/-- A prune that is cut can be finished exactly when the package it had begun still has its manifest
and enough of its confirmations. -/
theorem finishable_iff_stillEligible (store : Store) (keep required cut : Nat) :
    Finishable store keep required cut ↔
      StillEligible store (interrupted store keep required cut) required := by
  rcases interrupted_eq store keep required cut with h | ⟨c, h⟩
  · rw [h]
    constructor
    · intro _ name p q hp hq heligible
      rw [hp] at hq
      obtain rfl := Item.package.inj (Option.some.inj hq)
      exact heligible
    · intro _
      refine ⟨?_, ?_, by rw [h]⟩
      · exact fun row _ => by rw [h]
      · exact fun name item place hget hholds => Or.inl ⟨item, by rw [h, hget], hholds⟩
  · rw [h, c.stillEligible_iff, ← c.prune_left_iff]
    constructor
    · intro hfinish
      rw [← h]
      exact hfinish.again
    · intro hagain
      exact ⟨by rw [h]; exact c.newestUntouched, by rw [h]; exact c.onlyExpendableLost,
        by rw [h]; exact hagain⟩

section Witness

/-- A package as `build` publishes it, with the confirmation of one peer. -/
def confirmedPackage (id created : String) : Package where
  entries := [
    (checksumName, .file .unreadable),
    (confirmations, .dir {
      entries := [(Str.ofString "nas.json", .file (.json (.obj [
        (Str.ofString "peer", .str (Str.ofString "nas")),
        (Str.ofString "sha256", .str (Str.ofString "ab")),
        (Str.ofString "backup_id", .str (Str.ofString id))])))]
      sorted := List.pairwise_singleton _ _ }),
    (manifestName, .file (.json (.obj [
      (Str.ofString "manifest_version", .int 1),
      (Str.ofString "backup_id", .str (Str.ofString id)),
      (Str.ofString "created_at", .str (Str.ofString created)),
      (Str.ofString "stored_object", .str (Str.ofString "rp.tar.zst.gpg")),
      (Str.ofString "components", .arr []),
      (Str.ofString "archive", .obj [(Str.ofString "sha256", .str (Str.ofString "cd"))]),
      (Str.ofString "encryption", .obj [(Str.ofString "sha256", .str (Str.ofString "ab")),
        (Str.ofString "bytes", .int 4096)])]))),
    (Str.ofString "rp.tar.zst.gpg", .file .undecodable)]
  sorted := by
    simp only [List.map_cons, List.map_nil]
    decide

/-- Two packages, both confirmed. -/
def twoPackages : Store where
  entries := [
    (Str.ofString "rp-20260101T000000Z-0000000a",
      .package (confirmedPackage "rp-20260101T000000Z-0000000a" "2026-01-01")),
    (Str.ofString "rp-20260201T000000Z-0000000b",
      .package (confirmedPackage "rp-20260201T000000Z-0000000b" "2026-02-01"))]
  sorted := by decide

/-- The older package lost its confirmations, so it stays, and its object with it. -/
theorem not_finishable_without_confirmations : ¬ Finishable twoPackages 1 1 3 := by
  intro h
  have hagain := congrArg (fun store : Store =>
    (store.get (Str.ofString "rp-20260101T000000Z-0000000a")).isSome) h.again
  revert hagain
  decide +kernel

end Witness

end RiskOps.Telemetry.Prune
