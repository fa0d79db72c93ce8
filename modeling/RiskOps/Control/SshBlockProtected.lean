import RiskOps.Control.SshBlockReplies

/-!
# RiskOps.Control.SshBlockProtected — a protected address is never blocked

**Every batch, every save and every verified readback respects the protected networks
of its own call.** The networks may differ from call to call; what makes the result
hold on every path (first execution, replay, restore, carried-over blocks) is that
each call starts from `Store.desired`, which drops what is protected now, and adds at
most one block that it has checked itself (`intent_unprotected`).

An `ok` answer to a request whose receipt is already settled performs no readback; it
reports the sets as it finds them.
-/

namespace RiskOps.Control

open RiskOps.Lib

/-- No block of the table is on a protected address. -/
def Unprotected (networks : List Network) (blocks : Table Block.key) : Prop :=
  ∀ b ∈ blocks, protectedIp b.key.ip networks = false

theorem desired_unprotected (store : Store) (now : ℚ) (networks : List Network) :
    Unprotected networks (store.desired now networks) :=
  fun _ hb => (mem_desired.mp hb).2.2

/-! ### What a batch installs -/

/-- The elements of a block set as installed by a batch that runs at `at_`. -/
def installedElements (desired : Table Block.key) (now at_ : ℚ) (channel : Channel)
    (version : Version) : List (HostIp × Option ℚ) :=
  (elementsOf desired now channel version).map fun e => (e.ip, e.timeout.map fun t => at_ + (t : ℚ))

/-- One block set replaced. -/
def Installed.setBlock (sets : Installed) (channel : Channel) (version : Version)
    (elements : List (HostIp × Option ℚ)) : Installed :=
  { sets with block := fun c v => if c = channel ∧ v = version then elements else sets.block c v }

/-- One allow set replaced. -/
def Installed.setAllow (sets : Installed) (version : Version) (networks : List Network) : Installed :=
  { sets with allow := fun v => if v = version then networks else sets.allow v }

variable {flushed : Bool} {at_ : ℚ} {channel : Channel} {sets : Installed}

theorem run_blockCommands {desired : Table Block.key} {now : ℚ} {version : Version}
    (h : flushed = true ∨ sets.block channel version = []) :
    (blockCommands flushed desired now version channel).foldl (runNft at_) (some sets)
      = some (sets.setBlock channel version (installedElements desired now at_ channel version)) := by
  have hflush : (if flushed then [NftCommand.flush (.block channel version)] else []).foldl
      (runNft at_) (some sets) = some (sets.setBlock channel version []) := by
    cases flushed with
    | true => rfl
    | false =>
      refine congrArg some (Installed.ext rfl ?_)
      funext c v
      by_cases hcv : c = channel ∧ v = version
      · obtain ⟨rfl, rfl⟩ := hcv
        simpa [Installed.setBlock] using h.resolve_left (by simp)
      · simp [Installed.setBlock, hcv]
  rw [blockCommands, List.foldl_append, hflush]
  by_cases he : elementsOf desired now channel version = []
  · simp [he, installedElements]
  · rw [if_neg he]
    refine congrArg some (Installed.ext rfl ?_)
    funext c v
    by_cases hcv : c = channel ∧ v = version
    · simp [hcv, Installed.setBlock, installedElements]
    · simp [hcv, Installed.setBlock]

variable {networks : List Network}

theorem run_allowCommands {version : Version} (h : flushed = true ∨ sets.allow version = []) :
    ((if flushed then [NftCommand.flush (.allow version)] else [])
        ++ (if networks = [] then [] else [NftCommand.addNetworks version networks])).foldl
        (runNft at_) (some sets)
      = some (sets.setAllow version networks) := by
  have hflush : (if flushed then [NftCommand.flush (.allow version)] else []).foldl
      (runNft at_) (some sets) = some (sets.setAllow version []) := by
    cases flushed with
    | true => rfl
    | false =>
      refine congrArg some (Installed.ext ?_ rfl)
      funext v
      by_cases hv : v = version
      · subst hv
        simpa [Installed.setAllow] using h.resolve_left (by simp)
      · simp [Installed.setAllow, hv]
  rw [List.foldl_append, hflush]
  by_cases he : networks = []
  · simp [he]
  · rw [if_neg he]
    refine congrArg some (Installed.ext ?_ rfl)
    funext v
    by_cases hv : v = version
    · simp [hv, Installed.setAllow]
    · simp [hv, Installed.setAllow]

/-- The commands for one version set its allow set and all its block sets. -/
theorem run_versionCommands {desired : Table Block.key} {now : ℚ} {version : Version}
    (h : flushed = true ∨ sets.allow version = [] ∧ ∀ c, sets.block c version = []) :
    (versionCommands flushed networks desired now version).foldl (runNft at_) (some sets)
      = some
          { allow := fun v =>
              if v = version then networks.filter (netVersion · = version) else sets.allow v
            block := fun c v =>
              if v = version then installedElements desired now at_ c version
              else sets.block c v } := by
  unfold versionCommands
  rw [List.foldl_append, run_allowCommands (h.imp_right And.left)]
  simp only [channels, List.flatMap_cons, List.flatMap_nil, List.append_nil, List.foldl_append]
  rw [run_blockCommands (by exact h.imp_right fun h => h.2 .ssh),
    run_blockCommands (by exact h.imp_right fun h => h.2 .tcp),
    run_blockCommands (by exact h.imp_right fun h => h.2 .udp)]
  refine congrArg some (Installed.ext rfl ?_)
  funext c v
  by_cases hv : v = version
  · cases c <;> simp [Installed.setBlock, hv]
  · simp [Installed.setBlock, Installed.setAllow, hv]

/-- **What `Firewall.apply` installs**: the given networks and the given blocks, whatever
the sets held before. -/
theorem run_applyBatch {config : Config} {desired : Table Block.key} {present : Bool} {now : ℚ}
    {table : Option Installed} (h : table.isSome = present) :
    (applyBatch config networks desired present now).foldl (runNft at_) table
      = some
          { allow := fun v => networks.filter (netVersion · = v)
            block := fun c v => installedElements desired now at_ c v } := by
  have hcreated : (if present then [] else createCommands config).foldl (runNft at_) table
      = some (table.getD ⟨fun _ => [], fun _ _ => []⟩) := by
    cases table with
    | none =>
      obtain rfl : present = false := by simpa using h.symm
      have hrules : ∀ (rules : List Rule) (sets : Installed),
          (rules.map NftCommand.addRule).foldl (runNft at_) (some sets) = some sets := by
        intro rules
        induction rules with
        | nil => intro sets; rfl
        | cons rule rules ih => intro sets; exact ih sets
      simp only [Bool.false_eq_true, if_false, createCommands, List.foldl_append]
      exact hrules _ _
    | some sets =>
      obtain rfl : present = true := by simpa using h.symm
      rfl
  have hempty : ∀ v, present = true ∨
      (table.getD ⟨fun _ => [], fun _ _ => []⟩).allow v = [] ∧
        ∀ c, (table.getD ⟨fun _ => [], fun _ _ => []⟩).block c v = [] := by
    intro v
    cases table with
    | none => exact Or.inr ⟨rfl, fun _ => rfl⟩
    | some sets => exact Or.inl (by simpa using h.symm)
  unfold applyBatch
  rw [List.foldl_append, hcreated]
  simp only [versions, List.flatMap_cons, List.flatMap_nil, List.append_nil, List.foldl_append]
  rw [run_versionCommands (hempty .four),
    run_versionCommands ((hempty .six).imp_right fun h => by simpa using h)]
  refine congrArg some (Installed.ext ?_ ?_)
  · funext v
    cases v <;> simp
  · funext c v
    cases v <;> simp

/-! ### What a call sends, saves and reads back -/

section Calls

variable (sha256 : List Char → List Char) (collapse : List Network → List Network)
variable (config : Config)

/-- The writes and the readback of a call, each with the networks of the call. -/
inductive Event where
  | saved (networks : List Network) (blocks : Table Block.key)
  | sent (networks : List Network) (present : Bool) (batch : List NftCommand)
  | read (networks : List Network) (status : Status) (blocks : Except Code (List (Key × Option ℚ)))

/-- What a call does on its way, in order. -/
def emit (w : World) (call : Call) : List Event :=
  match prepare sha256 config w call with
  | .error _ => []
  | .ok intent =>
    .saved call.networks intent.desired ::
      if call.crash = some .beforeApply then []
      else .sent call.networks call.read.present (callBatch config intent call) ::
        if call.crash = some .afterApply then []
        else
          [.read call.networks (settle collapse intent call).2.status
              (call.readback.blocks call.readNow),
            .saved call.networks (settle collapse intent call).1]

/-- No protected address is added to a block set, and the table the batch leaves has
exactly the networks in its allow sets and no protected address in its block sets. -/
structure SafeBatch (networks : List Network) (present : Bool) (batch : List NftCommand) : Prop where
  elements : ∀ channel version elements, .addElements channel version elements ∈ batch →
    ∀ e ∈ elements, protectedIp e.ip networks = false
  installs : ∀ (at_ : ℚ) (table : Option Installed), table.isSome = present →
    ∃ sets, batch.foldl (runNft at_) table = some sets ∧
      (∀ version, sets.allow version = networks.filter (netVersion · = version)) ∧
      ∀ channel version, ∀ e ∈ sets.block channel version, protectedIp e.1 networks = false

/-- The event respects the networks of its call. -/
def Event.Safe : Event → Prop
  | .saved networks blocks => Unprotected networks blocks
  | .sent networks present batch => SafeBatch networks present batch
  | .read networks status blocks => status = .ok →
      ∃ actual, blocks = .ok actual ∧ ∀ a ∈ actual, protectedIp a.1.ip networks = false

/-- Every event of a run respects the networks of its call. -/
def AllSafe (log : List Event) : Prop := ∀ e ∈ log, e.Safe

/-- The intent of a call blocks no address its networks protect. -/
theorem intent_unprotected {w : World} {call : Call} {intent : Intent}
    (h : prepare sha256 config w call = .ok intent) :
    Unprotected call.networks intent.previous ∧ Unprotected call.networks intent.desired := by
  obtain ⟨-, hprev, -, hmode⟩ := prepare_ok sha256 config h
  have hp : Unprotected call.networks intent.previous := hprev ▸ desired_unprotected _ _ _
  refine ⟨hp, ?_⟩
  cases hmode with
  | restore _ _ hdesired => exact hdesired ▸ hp
  | replay _ _ _ _ _ hdesired => exact hdesired ▸ hp
  | first hwrites _ hallowed hdesired =>
    rw [hdesired]
    intro b hb
    cases haction : intent.request.action with
    | add key expiresAt ttl =>
      rw [haction] at hb hallowed
      rcases mem_replace hb with hb | rfl
      · exact hp b hb
      · by_contra hprotected
        have hprotected : protectedIp key.ip call.networks = true := by simpa using hprotected
        simp [refusal, hprotected] at hallowed
    | delete key =>
      rw [haction] at hb
      exact hp b (Table.mem_delete.mp hb).1
    | status ip channel => simp [haction, Action.writes] at hwrites
    | check ip channel => simp [haction, Action.writes] at hwrites

theorem elementsOf_unprotected {desired : Table Block.key} {now : ℚ} {version : Version}
    (h : Unprotected networks desired) :
    ∀ e ∈ elementsOf desired now channel version, protectedIp e.ip networks = false := by
  intro e he
  obtain ⟨b, hb, hsome⟩ := List.mem_filterMap.mp he
  have hip : e.ip = b.key.ip := by
    repeat' split at hsome
    all_goals simp_all
    all_goals rw [← hsome]
  rw [hip]
  exact h b hb

/-- The commands of a batch that add block elements. -/
theorem addElements_mem {desired : Table Block.key} {present : Bool} {now : ℚ} {version : Version}
    {elements : List Element}
    (h : .addElements channel version elements ∈ applyBatch config networks desired present now) :
    elements = elementsOf desired now channel version := by
  have hcreate : ∀ c ∈ (if present then [] else createCommands config),
      c ≠ .addElements channel version elements := by
    intro c hc
    cases present with
    | true => simp at hc
    | false =>
      simp only [Bool.false_eq_true, if_false, createCommands, versions, channels] at hc
      rintro rfl
      simp at hc
  rcases List.mem_append.mp h with h | h
  · exact absurd rfl (hcreate _ h)
  obtain ⟨v, -, h⟩ := List.mem_flatMap.mp h
  rcases List.mem_append.mp h with h | h
  · rcases List.mem_append.mp h with h | h
    · cases present <;> simp at h
    · split at h <;> simp at h
  obtain ⟨c, -, h⟩ := List.mem_flatMap.mp h
  rcases List.mem_append.mp h with h | h
  · cases present <;> simp at h
  · split at h
    · simp at h
    · rw [List.mem_singleton, NftCommand.addElements.injEq] at h
      obtain ⟨rfl, rfl, h⟩ := h
      exact h

theorem safeBatch {desired : Table Block.key} {present : Bool} {now : ℚ}
    (h : Unprotected networks desired) :
    SafeBatch networks present (applyBatch config networks desired present now) where
  elements channel version elements hmem := by
    rw [addElements_mem config hmem]
    exact elementsOf_unprotected h
  installs at_ table htable := by
    refine ⟨_, run_applyBatch htable, fun _ => rfl, ?_⟩
    intro channel version e he
    obtain ⟨element, hmem, rfl⟩ := List.mem_map.mp he
    exact elementsOf_unprotected h element hmem

/-- A verified readback shows only blocks that were asked for. -/
theorem mem_desired_of_batchAnswer {intent : Intent} {call : Call} {actual : List (Key × Option ℚ)}
    (h : batchAnswer collapse intent call = .ok actual) :
    call.readback.blocks call.readNow = .ok actual ∧
      ∀ a ∈ actual, ∃ b ∈ intent.desired, b.key = a.1 := by
  unfold batchAnswer at h
  split at h
  · simp at h
  unfold verify at h
  split at h
  · simp at h
  · simp at h
  rename_i listing hreadback
  rw [hreadback]
  split at h
  · simp at h
  split at h
  · simp at h
  rename_i listed hlisted
  split at h
  · rename_i hverified
    obtain rfl := Except.ok.inj h
    refine ⟨hlisted, fun a ha => ?_⟩
    simp only [blocksVerified, Bool.and_eq_true, List.all_eq_true] at hverified
    obtain ⟨b, hb⟩ := Option.isSome_iff_exists.mp (hverified.1.1 a ha)
    exact ⟨b, Table.mem_of_find? hb, Table.find?_key hb⟩
  · simp at h

theorem emit_safe (w : World) (call : Call) : AllSafe (emit sha256 collapse config w call) := by
  unfold emit
  cases hp : prepare sha256 config w call with
  | error outcome => simp [AllSafe]
  | ok intent =>
    obtain ⟨hprev, hdesired⟩ := intent_unprotected sha256 config hp
    have hread : (Event.read call.networks (settle collapse intent call).2.status
        (call.readback.blocks call.readNow)).Safe := by
      intro hok
      rcases settle_cases collapse intent call with
        ⟨-, code, hs⟩ | ⟨-, r, hs, -, hr | ⟨-, actual, hans⟩⟩
      · rw [hs] at hok
        simp [reply] at hok
      · rw [hs] at hok
        simp [hr] at hok
      · obtain ⟨hblocks, hkeys⟩ := mem_desired_of_batchAnswer collapse hans
        refine ⟨actual, hblocks, fun a ha => ?_⟩
        obtain ⟨b, hb, hkey⟩ := hkeys a ha
        rw [← hkey]
        exact hdesired b hb
    have hfinal : Unprotected call.networks (settle collapse intent call).1 := by
      rcases settle_cases collapse intent call with ⟨-, code, hs⟩ | ⟨-, r, hs, -⟩
      · rw [hs]; exact hprev
      · rw [hs]; exact hdesired
    have hbatch : SafeBatch call.networks call.read.present (callBatch config intent call) :=
      safeBatch config hdesired
    intro e he
    rcases List.mem_cons.mp he with rfl | he
    · exact hdesired
    split at he
    · simp at he
    rcases List.mem_cons.mp he with rfl | he
    · exact hbatch
    split at he
    · simp at he
    simp only [List.mem_cons, List.not_mem_nil, or_false] at he
    rcases he with rfl | rfl
    · exact hread
    · exact hfinal

/-- **A protected address is never blocked.** Along every run of requests, replays and
restores, from any world and with any networks in each call, every batch sent, every
save and every readback behind an `ok` respects the networks of its own call. -/
theorem protected_never_blocked (w : World) (calls : List Call) :
    AllSafe (trace (next sha256 collapse config) (emit sha256 collapse config) w calls) := by
  induction calls generalizing w with
  | nil => intro e he; simp [trace] at he
  | cons call calls ih =>
    intro e he
    rcases List.mem_append.mp he with he | he
    · exact emit_safe sha256 collapse config w call e he
    · exact ih (next sha256 collapse config w call) e he

end Calls

/-- The state a verified `add` of `203.0.113.9` leaves. -/
def addedWorld : World :=
  run (next requestDigest id webConfig) freshWorld [addCall .done (.table addedListing)]

/-- The same request again, delivered when `203.0.113.0/24` has become protected. -/
def protectedReplay : Call :=
  { addCall .done .absent with
    networks := [blockedNetwork]
    now := 1700000001
    read := .table addedListing }

/-- **A replay reports a protected address as blocked.** The answer is `ok`, from the
settled receipt, nothing is applied, and the sets it read hold the address. -/
theorem replay_reports_protected :
    protectedIp webKey.ip protectedReplay.networks = true ∧
      (execute requestDigest id webConfig addedWorld protectedReplay).2
        = .replied { reply (addRequest 1700003600) .ok .idempotentReplay with
            observed := some (.block true (some 1700003600) (some 3599))
            previousStatus := some .ok } ∧
      installedOn (execute requestDigest id webConfig addedWorld protectedReplay).1.firewall webKey
        = some (some 1700003600) := by
  refine ⟨?_, ?_, ?_⟩ <;> decide +kernel

end RiskOps.Control
