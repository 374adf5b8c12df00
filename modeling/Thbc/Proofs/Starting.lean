import Thbc.Bin.Environment

/-!
# What the service starts with

The variables of the environment are a small language: a mode, six numbers, two URLs and five
texts, each with a default or left out. `starts_exactly` says which environments the service
starts in and with what settings. A variable that is set is read as it stands or refused under
its own name; only one that is not set is replaced.
-/

namespace Thbc

open Thbc.Lib Thbc.Lib.MachineInt

/-- A configuration that `validate` has nothing against. -/
structure Config.Valid (config : Config) : Prop where
  delta : 0 < config.redemptionDeltaSecs
  ttl : 0 < config.attestationTtlSecs
  database : config.ledgerMode = .chainBridge → config.databaseUrl.isSome
  own : ∀ var url, (var, some url) ∈ config.databaseUrls → databaseName url ≠ "gridtokenx"

namespace Environment

/-- What the variables say, defaults included. -/
structure Says (env : Environment) (settings : Settings) : Prop where
  ledgerMode : env.Sets "THBC_LEDGER_MODE" LedgerMode.Spells .chainBridge settings.ledgerMode
  httpPort : env.Sets "THBC_HTTP_PORT" Counts 4008 settings.httpPort
  redemptionDeltaSecs :
    env.Sets "THBC_REDEMPTION_DELTA_SECS" Counts 86400 settings.redemptionDeltaSecs
  attestationTtlSecs :
    env.Sets "THBC_ATTESTATION_TTL_SECS" Counts 3600 settings.attestationTtlSecs
  simulatedReserveMinor :
    env.Sets "THBC_SIMULATED_RESERVE_MINOR" Counts 0 settings.simulatedReserveMinor
  reconcileIntervalSecs :
    env.Sets "THBC_RECONCILE_INTERVAL_SECS" Counts 3600 settings.reconcileIntervalSecs
  stubKycCeilingMinor :
    env.Sets "THBC_STUB_KYC_CEILING_MINOR" Counts 1000000000 settings.stubKycCeilingMinor
  databaseUrl : ∀ url, settings.databaseUrl = some url ↔ env databaseUrlVar = .ok url
  migrationDatabaseUrl :
    ∀ url, settings.migrationDatabaseUrl = some url ↔ env migrationDatabaseUrlVar = .ok url
  natsUrl : env.Sets "NATS_URL" Eq "nats://localhost:9001" settings.natsUrl
  chainBridgeGrpcUrl :
    env.Sets "CHAIN_BRIDGE_GRPC_URL" Eq "http://localhost:5001" settings.chainBridgeGrpcUrl
  treasuryPda :
    ∀ a, settings.treasuryPda = some a ↔ env "THBC_TREASURY_PDA" = .ok a ∧ a ≠ ""
  inventoryVault :
    ∀ a, settings.inventoryVault = some a ↔ env "THBC_INVENTORY_VAULT" = .ok a ∧ a ≠ ""
  serviceIdentity : env.Sets "THBC_SERVICE_IDENTITY" Eq
    "spiffe://gridtokenx.th/prod/thbc-service" settings.serviceIdentity

/-- A variable that the service does not start with. -/
inductive Fault (env : Environment) : String → Prop
  | mode {s} (hset : env "THBC_LEDGER_MODE" = .ok s)
      (h : ∀ mode, ¬ LedgerMode.Spells s mode) : Fault env "THBC_LEDGER_MODE"
  | port {s} (hset : env "THBC_HTTP_PORT" = .ok s) (h : ∀ n : UInt16, ¬ Counts s n) :
      Fault env "THBC_HTTP_PORT"
  | seconds {key s} (hkey : key ∈ ["THBC_REDEMPTION_DELTA_SECS", "THBC_ATTESTATION_TTL_SECS"])
      (hset : env key = .ok s) (h : ∀ n : Int64, Counts s n → n ≤ 0) : Fault env key
  | count {key s}
      (hkey : key ∈ ["THBC_SIMULATED_RESERVE_MINOR", "THBC_RECONCILE_INTERVAL_SECS",
        "THBC_STUB_KYC_CEILING_MINOR"])
      (hset : env key = .ok s) (h : ∀ n : UInt64, ¬ Counts s n) : Fault env key
  | missing (hmode : env.Sets "THBC_LEDGER_MODE" LedgerMode.Spells .chainBridge .chainBridge)
      (h : env.Unset databaseUrlVar) : Fault env databaseUrlVar
  | shared {key url} (hkey : key ∈ [databaseUrlVar, migrationDatabaseUrlVar])
      (hset : env key = .ok url) (h : databaseName url = "gridtokenx") : Fault env key

/-- The message of a refusal, under whatever context, names a variable. -/
def Blames (e : Anyhow) (key : String) : Prop := ∃ text, e.getLast? = some text ∧ Names text key

end Environment

namespace Config

variable {config : Config}

theorem refuseShared_of_spares {urls : List (String × Option String)}
    (h : ∀ var url, (var, some url) ∈ urls → databaseName url ≠ "gridtokenx") :
    refuseShared urls = .ok () := by
  cases hr : refuseShared urls with
  | ok u => rfl
  | error e =>
      obtain ⟨var, url, hmem, hname, -⟩ := refuseShared_error hr
      exact absurd hname (h var url hmem)

theorem validate_ok : config.validate = .ok () ↔ config.Valid := by
  rw [validate, guard_ok, guard_ok, guard_ok, Int64.not_le, Int64.not_le]
  constructor
  · rintro ⟨hdelta, httl, hdatabase, hshared⟩
    refine ⟨hdelta, httl, fun hmode => ?_, fun var url => refuseShared_ok hshared⟩
    cases hurl : config.databaseUrl with
    | some url => rfl
    | none => exact absurd ⟨hmode, by rw [hurl]; rfl⟩ hdatabase
  · intro h
    refine ⟨h.delta, h.ttl, fun hmissing => ?_, refuseShared_of_spares h.own⟩
    have hsome := h.database hmissing.1
    rw [Option.isSome_iff_ne_none] at hsome
    exact hsome (Option.isNone_iff_eq_none.mp hmissing.2)

/-- A refusal is about a variable, and names it. -/
theorem validate_error {text : String} (h : config.validate = .error text) :
    (config.redemptionDeltaSecs ≤ 0 ∧ Names text "THBC_REDEMPTION_DELTA_SECS") ∨
    (config.attestationTtlSecs ≤ 0 ∧ Names text "THBC_ATTESTATION_TTL_SECS") ∨
    (config.ledgerMode = .chainBridge ∧ config.databaseUrl = none ∧
      Names text databaseUrlVar) ∨
    ∃ var url, (var, some url) ∈ config.databaseUrls ∧ databaseName url = "gridtokenx" ∧
      Names text var := by
  unfold validate at h
  split at h
  · next hdelta =>
      obtain rfl := Except.error.inj h
      refine .inl ⟨hdelta, Names.append ?_ _⟩
      unfold Names
      decide
  · split at h
    · next httl =>
        obtain rfl := Except.error.inj h
        refine .inr (.inl ⟨httl, Names.append ?_ _⟩)
        unfold Names
        decide
    · split at h
      · next hmissing =>
          obtain rfl := Except.error.inj h
          exact .inr (.inr (.inl ⟨hmissing.1, Option.isNone_iff_eq_none.mp hmissing.2,
            ((names_append _ _).append _).append _⟩))
      · obtain ⟨var, url, hmem, hname, rfl⟩ := refuseShared_error h
        exact .inr (.inr (.inr ⟨var, url, hmem, hname,
          (((names_append _ _).append _).append _).append _⟩))

end Config

namespace Environment

variable {env : Environment} {settings : Settings} {e : Anyhow}

theorem Blames.of_names {text key : String} (h : Names text key) : Blames [text] key :=
  ⟨text, rfl, h⟩

theorem seconds_error {key : String} {default : Int64}
    (hkey : key ∈ ["THBC_REDEMPTION_DELTA_SECS", "THBC_ATTESTATION_TTL_SECS"])
    (h : env.varOr key default = .error e) : ∃ key, env.Fault key ∧ Blames e key := by
  obtain ⟨s, hset, hnone, text, rfl, hnames⟩ := varOr_error h
  exact ⟨key, .seconds hkey hset fun n hn => absurd hn (hnone n), .of_names hnames⟩

theorem count_error {key : String} {default : UInt64}
    (hkey : key ∈ ["THBC_SIMULATED_RESERVE_MINOR", "THBC_RECONCILE_INTERVAL_SECS",
      "THBC_STUB_KYC_CEILING_MINOR"])
    (h : env.varOr key default = .error e) : ∃ key, env.Fault key ∧ Blames e key := by
  obtain ⟨s, hset, hnone, text, rfl, hnames⟩ := varOr_error h
  exact ⟨key, .count hkey hset hnone, .of_names hnames⟩

/-- A number of seconds that is not positive was written so: the default is. -/
theorem seconds_nonpos {key : String} {default n : Int64}
    (hkey : key ∈ ["THBC_REDEMPTION_DELTA_SECS", "THBC_ATTESTATION_TTL_SECS"])
    (hsets : env.Sets key Counts default n) (hdefault : 0 < default) (hn : n ≤ 0) :
    env.Fault key := by
  obtain ⟨s, hset, hcounts⟩ | ⟨-, rfl⟩ := hsets
  · refine .seconds hkey hset fun m hm => ?_
    rwa [hm.unique hcounts]
  · exact absurd hdefault (Int64.not_lt.mpr hn)

/-- What is said and not valid is a fault of a variable. -/
theorem invalid_error {text : String} (h : env.Says settings)
    (hinvalid : settings.validate = .error text) : ∃ key, env.Fault key ∧ Names text key := by
  obtain ⟨hdelta, hnames⟩ | ⟨httl, hnames⟩ | ⟨hmode, hnone, hnames⟩ |
    ⟨var, url, hmem, hname, hnames⟩ := Config.validate_error hinvalid
  · exact ⟨_, seconds_nonpos List.mem_cons_self h.redemptionDeltaSecs (by decide) hdelta, hnames⟩
  · exact ⟨_, seconds_nonpos (List.mem_cons_of_mem _ List.mem_cons_self) h.attestationTtlSecs
      (by decide) httl, hnames⟩
  · refine ⟨_, .missing (hmode ▸ h.ledgerMode) fun url hurl => ?_, hnames⟩
    rw [(h.databaseUrl url).mpr hurl] at hnone
    cases hnone
  · refine ⟨var, ?_, hnames⟩
    obtain hmem | hmem := List.mem_cons.mp hmem
    · obtain ⟨rfl, hurl⟩ := Prod.mk.inj hmem
      exact .shared List.mem_cons_self ((h.databaseUrl url).mp hurl.symm) hname
    · obtain ⟨rfl, hurl⟩ := Prod.mk.inj (List.mem_singleton.mp hmem)
      exact .shared (List.mem_cons_of_mem _ List.mem_cons_self)
        ((h.migrationDatabaseUrl url).mp hurl.symm) hname

end Environment

namespace Settings

open Environment

variable [DebugStr] {env : Environment} {settings : Settings} {e : Anyhow}

theorem mode_ok {mode : LedgerMode} :
    LedgerMode.parse (env.getOr "THBC_LEDGER_MODE" "chain-bridge") = .ok mode ↔
      env.Sets "THBC_LEDGER_MODE" LedgerMode.Spells .chainBridge mode := by
  unfold getOr
  split
  · next s hs => rw [sets_of_ok hs, LedgerMode.parse_ok]
  · next he =>
      have hdefault : LedgerMode.parse "chain-bridge" = .ok .chainBridge :=
        LedgerMode.parse_ok.mpr (LedgerMode.spells_of_mem List.mem_cons_self)
      rw [sets_of_error he, hdefault, Except.ok.injEq, eq_comm]

/-- What is assembled of the readings is what the variables say. -/
theorem says_of_read {mode : LedgerMode} {port : UInt16} {delta ttl : Int64}
    {reserve interval ceiling : UInt64}
    (hmode : LedgerMode.parse (env.getOr "THBC_LEDGER_MODE" "chain-bridge") = .ok mode)
    (hport : env.varOr "THBC_HTTP_PORT" 4008 = .ok port)
    (hdelta : env.varOr "THBC_REDEMPTION_DELTA_SECS" 86400 = .ok delta)
    (httl : env.varOr "THBC_ATTESTATION_TTL_SECS" 3600 = .ok ttl)
    (hreserve : env.varOr "THBC_SIMULATED_RESERVE_MINOR" 0 = .ok reserve)
    (hinterval : env.varOr "THBC_RECONCILE_INTERVAL_SECS" 3600 = .ok interval)
    (hceiling : env.varOr "THBC_STUB_KYC_CEILING_MINOR" 1000000000 = .ok ceiling) :
    env.Says ⟨⟨(env databaseUrlVar).toOption, (env migrationDatabaseUrlVar).toOption, mode, delta,
      ttl⟩, port, env.getOr "NATS_URL" "nats://localhost:9001",
      env.getOr "CHAIN_BRIDGE_GRPC_URL" "http://localhost:5001",
      env.nonEmpty "THBC_TREASURY_PDA", env.nonEmpty "THBC_INVENTORY_VAULT",
      env.getOr "THBC_SERVICE_IDENTITY" "spiffe://gridtokenx.th/prod/thbc-service",
      reserve, interval, ceiling⟩ where
  ledgerMode := mode_ok.mp hmode
  httpPort := varOr_ok.mp hport
  redemptionDeltaSecs := varOr_ok.mp hdelta
  attestationTtlSecs := varOr_ok.mp httl
  simulatedReserveMinor := varOr_ok.mp hreserve
  reconcileIntervalSecs := varOr_ok.mp hinterval
  stubKycCeilingMinor := varOr_ok.mp hceiling
  databaseUrl := toOption_eq.mp rfl
  migrationDatabaseUrl := toOption_eq.mp rfl
  natsUrl := getOr_eq.mp rfl
  chainBridgeGrpcUrl := getOr_eq.mp rfl
  treasuryPda := nonEmpty_eq.mp rfl
  inventoryVault := nonEmpty_eq.mp rfl
  serviceIdentity := getOr_eq.mp rfl

/-- The service starts where its variables say something valid, and with that. -/
theorem fromEnv_ok : fromEnv env = .ok settings ↔ env.Says settings ∧ settings.Valid := by
  constructor
  · intro h
    obtain ⟨mode, hmode, h⟩ := bind_ok.mp h
    obtain ⟨port, hport, h⟩ := bind_ok.mp h
    obtain ⟨delta, hdelta, h⟩ := bind_ok.mp h
    obtain ⟨ttl, httl, h⟩ := bind_ok.mp h
    obtain ⟨reserve, hreserve, h⟩ := bind_ok.mp h
    obtain ⟨interval, hinterval, h⟩ := bind_ok.mp h
    obtain ⟨ceiling, hceiling, h⟩ := bind_ok.mp h
    obtain ⟨_, hvalid, h⟩ := bind_ok.mp h
    obtain rfl := Except.ok.inj h
    exact ⟨says_of_read hmode (mapError_ok.mp hport) hdelta httl hreserve hinterval hceiling,
      Config.validate_ok.mp (mapError_ok.mp hvalid)⟩
  · rintro ⟨h, hvalid⟩
    obtain ⟨⟨url, migration, mode, delta, ttl⟩, port, nats, grpc, treasury, vault, identity,
      reserve, interval, ceiling⟩ := settings
    obtain rfl := toOption_eq.mpr h.databaseUrl
    obtain rfl := toOption_eq.mpr h.migrationDatabaseUrl
    obtain rfl := getOr_eq.mpr h.natsUrl
    obtain rfl := getOr_eq.mpr h.chainBridgeGrpcUrl
    obtain rfl := nonEmpty_eq.mpr h.treasuryPda
    obtain rfl := nonEmpty_eq.mpr h.inventoryVault
    obtain rfl := getOr_eq.mpr h.serviceIdentity
    refine bind_ok.mpr ⟨mode, mode_ok.mpr h.ledgerMode, ?_⟩
    refine bind_ok.mpr ⟨port, mapError_ok.mpr (varOr_ok.mpr h.httpPort), ?_⟩
    refine bind_ok.mpr ⟨delta, varOr_ok.mpr h.redemptionDeltaSecs, ?_⟩
    refine bind_ok.mpr ⟨ttl, varOr_ok.mpr h.attestationTtlSecs, ?_⟩
    refine bind_ok.mpr ⟨reserve, varOr_ok.mpr h.simulatedReserveMinor, ?_⟩
    refine bind_ok.mpr ⟨interval, varOr_ok.mpr h.reconcileIntervalSecs, ?_⟩
    refine bind_ok.mpr ⟨ceiling, varOr_ok.mpr h.stubKycCeilingMinor, ?_⟩
    exact bind_ok.mpr ⟨(), mapError_ok.mpr (Config.validate_ok.mpr hvalid), rfl⟩

/-- Where it starts, no variable is at fault. -/
theorem not_fault (h : env.Says settings) (hvalid : settings.Valid) (key : String) :
    ¬ env.Fault key := by
  intro hfault
  cases hfault with
  | mode hset hnone => exact hnone _ ((sets_of_ok hset).mp h.ledgerMode)
  | port hset hnone => exact hnone _ ((sets_of_ok hset).mp h.httpPort)
  | seconds hkey hset hall =>
      obtain rfl | hkey := List.mem_cons.mp hkey
      · exact Int64.not_le.mpr hvalid.delta (hall _ ((sets_of_ok hset).mp h.redemptionDeltaSecs))
      · obtain rfl := List.mem_singleton.mp hkey
        exact Int64.not_le.mpr hvalid.ttl (hall _ ((sets_of_ok hset).mp h.attestationTtlSecs))
  | count hkey hset hnone =>
      obtain rfl | hkey := List.mem_cons.mp hkey
      · exact hnone _ ((sets_of_ok hset).mp h.simulatedReserveMinor)
      · obtain rfl | hkey := List.mem_cons.mp hkey
        · exact hnone _ ((sets_of_ok hset).mp h.reconcileIntervalSecs)
        · obtain rfl := List.mem_singleton.mp hkey
          exact hnone _ ((sets_of_ok hset).mp h.stubKycCeilingMinor)
  | missing hmode hunset =>
      have hbridge : settings.ledgerMode = .chainBridge := by
        have hread := mode_ok.mpr h.ledgerMode
        rw [mode_ok.mpr hmode] at hread
        exact (Except.ok.inj hread).symm
      obtain ⟨url, hurl⟩ := Option.isSome_iff_exists.mp (hvalid.database hbridge)
      exact hunset url ((h.databaseUrl url).mp hurl)
  | @shared key url hkey hset hname =>
      refine hvalid.own key url ?_ hname
      obtain rfl | hkey := List.mem_cons.mp hkey
      · rw [← (h.databaseUrl url).mpr hset]
        exact List.mem_cons_self
      · obtain rfl := List.mem_singleton.mp hkey
        rw [← (h.migrationDatabaseUrl url).mpr hset]
        exact List.mem_cons_of_mem _ List.mem_cons_self

theorem mode_error
    (h : LedgerMode.parse (env.getOr "THBC_LEDGER_MODE" "chain-bridge") = .error e) :
    ∃ key, env.Fault key ∧ Blames e key := by
  obtain ⟨hnone, text, rfl, hnames⟩ := LedgerMode.parse_error h
  refine ⟨_, ?_, .of_names hnames⟩
  unfold getOr at hnone
  split at hnone
  · next s hset => exact .mode hset hnone
  · exact absurd (LedgerMode.spells_of_mem List.mem_cons_self) (hnone .chainBridge)

/-- Where the service refuses to start, a variable is at fault, and the refusal names it. -/
theorem fromEnv_error (h : fromEnv env = .error e) : ∃ key, env.Fault key ∧ Blames e key := by
  obtain hmode | ⟨mode, hmode, h⟩ := bind_error.mp h
  · exact mode_error hmode
  obtain hport | ⟨port, hport, h⟩ := bind_error.mp h
  · obtain ⟨e', hread, rfl⟩ := mapError_error.mp hport
    obtain ⟨s, hset, hnone, text, rfl, hnames⟩ := varOr_error hread
    exact ⟨_, .port hset hnone, text, rfl, hnames⟩
  obtain hdelta | ⟨delta, hdelta, h⟩ := bind_error.mp h
  · exact seconds_error List.mem_cons_self hdelta
  obtain httl | ⟨ttl, httl, h⟩ := bind_error.mp h
  · exact seconds_error (List.mem_cons_of_mem _ List.mem_cons_self) httl
  obtain hreserve | ⟨reserve, hreserve, h⟩ := bind_error.mp h
  · exact count_error (by decide) hreserve
  obtain hinterval | ⟨interval, hinterval, h⟩ := bind_error.mp h
  · exact count_error (by decide) hinterval
  obtain hceiling | ⟨ceiling, hceiling, h⟩ := bind_error.mp h
  · exact count_error (by decide) hceiling
  obtain hinvalid | ⟨_, -, h⟩ := bind_error.mp h
  · obtain ⟨text, hrefused, rfl⟩ := mapError_error.mp hinvalid
    have hsaid := says_of_read hmode (mapError_ok.mp hport) hdelta httl hreserve hinterval hceiling
    obtain ⟨key, hfault, hnames⟩ := invalid_error hsaid hrefused
    exact ⟨key, hfault, .of_names hnames⟩
  · cases h

/-! ## Written out -/

/-- The variables that a configuration is written to. -/
def assignments (settings : Settings) : List (String × Option String) :=
  [("THBC_LEDGER_MODE", settings.ledgerMode.spellings.head?),
    ("THBC_HTTP_PORT", some (display settings.httpPort)),
    ("THBC_REDEMPTION_DELTA_SECS", some (display settings.redemptionDeltaSecs)),
    ("THBC_ATTESTATION_TTL_SECS", some (display settings.attestationTtlSecs)),
    ("THBC_SIMULATED_RESERVE_MINOR", some (display settings.simulatedReserveMinor)),
    ("THBC_RECONCILE_INTERVAL_SECS", some (display settings.reconcileIntervalSecs)),
    ("THBC_STUB_KYC_CEILING_MINOR", some (display settings.stubKycCeilingMinor)),
    (databaseUrlVar, settings.databaseUrl),
    (migrationDatabaseUrlVar, settings.migrationDatabaseUrl),
    ("NATS_URL", some settings.natsUrl),
    ("CHAIN_BRIDGE_GRPC_URL", some settings.chainBridgeGrpcUrl),
    ("THBC_TREASURY_PDA", settings.treasuryPda),
    ("THBC_INVENTORY_VAULT", settings.inventoryVault),
    ("THBC_SERVICE_IDENTITY", some settings.serviceIdentity)]

def toEnv (settings : Settings) : Environment := fun key =>
  match (settings.assignments.lookup key).join with
  | some v => .ok v
  | none => .error .notPresent

omit [DebugStr] in
theorem toEnv_ok {key v : String} {o : Option String}
    (h : settings.assignments.lookup key = some o) : settings.toEnv key = .ok v ↔ o = some v := by
  unfold toEnv
  rw [h]
  cases o <;> simp

omit [DebugStr] in
theorem says_toEnv (htreasury : settings.treasuryPda ≠ some "")
    (hvault : settings.inventoryVault ≠ some "") : settings.toEnv.Says settings where
  ledgerMode := by
    cases hmode : settings.ledgerMode with
    | chainBridge =>
        refine .inl ⟨_, (toEnv_ok rfl).mpr ?_, LedgerMode.spells_of_mem List.mem_cons_self⟩
        rw [hmode]
        rfl
    | simulated =>
        refine .inl ⟨_, (toEnv_ok rfl).mpr ?_, LedgerMode.spells_of_mem List.mem_cons_self⟩
        rw [hmode]
        rfl
  httpPort := .inl ⟨_, (toEnv_ok rfl).mpr rfl, numeral_display _⟩
  redemptionDeltaSecs := .inl ⟨_, (toEnv_ok rfl).mpr rfl, numeral_display _⟩
  attestationTtlSecs := .inl ⟨_, (toEnv_ok rfl).mpr rfl, numeral_display _⟩
  simulatedReserveMinor := .inl ⟨_, (toEnv_ok rfl).mpr rfl, numeral_display _⟩
  reconcileIntervalSecs := .inl ⟨_, (toEnv_ok rfl).mpr rfl, numeral_display _⟩
  stubKycCeilingMinor := .inl ⟨_, (toEnv_ok rfl).mpr rfl, numeral_display _⟩
  databaseUrl _ := (toEnv_ok rfl).symm
  migrationDatabaseUrl _ := (toEnv_ok rfl).symm
  natsUrl := .inl ⟨_, (toEnv_ok rfl).mpr rfl, rfl⟩
  chainBridgeGrpcUrl := .inl ⟨_, (toEnv_ok rfl).mpr rfl, rfl⟩
  treasuryPda a := by
    rw [toEnv_ok rfl]
    exact ⟨fun h => ⟨h, fun ha => htreasury (ha ▸ h)⟩, And.left⟩
  inventoryVault a := by
    rw [toEnv_ok rfl]
    exact ⟨fun h => ⟨h, fun ha => hvault (ha ▸ h)⟩, And.left⟩
  serviceIdentity := .inl ⟨_, (toEnv_ok rfl).mpr rfl, rfl⟩

/-! ## Starting -/

/-- The service starts exactly where no variable is at fault, with what the variables say, and
simulates nothing unless it is told to. A refusal names a variable that is at fault. Every
valid configuration can be asked for. -/
theorem starts_exactly (env : Environment) :
    (∀ settings, fromEnv env = .ok settings ↔ env.Says settings ∧ settings.Valid) ∧
    (∀ settings, fromEnv env = .ok settings → settings.ledgerMode = .simulated →
      ∃ s, env "THBC_LEDGER_MODE" = .ok s ∧ toAsciiLowercase (trim s) ∈ ["simulated", "sim"]) ∧
    ((∃ settings, fromEnv env = .ok settings) ↔ ∀ key, ¬ env.Fault key) ∧
    (∀ e, fromEnv env = .error e → ∃ key, env.Fault key ∧ Blames e key) ∧
    ∀ settings : Settings, settings.Valid → settings.treasuryPda ≠ some "" →
      settings.inventoryVault ≠ some "" → fromEnv settings.toEnv = .ok settings := by
  refine ⟨fun settings => fromEnv_ok, fun settings h hsim => ?_, ⟨?_, fun hnone => ?_⟩,
    fun e => fromEnv_error, fun settings hvalid htreasury hvault =>
      fromEnv_ok.mpr ⟨says_toEnv htreasury hvault, hvalid⟩⟩
  · obtain ⟨s, hset, hspells⟩ | ⟨-, hdefault⟩ := (fromEnv_ok.mp h).1.ledgerMode
    · rw [hsim] at hspells
      exact ⟨s, hset, hspells⟩
    · rw [hsim] at hdefault
      cases hdefault
  · rintro ⟨settings, h⟩
    obtain ⟨hsaid, hvalid⟩ := fromEnv_ok.mp h
    exact not_fault hsaid hvalid
  · cases h : fromEnv env with
    | ok settings => exact ⟨settings, rfl⟩
    | error e =>
        obtain ⟨key, hfault, -⟩ := fromEnv_error h
        exact absurd hfault (hnone key)

/-- An empty environment is a bridge without a database. -/
example : fromEnv (fun _ => .error .notPresent) = .error
    ["THBC_DATABASE_URL is required in chain-bridge mode — the in-memory " ++
      "repositories lose every deposit and redemption record on restart, taking " ++
      "the off-chain half of F3 and the whole F2 tally with them"] :=
  rfl

end Settings

end Thbc
