import Thbc.Lib.Decimal
import Thbc.Core.BankRef
import Thbc.Bin.Config

/-!
# Reading the environment

`Config::from_env` of `bin/thbc-service/src/config.rs`: the variables, their defaults and the
refusals, in its order. The environment is the one that there is after `.env` is loaded. An
error is what `anyhow` makes of it, the contexts before the message.
-/

namespace Thbc

open Thbc.Lib Thbc.Lib.MachineInt

inductive VarError where
  | notPresent
  | notUnicode
  deriving DecidableEq

/-- `env::var`. -/
abbrev Environment : Type := String → Except VarError String

abbrev Anyhow : Type := List String

/-- `{:?}` of a `str`: quotes around it, and escapes. -/
class DebugStr where
  debug : String → String

/-- `str::to_ascii_lowercase`. -/
def toAsciiLowercase (s : String) : String := String.ofList (s.toList.map Char.toLower)

namespace LedgerMode

def spellings : LedgerMode → List String
  | .chainBridge => ["chain-bridge", "chain_bridge", "chainbridge"]
  | .simulated => ["simulated", "sim"]

def parse [DebugStr] (s : String) : Except Anyhow LedgerMode :=
  let other := toAsciiLowercase (trim s)
  if other ∈ spellings .chainBridge then .ok .chainBridge
  else if other ∈ spellings .simulated then .ok .simulated
  else .error ["THBC_LEDGER_MODE must be 'chain-bridge' or 'simulated', got " ++
    DebugStr.debug other]

end LedgerMode

/-- The whole of `Config`, with what `validate` does not read. -/
structure Settings extends Config where
  httpPort : UInt16
  natsUrl : String
  chainBridgeGrpcUrl : String
  /-- Base58 address of `[b"treasury"]`. -/
  treasuryPda : Option String
  inventoryVault : Option String
  /-- SPIFFE URI this service publishes NATS envelopes under. -/
  serviceIdentity : String
  simulatedReserveMinor : UInt64
  reconcileIntervalSecs : UInt64
  stubKycCeilingMinor : UInt64
  deriving DecidableEq

namespace Environment

/-- A variable that is not Unicode counts as unset. -/
def getOr (env : Environment) (key default : String) : String :=
  match env key with
  | .ok v => v
  | .error _ => default

def varOr {T : Type} [MachineInt T] (env : Environment) (key : String) (default : T) :
    Except Anyhow T :=
  match env key with
  | .ok v => (fromStr v).mapError fun e => [key ++ ": " ++ e.text]
  | .error _ => .ok default

def nonEmpty (env : Environment) (key : String) : Option String :=
  (env key).toOption.filter fun v => v != ""

end Environment

def Settings.fromEnv [DebugStr] (env : Environment) : Except Anyhow Settings := do
  let ledgerMode ← LedgerMode.parse (env.getOr "THBC_LEDGER_MODE" "chain-bridge")
  let httpPort ←
    (env.varOr "THBC_HTTP_PORT" (4008 : UInt16)).mapError fun e => "THBC_HTTP_PORT" :: e
  let redemptionDeltaSecs ← env.varOr "THBC_REDEMPTION_DELTA_SECS" (86400 : Int64)
  let attestationTtlSecs ← env.varOr "THBC_ATTESTATION_TTL_SECS" (3600 : Int64)
  let simulatedReserveMinor ← env.varOr "THBC_SIMULATED_RESERVE_MINOR" (0 : UInt64)
  let reconcileIntervalSecs ← env.varOr "THBC_RECONCILE_INTERVAL_SECS" (3600 : UInt64)
  let stubKycCeilingMinor ← env.varOr "THBC_STUB_KYC_CEILING_MINOR" (1000000000 : UInt64)
  let config : Settings :=
    { databaseUrl := (env databaseUrlVar).toOption
      migrationDatabaseUrl := (env migrationDatabaseUrlVar).toOption
      ledgerMode
      redemptionDeltaSecs
      attestationTtlSecs
      httpPort
      natsUrl := env.getOr "NATS_URL" "nats://localhost:9001"
      chainBridgeGrpcUrl := env.getOr "CHAIN_BRIDGE_GRPC_URL" "http://localhost:5001"
      treasuryPda := env.nonEmpty "THBC_TREASURY_PDA"
      inventoryVault := env.nonEmpty "THBC_INVENTORY_VAULT"
      serviceIdentity :=
        env.getOr "THBC_SERVICE_IDENTITY" "spiffe://gridtokenx.th/prod/thbc-service"
      simulatedReserveMinor
      reconcileIntervalSecs
      stubKycCeilingMinor }
  config.validate.mapError fun e => [e]
  return config

/-! ## What each reading accepts -/

/-- A text is about a variable: it begins with its name. -/
def Names (text key : String) : Prop := key.toList <+: text.toList

theorem names_append (key rest : String) : Names (key ++ rest) key := by
  rw [Names, String.toList_append]
  exact List.prefix_append _ _

theorem Names.append {text key : String} (h : Names text key) (rest : String) :
    Names (text ++ rest) key := by
  rw [Names, String.toList_append]
  exact List.IsPrefix.trans h (List.prefix_append _ _)

namespace LedgerMode

/-- A text stands for a mode, whatever its case and the blanks around it. -/
def Spells (s : String) (mode : LedgerMode) : Prop :=
  toAsciiLowercase (trim s) ∈ mode.spellings

instance (s : String) (mode : LedgerMode) : Decidable (Spells s mode) :=
  inferInstanceAs (Decidable (_ ∈ mode.spellings))

/-- The spellings are written as they are read. -/
theorem spells_of_mem {s : String} {mode : LedgerMode} (h : s ∈ mode.spellings) :
    Spells s mode := by
  have hall : ∀ t ∈ mode.spellings, Spells t mode := by
    cases mode <;> decide
  exact hall s h

theorem parse_ok [DebugStr] {s : String} {mode : LedgerMode} :
    parse s = .ok mode ↔ Spells s mode := by
  have hdisjoint : ∀ t ∈ spellings .simulated, t ∉ spellings .chainBridge := by decide
  simp only [parse, Spells]
  split
  · next hbridge =>
      cases mode with
      | chainBridge => exact ⟨fun _ => hbridge, fun _ => rfl⟩
      | simulated => exact ⟨fun h => (by cases h), fun h => absurd hbridge (hdisjoint _ h)⟩
  · next hbridge =>
      split
      · next hsim =>
          cases mode with
          | chainBridge => exact ⟨fun h => (by cases h), fun h => absurd h hbridge⟩
          | simulated => exact ⟨fun _ => hsim, fun _ => rfl⟩
      · next hsim =>
          cases mode with
          | chainBridge => exact ⟨fun h => (by cases h), fun h => absurd h hbridge⟩
          | simulated => exact ⟨fun h => (by cases h), fun h => absurd h hsim⟩

theorem parse_error [DebugStr] {s : String} {e : Anyhow} (h : parse s = .error e) :
    (∀ mode, ¬ Spells s mode) ∧ ∃ text, e = [text] ∧ Names text "THBC_LEDGER_MODE" := by
  refine ⟨fun mode hmode => ?_, ?_⟩
  · rw [parse_ok.mpr hmode] at h
    cases h
  · simp only [parse] at h
    split at h
    · cases h
    · split at h
      · cases h
      · obtain rfl := Except.error.inj h
        have hnames : Names "THBC_LEDGER_MODE must be 'chain-bridge' or 'simulated', got "
            "THBC_LEDGER_MODE" := by
          unfold Names
          decide
        exact ⟨_, rfl, hnames.append _⟩

end LedgerMode

namespace Environment

variable {T : Type} [MachineInt T] {env : Environment} {key : String}

def Unset (env : Environment) (key : String) : Prop := ∀ s, env key ≠ .ok s

/-- What a variable says, in the sense of `reads`, or the default where it is not set. -/
def Sets {α : Type} (env : Environment) (key : String) (reads : String → α → Prop)
    (default a : α) : Prop :=
  (∃ s, env key = .ok s ∧ reads s a) ∨ (env.Unset key ∧ a = default)

/-- A text for a number. -/
def Counts (s : String) (n : T) : Prop := Numeral s.toList n

theorem unset_of_error {e : VarError} (h : env key = .error e) : env.Unset key := by
  intro s hs
  rw [h] at hs
  cases hs

theorem sets_of_ok {α : Type} {reads : String → α → Prop} {default a : α} {s : String}
    (h : env key = .ok s) : env.Sets key reads default a ↔ reads s a := by
  constructor
  · rintro (⟨s', hs', hreads⟩ | ⟨hunset, -⟩)
    · obtain rfl := Except.ok.inj (h.symm.trans hs')
      exact hreads
    · exact absurd h (hunset s)
  · exact fun hreads => .inl ⟨s, h, hreads⟩

theorem sets_of_error {α : Type} {reads : String → α → Prop} {default a : α} {e : VarError}
    (h : env key = .error e) : env.Sets key reads default a ↔ a = default := by
  constructor
  · rintro (⟨s, hs, -⟩ | ⟨-, ha⟩)
    · exact absurd hs (unset_of_error h s)
    · exact ha
  · exact fun ha => .inr ⟨unset_of_error h, ha⟩

theorem varOr_ok {default n : T} :
    env.varOr key default = .ok n ↔ env.Sets key Counts default n := by
  unfold varOr
  split
  · next s hs => rw [sets_of_ok hs, mapError_ok, fromStr_ok, Counts]
  · next e he => rw [sets_of_error he, Except.ok.injEq, eq_comm]

/-- A number is refused for its variable alone, and the refusal names it. -/
theorem varOr_error {default : T} {e : Anyhow} (h : env.varOr key default = .error e) :
    ∃ s, env key = .ok s ∧ (∀ n : T, ¬ Counts s n) ∧ ∃ text, e = [text] ∧ Names text key := by
  unfold varOr at h
  split at h
  · next s hs =>
      refine ⟨s, hs, fun n hn => ?_, ?_⟩
      · rw [fromStr_ok.mpr hn] at h
        cases h
      · cases hread : (fromStr s : Except IntErrorKind T) with
        | error kind =>
            rw [hread] at h
            obtain rfl := Except.error.inj h
            exact ⟨_, rfl, (names_append key ": ").append kind.text⟩
        | ok n =>
            rw [hread] at h
            cases h
  · cases h

theorem toOption_eq {o : Option String} :
    o = (env key).toOption ↔ ∀ v, o = some v ↔ env key = .ok v := by
  have hmem : ∀ v, (env key).toOption = some v ↔ env key = .ok v := by
    intro v
    cases env key <;> simp [Except.toOption]
  constructor
  · rintro rfl
    exact hmem
  · exact fun h => Option.ext fun v => (h v).trans (hmem v).symm

theorem getOr_eq {default text : String} :
    text = env.getOr key default ↔ env.Sets key Eq default text := by
  unfold getOr
  split
  · next s hs => rw [sets_of_ok hs, eq_comm]
  · next e he => rw [sets_of_error he]

theorem nonEmpty_eq {o : Option String} :
    o = env.nonEmpty key ↔ ∀ v, o = some v ↔ env key = .ok v ∧ v ≠ "" := by
  have hmem : ∀ v, env.nonEmpty key = some v ↔ env key = .ok v ∧ v ≠ "" := by
    intro v
    unfold nonEmpty
    rw [Option.filter_eq_some_iff]
    cases env key with
    | error e => exact ⟨fun h => (by cases h.1), fun h => (by cases h.1)⟩
    | ok s => simp [Except.toOption]
  constructor
  · rintro rfl
    exact hmem
  · exact fun h => Option.ext fun v => (h v).trans (hmem v).symm

end Environment

end Thbc
