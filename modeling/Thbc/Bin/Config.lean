import Thbc.Lib.Split
import Thbc.Core.Error

/-!
# Configuration

`bin/thbc-service/src/config.rs`: the settings that `Config::validate` reads, its
refusals with their texts, and the guard against the shared database, which goes
by the name at the end of a URL.
-/

namespace Thbc

open Thbc.Lib

inductive LedgerMode where
  | chainBridge
  | simulated
  deriving DecidableEq

structure Config where
  databaseUrl : Option String
  /-- Session-mode pooler alias used only to run migrations. -/
  migrationDatabaseUrl : Option String
  ledgerMode : LedgerMode
  redemptionDeltaSecs : Int64
  attestationTtlSecs : Int64
  deriving DecidableEq

def databaseUrlVar : String := "THBC_DATABASE_URL"

def migrationDatabaseUrlVar : String := "THBC_MIGRATION_DATABASE_URL"

/-- The last path segment, minus any query. -/
def databaseName (url : String) : String :=
  let segment := (rsplit url '/').head?.getD ""
  (split segment '?').head?.getD ""

namespace Config

def isSimulated (config : Config) : Bool := config.ledgerMode = .simulated

/-- The variables that the guard looks at, in its order. -/
def databaseUrls (config : Config) : List (String × Option String) :=
  [(databaseUrlVar, config.databaseUrl),
    (migrationDatabaseUrlVar, config.migrationDatabaseUrl)]

def sharedDatabase (var : String) : String :=
  var ++ " points at the shared `gridtokenx` database. This service owns " ++
  "its own schema and must use a dedicated database (`gridtokenx_thbc`); " ++
  "running its migrations into the shared one creates " ++
  "deposits/redemptions tables beside other services' data"

/-- The loop over the two URLs. An unset one is passed over. -/
def refuseShared : List (String × Option String) → Except String Unit
  | [] => .ok ()
  | (_, none) :: rest => refuseShared rest
  | (var, some url) :: rest =>
      if databaseName url = "gridtokenx" then .error (sharedDatabase var)
      else refuseShared rest

def validate (config : Config) : Except String Unit :=
  if config.redemptionDeltaSecs ≤ 0 then
    .error ("THBC_REDEMPTION_DELTA_SECS must be positive — a non-positive delta makes " ++
      "every redemption instantly reclaimable and F7 meaningless")
  else if config.attestationTtlSecs ≤ 0 then
    .error ("THBC_ATTESTATION_TTL_SECS must be positive — a non-positive TTL means no " ++
      "attestation is ever fresh and F5 halts all issuance")
  else if config.ledgerMode = .chainBridge ∧ config.databaseUrl.isNone then
    .error (databaseUrlVar ++ " is required in chain-bridge mode — the in-memory " ++
      "repositories lose every deposit and redemption record on restart, taking " ++
      "the off-chain half of F3 and the whole F2 tally with them")
  else
    refuseShared config.databaseUrls

variable {config : Config} {urls : List (String × Option String)} {var url : String}

/-- The guard refuses nothing but a URL that it reads as the shared database. -/
theorem refuseShared_error {e : String} (h : refuseShared urls = .error e) :
    ∃ var url, (var, some url) ∈ urls ∧ databaseName url = "gridtokenx" ∧
      e = sharedDatabase var := by
  induction urls with
  | nil => cases h
  | cons entry rest ih =>
      obtain ⟨var, _ | url⟩ := entry
      · obtain ⟨var', url', hmem, hname⟩ := ih h
        exact ⟨var', url', List.mem_cons_of_mem _ hmem, hname⟩
      · rw [refuseShared] at h
        split at h
        · next hname => exact ⟨var, url, List.mem_cons_self, hname, (Except.error.inj h).symm⟩
        · obtain ⟨var', url', hmem, hname⟩ := ih h
          exact ⟨var', url', List.mem_cons_of_mem _ hmem, hname⟩

/-- And lets through no such URL. -/
theorem refuseShared_ok (h : refuseShared urls = .ok ()) (hmem : (var, some url) ∈ urls) :
    databaseName url ≠ "gridtokenx" := by
  induction urls with
  | nil => cases hmem
  | cons entry rest ih =>
      obtain ⟨var', _ | url'⟩ := entry
      · refine ih h ((List.mem_cons.mp hmem).resolve_left ?_)
        intro heq
        cases heq
      · rw [refuseShared] at h
        split at h
        · cases h
        · next hname =>
            obtain heq | htail := List.mem_cons.mp hmem
            · cases heq
              exact hname
            · exact ih h htail

theorem sharedDatabase_inj {a b : String} (h : sharedDatabase a = sharedDatabase b) :
    a = b := by
  simpa only [sharedDatabase, String.append_left_inj] using h

/-- A variable has one URL. -/
theorem databaseUrls_unique {a b : Option String} (ha : (var, a) ∈ config.databaseUrls)
    (hb : (var, b) ∈ config.databaseUrls) : a = b := by
  have hne : databaseUrlVar ≠ migrationDatabaseUrlVar := by decide
  simp only [databaseUrls, List.mem_cons, Prod.mk.injEq, List.not_mem_nil, or_false] at ha hb
  obtain ⟨rfl, rfl⟩ | ⟨rfl, rfl⟩ := ha
  · obtain ⟨-, rfl⟩ | ⟨h, -⟩ := hb
    · rfl
    · exact absurd h hne
  · obtain ⟨h, -⟩ | ⟨-, rfl⟩ := hb
    · exact absurd h.symm hne
    · rfl

/-- A URL that the guard reads as the shared database is refused, for that or for
a fault found before. -/
theorem validate_refuses (hmem : (var, some url) ∈ config.databaseUrls)
    (hname : databaseName url = "gridtokenx") : ∃ e, config.validate = .error e := by
  cases h : config.validate with
  | error e => exact ⟨e, rfl⟩
  | ok u =>
      rw [validate, guard_ok, guard_ok, guard_ok] at h
      exact absurd hname (refuseShared_ok h.2.2.2 hmem)

/-- A refusal for the shared database is about a URL that the guard reads so: the
texts of the other refusals are different ones. -/
theorem validate_shared (hmem : (var, some url) ∈ config.databaseUrls)
    (h : config.validate = .error (sharedDatabase var)) : databaseName url = "gridtokenx" := by
  have hvar : var = databaseUrlVar ∨ var = migrationDatabaseUrlVar := by
    simp only [databaseUrls, List.mem_cons, Prod.mk.injEq, List.not_mem_nil, or_false] at hmem
    exact hmem.imp And.left And.left
  rw [validate] at h
  split at h
  · have hne := Except.error.inj h
    obtain rfl | rfl := hvar <;> exact absurd hne (by decide)
  · split at h
    · have hne := Except.error.inj h
      obtain rfl | rfl := hvar <;> exact absurd hne (by decide)
    · split at h
      · have hne := Except.error.inj h
        obtain rfl | rfl := hvar <;> exact absurd hne (by decide)
      · obtain ⟨var', url', hmem', hname, he⟩ := refuseShared_error h
        obtain rfl := sharedDatabase_inj he
        obtain rfl := Option.some.inj (databaseUrls_unique hmem hmem')
        exact hname

end Config

end Thbc
