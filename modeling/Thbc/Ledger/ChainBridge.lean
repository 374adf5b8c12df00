import Thbc.Core.Ports
import Thbc.Lib.Bytes
import Thbc.Lib.Prog

/-!
# The snapshot of the real ledger

`ChainBridgeLedger::snapshot` of `crates/thbc-ledger/src/chain_bridge.rs`. It
queries two accounts and decodes them by offset. What stands behind
`query_account` is not here: a query is a request, answered with the bytes of an
account, with its absence or with an error. A read out of bounds would be a
panic, and it has no result.
-/

namespace Thbc

open Thbc.Lib

/-- The addresses that a snapshot is read from. -/
structure ChainBridgeConfig where
  treasuryPda : Option String
  inventoryVault : Option String
  deriving DecidableEq

namespace ChainBridge

/-- What a query for an account is answered with. -/
abbrev Account : Type := PortResult (Option (List UInt8))

/-- A method of the ledger: it queries accounts, and it may end in a `PortError`
or in a panic. -/
abbrev Method (α : Type) : Type :=
  ExceptT PortError (OptionT (Prog String fun _ => Account)) α

def queryAccount (pubkey : String) : Method (Option (List UInt8)) :=
  ExceptT.mk (OptionT.lift (Prog.call pubkey))

/-- What is read by index, or a panic. -/
def index {α : Type} (read : Option α) : Method α := ExceptT.lift (OptionT.mk (pure read))

/-- The result of a method, the queries being answered by `replies` in turn; `none`
is a panic. -/
def result {α : Type} (replies : ℕ → String → Account) (m : Method α) :
    Option (PortResult α) :=
  (m.run.run.run (fun reply pubkey (_ : Unit) => (reply pubkey, ())) replies ()).1

/-! What a method comes to, step by step. -/

section Result

variable {α β : Type} {replies : ℕ → String → Account}

theorem result_query (pubkey : String) (f : Option (List UInt8) → Method α) :
    result replies (queryAccount pubkey >>= f) = (match replies 0 pubkey with
      | .ok account => result (fun n => replies (n + 1)) (f account)
      | .error e => some (.error e)) := by
  have hreply : ∀ reply : Account, result (fun n => replies (n + 1))
      (ExceptT.mk (OptionT.mk (pure (some reply))) >>= f) = (match reply with
        | .ok account => result (fun n => replies (n + 1)) (f account)
        | .error e => some (.error e)) := by
    intro reply
    cases reply with
    | ok account => rfl
    | error e => rfl
  exact hreply (replies 0 pubkey)

theorem result_index (read : Option β) (f : β → Method α) :
    result replies (index read >>= f) = read.bind fun a => result replies (f a) := by
  cases read with
  | none => rfl
  | some a => rfl

end Result

/-- The discriminator before the account. -/
def B : ℕ := 8

def u64At (data : List UInt8) (off : ℕ) : Option UInt64 :=
  (window? data off 8).map fun b => UInt64.ofNat (ofLe b)

def i64At (data : List UInt8) (off : ℕ) : Option Int64 :=
  (window? data off 8).map fun b => (UInt64.ofNat (ofLe b)).toInt64

def u16At (data : List UInt8) (off : ℕ) : Option UInt16 :=
  (window? data off 2).map fun b => UInt16.ofNat (ofLe b)

/-- What the snapshot takes from the treasury account. -/
structure Treasury where
  attestedReserve : Thb
  attestationTs : Int64
  attestationTtl : Int64
  thbcSupply : Thb
  grxPerThbcRate : UInt64
  feeBps : UInt16
  paused : Bool
  reserveEncumbered : Thb
  deriving DecidableEq

def Treasury.read (data : List UInt8) : Option Treasury := do
  let attestedReserve := Thb.fromMinor (← u64At data (B + 176))
  let attestationTs ← i64At data (B + 184)
  let attestationTtl ← i64At data (B + 192)
  let thbcSupply := Thb.fromMinor (← u64At data (B + 200))
  let grxPerThbcRate ← u64At data (B + 208)
  let feeBps ← u16At data (B + 248)
  let paused := (← data[B + 250]?) != 0
  let reserveEncumbered := Thb.fromMinor (← u64At data (B + 264))
  return ⟨attestedReserve, attestationTs, attestationTtl, thbcSupply, grxPerThbcRate,
    feeBps, paused, reserveEncumbered⟩

/-- `amount` of a token account. A vault that does not exist yet holds nothing. -/
def inventoryThbc : Option (List UInt8) → Option Thb
  | some v => if v.length ≥ 72 then (u64At v 64).map Thb.fromMinor else some .zero
  | none => some .zero

/-- The snapshot of an account, with what the vault holds. -/
def Treasury.snapshot (t : Treasury) (inventoryThbc : Thb) : TreasurySnapshot where
  reserve := ⟨⟨t.attestedReserve, t.attestationTs, t.attestationTtl⟩,
    t.reserveEncumbered, t.thbcSupply⟩
  -- `swap_vault` is not read.
  inventory := ⟨inventoryThbc, .zero⟩
  params := ⟨t.grxPerThbcRate, t.feeBps, t.paused⟩
  redemptionQueueLen := none

def snapshot (config : ChainBridgeConfig) : Method TreasurySnapshot :=
  match config.treasuryPda, config.inventoryVault with
  | some treasuryPda, some inventoryVault => do
      match ← queryAccount treasuryPda with
      | none => throw (.rejected s!"treasury account {treasuryPda} does not exist")
      | some data =>
          if data.length < B + 272 then
            throw (.rejected (s!"treasury account is {data.length} bytes, " ++
              s!"expected at least {B + 272}"))
          let t ← index (Treasury.read data)
          let vault ← queryAccount inventoryVault
          let inventoryThbc ← index (inventoryThbc vault)
          return t.snapshot inventoryThbc
  | _, _ =>
      throw (.unsupported ("THBC_TREASURY_PDA / THBC_INVENTORY_VAULT are unset — " ++
        "refusing to guess an address, because a snapshot read from the wrong account " ++
        "would report a confident and wrong F1 ceiling"))

end ChainBridge

end Thbc
