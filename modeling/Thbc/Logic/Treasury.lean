import Thbc.Logic.Service

/-!
# The treasury service

`crates/thbc-logic/src/treasury.rs`. A quote is priced on a fresh snapshot, and
nothing is stored.
-/

namespace Thbc.TreasuryService

open Thbc.Lib Service

/-- Quote GRX to THBC against platform inventory. -/
def quoteBuyThbc (grxIn : Grx) : Service ExchangeQuote := do
  let s ← ledger .snapshot
  core (quoteGrxForThbc grxIn s.params s.inventory)

/-- Quote THBC to GRX. -/
def quoteSellThbc (thbcIn : Thb) : Service ReverseQuote := do
  let s ← ledger .snapshot
  core (quoteThbcForGrx thbcIn s.params s.inventory)

def availableInventory : Service Inventory := do
  let s ← ledger .snapshot
  return s.inventory

/-- The result of a call whose requests are answered by `answer`. -/
def answered {α : Type} (answer : (s : Port) → s.Reply) (p : Service α) : PortResult α :=
  (p.run.run (fun (_ : Unit) s (_ : Unit) => (answer s, ())) (fun _ => ()) ()).1

section Answered

variable {answer : (s : Port) → s.Reply} {s : TreasurySnapshot}

theorem answered_core {α : Type} (r : CoreResult α) :
    answered answer (core r) = r.mapError .domain := by
  cases r with
  | ok a => rfl
  | error e => rfl

theorem answered_ledger {α : Type} {f : TreasurySnapshot → Service α}
    (h : answer (.ledger .snapshot) = .ok s) :
    answered answer (ledger .snapshot >>= f) = answered answer (f s) := by
  have hreply : ∀ reply : PortResult TreasurySnapshot, reply = .ok s →
      answered answer (ExceptT.mk (pure reply) >>= f) = answered answer (f s) := by
    rintro reply rfl
    rfl
  exact hreply _ h

theorem answered_quoteBuyThbc (h : answer (.ledger .snapshot) = .ok s) (grxIn : Grx) :
    answered answer (quoteBuyThbc grxIn) =
      (quoteGrxForThbc grxIn s.params s.inventory).mapError .domain :=
  (answered_ledger h).trans (answered_core _)

theorem answered_quoteSellThbc (h : answer (.ledger .snapshot) = .ok s) (thbcIn : Thb) :
    answered answer (quoteSellThbc thbcIn) =
      (quoteThbcForGrx thbcIn s.params s.inventory).mapError .domain :=
  (answered_ledger h).trans (answered_core _)

end Answered

end Thbc.TreasuryService
