import Thbc.Core.Histories
import Thbc.Persistence.Memory
import Thbc.Persistence.Postgres
import Thbc.Lib.Session

/-!
# A client of the two repositories

The services write a record when they have made it (`observe`, `request`) and
again after they have taken it through its methods, and in between they look
records up. `Permitted` is what such a client may call: it updates a record only
if the record comes, by calls of its methods, from one the client has in hand,
which is one it has inserted or that a query has given it.

`inMemory` and `postgres` are the two pairs of repositories behind the client.
-/

namespace Thbc

open Thbc.Lib

/-- A call of one of the repositories. -/
inductive Repository where
  | deposits (m : DepositRepository)
  | redemptions (m : RedemptionRepository)
  deriving DecidableEq

@[reducible] def Repository.Reply : Repository → Type
  | .deposits m => PortResult m.Answer
  | .redemptions m => PortResult m.Answer

/-- The orders that the repositories do not promise. -/
structure Orders where
  depositRank : BankRefHash → ℕ
  redemptionRank : String × UInt64 → ℕ
  depositTie : DepositRow → ℕ
  redemptionTie : RedemptionRow → ℕ

structure InMemoryRows where
  deposits : InMemoryDepositRepo
  redemptions : InMemoryRedemptionRepo

structure PgRows where
  deposits : List DepositRow
  redemptions : List RedemptionRow

def InMemoryRows.empty : InMemoryRows := ⟨∅, ∅⟩

def PgRows.empty : PgRows := ⟨[], []⟩

section Client

variable [Sha256]

def inMemory : Handler Repository Repository.Reply Orders InMemoryRows
  | e, .deposits m, w =>
      ((w.deposits.call e.depositRank m).1,
        { w with deposits := (w.deposits.call e.depositRank m).2 })
  | e, .redemptions m, w =>
      ((w.redemptions.call e.redemptionRank m).1,
        { w with redemptions := (w.redemptions.call e.redemptionRank m).2 })

def postgres : Handler Repository Repository.Reply Orders PgRows
  | e, .deposits m, w =>
      ((PgDepositRepository.call w.deposits e.depositTie m).1,
        { w with deposits := (PgDepositRepository.call w.deposits e.depositTie m).2 })
  | e, .redemptions m, w =>
      ((PgRedemptionRepository.call w.redemptions e.redemptionTie m).1,
        { w with redemptions :=
            (PgRedemptionRepository.call w.redemptions e.redemptionTie m).2 })

/-! ## What the client may call -/

/-- Deposits a reply gives the client, with those it has inserted. -/
def handedDeposits : Act Repository Repository.Reply → List Deposit
  | ⟨.deposits (.insert d), .ok _⟩ => [d]
  | ⟨.deposits (.find _), .ok (some d)⟩ => [d]
  | ⟨.deposits .held, .ok ds⟩ => ds
  | _ => []

def handedRedemptions : Act Repository Repository.Reply → List Redemption
  | ⟨.redemptions (.insert r), .ok _⟩ => [r]
  | ⟨.redemptions (.find _ _), .ok (some r)⟩ => [r]
  | ⟨.redemptions (.reclaimable _), .ok rs⟩ => rs
  | _ => []

/-- What the client has in hand. -/
def depositsInHand (h : History Repository Repository.Reply) : List Deposit :=
  h.flatMap handedDeposits

def redemptionsInHand (h : History Repository Repository.Reply) : List Redemption :=
  h.flatMap handedRedemptions

/-- Made by `Deposit::observe`, of text and an amount that the columns hold. -/
def Deposit.Observed (d : Deposit) : Prop :=
  (∃ bankRef amount beneficiary wallet now,
    observe bankRef amount beneficiary wallet now = .ok d) ∧
  d.amount.toNat < 2 ^ 63 ∧ NulFree d.bankRef.text ∧ NulFree d.beneficiary ∧
  NulFree d.beneficiaryWallet

/-- Made by `Redemption::request`, with a positive Δ, of text, an amount and a
number that the columns hold. -/
def Redemption.Requested (r : Redemption) : Prop :=
  (∃ user seq amount deltaSecs now,
    request user seq amount deltaSecs now = .ok r) ∧
  0 < r.deltaSecs ∧ r.amount.toNat < 2 ^ 63 ∧ NulFree r.user ∧
  1 ≤ r.seq.toNat ∧ r.seq.toNat < 2 ^ 63

/-- A method call at a time that is not negative. -/
def Redemption.Method.Timely : Redemption.Method → Prop
  | .applyEscrowOutcome _ now => 0 ≤ now.toInt
  | .enqueuePayout | .confirm => True
  | .reclaim now => 0 ≤ now.toInt

instance Redemption.Method.decidableTimely : (m : Redemption.Method) → Decidable m.Timely
  | .applyEscrowOutcome _ now => inferInstanceAs (Decidable (0 ≤ now.toInt))
  | .enqueuePayout => inferInstanceAs (Decidable True)
  | .confirm => inferInstanceAs (Decidable True)
  | .reclaim now => inferInstanceAs (Decidable (0 ≤ now.toInt))

/-- The amounts in the stores add up to no more than a column holds. -/
def InMemoryRows.Fits (w : InMemoryRows) : Prop :=
  w.deposits.amountOf (fun _ => true) < 2 ^ 63 ∧
    AList.tally (fun r => r.amount.toNat) w.redemptions < 2 ^ 63

instance (w : InMemoryRows) : Decidable w.Fits := inferInstanceAs (Decidable (_ ∧ _))

/-- The next call the client may make. -/
def Permitted (h : History Repository Repository.Reply) (w : InMemoryRows) :
    Repository → Prop
  | .deposits (.insert d) => w.Fits ∧ d.Observed
  | .deposits (.update d) => w.Fits ∧ d.amount.toNat < 2 ^ 63 ∧
      ∃ d₀ ∈ depositsInHand h, ∃ ms, d = after Deposit.invoke d₀ ms
  | .redemptions (.insert r) => w.Fits ∧ r.Requested
  | .redemptions (.update r) => w.Fits ∧
      ∃ r₀ ∈ redemptionsInHand h, ∃ ms : List Redemption.Method,
        (∀ m ∈ ms, m.Timely) ∧ r = after Redemption.invoke r₀ ms
  | .redemptions (.find user _) => w.Fits ∧ NulFree user
  | .redemptions (.nextSeq user) => w.Fits ∧ NulFree user
  | .redemptions (.reclaimable now) => w.Fits ∧ 0 ≤ now.toInt
  | _ => w.Fits

end Client

end Thbc
