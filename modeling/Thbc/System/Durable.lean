import Thbc.System.OnRamp
import Thbc.System.OffRamp
import Thbc.System.Intake
import Thbc.Proofs.Wallets
import Thbc.Proofs.Stored
import Thbc.Lib.Crash

/-!
# The services over their database

The three tables are all that outlives the process. What the other ports answer is
left open, and so is what the database does with a statement it reports an error
for: it may have carried it out. A call is stopped after any number of port calls,
and the next one finds the tables as they are; beside them stands the log of every
port call so far, the latest first, which no call reads.
-/

namespace Thbc.Durable

open Thbc.Lib

structure Tables where
  deposits : List DepositRow
  redemptions : List RedemptionRow
  runs : List ReconciliationRow

/-- What a port call meets that the tables do not decide. -/
structure Conditions where
  answer : (s : Port) → s.Reply
  depositTie : DepositRow → ℕ
  redemptionTie : RedemptionRow → ℕ
  runTie : ReconciliationRow → ℕ
  /-- An error in place of the reply, and whether the statement was carried out. -/
  fault : Option (PortError × Bool)

/-- A moment at which the tables do not fail, with a reserve for everything. -/
def ample : Conditions where
  answer := Intake.ample.answer
  depositTie _ := 0
  redemptionTie _ := 0
  runTie _ := 0
  fault := none

/-- A statement on `rows`, or its fault. -/
def faulted {α R : Type} (fault : Option (PortError × Bool)) (rows : List R)
    (x : PortResult α × List R) : PortResult α × List R :=
  match fault with
  | none => x
  | some (e, done) => (.error e, if done then x.2 else rows)

section Statements

variable [Sha256]

def exec : Handler Port Port.Reply Conditions Tables
  | c, .deposits m, w =>
      let (r, rows) := faulted c.fault w.deposits
        (PgDepositRepository.call w.deposits c.depositTie m)
      (r, { w with deposits := rows })
  | c, .redemptions m, w =>
      let (r, rows) := faulted c.fault w.redemptions
        (PgRedemptionRepository.call w.redemptions c.redemptionTie m)
      (r, { w with redemptions := rows })
  | c, .history m, w =>
      let (r, rows) := faulted c.fault w.runs
        (PgReconciliationRepository.call w.runs c.runTie m)
      (r, { w with runs := rows })
  | c, s, w => (c.answer s, w)

/-- The tables, and what has been asked and answered. -/
abbrev State : Type := Tables × History Port Port.Reply

/-- Calls one after the other, each stopped after some number of port calls. -/
def runCalls (deltaSecs : Int64) (w : State)
    (calls : List (Call × ℕ × (ℕ → Conditions))) : State :=
  interrupted exec.logged (Call.prog deltaSecs) w calls

/-! ## What the statements do -/

omit [Sha256] in
theorem faulted_cases {α R : Type} (fault : Option (PortError × Bool)) (rows : List R)
    (x : PortResult α × List R) :
    x = faulted fault rows x ∨ ∃ e, (faulted fault rows x).1 = .error e ∧
      ((faulted fault rows x).2 = rows ∨ (faulted fault rows x).2 = x.2) := by
  cases fault with
  | none => exact .inl rfl
  | some f =>
      obtain ⟨e, done⟩ := f
      refine .inr ⟨e, rfl, ?_⟩
      cases done with
      | true => exact .inr rfl
      | false => exact .inl rfl

theorem exec_deposits (c : Conditions) (m : DepositRepository) (w : Tables) :
    ∃ r rows', exec c (.deposits m) w = (r, { w with deposits := rows' }) ∧
      Intake.Replies m w.deposits r rows' :=
  ⟨_, _, rfl, c.depositTie, faulted_cases _ _ _⟩

omit [Sha256] in
/-- What may come of a call of the redemption repository: what it does, or an
error. -/
def Replies (m : RedemptionRepository) (rows : List RedemptionRow) (r : PortResult m.Answer)
    (rows' : List RedemptionRow) : Prop :=
  ∃ tie, PgRedemptionRepository.call rows tie m = (r, rows') ∨
    ∃ e, r = .error e ∧
      (rows' = rows ∨ rows' = (PgRedemptionRepository.call rows tie m).2)

theorem exec_redemptions (c : Conditions) (m : RedemptionRepository) (w : Tables) :
    ∃ r rows', exec c (.redemptions m) w = (r, { w with redemptions := rows' }) ∧
      Replies m w.redemptions r rows' :=
  ⟨_, _, rfl, c.redemptionTie, faulted_cases _ _ _⟩

end Statements

/-! ## Redemptions -/

/-- The row as `update` leaves it. -/
def touched (r : Redemption) (row : RedemptionRow) : RedemptionRow :=
  if (row.userId, row.seq) = (r.user, r.seq.toInt64) then
    { row with state := r.state.asStr, escrowedAt := r.escrowedAt } else row

variable {rows rows' : List RedemptionRow} {rd : Redemption}

theorem replies_insert {r : PortResult Unit} (h : Replies (.insert rd) rows r rows') :
    (rows' = rows ∧ r ≠ .ok ()) ∨
      (rd.seq.toNat < 2 ^ 63 ∧ rd.amount.toNat < 2 ^ 63 ∧
        (∀ row ∈ rows, (row.userId, row.seq) ≠ (rd.user, rd.seq.toInt64)) ∧
        rows' = rows ++ [.of rd]) := by
  have hcall : ∀ {r rows'}, PgRedemptionRepository.insert rows rd = (r, rows') →
      (rows' = rows ∧ r ≠ .ok ()) ∨
        (rd.seq.toNat < 2 ^ 63 ∧ rd.amount.toNat < 2 ^ 63 ∧
          (∀ row ∈ rows, (row.userId, row.seq) ≠ (rd.user, rd.seq.toInt64)) ∧
          rows' = rows ++ [.of rd]) := by
    intro r rows' h
    obtain ⟨e, -, rfl, rfl⟩ | ⟨-, rfl⟩ := execute_cases h
    · exact .inl ⟨rfl, fun he => by cases he⟩
    · exact .inr (PgRedemptionRepository.insert_ok h)
  obtain ⟨tie, h | ⟨e, rfl, rfl | rfl⟩⟩ := h
  · exact hcall h
  · exact .inl ⟨rfl, fun he => by cases he⟩
  · exact (hcall (Prod.mk.eta).symm).imp (fun h => ⟨h.1, fun he => by cases he⟩) id

theorem replies_update {r : PortResult Unit} (h : Replies (.update rd) rows r rows') :
    (rows' = rows ∧ r ≠ .ok ()) ∨
      rd.seq.toNat < 2 ^ 63 ∧ rows' = rows.map (touched rd) := by
  have hcall : ∀ {r rows'}, PgRedemptionRepository.update rows rd = (r, rows') →
      (rows' = rows ∧ r ≠ .ok ()) ∨
        rd.seq.toNat < 2 ^ 63 ∧ rows' = rows.map (touched rd) :=
    fun h => PgRedemptionRepository.update_cases h
  obtain ⟨tie, h | ⟨e, rfl, rfl | rfl⟩⟩ := h
  · exact hcall h
  · exact .inl ⟨rfl, fun he => by cases he⟩
  · exact (hcall (Prod.mk.eta).symm).imp (fun h => ⟨h.1, fun he => by cases he⟩) id

theorem replies_find {user : String} {seq : UInt64} {r : PortResult (Option Redemption)}
    (h : Replies (.find user seq) rows r rows') :
    rows' = rows ∧ ∀ rd, r = .ok (some rd) → seq.toNat < 2 ^ 63 ∧
      ∃ row ∈ rows, (row.userId, row.seq) = (user, seq.toInt64) ∧
        PgRedemptionRepository.rowToRedemption row = .ok rd := by
  obtain ⟨tie, h | ⟨e, rfl, rfl | rfl⟩⟩ := h
  · obtain ⟨hr, rfl⟩ := Prod.mk.inj h
    exact ⟨rfl, fun rd hrd => PgRedemptionRepository.find_some (hr.trans hrd)⟩
  · exact ⟨rfl, fun rd hrd => by cases hrd⟩
  · exact ⟨rfl, fun rd hrd => by cases hrd⟩

end Thbc.Durable
