import Thbc.Logic.Issuance
import Thbc.Logic.Redemption
import Thbc.Logic.Reserve

/-!
# The reconciler

The loop of `spawn_reconciler` in `bin/thbc-service/src/main.rs`. Its log lines are
values here, one constructor for each of its messages. A tick returns what its three
parts have found, and the loop runs for as many ticks as it is given.
-/

namespace Thbc

open Thbc.Lib

inductive LogLine where
  /-- Reconciliation is not available in this configuration; a warning. -/
  | unavailable (why : String)
  /-- A reconciliation run failed; an error. -/
  | runFailed (e : PortError)
  /-- Held deposits were retried. -/
  | retried (retried issued : ℕ)
  /-- The retry sweep failed; an error. -/
  | retryFailed (e : PortError)
  /-- A redemption is past Δ; a warning. -/
  | pastDelta (user : String) (seq amountMinor : UInt64)
  /-- The reclaimable sweep failed; an error. -/
  | sweepFailed (e : PortError)
  deriving DecidableEq

namespace Reconciler

/-- What a tick has found. -/
structure Findings where
  reconciled : PortResult ReconciliationReport
  held : PortResult (ℕ × ℕ)
  due : PortResult (List Redemption)
  deriving DecidableEq

/-- What is logged of a reconciliation run, and the latch `unsupported_reported` after
it: a run that is not supported is reported once. -/
def watch (unsupportedReported : Bool) :
    PortResult ReconciliationReport → Bool × List LogLine
  | .ok _ => (false, [])
  | .error (.unsupported why) =>
      if unsupportedReported then (true, []) else (true, [.unavailable why])
  | .error e => (unsupportedReported, [.runFailed e])

def retryLines : PortResult (ℕ × ℕ) → List LogLine
  | .ok (0, _) => []
  | .ok (retried, issued) => [.retried retried issued]
  | .error (.unsupported _) => []
  | .error e => [.retryFailed e]

def sweepLines : PortResult (List Redemption) → List LogLine
  | .ok due => due.map fun r => .pastDelta r.user r.seq r.amount.minor
  | .error e => [.sweepFailed e]

def Findings.lines (f : Findings) (unsupportedReported : Bool) : List LogLine :=
  (watch unsupportedReported f.reconciled).2 ++ retryLines f.held ++ sweepLines f.due

variable [Sha256]

/-- One round: the failure of a part does not keep the next from being tried. -/
def tick : Prog Port Port.Reply Findings := do
  let reconciled ← ReconciliationService.run.run
  let held ← IssuanceService.retryAllHeld.run
  let due ← RedemptionService.sweepReclaimable.run
  return ⟨reconciled, held, due⟩

/-- The loop, with the latch carried from tick to tick. -/
def loop : ℕ → Bool → Prog Port Port.Reply (List (Findings × List LogLine))
  | 0, _ => pure []
  | n + 1, unsupportedReported => do
      let found ← tick
      let rest ← loop n (watch unsupportedReported found.reconciled).1
      return (found, found.lines unsupportedReported) :: rest

/-- `spawn_reconciler`, up to its tick `n`. An interval of zero disables it. -/
def spawn (intervalSecs : UInt64) (n : ℕ) :
    Prog Port Port.Reply (List (Findings × List LogLine)) :=
  if intervalSecs = 0 then pure [] else loop n false

end Reconciler

end Thbc
