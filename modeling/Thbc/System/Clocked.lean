import Thbc.System.Attesting

/-!
# Services and ledger on one clock

The tests move the clock of the services and the clock of the simulator
together. `World.synced` does that at every port call: the ledger shows what
the service would read.
-/

namespace Thbc

open Thbc.Lib Thbc.Service

/-- The world with the clock of its ledger at `t`. -/
def World.atTime (w : World) (t : Int64) : World :=
  { w with ledger := { w.ledger with now := t } }

section Synced

variable [Sha256]

/-- A port call, with the ledger on the clock of the service. -/
def World.synced : Handler Port Port.Reply Env World :=
  fun e s w => World.exec e s (w.atTime e.clock)

def World.syncedCall (deltaSecs : Int64) (w : World) (call : Call × (ℕ → Env)) :
    PortResult CallOutcome × World :=
  (call.1.prog deltaSecs).run World.synced call.2 w

def World.syncedCalls (deltaSecs : Int64) (w : World)
    (calls : List (Call × (ℕ → Env))) : World :=
  calls.foldl (fun w call => (w.syncedCall deltaSecs call).2) w

/-- The clock has not gone back since the last reading. -/
def Onward (w : World) (e : Env) : Prop := w.ledger.now.toInt ≤ e.clock.toInt

/-- Calls one after the other, on a clock that never goes back. Nobody sets the
clock of the ledger by hand. -/
def Timely (deltaSecs : Int64) : World → List (Call × (ℕ → Env)) → Prop
  | _, [] => True
  | w, call :: calls =>
      (∀ t, call.1 ≠ .control (.setNow t)) ∧
        (call.1.prog deltaSecs).Along World.synced Onward call.2 w ∧
        Timely deltaSecs (w.syncedCall deltaSecs call).2 calls

/-- A port call leaves the ledger's clock at the reading it was made at. -/
theorem now_synced {e : Env} {s : Port} {w : World}
    (h : ∀ t, s ≠ .simulator (.setNow t)) :
    (World.synced e s w).2.ledger.now = e.clock := by
  cases s with
  | simulator m =>
      exact (w.atTime e.clock).ledger.control_now fun t hm => h t (by rw [hm])
  | _ =>
      refine (Attesting.attestation_exec (w := w.atTime e.clock) ?_).1
      intro m hm
      cases hm

theorem along_onward {α : Type} {p : Prog Port Port.Reply α} {es : ℕ → Env}
    {t : Int64} (hp : p.Uses fun s => ∀ t, s ≠ .simulator (.setNow t))
    (hes : ∀ n, (es n).clock = t) {w : World} (hw : w.ledger.now.toInt ≤ t.toInt) :
    p.Along World.synced Onward es w := by
  induction p generalizing es w with
  | pure a => trivial
  | request s k ih =>
      refine ⟨?_, ih _ (hp.2 _) (fun n => hes (n + 1)) ?_⟩
      · rw [Onward, hes 0]
        exact hw
      · rw [now_synced hp.1, hes 0]

theorem syncedCalls_append (deltaSecs : Int64) (w : World)
    (before after : List (Call × (ℕ → Env))) :
    w.syncedCalls deltaSecs (before ++ after) =
      (w.syncedCalls deltaSecs before).syncedCalls deltaSecs after :=
  List.foldl_append

theorem timely_append {deltaSecs : Int64} {w : World}
    {before after : List (Call × (ℕ → Env))} :
    Timely deltaSecs w (before ++ after) ↔
      Timely deltaSecs w before ∧
        Timely deltaSecs (w.syncedCalls deltaSecs before) after := by
  induction before generalizing w with
  | nil => exact ⟨fun h => ⟨trivial, h⟩, fun h => h.2⟩
  | cons call before ih =>
      show _ ∧ _ ∧ Timely deltaSecs _ (before ++ after) ↔ (_ ∧ _ ∧ _) ∧ _
      rw [ih, and_assoc, and_assoc]
      exact Iff.rfl

end Synced

end Thbc
