import Thbc.Core.Ports
import Thbc.Lib.Pool

/-!
# Services as programs

A service method is a program over the ports that may end in a `PortError`:
`ExceptT` is the `?` of the source, and each of the calls below is one
`.await?`. `attempt` is for the places where the source matches on a result
instead of passing an error on.
-/

namespace Thbc

open Thbc.Lib

/-- An async method returning a `PortResult`. -/
abbrev Service (α : Type) : Type := ExceptT PortError (Prog Port Port.Reply) α

namespace Service

/-- `self.clock.now()`. -/
def clock : Service Int64 := ExceptT.lift (Prog.call Port.clock)

/-- `self.deposits.m(..).await?` -/
def deposits (m : DepositRepository) : Service m.Answer :=
  ExceptT.mk (Prog.call (Port.deposits m))

/-- `self.redemptions.m(..).await?` -/
def redemptions (m : RedemptionRepository) : Service m.Answer :=
  ExceptT.mk (Prog.call (Port.redemptions m))

/-- `self.ledger.m(..).await?` -/
def ledger (m : LedgerPort) : Service m.Answer :=
  ExceptT.mk (Prog.call (Port.ledger m))

/-- `self.compliance.m(..).await?` -/
def compliance (m : CompliancePort) : Service ScreenOutcome :=
  ExceptT.mk (Prog.call (Port.compliance m))

/-- `self.payouts.m(..).await?` -/
def payouts (m : PayoutPort) : Service Unit :=
  ExceptT.mk (Prog.call (Port.payouts m))

/-- `self.history.m(..).await?` -/
def history (m : ReconciliationRepository) : Service m.Answer :=
  ExceptT.mk (Prog.call (Port.history m))

/-- A method of the simulated ledger that is not on its port. -/
def simulator (m : SimulatorControl) : Service Unit :=
  ExceptT.mk (Prog.call (Port.simulator m))

/-- The result of `x`, as a value. -/
def attempt {α : Type} (x : Service α) : Service (PortResult α) :=
  ExceptT.lift x.run

/-- `?` on a result of the core, with `From<CoreError>`. -/
def core {α : Type} : CoreResult α → Service α
  | .ok a => pure a
  | .error e => throw (.domain e)

/-- `.ok_or(PortError::NotFound)?` -/
def okOrNotFound {α : Type} : Option α → Service α
  | some a => pure a
  | none => throw .notFound

/-! The rules of `Lib.Prog` for these. -/

section Rules

variable {X α β : Type} {A : Arena Port Port.Reply X} {x : X}

theorem meets_clock {Q : PortResult Int64 → X → Prop} :
    (clock.run).Meets A Q x ↔
      A.allows x .clock ∧ ∀ b x', A.moves x .clock b x' → Q (.ok b) x' := by
  show (Prog.call Port.clock >>= fun t => pure (.ok t)).Meets A Q x ↔ _
  rw [meets_bind]
  rfl

theorem meets_attempt {p : Service α}
    {Q : PortResult (PortResult α) → X → Prop} :
    (attempt p).run.Meets A Q x ↔ p.run.Meets A (fun r y => Q (.ok r) y) x := by
  show (p.run >>= fun r => pure (.ok r)).Meets A Q x ↔ _
  rw [meets_bind]
  rfl

theorem meets_core_ok {a : α} {f : α → Service β} {Q : PortResult β → X → Prop} :
    (core (.ok a) >>= f).run.Meets A Q x ↔ (f a).run.Meets A Q x := Iff.rfl

theorem meets_some {a : α} {f : α → Service β} {Q : PortResult β → X → Prop} :
    (okOrNotFound (some a) >>= f).run.Meets A Q x ↔ (f a).run.Meets A Q x := Iff.rfl

variable {N : Port → Prop}

theorem uses_clock (h : N .clock) : clock.run.Uses N :=
  uses_bind (uses_call h) fun _ => trivial

theorem uses_attempt {p : Service α} (h : p.run.Uses N) : (attempt p).run.Uses N :=
  uses_bind h fun _ => trivial

theorem uses_core (r : CoreResult α) : (core r).run.Uses N := by
  cases r with
  | ok a => trivial
  | error e => trivial

theorem uses_core_ok {a : α} {f : α → Service β} :
    (core (.ok a) >>= f).run.Uses N ↔ (f a).run.Uses N := Iff.rfl

theorem uses_okOrNotFound (o : Option α) : (okOrNotFound o).run.Uses N := by
  cases o with
  | none => trivial
  | some a => trivial

end Rules

/-! In a grammar: each call as the code goes on after it, when it fails and when
it does not. -/

section GrammarRules

variable {Q α : Type} {G : Grammar Port Port.Reply Q} {q : Q}
  {R : PortResult α → Q → Prop}

theorem meets_now {f : Int64 → Service α} (hasks : G.asks q .clock)
    (h : ∀ now, (f now).run.Meets G.arena R (G.advance q ⟨.clock, now⟩)) :
    (clock >>= f).run.Meets G.arena R q := by
  refine meets_run_bind.mpr (meets_clock.mpr ⟨hasks, ?_⟩)
  intro now q' ⟨_, hq⟩
  subst hq
  exact h now

theorem meets_deposits {m : DepositRepository} {f : m.Answer → Service α}
    (hasks : G.asks q (.deposits m))
    (herr : ∀ e, R (.error e) (G.advance q ⟨.deposits m, .error e⟩))
    (hok : ∀ b, G.hears (.deposits m) (.ok b) →
      (f b).run.Meets G.arena R (G.advance q ⟨.deposits m, .ok b⟩)) :
    (deposits m >>= f).run.Meets G.arena R q := by
  refine meets_run_bind.mpr (Grammar.meets_call.mpr ⟨hasks, ?_⟩)
  intro b hb
  cases b with
  | error e => exact herr e
  | ok b => exact hok b hb

theorem meets_redemptions {m : RedemptionRepository} {f : m.Answer → Service α}
    (hasks : G.asks q (.redemptions m))
    (herr : ∀ e, R (.error e) (G.advance q ⟨.redemptions m, .error e⟩))
    (hok : ∀ b, G.hears (.redemptions m) (.ok b) →
      (f b).run.Meets G.arena R (G.advance q ⟨.redemptions m, .ok b⟩)) :
    (redemptions m >>= f).run.Meets G.arena R q := by
  refine meets_run_bind.mpr (Grammar.meets_call.mpr ⟨hasks, ?_⟩)
  intro b hb
  cases b with
  | error e => exact herr e
  | ok b => exact hok b hb

theorem meets_ledger {m : LedgerPort} {f : m.Answer → Service α}
    (hasks : G.asks q (.ledger m))
    (herr : ∀ e, R (.error e) (G.advance q ⟨.ledger m, .error e⟩))
    (hok : ∀ b, G.hears (.ledger m) (.ok b) →
      (f b).run.Meets G.arena R (G.advance q ⟨.ledger m, .ok b⟩)) :
    (ledger m >>= f).run.Meets G.arena R q := by
  refine meets_run_bind.mpr (Grammar.meets_call.mpr ⟨hasks, ?_⟩)
  intro b hb
  cases b with
  | error e => exact herr e
  | ok b => exact hok b hb

end GrammarRules

end Service

end Thbc
