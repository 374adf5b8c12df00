import Thbc.System.Uses
import Thbc.Ledger.Steps

/-!
# What a call may do to the attestation

`attest` reads the encumbrance of the deposit rows and publishes it with the
next call; between the two the rows may change. The grammar keeps the figure a
call has read last, and allows to publish that figure and no other. Every
other service method leaves the ledger's attestation, its encumbrance and its
clock alone.
-/

namespace Thbc.Attesting

open Thbc.Lib Thbc.Service

/-- What an attestation is made of: a call publishes the reserve it was given
and the encumbrance it has read last. -/
def grammar (call : Call) : Grammar Port Port.Reply (Option Thb) where
  start := none
  advance q a :=
    match a with
    | ⟨.deposits .totalEncumbered, .ok e⟩ => some e
    | _ => q
  asks q s :=
    match s with
    | .ledger (.updateAttestation reserve e) =>
        call = .attest reserve ∧ q = some e
    | .simulator m => call = .control m
    | _ => True
  ends _ := True
  hears _ _ := True

/-- Neither an attestation nor a hand on the simulator. -/
def plain : Port → Prop
  | .ledger (.updateAttestation _ _) | .simulator _ => False
  | _ => True

theorem plain_of_onRampPort {s : Port} (h : onRampPort s) : plain s := by
  cases s with
  | ledger m => cases m <;> first | exact h.elim | trivial
  | simulator m => exact h.elim
  | _ => trivial

theorem plain_of_offRampPort {s : Port} (h : offRampPort s) : plain s := by
  cases s with
  | ledger m => cases m <;> first | exact h.elim | trivial
  | simulator m => exact h.elim
  | _ => trivial

theorem plain_of_readPort {s : Port} (h : readPort s) : plain s := by
  cases s with
  | ledger m => cases m <;> first | exact h.elim | trivial
  | simulator m => exact h.elim
  | _ => trivial

variable {call : Call} {q : Option Thb}

theorem asks_of_plain {s : Port} (h : plain s) : (grammar call).asks q s := by
  cases s with
  | ledger m => cases m <;> first | exact h.elim | trivial
  | simulator m => exact h.elim
  | _ => trivial

theorem plain_obeys {α : Type} {p : Prog Port Port.Reply α} (h : p.Uses plain) :
    p.Obeys (grammar call) q :=
  h.obeys_within (J := fun _ => True)
    (fun _ _ _ hs => ⟨asks_of_plain hs, fun _ => trivial⟩)
    (fun _ _ => trivial) trivial

/-- The read before the attestation may leave any figure behind; the one that
is published is read after it. -/
theorem attest_obeys (reserve : Thb) :
    (ReserveService.attest reserve).run.Obeys (grammar (.attest reserve)) q := by
  have hpublish : ∀ q, (ReserveService.attest.publish reserve).run.Obeys
      (grammar (.attest reserve)) q := by
    intro q
    refine meets_deposits trivial (fun _ => trivial) ?_
    intro e _
    refine meets_ledger ⟨rfl, rfl⟩ (fun _ => trivial) ?_
    intro outcome _
    cases outcome with
    | confirmed => trivial
    | submitted => trivial
    | failed => trivial
  have hcurrent : ReserveService.current.run.Obeys (grammar (.attest reserve)) q :=
    plain_obeys (current_uses.mono fun _ => plain_of_readPort)
  refine meets_run_bind.mpr (meets_attempt.mpr (meets_mono hcurrent ?_))
  intro r q' _
  cases r with
  | ok state => exact hpublish q'
  | error e =>
      cases e with
      | unsupported why => exact hpublish q'
      | transient text => trivial
      | rejected text => trivial
      | notFound => trivial
      | conflict text => trivial
      | domain e => trivial

section Calls

variable [Sha256]

/-- Each call keeps to the grammar from its beginning. -/
theorem call_obeys (deltaSecs : Int64) (call : Call) :
    (call.prog deltaSecs).Obeys (grammar call) none := by
  have huses := call_uses deltaSecs call
  cases call with
  | attest reserve =>
      refine meets_run_bind.mpr (meets_mono (attest_obeys reserve) ?_)
      intro r q _
      cases r with
      | error e => trivial
      | ok u => trivial
  | control m =>
      refine meets_run_bind.mpr (Grammar.meets_call.mpr ⟨rfl, ?_⟩)
      intro b _
      cases b with
      | error e => trivial
      | ok u => trivial
  | handleDeposit b a ben wal =>
      exact plain_obeys (huses.mono fun _ => plain_of_onRampPort)
  | retryHeld b => exact plain_obeys (huses.mono fun _ => plain_of_onRampPort)
  | retryAllHeld => exact plain_obeys (huses.mono fun _ => plain_of_onRampPort)
  | request user amount =>
      exact plain_obeys (huses.mono fun _ => plain_of_offRampPort)
  | processPayout user seq =>
      exact plain_obeys (huses.mono fun _ => plain_of_offRampPort)
  | confirm user seq =>
      exact plain_obeys (huses.mono fun _ => plain_of_offRampPort)
  | reclaim user seq =>
      exact plain_obeys (huses.mono fun _ => plain_of_offRampPort)
  | sweepReclaimable => exact plain_obeys (huses.mono fun _ => plain_of_readPort)
  | queueLen => exact plain_obeys (huses.mono fun _ => plain_of_readPort)
  | reconcile => exact plain_obeys (huses.mono fun _ => plain_of_readPort)

/-- What a port call does to the attestation, the encumbrance and the clock of
the ledger. -/
theorem attestation_exec {e : Env} {s : Port} {w : World}
    (h : ∀ m, s ≠ .simulator m) :
    (World.exec e s w).2.ledger.now = w.ledger.now ∧
      ((World.exec e s w).2.ledger.reserve = { w.ledger.reserve with
          supply := (World.exec e s w).2.ledger.reserve.supply } ∨
        ∃ reserve encumbered, s = .ledger (.updateAttestation reserve encumbered) ∧
          (World.exec e s w).2.ledger.reserve = { w.ledger.reserve with
            attestation := { w.ledger.reserve.attestation with
              reserve := reserve, ts := w.ledger.now }
            encumbered := encumbered }) := by
  cases s with
  | ledger m =>
      obtain ⟨hnow, hres | ⟨reserve, encumbered, hm, hres⟩⟩ :=
        w.ledger.call_attestation m
      · exact ⟨hnow, .inl hres⟩
      · exact ⟨hnow, .inr ⟨reserve, encumbered, by rw [hm], hres⟩⟩
  | simulator m => exact absurd rfl (h m)
  | payouts m =>
      obtain ⟨r, sent, hx⟩ := World.exec_payouts e m w
      rw [hx]
      exact ⟨rfl, .inl rfl⟩
  | _ => exact ⟨rfl, .inl rfl⟩

/-- The encumbrance alone: every other hand on the simulator leaves it as it
is. -/
theorem encumbered_exec {e : Env} {s : Port} {w : World}
    (h : ∀ amount, s ≠ .simulator (.setEncumbered amount)) :
    (World.exec e s w).2.ledger.reserve.encumbered = w.ledger.reserve.encumbered ∨
      ∃ reserve encumbered, s = .ledger (.updateAttestation reserve encumbered) ∧
        (World.exec e s w).2.ledger.reserve.encumbered = encumbered := by
  by_cases hs : ∃ m, s = .simulator m
  · obtain ⟨m, rfl⟩ := hs
    obtain ⟨_, _, _, _, _, heq, -, henc⟩ := w.ledger.control_cases m
    left
    show (w.ledger.control m).2.reserve.encumbered = _
    rw [heq]
    exact henc fun amount hm => h amount (congrArg _ hm)
  · obtain ⟨-, hres | ⟨reserve, encumbered, hs, hres⟩⟩ :=
      attestation_exec (e := e) (w := w) (not_exists.mp hs)
    · exact .inl (by rw [hres])
    · exact .inr ⟨reserve, encumbered, hs, by rw [hres]⟩

/-- A figure a call holds is one it held before, or one the rows just gave. -/
theorem figure_exec {e : Env} {s : Port} {w : World} {figure : Thb}
    (h : (grammar call).advance q ⟨s, (World.exec e s w).1⟩ = some figure) :
    q = some figure ∨ w.deposits.totalEncumbered = .ok figure := by
  cases s with
  | deposits m =>
      cases m with
      | totalEncumbered =>
          replace h : (grammar call).advance q ⟨.deposits .totalEncumbered,
            w.deposits.totalEncumbered⟩ = some figure := h
          cases ht : w.deposits.totalEncumbered with
          | error err => rw [ht] at h; exact .inl h
          | ok f => rw [ht] at h; exact .inr (congrArg _ (Option.some.inj h))
      | _ => exact .inl h
  | _ => exact .inl h

end Calls

end Thbc.Attesting
