import Thbc.System.Delivery
import Thbc.Proofs.Encumbrance
import Thbc.Proofs.Identity

/-!
# Issuance after a refresh

In the simulated wiring of `startup::build` the ledger gets one reading of the
clock, when it is made, and is a `LedgerPort` from then on: nothing on the port
moves its clock (`attestation_exec`). `update_attestation` stamps with that
clock, so that every attestation is as old as the ledger, and the service,
which looks at the clock on the wall, takes it for fresh until one TTL after
the start and never again (`resumes_iff`). The attestation that should end the
halt is answered `Ok` all the same (`refreshed_in_vain`).
-/

namespace Thbc

open Thbc.Lib Thbc.Service

section Resumes

variable [Sha256]

/-- Issuance goes on at `now`: the reserve that `current` has returned is
fresh, and a new deposit within its headroom that passes its screen is
issued. -/
structure Resumes (deltaSecs : Int64) (w : World) (state : ReserveState)
    (now : Int64) : Prop where
  fresh : state.attestation.isFresh now = true
  issues : ∀ bankRef amount beneficiary beneficiaryWallet es,
    w.deposits.lookup bankRef.hash = none → 0 < amount.toNat →
    trim beneficiaryWallet ≠ "" → amount ≤ state.headroom →
    (∀ n, (es n).clock = now ∧ (es n).screen = .ok .pass) →
    (w.runCall deltaSecs (.handleDeposit bankRef amount beneficiary
      beneficiaryWallet, es)).1 = .ok (.issuance (.issued amount))

/-- A reserve made at `start` whose ledger has nothing but its port. -/
structure Stamped (calls : List Call) (ttlSecs start : Int64) (c : Calls) :
    Prop where
  coherent : OnRamp.Coherent calls c
  covered : OnRamp.Covered calls c
  conserved : c.world.ledger.Conserved
  clock : c.world.ledger.now = start
  stamp : c.world.ledger.reserve.attestation.ts = start
  ttl : c.world.ledger.reserve.attestation.ttlSecs = ttlSecs
  booked : ∀ n ∈ c.world.ledger.nullifiers, c.world.deposits.lookup n ≠ none

theorem OnRamp.booked_of_move {calls : List Call} {c c' : Calls} {t : ℕ}
    {a : Act Port Port.Reply} {q' : Phase} (hc : Coherent calls c)
    (hm : Move calls c c' t a q')
    (h : ∀ n ∈ c.world.ledger.nullifiers, c.world.deposits.lookup n ≠ none) :
    ∀ n ∈ c'.world.ledger.nullifiers, c'.world.deposits.lookup n ≠ none := by
  intro n hn hnone
  have hold := lookup_of_step hm.step hnone
  rcases taken_of_step hm.step hn with hn | ⟨d, hq, rfl⟩
  · exact h n hn hold
  · obtain ⟨s, -, hrow⟩ := hc.sound.passed t d _ hq
    rw [hrow] at hold
    cases hold

theorem Stamped.step {calls : List Call} (hcalls : OnRamp.Uncontrolled calls)
    {ttlSecs start : Int64} {c : Calls} (h : Stamped calls ttlSecs start c)
    (t : ℕ × Env) : Stamped calls ttlSecs start (c.step World.exec t) := by
  have hbooked : ∀ n ∈ (c.step World.exec t).world.ledger.nullifiers,
      (c.step World.exec t).world.deposits.lookup n ≠ none := by
    rcases h.coherent.step_cases t with heq | ⟨a, q', hm⟩
    · rw [heq]; exact h.booked
    · exact OnRamp.booked_of_move h.coherent hm h.booked
  cases hs : c.pending t.1 with
  | none => rw [Pool.step_of_pending_none hs]; exact h
  | some s =>
      have hworld := (Pool.step_of_pending World.exec hs).1
      have hcoherent := h.coherent.step t
      have hcovered := h.covered.step hcalls h.coherent t
      obtain ⟨hnow, hres⟩ := Attesting.attestation_exec (e := t.2) (w := c.world)
        (h.covered.not_simulator hcalls hs)
      refine ⟨hcoherent, hcovered, ?_, ?_, ?_, ?_, hbooked⟩
      · rw [hworld]
        exact conserved_exec h.conserved t.2 s
      · rw [hworld, hnow]
        exact h.clock
      · rw [hworld]
        rcases hres with hres | ⟨reserve, figure, -, hres⟩
        · rw [hres]; exact h.stamp
        · rw [hres]; exact h.clock
      · rw [hworld]
        rcases hres with hres | ⟨reserve, figure, -, hres⟩
        · rw [hres]; exact h.ttl
        · rw [hres]; exact h.ttl

theorem stamped_run (deltaSecs : Int64) (calls : List Call)
    (hcalls : OnRamp.Uncontrolled calls) (reserve : Thb) (ttlSecs start : Int64)
    (ts : List (ℕ × Env)) :
    Stamped calls ttlSecs start ((Calls.start deltaSecs calls
      (.fresh (SimulatedLedger.new reserve ttlSecs start))).run World.exec ts) := by
  refine Pool.run_induct (I := Stamped calls ttlSecs start)
    (fun c t h _ => h.step hcalls t) (Pool.along_true _ _ _) ?_
  exact {
    coherent := OnRamp.coherent_fresh calls deltaSecs _
    covered := OnRamp.covered_start calls deltaSecs reserve ttlSecs start
    conserved := rfl
    clock := rfl
    stamp := rfl
    ttl := rfl
    booked := by intro n hn; cases hn }

/-- The service's reserve is as old as the ledger, the ledger's own is new. -/
theorem Stamped.checkFresh_iff {calls : List Call} {ttlSecs start now : Int64}
    {c : Calls} (h : Stamped calls ttlSecs start c) (hstart : 0 ≤ start.toInt)
    (hnow : start.toInt ≤ now.toInt) :
    c.world.ledger.reserve.attestation.checkFresh now = .ok () ↔
      now.toInt ≤ start.toInt + ttlSecs.toInt := by
  rw [Attestation.checkFresh_ok_of_nonneg (by rw [h.stamp]; exact hstart)
    (by omega), h.stamp, h.ttl]
  omega

/-- Until a TTL after the start both gates judge by the headroom alone. -/
theorem Stamped.admitted {calls : List Call} {ttlSecs start now : Int64}
    {c : Calls} (h : Stamped calls ttlSecs start c) (hstart : 0 ≤ start.toInt)
    (hnow : start.toInt ≤ now.toInt)
    (httl : now.toInt ≤ start.toInt + ttlSecs.toInt) {e amount : Thb}
    (he : c.world.deposits.totalEncumbered = .ok e) (hpos : 0 < amount.toNat)
    (hroom : amount ≤ (c.world.current e).headroom) :
    Admitted c.world amount now := by
  obtain ⟨v, hv⟩ := ReserveState.checkIssuance_of_headroom
    (r := c.world.current e) hpos ((h.checkFresh_iff hstart hnow).mpr httl) hroom
  obtain ⟨u, hu⟩ := ReserveState.checkIssuance_of_headroom
    (r := c.world.current e) hpos
    ((h.checkFresh_iff hstart (Int.le_refl _)).mpr (by omega)) hroom
  refine ⟨⟨e, v, he, hv⟩, u, ?_⟩
  rw [h.clock]
  refine ReserveState.checkIssuance_mono (r := c.world.current e) rfl rfl ?_ hu
  show c.world.ledger.reserve.encumbered.toNat ≤ e.toNat
  rw [InMemoryDepositRepo.total_ok.mp he]
  exact h.covered.published

/-- In any interleaving of calls, whatever they attest and when, issuance goes
on at a time the service reads exactly until one TTL after the reading the
ledger was made with. -/
theorem resumes_iff (deltaSecs : Int64) (calls : List Call)
    (hcalls : OnRamp.Uncontrolled calls) (reserve : Thb) (ttlSecs start : Int64)
    (hstart : 0 ≤ start.toInt) (ts : List (ℕ × Env)) (now : Int64)
    (hnow : start.toInt ≤ now.toInt) :
    let c := (Calls.start deltaSecs calls
      (.fresh (SimulatedLedger.new reserve ttlSecs start))).run World.exec ts
    ∀ es state, (ReserveService.current.run.run World.exec es c.world).1 = .ok state →
      (Resumes deltaSecs c.world state now ↔
        now.toInt ≤ start.toInt + ttlSecs.toInt) := by
  intro c es state hstate
  have h : Stamped calls ttlSecs start c :=
    stamped_run deltaSecs calls hcalls reserve ttlSecs start ts
  obtain ⟨e, he, rfl⟩ := OnRamp.current_returns hstate
  refine ⟨fun hres => ?_, fun httl => ⟨?_, ?_⟩⟩
  · exact (h.checkFresh_iff hstart hnow).mp (Attestation.isFresh_iff.mp hres.fresh)
  · exact Attestation.isFresh_iff.mpr ((h.checkFresh_iff hstart hnow).mpr httl)
  · intro bankRef amount beneficiary wallet es' hnew hpos hwallet hroom hes
    have hfree : bankRef.hash ∉ c.world.ledger.nullifiers := by
      intro hin
      exact h.booked _ hin hnew
    refine (runCall_delivers (φ := fun _ e => e.clock = now ∧ e.screen = .ok .pass)
      ⟨hnew, hfree, hpos, hwallet⟩ h.conserved ?_ (fun _ _ he => he.2) deltaSecs
      (Prog.along_of_forall (fun _ n => hes n) _ _)).1
    intro e' he'
    rw [he'.1]
    exact h.admitted hstart hnow httl he hpos hroom

end Resumes

open Sample

/-- An attestation two hours after a start with a TTL of one. -/
theorem resumes_iff_refreshed :
    let c := (Calls.start 86400 [.attest ⟨100⟩] treasury).run World.exec
      (schedule (env 7200 .pass) [0, 0, 0, 0])
    Resumes 86400 c.world ⟨⟨⟨100⟩, 0, 3600⟩, .zero, .zero⟩ 7200 ↔
      (7200 : Int64).toInt ≤ (0 : Int64).toInt + (3600 : Int64).toInt :=
  resumes_iff 86400 [.attest ⟨100⟩] (by intro m h; simp at h) ⟨100⟩ 3600 0
    (by decide) (schedule (env 7200 .pass) [0, 0, 0, 0]) 7200 (by decide)
    (fun _ => env 7200 .pass) _ (by decide)

/-- The attestation is answered `Ok` at 7200 and at that same time its reserve
is stale, and a deposit within the headroom is held. -/
theorem refreshed_in_vain :
    let r := treasury.runCall 86400 (.attest ⟨100⟩, fun _ => env 7200 .pass)
    let state : ReserveState := ⟨⟨⟨100⟩, 0, 3600⟩, .zero, .zero⟩
    r.1 = .ok .done ∧
      (ReserveService.current.run.run World.exec (fun _ => env 7200 .pass) r.2).1 =
        .ok state ∧
      ¬ Resumes 86400 r.2 state 7200 ∧
      (⟨100⟩ : Thb) ≤ state.headroom ∧
      (r.2.runCall 86400 (deposit scb1, fun _ => env 7200 .pass)).1 =
        .ok (.issuance (.held (CoreError.staleAttestation 7200 3600).display)) := by
  refine ⟨by decide, by decide, fun h => ?_, by decide, by decide⟩
  have hfresh := h.fresh
  revert hfresh
  decide

end Thbc
