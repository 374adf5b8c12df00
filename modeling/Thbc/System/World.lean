import Thbc.Ledger.Simulated
import Thbc.Persistence.Memory
import Thbc.Logic.Issuance
import Thbc.Logic.Redemption
import Thbc.Logic.Reserve
import Thbc.Lib.Pool

/-!
# The services over their in-memory adapters

The wiring the tests and the simulated mode use: `InMemory*` repositories,
a `SimulatedLedger` and a recording payout queue
(`crates/thbc-logic/src/adapters.rs`). A port call is one step on the
`World`. What the world does not decide comes in with the call as an `Env`:
the clock reading, the answer of the compliance provider, a fault of the
payout rail, and the order in which a hash map lists its values.

`Call` lists the service methods a client can start, with their arguments,
and `Call.prog` is the program each of them runs. Calls made one after the
other are `World.runCalls`; calls that overlap are a `Lib.Pool` of their
programs over `World.exec`.
-/

namespace Thbc

open Thbc.Lib

/-- `sent` of `RecordingPayoutQueue`, in the order of enqueueing. -/
abbrev RecordingPayoutQueue : Type := List (String × UInt64 × Thb)

/-- Idempotent on `(user, seq)`. -/
def RecordingPayoutQueue.enqueue (sent : RecordingPayoutQueue) (user : String)
    (seq : UInt64) (amount : Thb) : PortResult Unit × RecordingPayoutQueue :=
  if sent.any fun p => p.1 = user && p.2.1 = seq then (.ok (), sent)
  else (.ok (), sent ++ [(user, seq, amount)])

structure World where
  deposits : InMemoryDepositRepo
  redemptions : InMemoryRedemptionRepo
  ledger : SimulatedLedger.State
  sent : RecordingPayoutQueue
  runs : InMemoryReconciliationRepo

/-- Empty repositories over a given ledger. -/
def World.fresh (ledger : SimulatedLedger.State) : World where
  deposits := ∅
  redemptions := ∅
  ledger := ledger
  sent := []
  runs := []

/-- What a port call meets that no store decides. -/
structure Env where
  clock : Int64
  screen : PortResult ScreenOutcome
  payoutFault : Option PortError
  depositRank : BankRefHash → ℕ
  redemptionRank : String × UInt64 → ℕ

/-- The reserve as `current` and `effective_reserve` assemble it. -/
def World.current (w : World) (encumbered : Thb) : ReserveState :=
  ⟨w.ledger.reserve.attestation, encumbered, w.ledger.reserve.supply⟩

section Execution

variable [Sha256]

def World.exec (e : Env) : (p : Port) → World → p.Reply × World
  | .clock, w => (e.clock, w)
  | .deposits m, w =>
      let (b, rows) := w.deposits.call e.depositRank m
      (b, { w with deposits := rows })
  | .redemptions m, w =>
      let (b, rows) := w.redemptions.call e.redemptionRank m
      (b, { w with redemptions := rows })
  | .ledger m, w =>
      let (b, s) := w.ledger.call m
      (b, { w with ledger := s })
  | .compliance _, w => (e.screen, w)
  | .payouts (.enqueue user seq amount), w =>
      match e.payoutFault with
      | some f => (.error f, w)
      | none =>
          let (b, sent) := RecordingPayoutQueue.enqueue w.sent user seq amount
          (b, { w with sent := sent })
  | .history m, w =>
      let (b, runs) := InMemoryReconciliationRepo.call w.runs m
      (b, { w with runs := runs })
  | .simulator m, w =>
      let (b, s) := w.ledger.control m
      (b, { w with ledger := s })

theorem meets_clock_exec {φ : World → Env → Prop}
    {Q : PortResult Int64 → World → Prop} {w : World} :
    Service.clock.run.Meets (Handler.arenaWhere World.exec φ) Q w ↔
      ∀ e, φ w e → Q (.ok e.clock) w := by
  rw [Service.meets_clock]
  constructor
  · intro ⟨_, h⟩ e he
    exact h _ _ ⟨e, he, rfl⟩
  · intro h
    refine ⟨trivial, fun b w' ⟨e, he, heq⟩ => ?_⟩
    obtain ⟨rfl, rfl⟩ := Prod.mk.inj heq
    exact h e he

theorem World.exec_payouts (e : Env) (m : PayoutPort) (w : World) :
    ∃ r sent, World.exec e (.payouts m) w = (r, { w with sent := sent }) := by
  cases m with
  | enqueue user seq amount =>
      cases hf : e.payoutFault with
      | some f =>
          refine ⟨.error f, w.sent, ?_⟩
          simp only [World.exec, hf]
      | none =>
          refine ⟨(RecordingPayoutQueue.enqueue w.sent user seq amount).1,
            (RecordingPayoutQueue.enqueue w.sent user seq amount).2, ?_⟩
          simp only [World.exec, hf]

/-! ## Calls -/

/-- A method a client can start. -/
inductive Call where
  | handleDeposit (bankRef : BankRef) (amount : Thb)
      (beneficiary beneficiaryWallet : String)
  | retryHeld (bankRef : BankRef)
  | retryAllHeld
  | request (user : String) (amount : Thb)
  | processPayout (user : String) (seq : UInt64)
  | confirm (user : String) (seq : UInt64)
  | reclaim (user : String) (seq : UInt64)
  | sweepReclaimable
  | queueLen
  | attest (reserve : Thb)
  | reconcile
  | control (m : SimulatorControl)
  deriving DecidableEq

inductive CallOutcome where
  | done
  | issuance (o : IssuanceOutcome)
  | retried (retried issued : Nat)
  | redemption (o : RedemptionOutcome)
  | reclaimable (due : List Redemption)
  | queueLen (n : UInt32)
  | report (r : ReconciliationReport)
  deriving DecidableEq

/-- The service method, with its result in the common type. -/
def Call.service (deltaSecs : Int64) : Call → Service CallOutcome
  | .handleDeposit bankRef amount beneficiary beneficiaryWallet => do
      return .issuance (← IssuanceService.handleDeposit bankRef amount
        beneficiary beneficiaryWallet)
  | .retryHeld bankRef => do
      return .issuance (← IssuanceService.retryHeld bankRef)
  | .retryAllHeld => do
      let r ← IssuanceService.retryAllHeld
      return .retried r.1 r.2
  | .request user amount => do
      return .redemption (← RedemptionService.request deltaSecs user amount)
  | .processPayout user seq => do
      RedemptionService.processPayout user seq
      return .done
  | .confirm user seq => do
      RedemptionService.confirm user seq
      return .done
  | .reclaim user seq => do
      RedemptionService.reclaim user seq
      return .done
  | .sweepReclaimable => do
      return .reclaimable (← RedemptionService.sweepReclaimable)
  | .queueLen => do
      return .queueLen (← RedemptionService.queueLen)
  | .attest reserve => do
      ReserveService.attest reserve
      return .done
  | .reconcile => do
      return .report (← ReconciliationService.run)
  | .control m => do
      Service.simulator m
      return .done

def Call.prog (deltaSecs : Int64) (call : Call) :
    Prog Port Port.Reply (PortResult CallOutcome) :=
  (call.service deltaSecs).run

/-- The calls that make a new redemption. -/
def Call.isRequest : Call → Bool
  | .request _ _ => true
  | _ => false

def World.runCall (deltaSecs : Int64) (w : World) (call : Call × (ℕ → Env)) :
    PortResult CallOutcome × World :=
  (call.1.prog deltaSecs).run World.exec call.2 w

/-- Calls one after the other, each with the environments it meets. -/
def World.runCalls (deltaSecs : Int64) (w : World)
    (calls : List (Call × (ℕ → Env))) : World :=
  calls.foldl (fun w call => (w.runCall deltaSecs call).2) w

theorem World.runCalls_induct {deltaSecs : Int64} {I : World → Prop}
    {calls : List (Call × (ℕ → Env))}
    (hcall : ∀ w, ∀ call ∈ calls, I w → I (w.runCall deltaSecs call).2) {w : World}
    (h : I w) : I (w.runCalls deltaSecs calls) := by
  unfold World.runCalls
  induction calls generalizing w with
  | nil => exact h
  | cons call calls ih =>
      exact ih (fun w c hc => hcall w c (List.mem_cons_of_mem _ hc))
        (hcall w call List.mem_cons_self h)

theorem World.runCall_queueLen {w : World} {n : UInt32}
    (h : w.redemptions.pendingCount = .ok n) (deltaSecs : Int64) (es : ℕ → Env) :
    (w.runCall deltaSecs (.queueLen, es)).1 = .ok (.queueLen n) := by
  have hmeets : (Call.prog deltaSecs .queueLen).Meets (Handler.arena World.exec)
      (fun r _ => r = .ok (.queueLen n)) w := by
    refine meets_run_bind.mpr ⟨trivial, ?_⟩
    intro b w' ⟨e, he⟩
    have hb : b = w.redemptions.pendingCount := (congrArg Prod.fst he).symm
    rw [hb, h]
    rfl
  exact meets_run hmeets es

/-- Once its three totals fit, `reconcile` records the report it returns, or
fails as the core does and records nothing. -/
theorem World.runCall_reconcile {w : World} {issued redeemed encumbered : Thb}
    (hi : w.deposits.totalIssued = .ok issued)
    (hr : w.redemptions.totalRedeemed = .ok redeemed)
    (he : w.deposits.totalEncumbered = .ok encumbered) (deltaSecs : Int64)
    (es : ℕ → Env) :
    ∃ now,
      (∃ report,
        Thbc.reconcile ⟨issued, redeemed⟩ (w.current encumbered) now = .ok report ∧
        w.runCall deltaSecs (.reconcile, es) =
          (.ok (.report report), { w with runs := w.runs ++ [report] })) ∨
      ∃ e, Thbc.reconcile ⟨issued, redeemed⟩ (w.current encumbered) now = .error e ∧
        w.runCall deltaSecs (.reconcile, es) = (.error (.domain e), w) := by
  have hread : ∀ {s : Port} {b : s.Reply} {x : s.Reply} {w' : World},
      (∀ e, World.exec e s w = (x, w)) →
      (Handler.arena World.exec).moves w s b w' → b = x ∧ w = w' := by
    intro s b x w' hx ⟨e, heq⟩
    rw [hx e] at heq
    exact ⟨(Prod.mk.inj heq).1.symm, (Prod.mk.inj heq).2⟩
  have hmeets : (Call.prog deltaSecs .reconcile).Meets (Handler.arena World.exec)
      (fun r w' => ∃ now,
        (∃ report,
          Thbc.reconcile ⟨issued, redeemed⟩ (w.current encumbered) now = .ok report ∧
          (r, w') = (.ok (.report report), { w with runs := w.runs ++ [report] })) ∨
        ∃ e, Thbc.reconcile ⟨issued, redeemed⟩ (w.current encumbered) now = .error e ∧
          (r, w') = (.error (.domain e), w)) w := by
    refine meets_run_bind.mpr (meets_run_bind.mpr ⟨trivial, fun b w₁ hm => ?_⟩)
    obtain ⟨rfl, rfl⟩ := hread (fun _ => rfl) hm
    rw [hi]
    refine meets_run_bind.mpr ⟨trivial, fun b w₁ hm => ?_⟩
    obtain ⟨rfl, rfl⟩ := hread (fun _ => rfl) hm
    rw [hr]
    refine meets_run_bind.mpr (meets_run_bind.mpr ⟨trivial, fun b w₁ hm => ?_⟩)
    obtain ⟨rfl, rfl⟩ := hread (fun _ => rfl) hm
    refine meets_run_bind.mpr ⟨trivial, fun b w₁ hm => ?_⟩
    obtain ⟨rfl, rfl⟩ := hread (fun _ => rfl) hm
    rw [he]
    refine meets_run_bind.mpr (Service.meets_clock.mpr ⟨trivial, fun now w₁ hm => ?_⟩)
    obtain ⟨e, heq⟩ := hm
    obtain ⟨rfl, rfl⟩ := Prod.mk.inj heq
    dsimp only
    change (Service.core (Thbc.reconcile ⟨issued, redeemed⟩ (w.current encumbered)
      e.clock) >>= _).run.Meets _ _ w
    cases hrec : Thbc.reconcile ⟨issued, redeemed⟩ (w.current encumbered) e.clock with
    | error err => exact ⟨e.clock, .inr ⟨err, hrec, rfl⟩⟩
    | ok report =>
        refine Service.meets_core_ok.mpr
          (meets_run_bind.mpr ⟨trivial, fun b w₁ hm => ?_⟩)
        obtain ⟨e', heq⟩ := hm
        obtain ⟨rfl, rfl⟩ := Prod.mk.inj heq
        exact ⟨e.clock, .inl ⟨report, hrec, rfl⟩⟩
  exact meets_run hmeets es

/-- Calls that overlap, over one world. -/
abbrev Calls : Type := Pool Port Port.Reply (PortResult CallOutcome) World

def Calls.start (deltaSecs : Int64) (calls : List Call) (w : World) : Calls :=
  Pool.start (calls.map (Call.prog deltaSecs)) w

/-- The call that runs as thread `i`. -/
def callAt (calls : List Call) (i : ℕ) : Call := calls.getD i .retryAllHeld

omit [Sha256] in
theorem callAt_mem {calls : List Call} {i : ℕ} (h : i < calls.length) :
    callAt calls i ∈ calls := by
  rw [callAt, List.getD_eq_getElem?_getD, List.getElem?_eq_getElem h]
  exact List.getElem_mem h

omit [Sha256] in
theorem callAt_cases (calls : List Call) (i : ℕ) :
    callAt calls i ∈ calls ∨ callAt calls i = .retryAllHeld := by
  by_cases h : i < calls.length
  · exact .inl (callAt_mem h)
  · right
    rw [callAt, List.getD_eq_getElem?_getD, List.getElem?_eq_none (by omega)]
    rfl

theorem Calls.thread_start {deltaSecs : Int64} {calls : List Call} {w : World}
    {i : ℕ} {p : Prog Port Port.Reply (PortResult CallOutcome)}
    (hp : (Calls.start deltaSecs calls w).threads[i]? = some p) :
    callAt calls i ∈ calls ∧ p = (callAt calls i).prog deltaSecs := by
  have hmap : (calls.map (Call.prog deltaSecs))[i]? = some p := hp
  rw [List.getElem?_map] at hmap
  cases hc : calls[i]? with
  | none => rw [hc] at hmap; cases hmap
  | some call =>
      rw [hc] at hmap
      have hat : callAt calls i = call := by
        rw [callAt, List.getD_eq_getElem?_getD, hc]
        rfl
      rw [hat]
      exact ⟨List.mem_of_getElem? hc, (Option.some.inj hmap).symm⟩

theorem Calls.obeys_start {Q : Type} {G : Call → Grammar Port Port.Reply Q}
    {deltaSecs : Int64}
    (h : ∀ call : Call, (call.prog deltaSecs).Obeys (G call) (G call).start)
    (calls : List Call) (w : World) :
    (Calls.start deltaSecs calls w).Obeys fun i => G (callAt calls i) := by
  refine Pool.obeys_start fun i p hp => ?_
  rw [(Calls.thread_start (w := w) hp).2]
  exact h (callAt calls i)

end Execution

/-! ## A treasury of one hundred satang

The setting of the examples: an empty store, a ledger that attests a reserve
of 100 at time 0, and up to two deposits of 100 for one user. `alice` is her
own wallet, as in the tests. -/

namespace Sample

/-- SHA-256 of `SCB-1` and `SCB-2`. -/
scoped instance sha256 : Sha256 where
  digest b :=
    if b.data = "SCB-1".toUTF8.data then
      ⟨[180, 188, 164, 155, 140, 37, 17, 192, 72, 74, 221, 216, 110, 244, 187,
        152, 74, 238, 147, 68, 97, 1, 51, 30, 123, 36, 231, 154, 227, 7, 39,
        113], rfl⟩
    else
      ⟨[235, 134, 67, 111, 219, 244, 38, 232, 233, 199, 180, 220, 201, 69, 21,
        228, 91, 122, 3, 249, 4, 192, 53, 63, 232, 224, 106, 112, 36, 203, 149,
        160], rfl⟩

def deposit (bankRef : BankRef) : Call :=
  .handleDeposit bankRef ⟨100⟩ "alice" "alice"

/-- Both clocks at `now`, every screen answered with `outcome`. -/
def env (now : Int64) (outcome : ScreenOutcome) : Env :=
  ⟨now, .ok outcome, none, fun _ => 0, fun _ => 0⟩

/-- Who makes the next port call, at one moment. -/
def schedule (e : Env) (is : List ℕ) : List (ℕ × Env) := is.map fun i => (i, e)

def treasury : World := .fresh (SimulatedLedger.new ⟨100⟩ 3600 0)

/-- A ledger on which alice holds the 100. -/
def funded : SimulatedLedger.State :=
  ((SimulatedLedger.new ⟨100⟩ 3600 0).issue "alice" ⟨100⟩ scb1.hash).2

/-- One redemption of everything, `Escrowed`, and its timelock over. -/
def escrowed : World :=
  treasury.runCalls 86400 [(deposit scb1, fun _ => env 0 .pass),
    (.request "alice" ⟨100⟩, fun _ => env 0 .pass),
    (.control (.setNow 86400), fun _ => env 86400 .pass)]

end Sample

end Thbc
