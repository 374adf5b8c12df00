import Thbc.Bin.Startup
import Thbc.Proofs.Receipts

/-!
# What a deployment does today

In chain-bridge mode there is nobody to screen a deposit, no rail to pay on and no route
for an escrow, and the adapters say so. What follows from it for the whole service is
`fail_closed`: deposits are recorded and redemptions requested, and that is all. No row
goes on, no mint is published, whatever calls overlap and whatever bridge and database
answer. What the bridge may be told are attestations, and burns: `confirm` goes to the
ledger before it looks at the row.

The stub of simulated mode decides, by the amount alone, and no deposit above its
ceiling gets past it (`stub_ceiling`).
-/

namespace Thbc.Startup

open Thbc.Lib Thbc.ChainBridge Thbc.Durable Thbc.Relayed

/-- What the adapters of chain-bridge mode answer by themselves. -/
def refusal : (s : Port) → Option s.Reply
  | .compliance (.screen subject amount) => some (RefusingCompliance.screen subject amount)
  | .payouts (.enqueue user seq amount) => some (UnavailablePayoutQueue.enqueue user seq amount)
  | .ledger (.escrowRedemption _) => some (.error (.unsupported
      ("redeem_thbc_for_fiat exists on-chain but Chain Bridge has no route " ++
        "for it yet. Note it is USER-signed: the bridge would relay a transaction the holder " ++
        "already signed, never construct the signer set itself (F8)")))
  | .ledger (.reclaimRedemption _ _) => some (.error (.unsupported
      ("reclaim_redemption exists on-chain but Chain Bridge has no route for " ++
        "it yet; it is USER-signed, so the platform relays and never reclaims on a holder's " ++
        "behalf (F8)")))
  | _ => none

section Runs

variable [Sha256]

/-- The tables, behind these adapters. -/
def refuse : Handler Port Port.Reply Conditions Tables
  | c, s, w => match refusal s with
    | some b => (b, w)
    | none => Durable.exec c s w

variable {Auth : Type}

theorem carries_chainBridge (ledger : ChainBridgeLedger Auth) (s : Port) :
    (chainBridge ledger s).Carries Relayed.exec id
      fun w b w' => ∃ e, refuse e s w = (b, w') := by
  cases s with
  | compliance m =>
      cases m
      exact fun w => ⟨ample, rfl⟩
  | payouts m =>
      cases m
      exact fun w => ⟨ample, rfl⟩
  | ledger m =>
      have hany := exec_open (s := .ledger m) trivial
      cases m with
      | snapshot => exact carries_call fun e w => ⟨e.rest, rfl⟩
      | escrowRedemption redemption => exact fun w => ⟨ample, rfl⟩
      | reclaimRedemption user seq => exact fun w => ⟨ample, rfl⟩
      | _ => exact carries_exchange hany
  | _ => exact carries_call fun e w => ⟨e.rest, rfl⟩

omit [Sha256] in
theorem chainBridge_messages (ledger : ChainBridgeLedger Auth) (s : Port) :
    (chainBridge ledger s).Uses (Says ledger s) := by
  have hrelay := uses_messages ledger s
  cases s with
  | compliance m => cases m; trivial
  | payouts m => cases m; trivial
  | _ => exact hrelay

/-! ## Deposits -/

section Deposits

variable {rows₀ rows rows' : List DepositRow} {call : Call} {s : Port} {w : State}

/-- The rows that there were, and deposits nobody has looked at. -/
def Observed (rows₀ rows : List DepositRow) : Prop :=
  ∃ new, rows = rows₀ ++ new ∧ ∀ row ∈ new, row.state = "observed"

/-- A call has a deposit to screen, or none. -/
def Unscreened : OnRamp.Phase → Prop
  | .idle | .fresh _ none => True
  | _ => False

/-- What holds of deposits in every state. -/
structure Shut (rows₀ : List DepositRow) (w : State) : Prop where
  filed : Filed w.1.deposits
  observed : Observed rows₀ w.1.deposits
  silent : ∀ a ∈ w.2, ∀ wallet amount n, a.1 ≠ .ledger (.issue wallet amount n)

omit [Sha256] in
theorem Observed.unscreened (h : Observed rows₀ rows)
    (h₀ : ∀ row ∈ rows₀, row.state ≠ "screened") : ∀ row ∈ rows, row.state ≠ "screened" := by
  obtain ⟨new, rfl, hnew⟩ := h
  intro row hrow
  obtain hrow | hrow := List.mem_append.mp hrow
  · exact h₀ row hrow
  · rw [hnew row hrow]
    decide

theorem not_issue_of_asks {q : OnRamp.Phase} (hq : Unscreened q)
    (hasks : (OnRamp.grammar call).asks q s) (wallet : String) (amount : Thb)
    (n : BankRefHash) : s ≠ .ledger (.issue wallet amount n) := by
  intro hs
  subst hs
  obtain ⟨d, rfl, -⟩ := issue_asked hasks
  exact hq

/-- A call that is idle files a deposit, or leaves the table alone. -/
theorem shut_idle (c : Conditions) (hw : Shut rows₀ w)
    (h₀ : ∀ row ∈ rows₀, row.state ≠ "screened") (hasks : OnRamp.opens call s) :
    (Filed (refuse c s w.1).2.deposits ∧ Observed rows₀ (refuse c s w.1).2.deposits) ∧
      Unscreened ((OnRamp.grammar call).advance .idle ⟨s, (refuse c s w.1).1⟩) := by
  have hsame : Filed w.1.deposits ∧ Observed rows₀ w.1.deposits := ⟨hw.filed, hw.observed⟩
  cases s with
  | deposits m =>
      obtain ⟨r, rows', hx, hr⟩ := exec_deposits c m w.1
      rw [show refuse c (.deposits m) w.1 = _ from hx]
      cases m with
      | insert d =>
          refine ⟨?_, ?_⟩
          · obtain ⟨rfl, -⟩ | ⟨-, hfree, rfl⟩ := Intake.replies_insert hr
            · exact hsame
            · refine ⟨hw.filed.append hfree, ?_⟩
              obtain ⟨new, hrows, hnew⟩ := hw.observed
              refine ⟨new ++ [.of d], ?_, fun row hrow => ?_⟩
              · rw [hrows, List.append_assoc]
              · obtain hrow | hrow := List.mem_append.mp hrow
                · exact hnew row hrow
                · rw [List.mem_singleton.mp hrow]
                  show d.state.asStr = _
                  rw [hasks.1]
                  rfl
          · rcases r with e | u <;> trivial
      | find n =>
          obtain ⟨rfl, hfound⟩ := Intake.replies_find hr
          refine ⟨hsame, ?_⟩
          rcases r with e | found
          · trivial
          · cases found with
            | none => trivial
            | some d =>
                obtain ⟨row, hrow, -, hread⟩ := hfound d rfl
                have hstate : d.state ≠ .screened := by
                  intro hs
                  obtain ⟨-, -, -, -, hrowstate, -⟩ :=
                    PgDepositRepository.rowToDeposit_ok.mp hread
                  rw [hs] at hrowstate
                  exact hw.observed.unscreened h₀ row hrow hrowstate
                show Unscreened
                  (if OnRamp.retries call ∧ d.state = .screened then .passed d .found else .idle)
                rw [if_neg fun h => hstate h.2]
                trivial
      | update d => exact hasks.elim
      | totalEncumbered =>
          obtain rfl := replies_read (fun _ => rfl) hr
          exact ⟨hsame, trivial⟩
      | held =>
          obtain rfl := replies_read (fun _ => rfl) hr
          exact ⟨hsame, trivial⟩
      | totalIssued =>
          obtain rfl := replies_read (fun _ => rfl) hr
          exact ⟨hsame, trivial⟩
  | ledger m => cases m <;> first | exact hasks.elim | exact ⟨hsame, trivial⟩
  | compliance m => exact hasks.elim
  | payouts m =>
      cases m
      exact ⟨hsame, trivial⟩
  | _ => exact ⟨hsame, trivial⟩

theorem shut_step {q : OnRamp.Phase} (c : Conditions) (hw : Shut rows₀ w)
    (h₀ : ∀ row ∈ rows₀, row.state ≠ "screened") (hq : Unscreened q)
    (hasks : (OnRamp.grammar call).asks q s) :
    Shut rows₀ (refuse.logged c s w).2 ∧
      Unscreened ((OnRamp.grammar call).advance q ⟨s, (refuse c s w.1).1⟩) := by
  have hsilent : ∀ a ∈ (refuse.logged c s w).2.2, ∀ wallet amount n,
      a.1 ≠ .ledger (.issue wallet amount n) := by
    intro a ha wallet amount n
    obtain rfl | ha := List.mem_cons.mp ha
    · exact not_issue_of_asks hq hasks wallet amount n
    · exact hw.silent a ha wallet amount n
  cases q with
  | idle =>
      obtain ⟨⟨hfiled, hobserved⟩, hnext⟩ := shut_idle c hw h₀ hasks
      exact ⟨⟨hfiled, hobserved, hsilent⟩, hnext⟩
  | fresh d verdict =>
      cases verdict with
      | none =>
          -- The screen is refused, and the call ends there.
          obtain rfl : s = _ := hasks
          exact ⟨⟨hw.filed, hw.observed, hsilent⟩, trivial⟩
      | some o => exact hq.elim
  | passed d gate => exact hq.elim

theorem relies_shut (rows₀ : List DepositRow) (h₀ : ∀ row ∈ rows₀, row.state ≠ "screened")
    (calls : List Call) :
    Relies refuse (fun i => OnRamp.grammar (callAt calls i)) (Shut rows₀)
      (fun q _ => Unscreened q) fun _ _ => True where
  honest i s e w hw := by
    cases s with
    | deposits m => exact hears_deposits hw.filed e (.deposits m)
    | _ => trivial
  inv i q s e w hw hq hasks := (shut_step e hw h₀ hq hasks).1
  advances i q s e w hw hq hasks := (shut_step e hw h₀ hq hasks).2
  rely i q s e w hw hq hasks := trivial
  stable q w w' hw hq _ := hq

end Deposits

/-! ## Redemptions -/

section Redemptions

variable {rows₀ rows rows' : List RedemptionRow} {call : Call} {s : Port} {w : State}

/-- The rows that there were, and redemptions that are requested. -/
def Requested (rows₀ rows : List RedemptionRow) : Prop :=
  ∃ new, rows = rows₀ ++ new ∧ ∀ row ∈ new, row.state = "requested"

/-- A row that nothing can be done with. -/
def Unescrowed (row : RedemptionRow) : Prop :=
  row.state ≠ "escrowed" ∧ row.state ≠ "payout_queued"

/-- A call has a redemption to escrow, or one that is not to be settled. -/
def Unsettled : OffRamp.Phase → Prop
  | .idle | .drafting _ .inserted => True
  | .settling r .confirming | .settling r .reclaiming => r.state.isPending = false
  | _ => False

omit [Sha256] in
theorem Requested.unescrowed (h : Requested rows₀ rows) (h₀ : ∀ row ∈ rows₀, Unescrowed row) :
    ∀ row ∈ rows, Unescrowed row := by
  obtain ⟨new, rfl, hnew⟩ := h
  intro row hrow
  obtain hrow | hrow := List.mem_append.mp hrow
  · exact h₀ row hrow
  · rw [Unescrowed, hnew row hrow]
    decide

omit [Sha256] in
theorem not_pending_of_read {row : RedemptionRow} {r : Redemption} (h : Unescrowed row)
    (hread : PgRedemptionRepository.rowToRedemption row = .ok r) :
    r.state.isPending = false := by
  obtain ⟨-, -, -, hstate, -⟩ := PgRedemptionRepository.rowToRedemption_ok.mp hread
  obtain ⟨hescrowed, hqueued⟩ := h
  cases hs : r.state with
  | escrowed =>
      rw [hs] at hstate
      exact absurd hstate hescrowed
  | payoutQueued =>
      rw [hs] at hstate
      exact absurd hstate hqueued
  | _ => rfl

omit [Sha256] in
/-- What becomes of a row that is read. -/
theorem unsettled_found {r : Redemption} (h : r.state.isPending = false) (user : String)
    (seq : UInt64) :
    Unsettled ((OffRamp.grammar call).advance .idle
      ⟨.redemptions (.find user seq), .ok (some r)⟩) := by
  rw [OffRamp.advance_find]
  cases hsettles : OffRamp.settles call r with
  | none => trivial
  | some stage =>
      obtain ⟨rfl, hescrowed, -⟩ | ⟨rfl, -⟩ | ⟨rfl, -⟩ := OffRamp.settles_cases hsettles
      · rw [hescrowed] at h
        cases h
      · exact h
      · exact h

/-- A call that is idle files a redemption, or leaves the table alone. -/
theorem requested_idle (c : Conditions) (hrows : Requested rows₀ w.1.redemptions)
    (h₀ : ∀ row ∈ rows₀, Unescrowed row) (hasks : OffRamp.opens call s) :
    Requested rows₀ (refuse c s w.1).2.redemptions ∧
      Unsettled ((OffRamp.grammar call).advance .idle ⟨s, (refuse c s w.1).1⟩) := by
  cases s with
  | redemptions m =>
      obtain ⟨b, rows', hx, hb⟩ := exec_redemptions c m w.1
      rw [show refuse c (.redemptions m) w.1 = _ from hx]
      cases m with
      | insert r =>
          refine ⟨?_, ?_⟩
          · obtain ⟨rfl, -⟩ | ⟨-, -, -, rfl⟩ := replies_insert hb
            · exact hrows
            · obtain ⟨new, hrows, hnew⟩ := hrows
              refine ⟨new ++ [.of r], ?_, fun row hrow => ?_⟩
              · rw [hrows, List.append_assoc]
              · obtain hrow | hrow := List.mem_append.mp hrow
                · exact hnew row hrow
                · rw [List.mem_singleton.mp hrow]
                  show r.state.asStr = _
                  rw [hasks.1]
                  rfl
          · rcases b with e | u <;> trivial
      | find user seq =>
          obtain ⟨rfl, hfound⟩ := replies_find hb
          refine ⟨hrows, ?_⟩
          rcases b with e | found
          · trivial
          · cases found with
            | none => trivial
            | some r =>
                obtain ⟨-, row, hrow, -, hread⟩ := hfound r rfl
                exact unsettled_found
                  (not_pending_of_read (hrows.unescrowed h₀ row hrow) hread) user seq
      | update r => exact hasks.elim
      | nextSeq user =>
          obtain rfl := Durable.Payouts.replies_read (fun _ => rfl) hb
          exact ⟨hrows, trivial⟩
      | reclaimable now =>
          obtain rfl := Durable.Payouts.replies_read (fun _ => rfl) hb
          exact ⟨hrows, trivial⟩
      | totalRedeemed =>
          obtain rfl := Durable.Payouts.replies_read (fun _ => rfl) hb
          exact ⟨hrows, trivial⟩
      | pendingCount =>
          obtain rfl := Durable.Payouts.replies_read (fun _ => rfl) hb
          exact ⟨hrows, trivial⟩
  | ledger m => cases m <;> first | exact hasks.elim | exact ⟨hrows, trivial⟩
  | compliance m =>
      cases m
      exact ⟨hrows, trivial⟩
  | payouts m => exact hasks.elim
  | _ => exact ⟨hrows, trivial⟩

theorem requested_step {q : OffRamp.Phase} (c : Conditions)
    (hrows : Requested rows₀ w.1.redemptions) (h₀ : ∀ row ∈ rows₀, Unescrowed row)
    (hq : Unsettled q) (hasks : (OffRamp.grammar call).asks q s) :
    Requested rows₀ (refuse c s w.1).2.redemptions ∧
      Unsettled ((OffRamp.grammar call).advance q ⟨s, (refuse c s w.1).1⟩) := by
  cases q with
  | idle => exact requested_idle c hrows h₀ hasks
  | drafting r stage =>
      cases stage with
      | inserted =>
          -- There is no route for the escrow.
          obtain rfl : s = _ := hasks
          exact ⟨hrows, trivial⟩
      | _ => exact hq.elim
  | settling r stage =>
      cases stage with
      | confirming =>
          obtain rfl : s = _ := hasks
          refine ⟨hrows, ?_⟩
          generalize (refuse c (.ledger (.confirmRedemption r.user r.seq)) w.1).1 = b
          rcases b with e | o
          · trivial
          · cases o with
            | confirmed =>
                show Unsettled (if r.state.isPending then .settling r .burned else .idle)
                rw [if_neg (by rw [show r.state.isPending = false from hq]; decide)]
                trivial
            | submitted => trivial
            | failed => trivial
      | reclaiming =>
          obtain rfl : s = _ := hasks
          refine ⟨hrows, ?_⟩
          generalize (refuse c .clock w.1).1 = now
          cases hreclaim : r.reclaim now with
          | error e =>
              rw [OffRamp.advance_early hreclaim]
              trivial
          | ok r' =>
              have hpending := (Redemption.reclaim_ok.mp hreclaim).1
              rw [show r.state.isPending = false from hq] at hpending
              cases hpending
      | _ => exact hq.elim

theorem relies_requested (rows₀ : List RedemptionRow) (h₀ : ∀ row ∈ rows₀, Unescrowed row)
    (calls : List Call) :
    Relies refuse (fun i => OffRamp.grammar (callAt calls i))
      (fun w => Requested rows₀ w.1.redemptions) (fun q _ => Unsettled q)
      fun _ _ => True where
  honest i s e w hw := by
    cases s with
    | redemptions m => exact Durable.Payouts.hears_redemptions (w := w) e (.redemptions m)
    | _ => trivial
  inv i q s e w hw hq hasks := (requested_step e hw h₀ hq hasks).1
  advances i q s e w hw hq hasks := (requested_step e hw h₀ hq hasks).2
  rely i q s e w hw hq hasks := trivial
  stable q w w' hw hq _ := hq

end Redemptions

/-! ## The deployment -/

/-- Nothing but records: no row goes on, and no mint is published. -/
theorem fail_closed (ledger : ChainBridgeLedger Auth) (deltaSecs : Int64) (calls : List Call)
    {w : Tables} (hrows : Filed w.deposits)
    (hdeposits : ∀ row ∈ w.deposits, row.state ≠ "screened")
    (hredemptions : ∀ row ∈ w.redemptions, Unescrowed row) (ts : List (ℕ × Moment Auth)) :
    let c := (Relayed.Calls.start (chainBridge ledger) deltaSecs calls w).run Relayed.exec ts
    Observed w.deposits c.world.deposits ∧ Requested w.redemptions c.world.redemptions ∧
      ∀ i subject m r, (i, ⟨.broker (.publish subject m), r⟩) ∈ c.log →
        ∀ wallet amount n, intent m ≠ .issue wallet amount n := by
  intro c
  obtain ⟨us, htracks⟩ := (Pool.tracks_start (carries_chainBridge ledger)
    (calls.map (Call.prog deltaSecs)) w).run (carries_chainBridge ledger) ts
  have hworld : _ = c.world := htracks.world
  have hon := Pool.rely (relies_shut w.deposits hdeposits calls)
    (c := Durable.Calls.start deltaSecs calls w)
    ⟨Durable.Calls.obeys_start (OnRamp.call_obeys deltaSecs) _ _,
      ⟨hrows, ⟨[], (List.append_nil _).symm, fun _ h => absurd h List.not_mem_nil⟩,
        fun _ h => absurd h List.not_mem_nil⟩, fun _ => trivial⟩ us
  have hoff := Pool.rely (relies_requested w.redemptions hredemptions calls)
    (c := Durable.Calls.start deltaSecs calls w)
    ⟨Durable.Calls.obeys_start (OffRamp.call_obeys deltaSecs) _ _,
      ⟨[], (List.append_nil _).symm, fun _ h => absurd h List.not_mem_nil⟩,
      fun _ => trivial⟩ us
  rw [← hworld]
  refine ⟨hon.inv.observed, hoff.inv, fun i subject m r hmem wallet amount n hintent => ?_⟩
  obtain ⟨s, hasked, hsays⟩ := htracks.asked i _ hmem
  obtain ⟨rfl, -, -⟩ := hsays _ (chainBridge_messages ledger s)
  rw [hintent] at hasked
  obtain ⟨b, hb⟩ | hpending := hasked
  · exact hon.inv.silent _ (List.mem_map_of_mem hb) wallet amount n rfl
  · exact not_issue_of_asks (hon.holds i) (hon.obeys.asks hpending) wallet amount n rfl

theorem carries_simulated (stub : StubCompliance) (s : Port) :
    (simulated stub s).Carries Durable.exec id
      fun w b w' => ∃ e, Durable.exec e s w = (b, w') := by
  cases s with
  | compliance m =>
      cases m with
      | screen subject amount =>
          exact fun w => exec_open (s := .compliance (.screen subject amount)) trivial _ w
  | _ => exact carries_call fun e w => ⟨e, rfl⟩

/-- What the stub decides: the amount, and nothing else. -/
theorem stub_ceiling (stub : StubCompliance) (deltaSecs : Int64) (calls : List Call)
    (runs : List ReconciliationRow) (ts : List (ℕ × Conditions)) :
    let c := (Pool.start ((calls.map (Call.prog deltaSecs)).map (Prog.expand (simulated stub)))
      ⟨[], [], runs⟩).run Durable.exec ts
    ∀ row ∈ c.world.deposits, ∀ d, PgDepositRepository.rowToDeposit row = .ok d →
      (d.state ∈ [.screened, .attested, .issued] → d.amount ≤ stub.autoPassCeiling) ∧
      (d.state = .encumbered → stub.autoPassCeiling < d.amount) := by
  intro c row hrow d hread
  obtain ⟨us, htracks⟩ := (Pool.tracks_start (carries_simulated stub)
    (calls.map (Call.prog deltaSecs)) ⟨[], [], runs⟩).run (carries_simulated stub) ts
  have hworld : _ = c.world := htracks.world
  have hrely := relying_deposits deltaSecs calls (w := ⟨[], [], runs⟩)
    ⟨List.nodup_nil, fun _ h => absurd h List.not_mem_nil⟩
    (fun _ h => absurd h List.not_mem_nil) us
  rw [← hworld] at hrow
  obtain ⟨d', hread', hclaims⟩ := hrely.inv.1.2 row hrow
  obtain rfl := Except.ok.inj (hread.symm.trans hread')
  -- What the provider has answered is what the stub answers.
  have hstub : ∀ o, ⟨.compliance (.screen d.beneficiary d.amount), .ok o⟩ ∈
      ((Durable.Calls.start deltaSecs calls ⟨[], [], runs⟩).run Durable.exec us).view.2 ++
        past [] → stub.screen d.beneficiary d.amount = .ok o := by
    intro o hmem
    obtain hmem | hmem := List.mem_append.mp hmem
    · obtain ⟨⟨i, a⟩, hlog, heq⟩ := List.mem_map.mp hmem
      obtain rfl : a = _ := heq
      obtain ⟨l, -, -, hanswer⟩ := htracks.answered i _ _ hlog
      exact hanswer
    · exact absurd hmem List.not_mem_nil
  refine ⟨fun hs => ?_, fun hs => ?_⟩
  · have hpass := Except.ok.inj (hstub .pass (hclaims.screened hs))
    by_contra hle
    have hlt : stub.autoPassCeiling < d.amount := UInt64.not_le.mp hle
    rw [if_pos hlt] at hpass
    cases hpass
  · have hfail := Except.ok.inj (hstub .fail (hclaims.encumbered hs))
    by_contra hle
    rw [if_neg hle] at hfail
    cases hfail

end Runs

/-! ## A day of it -/

open Sample

/-- A deposit that was to be issued, and a redemption that was asked for. -/
def shelved : Tables where
  deposits := [⟨scb1.hash.toHex, "SCB-1", 100, "alice", "alice", "attested", 0⟩]
  redemptions := [⟨"alice", 1, 100, "requested", 0, none, 86400⟩]
  runs := []

/-- A webhook, a retry, a request, and an attempt to settle each of the two. -/
def today : List Call :=
  [Sample.deposit scb2, .retryHeld scb1, .request "alice" ⟨100⟩, .processPayout "alice" 1,
    .confirm "alice" 1]

def turns : List (ℕ × Moment Unit) :=
  (List.range 9).flatMap fun _ =>
    [(0, prompt), (1, prompt), (2, prompt), (3, prompt), (4, prompt)]

theorem filed_shelved : Filed shelved.deposits where
  nodup := List.nodup_singleton _
  own := List.forall_mem_singleton.mpr fun b hb =>
    filed_waiting.own ⟨scb1.hash.toHex, "SCB-1", 100, "alice", "alice", "screened", 0⟩
      (List.mem_singleton_self _) b hb

/-- The burn is published, and nothing comes of it. -/
theorem fail_closed_shelved :
    let c := (Relayed.Calls.start (chainBridge unsigned) 86400 today shelved).run
      Relayed.exec turns
    (c.world.deposits.map DepositRow.state = ["attested", "observed"] ∧
      c.world.redemptions.map RedemptionRow.state = ["requested", "requested"] ∧
      c.log.countP (fun e => publishes e.2.1) = 1) ∧
    Observed shelved.deposits c.world.deposits ∧
      Requested shelved.redemptions c.world.redemptions ∧
      ∀ i subject m r, (i, ⟨.broker (.publish subject m), r⟩) ∈ c.log →
        ∀ wallet amount n, intent m ≠ .issue wallet amount n := by
  have hdeposits : ∀ row ∈ shelved.deposits, row.state ≠ "screened" :=
    List.forall_mem_singleton.mpr (by decide)
  have hredemptions : ∀ row ∈ shelved.redemptions, Unescrowed row :=
    List.forall_mem_singleton.mpr ⟨by decide, by decide⟩
  exact ⟨by decide +kernel,
    fail_closed unsigned 86400 today filed_shelved hdeposits hredemptions turns⟩

end Thbc.Startup
