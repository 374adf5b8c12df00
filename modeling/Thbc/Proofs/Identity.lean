import Thbc.System.OnRampStep
import Thbc.Proofs.Refinement
import Thbc.Ledger.Conservation

/-!
# The F2 identity, end to end

`issued − redeemed = supply`, where the three come from three stores that no
one transaction spans. A mint moves the supply one port call before the row
says `Issued`, a burn one port call before the row says `Confirmed`.

So the identity that holds at every port call is about the rows as the ledger
has them already: `Phase.settled` on each ramp. Each port call mints some
tokens and burns some (`minted`, `burned`); the ledger's supply, the issued
rows and the redeemed rows each move by their share of that, which is one
lemma a store (`supply_exec`, `OnRamp.Alone.issued`, `OffRamp.Alone.redeemed`).
A call that returns leaves no row behind, and the identity is about the rows
as they are.
-/

namespace Thbc

open Thbc.Lib

/-- The tokens a port call has minted. -/
def minted : Act Port Port.Reply → ℕ
  | ⟨.ledger (.issue _ amount _), .ok .confirmed⟩ => amount.toNat
  | _ => 0

/-- The tokens a port call has burned, from the record as it was. -/
def burned (w : World) : Act Port Port.Reply → ℕ
  | ⟨.ledger (.confirmRedemption user seq), .ok .confirmed⟩ =>
      w.ledger.escrows.weight (fun record => record.amount.toNat) (user, seq)
  | _ => 0

/-- The sum of the amounts of the `Issued` rows. -/
def issuedRows (rows : InMemoryDepositRepo) : ℕ :=
  rows.amountOf fun d => d.state = .issued

/-! ## The ledger -/

section Ledger

variable [Sha256]

theorem conserved_exec {w : World} (hw : w.ledger.Conserved) (e : Env) (s : Port) :
    (World.exec e s w).2.ledger.Conserved := by
  cases s with
  | ledger m => exact SimulatedLedger.State.conserved_call hw m
  | simulator m => exact SimulatedLedger.State.conserved_control hw m
  | payouts m =>
      obtain ⟨r, sent, hx⟩ := World.exec_payouts e m w
      rw [hx]
      exact hw
  | _ => exact hw

/-- The supply goes up by what is minted and down by what is burned. -/
theorem supply_exec {w : World} (hw : w.ledger.Conserved) (e : Env) (s : Port) :
    (World.exec e s w).2.ledger.reserve.supply.toNat +
        burned w ⟨s, (World.exec e s w).1⟩ =
      w.ledger.reserve.supply.toNat + minted ⟨s, (World.exec e s w).1⟩ := by
  cases s with
  | ledger m =>
      cases m with
      | snapshot => rfl
      | issue beneficiary amount nullifier =>
          have hx : World.exec e (.ledger (.issue beneficiary amount nullifier)) w =
              ((w.ledger.issue beneficiary amount nullifier).1, { w with
                ledger := (w.ledger.issue beneficiary amount nullifier).2 }) := rfl
          rw [hx]
          rcases SimulatedLedger.State.issue_conserved hw beneficiary amount
            nullifier with ⟨err, heq, -⟩ | ⟨-, v, balance, hg, -, heq⟩
          · rw [heq]; rfl
          · rw [heq]
            exact (ReserveState.checkIssuance_ok.mp hg).2.2.1
      | escrowRedemption r =>
          have hx : World.exec e (.ledger (.escrowRedemption r)) w =
              ((w.ledger.escrowRedemption r).1, { w with
                ledger := (w.ledger.escrowRedemption r).2 }) := rfl
          rw [hx]
          rcases w.ledger.escrowRedemption_cases r with
            ⟨err, heq⟩ | ⟨-, remaining, -, heq⟩
          · rw [heq]; rfl
          · rw [heq]; rfl
      | confirmRedemption user seq =>
          have hx : World.exec e (.ledger (.confirmRedemption user seq)) w =
              ((w.ledger.confirmRedemption user seq).1, { w with
                ledger := (w.ledger.confirmRedemption user seq).2 }) := rfl
          rw [hx]
          rcases w.ledger.confirmRedemption_cases user seq with
            ⟨err, heq, -⟩ | ⟨record, supply, hrec, -, hsum, heq⟩
          · rw [heq]; rfl
          · rw [heq]
            show supply.toNat + w.ledger.escrows.weight _ (user, seq) = _
            rw [AList.weight_of_lookup hrec, Nat.add_comm]
            exact hsum.symm
      | reclaimRedemption user seq =>
          have hx : World.exec e (.ledger (.reclaimRedemption user seq)) w =
              ((w.ledger.reclaimRedemption user seq).1, { w with
                ledger := (w.ledger.reclaimRedemption user seq).2 }) := rfl
          rw [hx]
          rcases SimulatedLedger.State.reclaimRedemption_conserved hw user seq with
            ⟨err, heq⟩ | ⟨record, balance, -, -, -, -, heq⟩
          · rw [heq]; rfl
          · rw [heq]; rfl
      | updateAttestation reserve encumbered => rfl
  | simulator m =>
      obtain ⟨_, _, _, _, _, heq, -⟩ := w.ledger.control_cases m
      have hx : World.exec e (.simulator m) w =
          ((w.ledger.control m).1, { w with ledger := (w.ledger.control m).2 }) := rfl
      rw [hx, heq]
      rfl
  | payouts m =>
      obtain ⟨r, sent, hx⟩ := World.exec_payouts e m w
      rw [hx]
      rfl
  | _ => rfl

end Ledger

/-! ## The deposit rows -/

namespace OnRamp

variable [Sha256]

/-- The state that is persisted once a copy has come this far. -/
def Gate.persisted : Gate → DepositState
  | .attested | .minted => .attested
  | _ => .screened

/-- The rows once the call has written what the ledger has already. -/
def Phase.settled (q : Phase) (rows : InMemoryDepositRepo) : InMemoryDepositRepo :=
  match q with
  | .passed d .minted =>
      AList.insert d.nullifier { d with state := .issued } rows
  | _ => rows

/-- What the copy of a call has to do with its row, when no other call is
under way. -/
def Phase.Copied (rows : InMemoryDepositRepo) : Phase → Prop
  | .idle => True
  | .fresh d _ => rows.lookup d.nullifier = some d ∧ d.state = .observed
  | .passed d gate =>
      rows.lookup d.nullifier = some { d with state := gate.persisted }

/-- What holds at every port call of a call that nothing overlaps. -/
structure Alone (q : Phase) (w : World) : Prop where
  keyed : Keyed w.deposits
  copied : q.Copied w.deposits

/-- One port call of a call that nothing overlaps. -/
theorem Alone.step {call : Call} {w w' : World} {q q' : Phase}
    {a : Act Port Port.Reply} (h : Alone q w) (hs : Step call w w' q a q') :
    Alone q' w' := by
  obtain ⟨hkeyed, hcopied⟩ := h
  cases hs with
  | inserted hd _ _ hdep _ =>
      refine ⟨?_, ?_⟩
      · rw [hdep]; exact keyed_insert hkeyed rfl
      · rw [hdep]; exact ⟨AList.lookup_insert _, hd⟩
  | @found n d hd hrow hw =>
      subst hw
      have hn : d.nullifier = n := hkeyed n d hrow
      have hself : { d with state := .screened } = d := by rw [← hd]
      refine ⟨hkeyed, ?_⟩
      show _ = some { d with state := DepositState.screened }
      rw [hself, hn]
      exact hrow
  | screened hw => subst hw; exact ⟨hkeyed, hcopied⟩
  | unscreened hw => subst hw; exact ⟨hkeyed, trivial⟩
  | @judged d o hdep _ =>
      refine ⟨?_, ?_⟩
      · rw [hdep]; exact keyed_insert hkeyed rfl
      · rw [hdep]
        cases o with
        | pass => exact AList.lookup_insert _
        | fail => trivial
  | timed hw => subst hw; exact ⟨hkeyed, hcopied⟩
  | sighted hw _ => subst hw; exact ⟨hkeyed, hcopied⟩
  | cleared hw _ _ => subst hw; exact ⟨hkeyed, hcopied⟩
  | attested hdep _ =>
      refine ⟨?_, ?_⟩
      · rw [hdep]; exact keyed_insert hkeyed rfl
      · rw [hdep]; exact AList.lookup_insert _
  | minted hdep _ => exact ⟨by rw [hdep]; exact hkeyed, by rw [hdep]; exact hcopied⟩
  | refused hdep _ _ => exact ⟨by rw [hdep]; exact hkeyed, trivial⟩
  | issued hdep _ => exact ⟨by rw [hdep]; exact keyed_insert hkeyed rfl, trivial⟩
  | other _ _ hdep _ => exact ⟨by rw [hdep]; exact hkeyed, trivial⟩

omit [Sha256] in
theorem minted_of_quiet {a : Act Port Port.Reply} (ha : quiet a = true) :
    minted a = 0 := by
  unfold minted
  split
  · cases ha
  · rfl

/-- A call that puts its copy down is not ahead of its row. -/
theorem Alone.settled_of_drop {q : Phase} {w : World} (h : Alone q w)
    (hdrop : mayDrop w q) : q.settled w.deposits = w.deposits := by
  cases q with
  | idle => rfl
  | fresh d v => rfl
  | passed d gate =>
      cases gate with
      | minted =>
          obtain ⟨d', hd', hnone⟩ := hdrop
          cases hd'
          rw [show w.deposits.lookup d.nullifier = _ from h.copied] at hnone
          cases hnone
      | _ => rfl

omit [Sha256] in
/-- A write that leaves the row short of `Issued`. -/
theorem issuedRows_insert {rows : InMemoryDepositRepo} {n : BankRefHash} {d : Deposit}
    (hrow : ∀ row, rows.lookup n = some row → row.state ≠ .issued)
    (hd : d.state ≠ .issued) :
    issuedRows (AList.insert n d rows) = issuedRows rows := by
  rw [issuedRows, InMemoryDepositRepo.amountOf_insert
    (fun row hr => decide_eq_false (hrow row hr)), if_neg (by simpa using hd)]
  rfl

/-- The issued rows, with what the ledger has already, grow by what is
minted. -/
theorem Alone.issued {call : Call} {w w' : World} {q q' : Phase}
    {a : Act Port Port.Reply} (h : Alone q w) (hs : Step call w w' q a q') :
    issuedRows (q'.settled w'.deposits) =
      issuedRows (q.settled w.deposits) + minted a := by
  have hcopied := h.copied
  cases hs with
  | inserted hd _ hnone hdep _ =>
      show issuedRows w'.deposits = _
      rw [hdep]
      exact issuedRows_insert (by rw [hnone]; rintro row ⟨⟩) (by rw [hd]; decide)
  | found _ _ hw => subst hw; rfl
  | screened hw => subst hw; rfl
  | unscreened hw => subst hw; rfl
  | @judged d o hdep _ =>
      obtain ⟨hlook, hobs⟩ := hcopied
      have hsame : issuedRows w'.deposits = issuedRows w.deposits := by
        rw [hdep]
        refine issuedRows_insert (fun row hrow => ?_) ?_
        · rw [hlook] at hrow
          rw [← Option.some.inj hrow, hobs]
          decide
        · cases o with
          | pass => simp [Deposit.screenTarget]
          | fail => simp [Deposit.screenTarget]
      cases o with
      | pass => exact hsame
      | fail => exact hsame
  | timed hw => subst hw; rfl
  | sighted hw _ => subst hw; rfl
  | cleared hw _ _ => subst hw; rfl
  | @attested d hdep _ =>
      show issuedRows w'.deposits = _
      rw [hdep]
      refine issuedRows_insert (fun row hrow => ?_) (by simp)
      rw [show w.deposits.lookup d.nullifier = _ from hcopied] at hrow
      rw [← Option.some.inj hrow]
      simp [Gate.persisted]
  | @minted d hdep _ =>
      show issuedRows (AList.insert d.nullifier { d with state := .issued }
        w'.deposits) = issuedRows w.deposits + d.amount.toNat
      rw [hdep, issuedRows, InMemoryDepositRepo.amountOf_insert]
      · rfl
      · intro row hrow
        rw [show w.deposits.lookup d.nullifier = _ from hcopied] at hrow
        rw [← Option.some.inj hrow]
        rfl
  | @refused d r hdep hr _ =>
      have hzero : minted ⟨.ledger (.issue d.beneficiaryWallet d.amount
          d.nullifier), r⟩ = 0 := by
        cases r with
        | error e => rfl
        | ok o =>
            cases o with
            | confirmed => exact absurd rfl hr
            | submitted => rfl
            | failed => rfl
      rw [hzero]
      show issuedRows w'.deposits = issuedRows w.deposits
      rw [hdep]
  | issued hdep _ =>
      show issuedRows w'.deposits = _
      rw [hdep]
      rfl
  | @other q a ha hdrop hdep _ =>
      rw [minted_of_quiet ha, h.settled_of_drop hdrop]
      show issuedRows w'.deposits = issuedRows w.deposits
      rw [hdep]

end OnRamp

/-! ## The redemption rows -/

namespace OffRamp

open InMemoryRedemptionRepo

theorem burned_of_quiet {w : World} {a : Act Port Port.Reply} (ha : quiet a = true) :
    burned w a = 0 := by
  unfold burned
  split
  · cases ha
  · rfl

/-- The redeemed rows, with what the ledger has already, grow by what is
burned. -/
theorem Alone.redeemed {call : Call} {w w' : World} {q q' : Phase}
    {a : Act Port Port.Reply} (h : Alone q w) (hs : Step call w w' q a q') :
    (q'.settled w'.redemptions).redeemed =
      (q.settled w.redemptions).redeemed + burned w a := by
  have hcopied := h.copied
  cases hs with
  | @inserted r hr _ hnone hrow _ =>
      show w'.redemptions.redeemed = _
      rw [hrow, redeemed_insert (by rw [hnone]; rintro row ⟨⟩),
        Redemption.supplyReduction_of_ne (by rw [hr]; decide)]
      rfl
  | @found user seq r stage hstage _ hw =>
      subst hw
      obtain ⟨rfl, -⟩ | ⟨rfl, -⟩ | ⟨rfl, -⟩ := settles_cases hstage
      · rfl
      · rfl
      · rfl
  | @escrowed r hrow _ _ =>
      obtain ⟨hlook, hst⟩ := hcopied
      show InMemoryRedemptionRepo.redeemed (AList.insert r.key
        { r with state := .escrowed } w'.redemptions) = w.redemptions.redeemed
      rw [hrow]
      exact redeemed_unmoved hlook (by rw [hst]; decide) (by simp)
  | @applied r r' o now happ hw =>
      subst hw
      obtain ⟨hlook, hst, rfl⟩ := hcopied
      obtain ⟨-, rfl⟩ := Redemption.applyEscrowOutcome_confirmed.mp happ
      have hne : r.state ≠ .confirmed := by rw [hst]; decide
      have hafter : (Phase.settled (.drafting { r with
          state := .escrowed, escrowedAt := some now } .applied)
          w'.redemptions).redeemed = w'.redemptions.redeemed :=
        redeemed_unmoved hlook hne (by simp)
      have hbefore : (Phase.settled (.drafting r (.answered .confirmed))
          w'.redemptions).redeemed = w'.redemptions.redeemed :=
        redeemed_unmoved hlook hne (by simp)
      rw [hafter, hbefore]
      rfl
  | recorded hrow _ => show w'.redemptions.redeemed = _; rw [hrow]; rfl
  | @queued r hrow _ =>
      obtain ⟨hlook, hst⟩ := hcopied
      show w'.redemptions.redeemed = w.redemptions.redeemed
      rw [hrow]
      exact redeemed_unmoved hlook (by rw [hst]; decide) (by simp)
  | enqueued hrow _ => show w'.redemptions.redeemed = _; rw [hrow]; rfl
  | @burned r record q' hq' hrow hrec hb _ =>
      have hlook : w.redemptions.lookup r.key = some r := hcopied
      obtain ⟨hp, hamount⟩ := h.unburned hrec hb
      rw [hq', if_pos hp]
      show InMemoryRedemptionRepo.redeemed (AList.insert r.key
          { r with state := .confirmed } w'.redemptions) =
        w.redemptions.redeemed +
          w.ledger.escrows.weight (fun record => record.amount.toNat) r.key
      rw [hrow, redeemed_update hlook (RedemptionState.ne_confirmed_of_isPending hp),
        AList.weight_of_lookup hrec, hamount]
      rfl
  | confirmed hrow _ => show w'.redemptions.redeemed = _; rw [hrow]; rfl
  | due _ hw => subst hw; rfl
  | @returned r record hrow _ _ _ _ _ =>
      obtain ⟨hlook, hp⟩ := hcopied
      show InMemoryRedemptionRepo.redeemed (AList.insert r.key
        { r with state := .reclaimed } w'.redemptions) = w.redemptions.redeemed
      rw [hrow]
      exact redeemed_unmoved hlook (RedemptionState.ne_confirmed_of_isPending hp) (by simp)
  | reclaimed hrow _ => show w'.redemptions.redeemed = _; rw [hrow]; rfl
  | @other q a ha hdrop hrow _ =>
      rw [burned_of_quiet ha, h.settled_of_drop hdrop]
      show w'.redemptions.redeemed = w.redemptions.redeemed
      rw [hrow]

end OffRamp

/-! ## The identity -/

section Identity

variable [Sha256]

/-- What holds at every port call of a call that nothing overlaps, over all
stores. -/
structure Balanced (q : OnRamp.Phase × OffRamp.Phase) (w : World) : Prop where
  onRamp : OnRamp.Alone q.1 w
  offRamp : OffRamp.Alone q.2 w
  conserved : w.ledger.Conserved
  identity : issuedRows (q.1.settled w.deposits) =
    w.ledger.reserve.supply.toNat + (q.2.settled w.redemptions).redeemed

theorem Balanced.step {call : Call} {q : OnRamp.Phase × OffRamp.Phase} {w : World}
    {s : Port} {e : Env} (h : Balanced q w)
    (hs : ((OnRamp.grammar call).prod (OffRamp.grammar call)).asks q s) :
    Balanced (((OnRamp.grammar call).prod (OffRamp.grammar call)).advance q
      ⟨s, (World.exec e s w).1⟩) (World.exec e s w).2 := by
  have hon := OnRamp.step_exec (e := e) (w := w) hs.1
  have hoff := OffRamp.step_exec (e := e) (w := w) hs.2
  refine ⟨h.onRamp.step hon, h.offRamp.step hoff, conserved_exec h.conserved e s, ?_⟩
  have hissued := h.onRamp.issued hon
  have hredeemed := h.offRamp.redeemed hoff
  have hsupply := supply_exec h.conserved e s
  have hidentity := h.identity
  show issuedRows (OnRamp.Phase.settled ((OnRamp.grammar call).advance q.1 _) _) =
    _ + (OffRamp.Phase.settled ((OffRamp.grammar call).advance q.2 _) _).redeemed
  rw [hissued, hredeemed, hidentity]
  omega

theorem Balanced.runCall {w : World} (h : Balanced (.idle, .idle) w)
    (deltaSecs : Int64) (call : Call × (ℕ → Env)) :
    Balanced (.idle, .idle) (w.runCall deltaSecs call).2 := by
  obtain ⟨q, ⟨hq, hq'⟩, hw⟩ := Prog.Obeys.run (J := Balanced)
    (G := (OnRamp.grammar call.1).prod (OffRamp.grammar call.1))
    (fun _ _ s _ hJ => ⟨OnRamp.hears_exec hJ.onRamp.keyed s,
      OffRamp.hears_exec hJ.offRamp.keyed s⟩)
    (fun _ _ _ _ hJ hs => hJ.step hs)
    ((OnRamp.call_obeys deltaSecs call.1).prod (OffRamp.call_obeys deltaSecs call.1))
    h call.2
  rw [show q = (.idle, .idle) from Prod.ext hq hq'] at hw
  exact hw

theorem Balanced.runCalls {w : World} (h : Balanced (.idle, .idle) w)
    (deltaSecs : Int64) (calls : List (Call × (ℕ → Env))) :
    Balanced (.idle, .idle) (w.runCalls deltaSecs calls) :=
  World.runCalls_induct (fun _ call _ hw => hw.runCall deltaSecs call) h

theorem balanced_new (reserve : Thb) (ttlSecs now : Int64) :
    Balanced (.idle, .idle) (.fresh (SimulatedLedger.new reserve ttlSecs now)) where
  onRamp := by
    refine ⟨?_, trivial⟩
    intro n d h
    cases h
  offRamp := OffRamp.alone_idle.mpr (OffRamp.inStep_new reserve ttlSecs now)
  conserved := SimulatedLedger.State.conserved_new reserve ttlSecs now
  identity := rfl

/-- F2 after every run of calls, one after the other: issued minus redeemed is
the supply, and where the totals fit the reconciliation sees no drift. -/
theorem issued_sub_redeemed (deltaSecs : Int64) (reserve : Thb)
    (ttlSecs now : Int64) (calls : List (Call × (ℕ → Env))) :
    let w := (World.fresh (SimulatedLedger.new reserve ttlSecs now)).runCalls
      deltaSecs calls
    (issuedRows w.deposits : ℤ) - (w.redemptions.redeemed : ℤ) =
        w.ledger.reserve.supply.toNat ∧
      (issuedRows w.deposits < UInt64.size →
        w.redemptions.redeemed < UInt64.size →
        w.deposits.amountOf Deposit.isEncumbering < UInt64.size →
        ∀ es, ∃ report,
          (w.runCall deltaSecs (.reconcile, es)).1 = .ok (.report report) ∧
            report.drift = 0) := by
  intro w
  have hw : Balanced (.idle, .idle) w :=
    (balanced_new reserve ttlSecs now).runCalls deltaSecs calls
  have hidentity : issuedRows w.deposits =
    w.ledger.reserve.supply.toNat + w.redemptions.redeemed := hw.identity
  refine ⟨by omega, ?_⟩
  intro hissued hredeemed hencumbered es
  obtain ⟨issued, hi, hi'⟩ := InMemoryDepositRepo.total_of_lt hissued
  obtain ⟨redeemed, hr, hr'⟩ := InMemoryRedemptionRepo.totalRedeemed_of_lt hredeemed
  obtain ⟨encumbered, he, -⟩ := InMemoryDepositRepo.total_of_lt hencumbered
  have hi'' : issued.toNat = issuedRows w.deposits := hi'
  have hle : redeemed.toNat ≤ issued.toNat := by omega
  obtain ⟨now, hrun⟩ := World.runCall_reconcile hi hr he deltaSecs es
  obtain ⟨report, hreport, hdrift, -⟩ : ∃ report,
      reconcile ⟨issued, redeemed⟩ (w.current encumbered) now = .ok report ∧
      report.drift = (w.ledger.reserve.supply.toNat : ℤ) -
        ((issued.toNat : ℤ) - redeemed.toNat) ∧ _ := reconcile_ok hle
  obtain ⟨report', hreport', heq⟩ | ⟨e, hfail, -⟩ := hrun
  · rw [hreport] at hreport'
    cases hreport'
    exact ⟨report, by rw [heq], by omega⟩
  · rw [hreport] at hfail
    cases hfail

end Identity

end Thbc
