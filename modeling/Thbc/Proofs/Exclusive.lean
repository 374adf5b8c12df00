import Thbc.System.Reconciling
import Thbc.Proofs.Identity
import Thbc.Proofs.Copies
import Thbc.Proofs.Settling
import Mathlib.Algebra.BigOperators.Group.Finset.Basic

/-!
# Calls that keep off each other's records

Calls may overlap here, but no two that work on one record. Then each has its
row to itself from its first read on, as if it ran alone, and what
`Identity` says of one call holds of each of them: the ledger is ahead of the
rows by what the calls owe, the mints and the burns they have still to write
(`Running.identity`).
-/

namespace Thbc

open Thbc.Lib

/-! ## One call -/

namespace OnRamp

variable [Sha256]

def Phase.deposit : Phase → Option Deposit
  | .idle => none
  | .fresh d _ | .passed d _ => some d

/-- What the ledger has minted for a call and the row does not say yet. -/
def Phase.owed : Phase → ℕ
  | .passed d .minted => d.amount.toNat
  | _ => 0

theorem lookup_of_step_ne {call : Call} {w w' : World} {q q' : Phase}
    {a : Act Port Port.Reply} (hs : Step call w w' q a q') {n : BankRefHash}
    {row : Deposit} (hrow : w.deposits.lookup n = some row)
    (hne : ∀ d, q.deposit = some d → d.nullifier ≠ n) :
    w'.deposits.lookup n = some row := by
  have hins : ∀ d d', q.deposit = some d →
      w'.deposits = AList.insert d.nullifier d' w.deposits →
      w'.deposits.lookup n = some row := by
    intro d d' hq hdep
    rw [hdep, AList.lookup_insert_ne fun h => hne d hq h.symm]
    exact hrow
  cases hs with
  | @inserted d _ _ hnone hdep _ =>
      have hn : n ≠ d.nullifier := AList.ne_of_lookup hrow hnone
      rw [hdep, AList.lookup_insert_ne hn]
      exact hrow
  | judged hdep _ => exact hins _ _ rfl hdep
  | attested hdep _ => exact hins _ _ rfl hdep
  | issued hdep _ => exact hins _ _ rfl hdep
  | found _ _ hw => rw [hw]; exact hrow
  | screened hw => rw [hw]; exact hrow
  | unscreened hw => rw [hw]; exact hrow
  | timed hw => rw [hw]; exact hrow
  | sighted hw _ => rw [hw]; exact hrow
  | cleared hw _ _ => rw [hw]; exact hrow
  | minted hdep _ => rw [hdep]; exact hrow
  | refused hdep _ _ => rw [hdep]; exact hrow
  | other _ _ hdep _ => rw [hdep]; exact hrow

theorem Phase.Copied.lookup {rows : InMemoryDepositRepo} {q : Phase}
    (h : q.Copied rows) {d : Deposit} (hd : q.deposit = some d) :
    ∃ row, rows.lookup d.nullifier = some row := by
  cases q with
  | idle => cases hd
  | fresh d' v => cases hd; exact ⟨_, h.1⟩
  | passed d' gate => cases hd; exact ⟨_, h⟩

theorem Phase.Copied.frame {rows rows' : InMemoryDepositRepo} {q : Phase}
    (h : q.Copied rows) (hrows : ∀ d row, q.deposit = some d →
      rows.lookup d.nullifier = some row → rows'.lookup d.nullifier = some row) :
    q.Copied rows' := by
  cases q with
  | idle => trivial
  | fresh d v => exact ⟨hrows d _ rfl h.1, h.2⟩
  | passed d gate => exact hrows d _ rfl h

/-- What a call carries after a step it carried before, or it has just
inserted or found it. -/
theorem deposit_of_step {call : Call} {w w' : World} {q q' : Phase}
    {a : Act Port Port.Reply} (hs : Step call w w' q a q') {d : Deposit}
    (hd : q'.deposit = some d) :
    (∃ d₀, q.deposit = some d₀ ∧ d₀.nullifier = d.nullifier) ∨
    a.1 = .deposits (.insert d) ∨
    ∃ n, a.1 = .deposits (.find n) ∧ w.deposits.lookup n = some d := by
  cases hs with
  | inserted _ _ _ _ _ => cases hd; exact .inr (.inl rfl)
  | @found n d' _ hrow _ => cases hd; exact .inr (.inr ⟨n, rfl, hrow⟩)
  | screened _ => cases hd; exact .inl ⟨_, rfl, rfl⟩
  | unscreened _ => cases hd
  | @judged d' o _ _ =>
      cases o with
      | pass => cases hd; exact .inl ⟨_, rfl, rfl⟩
      | fail => cases hd
  | timed _ => cases hd; exact .inl ⟨_, rfl, rfl⟩
  | sighted _ _ => cases hd; exact .inl ⟨_, rfl, rfl⟩
  | cleared _ _ _ => cases hd; exact .inl ⟨_, rfl, rfl⟩
  | attested _ _ => cases hd; exact .inl ⟨_, rfl, rfl⟩
  | minted _ _ => cases hd; exact .inl ⟨_, rfl, rfl⟩
  | refused _ _ _ => cases hd
  | issued _ _ => cases hd
  | other _ _ _ _ => cases hd

/-- The rows the ledger is ahead of are short by what is owed. -/
theorem Alone.issuedRows_settled {q : Phase} {w : World} (h : Alone q w) :
    issuedRows (q.settled w.deposits) = issuedRows w.deposits + q.owed := by
  have hcopied := h.copied
  cases q with
  | idle => rfl
  | fresh d v => rfl
  | passed d gate =>
      cases gate with
      | minted =>
          show issuedRows (AList.insert d.nullifier { d with state := .issued }
            w.deposits) = issuedRows w.deposits + d.amount.toNat
          rw [issuedRows, InMemoryDepositRepo.amountOf_insert]
          · rfl
          · intro row hrow
            rw [show w.deposits.lookup d.nullifier = _ from hcopied] at hrow
            rw [← Option.some.inj hrow]
            rfl
      | _ => rfl

theorem Alone.issued_owed {call : Call} {w w' : World} {q q' : Phase}
    {a : Act Port Port.Reply} (h : Alone q w) (hs : Step call w w' q a q') :
    issuedRows w'.deposits + q'.owed =
      issuedRows w.deposits + q.owed + minted a := by
  rw [← (h.step hs).issuedRows_settled, ← h.issuedRows_settled]
  exact h.issued hs

end OnRamp

namespace OffRamp

def Phase.redemption : Phase → Option Redemption
  | .idle => none
  | .drafting r _ | .settling r _ => some r

/-- What a call has burned and the row does not say yet. -/
def Phase.owed : Phase → ℕ
  | .settling r .burned => r.amount.toNat
  | _ => 0

def Phase.burns : Phase → Act Port Port.Reply → ℕ
  | .settling r .confirming, ⟨.ledger (.confirmRedemption _ _), .ok .confirmed⟩ =>
      r.amount.toNat
  | _, _ => 0

theorem Phase.burns_of_ne {q : Phase} {s : Port} (b : s.Reply)
    (hs : ∀ user seq, s ≠ .ledger (.confirmRedemption user seq)) :
    q.burns ⟨s, b⟩ = 0 := by
  unfold Phase.burns
  split
  · next heq =>
      obtain ⟨rfl, -⟩ := Sigma.mk.inj heq
      exact absurd rfl (hs _ _)
  · rfl

/-- Neither a request nor a payout is under way. -/
def Phase.Settles : Phase → Prop
  | .drafting _ _ | .settling _ .queueing | .settling _ .queued => False
  | _ => True

/-- Every escrow record has a row of the same amount. -/
def Booked (w : World) : Prop :=
  ∀ k record, w.ledger.escrows.lookup k = some record →
    ∃ row, w.redemptions.lookup k = some row ∧ row.amount = record.amount

theorem Phase.Copied.lookup {rows : InMemoryRedemptionRepo} {q : Phase}
    (hq : q.Settles) (h : q.Copied rows) {r : Redemption}
    (hr : q.redemption = some r) : rows.lookup r.key = some r := by
  cases q with
  | idle => cases hr
  | drafting r' stage => exact hq.elim
  | settling r' stage =>
      cases hr
      cases stage with
      | queueing => exact hq.elim
      | queued => exact hq.elim
      | confirming => exact h
      | burned => exact h.1
      | reclaiming => exact h
      | returning => exact h.1
      | returned => exact h.1

theorem Phase.Copied.frame {rows rows' : InMemoryRedemptionRepo} {q : Phase}
    (hq : q.Settles) (h : q.Copied rows)
    (hrows : ∀ r, q.redemption = some r → rows.lookup r.key = some r →
      rows'.lookup r.key = some r) : q.Copied rows' := by
  cases q with
  | idle => trivial
  | drafting r stage => exact hq.elim
  | settling r stage =>
      cases stage with
      | queueing => exact hq.elim
      | queued => exact hq.elim
      | confirming => exact hrows r rfl h
      | burned => exact ⟨hrows r rfl h.1, h.2⟩
      | reclaiming => exact hrows r rfl h
      | returning => exact ⟨hrows r rfl h.1, h.2⟩
      | returned => exact ⟨hrows r rfl h.1, h.2⟩

theorem lookup_of_step_ne {call : Call} {w w' : World} {q q' : Phase}
    {a : Act Port Port.Reply} (hs : Step call w w' q a q') {k : String × UInt64}
    {row : Redemption} (hrow : w.redemptions.lookup k = some row)
    (hne : ∀ r, q.redemption = some r → r.key ≠ k) :
    w'.redemptions.lookup k = some row := by
  have hins : ∀ r r', q.redemption = some r →
      w'.redemptions = AList.insert r.key r' w.redemptions →
      w'.redemptions.lookup k = some row := by
    intro r r' hq hrows
    rw [hrows, AList.lookup_insert_ne fun h => hne r hq h.symm]
    exact hrow
  cases hs with
  | @inserted r _ _ hnone hrows _ =>
      have hk : k ≠ r.key := AList.ne_of_lookup hrow hnone
      rw [hrows, AList.lookup_insert_ne hk]
      exact hrow
  | found _ _ hw => rw [hw]; exact hrow
  | escrowed hrows _ _ => rw [hrows]; exact hrow
  | applied _ hw => rw [hw]; exact hrow
  | recorded hrows _ => exact hins _ _ rfl hrows
  | queued hrows _ => exact hins _ _ rfl hrows
  | enqueued hrows _ => rw [hrows]; exact hrow
  | burned _ hrows _ _ _ => rw [hrows]; exact hrow
  | confirmed hrows _ => exact hins _ _ rfl hrows
  | due _ hw => rw [hw]; exact hrow
  | returned hrows _ _ _ _ _ => rw [hrows]; exact hrow
  | reclaimed hrows _ => exact hins _ _ rfl hrows
  | other _ _ hrows _ => rw [hrows]; exact hrow

section Traffic

variable {call : Call} {w w' : World} {q q' : Phase} {a : Act Port Port.Reply}

/-- What a call carries after a step it carried before, or it has just found
it. -/
theorem redemption_of_step (hcall : call.isTraffic = true) (hq : q.Settles)
    (hs : Step call w w' q a q') {r : Redemption} (hr : q'.redemption = some r) :
    q.redemption = some r ∨
    ∃ user seq, a.1 = .redemptions (.find user seq) ∧
      w.redemptions.lookup (user, seq) = some r := by
  cases hs with
  | inserted _ hreq _ _ _ => rw [hreq] at hcall; cases hcall
  | @found user seq r' stage _ hfind _ =>
      cases hr
      exact .inr ⟨user, seq, rfl, hfind⟩
  | escrowed _ _ _ => exact hq.elim
  | applied _ _ => exact hq.elim
  | recorded _ _ => exact hq.elim
  | queued _ _ => exact hq.elim
  | enqueued _ _ => exact hq.elim
  | @burned r' record q' hq' _ _ _ _ =>
      rw [hq'] at hr
      split at hr
      · exact .inl hr
      · cases hr
  | confirmed _ _ => cases hr
  | due _ _ => exact .inl hr
  | returned _ _ _ _ _ _ => exact .inl hr
  | reclaimed _ _ => cases hr
  | other _ _ _ _ => cases hr

theorem Phase.Copied.step (hcall : call.isTraffic = true)
    (hkeyed : Keyed w.redemptions) (hq : q.Settles) (h : q.Copied w.redemptions)
    (hs : Step call w w' q a q') : q'.Settles ∧ q'.Copied w'.redemptions := by
  cases hs with
  | inserted _ hreq _ _ _ => rw [hreq] at hcall; cases hcall
  | @found user seq r stage hstage hfind hw =>
      subst hw
      have hkey : r.key = (user, seq) := hkeyed (user, seq) r hfind
      obtain ⟨rfl, -, u, s, hpay⟩ | ⟨rfl, -⟩ | ⟨rfl, -⟩ := settles_cases hstage
      · rw [hpay] at hcall; cases hcall
      · refine ⟨trivial, ?_⟩
        show w'.redemptions.lookup r.key = some r
        rw [hkey]
        exact hfind
      · refine ⟨trivial, ?_⟩
        show w'.redemptions.lookup r.key = some r
        rw [hkey]
        exact hfind
  | escrowed _ _ _ => exact hq.elim
  | applied _ _ => exact hq.elim
  | recorded _ _ => exact hq.elim
  | queued _ _ => exact hq.elim
  | enqueued _ _ => exact hq.elim
  | @burned r record q' hq' hrow _ _ _ =>
      subst hq'
      cases hp : r.state.isPending with
      | true =>
          rw [if_pos rfl]
          exact ⟨trivial, by rw [hrow]; exact h, hp⟩
      | false => exact ⟨trivial, trivial⟩
  | confirmed _ _ => exact ⟨trivial, trivial⟩
  | due hp hw => subst hw; exact ⟨trivial, h, hp⟩
  | returned hrow _ _ _ _ _ => exact ⟨trivial, by rw [hrow]; exact h⟩
  | reclaimed _ _ => exact ⟨trivial, trivial⟩
  | other _ _ _ _ => exact ⟨trivial, trivial⟩

theorem keyed_of_step (hkeyed : Keyed w.redemptions) (hs : Step call w w' q a q') :
    Keyed w'.redemptions := by
  cases hs with
  | inserted _ _ _ hrow _ => rw [hrow]; exact keyed_insert hkeyed rfl
  | found _ _ hw => rw [hw]; exact hkeyed
  | escrowed hrow _ _ => rw [hrow]; exact hkeyed
  | applied _ hw => rw [hw]; exact hkeyed
  | recorded hrow _ => rw [hrow]; exact keyed_insert hkeyed rfl
  | queued hrow _ => rw [hrow]; exact keyed_insert hkeyed rfl
  | enqueued hrow _ => rw [hrow]; exact hkeyed
  | burned _ hrow _ _ _ => rw [hrow]; exact hkeyed
  | confirmed hrow _ => rw [hrow]; exact keyed_insert hkeyed rfl
  | due _ hw => rw [hw]; exact hkeyed
  | returned hrow _ _ _ _ _ => rw [hrow]; exact hkeyed
  | reclaimed hrow _ => rw [hrow]; exact keyed_insert hkeyed rfl
  | other _ _ hrow _ => rw [hrow]; exact hkeyed

end Traffic

section Amounts

variable {call : Call} {w w' : World} {q q' : Phase} {a : Act Port Port.Reply}

/-- The copy of a call has the amount of its row. -/
def Phase.Carried (q : Phase) (w : World) : Prop :=
  ∀ r, q.redemption = some r →
    ∃ row, w.redemptions.lookup r.key = some row ∧ row.amount = r.amount

theorem amount_of_step (hq : q.Carried w) (hs : Step call w w' q a q')
    {k : String × UInt64} {row : Redemption} (hrow : w.redemptions.lookup k = some row) :
    ∃ row', w'.redemptions.lookup k = some row' ∧ row'.amount = row.amount := by
  have hins : ∀ r r', q.redemption = some r → r'.amount = r.amount →
      w'.redemptions = AList.insert r.key r' w.redemptions →
      ∃ row', w'.redemptions.lookup k = some row' ∧ row'.amount = row.amount := by
    intro r r' hr hamount hrows
    rw [hrows]
    by_cases hk : k = r.key
    · subst hk
      obtain ⟨row₀, hrow₀, hcopy⟩ := hq r hr
      obtain rfl := Option.some.inj (hrow.symm.trans hrow₀)
      exact ⟨r', AList.lookup_insert _, hamount.trans hcopy.symm⟩
    · exact ⟨row, by rw [AList.lookup_insert_ne hk]; exact hrow, rfl⟩
  have hsame : w'.redemptions = w.redemptions →
      ∃ row', w'.redemptions.lookup k = some row' ∧ row'.amount = row.amount :=
    fun hrows => ⟨row, by rw [hrows]; exact hrow, rfl⟩
  cases hs with
  | @inserted r _ _ hnone hrows _ =>
      have hk : k ≠ r.key := AList.ne_of_lookup hrow hnone
      exact ⟨row, by rw [hrows, AList.lookup_insert_ne hk]; exact hrow, rfl⟩
  | found _ _ hw => exact hsame (by rw [hw])
  | escrowed hrows _ _ => exact hsame hrows
  | applied _ hw => exact hsame (by rw [hw])
  | recorded hrows _ => exact hins _ _ rfl rfl hrows
  | @queued r hrows _ => exact hins r { r with state := .payoutQueued } rfl rfl hrows
  | enqueued hrows _ => exact hsame hrows
  | burned _ hrows _ _ _ => exact hsame hrows
  | @confirmed r hrows _ => exact hins r { r with state := .confirmed } rfl rfl hrows
  | due _ hw => exact hsame (by rw [hw])
  | returned hrows _ _ _ _ _ => exact hsame hrows
  | @reclaimed r hrows _ => exact hins r { r with state := .reclaimed } rfl rfl hrows
  | other _ _ hrows _ => exact hsame hrows

theorem Booked.step (h : Booked w) (hq : q.Carried w) (hs : Step call w w' q a q') :
    Booked w' := by
  have hkeep : ∀ k record, w.ledger.escrows.lookup k = some record →
      ∃ row, w'.redemptions.lookup k = some row ∧ row.amount = record.amount := by
    intro k record hk
    obtain ⟨row, hrow, hamount⟩ := h k record hk
    obtain ⟨row', hrow', hsame⟩ := amount_of_step hq hs hrow
    exact ⟨row', hrow', hsame.trans hamount⟩
  have hesc : w'.ledger.escrows = w.ledger.escrows → Booked w' := by
    intro hesc k record hk
    rw [hesc] at hk
    exact hkeep k record hk
  cases hs with
  | inserted _ _ _ _ hled => exact hesc (by rw [hled])
  | found _ _ hw => rw [hw]; exact h
  | @escrowed r hrows _ hnew =>
      intro k record hk
      rw [hnew] at hk
      obtain ⟨rfl, rfl⟩ | hold := AList.lookup_insert_cases hk
      · rw [hrows]
        exact hq r rfl
      · exact hkeep k record hold
  | applied _ hw => rw [hw]; exact h
  | recorded _ hled => exact hesc (by rw [hled])
  | queued _ hled => exact hesc (by rw [hled])
  | enqueued _ hled => exact hesc (by rw [hled])
  | @burned r record _ _ _ hrec _ hnew =>
      intro k record' hk
      rw [hnew] at hk
      obtain ⟨rfl, rfl⟩ | hold := AList.lookup_insert_cases hk
      · exact hkeep r.key record hrec
      · exact hkeep k record' hold
  | confirmed _ hled => exact hesc (by rw [hled])
  | due _ hw => rw [hw]; exact h
  | @returned r record _ _ _ _ _ hnew =>
      intro k record' hk
      rw [hnew] at hk
      by_cases hkey : k = r.key
      · subst hkey
        rw [AList.lookup_erase] at hk
        cases hk
      · rw [AList.lookup_erase_ne hkey] at hk
        exact hkeep k record' hk
  | reclaimed _ hled => exact hesc (by rw [hled])
  | other _ _ _ hesc' => exact hesc hesc'

theorem Phase.Carried.step (hkeyed : Keyed w.redemptions) (h : q.Carried w)
    (hs : Step call w w' q a q') : q'.Carried w' := by
  -- The copy stays, up to what is neither its key nor its amount.
  have hstay : ∀ r r' : Redemption, q.redemption = some r → r'.key = r.key →
      r'.amount = r.amount →
      ∃ row, w'.redemptions.lookup r'.key = some row ∧ row.amount = r'.amount := by
    intro r r' hr hkey hamount
    obtain ⟨row, hrow, hcopy⟩ := h r hr
    obtain ⟨row', hrow', hsame⟩ := amount_of_step h hs hrow
    exact ⟨row', by rw [hkey]; exact hrow', by rw [hsame, hcopy, hamount]⟩
  intro r hr
  cases hs with
  | inserted _ _ _ hrows _ =>
      cases hr
      exact ⟨r, by rw [hrows]; exact AList.lookup_insert _, rfl⟩
  | @found user seq r' stage _ hfind hw =>
      cases hr
      have hkey : r.key = (user, seq) := hkeyed (user, seq) r hfind
      exact ⟨r, by rw [hw, hkey]; exact hfind, rfl⟩
  | escrowed _ _ _ => cases hr; exact hstay r r rfl rfl rfl
  | @applied r₀ r' o now happ _ =>
      cases hr
      exact hstay r₀ r rfl (Redemption.applyEscrowOutcome_key happ)
        (Redemption.applyEscrowOutcome_amount happ)
  | recorded _ _ => cases hr
  | queued _ _ => cases hr; exact hstay r r rfl rfl rfl
  | enqueued _ _ => cases hr
  | @burned r' record q' hq' _ _ _ _ =>
      rw [hq'] at hr
      split at hr
      · cases hr; exact hstay r r rfl rfl rfl
      · cases hr
  | confirmed _ _ => cases hr
  | due _ _ => cases hr; exact hstay r r rfl rfl rfl
  | returned _ _ _ _ _ _ => cases hr; exact hstay r r rfl rfl rfl
  | reclaimed _ _ => cases hr
  | other _ _ _ _ => cases hr

/-- What a call burns in vain: its copy of the row cannot be confirmed. -/
def Phase.Wastes (q : Phase) (a : Act Port Port.Reply) : Prop :=
  ∃ r, q = .settling r .confirming ∧ r.state.isPending = false ∧
    a = ⟨.ledger (.confirmRedemption r.user r.seq), .ok .confirmed⟩

theorem redeemed_owed (hq : q.Settles) (hcopied : q.Copied w.redemptions)
    (hcall : call.isTraffic = true) (hbooked : Booked w)
    (hs : Step call w w' q a q') :
    burned w a = q.burns a ∧
      (q.Wastes a ∨ w'.redemptions.redeemed + q'.owed =
        w.redemptions.redeemed + q.owed + burned w a) := by
  -- A write over the copy, which is not `Confirmed`.
  have hwrite : ∀ {r r' : Redemption}, w.redemptions.lookup r.key = some r →
      r.state.isPending = true →
      InMemoryRedemptionRepo.redeemed (AList.insert r.key r' w.redemptions) =
        w.redemptions.redeemed + r'.supplyReduction.toNat := by
    intro r r' hlook hp
    exact InMemoryRedemptionRepo.redeemed_update hlook
      (RedemptionState.ne_confirmed_of_isPending hp)
  cases hs with
  | inserted _ hreq _ _ _ => rw [hreq] at hcall; cases hcall
  | @found user seq r stage hstage _ hw =>
      subst hw
      refine ⟨rfl, .inr ?_⟩
      obtain ⟨rfl, -⟩ | ⟨rfl, -⟩ | ⟨rfl, -⟩ := settles_cases hstage
      · rfl
      · rfl
      · rfl
  | escrowed _ _ _ => exact hq.elim
  | applied _ _ => exact hq.elim
  | recorded _ _ => exact hq.elim
  | queued _ _ => exact hq.elim
  | enqueued _ _ => exact hq.elim
  | @burned r record q' hq' hrow hrec _ _ =>
      have hlook : w.redemptions.lookup r.key = some r := hcopied
      have hburns : w.ledger.escrows.weight (fun record => record.amount.toNat)
          r.key = r.amount.toNat := by
        obtain ⟨row, hrow', hamount⟩ := hbooked r.key record hrec
        obtain rfl := Option.some.inj (hlook.symm.trans hrow')
        rw [AList.weight_of_lookup hrec, hamount]
      refine ⟨hburns, ?_⟩
      cases hp : r.state.isPending with
      | false => exact .inl ⟨r, rfl, hp, rfl⟩
      | true =>
          rw [hq', if_pos hp]
          refine .inr ?_
          show w'.redemptions.redeemed + r.amount.toNat =
            w.redemptions.redeemed + 0 + w.ledger.escrows.weight _ r.key
          rw [hrow, hburns]
          omega
  | @confirmed r hrow _ =>
      refine ⟨rfl, .inr ?_⟩
      rw [hrow, hwrite hcopied.1 hcopied.2]
      rfl
  | due _ hw => subst hw; exact ⟨rfl, .inr rfl⟩
  | returned hrow _ _ _ _ _ => exact ⟨rfl, .inr (by rw [hrow]; rfl)⟩
  | @reclaimed r hrow _ =>
      refine ⟨rfl, .inr ?_⟩
      rw [hrow, hwrite hcopied.1 hcopied.2]
      rfl
  | @other q a ha hdrop hrow _ =>
      have hzero : burned w a = 0 := burned_of_quiet ha
      have hburns : q.burns a = 0 := by
        unfold Phase.burns
        split
        · cases ha
        · rfl
      refine ⟨hzero.trans hburns.symm, .inr ?_⟩
      rw [hrow, hzero]
      cases q with
      | idle => rfl
      | drafting r stage => exact hq.elim
      | settling r stage =>
          cases stage with
          | burned =>
              have hnone : w.redemptions.lookup r.key = none :=
                hdrop { r with state := .confirmed } rfl
              rw [hcopied.1] at hnone
              cases hnone
          | _ => rfl

end Amounts

end OffRamp

/-! ## The stores -/

section Consistent

variable [Sha256]

/-- What holds of the stores whatever has run over them. -/
structure Consistent (w : World) : Prop where
  deposits : OnRamp.Keyed w.deposits
  redemptions : OffRamp.Keyed w.redemptions
  booked : OffRamp.Booked w
  conserved : w.ledger.Conserved

/-- The redemptions, with the copies of the calls under way. -/
structure Carrying (calls : List Call) (c : Calls) : Prop where
  obeys : c.Obeys fun i => OffRamp.grammar (callAt calls i)
  keyed : OffRamp.Keyed c.world.redemptions
  booked : OffRamp.Booked c.world
  carried : ∀ i, (OffRamp.phaseAt calls c i).Carried c.world
  conserved : c.world.ledger.Conserved

theorem Carrying.step {calls : List Call} {c : Calls} (h : Carrying calls c)
    (t : ℕ × Env) : Carrying calls (c.step World.exec t) := by
  have hobeys := Pool.obeys_step (t := t) h.obeys
    fun s => OffRamp.hears_exec h.keyed s
  obtain heq | ⟨s, hworld, hm⟩ :=
    Pool.step_cases (fun i => OffRamp.grammar (callAt calls i)) World.exec c t
  · rw [heq]
    exact h
  · have hs := OffRamp.step_exec (e := t.2) (w := c.world) (h.obeys.asks hm.asked)
    refine ⟨hobeys, ?_, ?_, fun i => ?_, ?_⟩
    · rw [hworld]
      exact OffRamp.keyed_of_step h.keyed hs
    · rw [hworld]
      exact h.booked.step (h.carried t.1) hs
    · rw [hworld]
      by_cases hi : i = t.1
      · subst hi
        rw [OffRamp.phaseAt, hm.stage_self]
        exact (h.carried t.1).step h.keyed hs
      · rw [OffRamp.phaseAt, hm.stage_of_ne hi]
        intro r hr
        obtain ⟨row, hrow, hcopy⟩ := h.carried i r hr
        obtain ⟨row', hrow', hsame⟩ :=
          OffRamp.amount_of_step (h.carried t.1) hs hrow
        exact ⟨row', hrow', hsame.trans hcopy⟩
    · rw [hworld]
      exact conserved_exec h.conserved t.2 s

/-- Every world that calls can lead to, whatever overlaps, is consistent. -/
theorem consistent_run (deltaSecs : Int64) (calls : List Call) (reserve : Thb)
    (ttlSecs start : Int64) (ts : List (ℕ × Env)) :
    Consistent ((Calls.start deltaSecs calls
      (.fresh (SimulatedLedger.new reserve ttlSecs start))).run World.exec ts).world := by
  have hon := (OnRamp.Coherent.run_induct calls (I := fun _ => True)
    (fun _ _ _ => trivial) (OnRamp.coherent_fresh calls deltaSecs
      (SimulatedLedger.new reserve ttlSecs start)) trivial ts).1
  have hoff : Carrying calls ((Calls.start deltaSecs calls
      (.fresh (SimulatedLedger.new reserve ttlSecs start))).run World.exec ts) := by
    refine Pool.run_induct (I := Carrying calls) (fun c t h _ => h.step t)
      (Pool.along_true _ _ _) ?_
    refine ⟨Calls.obeys_start (OffRamp.call_obeys deltaSecs) calls _, ?_, ?_, ?_, rfl⟩
    · intro k r hk; cases hk
    · intro k record hk; cases hk
    · intro i r hr; cases hr
  exact ⟨hon.sound.keyed, hoff.keyed, hoff.booked, hoff.conserved⟩

end Consistent

/-! ## Traffic -/

/-- A confirm goes to the ledger with the row it has just read. -/
theorem OffRamp.found_of_confirming {call : Call} {w w' : World}
    {q q' : OffRamp.Phase} {a : Act Port Port.Reply}
    (hs : OffRamp.Step call w w' q a q') {r : Redemption}
    (hr : q' = .settling r .confirming) :
    ∃ user seq, a = ⟨.redemptions (.find user seq), .ok (some r)⟩ := by
  cases hs with
  | @found user seq r' stage _ _ _ => cases hr; exact ⟨user, seq, rfl⟩
  | burned hq' _ _ _ _ =>
      rw [hq'] at hr
      split at hr
      · cases hr
      · cases hr
  | _ => cases hr

namespace Reconciling

variable [Sha256]

/-- What a call is in the middle of, on both ramps and as a reconciliation. -/
abbrev Watch : Type := OnRamp.Phase × OffRamp.Phase × Reading × Claim

def watch (call : Call) : Grammar Port Port.Reply Watch :=
  (OnRamp.grammar call).prod ((OffRamp.grammar call).prod (grammar call))

/-- A call that has its record to itself. -/
structure Holds (call : Call) (q : Watch) (w : World) : Prop where
  onRamp : q.1.Copied w.deposits
  deposit : ∀ d, q.1.deposit = some d → call.record = some (.deposit d.nullifier)
  settles : q.2.1.Settles
  offRamp : q.2.1.Copied w.redemptions
  redemption : ∀ r, q.2.1.redemption = some r →
    call.record = some (.redemption r.user r.seq)
  claim : ∀ r, q.2.1 = .settling r .confirming →
    q.2.2.2 = .found r ∨ q.2.2.2 = .spent

theorem Holds.frame {call : Call} {q : Watch} {w w' : World} (h : Holds call q w)
    (hdep : ∀ d row, q.1.deposit = some d →
      w.deposits.lookup d.nullifier = some row →
      w'.deposits.lookup d.nullifier = some row)
    (hred : ∀ r, q.2.1.redemption = some r → w.redemptions.lookup r.key = some r →
      w'.redemptions.lookup r.key = some r) : Holds call q w' :=
  { h with
    onRamp := h.onRamp.frame hdep
    offRamp := h.offRamp.frame h.settles hred }

theorem Holds.step {call : Call} {q : Watch} {w : World} {s : Port} {e : Env}
    (hcall : call.isTraffic = true) (hw : Consistent w) (h : Holds call q w)
    (hasks : (watch call).asks q s) :
    Holds call ((watch call).advance q ⟨s, (World.exec e s w).1⟩)
      (World.exec e s w).2 := by
  obtain ⟨hon, hoff, htouch, -⟩ := hasks
  have hon := OnRamp.step_exec (e := e) (w := w) hon
  have hoff := OffRamp.step_exec (e := e) (w := w) hoff
  obtain ⟨hsettles, hcopied⟩ := h.offRamp.step hcall hw.redemptions h.settles hoff
  refine ⟨((OnRamp.Alone.mk hw.deposits h.onRamp).step hon).copied, fun d hd => ?_,
    hsettles, hcopied, fun r hr => ?_, fun r hr => ?_⟩
  · obtain ⟨d₀, hd₀, hn⟩ | hins | ⟨n, hfind, hrow⟩ := OnRamp.deposit_of_step hon hd
    · rw [← hn]
      exact h.deposit d₀ hd₀
    · obtain rfl : s = _ := hins
      exact htouch
    · obtain rfl : s = _ := hfind
      rw [hw.deposits n d hrow]
      exact htouch
  · obtain hr | ⟨user, seq, hfind, hrow⟩ :=
      OffRamp.redemption_of_step hcall h.settles hoff hr
    · exact h.redemption r hr
    · obtain rfl : s = _ := hfind
      have hkey : (r.user, r.seq) = (user, seq) := hw.redemptions (user, seq) r hrow
      obtain ⟨rfl, rfl⟩ := Prod.mk.inj hkey
      exact htouch
  · obtain ⟨user, seq, ha⟩ := OffRamp.found_of_confirming hoff hr
    show Claim.advance q.2.2.2 _ = _ ∨ Claim.advance q.2.2.2 _ = _
    rw [ha]
    cases q.2.2.2 with
    | spent => exact .inr rfl
    | _ => exact .inl rfl

def InProgress (c : Calls) (i : ℕ) : Prop :=
  (own i c.log).isEmpty = false ∧ (c.pending i).isSome = true

instance (c : Calls) (i : ℕ) : Decidable (InProgress c i) :=
  inferInstanceAs (Decidable (_ ∧ _))

/-- No two calls in progress work on one record. -/
def Exclusive (calls : List Call) (c : Calls) : Prop :=
  ∀ i, i < calls.length → ∀ j, j < calls.length → i ≠ j →
    InProgress c i → InProgress c j →
    (callAt calls i).record = (callAt calls j).record →
    (callAt calls i).record = none

instance (calls : List Call) (c : Calls) : Decidable (Exclusive calls c) :=
  @Nat.decidableBallLT _ _ fun _ _ => @Nat.decidableBallLT _ _ fun _ _ =>
    inferInstanceAs (Decidable (_ → _ → _ → _ → _))

def stage (calls : List Call) (c : Calls) (i : ℕ) : Watch :=
  c.stage (fun i => watch (callAt calls i)) i

/-- What holds at every moment of a run in which the calls keep off each
other's records. While none has burned in vain, the ledger is ahead of the rows
by what is owed. -/
structure Running (calls : List Call) (c : Calls) : Prop where
  meets : c.Meets (fun i => watch (callAt calls i))
    fun _ r q => q.1 = .idle ∧ q.2.1 = .idle ∧ Honest r q.2.2
  size : c.threads.length = calls.length
  inRange : c.InRange
  consistent : Consistent c.world
  holds : ∀ i, Holds (callAt calls i) (stage calls c i) c.world
  identity : (∀ i, (stage calls c i).2.2.2 ≠ .spent) →
    issuedRows c.world.deposits +
        ∑ i ∈ Finset.range calls.length, (stage calls c i).1.owed =
      c.world.ledger.reserve.supply.toNat + (c.world.redemptions.redeemed +
        ∑ i ∈ Finset.range calls.length, (stage calls c i).2.1.owed)

section Running

variable {calls : List Call} {c : Calls}

theorem Running.inProgress (h : Running calls c) {i : ℕ}
    (hi : (stage calls c i).1 ≠ .idle ∨ (stage calls c i).2.1 ≠ .idle) :
    i < calls.length ∧ InProgress c i := by
  have hlt : i < c.threads.length := by
    by_contra hge
    have hstart : stage calls c i = (watch (callAt calls i)).start :=
      h.inRange.stage (Nat.le_of_not_lt hge)
    rw [hstart] at hi
    obtain hi | hi := hi
    · exact hi rfl
    · exact hi rfl
  refine ⟨h.size ▸ hlt, ?_, ?_⟩
  · cases hown : own i c.log with
    | nil =>
        have hstart : stage calls c i = (watch (callAt calls i)).start := by
          show (watch (callAt calls i)).state (own i c.log) = _
          rw [hown]
          rfl
        rw [hstart] at hi
        obtain hi | hi := hi
        · exact absurd rfl hi
        · exact absurd rfl hi
    | cons a log => rfl
  · have hp : c.threads[i]? = some c.threads[i] := List.getElem?_eq_getElem hlt
    have hmeets := h.meets i _ hp
    rw [Pool.pending, hp]
    cases hq : c.threads[i] with
    | request s k => rfl
    | pure r =>
        rw [hq] at hmeets
        obtain ⟨hon, hoff, -⟩ := hmeets
        obtain hi | hi := hi
        · exact absurd hon hi
        · exact absurd hoff hi

/-- Two calls that carry copies at once carry copies of different records. -/
theorem Running.apart (h : Running calls c) (hex : Exclusive calls c) {i j : ℕ}
    (hij : i ≠ j)
    (hi : (stage calls c i).1 ≠ .idle ∨ (stage calls c i).2.1 ≠ .idle)
    (hj : (stage calls c j).1 ≠ .idle ∨ (stage calls c j).2.1 ≠ .idle)
    {x : Record} (hx : (callAt calls i).record = some x) :
    (callAt calls j).record ≠ some x := by
  intro hy
  obtain ⟨hi', hpi⟩ := h.inProgress hi
  obtain ⟨hj', hpj⟩ := h.inProgress hj
  have hnone := hex i hi' j hj' hij hpi hpj (hx.trans hy.symm)
  rw [hx] at hnone
  cases hnone

omit [Sha256] in
theorem sum_update (f : Watch → ℕ) (stage : ℕ → Watch) {n t : ℕ} (ht : t < n)
    (q : Watch) :
    ∑ i ∈ Finset.range n, f (Function.update stage t q i) + f (stage t) =
      ∑ i ∈ Finset.range n, f (stage i) + f q := by
  have hmem : t ∈ Finset.range n := Finset.mem_range.mpr ht
  rw [← Finset.sum_erase_add _ _ hmem, ← Finset.sum_erase_add _ (fun i => f (stage i)) hmem,
    Function.update_self]
  have hrest : ∑ i ∈ (Finset.range n).erase t, f (Function.update stage t q i) =
      ∑ i ∈ (Finset.range n).erase t, f (stage i) :=
    Finset.sum_congr rfl fun i hi => by
      rw [Function.update_of_ne (Finset.ne_of_mem_erase hi)]
  omega

/-- Call `t` goes through the port call `a`, and what that comes to in the
figures of the identity. -/
structure Moves (calls : List Call) (c c' : Calls) (t : ℕ)
    (a : Act Port Port.Reply) : Prop where
  lt : t < calls.length
  log : c'.log = (t, a) :: c.log
  stage : stage calls c' = Function.update (stage calls c) t
    ((watch (callAt calls t)).advance (stage calls c t) a)
  asks : (watch (callAt calls t)).asks (Reconciling.stage calls c t) a.1
  reply : ∃ e, a.2 = (World.exec e a.1 c.world).1
  supply : c'.world.ledger.reserve.supply.toNat +
      (Reconciling.stage calls c t).2.1.burns a =
    c.world.ledger.reserve.supply.toNat + minted a
  issued : issuedRows c'.world.deposits + (Reconciling.stage calls c' t).1.owed =
    issuedRows c.world.deposits + (Reconciling.stage calls c t).1.owed + minted a
  redeemed : (Reconciling.stage calls c t).2.1.Wastes a ∨
    c'.world.redemptions.redeemed + (Reconciling.stage calls c' t).2.1.owed =
      c.world.redemptions.redeemed + (Reconciling.stage calls c t).2.1.owed +
        (Reconciling.stage calls c t).2.1.burns a

theorem Running.step_cases (hcalls : ∀ call ∈ calls, call.isTraffic = true)
    (h : Running calls c) (t : ℕ × Env) :
    c.step World.exec t = c ∨
    ∃ s, (c.step World.exec t).world = (World.exec t.2 s c.world).2 ∧
      Moves calls c (c.step World.exec t) t.1 ⟨s, (World.exec t.2 s c.world).1⟩ := by
  obtain heq | ⟨s, hworld, hm⟩ :=
    Pool.step_cases (fun i => watch (callAt calls i)) World.exec c t
  · exact .inl heq
  · have ht : t.1 < calls.length := h.size ▸ Pool.lt_of_pending hm.asked
    have hself := h.holds t.1
    have hasks : (watch (callAt calls t.1)).asks (stage calls c t.1) s :=
      h.meets.asks hm.asked
    have hon := OnRamp.step_exec (e := t.2) (w := c.world) hasks.1
    have hoff := OffRamp.step_exec (e := t.2) (w := c.world) hasks.2.1
    have hstage : stage calls (c.step World.exec t) t.1 =
      (watch (callAt calls t.1)).advance (stage calls c t.1)
        ⟨s, (World.exec t.2 s c.world).1⟩ := hm.stage_self
    have halone : OnRamp.Alone (stage calls c t.1).1 c.world :=
      ⟨h.consistent.deposits, hself.onRamp⟩
    obtain ⟨hburns, hredeemed⟩ := OffRamp.redeemed_owed hself.settles hself.offRamp
      (hcalls _ (callAt_mem ht)) h.consistent.booked hoff
    refine .inr ⟨s, hworld, ht, hm.log, hm.stage, hasks, ⟨t.2, rfl⟩, ?_, ?_, ?_⟩
    · rw [hworld, ← hburns]
      exact supply_exec h.consistent.conserved t.2 s
    · rw [hworld, hstage]
      exact halone.issued_owed hon
    · rw [hworld, hstage, ← hburns]
      exact hredeemed

/-- Only a call that fails burns in vain, and it does not come back from it. -/
theorem Running.spent_of_moves (h : Running calls c) {c' : Calls} {t : ℕ}
    {a : Act Port Port.Reply} (hm : Moves calls c c' t a)
    (hspent : ∀ i, (stage calls c' i).2.2.2 ≠ .spent) :
    (∀ i, (stage calls c i).2.2.2 ≠ .spent) ∧ ¬ (stage calls c t).2.1.Wastes a := by
  have hself := hspent t
  rw [hm.stage, Function.update_self] at hself
  have hself : Claim.advance (stage calls c t).2.2.2 a ≠ .spent := hself
  refine ⟨fun i hi => ?_, ?_⟩
  · by_cases hit : i = t
    · subst hit
      rw [hi] at hself
      exact hself rfl
    · refine hspent i ?_
      rw [hm.stage, Function.update_of_ne hit]
      exact hi
  · intro ⟨r, hq, hp, hkey⟩
    subst hkey
    obtain hclaim | hclaim := (h.holds t).claim r hq
    · rw [hclaim] at hself
      refine hself ?_
      show (if r.state.isPending then Claim.found r else Claim.spent) = .spent
      rw [hp]
      rfl
    · rw [hclaim] at hself
      exact hself rfl

theorem Running.step (hcalls : ∀ call ∈ calls, call.isTraffic = true)
    (h : Running calls c) (hex : Exclusive calls c) (t : ℕ × Env) :
    Running calls (c.step World.exec t) := by
  have hmeets := Pool.meets_step (t := t) h.meets fun s =>
    ⟨OnRamp.hears_exec h.consistent.deposits s,
      OffRamp.hears_exec h.consistent.redemptions s, trivial⟩
  obtain heq | ⟨s, hworld, hm⟩ := h.step_cases hcalls t
  · rw [heq]
    exact h
  · have hcall := hcalls _ (callAt_mem hm.lt)
    have hself := h.holds t.1
    have hon := OnRamp.step_exec (e := t.2) (w := c.world) hm.asks.1
    have hoff := OffRamp.step_exec (e := t.2) (w := c.world) hm.asks.2.1
    have halone : OnRamp.Alone (stage calls c t.1).1 c.world :=
      ⟨h.consistent.deposits, hself.onRamp⟩
    have hcarried : (stage calls c t.1).2.1.Carried c.world :=
      fun r hr => ⟨r, hself.offRamp.lookup hself.settles hr, rfl⟩
    refine ⟨hmeets, ?_, Pool.inRange_step h.inRange t, ?_, fun i => ?_, fun hspent => ?_⟩
    · rw [Pool.length_threads_step]
      exact h.size
    · rw [hworld]
      exact ⟨(halone.step hon).keyed, OffRamp.keyed_of_step h.consistent.redemptions hoff,
        h.consistent.booked.step hcarried hoff,
        conserved_exec h.consistent.conserved t.2 s⟩
    · rw [hm.stage, hworld]
      by_cases hi : i = t.1
      · subst hi
        rw [Function.update_self]
        exact hself.step hcall h.consistent hm.asks
      · rw [Function.update_of_ne hi]
        refine (h.holds i).frame (fun d row hd hrow => ?_) fun r hr hrow => ?_
        · refine OnRamp.lookup_of_step_ne hon hrow fun d' hd' hn => ?_
          refine h.apart hex hi (.inl ?_) (.inl ?_) ((h.holds i).deposit d hd) ?_
          · intro hidle; rw [hidle] at hd; cases hd
          · intro hidle; rw [hidle] at hd'; cases hd'
          · rw [← hn]
            exact hself.deposit d' hd'
        · refine OffRamp.lookup_of_step_ne hoff hrow fun r' hr' hn => ?_
          refine h.apart hex hi (.inr ?_) (.inr ?_) ((h.holds i).redemption r hr) ?_
          · intro hidle; rw [hidle] at hr; cases hr
          · intro hidle; rw [hidle] at hr'; cases hr'
          · obtain ⟨hu, hs⟩ := Prod.mk.inj hn
            rw [← hu, ← hs]
            exact hself.redemption r' hr'
    · obtain ⟨hbefore, hwaste⟩ := h.spent_of_moves hm hspent
      have hidentity := h.identity hbefore
      have hsupply := hm.supply
      have hissued := hm.issued
      have hredeemed := hm.redeemed.resolve_left hwaste
      have hmints := sum_update (fun q => q.1.owed) (stage calls c) hm.lt
        (stage calls (c.step World.exec t) t.1)
      have hburns := sum_update (fun q => q.2.1.owed) (stage calls c) hm.lt
        (stage calls (c.step World.exec t) t.1)
      have hupd : Function.update (stage calls c) t.1
          (stage calls (c.step World.exec t) t.1) =
            stage calls (c.step World.exec t) := by
        rw [hm.stage, Function.update_self]
      rw [hupd] at hmints hburns
      omega

theorem running_start (deltaSecs : Int64) {w : World}
    (hcalls : ∀ call ∈ calls, call.isTraffic = true) (hw : Consistent w)
    (hbalance : issuedRows w.deposits =
      w.ledger.reserve.supply.toNat + w.redemptions.redeemed) :
    Running calls (Calls.start deltaSecs calls w) where
  meets := by
    intro i p hp
    obtain ⟨hmem, rfl⟩ := Calls.thread_start hp
    exact Prog.Meets.prod (OnRamp.call_obeys deltaSecs (callAt calls i))
      (Prog.Meets.prod (OffRamp.call_obeys deltaSecs (callAt calls i))
        (call_meets (hcalls _ hmem)))
  size := List.length_map _
  inRange := Pool.inRange_start _ _
  consistent := hw
  holds i := by
    refine ⟨trivial, fun d hd => ?_, trivial, trivial, fun r hr => ?_, fun r hr => ?_⟩
    · cases hd
    · cases hr
    · cases hr
  identity _ := by
    show issuedRows w.deposits + ∑ i ∈ Finset.range calls.length, 0 =
      w.ledger.reserve.supply.toNat + (w.redemptions.redeemed +
        ∑ i ∈ Finset.range calls.length, 0)
    rw [Finset.sum_const_zero]
    omega

end Running

end Reconciling

end Thbc
