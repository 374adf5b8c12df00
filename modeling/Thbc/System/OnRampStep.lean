import Thbc.System.OnRamp
import Thbc.Ledger.Steps

/-!
# One step on the on-ramp

The requests the grammar allows, put together with what the stores and the
ledger do on each: `Step call w w' q a q'` says that a call in phase `q` goes
through the port call `a`, from world `w` to `w'`, and is in phase `q'` after.
Every invariant of the on-ramp is a case analysis on this list.
-/

namespace Thbc.OnRamp

open Thbc.Lib

variable [Sha256]

def Keyed (rows : InMemoryDepositRepo) : Prop :=
  ∀ n d, rows.lookup n = some d → d.nullifier = n

theorem keyed_insert {rows : InMemoryDepositRepo} (h : Keyed rows)
    {n : BankRefHash} {d : Deposit} (hd : d.nullifier = n) :
    Keyed (AList.insert n d rows) :=
  AList.lookup_insert_all h hd

/-- What a verdict leads to once it is persisted. -/
def afterVerdict (d : Deposit) : ScreenOutcome → Phase
  | .pass => .passed { d with state := .screened } (.timed d.observedAt)
  | .fail => .idle

/-- A port call that writes no row, asks no screen and asks for no mint. -/
def quiet : Act Port Port.Reply → Bool
  | ⟨.deposits (.insert _), .ok _⟩ => false
  | ⟨.deposits (.update _), .ok _⟩ => false
  | ⟨.compliance _, _⟩ => false
  | ⟨.ledger (.issue _ _ _), _⟩ => false
  | _ => true

/-- The deposit whose row a call is about to write. -/
def Phase.writing : Phase → Option Deposit
  | .fresh d (some _) => some d
  | .passed d .cleared => some d
  | .passed d .minted => some d
  | _ => none

/-- Where a call may let go without a trace: it held nothing, or the ceiling
does not admit the amount, or the row it was to write is missing. -/
def mayDrop (w : World) : Phase → Prop
  | .idle => True
  | .passed d (.sighted now s) =>
      ∀ e, w.deposits.totalEncumbered = .ok e → admits d now s e = false
  | q => ∃ d, q.writing = some d ∧ w.deposits.lookup d.nullifier = none

inductive Step (call : Call) (w w' : World) :
    Phase → Act Port Port.Reply → Phase → Prop
  | inserted {d : Deposit} (hd : d.state = .observed)
      (hcall : call = .handleDeposit d.bankRef d.amount d.beneficiary
        d.beneficiaryWallet)
      (hnone : w.deposits.lookup d.nullifier = none)
      (hdep : w'.deposits = AList.insert d.nullifier d w.deposits)
      (hled : w'.ledger = w.ledger) :
      Step call w w' .idle ⟨.deposits (.insert d), .ok ()⟩ (.fresh d none)
  | found {n : BankRefHash} {d : Deposit} (hd : d.state = .screened)
      (hrow : w.deposits.lookup n = some d) (hw : w' = w) :
      Step call w w' .idle ⟨.deposits (.find n), .ok (some d)⟩ (.passed d .found)
  | screened {d : Deposit} {o : ScreenOutcome} (hw : w' = w) :
      Step call w w' (.fresh d none)
        ⟨.compliance (.screen d.beneficiary d.amount), .ok o⟩ (.fresh d (some o))
  | unscreened {d : Deposit} {e : PortError} (hw : w' = w) :
      Step call w w' (.fresh d none)
        ⟨.compliance (.screen d.beneficiary d.amount), .error e⟩ .idle
  | judged {d : Deposit} {o : ScreenOutcome}
      (hdep : w'.deposits = AList.insert d.nullifier
        { d with state := Deposit.screenTarget o } w.deposits)
      (hled : w'.ledger = w.ledger) :
      Step call w w' (.fresh d (some o))
        ⟨.deposits (.update { d with state := Deposit.screenTarget o }), .ok ()⟩
        (afterVerdict d o)
  | timed {d : Deposit} {now : Int64} (hw : w' = w) :
      Step call w w' (.passed d .found) ⟨.clock, now⟩ (.passed d (.timed now))
  | sighted {d : Deposit} {now : Int64} {s : TreasurySnapshot} (hw : w' = w)
      (hs : w.ledger.snapshot.1 = .ok s) :
      Step call w w' (.passed d (.timed now)) ⟨.ledger .snapshot, .ok s⟩
        (.passed d (.sighted now s))
  | cleared {d : Deposit} {now : Int64} {s : TreasurySnapshot} {e : Thb}
      (hw : w' = w) (he : w.deposits.totalEncumbered = .ok e)
      (ha : admits d now s e = true) :
      Step call w w' (.passed d (.sighted now s))
        ⟨.deposits .totalEncumbered, .ok e⟩ (.passed d .cleared)
  | attested {d : Deposit}
      (hdep : w'.deposits = AList.insert d.nullifier
        { d with state := .attested } w.deposits)
      (hled : w'.ledger = w.ledger) :
      Step call w w' (.passed d .cleared)
        ⟨.deposits (.update { d with state := .attested }), .ok ()⟩
        (.passed d .attested)
  | minted {d : Deposit} (hdep : w'.deposits = w.deposits)
      (hled : w.ledger.issue d.beneficiaryWallet d.amount d.nullifier =
        (.ok .confirmed, w'.ledger)) :
      Step call w w' (.passed d .attested)
        ⟨.ledger (.issue d.beneficiaryWallet d.amount d.nullifier), .ok .confirmed⟩
        (.passed d .minted)
  | refused {d : Deposit} {r : PortResult ConfirmOutcome}
      (hdep : w'.deposits = w.deposits) (hr : r ≠ .ok .confirmed)
      (hled : w.ledger.issue d.beneficiaryWallet d.amount d.nullifier =
        (r, w'.ledger)) :
      Step call w w' (.passed d .attested)
        ⟨.ledger (.issue d.beneficiaryWallet d.amount d.nullifier), r⟩ .idle
  | issued {d : Deposit}
      (hdep : w'.deposits = AList.insert d.nullifier
        { d with state := .issued } w.deposits)
      (hled : w'.ledger = w.ledger) :
      Step call w w' (.passed d .minted)
        ⟨.deposits (.update { d with state := .issued }), .ok ()⟩ .idle
  | other {q : Phase} {a : Act Port Port.Reply} (ha : quiet a = true)
      (hdrop : mayDrop w q)
      (hdep : w'.deposits = w.deposits)
      (hnull : w'.ledger.nullifiers = w.ledger.nullifiers) :
      Step call w w' q a .idle

/-- Only `issue` touches the nullifiers. -/
theorem nullifiers_exec {e : Env} {s : Port} {w : World}
    (h : neutral s) : (World.exec e s w).2.ledger.nullifiers = w.ledger.nullifiers := by
  cases s with
  | ledger m =>
      cases m with
      | issue b a n => exact h.elim
      | snapshot => rfl
      | updateAttestation reserve encumbered => rfl
      | escrowRedemption r =>
          show (w.ledger.escrowRedemption r).2.nullifiers = _
          rcases w.ledger.escrowRedemption_cases r with ⟨e, heq⟩ | ⟨-, rem, -, heq⟩
          · rw [heq]
          · rw [heq]
      | confirmRedemption user seq =>
          show (w.ledger.confirmRedemption user seq).2.nullifiers = _
          rcases w.ledger.confirmRedemption_cases user seq with
            ⟨e, heq, -⟩ | ⟨record, supply, -, -, -, heq⟩
          · rw [heq]
          · rw [heq]
      | reclaimRedemption user seq =>
          show (w.ledger.reclaimRedemption user seq).2.nullifiers = _
          rcases w.ledger.reclaimRedemption_cases user seq with
            ⟨e, heq⟩ | ⟨record, balance, -, -, -, ⟨-, heq⟩ | ⟨-, -, e, heq⟩⟩
          · rw [heq]
          · rw [heq]
          · rw [heq]
  | simulator m =>
      obtain ⟨_, _, _, _, _, heq, -⟩ := w.ledger.control_cases m
      show (w.ledger.control m).2.nullifiers = _
      rw [heq]
  | payouts m =>
      obtain ⟨r, sent, hx⟩ := World.exec_payouts e m w
      rw [hx]
  | _ => rfl

theorem deposits_exec {e : Env} {s : Port} {w : World} (h : neutral s) :
    (World.exec e s w).2.deposits = w.deposits := by
  cases s with
  | deposits m => cases m <;> first | exact h.elim | rfl
  | payouts m =>
      obtain ⟨r, sent, hx⟩ := World.exec_payouts e m w
      rw [hx]
  | _ => rfl

omit [Sha256] in
theorem quiet_of_neutral {s : Port} (h : neutral s) (b : s.Reply) :
    quiet ⟨s, b⟩ = true := by
  cases s with
  | deposits m => cases m <;> first | exact h.elim | rfl
  | ledger m => cases m <;> first | exact h.elim | rfl
  | compliance m => exact h.elim
  | _ => rfl

theorem step_of_neutral {call : Call} {e : Env} {s : Port} {w : World}
    (h : neutral s) :
    Step call w (World.exec e s w).2 .idle ⟨s, (World.exec e s w).1⟩
      ((grammar call).advance .idle ⟨s, (World.exec e s w).1⟩) := by
  rw [(asks_of_neutral h).2]
  exact .other (quiet_of_neutral h _) trivial (deposits_exec h) (nullifiers_exec h)

theorem step_of_opens {call : Call} {e : Env} {s : Port} {w : World}
    (h : opens call s) :
    Step call w (World.exec e s w).2 .idle ⟨s, (World.exec e s w).1⟩
      ((grammar call).advance .idle ⟨s, (World.exec e s w).1⟩) := by
  cases s with
  | deposits m =>
      cases m with
      | insert d =>
          rcases InMemoryDepositRepo.insert_cases w.deposits d with
            ⟨row, text, -, heq⟩ | ⟨hnone, heq⟩
          · have hx : World.exec e (.deposits (.insert d)) w =
                (.error (.conflict text), w) := by
              simp only [World.exec, InMemoryDepositRepo.call, heq]
            rw [hx]
            exact .other rfl trivial rfl rfl
          · have hx : World.exec e (.deposits (.insert d)) w =
                (.ok (), { w with
                  deposits := AList.insert d.nullifier d w.deposits }) := by
              simp only [World.exec, InMemoryDepositRepo.call, heq]
            rw [hx]
            exact .inserted h.1 h.2 hnone rfl rfl
      | find n =>
          have hx : World.exec e (.deposits (.find n)) w =
              (.ok (w.deposits.lookup n), w) := rfl
          rw [hx]
          cases hrow : w.deposits.lookup n with
          | none => exact .other rfl trivial rfl rfl
          | some d =>
              by_cases hd : retries call = true ∧ d.state = .screened
              · have hq : (grammar call).advance .idle
                    ⟨.deposits (.find n), .ok (some d)⟩ = .passed d .found := if_pos hd
                rw [hq]
                exact .found hd.2 hrow rfl
              · have hq : (grammar call).advance .idle
                    ⟨.deposits (.find n), .ok (some d)⟩ = .idle := if_neg hd
                rw [hq]
                exact .other rfl trivial rfl rfl
      | update d => exact h.elim
      | totalEncumbered => exact step_of_neutral trivial
      | held => exact step_of_neutral trivial
      | totalIssued => exact step_of_neutral trivial
  | compliance m => exact h.elim
  | ledger m =>
      cases m with
      | issue b a n => exact h.elim
      | _ => exact step_of_neutral trivial
  | _ => exact step_of_neutral trivial

/-- An update the grammar asks for, as the store answers it. -/
theorem exec_update {e : Env} {w : World} {d : Deposit} {s : DepositState} :
    (w.deposits.lookup d.nullifier = none ∧
      World.exec e (.deposits (.update { d with state := s })) w =
        (.error .notFound, w)) ∨
    World.exec e (.deposits (.update { d with state := s })) w =
      (.ok (), { w with
        deposits := AList.insert d.nullifier { d with state := s } w.deposits }) := by
  rcases InMemoryDepositRepo.update_cases w.deposits { d with state := s } with
    ⟨hnone, heq⟩ | ⟨row, -, heq⟩
  · refine .inl ⟨hnone, ?_⟩
    simp only [World.exec, InMemoryDepositRepo.call, heq]
  · refine .inr ?_
    simp only [World.exec, InMemoryDepositRepo.call, heq]
    rfl

theorem step_exec {call : Call} {q : Phase} {s : Port} {e : Env} {w : World}
    (h : (grammar call).asks q s) :
    Step call w (World.exec e s w).2 q ⟨s, (World.exec e s w).1⟩
      ((grammar call).advance q ⟨s, (World.exec e s w).1⟩) := by
  cases q with
  | idle => exact step_of_opens h
  | fresh d verdict =>
      cases verdict with
      | none =>
          obtain rfl : s = .compliance (.screen d.beneficiary d.amount) := h
          have hx : World.exec e (.compliance (.screen d.beneficiary d.amount)) w =
              (e.screen, w) := rfl
          rw [hx]
          cases e.screen with
          | error err => exact .unscreened rfl
          | ok o => exact .screened rfl
      | some o =>
          obtain rfl : s = .deposits (.update
            { d with state := Deposit.screenTarget o }) := h
          rcases exec_update (e := e) (w := w) (d := d)
            (s := Deposit.screenTarget o) with ⟨hnone, hx⟩ | hx
          · rw [hx]
            cases o with
            | pass => exact .other rfl ⟨d, rfl, hnone⟩ rfl rfl
            | fail => exact .other rfl ⟨d, rfl, hnone⟩ rfl rfl
          · rw [hx]
            cases o with
            | pass => exact .judged (o := .pass) rfl rfl
            | fail => exact .judged (o := .fail) rfl rfl
  | passed d gate =>
      cases gate with
      | found =>
          obtain rfl : s = .clock := h
          exact .timed rfl
      | timed now =>
          obtain rfl : s = .ledger .snapshot := h
          exact .sighted rfl rfl
      | sighted now snapshot =>
          obtain rfl : s = .deposits .totalEncumbered := h
          have hx : World.exec e (.deposits .totalEncumbered) w =
              (w.deposits.totalEncumbered, w) := rfl
          rw [hx]
          cases he : w.deposits.totalEncumbered with
          | error err =>
              refine .other rfl ?_ rfl rfl
              intro t ht
              rw [he] at ht
              cases ht
          | ok t =>
              have hq : (grammar call).advance (.passed d (.sighted now snapshot))
                  ⟨.deposits .totalEncumbered, .ok t⟩ =
                    if admits d now snapshot t then .passed d .cleared
                    else .idle := rfl
              rw [hq]
              cases ha : admits d now snapshot t with
              | true => exact .cleared rfl he ha
              | false =>
                  refine .other rfl ?_ rfl rfl
                  intro t' ht
                  rw [he] at ht
                  cases ht
                  exact ha
      | cleared =>
          obtain rfl : s = .deposits (.update { d with state := .attested }) := h
          rcases exec_update (e := e) (w := w) (d := d) (s := .attested) with
            ⟨hnone, hx⟩ | hx
          · rw [hx]
            exact .other rfl ⟨d, rfl, hnone⟩ rfl rfl
          · rw [hx]; exact .attested rfl rfl
      | attested =>
          obtain rfl : s = .ledger
            (.issue d.beneficiaryWallet d.amount d.nullifier) := h
          have hx : World.exec e (.ledger
              (.issue d.beneficiaryWallet d.amount d.nullifier)) w =
                ((w.ledger.issue d.beneficiaryWallet d.amount d.nullifier).1,
                  { w with ledger := (w.ledger.issue d.beneficiaryWallet
                    d.amount d.nullifier).2 }) := rfl
          rw [hx]
          generalize hi : w.ledger.issue d.beneficiaryWallet d.amount d.nullifier = r
          obtain ⟨r, l⟩ := r
          cases r with
          | error err => exact .refused rfl (by intro hc; cases hc) hi
          | ok o =>
              cases o with
              | confirmed => exact .minted rfl hi
              | submitted => exact .refused rfl (by intro hc; cases hc) hi
              | failed => exact .refused rfl (by intro hc; cases hc) hi
      | minted =>
          obtain rfl : s = .deposits (.update { d with state := .issued }) := h
          rcases exec_update (e := e) (w := w) (d := d) (s := .issued) with
            ⟨hnone, hx⟩ | hx
          · rw [hx]
            exact .other rfl ⟨d, rfl, hnone⟩ rfl rfl
          · rw [hx]; exact .issued rfl rfl

theorem hears_exec {call : Call} {e : Env} {w : World} (hw : Keyed w.deposits)
    (s : Port) : (grammar call).hears s (World.exec e s w).1 := by
  cases s with
  | deposits m =>
      cases m with
      | find n =>
          intro d h
          exact hw n d (Except.ok.inj h)
      | _ => trivial
  | _ => trivial

theorem nullifiers_of_step {call : Call} {w w' : World} {q q' : Phase}
    {a : Act Port Port.Reply} (hs : Step call w w' q a q') {n : BankRefHash}
    (h : n ∈ w.ledger.nullifiers) : n ∈ w'.ledger.nullifiers := by
  have hissue : ∀ {b m k r}, w.ledger.issue b m k = (r, w'.ledger) →
      n ∈ w'.ledger.nullifiers := by
    intro b m k r hled
    rcases w.ledger.issue_cases b m k with ⟨e, heq, -⟩ | ⟨-, v, bal, r', -, heq, -⟩
    · rw [heq] at hled
      rw [← (Prod.mk.inj hled).2]
      exact h
    · rw [heq] at hled
      rw [← (Prod.mk.inj hled).2]
      exact Finset.mem_insert_of_mem h
  cases hs with
  | minted _ hled => exact hissue hled
  | refused _ _ hled => exact hissue hled
  | other _ _ _ hnull => rw [hnull]; exact h
  | inserted _ _ _ _ hled => rw [hled]; exact h
  | judged _ hled => rw [hled]; exact h
  | attested _ hled => rw [hled]; exact h
  | issued _ hled => rw [hled]; exact h
  | found _ _ hw => subst hw; exact h
  | screened hw => subst hw; exact h
  | unscreened hw => subst hw; exact h
  | timed hw => subst hw; exact h
  | sighted hw _ => subst hw; exact h
  | cleared hw _ _ => subst hw; exact h

/-- A nullifier is taken by the mint of a call and in no other way. -/
theorem taken_of_step {call : Call} {w w' : World} {q q' : Phase}
    {a : Act Port Port.Reply} (hs : Step call w w' q a q') {n : BankRefHash}
    (h : n ∈ w'.ledger.nullifiers) :
    n ∈ w.ledger.nullifiers ∨ ∃ d, q = .passed d .attested ∧ d.nullifier = n := by
  have hissue : ∀ {b m k r}, w.ledger.issue b m k = (r, w'.ledger) →
      n ∈ w.ledger.nullifiers ∨ k = n := by
    intro b m k r hled
    rcases w.ledger.issue_cases b m k with ⟨e, heq, -⟩ | ⟨-, v, bal, r', -, heq, -⟩
    · rw [heq] at hled
      rw [← (Prod.mk.inj hled).2] at h
      exact .inl h
    · rw [heq] at hled
      rw [← (Prod.mk.inj hled).2] at h
      exact (Finset.mem_insert.mp h).symm.imp_right Eq.symm
  cases hs with
  | @minted d _ hled => exact (hissue hled).imp_right fun hn => ⟨d, rfl, hn⟩
  | @refused d r _ _ hled => exact (hissue hled).imp_right fun hn => ⟨d, rfl, hn⟩
  | other _ _ _ hnull => rw [hnull] at h; exact .inl h
  | inserted _ _ _ _ hled => rw [hled] at h; exact .inl h
  | judged _ hled => rw [hled] at h; exact .inl h
  | attested _ hled => rw [hled] at h; exact .inl h
  | issued _ hled => rw [hled] at h; exact .inl h
  | found _ _ hw => subst hw; exact .inl h
  | screened hw => subst hw; exact .inl h
  | unscreened hw => subst hw; exact .inl h
  | timed hw => subst hw; exact .inl h
  | sighted hw _ => subst hw; exact .inl h
  | cleared hw _ _ => subst hw; exact .inl h

end Thbc.OnRamp
