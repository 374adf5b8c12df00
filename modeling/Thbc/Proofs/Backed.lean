import Thbc.Proofs.MintedOnce
import Thbc.Proofs.PaidOnce
import Thbc.Lib.Rely

/-!
# What the tables claim

Calls overlap as they like, the database fails with and without effect, and a call
may stop for good at any port call; still no row claims more than what has been
answered. A deposit that says `screened` or anything after it has a pass of the
compliance provider behind it, one that says `encumbered` a refusal, and one that
says `issued` a confirmed mint, of its own amount to its own wallet. A redemption
that says `escrowed` or anything after it has a confirmed escrow of its amount, and
one that says `confirmed` or `reclaimed` the confirmed burn or return. No payout is
asked for without such an escrow.

A call that writes a row has the answer in its own history, or has read it off the
row. Neither is taken back by the others: the log only grows, and a row changes its
state and nothing else that is claimed.
-/

namespace Thbc.Durable

open Thbc.Lib

/-! ## Deposits -/

section Deposits

variable [Sha256]

/-- What a deposit claims. -/
structure Claims (log : History Port Port.Reply) (d : Deposit) : Prop where
  screened : d.state ∈ [.screened, .attested, .issued] →
    ⟨.compliance (.screen d.beneficiary d.amount), .ok .pass⟩ ∈ log
  encumbered : d.state = .encumbered →
    ⟨.compliance (.screen d.beneficiary d.amount), .ok .fail⟩ ∈ log
  issued : d.state = .issued →
    ⟨.ledger (.issue d.beneficiaryWallet d.amount d.nullifier), .ok .confirmed⟩ ∈ log

/-- A row that can be read, and whose claims are true. -/
def Backed (log : History Port Port.Reply) (row : DepositRow) : Prop :=
  ∃ d, PgDepositRepository.rowToDeposit row = .ok d ∧ Claims log d

/-- The row of `d`, in whatever state. -/
def Origin (rows : List DepositRow) (d : Deposit) : Prop :=
  ∃ row ∈ rows, ∃ s, PgDepositRepository.rowToDeposit row = .ok { d with state := s }

/-- What a port call does to the table, whatever it overlaps with. -/
inductive Write (log : History Port Port.Reply) (rows : List DepositRow) :
    List DepositRow → Prop
  | none : Write log rows rows
  | filed {d : Deposit} (hlt : d.amount.toNat < 2 ^ 63) (hd : d.state = .observed)
      (hfree : ∀ row ∈ rows, row.bankRefHash ≠ d.nullifier.toHex) :
      Write log rows (rows ++ [.of d])
  | moved {d : Deposit} (hrow : Origin rows d) (hd : Claims log d) :
      Write log rows (rows.map (Intake.touched d))

variable {log log' : History Port Port.Reply} {rows rows' : List DepositRow} {d : Deposit}

theorem Claims.mono (h : Claims log d) (hlog : log ⊆ log') : Claims log' d :=
  ⟨fun hs => hlog (h.screened hs), fun hs => hlog (h.encumbered hs),
    fun hs => hlog (h.issued hs)⟩

theorem claims_of_observed (hd : d.state = .observed) : Claims log d := by
  refine ⟨fun hs => ?_, fun hs => ?_, fun hs => ?_⟩
  · rw [hd] at hs
    exact absurd hs (by decide)
  · rw [hd] at hs
    cases hs
  · rw [hd] at hs
    cases hs

theorem Write.keeps_filed (h : Filed rows) (hw : Write log rows rows') : Filed rows' := by
  cases hw with
  | none => exact h
  | filed hlt hd hfree => exact h.append hfree
  | moved hrow hd => exact h.touched _

/-- A row reads as its deposit, in the state that `update` writes. -/
theorem reads_touched {row : DepositRow} {s : DepositState}
    (hkey : row.bankRefHash = d.nullifier.toHex)
    (hread : PgDepositRepository.rowToDeposit row = .ok { d with state := s }) :
    PgDepositRepository.rowToDeposit (Intake.touched d row) = .ok d := by
  have htouched : Intake.touched d row =
      { row with amountMinor := d.amount.minor.toInt64, state := d.state.asStr } :=
    if_pos hkey
  obtain ⟨href, hamount, hben, hwallet, -, hobs⟩ :=
    PgDepositRepository.rowToDeposit_ok.mp hread
  rw [htouched]
  exact PgDepositRepository.rowToDeposit_ok.mpr
    ⟨href, fromI64_toInt64 (fromI64_eq_ok hamount).2, hben, hwallet, rfl, hobs⟩

/-- What an update makes of a row: another state, if it is the row's own. -/
theorem Origin.touched {row : DepositRow} (h : Origin rows d) (hrows : Filed rows)
    (hrow : row ∈ rows) {d' : Deposit}
    (hread : PgDepositRepository.rowToDeposit row = .ok d') :
    (PgDepositRepository.rowToDeposit (Intake.touched d row) = .ok d ∧
        d = { d' with state := d.state }) ∨
      Intake.touched d row = row := by
  by_cases hkey : row.bankRefHash = d.nullifier.toHex
  · obtain ⟨row', hrow', s, hread'⟩ := h
    have hown : row'.bankRefHash = d.nullifier.toHex :=
      hrows.key (d := { d with state := s }) hrow' hread'
    obtain rfl := hrows.unique hrow hrow' (hkey.trans hown.symm)
    refine .inl ⟨reads_touched hkey hread', ?_⟩
    rw [hread'] at hread
    rw [← Except.ok.inj hread]
  · exact .inr (if_neg hkey)

/-- No write takes the row of a deposit away, or changes whose it is. -/
theorem Write.origin (hw : Write log rows rows') (hrows : Filed rows) (h : Origin rows d) :
    Origin rows' d := by
  obtain ⟨row, hrow, s, hread⟩ := h
  cases hw with
  | none => exact ⟨row, hrow, s, hread⟩
  | filed hlt hd hfree => exact ⟨row, List.mem_append_left _ hrow, s, hread⟩
  | @moved d' hcopy hd =>
      refine ⟨_, List.mem_map_of_mem hrow, ?_⟩
      obtain ⟨hnew, heq⟩ | hsame := hcopy.touched hrows hrow hread
      · exact ⟨d'.state, hnew.trans (congrArg Except.ok heq)⟩
      · exact ⟨s, (congrArg _ hsame).trans hread⟩

/-- A write is as true as what it is made of. -/
theorem Write.backed (hw : Write log rows rows') (hrows : Filed rows)
    (h : ∀ row ∈ rows, Backed log row) : ∀ row ∈ rows', Backed log row := by
  intro row hrow
  cases hw with
  | none => exact h row hrow
  | filed hlt hd hfree =>
      obtain hrow | hrow := List.mem_append.mp hrow
      · exact h row hrow
      · obtain rfl := List.mem_singleton.mp hrow
        exact ⟨_, rowToDeposit_of hlt, claims_of_observed hd⟩
  | moved hcopy hd =>
      obtain ⟨r, hr, rfl⟩ := List.mem_map.mp hrow
      obtain ⟨d', hread, hclaims⟩ := h r hr
      obtain ⟨hnew, -⟩ | hsame := hcopy.touched hrows hr hread
      · exact ⟨_, hnew, hd⟩
      · rw [hsame]
        exact ⟨d', hread, hclaims⟩

/-! ### A call among others -/

/-- A pass of the compliance provider for `d`. -/
def Passed (log : History Port Port.Reply) (d : Deposit) : Prop :=
  ⟨.compliance (.screen d.beneficiary d.amount), .ok .pass⟩ ∈ log

/-- What a call can go on to rely on. -/
def Knows (w : State) : OnRamp.Phase → Prop
  | .idle => True
  | .fresh d none => d.state = .observed ∧ Origin w.1.deposits d
  | .fresh d (some o) => d.state = .observed ∧ Origin w.1.deposits d ∧
      ⟨.compliance (.screen d.beneficiary d.amount), .ok o⟩ ∈ w.2
  | .passed d .minted => (Origin w.1.deposits d ∧ Passed w.2 d) ∧
      ⟨.ledger (.issue d.beneficiaryWallet d.amount d.nullifier), .ok .confirmed⟩ ∈ w.2
  | .passed d _ => Origin w.1.deposits d ∧ Passed w.2 d

theorem Knows.passed {w : State} {gate : OnRamp.Gate} (h : Knows w (.passed d gate)) :
    Origin w.1.deposits d ∧ Passed w.2 d := by
  cases gate with
  | minted => exact h.1
  | _ => exact h

theorem Knows.mono {w w' : State} {q : OnRamp.Phase} (h : Knows w q) (hlog : w.2 ⊆ w'.2)
    (horigin : ∀ d, Origin w.1.deposits d → Origin w'.1.deposits d) : Knows w' q := by
  cases q with
  | idle => trivial
  | fresh d verdict =>
      cases verdict with
      | none => exact ⟨h.1, horigin d h.2⟩
      | some o => exact ⟨h.1, horigin d h.2.1, hlog h.2.2⟩
  | passed d gate =>
      have hpassed : Origin w'.1.deposits d ∧ Passed w'.2 d :=
        ⟨horigin d h.passed.1, hlog h.passed.2⟩
      cases gate with
      | minted => exact ⟨hpassed, hlog h.2⟩
      | _ => exact hpassed

theorem insert_asked {call : Call} {q : OnRamp.Phase}
    (h : (OnRamp.grammar call).asks q (.deposits (.insert d))) : d.state = .observed := by
  cases q with
  | idle => exact h.1
  | fresh d' verdict => cases verdict <;> cases h
  | passed d' gate => cases gate <;> cases h

/-- What a call writes, it can answer for. -/
theorem update_asked {call : Call} {q : OnRamp.Phase} {w : State} (h : Knows w q)
    (hasks : (OnRamp.grammar call).asks q (.deposits (.update d))) :
    Origin w.1.deposits d ∧ Claims w.2 d := by
  cases q with
  | idle => exact hasks.elim
  | fresh d' verdict =>
      cases verdict with
      | none => cases hasks
      | some o =>
          obtain rfl | hasks : _ = _ := hasks
          obtain ⟨-, horigin, hverdict⟩ := h
          refine ⟨horigin, ?_⟩
          cases o with
          | pass => exact ⟨fun _ => hverdict, DepositState.noConfusion, DepositState.noConfusion⟩
          | fail =>
              refine ⟨fun hs => absurd hs ?_, fun _ => hverdict, DepositState.noConfusion⟩
              show DepositState.encumbered ∉ _
              decide
  | passed d' gate =>
      obtain ⟨horigin, hpassed⟩ := h.passed
      cases gate with
      | cleared =>
          obtain rfl | hasks : _ = _ := hasks
          exact ⟨horigin, fun _ => hpassed, DepositState.noConfusion, DepositState.noConfusion⟩
      | minted =>
          obtain rfl | hasks : _ = _ := hasks
          exact ⟨horigin, fun _ => hpassed, DepositState.noConfusion, fun _ => h.2⟩
      | _ => cases hasks

/-- What the statements of a call do. -/
theorem write_of_asks {call : Call} {q : OnRamp.Phase} {w : State} {s : Port}
    (c : Conditions) (h : Knows w q) (hasks : (OnRamp.grammar call).asks q s) :
    Write w.2 w.1.deposits (exec c s w.1).2.deposits := by
  cases s with
  | deposits m =>
      obtain ⟨r, rows', hx, hr⟩ := exec_deposits c m w.1
      rw [hx]
      show Write w.2 w.1.deposits rows'
      cases m with
      | insert d =>
          obtain ⟨rfl, -⟩ | ⟨hlt, hfree, rfl⟩ := Intake.replies_insert hr
          · exact .none
          · exact .filed hlt (insert_asked hasks) hfree
      | update d =>
          obtain ⟨rfl, -⟩ | ⟨-, rfl⟩ := replies_written hr
          · exact .none
          · obtain ⟨hrow, hd⟩ := update_asked h hasks
            exact .moved hrow hd
      | find n =>
          obtain rfl := replies_read (fun _ => rfl) hr
          exact .none
      | totalEncumbered =>
          obtain rfl := replies_read (fun _ => rfl) hr
          exact .none
      | held =>
          obtain rfl := replies_read (fun _ => rfl) hr
          exact .none
      | totalIssued =>
          obtain rfl := replies_read (fun _ => rfl) hr
          exact .none
  | _ => exact .none

/-- In the middle of a deposit a call learns of an answer, or nothing new. -/
theorem Knows.advance {call : Call} {q : OnRamp.Phase} {w : State} {a : Act Port Port.Reply}
    (h : Knows w q) (hq : q ≠ .idle) (ha : a ∈ w.2)
    (hasks : (OnRamp.grammar call).asks q a.1) :
    Knows w ((OnRamp.grammar call).advance q a) := by
  obtain ⟨s, b⟩ := a
  cases q with
  | idle => exact absurd rfl hq
  | fresh d verdict =>
      cases verdict with
      | none =>
          obtain rfl : s = _ := hasks
          rcases b with e | o
          · trivial
          · exact ⟨h.1, h.2, ha⟩
      | some o =>
          obtain rfl : s = _ := hasks
          cases o with
          | fail => trivial
          | pass =>
              rcases b with e | u
              · trivial
              · exact h.2
  | passed d gate =>
      have hpassed := h.passed
      cases gate with
      | found =>
          obtain rfl : s = _ := hasks
          exact hpassed
      | timed now =>
          obtain rfl : s = _ := hasks
          rcases b with e | o
          · trivial
          · exact hpassed
      | sighted now snapshot =>
          obtain rfl : s = _ := hasks
          rcases b with e | t
          · trivial
          · show Knows w (if OnRamp.admits d now snapshot t then .passed d .cleared else .idle)
            split
            · exact hpassed
            · trivial
      | cleared =>
          obtain rfl : s = _ := hasks
          rcases b with e | u
          · trivial
          · exact hpassed
      | attested =>
          obtain rfl : s = _ := hasks
          rcases b with e | o
          · trivial
          · cases o with
            | confirmed => exact ⟨hpassed, ha⟩
            | submitted => trivial
            | failed => trivial
      | minted =>
          obtain rfl : s = _ := hasks
          trivial

/-- A call that is idle learns of a deposit by filing it or by finding it. -/
theorem knows_opened {call : Call} {w : State} {s : Port} (c : Conditions)
    (hrows : ∀ row ∈ w.1.deposits, Backed w.2 row) (hasks : OnRamp.opens call s) :
    Knows (exec.logged c s w).2
      ((OnRamp.grammar call).advance .idle ⟨s, (exec c s w.1).1⟩) := by
  cases s with
  | deposits m =>
      cases m with
      | insert d =>
          obtain ⟨r, rows', hx, hr⟩ := exec_deposits c (.insert d) w.1
          have hw' : (exec.logged c (.deposits (.insert d)) w).2.1.deposits = rows' :=
            congrArg (fun x => x.2.deposits) hx
          rw [congrArg Prod.fst hx]
          rcases r with e | u
          · trivial
          · obtain ⟨-, hne⟩ | ⟨hlt, -, hrows'⟩ := Intake.replies_insert hr
            · exact absurd rfl hne
            · refine ⟨hasks.1, .of d, ?_, d.state, rowToDeposit_of hlt⟩
              rw [hw', hrows']
              exact List.mem_append_right _ List.mem_cons_self
      | find n =>
          obtain ⟨r, rows', hx, hr⟩ := exec_deposits c (.find n) w.1
          obtain ⟨hsame, hfound⟩ := Intake.replies_find hr
          have hw' : (exec.logged c (.deposits (.find n)) w).2.1.deposits = w.1.deposits :=
            (congrArg (fun x => x.2.deposits) hx).trans hsame
          rw [congrArg Prod.fst hx]
          rcases r with e | found
          · trivial
          · cases found with
            | none => trivial
            | some d =>
                obtain ⟨row, hrow, -, hread⟩ := hfound d rfl
                show Knows _ (if OnRamp.retries call ∧ d.state = .screened then
                  .passed d .found else .idle)
                split
                · next hgo =>
                    obtain ⟨d', hread', hclaims⟩ := hrows row hrow
                    obtain rfl := Except.ok.inj (hread.symm.trans hread')
                    refine ⟨⟨row, ?_, d.state, hread⟩, ?_⟩
                    · rw [hw']
                      exact hrow
                    · refine List.mem_cons_of_mem _ (hclaims.screened ?_)
                      rw [hgo.2]
                      decide
                · trivial
      | update d => exact hasks.elim
      | _ => trivial
  | ledger m => cases m <;> first | exact hasks.elim | trivial
  | compliance m => exact hasks.elim
  | _ => trivial

/-- What a port call leaves of what others know. -/
structure Keeps (w w' : State) : Prop where
  log : w.2 ⊆ w'.2
  origin : ∀ d, Origin w.1.deposits d → Origin w'.1.deposits d

theorem relies_deposits (calls : List Call) :
    Relies exec (fun i => OnRamp.grammar (callAt calls i))
      (fun w => Filed w.1.deposits ∧ ∀ row ∈ w.1.deposits, Backed w.2 row)
      (fun q w => Knows w q) Keeps where
  honest i s e w hI := hears_deposits hI.1 e s
  inv i q s e w hI hK hasks := by
    have hwrite := write_of_asks e hK hasks
    refine ⟨hwrite.keeps_filed hI.1, fun row hrow => ?_⟩
    obtain ⟨d, hread, hclaims⟩ := hwrite.backed hI.1 hI.2 row hrow
    exact ⟨d, hread, hclaims.mono (List.subset_cons_self _ _)⟩
  advances i q s e w hI hK hasks := by
    by_cases hq : q = .idle
    · subst hq
      exact knows_opened e hI.2 hasks
    · have hkept : Knows (exec.logged e s w).2 q := hK.mono (List.subset_cons_self _ _)
        fun d hd => (write_of_asks e hK hasks).origin hI.1 hd
      exact hkept.advance hq List.mem_cons_self hasks
  rely i q s e w hI hK hasks :=
    ⟨List.subset_cons_self _ _, fun d hd => (write_of_asks e hK hasks).origin hI.1 hd⟩
  stable q w w' hI hK hR := hK.mono hR.log hR.origin

end Deposits

/-! ## Redemptions -/

namespace Payouts

variable {log log' : History Port Port.Reply} {rows rows' : List RedemptionRow}
  {r : Redemption}

/-- The ledger's answer to the escrow of `r`. -/
def Answered (log : History Port Port.Reply) (r : Redemption) (o : ConfirmOutcome) : Prop :=
  ∃ since, ⟨.ledger (.escrowRedemption { r with state := .requested, escrowedAt := since }),
    .ok o⟩ ∈ log

/-- What a redemption claims. -/
structure Claims (log : History Port Port.Reply) (r : Redemption) : Prop where
  escrowed : r.state ∉ [.requested, .failed] → Answered log r .confirmed
  failed : r.state = .failed → Answered log r .failed
  confirmed : r.state = .confirmed →
    ⟨.ledger (.confirmRedemption r.user r.seq), .ok .confirmed⟩ ∈ log
  reclaimed : r.state = .reclaimed →
    ⟨.ledger (.reclaimRedemption r.user r.seq), .ok .confirmed⟩ ∈ log

/-- A row that can be read, and whose claims are true. -/
def Backed (log : History Port Port.Reply) (row : RedemptionRow) : Prop :=
  ∃ r, PgRedemptionRepository.rowToRedemption row = .ok r ∧ Claims log r

/-- A payout is asked for what is escrowed. -/
def Covered (log : History Port Port.Reply) : Prop :=
  ∀ user seq amount b, ⟨.payouts (.enqueue user seq amount), b⟩ ∈ log →
    ∃ rd : Redemption, ⟨.ledger (.escrowRedemption rd), .ok .confirmed⟩ ∈ log ∧
      rd.user = user ∧ rd.seq = seq ∧ rd.amount = amount

/-- The row of `r`, in whatever state. -/
def Origin (rows : List RedemptionRow) (r : Redemption) : Prop :=
  ∃ row ∈ rows, ∃ s since, PgRedemptionRepository.rowToRedemption row =
    .ok { r with state := s, escrowedAt := since }

/-- What a port call does to the table, whatever it overlaps with. -/
inductive Write (log : History Port Port.Reply) (rows : List RedemptionRow) :
    List RedemptionRow → Prop
  | none : Write log rows rows
  | filed {r : Redemption} (hlt : r.seq.toNat < 2 ^ 63 ∧ r.amount.toNat < 2 ^ 63)
      (hr : r.state = .requested)
      (hfree : ∀ row ∈ rows, (row.userId, row.seq) ≠ (r.user, r.seq.toInt64)) :
      Write log rows (rows ++ [.of r])
  | moved {r : Redemption} (hrow : Origin rows r) (hr : Claims log r) :
      Write log rows (rows.map (touched r))

theorem Answered.mono {o : ConfirmOutcome} (h : Answered log r o) (hlog : log ⊆ log') :
    Answered log' r o := by
  obtain ⟨since, hmem⟩ := h
  exact ⟨since, hlog hmem⟩

theorem Claims.mono (h : Claims log r) (hlog : log ⊆ log') : Claims log' r :=
  ⟨fun hs => (h.escrowed hs).mono hlog, fun hs => (h.failed hs).mono hlog,
    fun hs => hlog (h.confirmed hs), fun hs => hlog (h.reclaimed hs)⟩

theorem Claims.escrowed_of_pending (h : Claims log r) (hp : r.state.isPending = true) :
    Answered log r .confirmed := by
  refine h.escrowed fun hmem => ?_
  obtain ⟨hreq, hfailed⟩ := RedemptionState.ne_of_isPending hp
  rw [List.mem_cons, List.mem_singleton] at hmem
  exact hmem.elim hreq hfailed

theorem claims_of_requested (hr : r.state = .requested) : Claims log r := by
  refine ⟨fun hs => absurd ?_ hs, fun hs => ?_, fun hs => ?_, fun hs => ?_⟩
  · rw [hr]
    exact List.mem_cons_self
  all_goals
    rw [hr] at hs
    cases hs

theorem Write.keeps_filed (h : Filed rows) (hw : Write log rows rows') : Filed rows' := by
  cases hw with
  | none => exact h
  | filed hlt hr hfree => exact h.append hfree
  | moved hrow hr => exact h.touched _

/-- What an update makes of a row: another state, if it is the row's own. -/
theorem Origin.touched {row : RedemptionRow} (h : Origin rows r) (hrows : Filed rows)
    (hrow : row ∈ rows) {r' : Redemption}
    (hread : PgRedemptionRepository.rowToRedemption row = .ok r') :
    (PgRedemptionRepository.rowToRedemption (touched r row) = .ok r ∧
        r = { r' with state := r.state, escrowedAt := r.escrowedAt }) ∨
      Durable.touched r row = row := by
  by_cases hkey : (row.userId, row.seq) = (r.user, r.seq.toInt64)
  · obtain ⟨row', hrow', s, since, hread'⟩ := h
    have hown : (row'.userId, row'.seq) = (r.user, r.seq.toInt64) :=
      key_of_read (r := { r with state := s, escrowedAt := since }) hread'
    obtain rfl := hrows.unique hrow hrow' (hkey.trans hown.symm)
    have htouched : Durable.touched r row =
        { row with state := r.state.asStr, escrowedAt := r.escrowedAt } := if_pos hkey
    obtain ⟨huser, hseq, hamount, -, hreq, -, hdelta⟩ :=
      PgRedemptionRepository.rowToRedemption_ok.mp hread'
    refine .inl ⟨?_, ?_⟩
    · rw [htouched]
      exact PgRedemptionRepository.rowToRedemption_ok.mpr
        ⟨huser, hseq, hamount, rfl, hreq, rfl, hdelta⟩
    · rw [hread'] at hread
      rw [← Except.ok.inj hread]
  · exact .inr (if_neg hkey)

/-- No write takes the row of a redemption away, or changes whose it is. -/
theorem Write.origin (hw : Write log rows rows') (hrows : Filed rows) (h : Origin rows r) :
    Origin rows' r := by
  obtain ⟨row, hrow, s, since, hread⟩ := h
  cases hw with
  | none => exact ⟨row, hrow, s, since, hread⟩
  | filed hlt hr hfree => exact ⟨row, List.mem_append_left _ hrow, s, since, hread⟩
  | @moved r' hcopy hr =>
      refine ⟨_, List.mem_map_of_mem hrow, ?_⟩
      obtain ⟨hnew, heq⟩ | hsame := hcopy.touched hrows hrow hread
      · exact ⟨r'.state, r'.escrowedAt, hnew.trans (congrArg Except.ok heq)⟩
      · exact ⟨s, since, (congrArg _ hsame).trans hread⟩

/-- A write is as true as what it is made of. -/
theorem Write.backed (hw : Write log rows rows') (hrows : Filed rows)
    (h : ∀ row ∈ rows, Backed log row) : ∀ row ∈ rows', Backed log row := by
  intro row hrow
  cases hw with
  | none => exact h row hrow
  | filed hlt hr hfree =>
      obtain hrow | hrow := List.mem_append.mp hrow
      · exact h row hrow
      · obtain rfl := List.mem_singleton.mp hrow
        exact ⟨_, rowToRedemption_of hlt.1 hlt.2, claims_of_requested hr⟩
  | moved hcopy hr =>
      obtain ⟨old, hold, rfl⟩ := List.mem_map.mp hrow
      obtain ⟨r', hread, hclaims⟩ := h old hold
      obtain ⟨hnew, -⟩ | hsame := hcopy.touched hrows hold hread
      · exact ⟨_, hnew, hr⟩
      · rw [hsame]
        exact ⟨r', hread, hclaims⟩

/-! ### A call among others -/

/-- What a call can go on to rely on. -/
def Knows (w : State) : OffRamp.Phase → Prop
  | .idle => True
  | .drafting r .inserted => Origin w.1.redemptions r ∧ r.state = .requested
  | .drafting r (.answered o) => Origin w.1.redemptions r ∧ r.state = .requested ∧
      Answered w.2 r o
  | .drafting r .applied => Origin w.1.redemptions r ∧ Claims w.2 r
  | .settling r .queueing => Origin w.1.redemptions r ∧ Answered w.2 r .confirmed
  | .settling r .queued => Origin w.1.redemptions r ∧ Answered w.2 r .confirmed
  | .settling r .confirming => Origin w.1.redemptions r ∧ Claims w.2 r
  | .settling r .burned => Origin w.1.redemptions r ∧ Answered w.2 r .confirmed ∧
      ⟨.ledger (.confirmRedemption r.user r.seq), .ok .confirmed⟩ ∈ w.2
  | .settling r .reclaiming => Origin w.1.redemptions r ∧ Claims w.2 r
  | .settling r .returning => Origin w.1.redemptions r ∧ Answered w.2 r .confirmed
  | .settling r .returned => Origin w.1.redemptions r ∧ Answered w.2 r .confirmed ∧
      ⟨.ledger (.reclaimRedemption r.user r.seq), .ok .confirmed⟩ ∈ w.2

theorem Knows.mono {w w' : State} {q : OffRamp.Phase} (h : Knows w q) (hlog : w.2 ⊆ w'.2)
    (horigin : ∀ r, Origin w.1.redemptions r → Origin w'.1.redemptions r) : Knows w' q := by
  cases q with
  | idle => trivial
  | drafting r stage =>
      cases stage with
      | inserted => exact ⟨horigin r h.1, h.2⟩
      | answered o => exact ⟨horigin r h.1, h.2.1, h.2.2.mono hlog⟩
      | applied => exact ⟨horigin r h.1, h.2.mono hlog⟩
  | settling r stage =>
      cases stage with
      | queueing => exact ⟨horigin r h.1, h.2.mono hlog⟩
      | queued => exact ⟨horigin r h.1, h.2.mono hlog⟩
      | confirming => exact ⟨horigin r h.1, h.2.mono hlog⟩
      | reclaiming => exact ⟨horigin r h.1, h.2.mono hlog⟩
      | returning => exact ⟨horigin r h.1, h.2.mono hlog⟩
      | burned => exact ⟨horigin r h.1, h.2.1.mono hlog, hlog h.2.2⟩
      | returned => exact ⟨horigin r h.1, h.2.1.mono hlog, hlog h.2.2⟩

theorem insert_asked {call : Call} {q : OffRamp.Phase}
    (h : (OffRamp.grammar call).asks q (.redemptions (.insert r))) : r.state = .requested := by
  cases q with
  | idle => exact h.1
  | drafting r' stage => cases stage <;> cases h
  | settling r' stage => cases stage <;> cases h

/-- A redemption that has gone on from its escrow. -/
theorem claims_of_escrowed {s : RedemptionState} (h : Answered log r .confirmed)
    (hs : s ≠ .failed)
    (hconf : s = .confirmed → ⟨.ledger (.confirmRedemption r.user r.seq), .ok .confirmed⟩ ∈ log)
    (hrecl : s = .reclaimed → ⟨.ledger (.reclaimRedemption r.user r.seq), .ok .confirmed⟩ ∈ log) :
    Claims log { r with state := s } :=
  ⟨fun _ => h, fun hfailed => absurd hfailed hs, hconf, hrecl⟩

/-- What a call writes, it can answer for. -/
theorem update_asked {call : Call} {q : OffRamp.Phase} {w : State} (h : Knows w q)
    (hasks : (OffRamp.grammar call).asks q (.redemptions (.update r))) :
    Origin w.1.redemptions r ∧ Claims w.2 r := by
  cases q with
  | idle => exact hasks.elim
  | drafting r' stage =>
      cases stage with
      | applied =>
          obtain rfl | hasks : _ = _ := hasks
          exact h
      | _ => cases hasks
  | settling r' stage =>
      cases stage with
      | queueing =>
          obtain rfl | hasks : _ = _ := hasks
          exact ⟨h.1, claims_of_escrowed h.2 RedemptionState.noConfusion
            RedemptionState.noConfusion RedemptionState.noConfusion⟩
      | burned =>
          obtain rfl | hasks : _ = _ := hasks
          exact ⟨h.1, claims_of_escrowed h.2.1 RedemptionState.noConfusion (fun _ => h.2.2)
            RedemptionState.noConfusion⟩
      | returned =>
          obtain rfl | hasks : _ = _ := hasks
          exact ⟨h.1, claims_of_escrowed h.2.1 RedemptionState.noConfusion
            RedemptionState.noConfusion fun _ => h.2.2⟩
      | _ => cases hasks

section Calls

variable [Sha256] {call : Call} {q : OffRamp.Phase} {w : State} {s : Port}

/-- What the statements of a call do. -/
theorem write_of_asks (c : Conditions) (h : Knows w q)
    (hasks : (OffRamp.grammar call).asks q s) :
    Write w.2 w.1.redemptions (exec c s w.1).2.redemptions := by
  cases s with
  | redemptions m =>
      obtain ⟨b, rows', hx, hb⟩ := exec_redemptions c m w.1
      rw [hx]
      show Write w.2 w.1.redemptions rows'
      cases m with
      | insert r =>
          obtain ⟨rfl, -⟩ | ⟨hseq, hlt, hfree, rfl⟩ := replies_insert hb
          · exact .none
          · exact .filed ⟨hseq, hlt⟩ (insert_asked hasks) hfree
      | update r =>
          obtain ⟨rfl, -⟩ | ⟨-, rfl⟩ := replies_update hb
          · exact .none
          · obtain ⟨hrow, hr⟩ := update_asked h hasks
            exact .moved hrow hr
      | find user seq =>
          obtain rfl := replies_read (fun _ => rfl) hb
          exact .none
      | nextSeq user =>
          obtain rfl := replies_read (fun _ => rfl) hb
          exact .none
      | reclaimable now =>
          obtain rfl := replies_read (fun _ => rfl) hb
          exact .none
      | totalRedeemed =>
          obtain rfl := replies_read (fun _ => rfl) hb
          exact .none
      | pendingCount =>
          obtain rfl := replies_read (fun _ => rfl) hb
          exact .none
  | _ => exact .none

omit [Sha256] in
/-- The escrow's answer on the copy. -/
theorem claims_of_applied {log : History Port Port.Reply} {r r' : Redemption}
    {o : ConfirmOutcome} {now : Int64} (hr : r.state = .requested)
    (happ : r.applyEscrowOutcome o now = .ok r') (h : Answered log r o) : Claims log r' := by
  unfold Redemption.applyEscrowOutcome at happ
  rw [guard_ok] at happ
  obtain ⟨-, happ⟩ := happ
  cases o with
  | confirmed =>
      obtain rfl := Except.ok.inj happ
      exact ⟨fun _ => h, RedemptionState.noConfusion, RedemptionState.noConfusion,
        RedemptionState.noConfusion⟩
  | failed =>
      obtain rfl := Except.ok.inj happ
      refine ⟨fun hs => absurd ?_ hs, fun _ => h, RedemptionState.noConfusion,
        RedemptionState.noConfusion⟩
      show RedemptionState.failed ∈ _
      decide
  | submitted =>
      obtain rfl := Except.ok.inj happ
      exact claims_of_requested hr

omit [Sha256] in
/-- In the middle of a redemption a call learns of an answer, or nothing new. -/
theorem Knows.advance {a : Act Port Port.Reply} (h : Knows w q) (hq : q ≠ .idle)
    (ha : a ∈ w.2) (hasks : (OffRamp.grammar call).asks q a.1) :
    Knows w ((OffRamp.grammar call).advance q a) := by
  obtain ⟨s, b⟩ := a
  cases q with
  | idle => exact absurd rfl hq
  | drafting r stage =>
      cases stage with
      | inserted =>
          obtain rfl : s = _ := hasks
          obtain ⟨horigin, hr⟩ := h
          rcases b with e | o
          · trivial
          · refine ⟨horigin, hr, r.escrowedAt, ?_⟩
            have hself : { r with state := RedemptionState.requested } = r := by rw [← hr]
            show ⟨.ledger (.escrowRedemption { r with state := .requested }), _⟩ ∈ w.2
            rw [hself]
            exact ha
      | answered o =>
          obtain rfl : s = _ := hasks
          obtain ⟨⟨row, hrow, s, since, hread⟩, hr, hanswer⟩ := h
          cases happ : r.applyEscrowOutcome o b with
          | error e =>
              rw [OffRamp.advance_unanswered happ]
              trivial
          | ok r' =>
              rw [OffRamp.advance_answered happ]
              have hclaims := claims_of_applied hr happ hanswer
              obtain ⟨s', since', rfl⟩ := Redemption.applyEscrowOutcome_cases happ
              exact ⟨⟨row, hrow, s, since, hread⟩, hclaims⟩
      | applied =>
          obtain rfl : s = _ := hasks
          trivial
  | settling r stage =>
      cases stage with
      | queueing =>
          obtain rfl : s = _ := hasks
          rcases b with e | u
          · trivial
          · exact h
      | queued =>
          obtain rfl : s = _ := hasks
          trivial
      | confirming =>
          obtain rfl : s = _ := hasks
          rcases b with e | o
          · trivial
          · cases o with
            | confirmed =>
                show Knows w (if r.state.isPending then .settling r .burned else .idle)
                split
                · next hp => exact ⟨h.1, h.2.escrowed_of_pending hp, ha⟩
                · trivial
            | submitted => trivial
            | failed => trivial
      | burned =>
          obtain rfl : s = _ := hasks
          trivial
      | reclaiming =>
          obtain rfl : s = _ := hasks
          cases hrec : r.reclaim b with
          | error e =>
              rw [OffRamp.advance_early hrec]
              trivial
          | ok r' =>
              rw [OffRamp.advance_due hrec]
              exact ⟨h.1, h.2.escrowed_of_pending (Redemption.reclaim_ok.mp hrec).1⟩
      | returning =>
          obtain rfl : s = _ := hasks
          rcases b with e | o
          · trivial
          · cases o with
            | confirmed => exact ⟨h.1, h.2, ha⟩
            | submitted => trivial
            | failed => trivial
      | returned =>
          obtain rfl : s = _ := hasks
          trivial

omit [Sha256] in
theorem knows_found {r : Redemption} (h : Origin w.1.redemptions r) (hr : Claims w.2 r) :
    Knows w (match OffRamp.settles call r with
      | some stage => .settling r stage
      | none => .idle) := by
  cases hs : OffRamp.settles call r with
  | none => trivial
  | some stage =>
      obtain ⟨rfl, hst, -⟩ | ⟨rfl, -⟩ | ⟨rfl, -⟩ := OffRamp.settles_cases hs
      · refine ⟨h, hr.escrowed ?_⟩
        rw [hst]
        decide
      · exact ⟨h, hr⟩
      · exact ⟨h, hr⟩

/-- A call that is idle learns of a redemption by filing it or by finding it. -/
theorem knows_opened (c : Conditions) (hrows : ∀ row ∈ w.1.redemptions, Backed w.2 row)
    (hasks : OffRamp.opens call s) :
    Knows (exec.logged c s w).2
      ((OffRamp.grammar call).advance .idle ⟨s, (exec c s w.1).1⟩) := by
  cases s with
  | redemptions m =>
      cases m with
      | insert r =>
          obtain ⟨b, rows', hx, hb⟩ := exec_redemptions c (.insert r) w.1
          have hw' : (exec.logged c (.redemptions (.insert r)) w).2.1.redemptions = rows' :=
            congrArg (fun x => x.2.redemptions) hx
          rw [congrArg Prod.fst hx]
          rcases b with e | u
          · trivial
          · obtain ⟨-, hne⟩ | ⟨hseq, hlt, -, hrows'⟩ := replies_insert hb
            · exact absurd rfl hne
            · refine ⟨⟨.of r, ?_, r.state, r.escrowedAt, rowToRedemption_of hseq hlt⟩, hasks.1⟩
              rw [hw', hrows']
              exact List.mem_append_right _ List.mem_cons_self
      | find user seq =>
          obtain ⟨b, rows', hx, hb⟩ := exec_redemptions c (.find user seq) w.1
          obtain ⟨hsame, hfound⟩ := replies_find hb
          have hw' : (exec.logged c (.redemptions (.find user seq)) w).2.1.redemptions =
              w.1.redemptions := (congrArg (fun x => x.2.redemptions) hx).trans hsame
          rw [congrArg Prod.fst hx]
          rcases b with e | found
          · trivial
          · cases found with
            | none => trivial
            | some r =>
                obtain ⟨-, row, hrow, -, hread⟩ := hfound r rfl
                obtain ⟨r', hread', hclaims⟩ := hrows row hrow
                obtain rfl := Except.ok.inj (hread.symm.trans hread')
                rw [OffRamp.advance_find]
                refine knows_found ⟨row, ?_, r.state, r.escrowedAt, hread⟩
                  (hclaims.mono (List.subset_cons_self _ _))
                rw [hw']
                exact hrow
      | update r => exact hasks.elim
      | _ => trivial
  | ledger m => cases m <;> first | exact hasks.elim | trivial
  | payouts m => exact hasks.elim
  | _ => trivial

omit [Sha256] in
/-- The call that asks for a payout knows of the escrow. -/
theorem Knows.covered {a : Act Port Port.Reply} (h : Knows w q) (hlog : Covered w.2)
    (hasks : (OffRamp.grammar call).asks q a.1) : Covered (a :: w.2) := by
  intro user seq amount b hmem
  obtain heq | hmem := List.mem_cons.mp hmem
  · subst heq
    obtain ⟨r, rfl, rfl, rfl, rfl⟩ := payout_asked hasks
    obtain ⟨-, since, hanswer⟩ := h
    exact ⟨_, List.mem_cons_of_mem _ hanswer, rfl, rfl, rfl⟩
  · obtain ⟨rd, hanswer, hrd⟩ := hlog user seq amount b hmem
    exact ⟨rd, List.mem_cons_of_mem _ hanswer, hrd⟩

/-- What a port call leaves of what others know. -/
structure Keeps (w w' : State) : Prop where
  log : w.2 ⊆ w'.2
  origin : ∀ r, Origin w.1.redemptions r → Origin w'.1.redemptions r

theorem relies_redemptions (calls : List Call) :
    Relies exec (fun i => OffRamp.grammar (callAt calls i))
      (fun w => (Filed w.1.redemptions ∧ ∀ row ∈ w.1.redemptions, Backed w.2 row) ∧
        Covered w.2)
      (fun q w => Knows w q) Keeps where
  honest i s e w hI := hears_redemptions e s
  inv i q s e w hI hK hasks := by
    have hwrite := write_of_asks e hK hasks
    refine ⟨⟨hwrite.keeps_filed hI.1.1, fun row hrow => ?_⟩, hK.covered hI.2 hasks⟩
    obtain ⟨r, hread, hclaims⟩ := hwrite.backed hI.1.1 hI.1.2 row hrow
    exact ⟨r, hread, hclaims.mono (List.subset_cons_self _ _)⟩
  advances i q s e w hI hK hasks := by
    by_cases hq : q = .idle
    · subst hq
      exact knows_opened e hI.1.2 hasks
    · have hkept : Knows (exec.logged e s w).2 q := hK.mono (List.subset_cons_self _ _)
        fun r hr => (write_of_asks e hK hasks).origin hI.1.1 hr
      exact hkept.advance hq List.mem_cons_self hasks
  rely i q s e w hI hK hasks :=
    ⟨List.subset_cons_self _ _, fun r hr => (write_of_asks e hK hasks).origin hI.1.1 hr⟩
  stable q w w' hI hK hR := hK.mono hR.log hR.origin

end Calls

end Payouts

/-! ## Both -/

section Tables

variable [Sha256]

/-- Calls that overlap, over the tables. -/
abbrev Calls : Type := Pool Port Port.Reply (PortResult CallOutcome) Tables

/-- All calls at their beginning. -/
def Calls.start (deltaSecs : Int64) (calls : List Call) (w : Tables) : Calls :=
  Pool.start (calls.map (Call.prog deltaSecs)) w

theorem Calls.obeys_start {Q : Type} {G : Call → Grammar Port Port.Reply Q}
    {deltaSecs : Int64}
    (h : ∀ call : Call, (call.prog deltaSecs).Obeys (G call) (G call).start)
    (calls : List Call) (w : Tables) :
    (Calls.start deltaSecs calls w).Obeys fun i => G (callAt calls i) := by
  refine Pool.obeys_start fun i p hp => ?_
  rw [List.getElem?_map] at hp
  obtain ⟨call, hc, rfl⟩ := Option.map_eq_some_iff.mp hp
  have hat : callAt calls i = call := by
    rw [callAt, List.getD_eq_getElem?_getD, hc]
    rfl
  rw [hat]
  exact h call

/-- From empty tables on, in every state of every run, each row is backed by what has
been answered, and each payout asked for by a confirmed escrow. -/
theorem tables_backed (deltaSecs : Int64) (calls : List Call)
    (runs : List ReconciliationRow) (ts : List (ℕ × Conditions)) :
    let c := ((Calls.start deltaSecs calls ⟨[], [], runs⟩).run exec ts).view
    (∀ row ∈ c.1.deposits, Backed c.2 row) ∧
      (∀ row ∈ c.1.redemptions, Payouts.Backed c.2 row) ∧ Payouts.Covered c.2 := by
  have hon := Pool.rely (relies_deposits calls)
    (c := Calls.start deltaSecs calls ⟨[], [], runs⟩)
    ⟨Calls.obeys_start (OnRamp.call_obeys deltaSecs) _ _,
      ⟨⟨List.nodup_nil, fun row hrow => absurd hrow List.not_mem_nil⟩,
        fun row hrow => absurd hrow List.not_mem_nil⟩, fun i => trivial⟩ ts
  have hoff := Pool.rely (Payouts.relies_redemptions calls)
    (c := Calls.start deltaSecs calls ⟨[], [], runs⟩)
    ⟨Calls.obeys_start (OffRamp.call_obeys deltaSecs) _ _,
      ⟨⟨List.nodup_nil, fun row hrow => absurd hrow List.not_mem_nil⟩,
        fun _ _ _ _ hmem => absurd hmem List.not_mem_nil⟩, fun i => trivial⟩ ts
  exact ⟨hon.inv.2, hoff.inv.1.2, hoff.inv.2⟩

end Tables

end Thbc.Durable
