import Thbc.System.Durable
import Thbc.Proofs.Identity

/-!
# At most one mint, whatever stops

A deposit is persisted as `attested` before `issue` is called for it, and nothing
ever takes it back to `screened`. So once the row says `attested` there is at most
the one call that wrote it left to ask for the mint; when that call stops, nobody
does. This is where the exactly-once of the ledger does not have to be relied on,
and equally where a deposit is left behind.

`Change` is what one port call can do to the table, `Copied` what the call in the
middle of it can rely on, and `Spent` is when no more mint will be asked for.
-/

namespace Thbc.Durable

open Thbc.Lib

section Deposits

variable [Sha256]

/-- Every deposit is filed once and under its own reference. -/
structure Filed (rows : List DepositRow) : Prop where
  nodup : (rows.map DepositRow.bankRefHash).Nodup
  own : ∀ row ∈ rows, ∀ b, BankRef.new row.bankRef = .ok b → row.bankRefHash = b.hash.toHex

/-- There is a row that reads as `d`. -/
def Holds (rows : List DepositRow) (d : Deposit) : Prop :=
  ∃ row ∈ rows, PgDepositRepository.rowToDeposit row = .ok d

/-- The moves of a row. -/
inductive Advances : DepositState → DepositState → Prop
  | screened : Advances .observed .screened
  | encumbered : Advances .observed .encumbered
  | attested : Advances .screened .attested
  | issued : Advances .attested .issued

/-- What a port call does to the table when nothing overlaps it. -/
inductive Change (rows : List DepositRow) : List DepositRow → Prop
  | none : Change rows rows
  | filed {d : Deposit} (hlt : d.amount.toNat < 2 ^ 63) (hd : d.state = .observed)
      (hfree : ∀ row ∈ rows, row.bankRefHash ≠ d.nullifier.toHex) :
      Change rows (rows ++ [.of d])
  | moved {d : Deposit} {s : DepositState} (hlt : d.amount.toNat < 2 ^ 63)
      (hrow : Holds rows d) (hs : Advances d.state s) :
      Change rows (rows.map (Intake.touched { d with state := s }))

variable {rows rows' : List DepositRow} {d : Deposit}

theorem Filed.key (h : Filed rows) {row : DepositRow} (hrow : row ∈ rows)
    (hread : PgDepositRepository.rowToDeposit row = .ok d) :
    row.bankRefHash = d.nullifier.toHex :=
  h.own row hrow _ (PgDepositRepository.rowToDeposit_ok.mp hread).1

theorem Filed.unique (h : Filed rows) {row row' : DepositRow} (hrow : row ∈ rows)
    (hrow' : row' ∈ rows) (hkey : row.bankRefHash = row'.bankRefHash) : row = row' :=
  List.inj_on_of_nodup_map h.nodup hrow hrow' hkey

theorem touched_key (d : Deposit) (row : DepositRow) :
    (Intake.touched d row).bankRefHash = row.bankRefHash ∧
      (Intake.touched d row).bankRef = row.bankRef ∧
      (Intake.touched d row).beneficiaryWallet = row.beneficiaryWallet := by
  unfold Intake.touched
  split
  · exact ⟨rfl, rfl, rfl⟩
  · exact ⟨rfl, rfl, rfl⟩

theorem Filed.append (h : Filed rows)
    (hfree : ∀ row ∈ rows, row.bankRefHash ≠ d.nullifier.toHex) :
    Filed (rows ++ [.of d]) := by
  refine ⟨?_, fun row hrow b hb => ?_⟩
  · rw [List.map_append, List.nodup_append]
    refine ⟨h.nodup, List.nodup_singleton _, fun k hk k' hk' heq => ?_⟩
    obtain ⟨row, hrow, rfl⟩ := List.mem_map.mp hk
    rw [List.mem_singleton.mp hk'] at heq
    exact hfree row hrow heq
  · obtain hrow | hrow := List.mem_append.mp hrow
    · exact h.own row hrow b hb
    · obtain rfl := List.mem_singleton.mp hrow
      have hnew : BankRef.new d.bankRef.text = .ok b := hb
      rw [BankRef.new_text] at hnew
      rw [← Except.ok.inj hnew]
      rfl

theorem Filed.touched (h : Filed rows) (d : Deposit) :
    Filed (rows.map (Intake.touched d)) := by
  refine ⟨?_, fun row hrow b hb => ?_⟩
  · have hkeys : DepositRow.bankRefHash ∘ Intake.touched d = DepositRow.bankRefHash :=
      funext fun row => (touched_key _ row).1
    rw [List.map_map, hkeys]
    exact h.nodup
  · obtain ⟨r, hr, rfl⟩ := List.mem_map.mp hrow
    rw [(touched_key _ r).2.1] at hb
    exact (touched_key _ r).1.trans (h.own r hr b hb)

theorem Filed.change (h : Filed rows) (hc : Change rows rows') : Filed rows' := by
  cases hc with
  | none => exact h
  | filed hlt hd hfree => exact h.append hfree
  | moved hlt hrow hs => exact h.touched _

/-! ## Rows that a mint may have been asked for -/

def Spendable (row : DepositRow) : Prop := row.state ∈ ["attested", "issued"]

omit [Sha256] in
theorem spendable_of_attested {row : DepositRow} (h : row.state = "attested") :
    Spendable row := by
  rw [Spendable, h]
  decide

/-- A row that is past `screened` stays where it is, but for its state. -/
theorem Change.spendable (hc : Change rows rows') (hrows : Filed rows) {row : DepositRow}
    (hrow : row ∈ rows) (hs : Spendable row) :
    ∃ row' ∈ rows', row'.bankRefHash = row.bankRefHash ∧ row'.amountMinor = row.amountMinor ∧
      row'.beneficiaryWallet = row.beneficiaryWallet ∧ Spendable row' := by
  cases hc with
  | none => exact ⟨row, hrow, rfl, rfl, rfl, hs⟩
  | filed hlt hd hfree => exact ⟨row, List.mem_append_left _ hrow, rfl, rfl, rfl, hs⟩
  | @moved d s hlt hcopy hadv =>
      refine ⟨_, List.mem_map_of_mem hrow, ?_⟩
      by_cases hkey : row.bankRefHash = d.nullifier.toHex
      · obtain ⟨row', hrow', hread⟩ := hcopy
        obtain rfl := hrows.unique hrow hrow' (hkey.trans (hrows.key hrow' hread).symm)
        obtain ⟨-, hamount, -, -, hstate, -⟩ := PgDepositRepository.rowToDeposit_ok.mp hread
        have htouched : Intake.touched { d with state := s } row =
            { row with amountMinor := d.amount.minor.toInt64, state := s.asStr } :=
          if_pos hkey
        rw [htouched]
        refine ⟨rfl, (fromI64_eq_ok hamount).1.symm, rfl, ?_⟩
        show s.asStr ∈ ["attested", "issued"]
        rw [Spendable, hstate] at hs
        cases hadv' : d.state with
        | attested =>
            rw [hadv'] at hadv
            cases hadv
            decide
        | issued => rw [hadv'] at hadv; cases hadv
        | observed => rw [hadv'] at hs; exact absurd hs (by decide)
        | screened => rw [hadv'] at hs; exact absurd hs (by decide)
        | encumbered => rw [hadv'] at hs; exact absurd hs (by decide)
        | disputed => rw [hadv'] at hs; exact absurd hs (by decide)
      · have htouched : Intake.touched { d with state := s } row = row := if_neg hkey
        rw [htouched]
        exact ⟨rfl, rfl, rfl, hs⟩

/-! ## A call in the middle of a deposit -/

/-- What a call knows of the row it works on. -/
def Copied (rows : List DepositRow) : OnRamp.Phase → Prop
  | .idle => True
  | .fresh d _ => d.state = .observed ∧ Holds rows d
  | .passed d gate => Holds rows { d with state := gate.persisted }

omit [Sha256] in
theorem Holds.amount_lt (h : Holds rows d) : d.amount.toNat < 2 ^ 63 := by
  obtain ⟨row, -, hread⟩ := h
  exact (fromI64_eq_ok (PgDepositRepository.rowToDeposit_ok.mp hread).2.1).2

/-- What the row of a copy says. -/
theorem Filed.row_of_copy (h : Filed rows) {s : DepositState}
    (hcopy : Holds rows { d with state := s }) :
    ∃ row ∈ rows, row.bankRefHash = d.nullifier.toHex ∧
      row.beneficiaryWallet = d.beneficiaryWallet ∧
      row.amountMinor = d.amount.minor.toInt64 ∧ row.state = s.asStr := by
  obtain ⟨row, hrow, hread⟩ := hcopy
  have hkey : row.bankRefHash = d.nullifier.toHex :=
    h.key (d := { d with state := s }) hrow hread
  obtain ⟨-, hamount, -, hwallet, hstate, -⟩ := PgDepositRepository.rowToDeposit_ok.mp hread
  exact ⟨row, hrow, hkey, hwallet, (fromI64_eq_ok hamount).1, hstate⟩

/-- A row that has been moved reads as it was moved. -/
theorem Filed.holds_moved (h : Filed rows) {s : DepositState} (hrow : Holds rows d) :
    Holds (rows.map (Intake.touched { d with state := s })) { d with state := s } := by
  have hlt := hrow.amount_lt
  obtain ⟨row, hmem, hread⟩ := hrow
  have htouched : Intake.touched { d with state := s } row =
      { row with amountMinor := d.amount.minor.toInt64, state := s.asStr } :=
    if_pos (h.key hmem hread)
  refine ⟨_, List.mem_map_of_mem hmem, ?_⟩
  rw [htouched]
  obtain ⟨href, -, hben, hwallet, -, hobs⟩ := PgDepositRepository.rowToDeposit_ok.mp hread
  exact PgDepositRepository.rowToDeposit_ok.mpr
    ⟨href, fromI64_toInt64 hlt, hben, hwallet, rfl, hobs⟩

theorem replies_read {m : DepositRepository}
    (hm : ∀ tie, (PgDepositRepository.call rows tie m).2 = rows) {r : PortResult m.Answer}
    (h : Intake.Replies m rows r rows') : rows' = rows := by
  obtain ⟨tie, h | ⟨e, -, h | h⟩⟩ := h
  · rw [← hm tie, h]
  · exact h
  · exact h.trans (hm tie)

/-- An `update` that is answered `Ok` has been carried out. -/
theorem replies_written {r : PortResult Unit} (h : Intake.Replies (.update d) rows r rows') :
    (rows' = rows ∧ r ≠ .ok ()) ∨
      d.amount.toNat < 2 ^ 63 ∧ rows' = rows.map (Intake.touched d) := by
  have hcall : ∀ {r rows'}, PgDepositRepository.update rows d = (r, rows') →
      (rows' = rows ∧ r ≠ .ok ()) ∨
        d.amount.toNat < 2 ^ 63 ∧ rows' = rows.map (Intake.touched d) := by
    intro r rows' h
    exact (PgDepositRepository.update_cases h).imp_right fun h => ⟨h.1, h.2.1⟩
  obtain ⟨tie, h | ⟨e, rfl, rfl | rfl⟩⟩ := h
  · exact hcall h
  · exact .inl ⟨rfl, fun he => by cases he⟩
  · exact (hcall (Prod.mk.eta).symm).imp (fun h => ⟨h.1, fun he => by cases he⟩) id

/-- The row of a copy, and the next state it is written in. -/
theorem moved_cases (hrows : Filed rows) {s : DepositState} (hrow : Holds rows d)
    (hs : Advances d.state s) {r : PortResult Unit}
    (h : Intake.Replies (.update { d with state := s }) rows r rows') :
    Change rows rows' ∧ (r = .ok () → Holds rows' { d with state := s }) := by
  obtain ⟨rfl, hr⟩ | ⟨hlt, rfl⟩ := replies_written h
  · exact ⟨.none, fun hok => absurd hok hr⟩
  · exact ⟨.moved hlt hrow hs, fun _ => hrows.holds_moved hrow⟩

theorem idle_step {call : Call} {w : Tables} {s : Port} (c : Conditions)
    (hasks : OnRamp.opens call s) :
    Change w.deposits (exec c s w).2.deposits ∧
      Copied (exec c s w).2.deposits
        ((OnRamp.grammar call).advance .idle ⟨s, (exec c s w).1⟩) := by
  cases s with
  | deposits m =>
      obtain ⟨r, rows', hx, hr⟩ := exec_deposits c m w
      rw [hx]
      cases m with
      | insert d =>
          obtain ⟨rfl, hne⟩ | ⟨hlt, hfree, rfl⟩ := Intake.replies_insert hr
          · cases r with
            | ok u => exact absurd rfl hne
            | error e => exact ⟨.none, trivial⟩
          · refine ⟨.filed hlt hasks.1 hfree, ?_⟩
            cases r with
            | error e => trivial
            | ok u =>
                exact ⟨hasks.1, _, List.mem_append_right _ List.mem_cons_self,
                  rowToDeposit_of hlt⟩
      | find n =>
          obtain ⟨rfl, hfound⟩ := Intake.replies_find hr
          refine ⟨.none, ?_⟩
          rcases r with e | found
          · trivial
          · cases found with
            | none => trivial
            | some d =>
                show Copied w.deposits
                  (if OnRamp.retries call ∧ d.state = .screened then .passed d .found else .idle)
                obtain ⟨row, hrow, -, hread⟩ := hfound d rfl
                split
                · next hgo =>
                    have hself : { d with state := DepositState.screened } = d := by
                      rw [← hgo.2]
                    refine ⟨row, hrow, ?_⟩
                    show PgDepositRepository.rowToDeposit row =
                      .ok { d with state := .screened }
                    rw [hself]
                    exact hread
                · trivial
      | update d => exact hasks.elim
      | totalEncumbered =>
          obtain rfl := replies_read (fun _ => rfl) hr
          exact ⟨.none, trivial⟩
      | held =>
          obtain rfl := replies_read (fun _ => rfl) hr
          exact ⟨.none, trivial⟩
      | totalIssued =>
          obtain rfl := replies_read (fun _ => rfl) hr
          exact ⟨.none, trivial⟩
  | ledger m => cases m <;> first | exact hasks.elim | exact ⟨.none, trivial⟩
  | compliance m => exact hasks.elim
  | _ => exact ⟨.none, trivial⟩

theorem fresh_step {call : Call} {verdict : Option ScreenOutcome} {w : Tables} {s : Port}
    (c : Conditions) (hrows : Filed w.deposits) (hq : Copied w.deposits (.fresh d verdict))
    (hasks : (OnRamp.grammar call).asks (.fresh d verdict) s) :
    Change w.deposits (exec c s w).2.deposits ∧
      Copied (exec c s w).2.deposits
        ((OnRamp.grammar call).advance (.fresh d verdict) ⟨s, (exec c s w).1⟩) := by
  obtain ⟨hd, hrow⟩ := hq
  cases verdict with
  | none =>
      obtain rfl : s = _ := hasks
      refine ⟨.none, ?_⟩
      show Copied w.deposits ((OnRamp.grammar call).advance _ ⟨_, c.answer _⟩)
      rcases c.answer (.compliance (.screen d.beneficiary d.amount)) with e | o
      · trivial
      · exact ⟨hd, hrow⟩
  | some o =>
      obtain rfl : s = _ := hasks
      obtain ⟨r, rows', hx, hr⟩ := exec_deposits c
        (.update { d with state := Deposit.screenTarget o }) w
      rw [hx]
      have hs : Advances d.state (Deposit.screenTarget o) := by
        rw [hd]
        cases o with
        | pass => exact .screened
        | fail => exact .encumbered
      obtain ⟨hchange, hok⟩ := moved_cases hrows hrow hs hr
      refine ⟨hchange, ?_⟩
      cases o with
      | fail => trivial
      | pass =>
          rcases r with e | u
          · trivial
          · exact hok rfl

theorem passed_step {call : Call} {gate : OnRamp.Gate} {w : Tables} {s : Port}
    (c : Conditions) (hrows : Filed w.deposits) (hq : Copied w.deposits (.passed d gate))
    (hasks : (OnRamp.grammar call).asks (.passed d gate) s) :
    Change w.deposits (exec c s w).2.deposits ∧
      Copied (exec c s w).2.deposits
        ((OnRamp.grammar call).advance (.passed d gate) ⟨s, (exec c s w).1⟩) := by
  cases gate with
  | found =>
      obtain rfl : s = _ := hasks
      exact ⟨.none, hq⟩
  | timed now =>
      obtain rfl : s = _ := hasks
      refine ⟨.none, ?_⟩
      show Copied w.deposits ((OnRamp.grammar call).advance _ ⟨_, c.answer _⟩)
      rcases c.answer (.ledger .snapshot) with e | o
      · trivial
      · exact hq
  | sighted now snapshot =>
      obtain rfl : s = _ := hasks
      obtain ⟨r, rows', hx, hr⟩ := exec_deposits c .totalEncumbered w
      obtain rfl := replies_read (fun _ => rfl) hr
      rw [hx]
      refine ⟨.none, ?_⟩
      rcases r with e | t
      · trivial
      · show Copied w.deposits (if OnRamp.admits d now snapshot t then .passed d .cleared else .idle)
        split
        · exact hq
        · trivial
  | cleared =>
      obtain rfl : s = _ := hasks
      obtain ⟨r, rows', hx, hr⟩ := exec_deposits c (.update { d with state := .attested }) w
      rw [hx]
      obtain ⟨hchange, hok⟩ := moved_cases (d := { d with state := .screened })
        hrows hq .attested hr
      refine ⟨hchange, ?_⟩
      rcases r with e | u
      · trivial
      · exact hok rfl
  | attested =>
      obtain rfl : s = _ := hasks
      refine ⟨.none, ?_⟩
      show Copied w.deposits ((OnRamp.grammar call).advance _ ⟨_, c.answer _⟩)
      rcases c.answer (.ledger (.issue d.beneficiaryWallet d.amount d.nullifier)) with e | o
      · trivial
      · cases o with
        | confirmed => exact hq
        | submitted => trivial
        | failed => trivial
  | minted =>
      obtain rfl : s = _ := hasks
      obtain ⟨r, rows', hx, hr⟩ := exec_deposits c (.update { d with state := .issued }) w
      rw [hx]
      exact ⟨(moved_cases (d := { d with state := .attested }) hrows hq .issued hr).1, trivial⟩

/-- One port call of a call that nothing overlaps. -/
theorem deposits_step {call : Call} {q : OnRamp.Phase} {w : Tables} {s : Port}
    (c : Conditions) (hrows : Filed w.deposits) (hq : Copied w.deposits q)
    (hasks : (OnRamp.grammar call).asks q s) :
    Change w.deposits (exec c s w).2.deposits ∧
      Copied (exec c s w).2.deposits
        ((OnRamp.grammar call).advance q ⟨s, (exec c s w).1⟩) := by
  cases q with
  | idle => exact idle_step c hasks
  | fresh d verdict => exact fresh_step c hrows hq hasks
  | passed d gate => exact passed_step c hrows hq hasks

/-! ## The mints asked for -/

/-- A call of `issue` under `n`. -/
def asksMint (n : BankRefHash) : Act Port Port.Reply → Bool
  | ⟨.ledger (.issue _ _ n'), _⟩ => n' = n
  | _ => false

/-- No mint will be asked for under `n` any more. -/
def Spent (n : BankRefHash) (q : OnRamp.Phase) (rows : List DepositRow) : Prop :=
  (∃ row ∈ rows, row.bankRefHash = n.toHex ∧ Spendable row) ∧
    ∀ d, q = .passed d .attested → d.nullifier ≠ n

/-- What is asked for is what the row says. -/
def Recorded (rows : List DepositRow) (log : History Port Port.Reply) : Prop :=
  ∀ wallet amount n r, ⟨.ledger (.issue wallet amount n), r⟩ ∈ log →
    ∃ row ∈ rows, row.bankRefHash = n.toHex ∧ row.beneficiaryWallet = wallet ∧
      row.amountMinor = amount.minor.toInt64 ∧ Spendable row

/-- What holds at every port call of a call that nothing overlaps. -/
structure Minting (n : BankRefHash) (q : OnRamp.Phase) (w : State) : Prop where
  filed : Filed w.1.deposits
  copied : Copied w.1.deposits q
  recorded : Recorded w.1.deposits w.2
  once : Once (asksMint n) (Spent n q w.1.deposits) w.2

/-- The call that asks for a mint has just persisted its copy. -/
theorem issue_asked {call : Call} {q : OnRamp.Phase} {wallet : String} {amount : Thb}
    {n : BankRefHash} (h : (OnRamp.grammar call).asks q (.ledger (.issue wallet amount n))) :
    ∃ d : Deposit, q = .passed d .attested ∧ d.beneficiaryWallet = wallet ∧
      d.amount = amount ∧ d.nullifier = n := by
  cases q with
  | idle => exact h.elim
  | fresh d verdict => cases verdict <;> cases h
  | passed d gate =>
      cases gate with
      | attested =>
          obtain rfl | h : _ = _ := h
          exact ⟨d, rfl, rfl, rfl, rfl⟩
      | _ => cases h

theorem cleared_of_attested {call : Call} {q : OnRamp.Phase} {a : Act Port Port.Reply}
    (h : (OnRamp.grammar call).advance q a = .passed d .attested) :
    q = .passed d .cleared := by
  unfold OnRamp.grammar OnRamp.Phase.advance at h
  dsimp only at h
  split at h
  all_goals first
    | cases h
    | (split at h <;> cases h)
  rfl

theorem Spent.step {call : Call} {n : BankRefHash} {q : OnRamp.Phase}
    {a : Act Port Port.Reply} (h : Spent n q rows) (hrows : Filed rows)
    (hq : Copied rows q) (hc : Change rows rows') :
    Spent n ((OnRamp.grammar call).advance q a) rows' := by
  obtain ⟨⟨row, hrow, hkey, hs⟩, -⟩ := h
  refine ⟨?_, fun d hnext hn => ?_⟩
  · obtain ⟨row', hrow', hkey', -, -, hs'⟩ := hc.spendable hrows hrow hs
    exact ⟨row', hrow', hkey'.trans hkey, hs'⟩
  · -- The copy says that the row is still `screened`.
    obtain rfl := cleared_of_attested hnext
    obtain ⟨row', hrow', hkey', -, -, hstate⟩ := hrows.row_of_copy hq
    obtain rfl := hrows.unique hrow hrow' (hkey.trans (hn ▸ hkey'.symm))
    rw [Spendable, hstate] at hs
    exact absurd hs (by decide)

theorem Minting.step {call : Call} {n : BankRefHash} {q : OnRamp.Phase} {w : State}
    {s : Port} (h : Minting n q w) (c : Conditions) (hasks : (OnRamp.grammar call).asks q s) :
    Minting n ((OnRamp.grammar call).advance q ⟨s, (exec.logged c s w).1⟩)
      (exec.logged c s w).2 := by
  obtain ⟨w, log⟩ := w
  obtain ⟨hfiled, hcopied, hrecorded, honce⟩ := h
  obtain ⟨hchange, hcopied'⟩ := deposits_step c hfiled hcopied hasks
  have hkept : Recorded (exec c s w).2.deposits log := by
    intro wallet amount m r hmem
    obtain ⟨row, hrow, hkey, hwallet, hamount, hs⟩ := hrecorded wallet amount m r hmem
    obtain ⟨row', hrow', hkey', hamount', hwallet', hs'⟩ := hchange.spendable hfiled hrow hs
    exact ⟨row', hrow', hkey'.trans hkey, hwallet'.trans hwallet, hamount'.trans hamount, hs'⟩
  refine ⟨hfiled.change hchange, hcopied', ?_, ?_⟩
  · intro wallet amount m r hmem
    obtain heq | hmem := List.mem_cons.mp hmem
    · obtain rfl : Port.ledger (.issue wallet amount m) = s := congrArg Sigma.fst heq
      obtain ⟨d, rfl, rfl, rfl, rfl⟩ := issue_asked hasks
      obtain ⟨row, hrow, hkey, hwallet, hamount, hstate⟩ := hfiled.row_of_copy hcopied
      exact ⟨row, hrow, hkey, hwallet, hamount, spendable_of_attested hstate⟩
    · exact hkept wallet amount m r hmem
  · refine honce.cons (fun hs => hs.step hfiled hcopied hchange) fun hfires => ?_
    obtain ⟨wallet, amount, rfl⟩ : ∃ wallet amount, s = .ledger (.issue wallet amount n) := by
      unfold asksMint at hfires
      split at hfires
      · next heq =>
          obtain rfl := of_decide_eq_true hfires
          exact ⟨_, _, congrArg Sigma.fst heq⟩
      · cases hfires
    obtain ⟨d, rfl, rfl, rfl, rfl⟩ := issue_asked hasks
    refine ⟨fun hs => hs.2 d rfl rfl, ?_, fun d' hnext => ?_⟩
    · obtain ⟨row, hrow, hkey, -, -, hstate⟩ := hfiled.row_of_copy hcopied
      exact ⟨row, hrow, hkey, spendable_of_attested hstate⟩
    · cases cleared_of_attested hnext

/-- The reply of `find` is about the row that was asked for. -/
theorem hears_deposits {call : Call} {w : State} (hfiled : Filed w.1.deposits)
    (c : Conditions) (s : Port) : (OnRamp.grammar call).hears s (exec.logged c s w).1 := by
  cases s with
  | deposits m =>
      cases m with
      | find n =>
          intro d hd
          obtain ⟨r, rows', hx, hr⟩ := exec_deposits c (.find n) w.1
          have hreply : (exec.logged c (.deposits (.find n)) w).1 = r := congrArg Prod.fst hx
          obtain ⟨row, hrow, hkey, hread⟩ :=
            (Intake.replies_find hr).2 d (hreply.symm.trans hd)
          exact BankRefHash.toHex_inj ((hfiled.key hrow hread).symm.trans hkey)
      | _ => trivial
  | _ => trivial

theorem Minting.drop {n : BankRefHash} {q : OnRamp.Phase} {w : State} (h : Minting n q w) :
    Minting n .idle w :=
  ⟨h.filed, trivial, h.recorded, h.once.mono fun hs => ⟨hs.1, fun d hd => by cases hd⟩⟩

/-- Whatever the other ports answer, whatever the database fails at and wherever the
calls are stopped, `issue` is called at most once under each reference, with the
amount and the wallet of a row that is then past `screened`. -/
theorem mint_at_most_once {deltaSecs : Int64} {w : Tables} (hrows : Filed w.deposits)
    (calls : List (Call × ℕ × (ℕ → Conditions))) (n : BankRefHash) :
    (runCalls deltaSecs (w, []) calls).2.countP (asksMint n) ≤ 1 ∧
      Recorded (runCalls deltaSecs (w, []) calls).1.deposits
        (runCalls deltaSecs (w, []) calls).2 := by
  have h := interrupted_induct (J := Minting n) (G := OnRamp.grammar)
    (fun call => OnRamp.call_obeys deltaSecs call)
    (fun call q w s c h => hears_deposits h.filed c s)
    (fun call q w s c h hasks => h.step c hasks) (fun q w h => h.drop) calls
    (w := (w, []))
    ⟨hrows, trivial, fun _ _ _ _ hmem => absurd hmem List.not_mem_nil,
      ⟨fun _ => rfl, Nat.zero_le _⟩⟩
  exact ⟨h.once.once, h.recorded⟩

end Deposits

open Sample

/-- A deposit that waits for a reserve. -/
def waiting : Tables :=
  ⟨[⟨scb1.hash.toHex, "SCB-1", 100, "alice", "alice", "screened", 0⟩], [], []⟩

theorem filed_waiting : Filed waiting.deposits where
  nodup := List.nodup_singleton _
  own := by
    refine List.forall_mem_singleton.mpr fun b hb => ?_
    have hnew : BankRef.new scb1.text = .ok b := hb
    rw [BankRef.new_text] at hnew
    rw [← Except.ok.inj hnew]

/-- A retry that stops on the way from the ledger, and another one. -/
theorem mint_at_most_once_waiting :
    (runCalls 86400 (waiting, [])
      [(.retryHeld scb1, 6, fun _ => ample), (.retryHeld scb1, 9, fun _ => ample)]).2.countP
        (asksMint scb1.hash) ≤ 1 :=
  (mint_at_most_once filed_waiting _ _).1

example : (runCalls 86400 (waiting, [])
    [(.retryHeld scb1, 6, fun _ => ample), (.retryHeld scb1, 9, fun _ => ample)]).2.countP
      (asksMint scb1.hash) = 1 := by
  decide

end Thbc.Durable
