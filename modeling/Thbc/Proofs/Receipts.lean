import Thbc.Lib.Split
import Thbc.Proofs.Backed
import Thbc.System.Relayed

/-!
# What the bridge is told, and what it has confirmed

Two calls that overlap may both ask for the mint of one deposit, so that the broker is
told twice. It goes by the idempotency key, and that is enough: whatever was published
under one key asks for the same thing (`key_says_all`). For a mint this is because the
wallet and the amount are those of the one row of that reference; for a burn the key
itself has the holder and the number.

A row says `issued`, and a redemption `confirmed`, on the word of the bridge only
(`settled_receipted`).
-/

namespace Thbc.Relayed

open Thbc.Lib Thbc.ChainBridge Thbc.Durable

/-! ## Keys -/

section Keys

theorem toString_inj {a b : UInt64} (h : toString a = toString b) : a = b := by
  have hrepr : Nat.repr a.toNat = Nat.repr b.toNat := h
  have hdigits : Nat.toDigits 10 a.toNat = Nat.toDigits 10 b.toNat :=
    String.ofList_injective hrepr
  have hofDigits := congrArg (Nat.ofDigitChars 10 · 0) hdigits
  rw [Nat.ofDigitChars_toDigits (by decide) (by decide),
    Nat.ofDigitChars_toDigits (by decide) (by decide)] at hofDigits
  exact UInt64.toNat_inj.mp hofDigits

theorem colon_not_mem_toString (n : UInt64) : ':' ∉ (toString n).toList := by
  intro h
  have hlist : (toString n).toList = Nat.toDigits 10 n.toNat := String.toList_ofList
  rw [hlist] at h
  have := Nat.isDigit_of_mem_toDigits (by decide) (by decide) h
  exact absurd this (by decide)

theorem issueKey_inj {n n' : BankRefHash}
    (h : ChainBridgeLedger.issueKey n = ChainBridgeLedger.issueKey n') : n = n' :=
  BankRefHash.toHex_inj ((String.append_right_inj _).mp h)

/-- The number has no colon, so it is what comes after the last one. -/
theorem confirmKey_inj {user user' : String} {seq seq' : UInt64}
    (h : ChainBridgeLedger.confirmKey user seq = ChainBridgeLedger.confirmKey user' seq') :
    user = user' ∧ seq = seq' := by
  have hhead : ∀ user seq,
      (rsplit (ChainBridgeLedger.confirmKey user seq) ':').head? = some (toString seq) :=
    fun user seq => rsplit_head_append (colon_not_mem_toString seq)
  have hlast : some (toString seq) = some (toString seq') := by
    rw [← hhead user seq, ← hhead user' seq', h]
  obtain rfl := toString_inj (Option.some.inj hlast)
  unfold ChainBridgeLedger.confirmKey at h
  rw [String.append_left_inj, String.append_left_inj, String.append_right_inj] at h
  exact ⟨h, rfl⟩

theorem issueKey_ne_confirmKey (n : BankRefHash) (user : String) (seq : UInt64) :
    ChainBridgeLedger.issueKey n ≠ ChainBridgeLedger.confirmKey user seq := by
  intro h
  have hlist := congrArg String.toList h
  simp [ChainBridgeLedger.issueKey, ChainBridgeLedger.confirmKey] at hlist

/-- Two writes under one key: two mints of one reference, or one burn. -/
theorem keyOf_eq {x y : LedgerPort} (h : keyOf x = keyOf y) (hne : keyOf x ≠ "") :
    (∃ wallet amount wallet' amount' n, x = .issue wallet amount n ∧
      y = .issue wallet' amount' n) ∨
    ∃ user seq, x = .confirmRedemption user seq ∧ y = .confirmRedemption user seq := by
  have hne' : keyOf y ≠ "" := h ▸ hne
  cases x with
  | issue wallet amount n =>
      cases y with
      | issue wallet' amount' n' =>
          obtain rfl := issueKey_inj h
          exact .inl ⟨wallet, amount, wallet', amount', n, rfl, rfl⟩
      | confirmRedemption user seq => exact absurd h (issueKey_ne_confirmKey n user seq)
      | _ => exact absurd rfl hne'
  | confirmRedemption user seq =>
      cases y with
      | issue wallet amount n => exact absurd h.symm (issueKey_ne_confirmKey n user seq)
      | confirmRedemption user' seq' =>
          obtain ⟨rfl, rfl⟩ := confirmKey_inj h
          exact .inr ⟨user, seq, rfl, rfl⟩
      | _ => exact absurd rfl hne'
  | _ => exact absurd rfl hne

end Keys

section Runs

variable [Sha256]

/-! ## What the tables have behind them

Rows that are there from the beginning were written on the word of somebody, too. -/

/-- A history that a deposit in this state can have. -/
def pastOf (d : Deposit) : History Port Port.Reply :=
  [⟨.compliance (.screen d.beneficiary d.amount), .ok .pass⟩,
    ⟨.compliance (.screen d.beneficiary d.amount), .ok .fail⟩] ++
  if d.state = .issued then
    [⟨.ledger (.issue d.beneficiaryWallet d.amount d.nullifier), .ok .confirmed⟩]
  else []

/-- The deposits of rows that can be read. -/
def readings (rows : List DepositRow) : List Deposit :=
  rows.filterMap fun row => (PgDepositRepository.rowToDeposit row).toOption

/-- Every row can be read. -/
def Legible (rows : List DepositRow) : Prop :=
  ∀ row ∈ rows, ∃ d, PgDepositRepository.rowToDeposit row = .ok d

def past (rows : List DepositRow) : History Port Port.Reply := (readings rows).flatMap pastOf

variable {rows : List DepositRow} {d : Deposit}

omit [Sha256] in
theorem mem_readings : d ∈ readings rows ↔
    ∃ row ∈ rows, PgDepositRepository.rowToDeposit row = .ok d := by
  rw [readings, List.mem_filterMap]
  refine exists_congr fun row => and_congr_right fun _ => ?_
  cases PgDepositRepository.rowToDeposit row with
  | ok d' =>
      refine ⟨fun h => ?_, fun h => ?_⟩
      · rw [Option.some.inj h]
      · rw [Except.ok.inj h]
        rfl
  | error e => exact iff_of_false (fun h => by cases h) fun h => by cases h

theorem claims_pastOf (d : Deposit) : Claims (pastOf d) d where
  screened _ := List.mem_append_left _ List.mem_cons_self
  encumbered _ := List.mem_append_left _ (List.mem_cons_of_mem _ List.mem_cons_self)
  issued hs := by
    refine List.mem_append_right _ ?_
    rw [if_pos hs]
    exact List.mem_cons_self

theorem backed_past (h : Legible rows) : ∀ row ∈ rows, Backed (past rows) row := by
  intro row hrow
  obtain ⟨d, hread⟩ := h row hrow
  refine ⟨d, hread, (claims_pastOf d).mono ?_⟩
  exact fun a ha => List.mem_flatMap_of_mem (mem_readings.mpr ⟨row, hrow, hread⟩) ha

/-- A mint in the past is that of a row that says so. -/
theorem issued_of_past {wallet : String} {amount : Thb} {n : BankRefHash}
    {b : PortResult ConfirmOutcome}
    (h : (⟨.ledger (.issue wallet amount n), b⟩ : Act Port Port.Reply) ∈ past rows) :
    ∃ row ∈ rows, ∃ d, PgDepositRepository.rowToDeposit row = .ok d ∧ d.state = .issued ∧
      d.nullifier = n := by
  obtain ⟨d, hd, hmem⟩ := List.mem_flatMap.mp h
  obtain ⟨row, hrow, hread⟩ := mem_readings.mp hd
  obtain hmem | hmem := List.mem_append.mp hmem
  · simp at hmem
  · split at hmem
    · next hs =>
        have hport := congrArg Sigma.fst (List.mem_singleton.mp hmem)
        cases hport
        exact ⟨row, hrow, d, hread, hs, rfl⟩
    · exact absurd hmem List.not_mem_nil

/-! ## The tables and the log of port calls -/

/-- There is a row for this mint. -/
def Mintable (rows : List DepositRow) (wallet : String) (amount : Thb) (n : BankRefHash) :
    Prop :=
  ∃ d, Origin rows d ∧ d.nullifier = n ∧ d.beneficiaryWallet = wallet ∧ d.amount = amount

/-- Every mint that was asked for has its row. -/
def Asked (w : State) : Prop :=
  ∀ wallet amount n b, ⟨.ledger (.issue wallet amount n), b⟩ ∈ w.2 →
    Mintable w.1.deposits wallet amount n

theorem mintable_of_asks {call : Call} {q : OnRamp.Phase} {w : State} (h : Knows w q)
    {wallet : String} {amount : Thb} {n : BankRefHash}
    (hasks : (OnRamp.grammar call).asks q (.ledger (.issue wallet amount n))) :
    Mintable w.1.deposits wallet amount n := by
  obtain ⟨d, rfl, rfl, rfl, rfl⟩ := issue_asked hasks
  exact ⟨d, h.passed.1, rfl, rfl, rfl⟩

/-- The row of a reference is one, and so is its mint. -/
theorem Mintable.unique {wallet wallet' : String} {amount amount' : Thb} {n : BankRefHash}
    (h : Mintable rows wallet amount n) (h' : Mintable rows wallet' amount' n)
    (hrows : Filed rows) : wallet = wallet' ∧ amount = amount' := by
  obtain ⟨d, ⟨row, hrow, s, hread⟩, hn, rfl, rfl⟩ := h
  obtain ⟨d', ⟨row', hrow', s', hread'⟩, hn', rfl, rfl⟩ := h'
  have hkey : row.bankRefHash = n.toHex :=
    (hrows.key (d := { d with state := s }) hrow hread).trans (congrArg _ hn)
  have hkey' : row'.bankRefHash = n.toHex :=
    (hrows.key (d := { d' with state := s' }) hrow' hread').trans (congrArg _ hn')
  obtain rfl := hrows.unique hrow hrow' (hkey.trans hkey'.symm)
  have heq := Except.ok.inj (hread.symm.trans hread')
  exact ⟨(Deposit.mk.inj heq).2.2.2.1, (Deposit.mk.inj heq).2.1⟩

/-- `relies_deposits`, with the past of the rows that were there, and with `Asked`. -/
theorem relies_asked (calls : List Call) (past : History Port Port.Reply) :
    Relies Durable.exec (fun i => OnRamp.grammar (callAt calls i))
      (fun w => (Filed w.1.deposits ∧ ∀ row ∈ w.1.deposits, Backed (w.2 ++ past) row) ∧
        Asked w)
      (fun q w => Knows (w.1, w.2 ++ past) q)
      (fun w w' => Keeps (w.1, w.2 ++ past) (w'.1, w'.2 ++ past)) := by
  refine ((relies_deposits calls).since past).also fun i q s e w hI hK hasks hJ => ?_
  intro wallet amount n b hmem
  have horigin : ∀ d, Origin w.1.deposits d → Origin (Durable.exec e s w.1).2.deposits d :=
    fun d hd => (write_of_asks e hK hasks).origin hI.1 hd
  have hmintable : Mintable w.1.deposits wallet amount n := by
    obtain heq | hmem := List.mem_cons.mp hmem
    · obtain rfl : Port.ledger (.issue wallet amount n) = s := congrArg Sigma.fst heq
      exact mintable_of_asks hK hasks
    · exact hJ wallet amount n b hmem
  obtain ⟨d, hd, hrest⟩ := hmintable
  exact ⟨d, horigin d hd, hrest⟩

/-! ### Redemptions -/

namespace Payouts

/-- A history that a redemption in this state can have. -/
def pastOf (r : Redemption) : History Port Port.Reply :=
  [⟨.ledger (.escrowRedemption { r with state := .requested }), .ok .confirmed⟩,
    ⟨.ledger (.escrowRedemption { r with state := .requested }), .ok .failed⟩,
    ⟨.ledger (.reclaimRedemption r.user r.seq), .ok .confirmed⟩] ++
  if r.state = .confirmed then
    [⟨.ledger (.confirmRedemption r.user r.seq), .ok .confirmed⟩]
  else []

/-- The redemptions of rows that can be read. -/
def readings (rows : List RedemptionRow) : List Redemption :=
  rows.filterMap fun row => (PgRedemptionRepository.rowToRedemption row).toOption

/-- Every row can be read. -/
def Legible (rows : List RedemptionRow) : Prop :=
  ∀ row ∈ rows, ∃ r, PgRedemptionRepository.rowToRedemption row = .ok r

def past (rows : List RedemptionRow) : History Port Port.Reply := (readings rows).flatMap pastOf

variable {rows : List RedemptionRow} {r : Redemption}

omit [Sha256] in
theorem mem_readings : r ∈ readings rows ↔
    ∃ row ∈ rows, PgRedemptionRepository.rowToRedemption row = .ok r := by
  rw [readings, List.mem_filterMap]
  refine exists_congr fun row => and_congr_right fun _ => ?_
  cases PgRedemptionRepository.rowToRedemption row with
  | ok r' =>
      refine ⟨fun h => ?_, fun h => ?_⟩
      · rw [Option.some.inj h]
      · rw [Except.ok.inj h]
        rfl
  | error e => exact iff_of_false (fun h => by cases h) fun h => by cases h

omit [Sha256] in
theorem claims_pastOf (r : Redemption) : Durable.Payouts.Claims (pastOf r) r where
  escrowed _ := ⟨r.escrowedAt, List.mem_append_left _ List.mem_cons_self⟩
  failed _ := ⟨r.escrowedAt,
    List.mem_append_left _ (List.mem_cons_of_mem _ List.mem_cons_self)⟩
  confirmed hs := by
    refine List.mem_append_right _ ?_
    rw [if_pos hs]
    exact List.mem_cons_self
  reclaimed _ := List.mem_append_left _
    (List.mem_cons_of_mem _ (List.mem_cons_of_mem _ List.mem_cons_self))

omit [Sha256] in
theorem backed_past (h : Legible rows) :
    ∀ row ∈ rows, Durable.Payouts.Backed (past rows) row := by
  intro row hrow
  obtain ⟨r, hread⟩ := h row hrow
  refine ⟨r, hread, (claims_pastOf r).mono ?_⟩
  exact fun a ha => List.mem_flatMap_of_mem (mem_readings.mpr ⟨row, hrow, hread⟩) ha

omit [Sha256] in
/-- A burn in the past is that of a row that says so. -/
theorem confirmed_of_past {user : String} {seq : UInt64} {b : PortResult ConfirmOutcome}
    (h : (⟨.ledger (.confirmRedemption user seq), b⟩ : Act Port Port.Reply) ∈ past rows) :
    ∃ row ∈ rows, ∃ r, PgRedemptionRepository.rowToRedemption row = .ok r ∧
      r.state = .confirmed ∧ r.user = user ∧ r.seq = seq := by
  obtain ⟨r, hr, hmem⟩ := List.mem_flatMap.mp h
  obtain ⟨row, hrow, hread⟩ := mem_readings.mp hr
  obtain hmem | hmem := List.mem_append.mp hmem
  · simp at hmem
  · split at hmem
    · next hs =>
        have hport := congrArg Sigma.fst (List.mem_singleton.mp hmem)
        cases hport
        exact ⟨row, hrow, r, hread, hs, rfl, rfl⟩
    · exact absurd hmem List.not_mem_nil

omit [Sha256] in
/-- No payout is of the past. -/
theorem covered_past (rows : List RedemptionRow) : Durable.Payouts.Covered (past rows) := by
  intro user seq amount b h
  obtain ⟨r, -, hmem⟩ := List.mem_flatMap.mp h
  obtain hmem | hmem := List.mem_append.mp hmem
  · simp at hmem
  · split at hmem
    · simp at hmem
    · exact absurd hmem List.not_mem_nil

end Payouts

/-! ## The deployed calls -/

section Deployed

variable (ledger : ChainBridgeLedger Auth) (deltaSecs : Int64) (calls : List Call)

/-- A deployed run is a run over the ports. -/
theorem tracks_run (w : Tables) (ts' : List (ℕ × Moment Auth)) :
    ∃ ts, Pool.Tracks Durable.exec exec id (relay ledger)
      ((Calls.start (relay ledger) deltaSecs calls w).run exec ts')
      ((Durable.Calls.start deltaSecs calls w).run Durable.exec ts) :=
  (Pool.tracks_start (carries_relay ledger) _ w).run (carries_relay ledger) ts'

variable {w : Tables} (hrows : Filed w.deposits) (hlegible : Legible w.deposits)

include hrows hlegible in
theorem relying_deposits (ts : List (ℕ × Conditions)) :
    ((Durable.Calls.start deltaSecs calls w).run Durable.exec ts).Relying
      (fun i => OnRamp.grammar (callAt calls i))
      (fun v => (Filed v.1.deposits ∧
        ∀ row ∈ v.1.deposits, Backed (v.2 ++ past w.deposits) row) ∧ Asked v)
      (fun q v => Knows (v.1, v.2 ++ past w.deposits) q) :=
  Pool.rely (relies_asked calls (past w.deposits))
    ⟨Durable.Calls.obeys_start (OnRamp.call_obeys deltaSecs) _ _,
      ⟨⟨hrows, backed_past hlegible⟩, fun _ _ _ _ hmem => absurd hmem List.not_mem_nil⟩,
      fun _ => trivial⟩ ts

theorem relying_redemptions (hrows : Durable.Payouts.Filed w.redemptions)
    (hlegible : Payouts.Legible w.redemptions) (ts : List (ℕ × Conditions)) :
    ((Durable.Calls.start deltaSecs calls w).run Durable.exec ts).Relying
      (fun i => OffRamp.grammar (callAt calls i))
      (fun v => (Durable.Payouts.Filed v.1.redemptions ∧ ∀ row ∈ v.1.redemptions,
        Durable.Payouts.Backed (v.2 ++ Payouts.past w.redemptions) row) ∧
        Durable.Payouts.Covered (v.2 ++ Payouts.past w.redemptions))
      (fun q v => Durable.Payouts.Knows (v.1, v.2 ++ Payouts.past w.redemptions) q) :=
  Pool.rely ((Durable.Payouts.relies_redemptions calls).since (Payouts.past w.redemptions))
    ⟨Durable.Calls.obeys_start (OffRamp.call_obeys deltaSecs) _ _,
      ⟨⟨hrows, Payouts.backed_past hlegible⟩, Payouts.covered_past _⟩, fun _ => trivial⟩ ts

include hrows hlegible in
/-- What is published for a mint has its row. -/
theorem mintable_of_published {c' : Calls Auth} {ts : List (ℕ × Conditions)}
    (htracks : Pool.Tracks Durable.exec exec id (relay ledger) c'
      ((Durable.Calls.start deltaSecs calls w).run Durable.exec ts))
    {i : ℕ} {subject : String} {m : Message Auth} {r : Except String Unit}
    (hmem : (i, ⟨.broker (.publish subject m), r⟩) ∈ c'.log) {wallet : String} {amount : Thb}
    {n : BankRefHash} (hintent : intent m = .issue wallet amount n) :
    Mintable ((Durable.Calls.start deltaSecs calls w).run Durable.exec ts).world.deposits
      wallet amount n := by
  have hrely := relying_deposits deltaSecs calls hrows hlegible ts
  obtain ⟨s, hasked, hsays⟩ := htracks.asked i _ hmem
  obtain ⟨rfl, -, -⟩ := hsays _ (uses_messages ledger s)
  rw [hintent] at hasked
  obtain ⟨b, hb⟩ | hpending := hasked
  · exact hrely.inv.2 wallet amount n b (List.mem_map_of_mem hb)
  · exact mintable_of_asks (hrely.holds i) (hrely.obeys.asks hpending)

include hrows hlegible in
/-- Messages under one key ask for one thing, whoever published them, whatever has
become of them and whatever overlaps. -/
theorem key_says_all (ts : List (ℕ × Moment Auth)) :
    let log := ((Calls.start (relay ledger) deltaSecs calls w).run exec ts).log
    ∀ i j subject subject' m m' r r', (i, ⟨.broker (.publish subject m), r⟩) ∈ log →
      (j, ⟨.broker (.publish subject' m'), r'⟩) ∈ log →
      m.idempotencyKey = m'.idempotencyKey → m.idempotencyKey ≠ "" →
      subject = subject' ∧ intent m = intent m' := by
  intro log i j subject subject' m m' r r' hm hm' hkey hne
  obtain ⟨us, htracks⟩ := tracks_run ledger deltaSecs calls w ts
  obtain ⟨s, -, hsays⟩ := htracks.asked i _ hm
  obtain ⟨-, hm₁, hsubject⟩ := hsays _ (uses_messages ledger s)
  obtain ⟨s', -, hsays'⟩ := htracks.asked j _ hm'
  obtain ⟨-, hm₂, hsubject'⟩ := hsays' _ (uses_messages ledger s')
  suffices intent m = intent m' from ⟨by rw [hsubject, hsubject', this], this⟩
  rw [hm₁] at hne
  rw [hm₁, hm₂] at hkey
  obtain ⟨wallet, amount, wallet', amount', n, hi, hi'⟩ | ⟨user, seq, hi, hi'⟩ :=
    keyOf_eq hkey hne
  · have hmint := mintable_of_published ledger deltaSecs calls hrows hlegible htracks hm hi
    have hmint' := mintable_of_published ledger deltaSecs calls hrows hlegible htracks hm' hi'
    obtain ⟨rfl, rfl⟩ := hmint.unique hmint'
      (relying_deposits deltaSecs calls hrows hlegible us).inv.1.1
    exact hi.trans hi'.symm
  · exact hi.trans hi'.symm

include hrows hlegible in
/-- No deposit comes to say `issued`, and no redemption `confirmed`, but on the word of
the bridge. -/
theorem settled_receipted (hredemptions : Durable.Payouts.Filed w.redemptions)
    (hreadable : Payouts.Legible w.redemptions) (ts : List (ℕ × Moment Auth)) :
    let c := (Calls.start (relay ledger) deltaSecs calls w).run exec ts
    (∀ row ∈ c.world.deposits, ∀ d, PgDepositRepository.rowToDeposit row = .ok d →
      d.state = .issued →
      (∃ row₀ ∈ w.deposits, ∃ d₀, PgDepositRepository.rowToDeposit row₀ = .ok d₀ ∧
        d₀.state = .issued ∧ d₀.nullifier = d.nullifier) ∨
      Receipt ledger c.log (.issue d.beneficiaryWallet d.amount d.nullifier)) ∧
    ∀ row ∈ c.world.redemptions, ∀ r, PgRedemptionRepository.rowToRedemption row = .ok r →
      r.state = .confirmed →
      (∃ row₀ ∈ w.redemptions, ∃ r₀, PgRedemptionRepository.rowToRedemption row₀ = .ok r₀ ∧
        r₀.state = .confirmed ∧ r₀.user = r.user ∧ r₀.seq = r.seq) ∨
      Receipt ledger c.log (.confirmRedemption r.user r.seq) := by
  intro c
  obtain ⟨us, htracks⟩ := tracks_run ledger deltaSecs calls w ts
  have hworld : _ = c.world := htracks.world
  rw [← hworld]
  constructor
  · intro row hrow d hread hs
    obtain ⟨d', hread', hclaims⟩ :=
      (relying_deposits deltaSecs calls hrows hlegible us).inv.1.2 row hrow
    obtain rfl := Except.ok.inj (hread.symm.trans hread')
    obtain hmem | hmem := List.mem_append.mp (hclaims.issued hs)
    · obtain ⟨⟨i, a⟩, hlog, heq⟩ := List.mem_map.mp hmem
      obtain rfl : a = _ := heq
      obtain ⟨l, hl, hyields⟩ := htracks.answered i _ _ hlog
      exact .inr (issue_receipt hyields hl)
    · exact .inl (issued_of_past hmem)
  · intro row hrow r hread hs
    obtain ⟨r', hread', hclaims⟩ :=
      (relying_redemptions deltaSecs calls hredemptions hreadable us).inv.1.2 row hrow
    obtain rfl := Except.ok.inj (hread.symm.trans hread')
    obtain hmem | hmem := List.mem_append.mp (hclaims.confirmed hs)
    · obtain ⟨⟨i, a⟩, hlog, heq⟩ := List.mem_map.mp hmem
      obtain rfl : a = _ := heq
      obtain ⟨l, hl, hyields⟩ := htracks.answered i _ _ hlog
      exact .inr (confirm_receipt hyields hl)
    · exact .inl (Payouts.confirmed_of_past hmem)

end Deployed

end Runs

/-! ## A deposit and a redemption that wait -/

section Waiting

open Sample

/-- A ledger that does not sign. -/
def unsigned : ChainBridgeLedger Unit :=
  ⟨⟨none, none⟩, confirmTimeoutSecs, "spiffe://gridtokenx.th/prod/thbc-service",
    "chain.tx.issuethbc", "chain.tx.confirmredeem", "chain.tx.attest", none⟩

/-- A moment at which the tables do not fail and the bridge confirms. -/
def prompt : Moment Unit where
  rest := ample
  broker
    | .newV4 => "4f1c"
    | .nowMs => 0
    | .subscribe _ => .ok ()
    | .encode _ => .ok ()
    | .publish .. => .ok ()
    | .ack _ => .ok ()
    | .next .. => some (.ok ⟨.confirmed⟩)

theorem legible_waiting : Legible waiting.deposits := by
  refine List.forall_mem_singleton.mpr ⟨⟨scb1, ⟨100⟩, "alice", "alice", .screened, 0⟩, ?_⟩
  exact PgDepositRepository.rowToDeposit_ok.mpr
    ⟨by show BankRef.new scb1.text = _; rw [BankRef.new_text], rfl, rfl, rfl, rfl, rfl⟩

/-- Two retries of it, one request each in turn. -/
def retries : List (ℕ × Moment Unit) :=
  (List.range 13).flatMap fun _ => [(0, prompt), (1, prompt)]

abbrev retried : Calls Unit :=
  (Calls.start (relay unsigned) 86400 [.retryHeld scb1, .retryHeld scb1] waiting).run exec
    retries

/-- Whether a request is a publication. -/
def publishes : Wire Unit → Bool
  | .broker (.publish ..) => true
  | _ => false

/-- Both are published, and both ask for the same. -/
theorem key_says_all_waiting :
    retried.log.countP (fun e => publishes e.2.1) = 2 ∧
    ∀ i j subject subject' m m' r r',
      (i, ⟨.broker (.publish subject m), r⟩) ∈ retried.log →
        (j, ⟨.broker (.publish subject' m'), r'⟩) ∈ retried.log →
        m.idempotencyKey = m'.idempotencyKey → m.idempotencyKey ≠ "" →
        subject = subject' ∧ intent m = intent m' :=
  ⟨by decide +kernel, key_says_all unsigned 86400 _ filed_waiting legible_waiting retries⟩

/-- The same deposit, and a redemption that has been wired and is to be confirmed. -/
def owed : Tables :=
  ⟨waiting.deposits, [⟨"alice", 1, 100, "payout_queued", 0, some 0, 86400⟩], []⟩

theorem legible_owed : Payouts.Legible owed.redemptions :=
  List.forall_mem_singleton.mpr
    ⟨⟨"alice", 1, ⟨100⟩, .payoutQueued, 0, some 0, 86400⟩, by decide⟩

abbrev settled : Calls Unit :=
  (Calls.start (relay unsigned) 86400 [.retryHeld scb1, .confirm "alice" 1] owed).run exec
    retries

/-- Both are settled in the end, and for each of them the bridge has said so. -/
theorem settled_receipted_owed :
    settled.world.deposits.map DepositRow.state = ["issued"] ∧
    settled.world.redemptions.map RedemptionRow.state = ["confirmed"] ∧
    Receipt unsigned settled.log (.issue "alice" ⟨100⟩ scb1.hash) ∧
    Receipt unsigned settled.log (.confirmRedemption "alice" 1) := by
  have hdeposits : settled.world.deposits =
      [⟨scb1.hash.toHex, "SCB-1", 100, "alice", "alice", "issued", 0⟩] := by decide +kernel
  have hredemptions : settled.world.redemptions =
      [⟨"alice", 1, 100, "confirmed", 0, some 0, 86400⟩] := by decide +kernel
  obtain ⟨hissued, hconfirmed⟩ := settled_receipted unsigned 86400
    [.retryHeld scb1, .confirm "alice" 1] (w := owed) filed_waiting legible_waiting
    (List.nodup_singleton _) legible_owed retries
  have hread : PgDepositRepository.rowToDeposit
      ⟨scb1.hash.toHex, "SCB-1", 100, "alice", "alice", "issued", 0⟩ =
        .ok ⟨scb1, ⟨100⟩, "alice", "alice", .issued, 0⟩ :=
    PgDepositRepository.rowToDeposit_ok.mpr
      ⟨by show BankRef.new scb1.text = _; rw [BankRef.new_text], rfl, rfl, rfl, rfl, rfl⟩
  refine ⟨by rw [hdeposits]; rfl, by rw [hredemptions]; rfl, ?_, ?_⟩
  · obtain ⟨row₀, hrow₀, d₀, hread₀, hs₀, -⟩ | hreceipt :=
      hissued _ (by rw [hdeposits]; exact List.mem_singleton_self _) _ hread rfl
    · obtain rfl := List.mem_singleton.mp hrow₀
      obtain ⟨-, -, -, -, hstate, -⟩ := PgDepositRepository.rowToDeposit_ok.mp hread₀
      rw [hs₀] at hstate
      exact absurd hstate (by decide)
    · exact hreceipt
  · obtain ⟨row₀, hrow₀, r₀, hread₀, hs₀, -⟩ | hreceipt :=
      hconfirmed _ (by rw [hredemptions]; exact List.mem_singleton_self _)
        ⟨"alice", 1, ⟨100⟩, .confirmed, 0, some 0, 86400⟩ (by decide) rfl
    · obtain rfl := List.mem_singleton.mp hrow₀
      obtain ⟨-, -, -, hstate, -⟩ := PgRedemptionRepository.rowToRedemption_ok.mp hread₀
      rw [hs₀] at hstate
      exact absurd hstate (by decide)
    · exact hreceipt

end Waiting

end Thbc.Relayed
