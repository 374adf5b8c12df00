import Thbc.Core.Ports
import Thbc.Lib.Table

/-!
# Postgres repositories

`crates/thbc-persistence/src/postgres.rs`, over the tables of the two
migrations. The columns `created_at` and `updated_at` are left out, and so is
the `id` of a reconciliation run, since no statement reads them. A method is one
statement, so it is one atomic step; what the caller of `held` and `reclaimable`
cannot rely on is the order of rows that `ORDER BY` does not tell apart, and it
comes in as `tie`.

Amounts and sequence numbers are `u64` in the service and `BIGINT` here.
`toI64` refuses what does not fit, and `fromI64` what cannot have been written.
-/

namespace Thbc

open Thbc.Lib

/-! ## Codecs -/

/-- `i64::try_from`, on a `u64`. -/
def tryFromU64 (n : UInt64) : Option Int64 :=
  if n.toNat < 2 ^ 63 then some n.toInt64 else none

/-- `u64::try_from`, on an `i64`. -/
def tryFromI64 (v : Int64) : Option UInt64 :=
  if 0 ≤ v.toInt then some v.toUInt64 else none

/-- A conversion, or the error that stands for its failure. -/
def orRefuse {α : Type} (x : Option α) (e : PortError) : PortResult α :=
  x.elim (.error e) .ok

def toI64 (amount : Thb) : PortResult Int64 :=
  orRefuse (tryFromU64 amount.minor)
    (.rejected s!"amount {amount.minor} exceeds BIGINT range")

theorem orRefuse_eq_ok {α : Type} {x : Option α} {e : PortError} {a : α} :
    orRefuse x e = .ok a ↔ x = some a := by
  cases x with
  | none =>
      refine ⟨fun h => ?_, fun h => ?_⟩
      · cases h
      · cases h
  | some b =>
      show Except.ok b = Except.ok a ↔ some b = some a
      rw [Except.ok.injEq, Option.some.injEq]

/-- `i64::try_from`, on an `i128`. -/
def tryFromI128 (n : ℤ) : Option Int64 :=
  if -2 ^ 63 ≤ n ∧ n < 2 ^ 63 then some (Int64.ofInt n) else none

def fromI64 (v : Int64) : PortResult Thb :=
  orRefuse ((tryFromI64 v).map Thb.fromMinor)
    (.rejected s!"negative amount {v} in database")

def parseDepositState (s : String) : PortResult DepositState :=
  match s with
  | "observed" => .ok .observed
  | "screened" => .ok .screened
  | "attested" => .ok .attested
  | "issued" => .ok .issued
  | "encumbered" => .ok .encumbered
  | "disputed" => .ok .disputed
  | other => .error (.rejected s!"unknown deposit state {other.quote}")

def parseRedemptionState (s : String) : PortResult RedemptionState :=
  match s with
  | "requested" => .ok .requested
  | "escrowed" => .ok .escrowed
  | "payout_queued" => .ok .payoutQueued
  | "confirmed" => .ok .confirmed
  | "reclaimed" => .ok .reclaimed
  | "failed" => .ok .failed
  | other => .error (.rejected s!"unknown redemption state {other.quote}")

def parseSeverity (s : String) : PortResult Severity :=
  match s with
  | "ok" => .ok .ok
  | "drift" => .ok .drift
  | "insolvent" => .ok .insolvent
  | other => .error (.rejected s!"unknown severity {other.quote}")

/-- The errors of the client library that the statements can meet. -/
inductive SqlxError where
  | database (e : SqlError)
  | rowNotFound

def mapSqlx : SqlxError → PortError
  | .database e =>
      if e.code = "23505" then .conflict e.message
      else .transient s!"error returned from database: {e.message}"
  | .rowNotFound => .notFound

/-- A statement sent to the database. -/
def query {α : Type} (x : SqlResult α) : PortResult α :=
  x.mapError fun e => mapSqlx (.database e)

/-- `map_err(PortError::Domain)`. -/
def domain {α : Type} (x : CoreResult α) : PortResult α := x.mapError .domain

/-- A method whose statement leaves new rows behind. -/
def execute {R : Type} (rows : List R) (x : PortResult (List R)) :
    PortResult Unit × List R :=
  match x with
  | .ok rows' => (.ok (), rows')
  | .error e => (.error e, rows)

/-- The same, where it is an error to affect no row. -/
def executeFound {R : Type} (rows : List R) (x : PortResult (ℕ × List R)) :
    PortResult Unit × List R :=
  match x with
  | .ok (affected, rows') =>
      (if affected = 0 then .error .notFound else .ok (), rows')
  | .error e => (.error e, rows)

theorem execute_cases {R : Type} {rows rows' : List R} {x : PortResult (List R)}
    {r : PortResult Unit} (h : execute rows x = (r, rows')) :
    (∃ e, x = .error e ∧ r = .error e ∧ rows' = rows) ∨ (x = .ok rows' ∧ r = .ok ()) := by
  cases x with
  | error e =>
      obtain ⟨rfl, rfl⟩ := Prod.mk.inj h
      exact .inl ⟨e, rfl, rfl, rfl⟩
  | ok rows'' =>
      obtain ⟨rfl, rfl⟩ := Prod.mk.inj h
      exact .inr ⟨rfl, rfl⟩

theorem executeFound_cases {R : Type} {rows rows' : List R} {x : PortResult (ℕ × List R)}
    {r : PortResult Unit} (h : executeFound rows x = (r, rows')) :
    (∃ e, x = .error e ∧ r = .error e ∧ rows' = rows) ∨
      ∃ n, x = .ok (n, rows') ∧ r = if n = 0 then .error .notFound else .ok () := by
  cases x with
  | error e =>
      obtain ⟨rfl, rfl⟩ := Prod.mk.inj h
      exact .inl ⟨e, rfl, rfl, rfl⟩
  | ok found =>
      obtain ⟨rfl, rfl⟩ := Prod.mk.inj h
      exact .inr ⟨found.1, rfl, rfl⟩

theorem query_eq_ok {α : Type} {x : SqlResult α} {a : α} :
    query x = .ok a ↔ x = .ok a := mapError_ok

theorem domain_eq_ok {α : Type} {x : CoreResult α} {a : α} :
    domain x = .ok a ↔ x = .ok a := mapError_ok

/-! What is written reads back as it was. -/

theorem toInt_toInt64 {n : UInt64} (h : n.toNat < 2 ^ 63) :
    n.toInt64.toInt = n.toNat := by
  have hof : n.toInt64 = Int64.ofNat n.toNat := by
    rw [← UInt64.toInt64_ofNat', UInt64.ofNat_toNat]
  rw [hof, Int64.toInt_ofNat_of_lt h]

theorem tryFromU64_of_lt {n : UInt64} (h : n.toNat < 2 ^ 63) :
    tryFromU64 n = some n.toInt64 := if_pos h

theorem tryFromI64_toInt64 {n : UInt64} (h : n.toNat < 2 ^ 63) :
    tryFromI64 n.toInt64 = some n := by
  have hpos : 0 ≤ n.toInt64.toInt := by
    rw [toInt_toInt64 h]
    omega
  rw [tryFromI64, if_pos hpos, UInt64.toUInt64_toInt64]

theorem toI64_of_lt {amount : Thb} (h : amount.toNat < 2 ^ 63) :
    toI64 amount = .ok amount.minor.toInt64 := by
  rw [toI64, tryFromU64_of_lt h]
  rfl

theorem toI64_eq_ok {amount : Thb} {v : Int64} :
    toI64 amount = .ok v ↔ amount.toNat < 2 ^ 63 ∧ v = amount.minor.toInt64 := by
  by_cases h : amount.toNat < 2 ^ 63
  · rw [toI64_of_lt h, Except.ok.injEq, eq_comm]
    exact ⟨fun hv => ⟨h, hv⟩, And.right⟩
  · have hnone : tryFromU64 amount.minor = none := if_neg h
    rw [toI64, hnone]
    refine ⟨fun hv => ?_, fun hv => absurd hv.1 h⟩
    cases hv

theorem fromI64_toInt64 {amount : Thb} (h : amount.toNat < 2 ^ 63) :
    fromI64 amount.minor.toInt64 = .ok amount := by
  rw [fromI64, tryFromI64_toInt64 h]
  rfl

theorem tryFromI64_eq_some {v : Int64} {n : UInt64} (h : tryFromI64 v = some n) :
    v = n.toInt64 ∧ n.toNat < 2 ^ 63 := by
  unfold tryFromI64 at h
  split at h
  · next hpos =>
      obtain rfl := Option.some.inj h
      refine ⟨(Int64.toInt64_toUInt64 v).symm, ?_⟩
      rw [Int64.toNat_toUInt64_of_le (Int64.le_iff_toInt_le.mpr hpos)]
      have hlt := v.toInt_lt
      show v.toInt.toNat < 2 ^ 63
      omega
  · cases h

theorem fromI64_eq_ok {v : Int64} {amount : Thb} (h : fromI64 v = .ok amount) :
    v = amount.minor.toInt64 ∧ amount.toNat < 2 ^ 63 := by
  obtain ⟨n, hn, rfl⟩ := Option.map_eq_some_iff.mp (orRefuse_eq_ok.mp h)
  exact tryFromI64_eq_some hn

/-- A total that fits. -/
theorem fromI64_toInt {v : Int64} {n : ℕ} (h : v.toInt = n) :
    ∃ t : Thb, fromI64 v = .ok t ∧ t.toNat = n := by
  have hpos : 0 ≤ v.toInt := by omega
  refine ⟨⟨v.toUInt64⟩, ?_, ?_⟩
  · rw [fromI64, tryFromI64, if_pos hpos]
    rfl
  · show v.toUInt64.toNat = n
    rw [Int64.toNat_toUInt64_of_le (Int64.le_iff_toInt_le.mpr hpos)]
    show v.toInt.toNat = n
    omega

theorem parseDepositState_asStr (s : DepositState) :
    parseDepositState s.asStr = .ok s := by
  cases s <;> rfl

theorem parseDepositState_ok {text : String} {s : DepositState} :
    parseDepositState text = .ok s ↔ text = s.asStr := by
  refine ⟨fun h => ?_, fun h => ?_⟩
  · unfold parseDepositState at h
    split at h <;> cases h <;> rfl
  · rw [h]
    exact parseDepositState_asStr s

theorem parseRedemptionState_asStr (s : RedemptionState) :
    parseRedemptionState s.asStr = .ok s := by
  cases s <;> rfl

theorem parseRedemptionState_ok {text : String} {s : RedemptionState} :
    parseRedemptionState text = .ok s ↔ text = s.asStr := by
  refine ⟨fun h => ?_, fun h => ?_⟩
  · unfold parseRedemptionState at h
    split at h <;> cases h <;> rfl
  · rw [h]
    exact parseRedemptionState_asStr s

theorem parseSeverity_asStr (s : Severity) : parseSeverity s.asStr = .ok s := by
  cases s <;> rfl

theorem DepositState.asStr_inj : Function.Injective DepositState.asStr := by
  intro s s' h
  have hparse := congrArg parseDepositState h
  rw [parseDepositState_asStr, parseDepositState_asStr] at hparse
  exact Except.ok.inj hparse

theorem RedemptionState.asStr_inj : Function.Injective RedemptionState.asStr := by
  intro s s' h
  have hparse := congrArg parseRedemptionState h
  rw [parseRedemptionState_asStr, parseRedemptionState_asStr] at hparse
  exact Except.ok.inj hparse

/-- A reference is in normal form already. -/
theorem BankRef.new_text (r : BankRef) : BankRef.new r.text = .ok r := by
  obtain ⟨text, hne, hnormal⟩ := r
  have hnew : normalise text ≠ "" := by
    rw [hnormal]
    exact hne
  unfold BankRef.new
  rw [dif_neg hnew]
  simp only [hnormal]

/-! ## Deposits -/

/-- A row of `deposits`. -/
structure DepositRow where
  bankRefHash : String
  bankRef : String
  amountMinor : Int64
  beneficiary : String
  beneficiaryWallet : String
  state : String
  observedAt : Int64
  deriving DecidableEq

namespace PgDepositRepository

def deposits : Schema DepositRow String where
  relation := "deposits"
  key := DepositRow.bankRefHash
  checks := [
    ("deposits_amount_minor_check", fun r => decide (0 < r.amountMinor)),
    ("deposits_state_check", fun r => r.state ∈
      ["observed", "screened", "attested", "issued", "encumbered", "disputed"])]

variable [Sha256]

def insert (rows : List DepositRow) (deposit : Deposit) :
    PortResult Unit × List DepositRow :=
  execute rows do
    let amount ← toI64 deposit.amount
    query do
      let row : DepositRow := {
        bankRefHash := ← toText deposit.nullifier.toHex
        bankRef := ← toText deposit.bankRef.text
        amountMinor := amount
        beneficiary := ← toText deposit.beneficiary
        beneficiaryWallet := ← toText deposit.beneficiaryWallet
        state := ← toText deposit.state.asStr
        observedAt := deposit.observedAt }
      deposits.insert row rows

omit [Sha256] in
/-- A row as `find` and `held` read it. -/
def rowToDeposit (row : DepositRow) : PortResult Deposit := do
  return {
    bankRef := ← domain (BankRef.new row.bankRef)
    amount := ← fromI64 row.amountMinor
    beneficiary := row.beneficiary
    beneficiaryWallet := row.beneficiaryWallet
    state := ← parseDepositState row.state
    observedAt := row.observedAt }

def find (rows : List DepositRow) (nullifier : BankRefHash) :
    PortResult (Option Deposit) := do
  let hash ← query (toText nullifier.toHex)
  match (rows.filter fun r => r.bankRefHash = hash).head? with
  | none => return none
  | some row => return some (← rowToDeposit row)

/-- `bank_ref_hash` is the identity and never updated. -/
def update (rows : List DepositRow) (deposit : Deposit) :
    PortResult Unit × List DepositRow :=
  executeFound rows do
    let amount ← toI64 deposit.amount
    query do
      let hash ← toText deposit.nullifier.toHex
      let state ← toText deposit.state.asStr
      deposits.update (fun r => r.bankRefHash = hash)
        (fun r => { r with amountMinor := amount, state }) rows

omit [Sha256] in
/-- The sum over the rows in one of some states. -/
def total (states : List String) (rows : List DepositRow) : PortResult Thb := do
  let total ← query (sumBigint DepositRow.amountMinor
    (rows.filter fun r => r.state ∈ states))
  fromI64 total

def totalEncumbered (rows : List DepositRow) : PortResult Thb :=
  total ["encumbered", "disputed"] rows

def held (rows : List DepositRow) (tie : DepositRow → ℕ) :
    PortResult (List Deposit) :=
  (orderBy DepositRow.observedAt tie
    (rows.filter fun r => r.state = "screened")).mapM rowToDeposit

def totalIssued (rows : List DepositRow) : PortResult Thb := total ["issued"] rows

/-- `DepositRepository for PgDepositRepository`. -/
def call (rows : List DepositRow) (tie : DepositRow → ℕ) :
    (m : DepositRepository) → PortResult m.Answer × List DepositRow
  | .insert deposit => insert rows deposit
  | .find nullifier => (find rows nullifier, rows)
  | .update deposit => update rows deposit
  | .totalEncumbered => (totalEncumbered rows, rows)
  | .held => (held rows tie, rows)
  | .totalIssued => (totalIssued rows, rows)

/-! What the statements have done when they return without an error. -/

variable {rows rows' : List DepositRow} {d : Deposit}

theorem insert_ok (h : insert rows d = (.ok (), rows')) :
    d.amount.toNat < 2 ^ 63 ∧ (∀ row ∈ rows, row.bankRefHash ≠ d.nullifier.toHex) ∧
      rows' = rows ++ [⟨d.nullifier.toHex, d.bankRef.text, d.amount.minor.toInt64,
        d.beneficiary, d.beneficiaryWallet, d.state.asStr, d.observedAt⟩] := by
  obtain ⟨e, -, he, -⟩ | ⟨hx, -⟩ := execute_cases h
  · cases he
  · simp only [bind_ok, query_eq_ok, toI64_eq_ok, toText_eq_ok, Schema.insert_ok] at hx
    obtain ⟨amount, ⟨hlt, rfl⟩, hash, ⟨-, rfl⟩, ref, ⟨-, rfl⟩, ben, ⟨-, rfl⟩, wallet,
      ⟨-, rfl⟩, state, ⟨-, rfl⟩, -, hfree, hrows⟩ := hx
    exact ⟨hlt, hfree, hrows⟩

/-- An `update` leaves the table as it was, or it has written what it can. -/
theorem update_cases {r : PortResult Unit} (h : update rows d = (r, rows')) :
    (rows' = rows ∧ r ≠ .ok ()) ∨
      d.amount.toNat < 2 ^ 63 ∧
        (rows' = rows.map fun r => if r.bankRefHash = d.nullifier.toHex then
          { r with amountMinor := d.amount.minor.toInt64, state := d.state.asStr }
          else r) ∧
        (r = .ok () → ∃ row ∈ rows, row.bankRefHash = d.nullifier.toHex) := by
  obtain ⟨e, -, he, hrows⟩ | ⟨n, hx, hr⟩ := executeFound_cases h
  · refine .inl ⟨hrows, fun hok => ?_⟩
    rw [he] at hok
    cases hok
  · simp only [bind_ok, query_eq_ok, toI64_eq_ok, toText_eq_ok, Schema.update_ok] at hx
    obtain ⟨amount, ⟨hlt, rfl⟩, hash, ⟨-, rfl⟩, state, ⟨-, rfl⟩, -, hn, hrows⟩ := hx
    refine .inr ⟨hlt, by simpa using hrows, fun hok => ?_⟩
    rw [hok] at hr
    have hpos : 0 < n := by
      refine Nat.pos_of_ne_zero fun h0 => ?_
      rw [if_pos h0] at hr
      cases hr
    rw [hn] at hpos
    obtain ⟨row, hrow⟩ := List.exists_mem_of_length_pos hpos
    obtain ⟨hmem, hkey⟩ := List.mem_filter.mp hrow
    exact ⟨row, hmem, of_decide_eq_true hkey⟩

omit [Sha256] in
theorem rowToDeposit_ok {row : DepositRow} :
    rowToDeposit row = .ok d ↔
      BankRef.new row.bankRef = .ok d.bankRef ∧ fromI64 row.amountMinor = .ok d.amount ∧
        row.beneficiary = d.beneficiary ∧ row.beneficiaryWallet = d.beneficiaryWallet ∧
        row.state = d.state.asStr ∧ row.observedAt = d.observedAt := by
  unfold rowToDeposit
  simp only [bind_ok, domain_eq_ok, parseDepositState_ok, pure, Except.pure, Except.ok.injEq]
  constructor
  · intro ⟨ref, href, amount, hamount, state, hstate, hd⟩
    subst hd
    exact ⟨href, hamount, rfl, rfl, hstate, rfl⟩
  · intro ⟨href, hamount, hben, hwallet, hstate, hobs⟩
    exact ⟨_, href, _, hamount, _, hstate, by rw [hben, hwallet, hobs]⟩

omit [Sha256] in
theorem find_some {n : BankRefHash} (h : find rows n = .ok (some d)) :
    ∃ row ∈ rows, row.bankRefHash = n.toHex ∧ rowToDeposit row = .ok d := by
  unfold find at h
  simp only [bind_ok, query_eq_ok, toText_eq_ok] at h
  obtain ⟨hash, ⟨-, rfl⟩, h⟩ := h
  cases hrow : (rows.filter fun r => r.bankRefHash = n.toHex).head? with
  | none => rw [hrow] at h; cases h
  | some row =>
      rw [hrow] at h
      simp only [bind_ok, pure, Except.pure, Except.ok.injEq, Option.some.injEq] at h
      obtain ⟨d', hd, rfl⟩ := h
      obtain ⟨hmem, hkey⟩ := List.mem_filter.mp (List.mem_of_head? hrow)
      exact ⟨row, hmem, of_decide_eq_true hkey, hd⟩

end PgDepositRepository

/-! ## Redemptions -/

/-- A row of `redemptions`. -/
structure RedemptionRow where
  userId : String
  seq : Int64
  amountMinor : Int64
  state : String
  requestedAt : Int64
  escrowedAt : Option Int64
  deltaSecs : Int64
  deriving DecidableEq

namespace PgRedemptionRepository

/-- The last check is F4 as a table constraint. -/
def redemptions : Schema RedemptionRow (String × Int64) where
  relation := "redemptions"
  key r := (r.userId, r.seq)
  checks := [
    ("redemption_payout_requires_confirmed_escrow", fun r =>
      r.state ∈ ["requested", "failed"] || r.escrowedAt.isSome),
    ("redemptions_amount_minor_check", fun r => decide (0 < r.amountMinor)),
    ("redemptions_delta_secs_check", fun r => decide (0 < r.deltaSecs)),
    ("redemptions_seq_check", fun r => decide (0 < r.seq)),
    ("redemptions_state_check", fun r => r.state ∈ ["requested", "escrowed",
      "payout_queued", "confirmed", "reclaimed", "failed"])]

def rowToRedemption (row : RedemptionRow) : PortResult Redemption := do
  return {
    user := row.userId
    seq := ← orRefuse (tryFromI64 row.seq) (.rejected s!"negative seq {row.seq}")
    amount := ← fromI64 row.amountMinor
    state := ← parseRedemptionState row.state
    requestedAt := row.requestedAt
    escrowedAt := row.escrowedAt
    deltaSecs := row.deltaSecs }

def insert (rows : List RedemptionRow) (redemption : Redemption) :
    PortResult Unit × List RedemptionRow :=
  execute rows do
    let seq ← orRefuse (tryFromU64 redemption.seq)
      (.rejected s!"seq {redemption.seq} exceeds BIGINT")
    let amount ← toI64 redemption.amount
    query do
      let row : RedemptionRow := {
        userId := ← toText redemption.user
        seq
        amountMinor := amount
        state := ← toText redemption.state.asStr
        requestedAt := redemption.requestedAt
        escrowedAt := redemption.escrowedAt
        deltaSecs := redemption.deltaSecs }
      redemptions.insert row rows

def find (rows : List RedemptionRow) (user : String) (seq : UInt64) :
    PortResult (Option Redemption) := do
  let seq ← orRefuse (tryFromU64 seq) .notFound
  let user ← query (toText user)
  match (rows.filter fun r => (r.userId, r.seq) = (user, seq)).head? with
  | none => return none
  | some row => return some (← rowToRedemption row)

def update (rows : List RedemptionRow) (redemption : Redemption) :
    PortResult Unit × List RedemptionRow :=
  executeFound rows do
    let seq ← orRefuse (tryFromU64 redemption.seq) .notFound
    query do
      let user ← toText redemption.user
      let state ← toText redemption.state.asStr
      redemptions.update (fun r => (r.userId, r.seq) = (user, seq))
        (fun r => { r with state, escrowedAt := redemption.escrowedAt }) rows

/-- `u64::try_from(max).unwrap_or(0) + 1`. -/
def nextSeq (rows : List RedemptionRow) (user : String) : PortResult UInt64 := do
  let user ← query (toText user)
  let max := maxBigint RedemptionRow.seq (rows.filter fun r => r.userId = user)
  return (tryFromI64 max).getD 0 + 1

/-- `state IN ('escrowed', 'payout_queued') AND escrowed_at IS NOT NULL AND
($1 - escrowed_at) >= delta_secs`. -/
def isDue (now : Int64) (row : RedemptionRow) : SqlResult Bool :=
  if row.state ∈ ["escrowed", "payout_queued"] then
    match row.escrowedAt with
    | none => .ok false
    | some since => do
        let age ← toBigint (now.toInt - since.toInt)
        return decide (row.deltaSecs ≤ age)
  else .ok false

def reclaimable (rows : List RedemptionRow) (tie : RedemptionRow → ℕ)
    (now : Int64) : PortResult (List Redemption) := do
  let due ← query (selectWhere (isDue now) rows)
  -- No row without an `escrowed_at` is due.
  (orderBy (fun r => r.escrowedAt.getD 0) tie due).mapM rowToRedemption

def totalRedeemed (rows : List RedemptionRow) : PortResult Thb := do
  let total ← query (sumBigint RedemptionRow.amountMinor
    (rows.filter fun r => r.state = "confirmed"))
  fromI64 total

/-- `u32::try_from(n).unwrap_or(u32::MAX)`, on an `i64`. -/
def toU32OfI64 (n : Int64) : UInt32 :=
  if 0 ≤ n.toInt ∧ n.toInt < 2 ^ 32 then UInt32.ofNat n.toInt.toNat else 4294967295

def pendingCount (rows : List RedemptionRow) : PortResult UInt32 := do
  let n ← query (countBigint (rows.filter fun r =>
    r.state ∈ ["escrowed", "payout_queued"]))
  return toU32OfI64 n

/-- `RedemptionRepository for PgRedemptionRepository`. -/
def call (rows : List RedemptionRow) (tie : RedemptionRow → ℕ) :
    (m : RedemptionRepository) → PortResult m.Answer × List RedemptionRow
  | .insert redemption => insert rows redemption
  | .find user seq => (find rows user seq, rows)
  | .update redemption => update rows redemption
  | .nextSeq user => (nextSeq rows user, rows)
  | .reclaimable now => (reclaimable rows tie now, rows)
  | .totalRedeemed => (totalRedeemed rows, rows)
  | .pendingCount => (pendingCount rows, rows)

/-! What the statements have done when they return without an error. -/

variable {rows rows' : List RedemptionRow} {rd : Redemption}

theorem tryFromU64_eq_some {n : UInt64} {v : Int64} :
    tryFromU64 n = some v ↔ n.toNat < 2 ^ 63 ∧ v = n.toInt64 := by
  by_cases h : n.toNat < 2 ^ 63
  · rw [tryFromU64_of_lt h, Option.some.injEq, eq_comm]
    exact ⟨fun hv => ⟨h, hv⟩, And.right⟩
  · have hnone : tryFromU64 n = none := if_neg h
    rw [hnone]
    refine ⟨fun hv => ?_, fun hv => absurd hv.1 h⟩
    cases hv

theorem insert_ok (h : insert rows rd = (.ok (), rows')) :
    rd.seq.toNat < 2 ^ 63 ∧ rd.amount.toNat < 2 ^ 63 ∧
      (∀ row ∈ rows, (row.userId, row.seq) ≠ (rd.user, rd.seq.toInt64)) ∧
      rows' = rows ++ [⟨rd.user, rd.seq.toInt64, rd.amount.minor.toInt64,
        rd.state.asStr, rd.requestedAt, rd.escrowedAt, rd.deltaSecs⟩] := by
  obtain ⟨e, -, he, -⟩ | ⟨hx, -⟩ := execute_cases h
  · cases he
  · simp only [bind_ok, query_eq_ok, orRefuse_eq_ok, tryFromU64_eq_some, toI64_eq_ok,
      toText_eq_ok, Schema.insert_ok] at hx
    obtain ⟨seq, ⟨hseq, rfl⟩, amount, ⟨hlt, rfl⟩, user, ⟨-, rfl⟩, state, ⟨-, rfl⟩, -,
      hfree, hrows⟩ := hx
    exact ⟨hseq, hlt, hfree, hrows⟩

/-- An `update` leaves the table as it was, or it has written what it can. -/
theorem update_cases {r : PortResult Unit} (h : update rows rd = (r, rows')) :
    (rows' = rows ∧ r ≠ .ok ()) ∨
      rd.seq.toNat < 2 ^ 63 ∧
        rows' = rows.map fun r => if (r.userId, r.seq) = (rd.user, rd.seq.toInt64) then
          { r with state := rd.state.asStr, escrowedAt := rd.escrowedAt } else r := by
  obtain ⟨e, -, he, hrows⟩ | ⟨n, hx, -⟩ := executeFound_cases h
  · refine .inl ⟨hrows, fun hok => ?_⟩
    rw [he] at hok
    cases hok
  · simp only [bind_ok, query_eq_ok, orRefuse_eq_ok, tryFromU64_eq_some, toText_eq_ok,
      Schema.update_ok] at hx
    obtain ⟨seq, ⟨hseq, rfl⟩, user, ⟨-, rfl⟩, state, ⟨-, rfl⟩, -, -, hrows⟩ := hx
    exact .inr ⟨hseq, by simpa using hrows⟩

theorem rowToRedemption_ok {row : RedemptionRow} :
    rowToRedemption row = .ok rd ↔
      row.userId = rd.user ∧ tryFromI64 row.seq = some rd.seq ∧
        fromI64 row.amountMinor = .ok rd.amount ∧ row.state = rd.state.asStr ∧
        row.requestedAt = rd.requestedAt ∧ row.escrowedAt = rd.escrowedAt ∧
        row.deltaSecs = rd.deltaSecs := by
  unfold rowToRedemption
  simp only [bind_ok, orRefuse_eq_ok, parseRedemptionState_ok, pure, Except.pure,
    Except.ok.injEq]
  constructor
  · intro ⟨seq, hseq, amount, hamount, state, hstate, hr⟩
    subst hr
    exact ⟨rfl, hseq, hamount, hstate, rfl, rfl, rfl⟩
  · intro ⟨huser, hseq, hamount, hstate, hreq, hesc, hdelta⟩
    exact ⟨_, hseq, _, hamount, _, hstate, by rw [huser, hreq, hesc, hdelta]⟩

theorem find_some {user : String} {seq : UInt64}
    (h : find rows user seq = .ok (some rd)) :
    seq.toNat < 2 ^ 63 ∧ ∃ row ∈ rows, (row.userId, row.seq) = (user, seq.toInt64) ∧
      rowToRedemption row = .ok rd := by
  unfold find at h
  simp only [bind_ok, query_eq_ok, orRefuse_eq_ok, tryFromU64_eq_some, toText_eq_ok] at h
  obtain ⟨v, ⟨hseq, rfl⟩, text, ⟨-, htext⟩, h⟩ := h
  rw [htext] at h
  refine ⟨hseq, ?_⟩
  cases hrow : (rows.filter fun r => (r.userId, r.seq) = (user, seq.toInt64)).head? with
  | none => rw [hrow] at h; cases h
  | some row =>
      rw [hrow] at h
      simp only [bind_ok, pure, Except.pure, Except.ok.injEq, Option.some.injEq] at h
      obtain ⟨r', hr, rfl⟩ := h
      obtain ⟨hmem, hkey⟩ := List.mem_filter.mp (List.mem_of_head? hrow)
      exact ⟨row, hmem, of_decide_eq_true hkey, hr⟩

end PgRedemptionRepository

/-! ## Reconciliation history -/

/-- A row of `reconciliation_runs`. -/
structure ReconciliationRow where
  checkedAt : Int64
  severity : String
  drift : Int64
  expectedSupply : Int64
  ledgerSupply : Int64
  freeBacking : Int64
  shortfall : Int64
  deriving DecidableEq

namespace PgReconciliationRepository

/-- No two rows have the same key, which is not among the columns here. -/
def reconciliationRuns : Schema ReconciliationRow Unit where
  relation := "reconciliation_runs"
  key _ := ()
  checks := [("reconciliation_runs_severity_check", fun r =>
    r.severity ∈ ["ok", "drift", "insolvent"])]

def rowToReport (row : ReconciliationRow) : PortResult ReconciliationReport := do
  return {
    severity := ← parseSeverity row.severity
    drift := row.drift.toInt
    expectedSupply := ← fromI64 row.expectedSupply
    ledgerSupply := ← fromI64 row.ledgerSupply
    freeBacking := ← fromI64 row.freeBacking
    shortfall := ← fromI64 row.shortfall
    checkedAt := row.checkedAt }

def record (rows : List ReconciliationRow) (report : ReconciliationReport) :
    PortResult Unit × List ReconciliationRow :=
  execute rows do
    let drift ← orRefuse (tryFromI128 report.drift)
      (.rejected s!"drift {report.drift} exceeds BIGINT range")
    let expected ← toI64 report.expectedSupply
    let supply ← toI64 report.ledgerSupply
    let free ← toI64 report.freeBacking
    let shortfall ← toI64 report.shortfall
    query do
      let row : ReconciliationRow := {
        checkedAt := report.checkedAt
        severity := ← toText report.severity.asStr
        drift
        expectedSupply := expected
        ledgerSupply := supply
        freeBacking := free
        shortfall }
      reconciliationRuns.append row rows

/-- `ORDER BY checked_at DESC LIMIT $1`. -/
def recent (rows : List ReconciliationRow) (tie : ReconciliationRow → ℕ)
    (limit : UInt32) : PortResult (List ReconciliationReport) :=
  ((orderBy ReconciliationRow.checkedAt tie rows).reverse.take limit.toNat).mapM
    rowToReport

/-- `u64::try_from(n).unwrap_or(0)`. -/
def unhealthyCount (rows : List ReconciliationRow) : PortResult UInt64 := do
  let n ← query (countBigint (rows.filter fun r => r.severity ≠ "ok"))
  return (tryFromI64 n).getD 0

/-- `ReconciliationRepository for PgReconciliationRepository`. -/
def call (rows : List ReconciliationRow) (tie : ReconciliationRow → ℕ) :
    (m : ReconciliationRepository) → PortResult m.Answer × List ReconciliationRow
  | .record report => record rows report
  | .recent limit => (recent rows tie limit, rows)
  | .unhealthyCount => (unhealthyCount rows, rows)

end PgReconciliationRepository

end Thbc
