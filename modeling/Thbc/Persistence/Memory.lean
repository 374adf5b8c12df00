import Thbc.Core.Ports
import Thbc.Lib.Tally
import Mathlib.Data.List.Sort

/-!
# In-memory repositories

`crates/thbc-persistence/src/memory.rs`. Each repository is a map behind its
own mutex, so a method is one atomic step on the rows. The order in which a
`HashMap` lists its values is not specified; where it can be seen (`held`,
`reclaimable`) the rows come sorted by a `rank` of their keys that the caller
of the method does not choose.
-/

namespace Thbc

/-! ## Deposits -/

/-- `rows` of `InMemoryDepositRepo`. -/
abbrev InMemoryDepositRepo : Type := HashMap BankRefHash Deposit

namespace InMemoryDepositRepo

variable [Sha256]

def insert (rows : InMemoryDepositRepo) (deposit : Deposit) :
    PortResult Unit × InMemoryDepositRepo :=
  let key := deposit.nullifier
  if key ∈ rows then
    (.error (.conflict s!"bank_ref_hash {key.toHex} already recorded"), rows)
  else (.ok (), AList.insert key deposit rows)

def find (rows : InMemoryDepositRepo) (nullifier : BankRefHash) :
    PortResult (Option Deposit) :=
  .ok (rows.lookup nullifier)

def update (rows : InMemoryDepositRepo) (deposit : Deposit) :
    PortResult Unit × InMemoryDepositRepo :=
  let key := deposit.nullifier
  if key ∈ rows then (.ok (), AList.insert key deposit rows)
  else (.error .notFound, rows)

/-- The checked sum of the amounts of the rows that satisfy `p`. -/
def total (p : Deposit → Bool) (rows : InMemoryDepositRepo) : PortResult Thb :=
  match (rows.values.filter p).foldlM
      (fun acc (d : Deposit) => acc.checkedAdd d.amount) Thb.zero with
  | .ok t => .ok t
  | .error e => .error (.domain e)

def totalEncumbered (rows : InMemoryDepositRepo) : PortResult Thb :=
  rows.total Deposit.isEncumbering

def held (rows : InMemoryDepositRepo) (rank : BankRefHash → ℕ) :
    PortResult (List Deposit) :=
  .ok ((rows.values.filter fun d => d.state = .screened).insertionSort
    fun a b => rank a.nullifier ≤ rank b.nullifier)

def totalIssued (rows : InMemoryDepositRepo) : PortResult Thb :=
  rows.total fun d => d.state = .issued

/-- `DepositRepository for InMemoryDepositRepo`. -/
def call (rows : InMemoryDepositRepo) (rank : BankRefHash → ℕ) :
    (m : DepositRepository) → PortResult m.Answer × InMemoryDepositRepo
  | .insert deposit => rows.insert deposit
  | .find nullifier => (rows.find nullifier, rows)
  | .update deposit => rows.update deposit
  | .totalEncumbered => (rows.totalEncumbered, rows)
  | .held => (rows.held rank, rows)
  | .totalIssued => (rows.totalIssued, rows)

/-! What a call can do to the rows. -/

theorem insert_cases (rows : InMemoryDepositRepo) (d : Deposit) :
    (∃ row text, rows.lookup d.nullifier = some row ∧
      insert rows d = (.error (.conflict text), rows)) ∨
    (rows.lookup d.nullifier = none ∧
      insert rows d = (.ok (), AList.insert d.nullifier d rows)) := by
  by_cases hk : d.nullifier ∈ rows
  · obtain ⟨row, hrow⟩ := Option.isSome_iff_exists.mp (AList.lookup_isSome.mpr hk)
    exact .inl ⟨row, _, hrow, if_pos hk⟩
  · exact .inr ⟨AList.lookup_eq_none.mpr hk, if_neg hk⟩

theorem update_cases (rows : InMemoryDepositRepo) (d : Deposit) :
    (rows.lookup d.nullifier = none ∧ update rows d = (.error .notFound, rows)) ∨
    (∃ row, rows.lookup d.nullifier = some row ∧
      update rows d = (.ok (), AList.insert d.nullifier d rows)) := by
  by_cases hk : d.nullifier ∈ rows
  · obtain ⟨row, hrow⟩ := Option.isSome_iff_exists.mp (AList.lookup_isSome.mpr hk)
    exact .inr ⟨row, hrow, if_pos hk⟩
  · exact .inl ⟨AList.lookup_eq_none.mpr hk, if_neg hk⟩

/-- The amount of the rows that satisfy `p`, as a number. -/
def amountOf (p : Deposit → Bool) (rows : InMemoryDepositRepo) : ℕ :=
  AList.tally (fun d => if p d then d.amount.toNat else 0) rows

omit [Sha256] in
theorem total_ok {p : Deposit → Bool} {rows : InMemoryDepositRepo} {t : Thb} :
    rows.total p = .ok t ↔ t.toNat = amountOf p rows := by
  have h := Thb.foldlM_checkedAdd Deposit.amount (rows.values.filter p) .zero t
  rw [AList.sum_filter_values, Thb.toNat_zero, Nat.zero_add] at h
  unfold total amountOf
  rw [eq_comm (a := t.toNat), ← h]
  split
  · next t' ht => rw [ht]; simp
  · next e he => rw [he]; simp

omit [Sha256] in
theorem total_of_lt {p : Deposit → Bool} {rows : InMemoryDepositRepo}
    (h : amountOf p rows < UInt64.size) :
    ∃ t : Thb, rows.total p = .ok t ∧ t.toNat = amountOf p rows := by
  have ht : (Thb.mk (UInt64.ofNat (amountOf p rows))).toNat = amountOf p rows :=
    UInt64.toNat_ofNat_of_lt' h
  exact ⟨_, total_ok.mpr ht, ht⟩

omit [Sha256] in
/-- A write over a row that does not count. -/
theorem amountOf_insert {p : Deposit → Bool} {rows : InMemoryDepositRepo}
    {n : BankRefHash} {d : Deposit}
    (h : ∀ row, rows.lookup n = some row → p row = false) :
    amountOf p (AList.insert n d rows) =
      amountOf p rows + if p d then d.amount.toNat else 0 := by
  have ht := AList.tally_insert (fun d => if p d then d.amount.toNat else 0) rows n d
  have hw : AList.weight (fun d => if p d then d.amount.toNat else 0) rows n = 0 := by
    cases hrow : rows.lookup n with
    | none => exact AList.weight_of_none hrow
    | some row =>
        rw [AList.weight_of_lookup hrow, h row hrow]
        rfl
  unfold amountOf
  omega

theorem held_perm {rows : InMemoryDepositRepo} {rank : BankRefHash → ℕ}
    {ds : List Deposit} (h : rows.held rank = .ok ds) :
    ds.Perm (rows.values.filter fun d => d.state = .screened) := by
  cases h
  exact List.perm_insertionSort _ _

theorem mem_held {rows : InMemoryDepositRepo} {rank : BankRefHash → ℕ}
    {ds : List Deposit} (h : rows.held rank = .ok ds) {d : Deposit} :
    d ∈ ds ↔ d.state = .screened ∧ ∃ n, rows.lookup n = some d := by
  cases h
  rw [List.mem_insertionSort, List.mem_filter, AList.mem_values,
    decide_eq_true_eq, and_comm]

end InMemoryDepositRepo

/-! ## Redemptions -/

/-- `rows` of `InMemoryRedemptionRepo`. -/
abbrev InMemoryRedemptionRepo : Type := HashMap (String × UInt64) Redemption

namespace InMemoryRedemptionRepo

def insert (rows : InMemoryRedemptionRepo) (redemption : Redemption) :
    PortResult Unit × InMemoryRedemptionRepo :=
  if redemption.key ∈ rows then
    (.error (.conflict
      s!"redemption ({redemption.user}, {redemption.seq}) already recorded"), rows)
  else (.ok (), AList.insert redemption.key redemption rows)

def find (rows : InMemoryRedemptionRepo) (user : String) (seq : UInt64) :
    PortResult (Option Redemption) :=
  .ok (rows.lookup (user, seq))

def update (rows : InMemoryRedemptionRepo) (redemption : Redemption) :
    PortResult Unit × InMemoryRedemptionRepo :=
  if redemption.key ∈ rows then (.ok (), AList.insert redemption.key redemption rows)
  else (.error .notFound, rows)

/-- One past the largest number used; `m + 1` is the `u64` addition, which
wraps in a release build. -/
def nextSeq (rows : InMemoryRedemptionRepo) (user : String) : PortResult UInt64 :=
  let seqs := (rows.keys.filter fun k => k.1 = user).map Prod.snd
  match seqs.max? with
  | none => .ok 1
  | some m => .ok (m + 1)

def reclaimable (rows : InMemoryRedemptionRepo) (rank : String × UInt64 → ℕ)
    (now : Int64) : PortResult (List Redemption) :=
  .ok ((rows.values.filter fun r => r.isReclaimable now).insertionSort
    fun a b => rank a.key ≤ rank b.key)

def totalRedeemed (rows : InMemoryRedemptionRepo) : PortResult Thb :=
  match rows.values.foldlM
      (fun acc (r : Redemption) => acc.checkedAdd r.supplyReduction) Thb.zero with
  | .ok t => .ok t
  | .error e => .error (.domain e)

def pendingCount (rows : InMemoryRedemptionRepo) : PortResult UInt32 :=
  .ok (toU32 (rows.values.filter fun r => r.state.isPending).length)

/-- `RedemptionRepository for InMemoryRedemptionRepo`. -/
def call (rows : InMemoryRedemptionRepo) (rank : String × UInt64 → ℕ) :
    (m : RedemptionRepository) → PortResult m.Answer × InMemoryRedemptionRepo
  | .insert redemption => rows.insert redemption
  | .find user seq => (rows.find user seq, rows)
  | .update redemption => rows.update redemption
  | .nextSeq user => (rows.nextSeq user, rows)
  | .reclaimable now => (rows.reclaimable rank now, rows)
  | .totalRedeemed => (rows.totalRedeemed, rows)
  | .pendingCount => (rows.pendingCount, rows)

theorem insert_cases (rows : InMemoryRedemptionRepo) (r : Redemption) :
    (∃ e, insert rows r = (.error e, rows)) ∨
    (rows.lookup r.key = none ∧
      insert rows r = (.ok (), AList.insert r.key r rows)) := by
  by_cases hk : r.key ∈ rows
  · exact .inl ⟨_, if_pos hk⟩
  · exact .inr ⟨AList.lookup_eq_none.mpr hk, if_neg hk⟩

theorem update_cases (rows : InMemoryRedemptionRepo) (r : Redemption) :
    (rows.lookup r.key = none ∧ update rows r = (.error .notFound, rows)) ∨
    (∃ row, rows.lookup r.key = some row ∧
      update rows r = (.ok (), AList.insert r.key r rows)) := by
  by_cases hk : r.key ∈ rows
  · obtain ⟨row, hrow⟩ := Option.isSome_iff_exists.mp (AList.lookup_isSome.mpr hk)
    exact .inr ⟨row, hrow, if_pos hk⟩
  · exact .inl ⟨AList.lookup_eq_none.mpr hk, if_neg hk⟩

theorem mem_reclaimable {rows : InMemoryRedemptionRepo}
    {rank : String × UInt64 → ℕ} {now : Int64} {due : List Redemption}
    (h : rows.reclaimable rank now = .ok due) {r : Redemption} :
    r ∈ due ↔ r.isReclaimable now = true ∧ ∃ k, rows.lookup k = some r := by
  cases h
  rw [List.mem_insertionSort, List.mem_filter, AList.mem_values, and_comm]

/-- Σ of the supply reductions of all rows, as a number. -/
def redeemed (rows : InMemoryRedemptionRepo) : ℕ :=
  AList.tally (fun r => r.supplyReduction.toNat) rows

theorem totalRedeemed_ok {rows : InMemoryRedemptionRepo} {t : Thb} :
    rows.totalRedeemed = .ok t ↔ t.toNat = rows.redeemed := by
  have h := Thb.foldlM_checkedAdd Redemption.supplyReduction rows.values .zero t
  rw [Thb.toNat_zero, Nat.zero_add] at h
  unfold totalRedeemed
  rw [eq_comm (a := t.toNat), redeemed, AList.tally, ← h]
  split
  · next t' ht => rw [ht]; simp
  · next e he => rw [he]; simp

theorem totalRedeemed_of_lt {rows : InMemoryRedemptionRepo}
    (h : rows.redeemed < UInt64.size) :
    ∃ t : Thb, rows.totalRedeemed = .ok t ∧ t.toNat = rows.redeemed := by
  have ht : (Thb.mk (UInt64.ofNat rows.redeemed)).toNat = rows.redeemed :=
    UInt64.toNat_ofNat_of_lt' h
  exact ⟨_, totalRedeemed_ok.mpr ht, ht⟩

/-- A write over a row that is not `Confirmed`. -/
theorem redeemed_insert {rows : InMemoryRedemptionRepo} {k : String × UInt64}
    {r : Redemption} (h : ∀ row, rows.lookup k = some row → row.state ≠ .confirmed) :
    redeemed (AList.insert k r rows) = rows.redeemed + r.supplyReduction.toNat := by
  have ht := AList.tally_insert (fun r => r.supplyReduction.toNat) rows k r
  have hw : AList.weight (fun r => r.supplyReduction.toNat) rows k = 0 := by
    cases hrow : rows.lookup k with
    | none => exact AList.weight_of_none hrow
    | some row =>
        rw [AList.weight_of_lookup hrow,
          Redemption.supplyReduction_of_ne (h row hrow), Thb.toNat_zero]
  unfold redeemed
  omega

/-- A write over the row that is there, which is not `Confirmed`. -/
theorem redeemed_update {rows : InMemoryRedemptionRepo} {k : String × UInt64}
    {row r : Redemption} (hrow : rows.lookup k = some row)
    (hst : row.state ≠ .confirmed) :
    redeemed (AList.insert k r rows) = rows.redeemed + r.supplyReduction.toNat := by
  refine redeemed_insert fun row' hrow' => ?_
  rw [hrow] at hrow'
  rw [← Option.some.inj hrow']
  exact hst

/-- A write from a state that does not count to one that does not either. -/
theorem redeemed_unmoved {rows : InMemoryRedemptionRepo} {k : String × UInt64}
    {row r : Redemption} (hrow : rows.lookup k = some row)
    (hst : row.state ≠ .confirmed) (hr : r.state ≠ .confirmed) :
    redeemed (AList.insert k r rows) = rows.redeemed := by
  rw [redeemed_update hrow hst, Redemption.supplyReduction_of_ne hr]
  rfl

end InMemoryRedemptionRepo

/-! ## Reconciliation history -/

/-- `runs` of `InMemoryReconciliationRepo`, oldest first. -/
abbrev InMemoryReconciliationRepo : Type := List ReconciliationReport

namespace InMemoryReconciliationRepo

def record (runs : InMemoryReconciliationRepo) (report : ReconciliationReport) :
    PortResult Unit × InMemoryReconciliationRepo :=
  (.ok (), runs ++ [report])

def recent (runs : InMemoryReconciliationRepo) (limit : UInt32) :
    PortResult (List ReconciliationReport) :=
  .ok (runs.reverse.take limit.toNat)

def unhealthyCount (runs : InMemoryReconciliationRepo) : PortResult UInt64 :=
  .ok (UInt64.ofNat (runs.filter fun r => !r.isHealthy).length)

/-- `ReconciliationRepository for InMemoryReconciliationRepo`. -/
def call (runs : InMemoryReconciliationRepo) :
    (m : ReconciliationRepository) →
      PortResult m.Answer × InMemoryReconciliationRepo
  | .record report => runs.record report
  | .recent limit => (runs.recent limit, runs)
  | .unhealthyCount => (runs.unhealthyCount, runs)

end InMemoryReconciliationRepo

end Thbc
