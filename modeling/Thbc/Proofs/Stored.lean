import Thbc.Core.Histories
import Thbc.Persistence.Memory
import Thbc.Persistence.Postgres

/-!
# What the tables hold

A table of the database and the map of the in-memory repository hold the same
records, one as rows and one as values (`Stores`). Here each method of the two
repositories is run side by side on such a pair: the replies match, and the pair
stays one. What a record must be for that (`Storable`) is what the checks of its
table ask for and what its columns can hold.

`update` writes some columns only. It comes to the same as replacing the record
when the others are what they were (`origin`).
-/

namespace Thbc

open Thbc.Lib

/-- Replies that differ at most in the text of a conflict. -/
def Matches {α : Type} (x y : PortResult α) : Prop :=
  x = y ∨ ∃ text text', x = .error (.conflict text) ∧ y = .error (.conflict text')

/-- Lists of the same records. -/
def MatchesSet {α : Type} (x y : PortResult (List α)) : Prop :=
  ∃ as bs, x = .ok as ∧ y = .ok bs ∧ as.Perm bs

theorem query_ok {α : Type} (a : α) : query (.ok a) = .ok a := rfl

theorem nulFree_toHex (n : BankRefHash) : NulFree n.toHex := by
  have hdigits : ∀ a : Fin 16, Char.ofNat 0 ≠ hexDigit a := by decide
  intro h
  rw [BankRefHash.toHex, String.toList_ofList, List.mem_flatMap] at h
  obtain ⟨b, -, hb⟩ := h
  have hlt := b.toNat_lt
  rw [List.mem_cons, List.mem_singleton] at hb
  obtain hb | hb := hb
  · exact hdigits ⟨b.toNat / 16, by omega⟩ hb
  · exact hdigits ⟨b.toNat % 16, by omega⟩ hb

/-! ## Deposits -/

/-- What the table can hold. -/
structure Deposit.Storable (d : Deposit) : Prop where
  amount_pos : 0 < d.amount.toNat
  amount_lt : d.amount.toNat < 2 ^ 63
  bankRef : NulFree d.bankRef.text
  beneficiary : NulFree d.beneficiary
  beneficiaryWallet : NulFree d.beneficiaryWallet

section Deposits

variable [Sha256]

/-- A deposit as a row. -/
def DepositRow.of (d : Deposit) : DepositRow where
  bankRefHash := d.nullifier.toHex
  bankRef := d.bankRef.text
  amountMinor := d.amount.minor.toInt64
  beneficiary := d.beneficiary
  beneficiaryWallet := d.beneficiaryWallet
  state := d.state.asStr
  observedAt := d.observedAt

def depositLayout : Layout BankRefHash Deposit DepositRow String where
  schema := PgDepositRepository.deposits
  col := BankRefHash.toHex
  enc := DepositRow.of
  col_inj := BankRefHash.toHex_inj

theorem DepositRow.key_of (d : Deposit) :
    depositLayout.schema.key (depositLayout.enc d) = depositLayout.col d.nullifier := rfl

/-- The table holds the deposits. -/
structure DepositsStored (rows : InMemoryDepositRepo) (table : List DepositRow) :
    Prop where
  stores : Stores depositLayout rows table
  storable : ∀ n d, rows.lookup n = some d → d.Storable

theorem Deposit.nullifier_of_origin {d d' : Deposit} (h : d.origin = d'.origin) :
    d.nullifier = d'.nullifier := by
  have href : d.bankRef = d'.bankRef := congrArg Prod.fst h
  rw [Deposit.nullifier, href]
  rfl

theorem rowToDeposit_of {d : Deposit} (hd : d.amount.toNat < 2 ^ 63) :
    PgDepositRepository.rowToDeposit (.of d) = .ok d := by
  have href : domain (BankRef.new d.bankRef.text) = .ok d.bankRef := by
    rw [BankRef.new_text]
    rfl
  show (do
    let bankRef ← domain (BankRef.new d.bankRef.text)
    let amount ← fromI64 d.amount.minor.toInt64
    let state ← parseDepositState d.state.asStr
    return (⟨bankRef, amount, d.beneficiary, d.beneficiaryWallet, state,
      d.observedAt⟩ : Deposit)) = _
  rw [href, fromI64_toInt64 hd, parseDepositState_asStr]
  rfl

theorem Deposit.Storable.checks {d : Deposit} (h : d.Storable) :
    depositLayout.schema.violated (depositLayout.enc d) = none := by
  have hpos : (0 : Int64) < d.amount.minor.toInt64 := by
    rw [Int64.lt_iff_toInt_lt, toInt_toInt64 h.amount_lt]
    exact Int.ofNat_lt.mpr h.amount_pos
  have hstate : d.state.asStr ∈
      ["observed", "screened", "attested", "issued", "encumbered", "disputed"] := by
    cases d.state <;> decide
  refine Schema.violated_of_checks ?_
  show ∀ c ∈ [_, _], _
  rw [List.forall_mem_cons, List.forall_mem_singleton]
  exact ⟨decide_eq_true hpos, decide_eq_true hstate⟩

theorem Deposit.Storable.insert_eq {d : Deposit} (h : d.Storable)
    (table : List DepositRow) :
    PgDepositRepository.insert table d =
      execute table (query (depositLayout.schema.insert (depositLayout.enc d) table)) := by
  have hstate : NulFree d.state.asStr := by cases d.state <;> decide
  show execute table (do
    let amount ← toI64 d.amount
    query (do
      let hash ← toText d.nullifier.toHex
      let bankRef ← toText d.bankRef.text
      let beneficiary ← toText d.beneficiary
      let wallet ← toText d.beneficiaryWallet
      let state ← toText d.state.asStr
      depositLayout.schema.insert
        ⟨hash, bankRef, amount, beneficiary, wallet, state, d.observedAt⟩ table)) = _
  rw [toI64_of_lt h.amount_lt, toText_ok (nulFree_toHex _), toText_ok h.bankRef,
    toText_ok h.beneficiary, toText_ok h.beneficiaryWallet, toText_ok hstate]
  rfl

theorem Deposit.Storable.update_eq {d : Deposit} (h : d.Storable)
    (table : List DepositRow) :
    PgDepositRepository.update table d =
      executeFound table (query (depositLayout.schema.update
        (fun r => depositLayout.schema.key r = depositLayout.col d.nullifier)
        (fun r => { r with
          amountMinor := d.amount.minor.toInt64
          state := d.state.asStr }) table)) := by
  have hstate : NulFree d.state.asStr := by cases d.state <;> decide
  show executeFound table (do
    let amount ← toI64 d.amount
    query (do
      let hash ← toText d.nullifier.toHex
      let state ← toText d.state.asStr
      depositLayout.schema.update (fun r : DepositRow => r.bankRefHash = hash)
        (fun r => { r with amountMinor := amount, state }) table)) = _
  rw [toI64_of_lt h.amount_lt, toText_ok (nulFree_toHex _), toText_ok hstate]
  rfl

namespace DepositsStored

variable {rows : InMemoryDepositRepo} {table : List DepositRow}

theorem keyed (h : DepositsStored rows table) {n : BankRefHash} {d : Deposit}
    (hd : rows.lookup n = some d) : d.nullifier = n :=
  BankRefHash.toHex_inj (h.stores.keyed n d hd)

theorem storable_insert (h : DepositsStored rows table) {d : Deposit}
    (hd : d.Storable) (n : BankRefHash) (d' : Deposit)
    (hd' : (AList.insert d.nullifier d rows).lookup n = some d') : d'.Storable :=
  AList.lookup_insert_all (P := fun _ d => d.Storable) h.storable hd n d' hd'

theorem insert (h : DepositsStored rows table) {d : Deposit} (hd : d.Storable) :
    Matches (rows.insert d).1 (PgDepositRepository.insert table d).1 ∧
      DepositsStored (rows.insert d).2 (PgDepositRepository.insert table d).2 := by
  rw [hd.insert_eq]
  obtain ⟨row, text, hrow, hins⟩ | ⟨hnone, hins⟩ := rows.insert_cases d
  · obtain ⟨text', htaken⟩ := h.stores.insert_taken
      (Option.isSome_iff_exists.mpr ⟨row, hrow⟩) (DepositRow.key_of d) hd.checks
    rw [hins, htaken]
    exact ⟨.inr ⟨text, text', rfl, rfl⟩, h⟩
  · obtain ⟨hfree, hstores⟩ := h.stores.insert_free hnone (DepositRow.key_of d) hd.checks
    rw [hins, hfree]
    exact ⟨.inl rfl, hstores, h.storable_insert hd⟩

theorem find (h : DepositsStored rows table) (n : BankRefHash) :
    PgDepositRepository.find table n = rows.find n := by
  have hfilter : (table.filter fun r => r.bankRefHash = n.toHex) = _ :=
    h.stores.filter_key n
  unfold PgDepositRepository.find
  rw [toText_ok (nulFree_toHex n), query_ok]
  refine (pure_bind _ _).trans ?_
  rw [hfilter, InMemoryDepositRepo.find]
  cases hn : rows.lookup n with
  | none => rfl
  | some d =>
      show (do return some (← PgDepositRepository.rowToDeposit (.of d))) = _
      rw [rowToDeposit_of (h.storable n d hn).amount_lt]
      rfl

/-- What `update` leaves alone is what it was. -/
theorem update (h : DepositsStored rows table) {d old : Deposit} (hd : d.Storable)
    (hold : rows.lookup d.nullifier = some old) (horigin : old.origin = d.origin) :
    (rows.update d).1 = (PgDepositRepository.update table d).1 ∧
      DepositsStored (rows.update d).2 (PgDepositRepository.update table d).2 := by
  obtain ⟨table', hupdate, hstores⟩ := h.stores.update_key hold
    (fun r : DepositRow => { r with
      amountMinor := d.amount.minor.toInt64
      state := d.state.asStr })
    (by cases old; cases d; cases horigin; rfl) (DepositRow.key_of d) hd.checks
  obtain ⟨hnone, -⟩ | ⟨row, -, hmem⟩ := rows.update_cases d
  · rw [hnone] at hold
    cases hold
  · rw [hmem, hd.update_eq, hupdate]
    exact ⟨rfl, hstores, h.storable_insert hd⟩

theorem amount_of_mem (h : DepositsStored rows table) {d : Deposit}
    (hd : d ∈ rows.values) : d.amount.toNat < 2 ^ 63 := by
  obtain ⟨n, hn⟩ := AList.mem_values.mp hd
  exact (h.storable n d hn).amount_lt

theorem total (h : DepositsStored rows table)
    (hfit : rows.amountOf (fun _ => true) < 2 ^ 63) {states : List String}
    {p : Deposit → Bool} (hp : ∀ d : Deposit, decide (d.state.asStr ∈ states) = p d) :
    PgDepositRepository.total states table = rows.total p := by
  have hle : rows.amountOf p ≤ rows.amountOf fun _ => true := by
    refine AList.tally_mono fun n => ?_
    cases hn : rows.lookup n with
    | none => rw [AList.weight_of_none hn]; exact Nat.zero_le _
    | some d =>
        rw [AList.weight_of_lookup hn, AList.weight_of_lookup hn, if_pos rfl]
        split <;> omega
  obtain ⟨n, hsum, hn⟩ := h.stores.sumBigint (p := fun r => r.state ∈ states) (q := p)
    (f := DepositRow.amountMinor) (g := fun d => d.amount.toNat) hp
    (fun d hd => toInt_toInt64 (h.amount_of_mem hd)) (Nat.lt_of_le_of_lt hle hfit)
  obtain ⟨t, ht, htotal⟩ := fromI64_toInt hn
  show (do
    let total ← query (sumBigint DepositRow.amountMinor
      (table.filter fun r => r.state ∈ states))
    fromI64 total) = _
  rw [hsum, query_ok, InMemoryDepositRepo.total_ok.mpr htotal]
  exact ht

theorem totalEncumbered (h : DepositsStored rows table)
    (hfit : rows.amountOf (fun _ => true) < 2 ^ 63) :
    PgDepositRepository.totalEncumbered table = rows.totalEncumbered := by
  refine h.total hfit fun d => ?_
  unfold Deposit.isEncumbering
  cases d.state <;> decide

theorem totalIssued (h : DepositsStored rows table)
    (hfit : rows.amountOf (fun _ => true) < 2 ^ 63) :
    PgDepositRepository.totalIssued table = rows.totalIssued := by
  refine h.total hfit fun d => ?_
  cases d.state <;> decide

theorem held (h : DepositsStored rows table) (rank : BankRefHash → ℕ)
    (tie : DepositRow → ℕ) :
    MatchesSet (rows.held rank) (PgDepositRepository.held table tie) := by
  obtain ⟨ds, hds, hperm⟩ := h.stores.decode (p := fun r => r.state = "screened")
    (q := fun d => d.state = .screened)
    (fun d hd => rowToDeposit_of (h.amount_of_mem hd))
    (fun d _ => decide_eq_decide.mpr
      (DepositState.asStr_inj.eq_iff (a := d.state) (b := .screened)))
    (orderBy_perm DepositRow.observedAt tie _)
  exact ⟨_, ds, rfl, hds, (List.perm_insertionSort _ _).trans hperm.symm⟩

end DepositsStored

end Deposits

/-! ## Redemptions -/

/-- What the table can hold, by its columns and its checks. -/
structure Redemption.Storable (r : Redemption) : Prop where
  user : NulFree r.user
  seq_pos : 0 < r.seq.toNat
  seq_lt : r.seq.toNat < 2 ^ 63
  amount_pos : 0 < r.amount.toNat
  amount_lt : r.amount.toNat < 2 ^ 63
  delta_pos : 0 < r.deltaSecs
  escrowed : r.state = .requested ∨ r.state = .failed ∨ r.escrowedAt.isSome
  since_nonneg : ∀ since, r.escrowedAt = some since → 0 ≤ since.toInt

/-- A redemption as a row. -/
def RedemptionRow.of (r : Redemption) : RedemptionRow where
  userId := r.user
  seq := r.seq.toInt64
  amountMinor := r.amount.minor.toInt64
  state := r.state.asStr
  requestedAt := r.requestedAt
  escrowedAt := r.escrowedAt
  deltaSecs := r.deltaSecs

theorem seqKey_inj :
    Function.Injective fun k : String × UInt64 => (k.1, k.2.toInt64) := by
  intro k k' h
  obtain ⟨huser, hseq⟩ := Prod.mk.inj h
  have hseq := congrArg Int64.toUInt64 hseq
  rw [UInt64.toUInt64_toInt64, UInt64.toUInt64_toInt64] at hseq
  exact Prod.ext huser hseq

def redemptionLayout :
    Layout (String × UInt64) Redemption RedemptionRow (String × Int64) where
  schema := PgRedemptionRepository.redemptions
  col k := (k.1, k.2.toInt64)
  enc := RedemptionRow.of
  col_inj := seqKey_inj

theorem RedemptionRow.key_of (r : Redemption) :
    redemptionLayout.schema.key (redemptionLayout.enc r) =
      redemptionLayout.col r.key := rfl

/-- The table holds the redemptions. -/
structure RedemptionsStored (rows : InMemoryRedemptionRepo)
    (table : List RedemptionRow) : Prop where
  stores : Stores redemptionLayout rows table
  keyed : ∀ k r, rows.lookup k = some r → r.key = k
  storable : ∀ k r, rows.lookup k = some r → r.Storable

theorem rowToRedemption_of {r : Redemption} (hr : r.Storable) :
    PgRedemptionRepository.rowToRedemption (.of r) = .ok r := by
  show (do
    let seq ← orRefuse (tryFromI64 r.seq.toInt64)
      (.rejected s!"negative seq {r.seq.toInt64}")
    let amount ← fromI64 r.amount.minor.toInt64
    let state ← parseRedemptionState r.state.asStr
    return (⟨r.user, seq, amount, state, r.requestedAt, r.escrowedAt,
      r.deltaSecs⟩ : Redemption)) = _
  rw [tryFromI64_toInt64 hr.seq_lt, fromI64_toInt64 hr.amount_lt,
    parseRedemptionState_asStr]
  rfl

theorem Redemption.Storable.isSome {r : Redemption} (hr : r.Storable)
    (hp : r.state.isPending = true) : r.escrowedAt.isSome = true := by
  obtain hs | hs | hs := hr.escrowed
  · exact absurd hs (RedemptionState.ne_of_isPending hp).1
  · exact absurd hs (RedemptionState.ne_of_isPending hp).2
  · exact hs

/-- With times that are not negative no subtraction in the condition fails. -/
theorem Redemption.isDue_of {r : Redemption}
    (hesc : r.state.isPending = true → r.escrowedAt.isSome = true)
    (hsince : ∀ since, r.escrowedAt = some since → 0 ≤ since.toInt) {now : Int64}
    (hnow : 0 ≤ now.toInt) :
    PgRedemptionRepository.isDue now (.of r) = .ok (r.isReclaimable now) := by
  have hin : r.state.asStr ∈ ["escrowed", "payout_queued"] ↔
      r.state.isPending = true := by
    cases r.state <;> decide
  by_cases hp : r.state.isPending = true
  · obtain ⟨since, hat⟩ := Option.isSome_iff_exists.mp (hesc hp)
    have hpos := hsince since hat
    have hlt := now.toInt_lt
    have hlt' := since.toInt_lt
    obtain ⟨age, hage, hto⟩ := toBigint_of_le (n := now.toInt - since.toInt)
      (by omega) (by omega)
    have hiff : r.deltaSecs ≤ age ↔ r.isReclaimable now = true := by
      rw [isReclaimable_of_nonneg hat hpos hnow, Int64.le_iff_toInt_le,
        hto]
      refine ⟨fun h => ⟨hp, by omega⟩, fun h => ?_⟩
      have := h.2
      omega
    unfold PgRedemptionRepository.isDue RedemptionRow.of
    rw [if_pos (hin.mpr hp)]
    simp only [hat, hage]
    refine congrArg Except.ok ?_
    rw [Bool.eq_iff_iff, decide_eq_true_iff]
    exact hiff
  · have hno : r.isReclaimable now = false := by
      rw [isReclaimable, Bool.eq_false_iff.mpr hp, Bool.false_and]
    rw [hno]
    exact if_neg fun h => hp (hin.mp h)

theorem Redemption.Storable.checks {r : Redemption} (h : r.Storable) :
    redemptionLayout.schema.violated (redemptionLayout.enc r) = none := by
  have hseq : (0 : Int64) < r.seq.toInt64 := by
    rw [Int64.lt_iff_toInt_lt, toInt_toInt64 h.seq_lt]
    exact Int.ofNat_lt.mpr h.seq_pos
  have hamount : (0 : Int64) < r.amount.minor.toInt64 := by
    rw [Int64.lt_iff_toInt_lt, toInt_toInt64 h.amount_lt]
    exact Int.ofNat_lt.mpr h.amount_pos
  have hescrow : (decide (r.state.asStr ∈ ["requested", "failed"]) ||
      r.escrowedAt.isSome) = true := by
    obtain hs | hs | hs := h.escrowed
    · rw [hs]; rfl
    · rw [hs]; rfl
    · rw [hs, Bool.or_true]
  have hstate : r.state.asStr ∈ ["requested", "escrowed", "payout_queued",
      "confirmed", "reclaimed", "failed"] := by
    cases r.state <;> decide
  refine Schema.violated_of_checks ?_
  show ∀ c ∈ [_, _, _, _, _], _
  rw [List.forall_mem_cons, List.forall_mem_cons, List.forall_mem_cons,
    List.forall_mem_cons, List.forall_mem_singleton]
  exact ⟨hescrow, decide_eq_true hamount, decide_eq_true h.delta_pos,
    decide_eq_true hseq, decide_eq_true hstate⟩

theorem RedemptionState.nulFree_asStr (s : RedemptionState) : NulFree s.asStr := by
  cases s <;> decide

theorem Redemption.Storable.insert_eq {r : Redemption} (h : r.Storable)
    (table : List RedemptionRow) :
    PgRedemptionRepository.insert table r =
      execute table (query (redemptionLayout.schema.insert
        (redemptionLayout.enc r) table)) := by
  show execute table (do
    let seq ← orRefuse (tryFromU64 r.seq) (.rejected s!"seq {r.seq} exceeds BIGINT")
    let amount ← toI64 r.amount
    query (do
      let user ← toText r.user
      let state ← toText r.state.asStr
      redemptionLayout.schema.insert ⟨user, seq, amount, state, r.requestedAt,
        r.escrowedAt, r.deltaSecs⟩ table)) = _
  rw [tryFromU64_of_lt h.seq_lt, toI64_of_lt h.amount_lt, toText_ok h.user,
    toText_ok r.state.nulFree_asStr]
  rfl

theorem Redemption.Storable.update_eq {r : Redemption} (h : r.Storable)
    (table : List RedemptionRow) :
    PgRedemptionRepository.update table r =
      executeFound table (query (redemptionLayout.schema.update
        (fun row => redemptionLayout.schema.key row = redemptionLayout.col r.key)
        (fun row => { row with
          state := r.state.asStr
          escrowedAt := r.escrowedAt }) table)) := by
  show executeFound table (do
    let seq ← orRefuse (tryFromU64 r.seq) .notFound
    query (do
      let user ← toText r.user
      let state ← toText r.state.asStr
      redemptionLayout.schema.update
        (fun row : RedemptionRow => (row.userId, row.seq) = (user, seq))
        (fun row => { row with state, escrowedAt := r.escrowedAt }) table)) = _
  rw [tryFromU64_of_lt h.seq_lt, toText_ok h.user, toText_ok r.state.nulFree_asStr]
  rfl

namespace RedemptionsStored

variable {rows : InMemoryRedemptionRepo} {table : List RedemptionRow}

theorem insert_rows (h : RedemptionsStored rows table) {r : Redemption}
    (hr : r.Storable) {table' : List RedemptionRow}
    (hstores : Stores redemptionLayout (AList.insert r.key r rows) table') :
    RedemptionsStored (AList.insert r.key r rows) table' := by
  refine ⟨hstores, ?_, ?_⟩
  · exact AList.lookup_insert_all h.keyed rfl
  · exact AList.lookup_insert_all (P := fun _ (r : Redemption) => r.Storable) h.storable hr

theorem insert (h : RedemptionsStored rows table) {r : Redemption} (hr : r.Storable) :
    Matches (rows.insert r).1 (PgRedemptionRepository.insert table r).1 ∧
      RedemptionsStored (rows.insert r).2 (PgRedemptionRepository.insert table r).2 := by
  rw [hr.insert_eq]
  by_cases hk : r.key ∈ rows
  · obtain ⟨text, htaken⟩ := h.stores.insert_taken
      (AList.lookup_isSome.mpr hk) (RedemptionRow.key_of r) hr.checks
    rw [InMemoryRedemptionRepo.insert, if_pos hk, htaken]
    exact ⟨.inr ⟨_, text, rfl, rfl⟩, h⟩
  · obtain ⟨hfree, hstores⟩ := h.stores.insert_free (AList.lookup_eq_none.mpr hk)
      (RedemptionRow.key_of r) hr.checks
    rw [InMemoryRedemptionRepo.insert, if_neg hk, hfree]
    exact ⟨.inl rfl, h.insert_rows hr hstores⟩

theorem update (h : RedemptionsStored rows table) {r old : Redemption}
    (hr : r.Storable) (hold : rows.lookup r.key = some old)
    (horigin : old.origin = r.origin) :
    (rows.update r).1 = (PgRedemptionRepository.update table r).1 ∧
      RedemptionsStored (rows.update r).2 (PgRedemptionRepository.update table r).2 := by
  obtain ⟨table', hupdate, hstores⟩ := h.stores.update_key hold
    (fun row : RedemptionRow => { row with
      state := r.state.asStr
      escrowedAt := r.escrowedAt })
    (by cases old; cases r; cases horigin; rfl) (RedemptionRow.key_of r) hr.checks
  obtain ⟨hnone, -⟩ | ⟨row, -, hmem⟩ := rows.update_cases r
  · rw [hnone] at hold
    cases hold
  · rw [hmem, hr.update_eq, hupdate]
    exact ⟨rfl, h.insert_rows hr hstores⟩

/-- A sequence number that does not fit is answered before the database is
asked. -/
theorem find_of_ge {user : String} {seq : UInt64} (hseq : 2 ^ 63 ≤ seq.toNat) :
    PgRedemptionRepository.find table user seq = .error .notFound := by
  have hnone : tryFromU64 seq = none := if_neg (Nat.not_lt.mpr hseq)
  unfold PgRedemptionRepository.find
  rw [hnone]
  rfl

theorem find (h : RedemptionsStored rows table) {user : String} (huser : NulFree user)
    {seq : UInt64} (hseq : seq.toNat < 2 ^ 63) :
    PgRedemptionRepository.find table user seq = rows.find user seq := by
  have hfilter : (table.filter fun r =>
      (r.userId, r.seq) = (user, seq.toInt64)) = _ :=
    h.stores.filter_key (user, seq)
  unfold PgRedemptionRepository.find
  rw [tryFromU64_of_lt hseq, toText_ok huser, query_ok]
  refine (pure_bind (m := PortResult) _ _).trans ?_
  refine (pure_bind (m := PortResult) _ _).trans ?_
  rw [hfilter, InMemoryRedemptionRepo.find]
  cases hk : rows.lookup (user, seq) with
  | none => rfl
  | some r =>
      show (do return some (← PgRedemptionRepository.rowToRedemption (.of r))) = _
      rw [rowToRedemption_of (h.storable _ r hk)]
      rfl

theorem storable_of_mem (h : RedemptionsStored rows table) {r : Redemption}
    (hr : r ∈ rows.values) : r.Storable := by
  obtain ⟨k, hk⟩ := AList.mem_values.mp hr
  exact h.storable k r hk

theorem totalRedeemed (h : RedemptionsStored rows table)
    (hfit : (AList.tally (fun r => r.amount.toNat) rows) < 2 ^ 63) :
    PgRedemptionRepository.totalRedeemed table = rows.totalRedeemed := by
  have hweight : ∀ r : Redemption, r.supplyReduction.toNat =
      if decide (r.state = .confirmed) then r.amount.toNat else 0 := by
    intro r
    unfold Redemption.supplyReduction
    cases r.state <;> rfl
  have htally : (AList.tally (fun r : Redemption =>
      if decide (r.state = .confirmed) then r.amount.toNat else 0) rows) =
        rows.redeemed := by
    unfold InMemoryRedemptionRepo.redeemed
    simp only [hweight]
  have hle : rows.redeemed ≤ AList.tally (fun r => r.amount.toNat) rows := by
    refine AList.tally_mono fun k => ?_
    cases hk : rows.lookup k with
    | none => rw [AList.weight_of_none hk]; exact Nat.zero_le _
    | some r =>
        rw [AList.weight_of_lookup hk, AList.weight_of_lookup hk, hweight]
        split <;> omega
  obtain ⟨n, hsum, hn⟩ := h.stores.sumBigint (p := fun r => r.state = "confirmed")
    (q := fun r => r.state = .confirmed) (f := RedemptionRow.amountMinor)
    (g := fun r => r.amount.toNat)
    (fun r => decide_eq_decide.mpr
      (RedemptionState.asStr_inj.eq_iff (a := r.state) (b := .confirmed)))
    (fun r hr => toInt_toInt64 (h.storable_of_mem hr).amount_lt)
    (by rw [htally]; omega)
  rw [htally] at hn
  obtain ⟨t, ht, htotal⟩ := fromI64_toInt hn
  show (do
    let total ← query (sumBigint RedemptionRow.amountMinor
      (table.filter fun r : RedemptionRow => r.state = "confirmed"))
    fromI64 total) = _
  rw [hsum, query_ok, InMemoryRedemptionRepo.totalRedeemed_ok.mpr htotal]
  exact ht

/-- Every redemption is of at least one minor unit, so there are no more of them
than units. -/
theorem length_le (h : RedemptionsStored rows table) (p : Redemption → Bool) :
    (rows.values.filter p).length ≤ AList.tally (fun r => r.amount.toNat) rows := by
  rw [AList.length_filter_values]
  refine AList.tally_mono fun k => ?_
  cases hk : rows.lookup k with
  | none => rw [AList.weight_of_none hk]; exact Nat.zero_le _
  | some r =>
      have hpos := (h.storable k r hk).amount_pos
      rw [AList.weight_of_lookup hk, AList.weight_of_lookup hk]
      split <;> omega

theorem pendingCount (h : RedemptionsStored rows table)
    (hfit : (AList.tally (fun r => r.amount.toNat) rows) < 2 ^ 63) :
    PgRedemptionRepository.pendingCount table = rows.pendingCount := by
  have hle := h.length_le fun r => r.state.isPending
  obtain ⟨n, hcount, hn⟩ := h.stores.countBigint
    (p := fun r => r.state ∈ ["escrowed", "payout_queued"])
    (q := fun r => r.state.isPending)
    (fun r => by
      show decide (r.state.asStr ∈ ["escrowed", "payout_queued"]) = _
      cases r.state <;> decide) (by omega)
  have hto : PgRedemptionRepository.toU32OfI64 n =
      toU32 (rows.values.filter fun r => r.state.isPending).length := by
    unfold PgRedemptionRepository.toU32OfI64 toU32
    rw [hn, Int.toNat_natCast]
    split
    · next hlt => rw [Nat.min_eq_left (by omega)]
    · next hge => rw [Nat.min_eq_right (by omega)]; rfl
  show (do
    let n ← query (countBigint (table.filter fun r : RedemptionRow =>
      r.state ∈ ["escrowed", "payout_queued"]))
    return PgRedemptionRepository.toU32OfI64 n) = _
  rw [hcount, query_ok, InMemoryRedemptionRepo.pendingCount, ← hto]
  rfl

theorem reclaimable (h : RedemptionsStored rows table) (rank : String × UInt64 → ℕ)
    (tie : RedemptionRow → ℕ) {now : Int64} (hnow : 0 ≤ now.toInt) :
    MatchesSet (rows.reclaimable rank now)
      (PgRedemptionRepository.reclaimable table tie now) := by
  have hdue : ∀ row ∈ table, PgRedemptionRepository.isDue now row =
      .ok ((PgRedemptionRepository.isDue now row).toOption.getD false) := by
    intro row hrow
    obtain ⟨r, hr, rfl⟩ := List.mem_map.mp (h.stores.perm.subset hrow)
    show PgRedemptionRepository.isDue now (.of r) =
      .ok ((PgRedemptionRepository.isDue now (.of r)).toOption.getD false)
    rw [Redemption.isDue_of (h.storable_of_mem hr).isSome (h.storable_of_mem hr).since_nonneg hnow]
    rfl
  obtain ⟨rs, hrs, hperm⟩ := h.stores.decode
    (p := fun row => (PgRedemptionRepository.isDue now row).toOption.getD false)
    (q := fun r => r.isReclaimable now)
    (fun r hr => rowToRedemption_of (h.storable_of_mem hr))
    (fun r hr => by
      show (PgRedemptionRepository.isDue now (.of r)).toOption.getD false = _
      rw [Redemption.isDue_of (h.storable_of_mem hr).isSome (h.storable_of_mem hr).since_nonneg hnow]
      rfl)
    (orderBy_perm (fun r => r.escrowedAt.getD 0) tie _)
  refine ⟨_, rs, rfl, ?_, (List.perm_insertionSort _ _).trans hperm.symm⟩
  unfold PgRedemptionRepository.reclaimable
  rw [selectWhere_ok hdue]
  exact hrs

theorem nextSeq (h : RedemptionsStored rows table) {user : String}
    (huser : NulFree user) :
    PgRedemptionRepository.nextSeq table user = rows.nextSeq user := by
  generalize hseqs : (rows.keys.filter fun k => k.1 = user).map Prod.snd = seqs
  have hlookup : ∀ n, n ∈ seqs ↔ ∃ r, rows.lookup (user, n) = some r := by
    intro n
    rw [← hseqs, List.mem_map]
    refine ⟨fun ⟨k, hk, hn⟩ => ?_, fun ⟨r, hr⟩ => ?_⟩
    · obtain ⟨hkeys, huser⟩ := List.mem_filter.mp hk
      obtain ⟨r, hr⟩ := Option.isSome_iff_exists.mp
        (AList.lookup_isSome.mpr (AList.mem_keys.mpr hkeys))
      refine ⟨r, ?_⟩
      rw [← hn, ← of_decide_eq_true huser]
      exact hr
    · refine ⟨(user, n), List.mem_filter.mpr ⟨?_, decide_eq_true rfl⟩, rfl⟩
      exact AList.mem_keys.mp (AList.lookup_isSome.mp (Option.isSome_iff_exists.mpr ⟨r, hr⟩))
  have hlt : ∀ n ∈ seqs, n.toNat < 2 ^ 63 := by
    intro n hn
    obtain ⟨r, hr⟩ := (hlookup n).mp hn
    have hkey := h.keyed _ r hr
    have hseq : r.seq = n := congrArg Prod.snd hkey
    rw [← hseq]
    exact (h.storable _ r hr).seq_lt
  have hcolumn : ∀ v, v ∈ (table.filter fun r => r.userId = user).map RedemptionRow.seq ↔
      ∃ n ∈ seqs, n.toInt64 = v := by
    intro v
    have hrows : ∀ row, row ∈ (table.filter fun r => r.userId = user) ↔
        ∃ r, (∃ k, rows.lookup k = some r) ∧ r.user = user ∧ .of r = row := by
      intro row
      rw [List.mem_filter, h.stores.perm.mem_iff, List.mem_map]
      refine ⟨fun ⟨⟨r, hr, hrow⟩, huser⟩ => ?_, fun ⟨r, hr, huser, hrow⟩ => ?_⟩
      · subst hrow
        exact ⟨r, AList.mem_values.mp hr, of_decide_eq_true huser, rfl⟩
      · subst hrow
        exact ⟨⟨r, AList.mem_values.mpr hr, rfl⟩, decide_eq_true huser⟩
    rw [List.mem_map]
    refine ⟨fun ⟨row, hrow, hv⟩ => ?_, fun ⟨n, hn, hv⟩ => ?_⟩
    · obtain ⟨r, ⟨k, hk⟩, huser, rfl⟩ := (hrows row).mp hrow
      have hkey := h.keyed k r hk
      refine ⟨r.seq, (hlookup r.seq).mpr ⟨r, ?_⟩, hv⟩
      rw [← huser]
      show rows.lookup r.key = some r
      rw [hkey]
      exact hk
    · obtain ⟨r, hr⟩ := (hlookup n).mp hn
      obtain ⟨huser, hseq⟩ := Prod.mk.inj (h.keyed _ r hr)
      refine ⟨.of r, (hrows _).mpr ⟨r, ⟨_, hr⟩, huser, rfl⟩, ?_⟩
      rw [← hv, ← hseq]
      rfl
  show (do
    let user ← query (toText user)
    let max := maxBigint RedemptionRow.seq (table.filter fun r => r.userId = user)
    return (tryFromI64 max).getD 0 + 1) = _
  rw [toText_ok huser, query_ok, InMemoryRedemptionRepo.nextSeq, hseqs]
  show Except.ok ((tryFromI64 (maxBigint RedemptionRow.seq
    (table.filter fun r => r.userId = user))).getD 0 + 1) = _
  cases hmax : seqs.max? with
  | none =>
      obtain rfl := List.max?_eq_none_iff.mp hmax
      have hnil : (table.filter fun r => r.userId = user).map RedemptionRow.seq = [] := by
        refine List.eq_nil_iff_forall_not_mem.mpr fun v hv => ?_
        obtain ⟨n, hn, -⟩ := (hcolumn v).mp hv
        cases hn
      rw [maxBigint, hnil]
      rfl
  | some m =>
      obtain ⟨hm, hle⟩ := List.max?_eq_some_iff.mp hmax
      have hto : ((table.filter fun r => r.userId = user).map RedemptionRow.seq).max? =
          some m.toInt64 := by
        refine List.max?_eq_some_iff.mpr ⟨(hcolumn _).mpr ⟨m, hm, rfl⟩, fun v hv => ?_⟩
        obtain ⟨n, hn, rfl⟩ := (hcolumn v).mp hv
        rw [Int64.le_iff_toInt_le, toInt_toInt64 (hlt n hn), toInt_toInt64 (hlt m hm)]
        exact Int.ofNat_le.mpr (UInt64.le_iff_toNat_le.mp (hle n hn))
      rw [maxBigint, hto, Option.getD_some, tryFromI64_toInt64 (hlt m hm)]
      rfl

end RedemptionsStored

end Thbc
