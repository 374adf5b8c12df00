import Thbc.Proofs.Stored
import Thbc.System.World
import Thbc.System.Repositories

/-!
# The repositories are interchangeable

A client that makes the calls the services make cannot tell the in-memory
repositories from the Postgres ones, but for one call: a `find` with a sequence
number that no `BIGINT` holds finds nothing in the one and is `NotFound` in the
other.

What the client has in hand stays good for an update because the methods leave
`origin` alone (`origin_after`), which is all that `update` does not write, and
because no row is ever deleted.
-/

namespace Thbc

open Thbc.Lib

/-! ## What the methods leave alone -/

/-- What does not change is no worse, and the amount is as large as one likes. -/
theorem Deposit.Storable.after {d : Deposit} (hd : d.Storable)
    (ms : List Deposit.Method) (hlt : (after invoke d ms).amount.toNat < 2 ^ 63) :
    (after invoke d ms).Storable := by
  have horigin := d.origin_after ms
  obtain ⟨href, hrest⟩ := Prod.mk.inj horigin
  obtain ⟨hbeneficiary, hrest⟩ := Prod.mk.inj hrest
  obtain ⟨hwallet, -⟩ := Prod.mk.inj hrest
  refine ⟨amount_pos_after hd.amount_pos ms, hlt, ?_, ?_, ?_⟩
  · rw [href]; exact hd.bankRef
  · rw [hbeneficiary]; exact hd.beneficiary
  · rw [hwallet]; exact hd.beneficiaryWallet

/-- The checks of the table hold of every record, whatever its client calls. -/
theorem Redemption.Storable.after {r : Redemption} (hr : r.Storable)
    {ms : List Redemption.Method} (hms : ∀ m ∈ ms, m.Timely) :
    (after invoke r ms).Storable := by
  refine after_induct (J := Redemption.Storable) (fun r m r' hmem h hm => ?_) hr
  have horigin := invoke_origin hm
  obtain ⟨hgoes, hstamp⟩ := invoke_goes hm
  obtain ⟨user, seq, amount, s, requestedAt, since, deltaSecs⟩ := r
  obtain ⟨user', seq', amount', s', requestedAt', since', deltaSecs'⟩ := r'
  cases horigin
  cases hstamp
  have hpending : s.isPending = true → since.isSome = true := h.isSome
  cases hgoes with
  | land now =>
      refine { h with escrowed := .inr (.inr rfl), since_nonneg := ?_ }
      intro t ht
      rw [← Option.some.inj ht]
      exact hms _ hmem
  | fail now => exact { h with escrowed := .inr (.inl rfl) }
  | wait now => exact h
  | enqueue => exact { h with escrowed := .inr (.inr (hpending rfl)) }
  | confirm hp => exact { h with escrowed := .inr (.inr (hpending hp)) }
  | reclaim hp now => exact { h with escrowed := .inr (.inr (hpending hp)) }

theorem Redemption.Requested.storable {r : Redemption} (h : r.Requested) :
    r.Storable := by
  obtain ⟨⟨user, seq, amount, deltaSecs, now, hr⟩, hdelta, hamount, huser, hpos, hlt⟩ := h
  obtain ⟨hzero, rfl⟩ := request_ok.mp hr
  exact ⟨huser, hpos, hlt, hzero, hamount, hdelta, .inl rfl, fun _ h => by cases h⟩

section Client

variable [Sha256]

omit [Sha256] in
theorem Deposit.Observed.storable {d : Deposit} (h : d.Observed) : d.Storable := by
  obtain ⟨⟨bankRef, amount, beneficiary, wallet, now, hd⟩, hamount, htexts⟩ := h
  obtain ⟨hzero, -, rfl⟩ := observe_ok.mp hd
  exact ⟨hzero, hamount, htexts.1, htexts.2.1, htexts.2.2⟩

/-! ## One call -/

/-- What the client has in hand is in the stores, in another state at most. -/
structure InHand (h : History Repository Repository.Reply) (w : InMemoryRows) :
    Prop where
  deposits : ∀ d ∈ depositsInHand h, d.Storable ∧
    ∃ row, w.deposits.lookup d.nullifier = some row ∧ row.origin = d.origin
  redemptions : ∀ r ∈ redemptionsInHand h, r.Storable ∧
    ∃ row, w.redemptions.lookup r.key = some row ∧ row.origin = r.origin

structure Twins (h : History Repository Repository.Reply) (w : InMemoryRows)
    (w' : PgRows) : Prop where
  deposits : DepositsStored w.deposits w'.deposits
  redemptions : RedemptionsStored w.redemptions w'.redemptions
  inHand : InHand h w

/-- How the replies to one call may differ. -/
def Equivalent : (s : Repository) → s.Reply → s.Reply → Prop
  | .deposits (.insert _), x, y => Matches x y
  | .deposits .held, x, y => MatchesSet x y
  | .deposits _, x, y => x = y
  | .redemptions (.insert _), x, y => Matches x y
  | .redemptions (.reclaimable _), x, y => MatchesSet x y
  | .redemptions (.find _ seq), x, y =>
      if seq.toNat < 2 ^ 63 then x = y
      else x = .ok none ∧ y = .error .notFound
  | .redemptions _, x, y => x = y

/-- A call leaves the records where they are, and hands out some that are
there. -/
theorem InHand.step {h : History Repository Repository.Reply} {w w' : InMemoryRows}
    {a : Act Repository Repository.Reply} (hin : InHand h w)
    (hdep : ∀ n row, w.deposits.lookup n = some row →
      ∃ row', w'.deposits.lookup n = some row' ∧ row'.origin = row.origin)
    (hred : ∀ k row, w.redemptions.lookup k = some row →
      ∃ row', w'.redemptions.lookup k = some row' ∧ row'.origin = row.origin)
    (hnew : ∀ d ∈ handedDeposits a, d.Storable ∧
      w'.deposits.lookup d.nullifier = some d)
    (hnew' : ∀ r ∈ handedRedemptions a, r.Storable ∧
      w'.redemptions.lookup r.key = some r) : InHand (a :: h) w' := by
  refine ⟨fun d hd => ?_, fun r hr => ?_⟩
  · rw [depositsInHand, List.flatMap_cons, List.mem_append] at hd
    obtain hd | hd := hd
    · exact ⟨(hnew d hd).1, d, (hnew d hd).2, rfl⟩
    · obtain ⟨hstorable, row, hrow, horigin⟩ := hin.deposits d hd
      obtain ⟨row', hrow', hsame⟩ := hdep _ row hrow
      exact ⟨hstorable, row', hrow', hsame.trans horigin⟩
  · rw [redemptionsInHand, List.flatMap_cons, List.mem_append] at hr
    obtain hr | hr := hr
    · exact ⟨(hnew' r hr).1, r, (hnew' r hr).2, rfl⟩
    · obtain ⟨hstorable, row, hrow, horigin⟩ := hin.redemptions r hr
      obtain ⟨row', hrow', hsame⟩ := hred _ row hrow
      exact ⟨hstorable, row', hrow', hsame.trans horigin⟩

theorem InHand.read {h : History Repository Repository.Reply} {w : InMemoryRows}
    {a : Act Repository Repository.Reply} (hin : InHand h w)
    (hnew : ∀ d ∈ handedDeposits a, d.Storable ∧ w.deposits.lookup d.nullifier = some d)
    (hnew' : ∀ r ∈ handedRedemptions a, r.Storable ∧
      w.redemptions.lookup r.key = some r) : InHand (a :: h) w :=
  hin.step (fun _ row hrow => ⟨row, hrow, rfl⟩) (fun _ row hrow => ⟨row, hrow, rfl⟩)
    hnew hnew'

omit [Sha256] in
theorem origin_insert {K V O : Type} [DecidableEq K] {rows : HashMap K V} {k : K} {v : V}
    (origin : V → O) (hold : ∀ old, rows.lookup k = some old → origin old = origin v)
    (k' : K) (row : V) (hrow : rows.lookup k' = some row) :
    ∃ row', (AList.insert k v rows).lookup k' = some row' ∧ origin row' = origin row := by
  by_cases hk : k' = k
  · subst hk
    exact ⟨v, AList.lookup_insert _, (hold row hrow).symm⟩
  · exact ⟨row, (AList.lookup_insert_ne hk).trans hrow, rfl⟩

section Step

variable {h : History Repository Repository.Reply} {w : InMemoryRows} {w' : PgRows}

theorem Twins.deposits_step (ht : Twins h w w') (e : Orders) (m : DepositRepository)
    (hm : Permitted h w (.deposits m)) :
    Equivalent (.deposits m) (inMemory e (.deposits m) w).1
        (postgres e (.deposits m) w').1 ∧
      Twins (⟨.deposits m, (inMemory e (.deposits m) w).1⟩ :: h)
        (inMemory e (.deposits m) w).2 (postgres e (.deposits m) w').2 := by
  have hred : ∀ {a}, ∀ r ∈ handedRedemptions (⟨.deposits m, a⟩ : Act _ _),
      r.Storable ∧ w.redemptions.lookup r.key = some r := by
    intro a r hr
    cases hr
  have hmem : ∀ {n d}, w.deposits.lookup n = some d →
      d.Storable ∧ w.deposits.lookup d.nullifier = some d := by
    intro n d hd
    rw [ht.deposits.keyed hd]
    exact ⟨ht.deposits.storable n d hd, hd⟩
  cases m with
  | insert d =>
      have hd := hm.2.storable
      obtain ⟨hsame, hstored⟩ := ht.deposits.insert hd
      refine ⟨hsame, hstored, ht.redemptions, ?_⟩
      obtain ⟨row, text, -, hins⟩ | ⟨hnone, hins⟩ := w.deposits.insert_cases d
      · show InHand (⟨.deposits (.insert d), (w.deposits.insert d).1⟩ :: h)
          { w with deposits := (w.deposits.insert d).2 }
        rw [hins]
        exact ht.inHand.read (fun d' hd' => by cases hd') hred
      · show InHand (⟨.deposits (.insert d), (w.deposits.insert d).1⟩ :: h)
          { w with deposits := (w.deposits.insert d).2 }
        rw [hins]
        refine ht.inHand.step (origin_insert Deposit.origin fun old hold => ?_)
          (fun _ row hrow => ⟨row, hrow, rfl⟩) (fun d' hd' => ?_) hred
        · rw [hnone] at hold
          cases hold
        · rw [List.mem_singleton.mp hd']
          exact ⟨hd, AList.lookup_insert _⟩
  | find n =>
      refine ⟨(ht.deposits.find n).symm, ht.deposits, ht.redemptions,
        ht.inHand.read (fun d hd => ?_) hred⟩
      have hd : d ∈ handedDeposits ⟨.deposits (.find n), .ok (w.deposits.lookup n)⟩ := hd
      cases hn : w.deposits.lookup n with
      | none => rw [hn] at hd; cases hd
      | some row =>
          rw [hn] at hd
          rw [List.mem_singleton.mp hd]
          exact hmem hn
  | update d =>
      obtain ⟨-, hlt, d₀, hd₀, ms, rfl⟩ := hm
      obtain ⟨hstorable, old, hold, horigin⟩ := ht.inHand.deposits d₀ hd₀
      have hkeep := Deposit.origin_after d₀ ms
      have hd := hstorable.after ms hlt
      have hold' : w.deposits.lookup (after Deposit.invoke d₀ ms).nullifier = some old := by
        rw [Deposit.nullifier_of_origin hkeep]
        exact hold
      obtain ⟨hsame, hstored⟩ := ht.deposits.update hd hold' (horigin.trans hkeep.symm)
      refine ⟨hsame, hstored, ht.redemptions,
        ht.inHand.step (fun n row hrow => ?_) (fun _ row hrow => ⟨row, hrow, rfl⟩)
          (fun d' hd' => by cases hd') hred⟩
      obtain ⟨hnone, -⟩ | ⟨-, -, hupd⟩ := w.deposits.update_cases
        (after Deposit.invoke d₀ ms)
      · rw [hnone] at hold'
        cases hold'
      · show ∃ row', AList.lookup n (w.deposits.update (after Deposit.invoke d₀ ms)).2 =
          some row' ∧ _
        rw [hupd]
        refine origin_insert Deposit.origin (fun old' h' => ?_) n row hrow
        rw [hold'] at h'
        rw [← Option.some.inj h', horigin, hkeep]
  | totalEncumbered =>
      exact ⟨(ht.deposits.totalEncumbered hm.1).symm, ht.deposits, ht.redemptions,
        ht.inHand.read (fun d hd => by cases hd) hred⟩
  | held =>
      refine ⟨ht.deposits.held e.depositRank e.depositTie, ht.deposits, ht.redemptions,
        ht.inHand.read (fun d hd => ?_) hred⟩
      have hheld : w.deposits.held e.depositRank = .ok _ := rfl
      obtain ⟨-, n, hn⟩ := (InMemoryDepositRepo.mem_held hheld).mp hd
      exact hmem hn
  | totalIssued =>
      exact ⟨(ht.deposits.totalIssued hm.1).symm, ht.deposits, ht.redemptions,
        ht.inHand.read (fun d hd => by cases hd) hred⟩

theorem Twins.redemptions_step (ht : Twins h w w') (e : Orders)
    (m : RedemptionRepository) (hm : Permitted h w (.redemptions m)) :
    Equivalent (.redemptions m) (inMemory e (.redemptions m) w).1
        (postgres e (.redemptions m) w').1 ∧
      Twins (⟨.redemptions m, (inMemory e (.redemptions m) w).1⟩ :: h)
        (inMemory e (.redemptions m) w).2 (postgres e (.redemptions m) w').2 := by
  have hdep : ∀ {a}, ∀ d ∈ handedDeposits (⟨.redemptions m, a⟩ : Act _ _),
      d.Storable ∧ w.deposits.lookup d.nullifier = some d := by
    intro a d hd
    cases hd
  have hmem : ∀ {k r}, w.redemptions.lookup k = some r →
      r.Storable ∧ w.redemptions.lookup r.key = some r := by
    intro k r hr
    rw [ht.redemptions.keyed k r hr]
    exact ⟨ht.redemptions.storable k r hr, hr⟩
  cases m with
  | insert r =>
      have hr := hm.2.storable
      obtain ⟨hsame, hstored⟩ := ht.redemptions.insert hr
      refine ⟨hsame, ht.deposits, hstored, ?_⟩
      show InHand (⟨.redemptions (.insert r), (w.redemptions.insert r).1⟩ :: h)
        { w with redemptions := (w.redemptions.insert r).2 }
      obtain ⟨error, hins⟩ | ⟨hnone, hins⟩ := w.redemptions.insert_cases r
      · rw [hins]
        exact ht.inHand.read hdep (fun r' hr' => by cases hr')
      · rw [hins]
        refine ht.inHand.step (fun _ row hrow => ⟨row, hrow, rfl⟩)
          (origin_insert Redemption.origin fun old hold => ?_) hdep (fun r' hr' => ?_)
        · rw [hnone] at hold
          cases hold
        · rw [List.mem_singleton.mp hr']
          exact ⟨hr, AList.lookup_insert _⟩
  | find user seq =>
      refine ⟨?_, ht.deposits, ht.redemptions, ht.inHand.read hdep fun r hr => ?_⟩
      · show if seq.toNat < 2 ^ 63 then _ else _
        split
        · next hlt => exact (ht.redemptions.find hm.2 hlt).symm
        · next hge =>
            refine ⟨?_, RedemptionsStored.find_of_ge (Nat.not_lt.mp hge)⟩
            cases hk : w.redemptions.lookup (user, seq) with
            | none => exact congrArg Except.ok hk
            | some row =>
                have hseq : row.seq = seq :=
                  congrArg Prod.snd (ht.redemptions.keyed _ row hk)
                rw [← hseq] at hge
                exact absurd (ht.redemptions.storable _ row hk).seq_lt hge
      · have hr : r ∈ handedRedemptions ⟨.redemptions (.find user seq),
          .ok (w.redemptions.lookup (user, seq))⟩ := hr
        cases hk : w.redemptions.lookup (user, seq) with
        | none => rw [hk] at hr; cases hr
        | some row =>
            rw [hk] at hr
            rw [List.mem_singleton.mp hr]
            exact hmem hk
  | update r =>
      obtain ⟨-, r₀, hr₀, ms, hms, rfl⟩ := hm
      obtain ⟨hstorable, old, hold, horigin⟩ := ht.inHand.redemptions r₀ hr₀
      have hkeep := Redemption.origin_after r₀ ms
      have hkey : (after Redemption.invoke r₀ ms).key = r₀.key := congrArg Prod.fst hkeep
      have hold' : w.redemptions.lookup (after Redemption.invoke r₀ ms).key =
          some old := by
        rw [hkey]
        exact hold
      obtain ⟨hsame, hstored⟩ := ht.redemptions.update (hstorable.after hms) hold'
        (horigin.trans hkeep.symm)
      refine ⟨hsame, ht.deposits, hstored,
        ht.inHand.step (fun _ row hrow => ⟨row, hrow, rfl⟩) (fun k row hrow => ?_)
          hdep (fun r' hr' => by cases hr')⟩
      obtain ⟨hnone, -⟩ | ⟨-, -, hupd⟩ := w.redemptions.update_cases
        (after Redemption.invoke r₀ ms)
      · rw [hnone] at hold'
        cases hold'
      · show ∃ row', AList.lookup k
          (w.redemptions.update (after Redemption.invoke r₀ ms)).2 = some row' ∧ _
        rw [hupd]
        refine origin_insert Redemption.origin (fun old' h' => ?_) k row hrow
        rw [hold'] at h'
        rw [← Option.some.inj h', horigin, hkeep]
  | nextSeq user =>
      exact ⟨(ht.redemptions.nextSeq hm.2).symm, ht.deposits, ht.redemptions,
        ht.inHand.read hdep (fun r hr => by cases hr)⟩
  | reclaimable now =>
      refine ⟨ht.redemptions.reclaimable e.redemptionRank e.redemptionTie hm.2,
        ht.deposits, ht.redemptions, ht.inHand.read hdep fun r hr => ?_⟩
      have hdue : w.redemptions.reclaimable e.redemptionRank now = .ok _ := rfl
      obtain ⟨-, k, hk⟩ := (InMemoryRedemptionRepo.mem_reclaimable hdue).mp hr
      exact hmem hk
  | totalRedeemed =>
      exact ⟨(ht.redemptions.totalRedeemed hm.2).symm, ht.deposits, ht.redemptions,
        ht.inHand.read hdep (fun r hr => by cases hr)⟩
  | pendingCount =>
      exact ⟨(ht.redemptions.pendingCount hm.2).symm, ht.deposits, ht.redemptions,
        ht.inHand.read hdep (fun r hr => by cases hr)⟩

end Step

theorem twins_empty : Twins [] .empty .empty where
  deposits := ⟨.empty depositLayout, fun n d h => (by cases h)⟩
  redemptions := ⟨.empty redemptionLayout, fun k r h => (by cases h),
    fun k r h => (by cases h)⟩
  inHand := ⟨fun d h => (by cases h), fun r h => (by cases h)⟩

/-- Over empty stores, the replies to any calls of the client agree, one by
one. -/
theorem replies_equivalent {cs : List (Orders × Repository)}
    (hcs : Handler.Session inMemory Permitted [] .empty cs) :
    List.Forall₂ (Alike Equivalent) (Handler.replies inMemory .empty cs)
      (Handler.replies postgres .empty cs) := by
  refine replies_alike (R := Twins) (fun h w w' e s ht hs => ?_) twins_empty hcs
  cases s with
  | deposits m => exact ht.deposits_step e m hs
  | redemptions m => exact ht.redemptions_step e m hs

end Client

open Sample

def Sample.orders : Orders := ⟨fun _ => 0, fun _ => 0, fun _ => 0, fun _ => 0⟩

/-- A deposit written, screened and looked up, and a redemption written, escrowed
and looked up. -/
def Sample.session : List (Orders × Repository) :=
  let d : Deposit := ⟨scb1, ⟨100⟩, "alice", "alice", .observed, 0⟩
  let r : Redemption := ⟨"alice", 1, ⟨100⟩, .requested, 0, none, 86400⟩
  [(orders, .deposits (.insert d)),
    (orders, .deposits (.update { d with state := .screened })),
    (orders, .deposits .held),
    (orders, .redemptions (.insert r)),
    (orders, .redemptions (.update { r with state := .escrowed, escrowedAt := some 5 })),
    (orders, .redemptions (.find "alice" 1))]

theorem replies_equivalent_session :
    (Handler.replies inMemory .empty session).length = 6 ∧
      List.Forall₂ (Alike Equivalent) (Handler.replies inMemory .empty session)
        (Handler.replies postgres .empty session) := by
  refine ⟨rfl, replies_equivalent
    ⟨⟨by decide, ⟨scb1, ⟨100⟩, "alice", "alice", 0, rfl⟩, by decide, by decide,
      by decide, by decide⟩,
    ⟨by decide, by decide, _, List.mem_cons_self, [.screen .pass], rfl⟩,
    (by decide : InMemoryRows.Fits _),
    ⟨by decide, ⟨"alice", 1, ⟨100⟩, 86400, 0, rfl⟩, by decide, by decide, by decide,
      by decide, by decide⟩,
    ⟨by decide, _, List.mem_cons_self, [.applyEscrowOutcome .confirmed 5], ?_, rfl⟩,
    ⟨by decide, by decide⟩, trivial⟩⟩
  intro m hm
  rw [List.mem_singleton.mp hm]
  exact (by decide : (0 : ℤ) ≤ (5 : Int64).toInt)

/-- A `find` beyond `BIGINT`, and inserts whose numbers `next_seq` does not give:
0, and one beyond `BIGINT`. -/
theorem find_beyond_bigint :
    let r : UInt64 → Redemption := fun seq =>
      ⟨"alice", seq, ⟨100⟩, .requested, 0, none, 86400⟩
    ((inMemory orders (.redemptions (.find "alice" 9223372036854775808)) .empty).1 =
        .ok none ∧
      (postgres orders (.redemptions (.find "alice" 9223372036854775808)) .empty).1 =
        .error .notFound) ∧
    ((∀ seq, Redemption.request "alice" seq ⟨100⟩ 86400 0 = .ok (r seq)) ∧
      (∀ seq, (inMemory orders (.redemptions (.insert (r seq))) .empty).1 = .ok ()) ∧
      (postgres orders (.redemptions (.insert (r 0))) .empty).1 =
        .error (.transient ("error returned from database: new row for relation " ++
          "\"redemptions\" violates check constraint \"redemptions_seq_check\"")) ∧
      (postgres orders (.redemptions (.insert (r 9223372036854775808))) .empty).1 =
        .error (.rejected "seq 9223372036854775808 exceeds BIGINT")) := by
  refine ⟨⟨rfl, rfl⟩, fun _ => rfl, fun _ => rfl, rfl, rfl⟩

end Thbc
