import Thbc.Proofs.Settling

/-!
# Requests and settlements at once

`Settling` looks at redemptions whose requests have returned. Here a request may
still be under way while others already read its row. What a row and its escrow
record say of each other is then less, but two things stay: a row that has left
`Requested` does not go back (`GoesOn`), and once it is `Confirmed` or
`Reclaimed` its tokens are gone from the ledger for good (`Spent`).
-/

namespace Thbc.OffRamp

open Thbc.Lib

/-- Past its escrow: what comes after `Escrowed`. -/
def isPast : RedemptionState → Bool
  | .requested | .escrowed => false
  | _ => true

/-- There is nothing to burn or to give back. -/
def Spent (record : Option SimulatedLedger.EscrowRecord) : Prop :=
  ∀ e, record = some e → e.burned = true

/-- What a row and a record may become under a call that works on other copies
of them. -/
structure GoesOn (row row' : Option Redemption)
    (record record' : Option SimulatedLedger.EscrowRecord) : Prop where
  leaves : ∀ r, row = some r → r.state ≠ .requested →
    ∃ r', row' = some r' ∧ r'.state ≠ .requested ∧
      (isPast r.state = true → isPast r'.state = true)
  spends : (∃ r, row = some r ∧ r.state ≠ .requested) → Spent record →
    Spent record'

theorem GoesOn.refl (row : Option Redemption)
    (record : Option SimulatedLedger.EscrowRecord) : GoesOn row row record record :=
  ⟨fun r hr hst => ⟨r, hr, hst, fun h => h⟩, fun _ h => h⟩

/-- The copy of a draft: its row is `Requested` until the draft writes it. -/
def Penned (r : Redemption) (row : Option Redemption)
    (record : Option SimulatedLedger.EscrowRecord) (s : Draft) : Prop :=
  (∃ r', row = some r' ∧ r'.state = .requested) ∧
    match s with
    | .inserted => r.state = .requested ∧ record = none
    | .answered o => r.state = .requested ∧ o = .confirmed
    | .applied => r.state = .escrowed

/-- The copy of a settlement: its row has gone on from there. -/
structure Held (r : Redemption) (s : Settlement) (row : Option Redemption)
    (record : Option SimulatedLedger.EscrowRecord) : Prop where
  failed : r.state ≠ .failed
  queueing : s = .queueing ∨ s = .queued → r.state = .escrowed
  pending : s = .burned ∨ s = .returning ∨ s = .returned →
    r.state.isPending = true
  left : r.state ≠ .requested → ∃ r', row = some r' ∧ r'.state ≠ .requested ∧
    (s = .queued → isPast r'.state = true)
  spent : r.state.isTerminal = true ∨ s = .burned ∨ s = .returned → Spent record

theorem Held.goesOn {r : Redemption} {s : Settlement} {row row' : Option Redemption}
    {record record' : Option SimulatedLedger.EscrowRecord}
    (h : Held r s row record) (hon : GoesOn row row' record record') :
    Held r s row' record' where
  failed := h.failed
  queueing := h.queueing
  pending := h.pending
  left hst := by
    obtain ⟨r', hr', hst', hpast⟩ := h.left hst
    obtain ⟨r'', hr'', hst'', hpast'⟩ := hon.leaves r' hr' hst'
    exact ⟨r'', hr'', hst'', fun hs => hpast' (hpast hs)⟩
  spent hs := by
    have hst : r.state ≠ .requested := by
      intro hreq
      obtain ht | hs' := hs
      · rw [hreq] at ht
        cases ht
      · have hp := h.pending (hs'.imp id .inr)
        rw [hreq] at hp
        cases hp
    obtain ⟨r', hr', hst', -⟩ := h.left hst
    exact hon.spends ⟨r', hr', hst'⟩ (h.spent hs)

/-- Rows, records and copies, whoever is at work. -/
structure Aligned (rows : InMemoryRedemptionRepo)
    (escrows : HashMap (String × UInt64) SimulatedLedger.EscrowRecord)
    (stage : ℕ → Phase) : Prop where
  keyed : Keyed rows
  states : ∀ k row, rows.lookup k = some row → row.state ≠ .failed ∧
    (row.state.isTerminal = true → Spent (escrows.lookup k))
  records : ∀ k, rows.lookup k = none → escrows.lookup k = none
  drafting : ∀ i r s, stage i = .drafting r s →
    Penned r (rows.lookup r.key) (escrows.lookup r.key) s
  unique : ∀ i j r r' s s', stage i = .drafting r s → stage j = .drafting r' s' →
    r.key = r'.key → i = j
  settling : ∀ i r s, stage i = .settling r s →
    Held r s (rows.lookup r.key) (escrows.lookup r.key)

namespace Aligned

variable {rows rows' : InMemoryRedemptionRepo}
  {escrows escrows' : HashMap (String × UInt64) SimulatedLedger.EscrowRecord}
  {stage : ℕ → Phase} {t : ℕ} {q' : Phase}

/-- A call changes the row and the record of one key. -/
theorem at_key (h : Aligned rows escrows stage) (key : String × UInt64)
    (hkeyed : Keyed rows')
    (hother : ∀ k, k ≠ key → rows'.lookup k = rows.lookup k ∧
      escrows'.lookup k = escrows.lookup k)
    (hon : GoesOn (rows.lookup key) (rows'.lookup key) (escrows.lookup key)
      (escrows'.lookup key))
    (hrow : ∀ row, rows'.lookup key = some row → row.state ≠ .failed ∧
      (row.state.isTerminal = true → Spent (escrows'.lookup key)))
    (hrec : rows'.lookup key = none → escrows'.lookup key = none)
    (hdraft : ∀ i r s, i ≠ t → stage i = .drafting r s → r.key = key →
      Penned r (rows'.lookup key) (escrows'.lookup key) s)
    (hpen : ∀ r s, q' = .drafting r s →
      Penned r (rows'.lookup r.key) (escrows'.lookup r.key) s ∧
        ∀ i r' s', i ≠ t → stage i = .drafting r' s' → r'.key ≠ r.key)
    (hheld : ∀ r s, q' = .settling r s →
      Held r s (rows'.lookup r.key) (escrows'.lookup r.key)) :
    Aligned rows' escrows' (Function.update stage t q') where
  keyed := hkeyed
  states k row hk := by
    by_cases hkk : k = key
    · subst hkk
      exact hrow row hk
    · rw [(hother k hkk).1] at hk
      rw [(hother k hkk).2]
      exact h.states k row hk
  records k hk := by
    by_cases hkk : k = key
    · subst hkk
      exact hrec hk
    · rw [(hother k hkk).1] at hk
      rw [(hother k hkk).2]
      exact h.records k hk
  drafting i r s hi := by
    obtain ⟨-, hq⟩ | ⟨hit, hi⟩ := Pool.update_cases hi
    · exact (hpen r s hq).1
    · by_cases hkk : r.key = key
      · rw [hkk]
        exact hdraft i r s hit hi hkk
      · rw [(hother _ hkk).1, (hother _ hkk).2]
        exact h.drafting i r s hi
  unique i j r r' s s' hi hj hk := by
    obtain ⟨hit, hqi⟩ | ⟨hit, hi⟩ := Pool.update_cases hi
    · obtain ⟨hjt, -⟩ | ⟨hjt, hj⟩ := Pool.update_cases hj
      · rw [hit, hjt]
      · exact absurd hk.symm ((hpen r s hqi).2 j r' s' hjt hj)
    · obtain ⟨-, hqj⟩ | ⟨-, hj⟩ := Pool.update_cases hj
      · exact absurd hk ((hpen r' s' hqj).2 i r s hit hi)
      · exact h.unique i j r r' s s' hi hj hk
  settling i r s hi := by
    obtain ⟨-, hq⟩ | ⟨-, hi⟩ := Pool.update_cases hi
    · exact hheld r s hq
    · by_cases hkk : r.key = key
      · have hold := h.settling i r s hi
        rw [hkk] at hold ⊢
        exact hold.goesOn hon
      · rw [(hother _ hkk).1, (hother _ hkk).2]
        exact h.settling i r s hi

theorem turn (h : Aligned rows escrows stage)
    (hpen : ∀ r s, q' = .drafting r s →
      Penned r (rows.lookup r.key) (escrows.lookup r.key) s ∧
        ∀ i r' s', i ≠ t → stage i = .drafting r' s' → r'.key ≠ r.key)
    (hheld : ∀ r s, q' = .settling r s →
      Held r s (rows.lookup r.key) (escrows.lookup r.key)) :
    Aligned rows escrows (Function.update stage t q') :=
  h.at_key ("", 0) h.keyed (fun _ _ => ⟨rfl, rfl⟩) (.refl _ _)
    (h.states _) (h.records _)
    (fun i r s _ hi hk => by
      have hd := h.drafting i r s hi
      rw [hk] at hd
      exact hd) hpen hheld

theorem drop (h : Aligned rows escrows stage) (t : ℕ) :
    Aligned rows escrows (Function.update stage t .idle) :=
  h.turn (fun _ _ hq => by cases hq) fun _ _ hq => by cases hq

/-- A draft has its key to itself, as far as drafts go. -/
theorem alone (h : Aligned rows escrows stage) {r : Redemption} {s : Draft}
    (ht : stage t = .drafting r s) (i : ℕ) (r' : Redemption) (s' : Draft)
    (hit : i ≠ t) (hi : stage i = .drafting r' s') : r'.key ≠ r.key :=
  fun hk => hit (h.unique i t r' r s' s hi ht hk)

theorem rewrite (h : Aligned rows escrows stage) {r : Redemption} {s : Settlement}
    {st : RedemptionState} (ht : stage t = .settling r s)
    (hleft : r.state ≠ .requested) (hst : isPast st = true) (hfail : st ≠ .failed)
    (hspent : st.isTerminal = true → Spent (escrows.lookup r.key))
    (hq' : q' = .idle ∨ (q' = .settling r .queued ∧ r.state = .escrowed)) :
    Aligned (AList.insert r.key { r with state := st } rows) escrows
      (Function.update stage t q') := by
  have hreq : st ≠ .requested := by
    intro hreq
    rw [hreq] at hst
    cases hst
  obtain ⟨row, hrow, hrow', -⟩ := (h.settling t r s ht).left hleft
  refine h.at_key r.key (keyed_insert h.keyed rfl) ?_ ?_ ?_ ?_ ?_ ?_ ?_
  · intro k hk
    exact ⟨AList.lookup_insert_ne hk, rfl⟩
  · rw [AList.lookup_insert]
    exact ⟨fun _ _ _ => ⟨_, rfl, hreq, fun _ => hst⟩, fun _ hs => hs⟩
  · intro row' hr
    rw [AList.lookup_insert] at hr
    obtain rfl := Option.some.inj hr
    exact ⟨hfail, hspent⟩
  · intro hnone
    rw [AList.lookup_insert] at hnone
    cases hnone
  · intro i r' s' _ hi hk
    obtain ⟨⟨row', hr', hst'⟩, -⟩ := h.drafting i r' s' hi
    rw [hk, hrow] at hr'
    rw [Option.some.inj hr'] at hrow'
    exact absurd hst' hrow'
  · intro r' s' hr'
    obtain hq | ⟨hq, -⟩ := hq'
    · rw [hq] at hr'
      cases hr'
    · rw [hq] at hr'
      cases hr'
  · intro r' s' hr'
    obtain hq | ⟨hq, hesc⟩ := hq'
    · rw [hq] at hr'
      cases hr'
    · rw [hq] at hr'
      cases hr'
      have hheld := h.settling t r s ht
      refine ⟨hheld.failed, fun _ => hesc, ?_, ?_, ?_⟩
      · simp
      · intro _
        exact ⟨_, AList.lookup_insert _, hreq, fun _ => hst⟩
      · simp [hesc, RedemptionState.isTerminal]

theorem spend (h : Aligned rows escrows stage) {r : Redemption} {s : Settlement}
    {e : SimulatedLedger.EscrowRecord} (ht : stage t = .settling r s)
    (hlive : escrows.lookup r.key = some e)
    (hother : ∀ k, k ≠ r.key → escrows'.lookup k = escrows.lookup k)
    (hspent : Spent (escrows'.lookup r.key))
    (hq' : q' = .idle ∨ (r.state.isPending = true ∧
      (q' = .settling r .burned ∨ q' = .settling r .returned))) :
    Aligned rows escrows' (Function.update stage t q') := by
  refine h.at_key r.key h.keyed (fun k hk => ⟨rfl, hother k hk⟩) ?_ ?_ ?_ ?_ ?_ ?_
  · exact ⟨(GoesOn.refl _ none).leaves, fun _ _ => hspent⟩
  · intro row hrow
    exact ⟨(h.states _ row hrow).1, fun _ => hspent⟩
  · intro hnone
    rw [h.records _ hnone] at hlive
    cases hlive
  · intro i r' s' _ hi hk
    obtain ⟨hrow, hd⟩ := h.drafting i r' s' hi
    rw [hk] at hrow hd
    refine ⟨hrow, ?_⟩
    cases s' with
    | inserted =>
        have hnone : escrows.lookup r.key = none := hd.2
        rw [hlive] at hnone
        cases hnone
    | answered o => exact hd
    | applied => exact hd
  · intro r' s' hr'
    obtain hq | ⟨-, hq | hq⟩ := hq'
    · rw [hq] at hr'
      cases hr'
    · rw [hq] at hr'
      cases hr'
    · rw [hq] at hr'
      cases hr'
  · intro r' s' hr'
    have hheld := h.settling t r s ht
    obtain hq | ⟨hp, hq⟩ := hq'
    · rw [hq] at hr'
      cases hr'
    · have hleft := hheld.left (RedemptionState.ne_of_isPending hp).1
      obtain ⟨row, hrow, hst, -⟩ := hleft
      obtain hq | hq := hq
      · rw [hq] at hr'
        cases hr'
        exact ⟨hheld.failed, by simp, fun _ => hp,
          fun _ => ⟨row, hrow, hst, by simp⟩, fun _ => hspent⟩
      · rw [hq] at hr'
        cases hr'
        exact ⟨hheld.failed, by simp, fun _ => hp,
          fun _ => ⟨row, hrow, hst, by simp⟩, fun _ => hspent⟩

/-- A draft goes on, with nobody else drafting under its key. -/
theorem pen (h : Aligned rows escrows stage) {r : Redemption} {s : Draft}
    (ht : stage t = .drafting r s)
    (hrows : ∀ k, k ≠ r.key → rows'.lookup k = rows.lookup k ∧
      escrows'.lookup k = escrows.lookup k) (hkeyed : Keyed rows')
    {row : Redemption} (hrow : rows'.lookup r.key = some row)
    (hst : row.state.isTerminal = false)
    (hq' : q' = .idle ∨ ∃ r' s', q' = .drafting r' s' ∧ r'.key = r.key ∧
      Penned r' (rows'.lookup r.key) (escrows'.lookup r.key) s') :
    Aligned rows' escrows' (Function.update stage t q') := by
  obtain ⟨⟨old, hold, hreq⟩, -⟩ := h.drafting t r s ht
  refine h.at_key r.key hkeyed hrows ?_ ?_ ?_ ?_ ?_ ?_
  · rw [hold]
    constructor
    · intro r' hr' hst'
      rw [← Option.some.inj hr'] at hst'
      exact absurd hreq hst'
    · intro ⟨r', hr', hst'⟩
      rw [← Option.some.inj hr'] at hst'
      exact absurd hreq hst'
  · intro row' hr'
    rw [hrow] at hr'
    rw [← Option.some.inj hr', hst]
    refine ⟨fun hfail => ?_, fun hterm => by cases hterm⟩
    rw [hfail] at hst
    cases hst
  · intro hnone
    rw [hrow] at hnone
    cases hnone
  · intro i r' s' hit hi hk
    exact absurd hk (h.alone ht i r' s' hit hi)
  · intro r' s' hr'
    obtain hq | ⟨r'', s'', hq, hk, hpen⟩ := hq'
    · rw [hq] at hr'
      cases hr'
    · rw [hq] at hr'
      cases hr'
      rw [hk]
      exact ⟨hpen, fun i r₁ s₁ hit hi => h.alone ht i r₁ s₁ hit hi⟩
  · intro r' s' hr'
    obtain hq | ⟨r'', s'', hq, -, -⟩ := hq'
    · rw [hq] at hr'
      cases hr'
    · rw [hq] at hr'
      cases hr'

variable {call : Call} {w w' : World} {q : Phase} {a : Act Port Port.Reply}

theorem insert (h : Aligned rows escrows stage) {r : Redemption}
    (hr : r.state = .requested) (hnone : rows.lookup r.key = none) :
    Aligned (AList.insert r.key r rows) escrows
      (Function.update stage t (.drafting r .inserted)) := by
  have hfree : ∀ i r' s', stage i = .drafting r' s' → r'.key ≠ r.key := by
    intro i r' s' hi hk
    obtain ⟨⟨row, hrow, -⟩, -⟩ := h.drafting i r' s' hi
    rw [hk, hnone] at hrow
    cases hrow
  refine h.at_key r.key (keyed_insert h.keyed rfl) ?_ ?_ ?_ ?_ ?_ ?_ ?_
  · intro k hk
    exact ⟨AList.lookup_insert_ne hk, rfl⟩
  · rw [hnone]
    constructor
    · intro r' hr'
      cases hr'
    · intro ⟨r', hr', _⟩
      cases hr'
  · intro row hrow
    rw [AList.lookup_insert] at hrow
    rw [← Option.some.inj hrow, hr]
    simp [RedemptionState.isTerminal]
  · intro hno
    rw [AList.lookup_insert] at hno
    cases hno
  · intro i r' s' _ hi hk
    exact absurd hk (hfree i r' s' hi)
  · intro r' s' hq
    cases hq
    refine ⟨⟨⟨r, AList.lookup_insert _, hr⟩, hr, h.records _ hnone⟩, ?_⟩
    exact fun i r' s' _ hi => hfree i r' s' hi
  · intro r' s' hq
    cases hq

theorem step (h : Aligned w.redemptions w.ledger.escrows stage) (ht : stage t = q)
    (hs : Step call w w' q a q') :
    Aligned w'.redemptions w'.ledger.escrows (Function.update stage t q') := by
  cases hs with
  | inserted hr _ hnone hrow hled =>
      rw [hrow, hled]
      exact h.insert hr hnone
  | @found user seq r s hstage hfind hw =>
      subst hw
      have hkey : r.key = (user, seq) := h.keyed _ _ hfind
      obtain ⟨hfail, hterm⟩ := h.states _ r hfind
      refine h.turn (fun r' s' hq => by cases hq) fun r' s' hq => ?_
      cases hq
      rw [hkey]
      refine ⟨hfail, ?_, ?_, fun hst => ⟨r, hfind, hst, ?_⟩, ?_⟩
      all_goals
        obtain ⟨rfl, hesc, -⟩ | ⟨rfl, -⟩ | ⟨rfl, -⟩ := settles_cases hstage
        all_goals simp_all
  | @escrowed r hrow hnone hesc =>
      obtain ⟨⟨row, hlook, hst⟩, hr, -⟩ := h.drafting t r _ ht
      rw [hrow, hesc]
      refine h.pen ht (fun k hk => ⟨rfl, AList.lookup_insert_ne hk⟩) h.keyed hlook
        (by rw [hst]; rfl) (.inr ⟨r, _, rfl, rfl, ⟨row, hlook, hst⟩, hr, rfl⟩)
  | @applied r r' o now happ hw =>
      subst hw
      obtain ⟨⟨row, hlook, hst⟩, hr, rfl⟩ := h.drafting t r _ ht
      obtain ⟨-, rfl⟩ := Redemption.applyEscrowOutcome_confirmed.mp happ
      exact h.pen ht (fun k _ => ⟨rfl, rfl⟩) h.keyed hlook (by rw [hst]; rfl)
        (.inr ⟨_, .applied, rfl, rfl, ⟨row, hlook, hst⟩, rfl⟩)
  | @recorded r hrow hled =>
      obtain ⟨-, hr⟩ := h.drafting t r _ ht
      replace hr : r.state = .escrowed := hr
      rw [hrow, hled]
      exact h.pen ht (fun k hk => ⟨AList.lookup_insert_ne hk, rfl⟩)
        (keyed_insert h.keyed rfl) (AList.lookup_insert _) (by rw [hr]; rfl) (.inl rfl)
  | @queued r hrow hled =>
      have hesc := (h.settling t r _ ht).queueing (.inl rfl)
      rw [hrow, hled]
      exact h.rewrite ht (by simp [hesc]) rfl (by simp) (fun hterm => by cases hterm)
        (.inr ⟨rfl, hesc⟩)
  | enqueued hrow hled =>
      rw [hrow, hled]
      exact h.drop t
  | @burned r e _ hq' hrow hrec hb hesc =>
      rw [hrow]
      refine h.spend ht hrec ?_ ?_ ?_
      · intro k hk
        rw [hesc, AList.lookup_insert_ne hk]
      · rw [hesc, AList.lookup_insert]
        intro e' he'
        rw [← Option.some.inj he']
      · by_cases hp : r.state.isPending = true
        · rw [if_pos hp] at hq'
          exact .inr ⟨hp, .inl hq'⟩
        · rw [if_neg hp] at hq'
          exact .inl hq'
  | @confirmed r hrow hled =>
      have hheld := h.settling t r _ ht
      have hp := hheld.pending (.inl rfl)
      rw [hrow, hled]
      exact h.rewrite ht (RedemptionState.ne_of_isPending hp).1 rfl (by simp)
        (fun _ => hheld.spent (.inr (.inl rfl))) (.inl rfl)
  | @due r now hp hw =>
      subst hw
      have hheld := h.settling t r _ ht
      refine h.turn (fun r' s' hq => by cases hq) fun r' s' hq => ?_
      cases hq
      refine ⟨hheld.failed, by simp, fun _ => hp, fun hst => ?_, ?_⟩
      · obtain ⟨row, hlook, hst', -⟩ := hheld.left hst
        exact ⟨row, hlook, hst', by simp⟩
      · intro hterm
        have : r.state.isTerminal = true := by simpa using hterm
        exact hheld.spent (.inl this)
  | @returned r e hrow hrec hb hdue hroom hesc =>
      have hp := (h.settling t r _ ht).pending (.inr (.inl rfl))
      rw [hrow]
      refine h.spend ht hrec ?_ ?_ (.inr ⟨hp, .inr rfl⟩)
      · intro k hk
        rw [hesc, AList.lookup_erase_ne hk]
      · rw [hesc, AList.lookup_erase]
        intro e' he'
        cases he'
  | @reclaimed r hrow hled =>
      have hheld := h.settling t r _ ht
      have hp := hheld.pending (.inr (.inr rfl))
      rw [hrow, hled]
      exact h.rewrite ht (RedemptionState.ne_of_isPending hp).1 rfl (by simp)
        (fun _ => hheld.spent (.inr (.inr rfl))) (.inl rfl)
  | other _ _ hrow hesc =>
      rw [hrow, hesc]
      exact h.drop t

end Aligned

/-! ## Pools -/

/-- What holds of a pool of any calls at any moment. -/
structure Working (calls : List Call) (c : Calls) : Prop where
  obeys : c.Obeys fun i => grammar (callAt calls i)
  aligned : Aligned c.world.redemptions c.world.ledger.escrows (phaseAt calls c)

section Pools

variable [Sha256] {calls : List Call} {c : Calls}

theorem working_fresh {ledger : SimulatedLedger.State} (hesc : ledger.escrows = ∅)
    (deltaSecs : Int64) (calls : List Call) :
    Working calls (Calls.start deltaSecs calls (.fresh ledger)) where
  obeys := Calls.obeys_start (call_obeys deltaSecs) calls _
  aligned := by
    refine ⟨?_, ?_, ?_, ?_, ?_, ?_⟩
    · intro k row hrow
      cases hrow
    · intro k row hrow
      cases hrow
    · intro k _
      show ledger.escrows.lookup k = none
      rw [hesc]
      rfl
    · intro i r s hi
      cases hi
    · intro i j r r' s s' hi
      cases hi
    · intro i r s hi
      cases hi

theorem Working.step_cases (h : Working calls c) (t : ℕ × Env) :
    c.step World.exec t = c ∨
    ∃ a q', Move calls c (c.step World.exec t) t.1 a q' :=
  move_cases h.obeys t

theorem Working.step (h : Working calls c) (t : ℕ × Env) :
    Working calls (c.step World.exec t) where
  obeys := Pool.obeys_step h.obeys fun s => hears_exec h.aligned.keyed s
  aligned := by
    rcases h.step_cases t with heq | ⟨a, q', hm⟩
    · rw [heq]
      exact h.aligned
    · have hphase : phaseAt calls (c.step World.exec t) =
          Function.update (phaseAt calls c) t.1 q' := hm.stage
      rw [hphase]
      exact h.aligned.step rfl hm.step

theorem Working.run (h : Working calls c) (ts : List (ℕ × Env)) :
    Working calls (c.run World.exec ts) :=
  Pool.run_induct (fun _ t h _ => h.step t) (Pool.along_true _ _ _) h

end Pools

end Thbc.OffRamp
