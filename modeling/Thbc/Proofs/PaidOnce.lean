import Thbc.System.Durable

/-!
# At most one payout, whatever stops

The counterpart of `MintedOnce` on the off-ramp. A redemption is filed before its
tokens are escrowed, and persisted as `payout_queued` before the payout is enqueued;
neither is taken back. So there is one call that can ask for either, the one that
wrote the row, and when it stops nobody does.
-/

namespace Thbc.Durable.Payouts

open Thbc.Lib

/-- No two rows have one key. -/
def Filed (rows : List RedemptionRow) : Prop :=
  (rows.map fun row => (row.userId, row.seq)).Nodup

/-- There is a row that reads as `r`. -/
def Holds (rows : List RedemptionRow) (r : Redemption) : Prop :=
  ∃ row ∈ rows, PgRedemptionRepository.rowToRedemption row = .ok r

/-- The moves of a row. A `Submitted` escrow writes it back as it was. -/
inductive Advances : RedemptionState → RedemptionState → Prop
  | answered {s : RedemptionState} : Advances .requested s
  | queued : Advances .escrowed .payoutQueued
  | confirmed {s : RedemptionState} (h : s.isPending = true) : Advances s .confirmed
  | reclaimed {s : RedemptionState} (h : s.isPending = true) : Advances s .reclaimed

/-- What a port call does to the table when nothing overlaps it. -/
inductive Change (rows : List RedemptionRow) : List RedemptionRow → Prop
  | none : Change rows rows
  | filed {r : Redemption} (hlt : r.seq.toNat < 2 ^ 63 ∧ r.amount.toNat < 2 ^ 63)
      (hr : r.state = .requested)
      (hfree : ∀ row ∈ rows, (row.userId, row.seq) ≠ (r.user, r.seq.toInt64)) :
      Change rows (rows ++ [.of r])
  | moved {r : Redemption} {s : RedemptionState} {since : Option Int64}
      (hrow : Holds rows r) (hs : Advances r.state s) :
      Change rows (rows.map (touched { r with state := s, escrowedAt := since }))

variable {rows rows' : List RedemptionRow} {r : Redemption}

theorem key_of_read {row : RedemptionRow}
    (hread : PgRedemptionRepository.rowToRedemption row = .ok r) :
    (row.userId, row.seq) = (r.user, r.seq.toInt64) := by
  obtain ⟨huser, hseq, -⟩ := PgRedemptionRepository.rowToRedemption_ok.mp hread
  rw [huser, (tryFromI64_eq_some hseq).1]

/-- What the row of a copy says. -/
theorem row_of_copy {s : RedemptionState} (hcopy : Holds rows { r with state := s }) :
    ∃ row ∈ rows, (row.userId, row.seq) = (r.user, r.seq.toInt64) ∧
      row.amountMinor = r.amount.minor.toInt64 ∧ row.state = s.asStr := by
  obtain ⟨row, hrow, hread⟩ := hcopy
  obtain ⟨-, -, hamount, hstate, -⟩ := PgRedemptionRepository.rowToRedemption_ok.mp hread
  exact ⟨row, hrow, key_of_read (r := { r with state := s }) hread,
    (fromI64_eq_ok hamount).1, hstate⟩

theorem Filed.unique (h : Filed rows) {row row' : RedemptionRow} (hrow : row ∈ rows)
    (hrow' : row' ∈ rows) (hkey : (row.userId, row.seq) = (row'.userId, row'.seq)) :
    row = row' :=
  List.inj_on_of_nodup_map h hrow hrow' hkey

theorem touched_key (r : Redemption) (row : RedemptionRow) :
    ((touched r row).userId, (touched r row).seq) = (row.userId, row.seq) ∧
      (touched r row).amountMinor = row.amountMinor := by
  unfold touched
  split
  · exact ⟨rfl, rfl⟩
  · exact ⟨rfl, rfl⟩

theorem Filed.append (h : Filed rows)
    (hfree : ∀ row ∈ rows, (row.userId, row.seq) ≠ (r.user, r.seq.toInt64)) :
    Filed (rows ++ [.of r]) := by
  rw [Filed, List.map_append, List.nodup_append]
  refine ⟨h, List.nodup_singleton _, fun k hk k' hk' heq => ?_⟩
  obtain ⟨row, hrow, rfl⟩ := List.mem_map.mp hk
  rw [List.mem_singleton.mp hk'] at heq
  exact hfree row hrow heq

theorem Filed.touched (h : Filed rows) (r : Redemption) : Filed (rows.map (touched r)) := by
  have hkeys : (fun row : RedemptionRow => (row.userId, row.seq)) ∘ Durable.touched r =
      fun row => (row.userId, row.seq) := funext fun row => (touched_key _ row).1
  rw [Filed, List.map_map, hkeys]
  exact h

theorem Filed.change (h : Filed rows) (hc : Change rows rows') : Filed rows' := by
  cases hc with
  | none => exact h
  | filed hlt hr hfree => exact h.append hfree
  | moved hrow hs => exact h.touched _

/-! ## Rows that a payout may have been asked for -/

def Payable (row : RedemptionRow) : Prop :=
  row.state ∈ ["payout_queued", "confirmed", "reclaimed"]

theorem payable_of_queued {row : RedemptionRow} (h : row.state = "payout_queued") :
    Payable row := by
  rw [Payable, h]
  decide

/-- A row keeps its key and its amount, and does not go back. -/
theorem Change.kept (hc : Change rows rows') (hrows : Filed rows) {row : RedemptionRow}
    (hrow : row ∈ rows) :
    ∃ row' ∈ rows', (row'.userId, row'.seq) = (row.userId, row.seq) ∧
      row'.amountMinor = row.amountMinor ∧ (Payable row → Payable row') := by
  cases hc with
  | none => exact ⟨row, hrow, rfl, rfl, id⟩
  | filed => exact ⟨row, List.mem_append_left _ hrow, rfl, rfl, id⟩
  | @moved r s since hcopy hadv =>
      refine ⟨_, List.mem_map_of_mem hrow, (touched_key _ row).1, (touched_key _ row).2,
        fun hp => ?_⟩
      by_cases hkey : (row.userId, row.seq) = (r.user, r.seq.toInt64)
      · obtain ⟨row', hrow', hread⟩ := hcopy
        obtain rfl := hrows.unique hrow hrow' (hkey.trans (key_of_read hread).symm)
        have htouched : touched { r with state := s, escrowedAt := since } row =
            { row with state := s.asStr, escrowedAt := since } := if_pos hkey
        have hstate : row.state = r.state.asStr :=
          (PgRedemptionRepository.rowToRedemption_ok.mp hread).2.2.2.1
        rw [htouched]
        rw [Payable, hstate] at hp
        show s.asStr ∈ ["payout_queued", "confirmed", "reclaimed"]
        generalize r.state = before at hadv hp
        cases hadv with
        | answered => exact absurd hp (by decide)
        | queued => exact absurd hp (by decide)
        | confirmed h => decide
        | reclaimed h => decide
      · have htouched : touched { r with state := s, escrowedAt := since } row = row :=
          if_neg hkey
        rw [htouched]
        exact hp

/-! ## A call in the middle of a redemption -/

/-- What a call knows of the row it works on. -/
def Copied (rows : List RedemptionRow) : OffRamp.Phase → Prop
  | .idle => True
  | .drafting r .inserted => r.state = .requested ∧ Holds rows r
  | .drafting r (.answered _) => r.state = .requested ∧ Holds rows r
  | .drafting r .applied =>
      ∃ since, Holds rows { r with state := .requested, escrowedAt := since }
  | .settling r .queueing => r.state = .escrowed ∧ Holds rows r
  | .settling r .queued => Holds rows { r with state := .payoutQueued }
  | .settling r .confirming => Holds rows r
  | .settling r .reclaiming => Holds rows r
  | .settling r .burned => r.state.isPending = true ∧ Holds rows r
  | .settling r .returning => r.state.isPending = true ∧ Holds rows r
  | .settling r .returned => r.state.isPending = true ∧ Holds rows r

/-- A row that has been moved reads as it was moved. -/
theorem holds_moved {s : RedemptionState} {since : Option Int64} (hrow : Holds rows r) :
    Holds (rows.map (touched { r with state := s, escrowedAt := since }))
      { r with state := s, escrowedAt := since } := by
  obtain ⟨row, hmem, hread⟩ := hrow
  have htouched : touched { r with state := s, escrowedAt := since } row =
      { row with state := s.asStr, escrowedAt := since } := if_pos (key_of_read hread)
  refine ⟨_, List.mem_map_of_mem hmem, ?_⟩
  rw [htouched]
  obtain ⟨huser, hseq, hamount, -, hreq, -, hdelta⟩ :=
    PgRedemptionRepository.rowToRedemption_ok.mp hread
  exact PgRedemptionRepository.rowToRedemption_ok.mpr
    ⟨huser, hseq, hamount, rfl, hreq, rfl, hdelta⟩

theorem moved_cases {s : RedemptionState} (since : Option Int64) (hrow : Holds rows r)
    (hs : Advances r.state s) {b : PortResult Unit}
    (h : Replies (.update { r with state := s, escrowedAt := since }) rows b rows') :
    Change rows rows' ∧
      (b = .ok () → Holds rows' { r with state := s, escrowedAt := since }) := by
  obtain ⟨rfl, hb⟩ | ⟨-, rfl⟩ := replies_update h
  · exact ⟨.none, fun hok => absurd hok hb⟩
  · exact ⟨.moved hrow hs, fun _ => holds_moved hrow⟩

theorem replies_read {m : RedemptionRepository}
    (hm : ∀ tie, (PgRedemptionRepository.call rows tie m).2 = rows) {b : PortResult m.Answer}
    (h : Replies m rows b rows') : rows' = rows := by
  obtain ⟨tie, h | ⟨e, -, h | h⟩⟩ := h
  · rw [← hm tie, h]
  · exact h
  · exact h.trans (hm tie)

theorem rowToRedemption_of (hseq : r.seq.toNat < 2 ^ 63) (hlt : r.amount.toNat < 2 ^ 63) :
    PgRedemptionRepository.rowToRedemption (.of r) = .ok r :=
  PgRedemptionRepository.rowToRedemption_ok.mpr
    ⟨rfl, tryFromI64_toInt64 hseq, fromI64_toInt64 hlt, rfl, rfl, rfl, rfl⟩

section Steps

variable [Sha256] {call : Call} {w : Tables} {s : Port}

omit [Sha256] in
/-- What a call that is idle goes on with. -/
theorem copied_found (h : Holds rows r) :
    Copied rows (match OffRamp.settles call r with
      | some stage => .settling r stage
      | none => .idle) := by
  cases hs : OffRamp.settles call r with
  | none => trivial
  | some stage =>
      obtain ⟨rfl, hst, -⟩ | ⟨rfl, -⟩ | ⟨rfl, -⟩ := OffRamp.settles_cases hs
      · exact ⟨hst, h⟩
      · exact h
      · exact h

theorem idle_step (c : Conditions) (hasks : OffRamp.opens call s) :
    Change w.redemptions (exec c s w).2.redemptions ∧
      Copied (exec c s w).2.redemptions
        ((OffRamp.grammar call).advance .idle ⟨s, (exec c s w).1⟩) := by
  cases s with
  | redemptions m =>
      obtain ⟨b, rows', hx, hb⟩ := exec_redemptions c m w
      rw [hx]
      cases m with
      | insert r =>
          obtain ⟨rfl, hne⟩ | ⟨hseq, hlt, hfree, rfl⟩ := replies_insert hb
          · cases b with
            | ok u => exact absurd rfl hne
            | error e => exact ⟨.none, trivial⟩
          · refine ⟨.filed ⟨hseq, hlt⟩ hasks.1 hfree, ?_⟩
            cases b with
            | error e => trivial
            | ok u =>
                exact ⟨hasks.1, _, List.mem_append_right _ List.mem_cons_self,
                  rowToRedemption_of hseq hlt⟩
      | find user seq =>
          obtain ⟨rfl, hfound⟩ := replies_find hb
          refine ⟨.none, ?_⟩
          rcases b with e | found
          · trivial
          · cases found with
            | none => trivial
            | some r =>
                obtain ⟨-, row, hrow, -, hread⟩ := hfound r rfl
                rw [OffRamp.advance_find]
                exact copied_found ⟨row, hrow, hread⟩
      | update r => exact hasks.elim
      | nextSeq user =>
          obtain rfl := replies_read (fun _ => rfl) hb
          exact ⟨.none, trivial⟩
      | reclaimable now =>
          obtain rfl := replies_read (fun _ => rfl) hb
          exact ⟨.none, trivial⟩
      | totalRedeemed =>
          obtain rfl := replies_read (fun _ => rfl) hb
          exact ⟨.none, trivial⟩
      | pendingCount =>
          obtain rfl := replies_read (fun _ => rfl) hb
          exact ⟨.none, trivial⟩
  | ledger m => cases m <;> first | exact hasks.elim | exact ⟨.none, trivial⟩
  | payouts m => exact hasks.elim
  | _ => exact ⟨.none, trivial⟩

theorem drafting_step {stage : OffRamp.Draft} (c : Conditions)
    (hq : Copied w.redemptions (.drafting r stage))
    (hasks : (OffRamp.grammar call).asks (.drafting r stage) s) :
    Change w.redemptions (exec c s w).2.redemptions ∧
      Copied (exec c s w).2.redemptions
        ((OffRamp.grammar call).advance (.drafting r stage) ⟨s, (exec c s w).1⟩) := by
  cases stage with
  | inserted =>
      obtain rfl : s = _ := hasks
      refine ⟨.none, ?_⟩
      show Copied w.redemptions ((OffRamp.grammar call).advance _ ⟨_, c.answer _⟩)
      rcases c.answer (.ledger (.escrowRedemption r)) with e | o
      · trivial
      · exact hq
  | answered o =>
      obtain rfl : s = _ := hasks
      obtain ⟨hr, hrow⟩ := hq
      refine ⟨.none, ?_⟩
      show Copied w.redemptions ((OffRamp.grammar call).advance _ ⟨.clock, c.answer .clock⟩)
      cases happ : r.applyEscrowOutcome o (c.answer .clock) with
      | error e =>
          rw [OffRamp.advance_unanswered happ]
          trivial
      | ok r' =>
          rw [OffRamp.advance_answered happ]
          obtain ⟨st, since, rfl⟩ := Redemption.applyEscrowOutcome_cases happ
          refine ⟨r.escrowedAt, ?_⟩
          have hself : { r with state := RedemptionState.requested } = r := by rw [← hr]
          show Holds w.redemptions { r with state := .requested }
          rw [hself]
          exact hrow
  | applied =>
      obtain rfl : s = _ := hasks
      obtain ⟨since, hrow⟩ := hq
      obtain ⟨b, rows', hx, hb⟩ := exec_redemptions c (.update r) w
      rw [hx]
      exact ⟨(moved_cases (s := r.state) r.escrowedAt hrow .answered hb).1,
        trivial⟩

theorem settling_step {stage : OffRamp.Settlement} (c : Conditions)
    (hq : Copied w.redemptions (.settling r stage))
    (hasks : (OffRamp.grammar call).asks (.settling r stage) s) :
    Change w.redemptions (exec c s w).2.redemptions ∧
      Copied (exec c s w).2.redemptions
        ((OffRamp.grammar call).advance (.settling r stage) ⟨s, (exec c s w).1⟩) := by
  cases stage with
  | queueing =>
      obtain rfl : s = _ := hasks
      obtain ⟨hr, hrow⟩ := hq
      obtain ⟨b, rows', hx, hb⟩ := exec_redemptions c
        (.update { r with state := .payoutQueued }) w
      rw [hx]
      obtain ⟨hchange, hok⟩ := moved_cases r.escrowedAt hrow (hr ▸ .queued) hb
      refine ⟨hchange, ?_⟩
      rcases b with e | u
      · trivial
      · exact hok rfl
  | queued =>
      obtain rfl : s = _ := hasks
      exact ⟨.none, trivial⟩
  | confirming =>
      obtain rfl : s = _ := hasks
      refine ⟨.none, ?_⟩
      show Copied w.redemptions ((OffRamp.grammar call).advance _ ⟨_, c.answer _⟩)
      rcases c.answer (.ledger (.confirmRedemption r.user r.seq)) with e | o
      · trivial
      · cases o with
        | confirmed =>
            show Copied w.redemptions (if r.state.isPending then .settling r .burned else .idle)
            split
            · next hp => exact ⟨hp, hq⟩
            · trivial
        | submitted => trivial
        | failed => trivial
  | burned =>
      obtain rfl : s = _ := hasks
      obtain ⟨hp, hrow⟩ := hq
      obtain ⟨b, rows', hx, hb⟩ := exec_redemptions c
        (.update { r with state := .confirmed }) w
      rw [hx]
      exact ⟨(moved_cases r.escrowedAt hrow (.confirmed hp) hb).1, trivial⟩
  | reclaiming =>
      obtain rfl : s = _ := hasks
      refine ⟨.none, ?_⟩
      show Copied w.redemptions ((OffRamp.grammar call).advance _ ⟨.clock, c.answer .clock⟩)
      cases hrec : r.reclaim (c.answer .clock) with
      | error e =>
          rw [OffRamp.advance_early hrec]
          trivial
      | ok r' =>
          rw [OffRamp.advance_due hrec]
          exact ⟨(Redemption.reclaim_ok.mp hrec).1, hq⟩
  | returning =>
      obtain rfl : s = _ := hasks
      refine ⟨.none, ?_⟩
      show Copied w.redemptions ((OffRamp.grammar call).advance _ ⟨_, c.answer _⟩)
      rcases c.answer (.ledger (.reclaimRedemption r.user r.seq)) with e | o
      · trivial
      · cases o with
        | confirmed => exact hq
        | submitted => trivial
        | failed => trivial
  | returned =>
      obtain rfl : s = _ := hasks
      obtain ⟨hp, hrow⟩ := hq
      obtain ⟨b, rows', hx, hb⟩ := exec_redemptions c
        (.update { r with state := .reclaimed }) w
      rw [hx]
      exact ⟨(moved_cases r.escrowedAt hrow (.reclaimed hp) hb).1, trivial⟩

/-- One port call of a call that nothing overlaps. -/
theorem redemptions_step {q : OffRamp.Phase} (c : Conditions)
    (hq : Copied w.redemptions q) (hasks : (OffRamp.grammar call).asks q s) :
    Change w.redemptions (exec c s w).2.redemptions ∧
      Copied (exec c s w).2.redemptions
        ((OffRamp.grammar call).advance q ⟨s, (exec c s w).1⟩) := by
  cases q with
  | idle => exact idle_step c hasks
  | drafting r stage => exact drafting_step c hq hasks
  | settling r stage => exact settling_step c hq hasks

end Steps

/-! ## The payouts and the escrows asked for -/

/-- A call of `enqueue` for a redemption. -/
def asksPayout (user : String) (seq : UInt64) : Act Port Port.Reply → Bool
  | ⟨.payouts (.enqueue user' seq' _), _⟩ => user' = user && seq' = seq
  | _ => false

/-- A call of `escrow_redemption` for it. -/
def asksEscrow (user : String) (seq : UInt64) : Act Port Port.Reply → Bool
  | ⟨.ledger (.escrowRedemption r), _⟩ => r.user = user && r.seq = seq
  | _ => false

/-- No payout will be asked for any more. -/
def Queued (user : String) (seq : UInt64) (q : OffRamp.Phase) (rows : List RedemptionRow) :
    Prop :=
  (∃ row ∈ rows, (row.userId, row.seq) = (user, seq.toInt64) ∧ Payable row) ∧
    ∀ r : Redemption, q = .settling r .queued → (r.user, r.seq) ≠ (user, seq)

/-- No escrow will be asked for any more. -/
def Drafted (user : String) (seq : UInt64) (q : OffRamp.Phase) (rows : List RedemptionRow) :
    Prop :=
  (∃ row ∈ rows, (row.userId, row.seq) = (user, seq.toInt64)) ∧
    ∀ r : Redemption, q = .drafting r .inserted → (r.user, r.seq) ≠ (user, seq)

/-- What is asked for is what the row says. -/
structure Recorded (rows : List RedemptionRow) (log : History Port Port.Reply) : Prop where
  payout : ∀ user seq amount r, ⟨.payouts (.enqueue user seq amount), r⟩ ∈ log →
    ∃ row ∈ rows, (row.userId, row.seq) = (user, seq.toInt64) ∧
      row.amountMinor = amount.minor.toInt64 ∧ Payable row
  escrow : ∀ (rd : Redemption) r, ⟨.ledger (.escrowRedemption rd), r⟩ ∈ log →
    ∃ row ∈ rows, (row.userId, row.seq) = (rd.user, rd.seq.toInt64) ∧
      row.amountMinor = rd.amount.minor.toInt64

/-- What holds at every port call of a call that nothing overlaps. -/
structure Settling (user : String) (seq : UInt64) (q : OffRamp.Phase) (w : State) : Prop where
  filed : Filed w.1.redemptions
  copied : Copied w.1.redemptions q
  recorded : Recorded w.1.redemptions w.2
  payout : Once (asksPayout user seq) (Queued user seq q w.1.redemptions) w.2
  escrow : Once (asksEscrow user seq) (Drafted user seq q w.1.redemptions) w.2

variable {call : Call}

theorem payout_asked {q : OffRamp.Phase} {user : String} {seq : UInt64} {amount : Thb}
    (h : (OffRamp.grammar call).asks q (.payouts (.enqueue user seq amount))) :
    ∃ r : Redemption, q = .settling r .queued ∧ r.user = user ∧ r.seq = seq ∧
      r.amount = amount := by
  cases q with
  | idle => exact h.elim
  | drafting r stage => cases stage <;> cases h
  | settling r stage =>
      cases stage with
      | queued =>
          obtain rfl | h : _ = _ := h
          exact ⟨r, rfl, rfl, rfl, rfl⟩
      | _ => cases h

theorem escrow_asked {q : OffRamp.Phase} {r : Redemption}
    (h : (OffRamp.grammar call).asks q (.ledger (.escrowRedemption r))) :
    q = .drafting r .inserted := by
  cases q with
  | idle => exact h.elim
  | drafting r stage =>
      cases stage with
      | inserted =>
          obtain rfl | h : _ = _ := h
          rfl
      | _ => cases h
  | settling r stage => cases stage <;> cases h

/-- A row is about to be paid for once it is found `escrowed`. -/
theorem queueing_of_queued {q : OffRamp.Phase} {a : Act Port Port.Reply}
    (h : (OffRamp.grammar call).advance q a = .settling r .queued) :
    q = .settling r .queueing := by
  unfold OffRamp.grammar OffRamp.Phase.advance at h
  dsimp only at h
  split at h
  · cases h
  · next heq =>
      split at h
      · next stage hs =>
          obtain ⟨rfl, -⟩ | ⟨rfl, -⟩ | ⟨rfl, -⟩ := OffRamp.settles_cases hs <;> cases h
      · cases h
  all_goals first
    | cases h
    | (split at h <;> cases h)
  rfl

theorem insert_of_inserted {q : OffRamp.Phase} {a : Act Port Port.Reply}
    (h : (OffRamp.grammar call).advance q a = .drafting r .inserted) :
    q = .idle ∧ ∃ u, a = ⟨.redemptions (.insert r), .ok u⟩ := by
  unfold OffRamp.grammar OffRamp.Phase.advance at h
  dsimp only at h
  split at h
  · cases h
    exact ⟨rfl, _, rfl⟩
  all_goals first
    | cases h
    | (split at h <;> cases h)

section Runs

variable [Sha256] {user : String} {seq : UInt64} {q : OffRamp.Phase}

omit [Sha256] in
theorem Queued.step {a : Act Port Port.Reply} (h : Queued user seq q rows)
    (hrows : Filed rows) (hq : Copied rows q) (hc : Change rows rows') :
    Queued user seq ((OffRamp.grammar call).advance q a) rows' := by
  obtain ⟨⟨row, hrow, hkey, hp⟩, -⟩ := h
  refine ⟨?_, fun r hnext hr => ?_⟩
  · obtain ⟨row', hrow', hkey', -, hp'⟩ := hc.kept hrows hrow
    exact ⟨row', hrow', hkey'.trans hkey, hp' hp⟩
  · -- The copy says that the row is still `escrowed`.
    obtain rfl := queueing_of_queued hnext
    obtain ⟨hst, row', hrow', hread⟩ := hq
    obtain ⟨rfl, rfl⟩ := Prod.mk.inj hr
    obtain rfl := hrows.unique hrow hrow' (hkey.trans (key_of_read hread).symm)
    have hstate : row.state = r.state.asStr :=
      (PgRedemptionRepository.rowToRedemption_ok.mp hread).2.2.2.1
    rw [Payable, hstate, hst] at hp
    exact absurd hp (by decide)

theorem Drafted.step {w : Tables} {s : Port} {c : Conditions}
    (h : Drafted user seq q w.redemptions) (hrows : Filed w.redemptions)
    (hc : Change w.redemptions (exec c s w).2.redemptions) :
    Drafted user seq ((OffRamp.grammar call).advance q ⟨s, (exec c s w).1⟩)
      (exec c s w).2.redemptions := by
  obtain ⟨⟨row, hrow, hkey⟩, -⟩ := h
  refine ⟨?_, fun r hnext hr => ?_⟩
  · obtain ⟨row', hrow', hkey', -⟩ := hc.kept hrows hrow
    exact ⟨row', hrow', hkey'.trans hkey⟩
  · -- It has just been inserted, so it was not there.
    obtain ⟨-, u, ha⟩ := insert_of_inserted hnext
    obtain rfl : s = _ := congrArg Sigma.fst ha
    obtain ⟨b, rows', hx, hb⟩ := exec_redemptions c (.insert r) w
    have hok : b = .ok u := (congrArg Prod.fst hx).symm.trans (eq_of_heq (Sigma.mk.inj ha).2)
    obtain ⟨-, hne⟩ | ⟨-, -, hfree, -⟩ := replies_insert hb
    · exact hne hok
    · obtain ⟨rfl, rfl⟩ := Prod.mk.inj hr
      exact hfree row hrow hkey

theorem Recorded.step {w : State} {s : Port} {c : Conditions}
    (h : Recorded w.1.redemptions w.2) (hrows : Filed w.1.redemptions)
    (hq : Copied w.1.redemptions q)
    (hc : Change w.1.redemptions (exec c s w.1).2.redemptions)
    (hasks : (OffRamp.grammar call).asks q s) :
    Recorded (exec.logged c s w).2.1.redemptions (exec.logged c s w).2.2 := by
  refine ⟨fun user seq amount r hmem => ?_, fun rd r hmem => ?_⟩
  · obtain heq | hmem := List.mem_cons.mp hmem
    · obtain rfl : Port.payouts (.enqueue user seq amount) = s := congrArg Sigma.fst heq
      obtain ⟨rd, rfl, rfl, rfl, rfl⟩ := payout_asked hasks
      obtain ⟨row, hrow, hkey, hamount, hstate⟩ := row_of_copy hq
      exact ⟨row, hrow, hkey, hamount, payable_of_queued hstate⟩
    · obtain ⟨row, hrow, hkey, hamount, hp⟩ := h.payout user seq amount r hmem
      obtain ⟨row', hrow', hkey', hamount', hp'⟩ := hc.kept hrows hrow
      exact ⟨row', hrow', hkey'.trans hkey, hamount'.trans hamount, hp' hp⟩
  · obtain heq | hmem := List.mem_cons.mp hmem
    · obtain rfl : Port.ledger (.escrowRedemption rd) = s := congrArg Sigma.fst heq
      obtain rfl := escrow_asked hasks
      obtain ⟨-, row, hrow, hread⟩ := hq
      obtain ⟨-, -, hamount, -⟩ := PgRedemptionRepository.rowToRedemption_ok.mp hread
      exact ⟨row, hrow, key_of_read hread, (fromI64_eq_ok hamount).1⟩
    · obtain ⟨row, hrow, hkey, hamount⟩ := h.escrow rd r hmem
      obtain ⟨row', hrow', hkey', hamount', -⟩ := hc.kept hrows hrow
      exact ⟨row', hrow', hkey'.trans hkey, hamount'.trans hamount⟩

theorem Settling.step {w : State} {s : Port} (h : Settling user seq q w) (c : Conditions)
    (hasks : (OffRamp.grammar call).asks q s) :
    Settling user seq ((OffRamp.grammar call).advance q ⟨s, (exec.logged c s w).1⟩)
      (exec.logged c s w).2 := by
  obtain ⟨hfiled, hcopied, hrecorded, hpayout, hescrow⟩ := h
  obtain ⟨hchange, hcopied'⟩ := redemptions_step c hcopied hasks
  refine ⟨hfiled.change hchange, hcopied', hrecorded.step hfiled hcopied hchange hasks,
    hpayout.cons (fun hs => hs.step hfiled hcopied hchange) fun hfires => ?_,
    hescrow.cons (fun hs => hs.step hfiled hchange) fun hfires => ?_⟩
  · obtain ⟨amount, rfl⟩ : ∃ amount, s = .payouts (.enqueue user seq amount) := by
      unfold asksPayout at hfires
      split at hfires
      · next heq =>
          obtain ⟨huser, hseq⟩ := (Bool.and_eq_true _ _).mp hfires
          obtain rfl := of_decide_eq_true huser
          obtain rfl := of_decide_eq_true hseq
          exact ⟨_, congrArg Sigma.fst heq⟩
      · cases hfires
    obtain ⟨r, rfl, rfl, rfl, rfl⟩ := payout_asked hasks
    refine ⟨fun hs => hs.2 r rfl rfl, ?_, fun r' hnext => ?_⟩
    · obtain ⟨row, hrow, hkey, -, hstate⟩ := row_of_copy hcopied
      exact ⟨row, hrow, hkey, payable_of_queued hstate⟩
    · cases queueing_of_queued hnext
  · obtain ⟨r, rfl, rfl, rfl⟩ : ∃ r : Redemption, s = .ledger (.escrowRedemption r) ∧
        r.user = user ∧ r.seq = seq := by
      unfold asksEscrow at hfires
      split at hfires
      · next r _ heq =>
          obtain ⟨huser, hseq⟩ := (Bool.and_eq_true _ _).mp hfires
          exact ⟨r, congrArg Sigma.fst heq, of_decide_eq_true huser, of_decide_eq_true hseq⟩
      · cases hfires
    obtain rfl := escrow_asked hasks
    refine ⟨fun hs => hs.2 r rfl rfl, ?_, fun r' hnext => ?_⟩
    · obtain ⟨-, row, hrow, hread⟩ := hcopied
      exact ⟨row, hrow, key_of_read hread⟩
    · cases (insert_of_inserted hnext).1

/-- The reply of `find` is about the row that was asked for. -/
theorem hears_redemptions {w : State} (c : Conditions) (s : Port) :
    (OffRamp.grammar call).hears s (exec.logged c s w).1 := by
  cases s with
  | redemptions m =>
      cases m with
      | find user seq =>
          intro rd hrd
          obtain ⟨b, rows', hx, hb⟩ := exec_redemptions c (.find user seq) w.1
          have hreply : (exec.logged c (.redemptions (.find user seq)) w).1 = b :=
            congrArg Prod.fst hx
          obtain ⟨-, row, hrow, hkey, hread⟩ :=
            (replies_find hb).2 rd (hreply.symm.trans hrd)
          exact seqKey_inj ((key_of_read hread).symm.trans hkey)
      | _ => trivial
  | _ => trivial

omit [Sha256] in
theorem Settling.drop {w : State} (h : Settling user seq q w) : Settling user seq .idle w :=
  ⟨h.filed, trivial, h.recorded, h.payout.mono fun hs => ⟨hs.1, fun r hr => by cases hr⟩,
    h.escrow.mono fun hs => ⟨hs.1, fun r hr => by cases hr⟩⟩

/-- Whatever the other ports answer, whatever the database fails at and wherever the
calls are stopped, each redemption is escrowed by at most one call of the ledger and
paid by at most one call of the rail, both with the amount of its row. -/
theorem payout_at_most_once {deltaSecs : Int64} {w : Tables} (hrows : Filed w.redemptions)
    (calls : List (Call × ℕ × (ℕ → Conditions))) (user : String) (seq : UInt64) :
    (runCalls deltaSecs (w, []) calls).2.countP (asksPayout user seq) ≤ 1 ∧
      (runCalls deltaSecs (w, []) calls).2.countP (asksEscrow user seq) ≤ 1 ∧
      Recorded (runCalls deltaSecs (w, []) calls).1.redemptions
        (runCalls deltaSecs (w, []) calls).2 := by
  have h := interrupted_induct (J := Settling user seq) (G := OffRamp.grammar)
    (fun call => OffRamp.call_obeys deltaSecs call)
    (fun call q w s c h => hears_redemptions c s)
    (fun call q w s c h hasks => h.step c hasks) (fun q w h => h.drop) calls
    (w := (w, []))
    ⟨hrows, trivial,
      ⟨fun _ _ _ _ hmem => absurd hmem List.not_mem_nil,
        fun _ _ hmem => absurd hmem List.not_mem_nil⟩,
      ⟨fun _ => rfl, Nat.zero_le _⟩, ⟨fun _ => rfl, Nat.zero_le _⟩⟩
  exact ⟨h.payout.once, h.escrow.once, h.recorded⟩

end Runs

/-- A redemption that waits for its payout. -/
def waiting : Tables :=
  ⟨[], [⟨"alice", 1, 100, "escrowed", 0, some 0, 86400⟩], []⟩

theorem filed_waiting : Filed waiting.redemptions := List.nodup_singleton _

open Sample in
/-- A payout that is stopped once the row says that it is queued, and another one. -/
theorem payout_at_most_once_waiting :
    (runCalls 86400 (waiting, []) [(.processPayout "alice" 1, 2, fun _ => ample),
      (.processPayout "alice" 1, 9, fun _ => ample)]).2.countP
        (asksPayout "alice" 1) ≤ 1 :=
  (payout_at_most_once filed_waiting _ _ _).1

end Thbc.Durable.Payouts
