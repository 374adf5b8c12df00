import Thbc.System.OffRamp
import Thbc.Ledger.Steps

/-!
# One step of the off-ramp

What a port call that the grammar allows does to the redemption rows and to
the escrow records, with the phase it leads from and the phase it leads to.
Escrow records are made, burned and erased in one constructor each, and so is
every write of a row; the rest is `other`, which changes neither side.
-/

namespace Thbc.OffRamp

open Thbc.Lib

def Keyed (rows : InMemoryRedemptionRepo) : Prop :=
  ∀ k r, rows.lookup k = some r → r.key = k

theorem keyed_insert {rows : InMemoryRedemptionRepo} (h : Keyed rows)
    {k : String × UInt64} {r : Redemption} (hr : r.key = k) :
    Keyed (AList.insert k r rows) :=
  AList.lookup_insert_all h hr

/-- What a step that moves neither rows nor escrow records may be asked and
told. -/
def quiet : Act Port Port.Reply → Bool
  | ⟨.redemptions (.insert _), .ok _⟩ | ⟨.redemptions (.update _), .ok _⟩ => false
  | ⟨.ledger (.escrowRedemption _), .ok .confirmed⟩
  | ⟨.ledger (.confirmRedemption _ _), .ok .confirmed⟩
  | ⟨.ledger (.reclaimRedemption _ _), .ok .confirmed⟩ => false
  | ⟨.payouts _, _⟩ => false
  | _ => true

/-- When a call may put its copy down: with an answer of the ledger in hand
only if the copy cannot take it, with a row to write only where the row is
missing. -/
def mayDrop (w : World) : Phase → Prop
  | .drafting r (.answered _) => r.state ≠ .requested
  | q => ∀ r, q.next = some (.redemptions (.update r)) →
      w.redemptions.lookup r.key = none

inductive Step (call : Call) (w w' : World) :
    Phase → Act Port Port.Reply → Phase → Prop
  | inserted {r : Redemption} (hr : r.state = .requested)
      (hcall : call = .request r.user r.amount)
      (hnone : w.redemptions.lookup r.key = none)
      (hrow : w'.redemptions = AList.insert r.key r w.redemptions)
      (hled : w'.ledger = w.ledger) :
      Step call w w' .idle ⟨.redemptions (.insert r), .ok ()⟩
        (.drafting r .inserted)
  | found {user : String} {seq : UInt64} {r : Redemption} {stage : Settlement}
      (hstage : settles call r = some stage)
      (hfind : w.redemptions.lookup (user, seq) = some r) (hw : w' = w) :
      Step call w w' .idle ⟨.redemptions (.find user seq), .ok (some r)⟩
        (.settling r stage)
  | escrowed {r : Redemption} (hrow : w'.redemptions = w.redemptions)
      (hnone : w.ledger.escrows.lookup r.key = none)
      (hesc : w'.ledger.escrows =
        w.ledger.escrows.insert r.key ⟨r.amount, w.ledger.now, false⟩) :
      Step call w w' (.drafting r .inserted)
        ⟨.ledger (.escrowRedemption r), .ok .confirmed⟩
        (.drafting r (.answered .confirmed))
  | applied {r r' : Redemption} {o : ConfirmOutcome} {now : Int64}
      (happ : r.applyEscrowOutcome o now = .ok r') (hw : w' = w) :
      Step call w w' (.drafting r (.answered o)) ⟨.clock, now⟩
        (.drafting r' .applied)
  | recorded {r : Redemption}
      (hrow : w'.redemptions = AList.insert r.key r w.redemptions)
      (hled : w'.ledger = w.ledger) :
      Step call w w' (.drafting r .applied) ⟨.redemptions (.update r), .ok ()⟩
        .idle
  | queued {r : Redemption}
      (hrow : w'.redemptions =
        AList.insert r.key { r with state := .payoutQueued } w.redemptions)
      (hled : w'.ledger = w.ledger) :
      Step call w w' (.settling r .queueing)
        ⟨.redemptions (.update { r with state := .payoutQueued }), .ok ()⟩
        (.settling r .queued)
  | enqueued {r : Redemption} {b : PortResult Unit}
      (hrow : w'.redemptions = w.redemptions) (hled : w'.ledger = w.ledger) :
      Step call w w' (.settling r .queued)
        ⟨.payouts (.enqueue r.user r.seq r.amount), b⟩ .idle
  | burned {r : Redemption} {record : SimulatedLedger.EscrowRecord} {q' : Phase}
      (hq' : q' = if r.state.isPending then .settling r .burned else .idle)
      (hrow : w'.redemptions = w.redemptions)
      (hrec : w.ledger.escrows.lookup r.key = some record)
      (hb : record.burned = false)
      (hesc : w'.ledger.escrows =
        w.ledger.escrows.insert r.key { record with burned := true }) :
      Step call w w' (.settling r .confirming)
        ⟨.ledger (.confirmRedemption r.user r.seq), .ok .confirmed⟩ q'
  | confirmed {r : Redemption}
      (hrow : w'.redemptions =
        AList.insert r.key { r with state := .confirmed } w.redemptions)
      (hled : w'.ledger = w.ledger) :
      Step call w w' (.settling r .burned)
        ⟨.redemptions (.update { r with state := .confirmed }), .ok ()⟩ .idle
  | due {r : Redemption} {now : Int64} (hp : r.state.isPending = true)
      (hw : w' = w) :
      Step call w w' (.settling r .reclaiming) ⟨.clock, now⟩
        (.settling r .returning)
  | returned {r : Redemption} {record : SimulatedLedger.EscrowRecord}
      (hrow : w'.redemptions = w.redemptions)
      (hrec : w.ledger.escrows.lookup r.key = some record)
      (hb : record.burned = false)
      (hdue : SimulatedLedger.SIMULATED_DELTA_SECS ≤
        saturatingSub w.ledger.now record.escrowedAt)
      (hroom : (w.ledger.balanceOf r.user).toNat + record.amount.toNat <
        UInt64.size)
      (hesc : w'.ledger.escrows = w.ledger.escrows.erase r.key) :
      Step call w w' (.settling r .returning)
        ⟨.ledger (.reclaimRedemption r.user r.seq), .ok .confirmed⟩
        (.settling r .returned)
  | reclaimed {r : Redemption}
      (hrow : w'.redemptions =
        AList.insert r.key { r with state := .reclaimed } w.redemptions)
      (hled : w'.ledger = w.ledger) :
      Step call w w' (.settling r .returned)
        ⟨.redemptions (.update { r with state := .reclaimed }), .ok ()⟩ .idle
  | other {q : Phase} {a : Act Port Port.Reply} (ha : quiet a = true)
      (hdrop : mayDrop w q) (hrow : w'.redemptions = w.redemptions)
      (hesc : w'.ledger.escrows = w.ledger.escrows) :
      Step call w w' q a .idle

/-! ## What the world does -/

section Exec

variable [Sha256]

theorem redemptions_exec {e : Env} {s : Port} {w : World} (h : neutral s) :
    (World.exec e s w).2.redemptions = w.redemptions := by
  cases s with
  | redemptions m => cases m <;> first | exact h.elim | rfl
  | payouts m => exact h.elim
  | _ => rfl

/-- Only the three methods of the off-ramp touch the escrow records. -/
theorem escrows_exec {e : Env} {s : Port} {w : World} (h : neutral s) :
    (World.exec e s w).2.ledger.escrows = w.ledger.escrows := by
  cases s with
  | ledger m =>
      cases m with
      | issue beneficiary amount nullifier =>
          show (w.ledger.issue beneficiary amount nullifier).2.escrows = _
          rcases w.ledger.issue_cases beneficiary amount nullifier with
            ⟨e, heq, -⟩ | ⟨-, v, balance, r, -, heq, -⟩
          · rw [heq]
          · rw [heq]
      | snapshot => rfl
      | updateAttestation reserve encumbered => rfl
      | escrowRedemption r => exact h.elim
      | confirmRedemption user seq => exact h.elim
      | reclaimRedemption user seq => exact h.elim
  | simulator m =>
      obtain ⟨_, _, _, _, _, heq, -⟩ := w.ledger.control_cases m
      show (w.ledger.control m).2.escrows = _
      rw [heq]
  | payouts m => exact h.elim
  | _ => rfl

omit [Sha256] in
theorem quiet_of_neutral {s : Port} (h : neutral s) (b : s.Reply) :
    quiet ⟨s, b⟩ = true := by
  cases s with
  | redemptions m => cases m <;> first | exact h.elim | rfl
  | ledger m => cases m <;> first | exact h.elim | rfl
  | payouts m => exact h.elim
  | _ => rfl

theorem step_of_neutral {call : Call} {e : Env} {s : Port} {w : World}
    (h : neutral s) :
    Step call w (World.exec e s w).2 .idle ⟨s, (World.exec e s w).1⟩
      ((grammar call).advance .idle ⟨s, (World.exec e s w).1⟩) := by
  rw [(asks_of_neutral h).2]
  refine .other (quiet_of_neutral h _) ?_ (redemptions_exec h) (escrows_exec h)
  intro r hr
  cases hr

theorem step_of_opens {call : Call} {e : Env} {s : Port} {w : World}
    (h : opens call s) :
    Step call w (World.exec e s w).2 .idle ⟨s, (World.exec e s w).1⟩
      ((grammar call).advance .idle ⟨s, (World.exec e s w).1⟩) := by
  have hidle : mayDrop w .idle := by
    intro r hr
    cases hr
  cases s with
  | redemptions m =>
      cases m with
      | insert r =>
          rcases InMemoryRedemptionRepo.insert_cases w.redemptions r with
            ⟨err, heq⟩ | ⟨hnone, heq⟩
          · have hx : World.exec e (.redemptions (.insert r)) w =
                (.error err, w) := by
              simp only [World.exec, InMemoryRedemptionRepo.call, heq]
            rw [hx]
            exact .other rfl hidle rfl rfl
          · have hx : World.exec e (.redemptions (.insert r)) w =
                (.ok (), { w with
                  redemptions := AList.insert r.key r w.redemptions }) := by
              simp only [World.exec, InMemoryRedemptionRepo.call, heq]
            rw [hx]
            exact .inserted h.1 h.2 hnone rfl rfl
      | find user seq =>
          have hx : World.exec e (.redemptions (.find user seq)) w =
              (.ok (w.redemptions.lookup (user, seq)), w) := rfl
          rw [hx]
          cases hrow : w.redemptions.lookup (user, seq) with
          | none => exact .other rfl hidle rfl rfl
          | some r =>
              rw [advance_find]
              cases hstage : settles call r with
              | none => exact .other rfl hidle rfl rfl
              | some stage => exact .found hstage hrow rfl
      | update r => exact h.elim
      | nextSeq user => exact step_of_neutral trivial
      | reclaimable now => exact step_of_neutral trivial
      | totalRedeemed => exact step_of_neutral trivial
      | pendingCount => exact step_of_neutral trivial
  | ledger m =>
      cases m with
      | escrowRedemption r => exact h.elim
      | confirmRedemption user seq => exact h.elim
      | reclaimRedemption user seq => exact h.elim
      | _ => exact step_of_neutral trivial
  | payouts m => exact h.elim
  | _ => exact step_of_neutral trivial

theorem exec_update {e : Env} {w : World} {r : Redemption} :
    (w.redemptions.lookup r.key = none ∧
      World.exec e (.redemptions (.update r)) w = (.error .notFound, w)) ∨
    World.exec e (.redemptions (.update r)) w =
      (.ok (), { w with redemptions := AList.insert r.key r w.redemptions }) := by
  rcases InMemoryRedemptionRepo.update_cases w.redemptions r with
    ⟨hnone, heq⟩ | ⟨row, -, heq⟩
  · refine .inl ⟨hnone, ?_⟩
    simp only [World.exec, InMemoryRedemptionRepo.call, heq]
  · refine .inr ?_
    simp only [World.exec, InMemoryRedemptionRepo.call, heq]

omit [Sha256] in
theorem mayDrop_of_next {w : World} {q : Phase} {r : Redemption}
    (hnext : q.next = some (.redemptions (.update r)))
    (hnone : w.redemptions.lookup r.key = none) : mayDrop w q := by
  have hall : ∀ r', q.next = some (.redemptions (.update r')) →
      w.redemptions.lookup r'.key = none := by
    intro r' hr'
    rw [hnext] at hr'
    cases hr'
    exact hnone
  cases q with
  | idle => exact hall
  | drafting r' stage =>
      cases stage with
      | inserted => exact hall
      | answered o => cases hnext
      | applied => exact hall
  | settling r' stage => exact hall

/-- A call that writes its row finds it, or puts its copy down. -/
theorem step_of_update {call : Call} {e : Env} {w : World} {q q' : Phase}
    {r : Redemption} (hnext : q.next = some (.redemptions (.update r)))
    (hlost : (grammar call).advance q
      ⟨.redemptions (.update r), .error .notFound⟩ = .idle)
    (hdone : (grammar call).advance q ⟨.redemptions (.update r), .ok ()⟩ = q')
    (hstep : ∀ w', w'.redemptions = AList.insert r.key r w.redemptions →
      w'.ledger = w.ledger →
      Step call w w' q ⟨.redemptions (.update r), .ok ()⟩ q') :
    Step call w (World.exec e (.redemptions (.update r)) w).2 q
      ⟨.redemptions (.update r), (World.exec e (.redemptions (.update r)) w).1⟩
      ((grammar call).advance q ⟨.redemptions (.update r),
        (World.exec e (.redemptions (.update r)) w).1⟩) := by
  rcases exec_update (e := e) (w := w) (r := r) with ⟨hnone, hx⟩ | hx
  · rw [hx]
    show Step call w w q _ ((grammar call).advance q
      ⟨.redemptions (.update r), .error .notFound⟩)
    rw [hlost]
    exact .other rfl (mayDrop_of_next hnext hnone) rfl rfl
  · rw [hx]
    show Step call w { w with redemptions := AList.insert r.key r w.redemptions } q
      ⟨.redemptions (.update r), .ok ()⟩ ((grammar call).advance q
      ⟨.redemptions (.update r), .ok ()⟩)
    rw [hdone]
    exact hstep _ rfl rfl

theorem step_of_drafting {call : Call} {r : Redemption} {stage : Draft}
    {s : Port} {e : Env} {w : World}
    (h : (grammar call).asks (.drafting r stage) s) :
    Step call w (World.exec e s w).2 (.drafting r stage)
      ⟨s, (World.exec e s w).1⟩
      ((grammar call).advance (.drafting r stage) ⟨s, (World.exec e s w).1⟩) := by
  cases stage with
  | inserted =>
      obtain rfl : s = .ledger (.escrowRedemption r) := h
      rcases w.ledger.escrowRedemption_cases r with
        ⟨err, heq⟩ | ⟨hnone, remaining, -, heq⟩
      · have hx : World.exec e (.ledger (.escrowRedemption r)) w =
            (.error err, w) := by
          simp only [World.exec, SimulatedLedger.State.call, heq]
        rw [hx]
        refine .other rfl ?_ rfl rfl
        intro r' hr'
        cases hr'
      · have hx : World.exec e (.ledger (.escrowRedemption r)) w =
            (.ok .confirmed, { w with ledger := { w.ledger with
              balances := w.ledger.balances.insert r.user remaining
              escrows := w.ledger.escrows.insert r.key
                ⟨r.amount, w.ledger.now, false⟩ } }) := by
          simp only [World.exec, SimulatedLedger.State.call, heq]
        rw [hx]
        exact .escrowed rfl hnone rfl
  | answered o =>
      obtain rfl : s = .clock := h
      have hx : World.exec e .clock w = (e.clock, w) := rfl
      rw [hx]
      show Step call w w _ ⟨.clock, e.clock⟩ ((grammar call).advance _ _)
      cases happ : r.applyEscrowOutcome o e.clock with
      | ok r' =>
          have hq : (grammar call).advance (.drafting r (.answered o))
              ⟨.clock, e.clock⟩ = .drafting r' .applied := by
            simp only [grammar, Phase.advance, happ]
          rw [hq]
          exact .applied happ rfl
      | error err =>
          have hq : (grammar call).advance (.drafting r (.answered o))
              ⟨.clock, e.clock⟩ = .idle := by
            simp only [grammar, Phase.advance, happ]
          rw [hq]
          refine .other rfl ?_ rfl rfl
          intro hreq
          have hok : ∃ r', r.applyEscrowOutcome o e.clock = .ok r' := by
            cases o with
            | confirmed => exact ⟨_, if_neg (not_not.mpr hreq)⟩
            | submitted => exact ⟨_, if_neg (not_not.mpr hreq)⟩
            | failed => exact ⟨_, if_neg (not_not.mpr hreq)⟩
          obtain ⟨r', hr'⟩ := hok
          rw [hr'] at happ
          cases happ
  | applied =>
      obtain rfl : s = .redemptions (.update r) := h
      exact step_of_update rfl rfl rfl fun _ hrow hled => .recorded hrow hled

theorem step_of_settling {call : Call} {r : Redemption} {stage : Settlement}
    {s : Port} {e : Env} {w : World}
    (h : (grammar call).asks (.settling r stage) s) :
    Step call w (World.exec e s w).2 (.settling r stage)
      ⟨s, (World.exec e s w).1⟩
      ((grammar call).advance (.settling r stage) ⟨s, (World.exec e s w).1⟩) := by
  cases stage with
  | queueing =>
      obtain rfl : s = .redemptions (.update { r with state := .payoutQueued }) := h
      exact step_of_update rfl rfl rfl fun _ hrow hled => .queued hrow hled
  | queued =>
      obtain rfl : s = .payouts (.enqueue r.user r.seq r.amount) := h
      obtain ⟨b, sent, hx⟩ := World.exec_payouts e
        (.enqueue r.user r.seq r.amount) w
      rw [hx]
      exact .enqueued rfl rfl
  | confirming =>
      obtain rfl : s = .ledger (.confirmRedemption r.user r.seq) := h
      rcases w.ledger.confirmRedemption_cases r.user r.seq with
        ⟨err, heq, -⟩ | ⟨record, supply, hrec, hb, -, heq⟩
      · have hx : World.exec e (.ledger (.confirmRedemption r.user r.seq)) w =
            (.error err, w) := by
          simp only [World.exec, SimulatedLedger.State.call, heq]
        rw [hx]
        refine .other rfl ?_ rfl rfl
        intro r' hr'
        cases hr'
      · have hx : World.exec e (.ledger (.confirmRedemption r.user r.seq)) w =
            (.ok .confirmed, { w with ledger := { w.ledger with
              reserve := { w.ledger.reserve with supply := supply }
              escrows := w.ledger.escrows.insert (r.user, r.seq)
                { record with burned := true } } }) := by
          simp only [World.exec, SimulatedLedger.State.call, heq]
        rw [hx]
        exact .burned rfl rfl hrec hb rfl
  | burned =>
      obtain rfl : s = .redemptions (.update { r with state := .confirmed }) := h
      exact step_of_update rfl rfl rfl fun _ hrow hled => .confirmed hrow hled
  | reclaiming =>
      obtain rfl : s = .clock := h
      have hx : World.exec e .clock w = (e.clock, w) := rfl
      rw [hx]
      show Step call w w _ ⟨.clock, e.clock⟩ ((grammar call).advance _ _)
      cases hrec : r.reclaim e.clock with
      | ok r' =>
          have hq : (grammar call).advance (.settling r .reclaiming)
              ⟨.clock, e.clock⟩ = .settling r .returning := by
            simp only [grammar, Phase.advance, hrec]
          rw [hq]
          exact .due (Redemption.reclaim_ok.mp hrec).1 rfl
      | error err =>
          have hq : (grammar call).advance (.settling r .reclaiming)
              ⟨.clock, e.clock⟩ = .idle := by
            simp only [grammar, Phase.advance, hrec]
          rw [hq]
          refine .other rfl ?_ rfl rfl
          intro r' hr'
          cases hr'
  | returning =>
      obtain rfl : s = .ledger (.reclaimRedemption r.user r.seq) := h
      have hlost : mayDrop w (.settling r .returning) := by
        intro r' hr'
        cases hr'
      rcases w.ledger.reclaimRedemption_cases r.user r.seq with
        ⟨err, heq⟩ |
        ⟨record, balance, hrec, hb, hdue, ⟨hsum, heq⟩ | ⟨-, -, err, heq⟩⟩
      · have hx : World.exec e (.ledger (.reclaimRedemption r.user r.seq)) w =
            (.error err, w) := by
          simp only [World.exec, SimulatedLedger.State.call, heq]
        rw [hx]
        exact .other rfl hlost rfl rfl
      · have hx : World.exec e (.ledger (.reclaimRedemption r.user r.seq)) w =
            (.ok .confirmed, { w with ledger := { w.ledger with
              balances := w.ledger.balances.insert r.user balance
              escrows := w.ledger.escrows.erase (r.user, r.seq) } }) := by
          simp only [World.exec, SimulatedLedger.State.call, heq]
        rw [hx]
        refine .returned rfl hrec hb hdue ?_ rfl
        rw [← hsum]
        exact balance.minor.toNat_lt
      · have hx : World.exec e (.ledger (.reclaimRedemption r.user r.seq)) w =
            (.error err, { w with ledger := { w.ledger with
              balances := w.ledger.balances.insert r.user balance } }) := by
          simp only [World.exec, SimulatedLedger.State.call, heq]
        rw [hx]
        exact .other rfl hlost rfl rfl
  | returned =>
      obtain rfl : s = .redemptions (.update { r with state := .reclaimed }) := h
      exact step_of_update rfl rfl rfl fun _ hrow hled => .reclaimed hrow hled

theorem step_exec {call : Call} {q : Phase} {s : Port} {e : Env} {w : World}
    (h : (grammar call).asks q s) :
    Step call w (World.exec e s w).2 q ⟨s, (World.exec e s w).1⟩
      ((grammar call).advance q ⟨s, (World.exec e s w).1⟩) := by
  cases q with
  | idle => exact step_of_opens h
  | drafting r stage => exact step_of_drafting h
  | settling r stage => exact step_of_settling h

theorem hears_exec {call : Call} {e : Env} {w : World}
    (hw : Keyed w.redemptions) (s : Port) :
    (grammar call).hears s (World.exec e s w).1 := by
  cases s with
  | redemptions m =>
      cases m with
      | find user seq =>
          intro r h
          exact hw (user, seq) r (Except.ok.inj h)
      | _ => trivial
  | _ => trivial

end Exec

end Thbc.OffRamp
