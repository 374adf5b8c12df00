import Thbc.Proofs.Timed

/-!
# F7: when a holder gets the tokens back

The service lets a reclaim through once its Δ has passed since the escrow, and
its sweep lists the redemption from then on. The ledger judges once more, by
the time in its own record and by its own Δ, which is fixed. On one clock the
record is stamped before the row, so the two judge alike as long as the Δ of
the service is not the shorter one. With a shorter one the holder is told of a
reclaim that the ledger refuses.
-/

namespace Thbc

open Thbc.Lib Thbc.Service

section Definitions

variable [Sha256]

/-- The holder has the amount back, and no other token has moved. -/
structure Returned (r : Redemption) (w w' : World) : Prop where
  credited : (w'.ledger.balanceOf r.user).toNat =
    (w.ledger.balanceOf r.user).toNat + r.amount.toNat
  others : ∀ user, user ≠ r.user →
    w'.ledger.balanceOf user = w.ledger.balanceOf user
  reserve : w'.ledger.reserve = w.ledger.reserve

/-- The sweep lists `r`, and a reclaim of it succeeds. -/
structure Due (deltaSecs : Int64) (w : World) (r : Redemption) (es : ℕ → Env) :
    Prop where
  listed : ∃ due, (w.syncedCall deltaSecs (.sweepReclaimable, es)).1 =
    .ok (.reclaimable due) ∧ r ∈ due
  reclaims : (w.syncedCall deltaSecs (.reclaim r.user r.seq, es)).1 = .ok .done
  returned : Returned r w (w.syncedCall deltaSecs (.reclaim r.user r.seq, es)).2

/-- A reclaim of `r` fails, and nothing changes but the time. -/
structure Locked (deltaSecs : Int64) (w : World) (r : Redemption) (t : Int64)
    (es : ℕ → Env) : Prop where
  refused : ∃ e,
    (w.syncedCall deltaSecs (.reclaim r.user r.seq, es)).1 = .error e
  unchanged :
    (w.syncedCall deltaSecs (.reclaim r.user r.seq, es)).2 = w.atTime t

/-- Among the calls is a request that has returned `Escrowed` for the key. -/
def EscrowedIn (deltaSecs : Int64) (w : World) (calls : List (Call × (ℕ → Env)))
    (user : String) (seq : UInt64) : Prop :=
  ∃ before amount es after, calls = before ++ (.request user amount, es) :: after ∧
    ((w.syncedCalls deltaSecs before).syncedCall deltaSecs
      (.request user amount, es)).1 = .ok (.redemption (.escrowed user seq))

def Unsettled (w : World) (user : String) (seq : UInt64) : Prop :=
  ∀ r, w.redemptions.lookup (user, seq) = some r →
    r.state ≠ .confirmed ∧ r.state ≠ .reclaimed

end Definitions

/-- F7 at every time after any run, on both sides of the boundary, whatever
hash the nullifiers are made with. -/
def Recoverability (deltaSecs : Int64) : Prop :=
  ∀ [Sha256] (reserve : Thb) (ttlSecs start : Int64)
    (calls : List (Call × (ℕ → Env))),
    let w₀ := World.fresh (SimulatedLedger.new reserve ttlSecs start)
    let w := w₀.syncedCalls deltaSecs calls
    0 ≤ start.toInt → Timely deltaSecs w₀ calls →
    ∀ user seq, EscrowedIn deltaSecs w₀ calls user seq → Unsettled w user seq →
      ∃ r since, w.redemptions.lookup (user, seq) = some r ∧
        r.escrowedAt = some since ∧
        ∀ (t : Int64) (es : ℕ → Env), w.ledger.now.toInt ≤ t.toInt →
          (∀ n, (es n).clock = t) →
          (since.toInt + deltaSecs.toInt ≤ t.toInt → Due deltaSecs w r es) ∧
            (t.toInt < since.toInt + deltaSecs.toInt → Locked deltaSecs w r t es)

namespace OffRamp

/-! ## At one time -/

/-- A row that waits, with its record and the times of both. -/
structure Waiting (deltaSecs : Int64) (w : World) (r : Redemption)
    (record : SimulatedLedger.EscrowRecord) (since : Int64) : Prop where
  row : w.redemptions.lookup (r.user, r.seq) = some r
  pending : r.state.isPending = true
  delta : r.deltaSecs = deltaSecs
  escrowedAt : r.escrowedAt = some since
  recorded : w.ledger.escrows.lookup (r.user, r.seq) = some record
  amount : record.amount = r.amount
  unburned : record.burned = false
  stamped : 0 ≤ record.escrowedAt.toInt
  first : record.escrowedAt.toInt ≤ since.toInt
  past : since.toInt ≤ w.ledger.now.toInt

theorem Timed.waiting {deltaSecs : Int64} {w : World} (h : Timed deltaSecs .idle w)
    {k : String × UInt64} {r : Redemption} (hrow : w.redemptions.lookup k = some r)
    (hp : r.state.isPending = true) :
    r.key = k ∧ ∃ record since, Waiting deltaSecs w r record since := by
  have hkey : r.key = k := h.alone.keyed k r hrow
  subst hkey
  have hagrees : Agrees (w.redemptions.lookup r.key)
    (w.ledger.escrows.lookup r.key) := h.alone.agrees r.key
  have hticks := h.ticks r.key r hrow
  obtain ⟨since, hsince⟩ := Option.ne_none_iff_exists'.mp (h.started r.key r hrow hp)
  rw [hrow] at hagrees
  cases hrec : w.ledger.escrows.lookup r.key with
  | none =>
      rw [hrec] at hagrees
      obtain hs | hs | hs := hagrees
      · rw [hs] at hp; cases hp
      · rw [hs] at hp; cases hp
      · rw [hs] at hp; cases hp
  | some record =>
      rw [hrec] at hagrees
      obtain ⟨hamount, ⟨-, hb⟩ | ⟨hs, -⟩⟩ := hagrees
      · obtain ⟨h₀, -, hfirst⟩ := hticks.record record hrec
        exact ⟨rfl, record, since, hrow, hp, hticks.delta, hsince, hrec, hamount,
          hb, h₀, hfirst since hsince, (hticks.row since hsince).2⟩
      · rw [hs] at hp; cases hp

section Boundary

theorem exec_update_of_row [Sha256] {e : Env} {w : World} {r row : Redemption}
    (h : w.redemptions.lookup r.key = some row) :
    World.exec e (.redemptions (.update r)) w =
      (.ok (), { w with redemptions := AList.insert r.key r w.redemptions }) := by
  obtain ⟨hnone, -⟩ | heq := exec_update (e := e) (w := w) (r := r)
  · rw [h] at hnone
    cases hnone
  · exact heq

variable [Sha256] {deltaSecs : Int64} {w : World} {r : Redemption}
  {record : SimulatedLedger.EscrowRecord} {since t : Int64} {es : ℕ → Env}

theorem syncedCall_at {call : Call} {Q : PortResult CallOutcome → World → Prop}
    (h : (call.prog deltaSecs).Meets
      (Handler.arenaWhere World.synced fun _ e => e.clock = t) Q w)
    (hes : ∀ n, (es n).clock = t) :
    Q (w.syncedCall deltaSecs (call, es)).1 (w.syncedCall deltaSecs (call, es)).2 :=
  meets_run_along h (Prog.along_of_forall (fun _ n => hes n) _ _)

/-- The way of a reclaim to the ledger: the row is found, and the core judges
at `t`. -/
theorem Waiting.reclaim_meets (h : Waiting deltaSecs w r record since)
    {Q : PortResult Unit → World → Prop}
    (herr : ∀ e, r.reclaim t = .error e → Q (.error (.domain e)) (w.atTime t))
    (hok : ∀ r', r.reclaim t = .ok r' →
      (ledger (.reclaimRedemption r.user r.seq) >>= fun outcome =>
        if outcome ≠ .confirmed then
          throw (.rejected s!"reclaim_redemption returned {outcome.debug}")
        else redemptions (.update r')).run.Meets
        (Handler.arenaWhere World.synced fun _ e => e.clock = t) Q (w.atTime t)) :
    (RedemptionService.reclaim r.user r.seq).run.Meets
      (Handler.arenaWhere World.synced fun _ e => e.clock = t) Q w := by
  have hfind : ∀ e : Env, e.clock = t →
      World.synced e (.redemptions (.find r.user r.seq)) w =
        (.ok (some r), w.atTime t) := by
    intro e heq
    subst heq
    show (Except.ok (w.redemptions.lookup (r.user, r.seq)), w.atTime e.clock) = _
    rw [h.row]
  have hclock : ∀ e : Env, e.clock = t →
      World.synced e .clock (w.atTime t) = (t, w.atTime t) := by
    intro e heq
    subst heq
    rfl
  refine meets_run_bind.mpr (meets_call_det hfind ?_)
  refine meets_some.mpr (meets_run_bind.mpr (meets_clock.mpr
    (meets_call_det hclock ?_)))
  show (core (r.reclaim t) >>= _).run.Meets _ _ _
  cases hrec : r.reclaim t with
  | error e => exact herr e hrec
  | ok r' => exact meets_core_ok.mpr (hok r' hrec)

theorem Waiting.locked (h : Waiting deltaSecs w r record since)
    (hnow : w.ledger.now.toInt ≤ t.toInt) (hes : ∀ n, (es n).clock = t)
    (ht : t.toInt < since.toInt + deltaSecs.toInt) : Locked deltaSecs w r t es := by
  have hstamped := h.stamped
  have hfirst := h.first
  have hpast := h.past
  have hmeets : (Call.prog deltaSecs (.reclaim r.user r.seq)).Meets
      (Handler.arenaWhere World.synced fun _ e => e.clock = t)
      (fun b w' => (∃ e, b = .error e) ∧ w' = w.atTime t) w := by
    refine meets_run_bind.mpr (h.reclaim_meets (fun e _ => ⟨⟨_, rfl⟩, rfl⟩) ?_)
    intro r' hr'
    obtain ⟨-, hdue, -⟩ := (Redemption.reclaim_ok_of_nonneg h.escrowedAt
      (by omega) (by omega)).mp hr'
    rw [h.delta] at hdue
    omega
  have := syncedCall_at hmeets hes
  exact ⟨this.1, this.2⟩

theorem Waiting.refused (h : Waiting deltaSecs w r record since)
    (hnow : w.ledger.now.toInt ≤ t.toInt) (hes : ∀ n, (es n).clock = t)
    (ht : t.toInt < record.escrowedAt.toInt + 86400) :
    (w.syncedCall deltaSecs (.reclaim r.user r.seq, es)).1 ≠ .ok .done := by
  have hstamped := h.stamped
  have hfirst := h.first
  have hpast := h.past
  have hearly : saturatingSub (w.atTime t).ledger.now record.escrowedAt <
      SimulatedLedger.SIMULATED_DELTA_SECS := by
    have hdelta : SimulatedLedger.SIMULATED_DELTA_SECS.toInt = 86400 := rfl
    have hsub := toInt_saturatingSub_of_nonneg (a := t) (b := record.escrowedAt)
      (by omega) hstamped
    show saturatingSub t record.escrowedAt < _
    rw [Int64.lt_iff_toInt_lt, hsub, hdelta]
    omega
  obtain ⟨err, hrefuse⟩ := (w.atTime t).ledger.reclaimRedemption_early
    h.recorded h.unburned hearly
  have hledger : ∀ e : Env, e.clock = t →
      World.synced e (.ledger (.reclaimRedemption r.user r.seq)) (w.atTime t) =
        (.error err, w.atTime t) := by
    intro e heq
    subst heq
    show (((w.atTime e.clock).ledger.reclaimRedemption r.user r.seq).1,
      { w.atTime e.clock with
        ledger := ((w.atTime e.clock).ledger.reclaimRedemption r.user r.seq).2 }) = _
    rw [hrefuse]
  have hmeets : (Call.prog deltaSecs (.reclaim r.user r.seq)).Meets
      (Handler.arenaWhere World.synced fun _ e => e.clock = t)
      (fun b _ => b ≠ .ok .done) w := by
    refine meets_run_bind.mpr (h.reclaim_meets (fun e _ hb => by cases hb) ?_)
    intro r' _
    refine meets_run_bind.mpr (meets_call_det hledger ?_)
    intro hb
    cases hb
  exact syncedCall_at hmeets hes

theorem Waiting.due (h : Waiting deltaSecs w r record since)
    (hcons : w.ledger.Conserved) (hnow : w.ledger.now.toInt ≤ t.toInt)
    (hes : ∀ n, (es n).clock = t)
    (hrow : since.toInt + deltaSecs.toInt ≤ t.toInt)
    (hrecord : record.escrowedAt.toInt + 86400 ≤ t.toInt) :
    Due deltaSecs w r es := by
  have hstamped := h.stamped
  have hfirst := h.first
  have hpast := h.past
  have hlate : ¬ saturatingSub (w.atTime t).ledger.now record.escrowedAt <
      SimulatedLedger.SIMULATED_DELTA_SECS := by
    have hdelta : SimulatedLedger.SIMULATED_DELTA_SECS.toInt = 86400 := rfl
    have hsub := toInt_saturatingSub_of_nonneg (a := t) (b := record.escrowedAt)
      (by omega) hstamped
    show ¬ saturatingSub t record.escrowedAt < _
    rw [Int64.lt_iff_toInt_lt, hsub, hdelta]
    omega
  obtain ⟨balance, hsum, hgive⟩ := SimulatedLedger.State.reclaimRedemption_due
    (s := (w.atTime t).ledger) hcons h.recorded h.unburned hlate
  have hdue : r.reclaim t = .ok { r with state := .reclaimed } :=
    (Redemption.reclaim_ok_of_nonneg h.escrowedAt (by omega) (by omega)).mpr
      ⟨h.pending, by rw [h.delta]; exact hrow, rfl⟩
  have hlisted : r.isReclaimable t = true :=
    (Redemption.isReclaimable_of_nonneg h.escrowedAt (by omega) (by omega)).mpr
      ⟨h.pending, by rw [h.delta]; exact hrow⟩
  have hsweep : (Call.prog deltaSecs .sweepReclaimable).Meets
      (Handler.arenaWhere World.synced fun _ e => e.clock = t)
      (fun b _ => ∃ due, b = .ok (.reclaimable due) ∧ r ∈ due) w := by
    refine meets_run_bind.mpr (meets_run_bind.mpr (meets_clock.mpr
      (meets_call_where.mpr ?_)))
    intro e heq
    subst heq
    refine meets_call_where.mpr fun e' _ => ⟨_, rfl, ?_⟩
    exact (InMemoryRedemptionRepo.mem_reclaimable rfl).mpr ⟨hlisted, _, h.row⟩
  let w₁ : World := { w with ledger := { w.ledger with
    now := t
    balances := w.ledger.balances.insert r.user balance
    escrows := w.ledger.escrows.erase (r.user, r.seq) } }
  let w₂ : World := { w₁ with
    redemptions := AList.insert r.key { r with state := .reclaimed } w.redemptions }
  have hledger : ∀ e : Env, e.clock = t →
      World.synced e (.ledger (.reclaimRedemption r.user r.seq)) (w.atTime t) =
        (.ok .confirmed, w₁) := by
    intro e heq
    subst heq
    show (((w.atTime e.clock).ledger.reclaimRedemption r.user r.seq).1,
      { w.atTime e.clock with
        ledger := ((w.atTime e.clock).ledger.reclaimRedemption r.user r.seq).2 }) = _
    rw [hgive]
    rfl
  have hupdate : ∀ e : Env, e.clock = t →
      World.synced e (.redemptions (.update { r with state := .reclaimed })) w₁ =
        (.ok (), w₂) := by
    intro e heq
    subst heq
    exact exec_update_of_row (w := w₁) (r := { r with state := .reclaimed }) h.row
  have hreturned : Returned r w w₂ := by
    refine ⟨?_, fun user huser => ?_, rfl⟩
    · show ((AList.lookup r.user (w.ledger.balances.insert r.user balance)).getD
        .zero).toNat = _
      rw [AList.lookup_insert, ← h.amount]
      exact hsum
    · show (AList.lookup user (w.ledger.balances.insert r.user balance)).getD
        .zero = _
      rw [AList.lookup_insert_ne huser]
      rfl
  have hreclaim : (Call.prog deltaSecs (.reclaim r.user r.seq)).Meets
      (Handler.arenaWhere World.synced fun _ e => e.clock = t)
      (fun b w' => b = .ok .done ∧ Returned r w w') w := by
    refine meets_run_bind.mpr (h.reclaim_meets ?_ ?_)
    · intro e he
      rw [hdue] at he
      cases he
    · intro r' hr'
      obtain rfl := Except.ok.inj (hdue.symm.trans hr')
      refine meets_run_bind.mpr (meets_call_det hledger ?_)
      exact meets_call_det hupdate ⟨rfl, hreturned⟩
  have := syncedCall_at hreclaim hes
  exact ⟨syncedCall_at hsweep hes, this.1, this.2⟩

end Boundary

/-! ## Over a run -/

/-- The ledger has escrowed for this key, whatever has come of it since. -/
def Granted (key : String × UInt64) (rows : InMemoryRedemptionRepo) : Prop :=
  ∃ r, rows.lookup key = some r ∧ r.state ≠ .requested ∧ r.state ≠ .failed

theorem Granted.insert {key : String × UInt64} {rows : InMemoryRedemptionRepo}
    (h : Granted key rows) (r : Redemption) (hr : r.state ≠ .requested)
    (hr' : r.state ≠ .failed) : Granted key (AList.insert r.key r rows) := by
  obtain ⟨row, hrow, hstate⟩ := h
  by_cases hkey : key = r.key
  · subst hkey
    exact ⟨r, AList.lookup_insert _, hr, hr'⟩
  · exact ⟨row, by rw [AList.lookup_insert_ne hkey]; exact hrow, hstate⟩

/-- What has been escrowed for is never drafted again. -/
theorem Granted.step {key : String × UInt64} {call : Call} {q q' : Phase}
    {w w' : World} {a : Act Port Port.Reply} (halone : Alone q w)
    (hs : Step call w w' q a q') (h : Granted key w.redemptions) :
    Granted key w'.redemptions := by
  have hcopied := halone.copied
  cases hs with
  | @inserted r _ _ hnone hrow _ =>
      obtain ⟨row, hlook, hstate⟩ := h
      have hkey : key ≠ r.key := AList.ne_of_lookup hlook hnone
      refine ⟨row, ?_, hstate⟩
      rw [hrow, AList.lookup_insert_ne hkey]
      exact hlook
  | found _ _ hw => subst hw; exact h
  | escrowed hrow _ _ => rw [hrow]; exact h
  | applied _ hw => subst hw; exact h
  | @recorded r hrow _ =>
      obtain ⟨hst, -⟩ := hcopied
      rw [hrow]
      exact h.insert r (by rw [hst]; decide) (by rw [hst]; decide)
  | @queued r hrow _ =>
      rw [hrow]
      exact h.insert { r with state := .payoutQueued } (by simp) (by simp)
  | enqueued hrow _ => rw [hrow]; exact h
  | burned _ hrow _ _ _ => rw [hrow]; exact h
  | @confirmed r hrow _ =>
      rw [hrow]
      exact h.insert { r with state := .confirmed } (by simp) (by simp)
  | due _ hw => subst hw; exact h
  | returned hrow _ _ _ _ _ => rw [hrow]; exact h
  | @reclaimed r hrow _ =>
      rw [hrow]
      exact h.insert { r with state := .reclaimed } (by simp) (by simp)
  | other _ _ hrow _ => rw [hrow]; exact h

section Runs

variable [Sha256]

theorem granted_of_update {user : String} {seq seq' : UInt64} {amount : Thb}
    {now now' deltaSecs : Int64} {o : ConfirmOutcome} {r : Redemption} {env : Env}
    {w w' : World}
    (happ : Redemption.applyEscrowOutcome
      ⟨user, seq, amount, .requested, now, none, deltaSecs⟩ o now' = .ok r)
    (hx : World.synced env (.redemptions (.update r)) w = (.ok (), w'))
    (hout : RedemptionService.requestOutcome r user seq = .escrowed user seq') :
    Granted (user, seq') w'.redemptions := by
  have hkey : r.key = (user, seq) := Redemption.applyEscrowOutcome_key happ
  obtain ⟨hst, -, rfl⟩ := RedemptionService.requestOutcome_escrowed hout
  obtain ⟨-, hx'⟩ | hx' := exec_update (e := env) (w := w.atTime env.clock) (r := r)
  · cases hx.symm.trans hx'
  · rw [(Prod.mk.inj (hx.symm.trans hx')).2, ← hkey]
    exact ⟨r, AList.lookup_insert _, by rw [hst]; decide, by rw [hst]; decide⟩

theorem request_grants (deltaSecs : Int64) (user : String) (amount : Thb)
    (w : World) :
    (Call.prog deltaSecs (.request user amount)).Meets
      (Handler.arena World.synced)
      (fun b w' => ∀ seq, b = .ok (.redemption (.escrowed user seq)) →
        Granted (user, seq) w'.redemptions) w := by
  have herr : ∀ (e : PortError) (w' : World) (seq : UInt64),
      (Except.error e : PortResult CallOutcome) =
        .ok (.redemption (.escrowed user seq)) → Granted (user, seq) w'.redemptions :=
    fun e w' seq hb => by cases hb
  refine meets_run_bind.mpr (meets_run_bind.mpr (meets_clock.mpr ⟨trivial, ?_⟩))
  intro now w₁ _
  refine meets_run_bind.mpr ⟨trivial, ?_⟩
  intro b w₂ _
  cases b with
  | error e => exact herr e w₂
  | ok seq =>
      simp only [meets_return]
      cases hreq : Redemption.request user seq amount deltaSecs now with
      | error e => exact herr _ w₂
      | ok r =>
          obtain ⟨-, rfl⟩ := Redemption.request_ok.mp hreq
          refine meets_core_ok.mpr (meets_run_bind.mpr ⟨trivial, ?_⟩)
          intro b w₃ _
          cases b with
          | error e => exact herr e w₃
          | ok u =>
              refine meets_run_bind.mpr ⟨trivial, ?_⟩
              intro b w₄ _
              cases b with
              | error e => exact herr e w₄
              | ok o =>
                  refine meets_run_bind.mpr (meets_clock.mpr ⟨trivial, ?_⟩)
                  intro now' w₅ _
                  dsimp only
                  cases happ : Redemption.applyEscrowOutcome
                      ⟨user, seq, amount, .requested, now, none, deltaSecs⟩ o now' with
                  | error e => exact herr _ w₅
                  | ok r =>
                      refine meets_core_ok.mpr (meets_run_bind.mpr ⟨trivial, ?_⟩)
                      intro b w₆ ⟨env, hx⟩
                      cases b with
                      | error e => exact herr e w₆
                      | ok u =>
                          intro seq' hb
                          exact granted_of_update happ hx
                            (CallOutcome.redemption.inj (Except.ok.inj hb))

theorem Timed.waits {deltaSecs : Int64} {w : World} (h : Timed deltaSecs .idle w)
    {calls : List (Call × (ℕ → Env))} (hcalls : Timely deltaSecs w calls)
    {user : String} {seq : UInt64} (hesc : EscrowedIn deltaSecs w calls user seq)
    (hopen : Unsettled (w.syncedCalls deltaSecs calls) user seq) :
    ∃ r record since, r.key = (user, seq) ∧
      Waiting deltaSecs (w.syncedCalls deltaSecs calls) r record since := by
  obtain ⟨before, amount, es, after, rfl, hret⟩ := hesc
  obtain ⟨hbefore, hcall, hon, hafter⟩ := timely_append.mp hcalls
  obtain ⟨h₁, -⟩ := h.syncedCalls (I := fun _ => True) (fun _ _ _ => trivial)
    trivial hbefore
  obtain ⟨h₂, -⟩ := h₁.syncedCall (I := fun _ => True) (fun _ _ _ => trivial)
    trivial hcall hon
  have hgranted := meets_run (request_grants deltaSecs user amount
    (w.syncedCalls deltaSecs before)) es seq hret
  obtain ⟨h₃, r, hrow, hreq, hfail⟩ :=
    h₂.syncedCalls (I := Granted (user, seq)) Granted.step hgranted hafter
  have hend : (((w.syncedCalls deltaSecs before).syncedCall deltaSecs
      (.request user amount, es)).2).syncedCalls deltaSecs after =
        w.syncedCalls deltaSecs (before ++ (.request user amount, es) :: after) :=
    (syncedCalls_append deltaSecs w before (_ :: after)).symm
  rw [hend] at h₃ hrow
  obtain ⟨hconf, hrecl⟩ := hopen r hrow
  have hp : r.state.isPending = true := by
    cases hs : r.state with
    | requested => exact absurd hs hreq
    | escrowed => rfl
    | payoutQueued => rfl
    | confirmed => exact absurd hs hconf
    | reclaimed => exact absurd hs hrecl
    | failed => exact absurd hs hfail
  obtain ⟨hkey, record, since, hwait⟩ := h₃.waiting hrow hp
  exact ⟨r, record, since, hkey, hwait⟩

end Runs

/-! ## The two Δ -/

/-- A Δ of at least a day outlasts the ledger's. -/
theorem recoverable_of_le {deltaSecs : Int64} (h : 86400 ≤ deltaSecs) :
    Recoverability deltaSecs := by
  intro _ reserve ttlSecs start calls w₀ w hstart hcalls user seq hesc hopen
  have hdelta : 86400 ≤ deltaSecs.toInt := Int64.le_iff_toInt_le.mp h
  have htimed := timed_fresh deltaSecs reserve ttlSecs start hstart
  obtain ⟨hend, -⟩ := htimed.syncedCalls (I := fun _ => True)
    (fun _ _ _ => trivial) trivial hcalls
  obtain ⟨r, record, since, hkey, hwait⟩ := htimed.waits hcalls hesc hopen
  refine ⟨r, since, ?_, hwait.escrowedAt, fun t es hnow hes => ⟨fun ht => ?_, ?_⟩⟩
  · rw [← hkey]
    exact hwait.row
  · have hfirst := hwait.first
    exact hwait.due hend.conserved hnow hes ht (by omega)
  · exact hwait.locked hnow hes

def escrowedAtZero : List (Call × (ℕ → Env)) :=
  [(Sample.deposit Sample.scb1, fun _ => Sample.env 0 .pass),
    (.request "alice" ⟨100⟩, fun _ => Sample.env 0 .pass)]

open Sample in
theorem timely_escrowedAtZero (deltaSecs : Int64) :
    Timely deltaSecs treasury escrowedAtZero := by
  have hon : ∀ s, onRampPort s → ∀ t, s ≠ .simulator (.setNow t) := by
    intro s hs t heq
    subst heq
    exact hs
  have hoff : ∀ s, offRampPort s → ∀ t, s ≠ .simulator (.setNow t) := by
    intro s hs t heq
    subst heq
    exact hs
  refine ⟨fun t h => (by cases h), ?_, fun t h => (by cases h), ?_, trivial⟩
  · exact along_onward ((call_uses deltaSecs (deposit scb1)).mono hon)
      (fun _ => rfl) (Int.le_refl _)
  · exact along_onward ((call_uses deltaSecs (.request "alice" ⟨100⟩)).mono hoff)
      (fun _ => rfl) (Int.le_refl _)

open Sample in
/-- With a shorter one, the last second of the day is too early for the ledger
alone. -/
theorem not_recoverable {deltaSecs : Int64} (h : deltaSecs < 86400) :
    ¬ Recoverability deltaSecs := by
  intro hrec
  have hdelta : deltaSecs.toInt < 86400 := Int64.lt_iff_toInt_lt.mp h
  have hcalls := timely_escrowedAtZero deltaSecs
  have hrow : (treasury.syncedCalls deltaSecs escrowedAtZero).redemptions.lookup
      ("alice", 1) = some ⟨"alice", 1, ⟨100⟩, .escrowed, 0, some 0, deltaSecs⟩ := rfl
  have hesc : EscrowedIn deltaSecs treasury escrowedAtZero "alice" 1 :=
    ⟨[_], ⟨100⟩, _, [], rfl, rfl⟩
  have hopen : Unsettled (treasury.syncedCalls deltaSecs escrowedAtZero)
      "alice" 1 := by
    intro r hr
    obtain rfl := Option.some.inj (hrow.symm.trans hr)
    exact ⟨by simp, by simp⟩
  obtain ⟨r, since, hr, hsince, hboth⟩ :=
    hrec ⟨100⟩ 3600 0 escrowedAtZero (Int.le_refl _) hcalls "alice" 1 hesc hopen
  obtain rfl := Option.some.inj (hrow.symm.trans hr)
  obtain rfl := Option.some.inj hsince
  obtain ⟨hend, -⟩ := (timed_fresh deltaSecs ⟨100⟩ 3600 0 (Int.le_refl _)).syncedCalls
    (I := fun _ => True) (fun _ _ _ => trivial) trivial hcalls
  obtain ⟨-, record, since, hwait⟩ := hend.waiting hrow rfl
  obtain rfl := Option.some.inj hwait.escrowedAt
  have hnow : ((World.fresh (SimulatedLedger.new ⟨100⟩ 3600 0)).syncedCalls deltaSecs
    escrowedAtZero).ledger.now = 0 := rfl
  have hstamped := hwait.stamped
  have h₀ : (0 : Int64).toInt = 0 := rfl
  have h₁ : (86399 : Int64).toInt = 86399 := rfl
  have hes : ∀ n : ℕ, ((fun _ => env 86399 .pass) n : Env).clock = 86399 :=
    fun _ => rfl
  refine hwait.refused ?_ hes (by omega) ((hboth 86399 _ ?_ hes).1 ?_).reclaims
  · rw [hnow]; decide
  · rw [hnow]; decide
  · omega

end OffRamp

open OffRamp

/-- A reclaim is possible exactly when the service says so if the Δ of the
service is at least the ledger's, and only then. -/
theorem recoverable_iff (deltaSecs : Int64) :
    Recoverability deltaSecs ↔ 86400 ≤ deltaSecs := by
  refine ⟨fun h => ?_, recoverable_of_le⟩
  have hnot : ¬ deltaSecs < 86400 := fun hlt => not_recoverable hlt h
  rw [Int64.lt_iff_toInt_lt] at hnot
  rw [Int64.le_iff_toInt_le]
  omega

open Sample in
/-- With a Δ of an hour the sweep lists the redemption after the hour, and the
reclaim is refused. -/
theorem listed_and_refused :
    let w := treasury.syncedCalls 3600 escrowedAtZero
    let es : ℕ → Env := fun _ => env 3600 .pass
    EscrowedIn 3600 treasury escrowedAtZero "alice" 1 ∧
      (w.syncedCall 3600 (.sweepReclaimable, es)).1 = .ok (.reclaimable
        [⟨"alice", 1, ⟨100⟩, .escrowed, 0, some 0, 3600⟩]) ∧
      (w.syncedCall 3600 (.reclaim "alice" 1, es)).1 = .error (.rejected
        "F7: timelock not expired (3600s of 86400s)") ∧
      ¬ Recoverability 3600 :=
  ⟨⟨[_], ⟨100⟩, _, [], rfl, rfl⟩, by decide, by decide, not_recoverable (by decide)⟩

end Thbc
