import Thbc.System.Clocked
import Thbc.Proofs.Identity

/-!
# The two times of an escrow

On one clock, what the times on both sides of a redemption have to do with
each other at every port call of a call that nothing overlaps: a record is
stamped before its row is, both with readings of the clock, and each row
carries the Δ of the service.
-/

namespace Thbc

open Thbc.Lib Thbc.Service

namespace OffRamp

/-- The times of a row and of the record of its key. -/
structure Ticks (deltaSecs now : Int64) (r : Redemption)
    (record : Option SimulatedLedger.EscrowRecord) : Prop where
  delta : r.deltaSecs = deltaSecs
  row : ∀ since, r.escrowedAt = some since →
    0 ≤ since.toInt ∧ since.toInt ≤ now.toInt
  record : ∀ e, record = some e →
    0 ≤ e.escrowedAt.toInt ∧ e.escrowedAt.toInt ≤ now.toInt ∧
      ∀ since, r.escrowedAt = some since → e.escrowedAt.toInt ≤ since.toInt

theorem Ticks.mono {deltaSecs now now' : Int64} {r : Redemption}
    {record : Option SimulatedLedger.EscrowRecord}
    (h : Ticks deltaSecs now r record) (hnow : now.toInt ≤ now'.toInt) :
    Ticks deltaSecs now' r record where
  delta := h.delta
  row := by
    intro since hs
    have := h.row since hs
    omega
  record := by
    intro e he
    obtain ⟨h₀, h₁, h₂⟩ := h.record e he
    exact ⟨h₀, by omega, h₂⟩

/-- The state of a row tells no time. -/
theorem Ticks.withState {deltaSecs now : Int64} {r : Redemption}
    {record : Option SimulatedLedger.EscrowRecord}
    (h : Ticks deltaSecs now r record) (s : RedemptionState) :
    Ticks deltaSecs now { r with state := s } record :=
  ⟨h.delta, h.row, h.record⟩

theorem Ticks.without {deltaSecs now : Int64} {r : Redemption}
    {record : Option SimulatedLedger.EscrowRecord}
    (h : Ticks deltaSecs now r record) : Ticks deltaSecs now r none :=
  ⟨h.delta, h.row, fun e he => by cases he⟩

/-- The times of all rows. -/
def AllTick (deltaSecs now : Int64) (rows : InMemoryRedemptionRepo)
    (escrows : HashMap (String × UInt64) SimulatedLedger.EscrowRecord) : Prop :=
  ∀ k r, rows.lookup k = some r → Ticks deltaSecs now r (escrows.lookup k)

section AllTick

variable {deltaSecs now : Int64} {rows : InMemoryRedemptionRepo}
  {escrows : HashMap (String × UInt64) SimulatedLedger.EscrowRecord}

theorem AllTick.insert (h : AllTick deltaSecs now rows escrows)
    {key : String × UInt64} {r : Redemption}
    (hr : Ticks deltaSecs now r (escrows.lookup key)) :
    AllTick deltaSecs now (AList.insert key r rows) escrows :=
  AList.lookup_insert_all h hr

theorem AllTick.record (h : AllTick deltaSecs now rows escrows)
    {key : String × UInt64} {e : SimulatedLedger.EscrowRecord}
    (hr : ∀ r, rows.lookup key = some r → Ticks deltaSecs now r (some e)) :
    AllTick deltaSecs now rows (escrows.insert key e) := by
  intro k r hk
  by_cases hkey : k = key
  · subst hkey
    rw [AList.lookup_insert]
    exact hr r hk
  · rw [AList.lookup_insert_ne hkey]
    exact h k r hk

theorem AllTick.erase (h : AllTick deltaSecs now rows escrows)
    (key : String × UInt64) : AllTick deltaSecs now rows (escrows.erase key) := by
  intro k r hk
  by_cases hkey : k = key
  · subst hkey
    rw [AList.lookup_erase]
    exact (h k r hk).without
  · rw [AList.lookup_erase_ne hkey]
    exact h k r hk

/-- A new record, and the row it belongs to in a new state. -/
theorem AllTick.advance (h : AllTick deltaSecs now rows escrows)
    {key : String × UInt64} {r : Redemption} {e : SimulatedLedger.EscrowRecord}
    (hlook : rows.lookup key = some r) (hr : Ticks deltaSecs now r (some e))
    (s : RedemptionState) :
    AllTick deltaSecs now (AList.insert key { r with state := s } rows)
      (escrows.insert key e) := by
  refine AllTick.insert (h.record fun r' hr' => ?_) ?_
  · obtain rfl : r = r' := Option.some.inj (hlook.symm.trans hr')
    exact hr
  · rw [AList.lookup_insert]
    exact hr.withState s

end AllTick

/-- A draft has a time once the answer of the ledger is applied to it. -/
def Phase.Stamp : Phase → Prop
  | .drafting r .applied => r.escrowedAt ≠ none
  | .drafting r _ => r.escrowedAt = none
  | _ => True

/-- A row that waits has a time to wait from. -/
def Started (rows : InMemoryRedemptionRepo) : Prop :=
  ∀ k r, rows.lookup k = some r → r.state.isPending = true → r.escrowedAt ≠ none

theorem Started.insert {rows : InMemoryRedemptionRepo} (h : Started rows)
    {key : String × UInt64} {r : Redemption}
    (hr : r.state.isPending = true → r.escrowedAt ≠ none) :
    Started (AList.insert key r rows) :=
  AList.lookup_insert_all h hr

/-- What holds at every port call of a call that nothing overlaps. -/
structure Timed (deltaSecs : Int64) (q : Phase) (w : World) : Prop where
  alone : Alone q w
  conserved : w.ledger.Conserved
  now : 0 ≤ w.ledger.now.toInt
  ticks : AllTick deltaSecs w.ledger.now (q.settled w.redemptions) w.ledger.escrows
  stamp : q.Stamp
  started : Started w.redemptions

theorem Timed.atTime {deltaSecs : Int64} {q : Phase} {w : World}
    (h : Timed deltaSecs q w) {t : Int64} (ht : w.ledger.now.toInt ≤ t.toInt) :
    Timed deltaSecs q (w.atTime t) where
  alone := ⟨h.alone.keyed, h.alone.copied, h.alone.agrees⟩
  conserved := h.conserved
  now := Int.le_trans h.now ht
  ticks k r hk := (h.ticks k r hk).mono ht
  stamp := h.stamp
  started := h.started

section Step

variable {deltaSecs : Int64} {call : Call} {w w' : World} {q q' : Phase}
  {a : Act Port Port.Reply}

/-- Whatever is written as waiting has a time by then. -/
theorem Timed.started_step (h : Timed deltaSecs q w) (hs : Step call w w' q a q') :
    Started w'.redemptions := by
  have hcopied := h.alone.copied
  have hstamp := h.stamp
  cases hs with
  | inserted hr _ _ hrow _ =>
      rw [hrow]
      refine h.started.insert fun hp => ?_
      rw [hr] at hp
      cases hp
  | recorded hrow _ =>
      rw [hrow]
      exact h.started.insert fun _ => hstamp
  | @queued r hrow _ =>
      obtain ⟨hlook, hst⟩ := hcopied
      rw [hrow]
      exact h.started.insert fun _ => h.started r.key r hlook (pending_of_escrowed hst)
  | confirmed hrow _ =>
      rw [hrow]
      exact h.started.insert fun hp => by cases hp
  | reclaimed hrow _ =>
      rw [hrow]
      exact h.started.insert fun hp => by cases hp
  | found _ _ hw => rw [hw]; exact h.started
  | applied _ hw => rw [hw]; exact h.started
  | due _ hw => rw [hw]; exact h.started
  | escrowed hrow _ _ => rw [hrow]; exact h.started
  | enqueued hrow _ => rw [hrow]; exact h.started
  | burned _ hrow _ _ _ => rw [hrow]; exact h.started
  | returned hrow _ _ _ _ _ => rw [hrow]; exact h.started
  | other _ _ hrow _ => rw [hrow]; exact h.started

/-- A draft gets its time from the answer of the ledger and from nowhere
else. -/
theorem Timed.stamp_step (h : Timed deltaSecs q w) (hs : Step call w w' q a q')
    (hdraft : ∀ r, a.1 = .redemptions (.insert r) → call.isRequest = true →
      r.deltaSecs = deltaSecs ∧ r.escrowedAt = none) : q'.Stamp := by
  have hcopied := h.alone.copied
  have hstamp := h.stamp
  cases hs with
  | @inserted r _ hcall _ _ _ => exact (hdraft r rfl (by rw [hcall]; rfl)).2
  | found hstage _ _ =>
      obtain ⟨rfl, -⟩ | ⟨rfl, -⟩ | ⟨rfl, -⟩ := settles_cases hstage
      · trivial
      · trivial
      · trivial
  | escrowed _ _ _ => exact hstamp
  | @applied r r' o now happ _ =>
      obtain ⟨-, -, rfl⟩ := hcopied
      obtain ⟨-, rfl⟩ := Redemption.applyEscrowOutcome_confirmed.mp happ
      exact Option.some_ne_none _
  | @burned r record q' hq' _ _ _ _ =>
      rw [hq']
      split
      · trivial
      · trivial
  | _ => trivial

/-- The times of the rows and the records. The reading the step may take is what
the ledger shows. -/
theorem Timed.ticks_step (h : Timed deltaSecs q w) (hs : Step call w w' q a q')
    (hdraft : ∀ r, a.1 = .redemptions (.insert r) → call.isRequest = true →
      r.deltaSecs = deltaSecs ∧ r.escrowedAt = none)
    (hclock : ∀ now, a = ⟨.clock, now⟩ → now = w.ledger.now) :
    AllTick deltaSecs w.ledger.now (q'.settled w'.redemptions) w'.ledger.escrows := by
  have hcopied := h.alone.copied
  have hticks := h.ticks
  -- The write of a row that the ledger is ahead of, and the steps that leave
  -- both sides alone.
  have hidle : w'.redemptions = q.settled w.redemptions →
      w'.ledger.escrows = w.ledger.escrows →
      AllTick deltaSecs w.ledger.now (Phase.settled .idle w'.redemptions)
        w'.ledger.escrows := by
    intro hrow hesc
    show AllTick deltaSecs w.ledger.now w'.redemptions w'.ledger.escrows
    rw [hrow, hesc]
    exact hticks
  cases hs with
  | @inserted r hr hcall hnone hrow hled =>
      obtain ⟨hdelta, hunstamped⟩ := hdraft r rfl (by rw [hcall]; rfl)
      have hagrees : Agrees (w.redemptions.lookup r.key)
        (w.ledger.escrows.lookup r.key) := h.alone.agrees r.key
      rw [hnone] at hagrees
      have hrec : w.ledger.escrows.lookup r.key = none := hagrees.record_none
      show AllTick deltaSecs w.ledger.now w'.redemptions w'.ledger.escrows
      rw [hrow, hled]
      refine hticks.insert ?_
      rw [hrec]
      refine ⟨hdelta, fun since hs => ?_, fun e he => by cases he⟩
      rw [hunstamped] at hs
      cases hs
  | found hstage _ hw =>
      subst hw
      obtain ⟨rfl, -⟩ | ⟨rfl, -⟩ | ⟨rfl, -⟩ := settles_cases hstage
      · exact hticks
      · exact hticks
      · exact hticks
  | @escrowed r hrow hnone hesc =>
      obtain ⟨hlook, -⟩ := hcopied
      have hunstamped : r.escrowedAt = none := h.stamp
      show AllTick deltaSecs w.ledger.now (AList.insert r.key
        { r with state := .escrowed } w'.redemptions) w'.ledger.escrows
      rw [hrow, hesc]
      refine hticks.advance hlook ⟨(hticks r.key r hlook).delta,
        (hticks r.key r hlook).row, fun e he => ?_⟩ .escrowed
      cases he
      refine ⟨h.now, Int.le_refl _, fun since hs => ?_⟩
      rw [hunstamped] at hs
      cases hs
  | @applied r r' o now happ hw =>
      subst hw
      obtain ⟨-, -, rfl⟩ := hcopied
      obtain ⟨-, rfl⟩ := Redemption.applyEscrowOutcome_confirmed.mp happ
      obtain rfl := hclock now rfl
      have hold : Ticks deltaSecs w'.ledger.now { r with state := .escrowed }
          (w'.ledger.escrows.lookup r.key) := hticks r.key _ (AList.lookup_insert _)
      have hnew : AllTick deltaSecs w'.ledger.now (AList.insert r.key
          { r with state := .escrowed, escrowedAt := some w'.ledger.now }
          (AList.insert r.key { r with state := .escrowed } w'.redemptions))
          w'.ledger.escrows := by
        refine hticks.insert ⟨hold.delta, fun since hs => ?_, fun e he => ?_⟩
        · cases hs
          exact ⟨h.now, Int.le_refl _⟩
        · obtain ⟨h₀, h₁, -⟩ := hold.record e he
          refine ⟨h₀, h₁, fun since hs => ?_⟩
          cases hs
          exact h₁
      rw [AList.insert_insert] at hnew
      exact hnew
  | @queued r hrow hled =>
      obtain ⟨hlook, -⟩ := hcopied
      show AllTick deltaSecs w.ledger.now w'.redemptions w'.ledger.escrows
      rw [hrow, hled]
      exact hticks.insert ((hticks r.key r hlook).withState .payoutQueued)
  | @burned r record q' hq' hrow hrec hb hesc =>
      have hlook : w.redemptions.lookup r.key = some r := hcopied
      rw [if_pos (h.alone.unburned hrec hb).1] at hq'
      subst hq'
      have hold := hticks r.key r hlook
      show AllTick deltaSecs w.ledger.now (AList.insert r.key
        { r with state := .confirmed } w'.redemptions) w'.ledger.escrows
      rw [hrow, hesc]
      refine hticks.advance hlook ⟨hold.delta, hold.row, fun e he => ?_⟩ .confirmed
      cases he
      exact hold.record record hrec
  | @returned r record hrow _ _ _ _ hesc =>
      obtain ⟨hlook, -⟩ := hcopied
      show AllTick deltaSecs w.ledger.now (AList.insert r.key
        { r with state := .reclaimed } w'.redemptions) w'.ledger.escrows
      rw [hrow, hesc]
      refine AllTick.insert (AllTick.erase hticks r.key) ?_
      rw [AList.lookup_erase]
      exact (hticks r.key r hlook).without.withState .reclaimed
  | due _ hw => subst hw; exact hticks
  | recorded hrow hled => exact hidle hrow (congrArg _ hled)
  | enqueued hrow hled => exact hidle hrow (congrArg _ hled)
  | confirmed hrow hled => exact hidle hrow (congrArg _ hled)
  | reclaimed hrow hled => exact hidle hrow (congrArg _ hled)
  | other _ hdrop hrow hesc =>
      refine hidle ?_ hesc
      rw [h.alone.settled_of_drop hdrop]
      exact hrow

/-- One port call of a call that nothing overlaps. -/
theorem Timed.step (h : Timed deltaSecs q w)
    (hs : Step call w w' q a q') (hcons : w'.ledger.Conserved)
    (hnow : w'.ledger.now = w.ledger.now)
    (hdraft : ∀ r, a.1 = .redemptions (.insert r) → call.isRequest = true →
      r.deltaSecs = deltaSecs ∧ r.escrowedAt = none)
    (hclock : ∀ now, a = ⟨.clock, now⟩ → now = w.ledger.now) :
    Timed deltaSecs q' w' where
  alone := h.alone.step hs
  conserved := hcons
  now := by rw [hnow]; exact h.now
  ticks := by rw [hnow]; exact h.ticks_step hs hdraft hclock
  stamp := h.stamp_step hs hdraft
  started := h.started_step hs

end Step

/-! ## Whole calls -/

section Runs

variable [Sha256]

/-- A draft starts without a time and with the Δ of the service. -/
def drafts (deltaSecs : Int64) (call : Call) : Grammar Port Port.Reply Unit where
  start := ()
  advance _ _ := ()
  asks _ s := ∀ r, s = .redemptions (.insert r) → call.isRequest = true →
    r.deltaSecs = deltaSecs ∧ r.escrowedAt = none
  ends _ := True
  hears _ _ := True

omit [Sha256] in
theorem request_drafts (deltaSecs : Int64) (user : String) (amount : Thb) :
    (RedemptionService.request deltaSecs user amount).run.Uses fun s =>
      ∀ r, s = .redemptions (.insert r) →
        r.deltaSecs = deltaSecs ∧ r.escrowedAt = none := by
  have hno : ∀ {s : Port}, (∀ r, s ≠ .redemptions (.insert r)) →
      ∀ r, s = .redemptions (.insert r) →
        r.deltaSecs = deltaSecs ∧ r.escrowedAt = none :=
    fun h r hr => absurd hr (h r)
  refine uses_run_bind (uses_clock (hno (by intro r h; cases h))) fun now => ?_
  refine uses_run_bind (uses_call (hno (by intro r h; cases h))) fun seq => ?_
  cases hreq : Redemption.request user seq amount deltaSecs now with
  | error e => trivial
  | ok r =>
      obtain ⟨-, rfl⟩ := Redemption.request_ok.mp hreq
      refine uses_core_ok.mpr (uses_run_bind (uses_call ?_) fun _ => ?_)
      · intro r h
        cases h
        exact ⟨rfl, rfl⟩
      · refine uses_run_bind (uses_call (hno (by intro r h; cases h))) fun outcome => ?_
        refine uses_run_bind (uses_clock (hno (by intro r h; cases h))) fun now' => ?_
        refine uses_run_bind (uses_core _) fun r' => ?_
        exact uses_run_bind (uses_call (hno (by intro r h; cases h))) fun _ => trivial

theorem call_drafts (deltaSecs : Int64) (call : Call) :
    (call.prog deltaSecs).Obeys (drafts deltaSecs call) () := by
  have hno : call.isRequest = false →
      (call.prog deltaSecs).Obeys (drafts deltaSecs call) () := by
    intro hcall
    refine (uses_any _).obeys (fun s _ => ⟨fun r _ h => ?_, fun _ => rfl⟩) trivial
    rw [hcall] at h
    cases h
  cases call with
  | request user amount =>
      have huses : (Call.prog deltaSecs (.request user amount)).Uses _ :=
        uses_run_bind (request_drafts deltaSecs user amount) fun _ => trivial
      exact huses.obeys (fun s hs => ⟨fun r hr _ => hs r hr, fun _ => rfl⟩) trivial
  | _ => exact hno rfl

/-- A port call of a service, and the next reading of the clock. -/
theorem Timed.synced {deltaSecs : Int64} {call : Call} {q : Phase} {w : World}
    {s : Port} {e : Env} (h : Timed deltaSecs q w) (hon : Onward w e)
    (hramp : (grammar call).asks q s)
    (hdraft : ∀ r, s = .redemptions (.insert r) → call.isRequest = true →
      r.deltaSecs = deltaSecs ∧ r.escrowedAt = none)
    (hplain : ∀ t, s ≠ .simulator (.setNow t)) :
    Timed deltaSecs ((grammar call).advance q ⟨s, (World.synced e s w).1⟩)
      (World.synced e s w).2 := by
  refine (h.atTime hon).step (step_exec hramp) ?_ (now_synced hplain) hdraft ?_
  · exact conserved_exec (w := w.atTime e.clock) h.conserved e s
  · intro now ha
    obtain ⟨rfl, hnow⟩ := Sigma.mk.inj ha
    exact (eq_of_heq hnow).symm

/-- A call that nothing overlaps keeps the times in order, and what its port
calls keep of the rows besides. -/
theorem Timed.syncedCall {deltaSecs : Int64} {I : InMemoryRedemptionRepo → Prop}
    (hI : ∀ {call : Call} {q q' : Phase} {w w' : World} {a : Act Port Port.Reply},
      Alone q w → Step call w w' q a q' → I w.redemptions → I w'.redemptions)
    {w : World} (h : Timed deltaSecs .idle w) (hw : I w.redemptions)
    {call : Call × (ℕ → Env)} (hcall : ∀ t, call.1 ≠ .control (.setNow t))
    (hes : (call.1.prog deltaSecs).Along World.synced Onward call.2 w) :
    Timed deltaSecs .idle (w.syncedCall deltaSecs call).2 ∧
      I (w.syncedCall deltaSecs call).2.redemptions := by
  let G := (grammar call.1).prod
    ((drafts deltaSecs call.1).prod (Attesting.grammar call.1))
  let J (q : Phase × Unit × Option Thb) (w : World) :=
    Timed deltaSecs q.1 w ∧ I w.redemptions
  have hobeys : (call.1.prog deltaSecs).Obeys G (.idle, (), none) :=
    (call_obeys deltaSecs call.1).prod
      ((call_drafts deltaSecs call.1).prod (Attesting.call_obeys deltaSecs call.1))
  have hhears : ∀ q w s e, J q w → G.hears s (World.synced e s w).1 :=
    fun q w s e hJ => ⟨hears_exec (w := w.atTime e.clock) hJ.1.alone.keyed s,
      trivial, trivial⟩
  have hstep : ∀ q w s e, J q w → Onward w e → G.asks q s →
      J (G.advance q ⟨s, (World.synced e s w).1⟩) (World.synced e s w).2 := by
    intro q w s e hJ hon hasks
    refine ⟨hJ.1.synced hon hasks.1 hasks.2.1 fun t hs => ?_, ?_⟩
    · subst hs
      exact hcall t hasks.2.2
    · exact hI (hJ.1.atTime hon).alone (step_exec hasks.1) hJ.2
  obtain ⟨q, ⟨hq, -⟩, hJ⟩ := hobeys.run_along hhears hstep ⟨h, hw⟩ hes
  have hidle : q.1 = .idle := hq
  simp only [J, hidle] at hJ
  exact hJ

omit [Sha256] in
theorem timed_fresh (deltaSecs : Int64) (reserve : Thb) (ttlSecs start : Int64)
    (hstart : 0 ≤ start.toInt) :
    Timed deltaSecs .idle
      (World.fresh (SimulatedLedger.new reserve ttlSecs start)) where
  alone := alone_idle.mpr (inStep_new reserve ttlSecs start)
  conserved := SimulatedLedger.State.conserved_new reserve ttlSecs start
  now := hstart
  ticks k r h := by cases h
  stamp := trivial
  started k r h := by cases h

/-- Whatever ran before, on a clock that never went back. -/
theorem Timed.syncedCalls {deltaSecs : Int64} {I : InMemoryRedemptionRepo → Prop}
    (hI : ∀ {call : Call} {q q' : Phase} {w w' : World} {a : Act Port Port.Reply},
      Alone q w → Step call w w' q a q' → I w.redemptions → I w'.redemptions)
    {w : World} (h : Timed deltaSecs .idle w) (hw : I w.redemptions)
    {calls : List (Call × (ℕ → Env))} (hcalls : Timely deltaSecs w calls) :
    Timed deltaSecs .idle (w.syncedCalls deltaSecs calls) ∧
      I (w.syncedCalls deltaSecs calls).redemptions := by
  induction calls generalizing w with
  | nil => exact ⟨h, hw⟩
  | cons call calls ih =>
      obtain ⟨h', hw'⟩ := h.syncedCall hI hw hcalls.1 hcalls.2.1
      exact ih h' hw' hcalls.2.2

end Runs

end OffRamp

end Thbc
