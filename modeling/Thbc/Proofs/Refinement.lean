import Thbc.System.OffRampStep

/-!
# The store refines the ledger

A redemption is kept twice: as a row of the repository and as an escrow record
of the ledger. `Agrees` says how the two of one key belong together while no
call is under way.

Inside a call the ledger moves first and the row follows. `Phase.ahead` is the
row as the ledger has it already, so that what a single call keeps at every
port call is `Agrees` for the rows with that one write carried out
(`Phase.settled`). The write itself then changes nothing, and a call that
returns has made it.
-/

namespace Thbc.OffRamp

open Thbc.Lib

/-- A row and the escrow record of the same key. -/
def Agrees : Option Redemption → Option SimulatedLedger.EscrowRecord → Prop
  | some r, some record =>
      record.amount = r.amount ∧
        ((r.state.isPending = true ∧ record.burned = false) ∨
          (r.state = .confirmed ∧ record.burned = true))
  | some r, none =>
      r.state = .requested ∨ r.state = .failed ∨ r.state = .reclaimed
  | none, none => True
  | none, some _ => False

/-- No call is under way, and every row agrees with its record. -/
structure InStep (w : World) : Prop where
  keyed : Keyed w.redemptions
  agrees : ∀ k, Agrees (w.redemptions.lookup k) (w.ledger.escrows.lookup k)

/-- The row as the ledger has it already, where it is ahead of the store. -/
def Phase.ahead : Phase → Option Redemption
  | .drafting r (.answered .confirmed) => some { r with state := .escrowed }
  | .drafting r .applied => some r
  | .settling r .burned => some { r with state := .confirmed }
  | .settling r .returned => some { r with state := .reclaimed }
  | _ => none

/-- The rows once the call has written what the ledger has already. -/
def Phase.settled (q : Phase) (rows : InMemoryRedemptionRepo) :
    InMemoryRedemptionRepo :=
  match q.ahead with
  | some r => AList.insert r.key r rows
  | none => rows

/-- What the copy of a call has to do with its row, when no other call is
under way. -/
def Phase.Copied (rows : InMemoryRedemptionRepo) : Phase → Prop
  | .idle => True
  | .drafting r .inserted => rows.lookup r.key = some r ∧ r.state = .requested
  | .drafting r (.answered o) =>
      rows.lookup r.key = some r ∧ r.state = .requested ∧ o = .confirmed
  | .drafting r .applied =>
      r.state = .escrowed ∧
        ∃ row, rows.lookup r.key = some row ∧ row.state = .requested
  | .settling r .queueing => rows.lookup r.key = some r ∧ r.state = .escrowed
  | .settling _ .queued => True
  | .settling r .confirming | .settling r .reclaiming =>
      rows.lookup r.key = some r
  | .settling r .burned | .settling r .returning | .settling r .returned =>
      rows.lookup r.key = some r ∧ r.state.isPending = true

/-- What holds at every port call of a call that nothing overlaps. -/
structure Alone (q : Phase) (w : World) : Prop where
  keyed : Keyed w.redemptions
  copied : q.Copied w.redemptions
  agrees : ∀ k, Agrees ((q.settled w.redemptions).lookup k)
    (w.ledger.escrows.lookup k)

theorem alone_idle {w : World} : Alone .idle w ↔ InStep w :=
  ⟨fun h => ⟨h.keyed, h.agrees⟩, fun h => ⟨h.keyed, trivial, h.agrees⟩⟩

/-- Agreement after a write: the written row has to agree, and all others. -/
theorem agrees_insert {rows : InMemoryRedemptionRepo}
    {escrows : HashMap (String × UInt64) SimulatedLedger.EscrowRecord}
    (key : String × UInt64) {r : Redemption} :
    (∀ k, Agrees ((AList.insert key r rows).lookup k) (escrows.lookup k)) ↔
      Agrees (some r) (escrows.lookup key) ∧
        ∀ k, k ≠ key → Agrees (rows.lookup k) (escrows.lookup k) := by
  refine ⟨fun h => ⟨?_, fun k hk => ?_⟩, fun h k => ?_⟩
  · have hr := h key
    rw [AList.lookup_insert] at hr
    exact hr
  · have hr := h k
    rw [AList.lookup_insert_ne hk] at hr
    exact hr
  · by_cases hk : k = key
    · rw [hk, AList.lookup_insert]
      exact h.1
    · rw [AList.lookup_insert_ne hk]
      exact h.2 k hk

theorem Agrees.congr {r r' : Redemption}
    {record : Option SimulatedLedger.EscrowRecord} (h : Agrees (some r) record)
    (hamount : r'.amount = r.amount) (hstate : r'.state = r.state) :
    Agrees (some r') record := by
  cases record with
  | none =>
      rw [Agrees, hstate]
      exact h
  | some record =>
      rw [Agrees, hamount, hstate]
      exact h

theorem Agrees.unburned {r : Redemption} {record : SimulatedLedger.EscrowRecord}
    (h : Agrees (some r) (some record)) (hb : record.burned = false) :
    r.state.isPending = true := by
  obtain ⟨-, ⟨hp, -⟩ | ⟨-, hburned⟩⟩ := h
  · exact hp
  · rw [hb] at hburned; cases hburned

theorem Agrees.pending {r : Redemption}
    {record : Option SimulatedLedger.EscrowRecord}
    (h : Agrees (some r) record) (hp : r.state.isPending = true) :
    ∃ e, record = some e ∧ e.amount = r.amount ∧ e.burned = false := by
  cases record with
  | none =>
      rcases h with hs | hs | hs
      · rw [hs] at hp; cases hp
      · rw [hs] at hp; cases hp
      · rw [hs] at hp; cases hp
  | some e =>
      obtain ⟨ha, ⟨-, hb⟩ | ⟨hs, -⟩⟩ := h
      · exact ⟨e, rfl, ha, hb⟩
      · rw [hs] at hp; cases hp

theorem pending_of_escrowed {r : Redemption} (h : r.state = .escrowed) :
    r.state.isPending = true := by
  rw [h]
  rfl

theorem Agrees.record_none {record : Option SimulatedLedger.EscrowRecord}
    (h : Agrees none record) : record = none := by
  cases record with
  | none => rfl
  | some e => exact h.elim

/-- The record that a call is about to burn is the record of its copy, and the
copy is pending. -/
theorem Alone.unburned {w : World} {r : Redemption}
    {record : SimulatedLedger.EscrowRecord} (h : Alone (.settling r .confirming) w)
    (hrec : w.ledger.escrows.lookup r.key = some record)
    (hb : record.burned = false) :
    r.state.isPending = true ∧ record.amount = r.amount := by
  have hlook : w.redemptions.lookup r.key = some r := h.copied
  have hag : Agrees (w.redemptions.lookup r.key) (w.ledger.escrows.lookup r.key) :=
    h.agrees r.key
  rw [hlook, hrec] at hag
  exact ⟨hag.unburned hb, hag.1⟩

/-- A call that puts its copy down is not ahead of its row. -/
theorem Alone.settled_of_drop {q : Phase} {w : World} (h : Alone q w)
    (hdrop : mayDrop w q) : q.settled w.redemptions = w.redemptions := by
  cases q with
  | idle => rfl
  | drafting r stage =>
      cases stage with
      | inserted => rfl
      | answered o => exact absurd h.copied.2.1 hdrop
      | applied =>
          obtain ⟨-, row, hlook, -⟩ := h.copied
          have hnone := hdrop r rfl
          rw [hlook] at hnone
          cases hnone
  | settling r stage =>
      cases stage with
      | burned =>
          have hnone : w.redemptions.lookup r.key = none :=
            hdrop { r with state := .confirmed } rfl
          rw [h.copied.1] at hnone
          cases hnone
      | returned =>
          have hnone : w.redemptions.lookup r.key = none :=
            hdrop { r with state := .reclaimed } rfl
          rw [h.copied.1] at hnone
          cases hnone
      | _ => rfl

theorem Alone.drop {q : Phase} {w w' : World} (h : Alone q w)
    (hdrop : mayDrop w q) (hrow : w'.redemptions = w.redemptions)
    (hesc : w'.ledger.escrows = w.ledger.escrows) : Alone .idle w' := by
  have hagrees := h.agrees
  rw [h.settled_of_drop hdrop] at hagrees
  refine alone_idle.mpr ⟨?_, ?_⟩
  · rw [hrow]; exact h.keyed
  · rw [hrow, hesc]; exact hagrees

theorem Alone.step {call : Call} {w w' : World} {q q' : Phase}
    {a : Act Port Port.Reply} (h : Alone q w) (hs : Step call w w' q a q') :
    Alone q' w' := by
  obtain ⟨hkeyed, hcopied, hagrees⟩ := h
  -- The write of a row that the ledger is ahead of.
  have hcatch : ∀ r, w'.redemptions = AList.insert r.key r w.redemptions →
      w'.ledger = w.ledger → q.ahead = some r → Alone .idle w' := by
    intro r hrow hled hahead
    refine alone_idle.mpr ⟨?_, ?_⟩
    · rw [hrow]; exact keyed_insert hkeyed rfl
    · rw [Phase.settled, hahead] at hagrees
      rw [hrow, hled]
      exact hagrees
  cases hs with
  | @inserted r hr _ hnone hrow hled =>
      refine ⟨?_, ?_, ?_⟩
      · rw [hrow]; exact keyed_insert hkeyed rfl
      · rw [hrow]; exact ⟨AList.lookup_insert _, hr⟩
      · rw [hrow, hled]
        refine (agrees_insert r.key).mpr ⟨?_, fun k _ => hagrees k⟩
        have hrec : Agrees (w.redemptions.lookup r.key)
          (w.ledger.escrows.lookup r.key) := hagrees r.key
        rw [hnone] at hrec
        rw [hrec.record_none]
        exact .inl hr
  | @found user seq r stage hstage hfind hw =>
      subst hw
      have hkey : (user, seq) = r.key := (hkeyed _ _ hfind).symm
      rw [hkey] at hfind
      obtain ⟨rfl, hst, -⟩ | ⟨rfl, -⟩ | ⟨rfl, -⟩ := settles_cases hstage
      · exact ⟨hkeyed, ⟨hfind, hst⟩, hagrees⟩
      · exact ⟨hkeyed, hfind, hagrees⟩
      · exact ⟨hkeyed, hfind, hagrees⟩
  | @escrowed r hrow hnone hesc =>
      obtain ⟨hlook, hst⟩ := hcopied
      refine ⟨by rw [hrow]; exact hkeyed, by rw [hrow]; exact ⟨hlook, hst, rfl⟩, ?_⟩
      rw [hrow, hesc]
      refine (agrees_insert r.key).mpr ⟨?_, fun k hk => ?_⟩
      · rw [AList.lookup_insert]
        exact ⟨rfl, .inl ⟨rfl, rfl⟩⟩
      · rw [AList.lookup_insert_ne hk]
        exact hagrees k
  | @applied r r' o now happ hw =>
      subst hw
      obtain ⟨hlook, hst, rfl⟩ := hcopied
      obtain ⟨-, rfl⟩ := Redemption.applyEscrowOutcome_confirmed.mp happ
      refine ⟨hkeyed, ⟨rfl, r, hlook, hst⟩, ?_⟩
      obtain ⟨hself, hother⟩ :=
        (agrees_insert r.key (r := { r with state := .escrowed })).mp hagrees
      exact (agrees_insert r.key).mpr ⟨hself.congr rfl rfl, hother⟩
  | recorded hrow hled => exact hcatch _ hrow hled rfl
  | @queued r hrow hled =>
      obtain ⟨hlook, hst⟩ := hcopied
      have hrec : Agrees (w.redemptions.lookup r.key)
        (w.ledger.escrows.lookup r.key) := hagrees r.key
      rw [hlook] at hrec
      obtain ⟨record, hk, hamt, hb⟩ := hrec.pending (pending_of_escrowed hst)
      refine ⟨by rw [hrow]; exact keyed_insert hkeyed rfl, trivial, ?_⟩
      show ∀ k, Agrees (w'.redemptions.lookup k) _
      rw [hrow, hled]
      refine (agrees_insert r.key).mpr ⟨?_, fun k _ => hagrees k⟩
      rw [hk]
      exact ⟨hamt, .inl ⟨rfl, hb⟩⟩
  | @enqueued r b hrow hled =>
      refine alone_idle.mpr ⟨by rw [hrow]; exact hkeyed, ?_⟩
      rw [hrow, hled]
      exact hagrees
  | @burned r record q' hq' hrow hrec hb hesc =>
      have hlook : w.redemptions.lookup r.key = some r := hcopied
      obtain ⟨hp, hamount⟩ := Alone.unburned ⟨hkeyed, hcopied, hagrees⟩ hrec hb
      rw [hq', if_pos hp]
      refine ⟨by rw [hrow]; exact hkeyed, by rw [hrow]; exact ⟨hlook, hp⟩, ?_⟩
      rw [hrow, hesc]
      refine (agrees_insert r.key).mpr ⟨?_, fun k hk => ?_⟩
      · rw [AList.lookup_insert]
        exact ⟨hamount, .inr ⟨rfl, rfl⟩⟩
      · rw [AList.lookup_insert_ne hk]
        exact hagrees k
  | confirmed hrow hled => exact hcatch _ hrow hled rfl
  | due hp hw => subst hw; exact ⟨hkeyed, ⟨hcopied, hp⟩, hagrees⟩
  | @returned r record hrow hrec hb _ _ hesc =>
      refine ⟨by rw [hrow]; exact hkeyed, by rw [hrow]; exact hcopied, ?_⟩
      rw [hrow, hesc]
      refine (agrees_insert r.key).mpr ⟨?_, fun k hk => ?_⟩
      · rw [AList.lookup_erase]
        exact .inr (.inr rfl)
      · rw [AList.lookup_erase_ne hk]
        exact hagrees k
  | reclaimed hrow hled => exact hcatch _ hrow hled rfl
  | other _ hdrop hrow hesc =>
      exact Alone.drop ⟨hkeyed, hcopied, hagrees⟩ hdrop hrow hesc

/-! ## Whole calls -/

section Runs

variable [Sha256]

/-- A call that nothing overlaps leaves rows and records in step, whatever it
returns. -/
theorem InStep.runCall {w : World} (h : InStep w) (deltaSecs : Int64)
    (call : Call × (ℕ → Env)) : InStep (w.runCall deltaSecs call).2 := by
  obtain ⟨q, rfl, hw⟩ := Prog.Obeys.run (J := Alone)
    (fun _ _ s _ hJ => hears_exec hJ.keyed s)
    (fun _ _ _ _ hJ hs => hJ.step (step_exec hs))
    (call_obeys deltaSecs call.1) (alone_idle.mpr h) call.2
  exact alone_idle.mp hw

theorem InStep.runCalls {w : World} (h : InStep w) (deltaSecs : Int64)
    (calls : List (Call × (ℕ → Env))) : InStep (w.runCalls deltaSecs calls) :=
  World.runCalls_induct (fun _ call _ hw => hw.runCall deltaSecs call) h

omit [Sha256] in
theorem inStep_new (reserve : Thb) (ttlSecs now : Int64) :
    InStep (.fresh (SimulatedLedger.new reserve ttlSecs now)) where
  keyed k r h := by cases h
  agrees _ := trivial

/-- The redemption row of a key, against the ledger's record of it. -/
structure Refines (row : Option Redemption)
    (record : Option SimulatedLedger.EscrowRecord) : Prop where
  pending : (∃ r, row = some r ∧ (r.state = .escrowed ∨ r.state = .payoutQueued)) ↔
    ∃ e, record = some e ∧ e.burned = false
  confirmed : (∃ r, row = some r ∧ r.state = .confirmed) ↔
    ∃ e, record = some e ∧ e.burned = true
  without : (∀ r, row = some r →
    r.state = .requested ∨ r.state = .failed ∨ r.state = .reclaimed) ↔
    record = none
  amount : ∀ r e, row = some r → record = some e → e.amount = r.amount

omit [Sha256] in
theorem isPending_iff {s : RedemptionState} :
    s.isPending = true ↔ s = .escrowed ∨ s = .payoutQueued := by
  cases s <;> simp [RedemptionState.isPending]

omit [Sha256] in
theorem Agrees.refines {row : Option Redemption}
    {record : Option SimulatedLedger.EscrowRecord} (h : Agrees row record) :
    Refines row record := by
  cases row with
  | none =>
      cases record with
      | none => constructor <;> simp
      | some e => exact h.elim
  | some r =>
      cases record with
      | none =>
          rcases h with hs | hs | hs
          · constructor <;> simp [hs]
          · constructor <;> simp [hs]
          · constructor <;> simp [hs]
      | some e =>
          obtain ⟨ha, ⟨hp, hb⟩ | ⟨hs, hb⟩⟩ := h
          · rcases isPending_iff.mp hp with hs | hs
            · constructor <;> simp [hs, hb, ha]
            · constructor <;> simp [hs, hb, ha]
          · constructor <;> simp [hs, hb, ha]

omit [Sha256] in
/-- A row waits exactly where its record is unburned. -/
theorem Agrees.weigh_same {rows : InMemoryRedemptionRepo}
    {escrows : HashMap (String × UInt64) SimulatedLedger.EscrowRecord}
    {k : String × UInt64} (h : Agrees (rows.lookup k) (escrows.lookup k)) :
    rows.weight (fun r => if r.state.isPending then 1 else 0) k =
      escrows.weight (fun e => if !e.burned then 1 else 0) k := by
  unfold AList.weight
  cases hrow : rows.lookup k with
  | none =>
      cases hrec : escrows.lookup k with
      | none => rfl
      | some e => rw [hrow, hrec] at h; exact h.elim
  | some r =>
      rw [hrow] at h
      cases hrec : escrows.lookup k with
      | none =>
          rw [hrec] at h
          rcases h with hs | hs | hs
          · simp [hs, RedemptionState.isPending]
          · simp [hs, RedemptionState.isPending]
          · simp [hs, RedemptionState.isPending]
      | some e =>
          rw [hrec] at h
          obtain ⟨-, ⟨hp, hb⟩ | ⟨hs, hb⟩⟩ := h
          · simp [hp, hb]
          · simp [hs, hb, RedemptionState.isPending]

omit [Sha256] in
theorem InStep.pendingCount {w : World} (h : InStep w) :
    ∃ n s, w.redemptions.pendingCount = .ok n ∧ w.ledger.snapshot.1 = .ok s ∧
      s.redemptionQueueLen = some n := by
  refine ⟨_, _, rfl, rfl, ?_⟩
  rw [AList.length_filter_values, AList.length_filter_values]
  refine congrArg (fun n => some (toU32 n)) (AList.tally_congr fun k => ?_)
  exact (h.agrees k).weigh_same.symm

/-- Every run of calls, one after the other, leaves each redemption row where
the ledger's record of it says, and the queue as long as the ledger counts
it. -/
theorem store_refines_ledger (deltaSecs : Int64) (reserve : Thb)
    (ttlSecs now : Int64) (calls : List (Call × (ℕ → Env))) :
    let w := (World.fresh (SimulatedLedger.new reserve ttlSecs now)).runCalls
      deltaSecs calls
    (∀ k, Refines (w.redemptions.lookup k) (w.ledger.escrows.lookup k)) ∧
    ∀ es, ∃ n s, (w.runCall deltaSecs (.queueLen, es)).1 = .ok (.queueLen n) ∧
      w.ledger.snapshot.1 = .ok s ∧ s.redemptionQueueLen = some n := by
  intro w
  have hw : InStep w := (inStep_new reserve ttlSecs now).runCalls deltaSecs calls
  refine ⟨fun k => (hw.agrees k).refines, fun es => ?_⟩
  obtain ⟨n, s, hn, hs, hq⟩ := hw.pendingCount
  exact ⟨n, s, World.runCall_queueLen hn deltaSecs es, hs, hq⟩

end Runs

open Sample in
theorem inStep_escrowed : InStep escrowed := (inStep_new _ _ _).runCalls _ _

end Thbc.OffRamp
