import Thbc.Proofs.InFlight

/-!
# Burned and not recorded

`confirm` burns first and asks its copy of the row afterwards whether it could be
confirmed at all. A copy of a row that is done with is no danger, for the ledger
has nothing left to burn. A copy that was read while the row was still
`Requested` is: between the escrow and the write of the row the ledger has a
record, so the burn goes through and the copy refuses it.
-/

namespace Thbc.Confirming

open Thbc.Lib Thbc.Service

/-- How far a confirm has got, with its copy of the row. -/
inductive Confirmation where
  | unread
  | read (r : Redemption)
  | burned (r : Redemption)
  | written
  | ended
  deriving DecidableEq

def Confirmation.advance : Confirmation → Act Port Port.Reply → Confirmation
  | .unread, ⟨.redemptions (.find _ _), .ok (some r)⟩ => .read r
  | .read r, ⟨.ledger (.confirmRedemption _ _), .ok .confirmed⟩ => .burned r
  | .burned _, _ => .written
  | .written, _ => .written
  | _, _ => .ended

/-- What a confirm may ask next. -/
def Confirmation.asks (user : String) (seq : UInt64) (s : Port) :
    Confirmation → Prop
  | .unread => s = .redemptions (.find user seq)
  | .read _ => s = .ledger (.confirmRedemption user seq)
  | .burned r => r.state.isPending = true ∧
      s = .redemptions (.update { r with state := .confirmed })
  | .written | .ended => False

/-- The steps of a confirm; other calls may do anything. -/
def grammar (call : Call) : Grammar Port Port.Reply Confirmation where
  start := .unread
  advance := Confirmation.advance
  asks q s := ∀ user seq, call = .confirm user seq → q.asks user seq s
  ends _ := True
  hears
    | .redemptions (.update _), b => ∀ e, b = .error e → e = .notFound
    | _, _ => True

/-- The error by which a record refuses a transition. -/
def isRefusal : PortResult CallOutcome → Bool
  | .error (.domain (.invalidRedemptionTransition _ _)) => true
  | _ => false

/-- What a confirm returns, from how far it has got: a refusal after a burn for a
copy that is not pending, and no refusal after a burn for one that is. -/
def Returns (call : Call) (b : PortResult CallOutcome) (q : Confirmation) : Prop :=
  ∀ user seq, call = .confirm user seq →
    match q with
    | .unread | .read _ => False
    | .burned r => r.state.isPending = false ∧ isRefusal b = true
    | .written => isRefusal b = false
    | .ended => True

section Calls

variable [Sha256]

theorem confirm_meets (deltaSecs : Int64) (user : String) (seq : UInt64) :
    (Call.prog deltaSecs (.confirm user seq)).Meets
      (grammar (.confirm user seq)).arena (Returns (.confirm user seq)) .unread := by
  have hasks : ∀ {q : Confirmation} {s : Port}, q.asks user seq s →
      (grammar (.confirm user seq)).arena.allows q s := by
    intro q s h user' seq' hcall
    cases hcall
    exact h
  refine meets_run_bind.mpr (meets_run_bind.mpr ⟨hasks rfl, ?_⟩)
  intro b q ⟨_, hq⟩
  subst hq
  cases b with
  | error e => exact fun _ _ _ => trivial
  | ok found =>
      cases found with
      | none => exact fun _ _ _ => trivial
      | some r =>
          refine meets_some.mpr (meets_run_bind.mpr ⟨hasks rfl, ?_⟩)
          intro b q ⟨_, hq⟩
          subst hq
          cases b with
          | error e => exact fun _ _ _ => trivial
          | ok outcome =>
              cases outcome with
              | submitted => exact fun _ _ _ => trivial
              | failed => exact fun _ _ _ => trivial
              | confirmed =>
                  show ((core r.confirm >>= fun r' => redemptions (.update r')).run).Meets
                    _ _ _
                  cases hp : r.state.isPending with
                  | false =>
                      rw [Redemption.confirm_refuses hp]
                      exact fun _ _ _ => ⟨hp, rfl⟩
                  | true =>
                      rw [Redemption.confirm_ok.mpr ⟨hp, rfl⟩]
                      refine meets_core_ok.mpr ⟨hasks ⟨hp, rfl⟩, ?_⟩
                      intro b q ⟨hb, hq⟩
                      subst hq
                      cases b with
                      | error e =>
                          obtain rfl := hb e rfl
                          exact fun _ _ _ => rfl
                      | ok u => exact fun _ _ _ => rfl

/-- Every call keeps to its grammar, a confirm to what it returns besides. -/
theorem call_meets (deltaSecs : Int64) (call : Call) :
    (call.prog deltaSecs).Meets (grammar call).arena (Returns call) .unread := by
  have hother : (∀ user seq, call ≠ .confirm user seq) →
      ∀ (p : Prog Port Port.Reply (PortResult CallOutcome)) (q : Confirmation),
        p.Meets (grammar call).arena (Returns call) q := by
    intro hno p
    induction p with
    | pure b => exact fun q user seq hcall => absurd hcall (hno user seq)
    | request s k ih =>
        exact fun q => ⟨fun user seq hcall => absurd hcall (hno user seq),
          fun b q' _ => ih b q'⟩
  cases call with
  | confirm user seq => exact confirm_meets deltaSecs user seq
  | _ => exact hother (fun _ _ h => by cases h) _ _

end Calls

/-! ## Histories -/

theorem advance_ne_unread (q : Confirmation) (a : Act Port Port.Reply) :
    q.advance a ≠ .unread := by
  unfold Confirmation.advance
  split <;> simp

theorem advance_read {q : Confirmation} {a : Act Port Port.Reply} {r : Redemption}
    (h : q.advance a = .read r) :
    q = .unread ∧
      ∃ user seq, a = ⟨.redemptions (.find user seq), .ok (some r)⟩ := by
  unfold Confirmation.advance at h
  split at h
  · cases h
    exact ⟨rfl, _, _, rfl⟩
  all_goals cases h

/-- A confirm with a copy in hand is about to ask the ledger. -/
theorem phase_of_read {call : Call} {user : String} {seq : UInt64}
    (hcall : call = .confirm user seq) (h : History Port Port.Reply) :
    ((grammar call).state h = .unread → (OffRamp.grammar call).state h = .idle) ∧
    ∀ r, (grammar call).state h = .read r →
      (OffRamp.grammar call).state h = .settling r .confirming := by
  induction h with
  | nil => exact ⟨fun _ => rfl, fun r hr => by cases hr⟩
  | cons a h ih =>
      constructor
      · intro hq
        exact absurd hq (advance_ne_unread _ a)
      · intro r hr
        obtain ⟨hq, user', seq', rfl⟩ := advance_read hr
        rw [Grammar.state_cons, ih.1 hq, hcall]
        rfl

/-! ## Pools -/

/-- How far call `i` has got with its confirm. -/
def confirmAt (calls : List Call) (c : Calls) (i : ℕ) : Confirmation :=
  c.stage (fun i => grammar (callAt calls i)) i

theorem confirmAt_self {calls : List Call} {c c' : Calls} {i : ℕ}
    {a : Act Port Port.Reply} {q : Confirmation}
    (h : Pool.Moved (fun i => grammar (callAt calls i)) c c' i a q) :
    confirmAt calls c' i = q := h.stage_self

theorem confirmAt_of_ne {calls : List Call} {c c' : Calls} {i j : ℕ}
    {a : Act Port Port.Reply} {q : Confirmation}
    (h : Pool.Moved (fun i => grammar (callAt calls i)) c c' j a q) (hi : i ≠ j) :
    confirmAt calls c' i = confirmAt calls c i := h.stage_of_ne hi

/-- The ledger would burn the tokens of `k` if it were asked now. -/
def burnable (s : SimulatedLedger.State) (k : String × UInt64) : Bool :=
  match s.escrows.lookup k with
  | some record =>
      !record.burned && decide (record.amount.toNat ≤ s.reserve.supply.toNat)
  | none => false

/-- No confirm goes to the ledger with a copy of a row that was still `Requested`
while the ledger has its tokens to burn. -/
def burnsKnown (calls : List Call) (c : Calls) (t : ℕ × Env) : Bool :=
  match callAt calls t.1, confirmAt calls c t.1 with
  | .confirm user seq, .read r =>
      r.state ≠ .requested || !burnable c.world.ledger (user, seq)
  | _, _ => true

section Pools

variable [Sha256]

/-- Call `i` has returned, with the refusal of its record. -/
def hasRefused (c : Calls) (i : ℕ) : Bool :=
  match c.threads[i]? with
  | some (.pure b) => isRefusal b
  | _ => false

omit [Sha256] in
theorem hasRefused_eq_true {c : Calls} {i : ℕ} :
    hasRefused c i = true ↔
      ∃ b, c.threads[i]? = some (.pure b) ∧ isRefusal b = true := by
  unfold hasRefused
  split
  · next b hb => simp [hb]
  · next hno =>
      simp only [Bool.false_eq_true, false_iff]
      intro ⟨b, hb, _⟩
      exact hno b hb

/-- This step of call `i` leaves the supply and the record under `k` alone. -/
def Unmoved (i : ℕ) (k : String × UInt64) (c : Calls) (t : ℕ × Env) : Prop :=
  t.1 = i →
    (c.step World.exec t).world.ledger.reserve.supply =
      c.world.ledger.reserve.supply ∧
    (c.step World.exec t).world.ledger.escrows.lookup k =
      c.world.ledger.escrows.lookup k

/-- Whether, in this run, every confirm whose record refused the transition has
changed nothing on the ledger. -/
def RefusedUnburned (deltaSecs : Int64) (calls : List Call) (w : World)
    (ts : List (ℕ × Env)) : Prop :=
  ∀ i user seq, calls[i]? = some (.confirm user seq) →
    hasRefused ((Calls.start deltaSecs calls w).run World.exec ts) i = true →
    Pool.Along World.exec (Unmoved i (user, seq)) (Calls.start deltaSecs calls w) ts

/-- What holds of a pool at any moment. -/
structure Known (calls : List Call) (c : Calls) : Prop where
  working : OffRamp.Working calls c
  meets : c.Meets (fun i => grammar (callAt calls i)) fun i => Returns (callAt calls i)
  inRange : c.InRange

variable {calls : List Call} {c : Calls} {t : ℕ × Env} {user : String} {seq : UInt64}
  {r : Redemption}

theorem hears_exec {call : Call} {e : Env} {w : World} (s : Port) :
    (grammar call).hears s (World.exec e s w).1 := by
  cases s with
  | redemptions m =>
      cases m with
      | update r =>
          intro err herr
          obtain ⟨-, hx⟩ | hx := OffRamp.exec_update (e := e) (w := w) (r := r)
          · rw [hx] at herr
            exact (Except.error.inj herr).symm
          · rw [hx] at herr
            cases herr
      | _ => trivial
  | _ => trivial

theorem known_fresh {ledger : SimulatedLedger.State} (hesc : ledger.escrows = ∅)
    (deltaSecs : Int64) (calls : List Call) :
    Known calls (Calls.start deltaSecs calls (.fresh ledger)) where
  working := OffRamp.working_fresh hesc deltaSecs calls
  meets i p hp := by
    rw [(Calls.thread_start hp).2]
    exact call_meets deltaSecs _
  inRange := Pool.inRange_start _ _

theorem Known.step (h : Known calls c) (t : ℕ × Env) :
    Known calls (c.step World.exec t) where
  working := h.working.step t
  meets := Pool.meets_step h.meets fun s => hears_exec s
  inRange := Pool.inRange_step h.inRange t

theorem Known.run (h : Known calls c) (ts : List (ℕ × Env)) :
    Known calls (c.run World.exec ts) :=
  Pool.run_induct (fun _ t h _ => h.step t) (Pool.along_true _ _ _) h

omit [Sha256] in
/-- A confirm with a copy in hand has not returned. -/
theorem Known.pending (h : Known calls c) (hcall : callAt calls t.1 = .confirm user seq)
    (hq : confirmAt calls c t.1 = .read r) :
    c.pending t.1 = some (.ledger (.confirmRedemption user seq)) := by
  have hlt : t.1 < c.threads.length := by
    by_contra hge
    have hstart : confirmAt calls c t.1 = .unread := h.inRange.stage (by omega)
    rw [hq] at hstart
    cases hstart
  have hp : c.threads[t.1]? = some c.threads[t.1] := List.getElem?_eq_getElem hlt
  have hmeets := h.meets t.1 _ hp
  cases hthread : c.threads[t.1] with
  | pure b =>
      rw [hthread] at hmeets
      have hret : Returns (callAt calls t.1) b (confirmAt calls c t.1) := hmeets
      have hfalse := hret user seq hcall
      rw [hq] at hfalse
      exact hfalse.elim
  | request s k =>
      rw [hthread] at hmeets
      have hasks : (confirmAt calls c t.1).asks user seq s := hmeets.1 user seq hcall
      rw [hq] at hasks
      rw [Pool.pending, hp, hthread]
      exact congrArg some hasks

/-- It burns, if there is something to burn. -/
theorem Known.burn (h : Known calls c) (hcall : callAt calls t.1 = .confirm user seq)
    (hq : confirmAt calls c t.1 = .read r)
    (hb : burnable c.world.ledger (user, seq) = true) :
    ∃ e, c.world.ledger.escrows.lookup (user, seq) = some e ∧ e.burned = false ∧
      (c.step World.exec t).world.ledger.escrows.lookup (user, seq) =
        some { e with burned := true } ∧
      confirmAt calls (c.step World.exec t) t.1 = .burned r := by
  have hp := h.pending hcall hq
  obtain heq | ⟨s, hworld, hm⟩ := Pool.step_cases (fun i => grammar (callAt calls i))
    World.exec c t
  · have hlog := (Pool.step_of_pending World.exec hp).2
    rw [heq] at hlog
    exact absurd hlog.symm (List.cons_ne_self _ _)
  · obtain rfl : s = .ledger (.confirmRedemption user seq) :=
      Option.some.inj (hm.asked.symm.trans hp)
    have hself := confirmAt_self hm
    change _ = (confirmAt calls c t.1).advance _ at hself
    rw [hq] at hself
    rw [hworld, hself]
    obtain ⟨err, -, hlack⟩ | ⟨e, supply, hrec, hburned, -, heq⟩ :=
      c.world.ledger.confirmRedemption_cases user seq
    · exfalso
      unfold burnable at hb
      cases hrec : c.world.ledger.escrows.lookup (user, seq) with
      | none =>
          rw [hrec] at hb
          cases hb
      | some e =>
          simp only [hrec, Bool.and_eq_true, Bool.not_eq_true', decide_eq_true_eq] at hb
          have hlt := hlack e hrec hb.1
          omega
    · simp only [World.exec, SimulatedLedger.State.call, heq]
      exact ⟨e, hrec, hburned, AList.lookup_insert _, rfl⟩

/-- Any other step of a confirm leaves supply and record alone. -/
theorem Known.unmoved (h : Known calls c) (hcall : callAt calls t.1 = .confirm user seq)
    (hno : ∀ r, confirmAt calls c t.1 = .read r →
      burnable c.world.ledger (user, seq) = false) :
    Unmoved t.1 (user, seq) c t := by
  intro _
  cases hp : c.pending t.1 with
  | none =>
      rw [Pool.step_of_pending_none hp]
      exact ⟨rfl, rfl⟩
  | some s =>
      obtain ⟨hworld, -⟩ := Pool.step_of_pending World.exec hp
      rw [hworld]
      have hasks : (confirmAt calls c t.1).asks user seq s :=
        h.meets.asks hp user seq hcall
      cases hq : confirmAt calls c t.1 with
      | unread =>
          rw [hq] at hasks
          obtain rfl : s = .redemptions (.find user seq) := hasks
          exact ⟨rfl, rfl⟩
      | read r =>
          rw [hq] at hasks
          obtain rfl : s = .ledger (.confirmRedemption user seq) := hasks
          have hfalse := hno r hq
          obtain ⟨e, heq, -⟩ | ⟨e, supply, hrec, hb, hsum, -⟩ :=
            c.world.ledger.confirmRedemption_cases user seq
          · simp only [World.exec, SimulatedLedger.State.call, heq]
            exact ⟨trivial, trivial⟩
          · have hle : e.amount.toNat ≤ c.world.ledger.reserve.supply.toNat := by omega
            simp [burnable, hrec, hb, hle] at hfalse
      | burned r =>
          rw [hq] at hasks
          obtain ⟨-, rfl⟩ := hasks
          exact ⟨rfl, rfl⟩
      | written => rw [hq] at hasks; exact hasks.elim
      | ended => rw [hq] at hasks; exact hasks.elim

omit [Sha256] in
/-- What a copy of a live record says: a row that is not `Requested` is
pending. -/
theorem Known.pending_of_live (h : Known calls c)
    (hcall : callAt calls t.1 = .confirm user seq)
    (hq : confirmAt calls c t.1 = .read r)
    (hb : burnable c.world.ledger (user, seq) = true) (hr : r.state ≠ .requested) :
    r.state.isPending = true := by
  have hphase : OffRamp.phaseAt calls c t.1 = .settling r .confirming :=
    (phase_of_read hcall _).2 r hq
  have hasks : (OffRamp.grammar (callAt calls t.1)).asks (OffRamp.phaseAt calls c t.1)
    (.ledger (.confirmRedemption user seq)) := h.working.obeys.asks (h.pending hcall hq)
  rw [hphase] at hasks
  have hport : Port.ledger (.confirmRedemption user seq) =
    .ledger (.confirmRedemption r.user r.seq) := hasks
  cases hport
  have hheld := h.working.aligned.settling t.1 r _ hphase
  cases hs : r.state with
  | requested => exact absurd hs hr
  | escrowed => rfl
  | payoutQueued => rfl
  | failed => exact absurd hs hheld.failed
  | _ =>
      exfalso
      have hspent := hheld.spent (.inl (by rw [hs]; rfl))
      unfold burnable at hb
      cases hrec : c.world.ledger.escrows.lookup (r.user, r.seq) with
      | none =>
          rw [hrec] at hb
          cases hb
      | some e =>
          rw [hrec] at hb
          simp [hspent e hrec] at hb

/-- Once a confirm has burned for a pending copy it will not be refused. -/
theorem Known.not_refused (h : Known calls c) {i : ℕ}
    (hcall : callAt calls i = .confirm user seq)
    (hq : confirmAt calls c i = .burned r) (hp : r.state.isPending = true)
    (ts : List (ℕ × Env)) : hasRefused (c.run World.exec ts) i = false := by
  have hrun : Known calls (c.run World.exec ts) ∧
      (confirmAt calls (c.run World.exec ts) i = .burned r ∨
        confirmAt calls (c.run World.exec ts) i = .written) := by
    refine Pool.run_induct (I := fun c => Known calls c ∧
      (confirmAt calls c i = .burned r ∨ confirmAt calls c i = .written)) ?_
      (Pool.along_true _ _ _) ⟨h, .inl hq⟩
    intro c t ⟨hk, hq⟩ _
    refine ⟨hk.step t, ?_⟩
    obtain heq | ⟨s, -, hm⟩ := Pool.step_cases (fun i => grammar (callAt calls i))
      World.exec c t
    · rw [heq]
      exact hq
    · by_cases hit : i = t.1
      · right
        subst hit
        rw [confirmAt_self hm]
        change (confirmAt calls c t.1).advance _ = _
        obtain hq | hq := hq
        · rw [hq]
          rfl
        · rw [hq]
          rfl
      · rw [confirmAt_of_ne hm hit]
        exact hq
  obtain ⟨hknown, hq⟩ := hrun
  rw [← Bool.not_eq_true, hasRefused_eq_true]
  intro ⟨b, hb, hrefusal⟩
  have hret : Returns (callAt calls i) b (confirmAt calls (c.run World.exec ts) i) :=
    hknown.meets i _ hb
  have hend := hret user seq hcall
  obtain hq | hq := hq
  · rw [hq] at hend
    rw [hend.1] at hp
    cases hp
  · rw [hq] at hend
    rw [hend] at hrefusal
    cases hrefusal

/-- Once it has burned for a copy that is not, it has been refused. -/
theorem Known.refused (h : Known calls c) {i : ℕ} (hi : i < c.threads.length)
    (hcall : callAt calls i = .confirm user seq)
    (hq : confirmAt calls c i = .burned r) (hp : r.state.isPending = false)
    (ts : List (ℕ × Env)) :
    hasRefused (c.run World.exec ts) i = true := by
  have hpure : ∀ c : Calls, Known calls c → i < c.threads.length →
      confirmAt calls c i = .burned r →
      ∃ b, c.threads[i]? = some (.pure b) ∧ isRefusal b = true := by
    intro c hk hlt hq
    have hthread := List.getElem?_eq_getElem hlt
    have hmeets := hk.meets i _ hthread
    cases hx : c.threads[i] with
    | pure b =>
        rw [hx] at hmeets hthread
        have hret : Returns (callAt calls i) b (confirmAt calls c i) := hmeets
        have hend := hret user seq hcall
        rw [hq] at hend
        exact ⟨b, hthread, hend.2⟩
    | request s k =>
        rw [hx] at hmeets
        have hasks : (confirmAt calls c i).asks user seq s := hmeets.1 user seq hcall
        rw [hq] at hasks
        have hp' := hasks.1
        rw [hp] at hp'
        cases hp'
  have hrun : Known calls (c.run World.exec ts) ∧
      i < (c.run World.exec ts).threads.length ∧
      confirmAt calls (c.run World.exec ts) i = .burned r := by
    refine Pool.run_induct (I := fun c => Known calls c ∧ i < c.threads.length ∧
      confirmAt calls c i = .burned r) ?_ (Pool.along_true _ _ _) ⟨h, hi, hq⟩
    intro c t ⟨hk, hlt, hq⟩ _
    refine ⟨hk.step t, by rwa [Pool.length_threads_step], ?_⟩
    obtain heq | ⟨s, -, hm⟩ := Pool.step_cases (fun i => grammar (callAt calls i))
      World.exec c t
    · rw [heq]
      exact hq
    · by_cases hit : i = t.1
      · -- It has returned, and makes no step.
        obtain ⟨b, hb, -⟩ := hpure c hk hlt hq
        have hnone : c.pending t.1 = none := by
          rw [Pool.pending, ← hit, hb]
          rfl
        rw [Pool.step_of_pending_none hnone]
        exact hq
      · rw [confirmAt_of_ne hm hit]
        exact hq
  exact hasRefused_eq_true.mpr (hpure _ hrun.1 hrun.2.1 hrun.2.2)

/-- No confirm in a run burns what its record then refuses exactly where none
goes to the ledger between the escrow and a row it has read as `Requested`. -/
theorem refused_unburned_iff {ledger : SimulatedLedger.State}
    (hesc : ledger.escrows = ∅) (deltaSecs : Int64) (calls : List Call)
    (ts : List (ℕ × Env)) :
    RefusedUnburned deltaSecs calls (.fresh ledger) ts ↔
      Pool.Along World.exec (fun c t => burnsKnown calls c t = true)
        (Calls.start deltaSecs calls (.fresh ledger)) ts := by
  have hstart := known_fresh hesc deltaSecs calls
  constructor
  · intro hclaim
    refine Pool.along_iff.mpr fun us t vs hts => ?_
    have hk := hstart.run us
    by_contra hbad
    unfold burnsKnown at hbad
    split at hbad
    · next user seq r hcall hq =>
        simp only [Bool.or_eq_true, Bool.not_eq_true', decide_eq_true_eq, not_or,
          ne_eq, not_not, Bool.not_eq_false] at hbad
        obtain ⟨hr, hb⟩ := hbad
        obtain ⟨e, hrec, hburned, hrec', hq'⟩ := hk.burn hcall hq hb
        have hlt := Pool.lt_of_pending (hk.pending hcall hq)
        have hrefused := (hk.step t).refused
          (by rwa [Pool.length_threads_step]) hcall hq' (by rw [hr]; rfl) vs
        have hat : calls[t.1]? = some (.confirm user seq) := by
          rw [callAt, List.getD_eq_getElem?_getD] at hcall
          cases hat : calls[t.1]? with
          | none =>
              rw [hat] at hcall
              cases hcall
          | some call =>
              rw [hat] at hcall
              exact congrArg some hcall
        have hrun : (Calls.start deltaSecs calls (.fresh ledger)).run World.exec ts =
            (((Calls.start deltaSecs calls (.fresh ledger)).run World.exec us).step
              World.exec t).run World.exec vs := by
          rw [hts, Pool.run_append, Pool.run_cons]
        rw [← hrun] at hrefused
        have hsame := (Pool.along_iff.mp (hclaim t.1 user seq hat hrefused)
          us t vs hts rfl).2
        rw [hrec', hrec, Option.some.injEq] at hsame
        rw [← hsame] at hburned
        cases hburned
    · exact hbad rfl
  · intro hknown i user seq hat hrefused
    have hcall : callAt calls i = .confirm user seq := by
      rw [callAt, List.getD_eq_getElem?_getD, hat]
      rfl
    refine Pool.along_iff.mpr fun us t vs hts => ?_
    have hk := hstart.run us
    by_cases hit : t.1 = i
    · subst hit
      refine hk.unmoved hcall fun r hq => ?_
      cases hb : burnable ((Calls.start deltaSecs calls (.fresh ledger)).run
          World.exec us).world.ledger (user, seq) with
      | false => rfl
      | true =>
          exfalso
          have hok := Pool.along_iff.mp hknown us t vs hts
          unfold burnsKnown at hok
          rw [hcall, hq] at hok
          simp only [hb, Bool.not_true, Bool.or_false, decide_eq_true_eq] at hok
          obtain ⟨e, -, -, -, hq'⟩ := hk.burn hcall hq hb
          rw [hts, Pool.run_append, Pool.run_cons, (hk.step t).not_refused hcall hq'
            (hk.pending_of_live hcall hq hb hok) vs] at hrefused
          cases hrefused
    · exact fun h => absurd h hit

end Pools

open Sample

/-- The confirm comes after the request. -/
theorem refused_unburned_in_turn :
    let calls : List Call := [.request "alice" ⟨100⟩, .confirm "alice" 1]
    let ts := schedule (env 0 .pass) [0, 0, 0, 0, 0, 0, 1, 1, 1]
    RefusedUnburned 86400 calls (.fresh funded) ts :=
  (refused_unburned_iff rfl 86400 _ _).mpr (by decide)

/-- The confirm reads the row and burns before the request has written that its
escrow landed. -/
theorem burned_and_refused :
    let calls : List Call := [.request "alice" ⟨100⟩, .confirm "alice" 1]
    let ts := schedule (env 0 .pass) [0, 0, 0, 0, 1, 1]
    ¬ RefusedUnburned 86400 calls (.fresh funded) ts := by
  intro calls ts h
  have halong := h 1 "alice" 1 rfl (by decide)
  have hsame := (Pool.along_iff.mp halong (schedule (env 0 .pass) [0, 0, 0, 0, 1])
    (1, env 0 .pass) [] rfl rfl).2
  exact absurd hsame (by decide)

end Thbc.Confirming
