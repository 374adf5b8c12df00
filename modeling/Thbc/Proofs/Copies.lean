import Thbc.System.OnRampStep
import Mathlib.Logic.Function.Basic

/-!
# Local copies and rows

Each call works on its own copy of a deposit while others may write the row.
`Sound` is what holds between the copies and the rows however the calls
overlap: a deposit that is not yet past its screen is in the hands of the one
call that inserted it and of no other, and a copy past its screen differs
from its row in the state only. What the calls can disagree about is
therefore the state, and nothing else.
-/

namespace Thbc.OnRamp

open Thbc.Lib

variable [Sha256]

/-- The states a deposit goes through after a passed screen. -/
def pastScreen : DepositState → Bool
  | .screened | .attested | .issued => true
  | _ => false

structure Sound (rows : InMemoryDepositRepo) (stage : ℕ → Phase) : Prop where
  keyed : Keyed rows
  fresh : ∀ i d v, stage i = .fresh d v →
    d.state = .observed ∧ rows.lookup d.nullifier = some d
  unique : ∀ i j d d' v v', stage i = .fresh d v → stage j = .fresh d' v' →
    d.nullifier = d'.nullifier → i = j
  passed : ∀ i d g, stage i = .passed d g →
    ∃ s, pastScreen s = true ∧
      rows.lookup d.nullifier = some { d with state := s }

namespace Sound

variable {rows : InMemoryDepositRepo} {stage : ℕ → Phase}

/-- The row of a fresh deposit is not past its screen, so no call holds a
copy of it that is. -/
theorem not_passed (h : Sound rows stage) {i j : ℕ} {d d' : Deposit}
    {v : Option ScreenOutcome} {g : Gate} (hi : stage i = .fresh d v)
    (hj : stage j = .passed d' g) : d.nullifier ≠ d'.nullifier := by
  intro hn
  obtain ⟨hd, hrow⟩ := h.fresh i d v hi
  obtain ⟨s, hs, hrow'⟩ := h.passed j d' g hj
  rw [hn, hrow'] at hrow
  have hst : s = d.state := congrArg Deposit.state (Option.some.inj hrow)
  rw [hst, hd] at hs
  cases hs

/-- A call that has a row to write does not lose it. -/
theorem keeps {w : World} (h : Sound w.deposits stage) {t : ℕ} {q : Phase}
    {d : Deposit} (hq : stage t = q) (hd : q.writing = some d) :
    ¬ mayDrop w q := by
  intro hdrop
  cases q with
  | idle => cases hd
  | fresh d' v =>
      obtain ⟨d'', hd'', hnone⟩ : ∃ d, (Phase.fresh d' v).writing = some d ∧
        w.deposits.lookup d.nullifier = none := hdrop
      cases v with
      | none => cases hd
      | some o =>
          cases hd''
          rw [(h.fresh t d' _ hq).2] at hnone
          cases hnone
  | passed d' g =>
      obtain ⟨s, -, hrow⟩ := h.passed t d' g hq
      cases g with
      | cleared | minted =>
          obtain ⟨d'', hd'', hnone⟩ := hdrop
          cases hd''
          rw [hrow] at hnone
          cases hnone
      | _ => cases hd

/-- A call leaves off: what it held, nobody has to answer for. -/
theorem drop (h : Sound rows stage) (t : ℕ) :
    Sound rows (Function.update stage t .idle) where
  keyed := h.keyed
  fresh i d v hi := by
    obtain ⟨-, hq⟩ | ⟨-, hi⟩ := Pool.update_cases hi
    · cases hq
    · exact h.fresh i d v hi
  unique i j d d' v v' hi hj hn := by
    obtain ⟨-, hq⟩ | ⟨-, hi⟩ := Pool.update_cases hi
    · cases hq
    · obtain ⟨-, hq⟩ | ⟨-, hj⟩ := Pool.update_cases hj
      · cases hq
      · exact h.unique i j d d' v v' hi hj hn
  passed i d g hi := by
    obtain ⟨-, hq⟩ | ⟨-, hi⟩ := Pool.update_cases hi
    · cases hq
    · exact h.passed i d g hi

/-- A call takes up, or goes on with, a copy that is past its screen. -/
theorem hold (h : Sound rows stage) (t : ℕ) {d : Deposit} {g : Gate}
    {s : DepositState} (hs : pastScreen s = true)
    (hrow : rows.lookup d.nullifier = some { d with state := s }) :
    Sound rows (Function.update stage t (.passed d g)) where
  keyed := h.keyed
  fresh i d' v hi := by
    obtain ⟨-, hq⟩ | ⟨-, hi⟩ := Pool.update_cases hi
    · cases hq
    · exact h.fresh i d' v hi
  unique i j d d' v v' hi hj hn := by
    obtain ⟨-, hq⟩ | ⟨-, hi⟩ := Pool.update_cases hi
    · cases hq
    · obtain ⟨-, hq⟩ | ⟨-, hj⟩ := Pool.update_cases hj
      · cases hq
      · exact h.unique i j d d' v v' hi hj hn
  passed i d' g' hi := by
    obtain ⟨-, hq⟩ | ⟨-, hi⟩ := Pool.update_cases hi
    · cases hq
      exact ⟨s, hs, hrow⟩
    · exact h.passed i d' g' hi

theorem rewrite (h : Sound rows stage) {d : Deposit} {s s' : DepositState}
    (hs : pastScreen s = true)
    (hrow : rows.lookup d.nullifier = some { d with state := s })
    (hs' : pastScreen s' = true) :
    Sound (AList.insert d.nullifier { d with state := s' } rows) stage where
  keyed := keyed_insert h.keyed rfl
  fresh i d' v hi := by
    obtain ⟨hd', hrow'⟩ := h.fresh i d' v hi
    have hn : d'.nullifier ≠ d.nullifier := by
      intro hn
      rw [hn, hrow] at hrow'
      rw [← Option.some.inj hrow'] at hd'
      have hst : s = .observed := hd'
      rw [hst] at hs
      cases hs
    rw [AList.lookup_insert_ne hn]
    exact ⟨hd', hrow'⟩
  unique := h.unique
  passed i d' g hi := by
    obtain ⟨s₁, hs₁, hrow'⟩ := h.passed i d' g hi
    by_cases hn : d'.nullifier = d.nullifier
    · refine ⟨s', hs', ?_⟩
      rw [hn, hrow] at hrow'
      rw [hn, AList.lookup_insert]
      have heq := Option.some.inj hrow'
      rw [Deposit.mk.injEq] at heq
      obtain ⟨h₁, h₂, h₃, h₄, -, h₅⟩ := heq
      rw [h₁, h₂, h₃, h₄, h₅]
    · rw [AList.lookup_insert_ne hn]
      exact ⟨s₁, hs₁, hrow'⟩

/-- The row of a fresh deposit is written by the call that has it, which lets
go of it with that. -/
theorem settle (h : Sound rows stage) {t : ℕ} {d : Deposit}
    {v : Option ScreenOutcome} (ht : stage t = .fresh d v) (s : DepositState) :
    Sound (AList.insert d.nullifier { d with state := s } rows)
      (Function.update stage t .idle) where
  keyed := keyed_insert h.keyed rfl
  fresh i d' v' hi := by
    obtain ⟨-, hq⟩ | ⟨hit, hi⟩ := Pool.update_cases hi
    · cases hq
    · have hn : d'.nullifier ≠ d.nullifier := fun hn =>
        hit (h.unique i t d' d v' v hi ht hn)
      rw [AList.lookup_insert_ne hn]
      exact h.fresh i d' v' hi
  unique := (h.drop t).unique
  passed i d' g hi := by
    obtain ⟨-, hq⟩ | ⟨-, hi⟩ := Pool.update_cases hi
    · cases hq
    · have hn : d'.nullifier ≠ d.nullifier := fun hn =>
        h.not_passed ht hi hn.symm
      rw [AList.lookup_insert_ne hn]
      exact h.passed i d' g hi

theorem insert (h : Sound rows stage) (t : ℕ) {d : Deposit}
    (hd : d.state = .observed) (hnone : rows.lookup d.nullifier = none) :
    Sound (AList.insert d.nullifier d rows)
      (Function.update stage t (.fresh d none)) where
  keyed := keyed_insert h.keyed rfl
  fresh i d' v hi := by
    obtain ⟨-, hq⟩ | ⟨-, hi⟩ := Pool.update_cases hi
    · cases hq
      exact ⟨hd, AList.lookup_insert _⟩
    · obtain ⟨hd', hrow⟩ := h.fresh i d' v hi
      rw [AList.lookup_insert_ne (AList.ne_of_lookup hrow hnone)]
      exact ⟨hd', hrow⟩
  unique i j d₁ d₂ v₁ v₂ hi hj hn := by
    have hother : ∀ k d' v', stage k = .fresh d' v' →
        d'.nullifier ≠ d.nullifier :=
      fun k d' v' hk => AList.ne_of_lookup (h.fresh k d' v' hk).2 hnone
    obtain ⟨hit, hi⟩ | ⟨-, hi⟩ := Pool.update_cases hi
    · obtain ⟨hjt, -⟩ | ⟨-, hj⟩ := Pool.update_cases hj
      · rw [hit, hjt]
      · cases hi
        exact absurd hn.symm (hother j d₂ v₂ hj)
    · obtain ⟨-, hj⟩ | ⟨-, hj⟩ := Pool.update_cases hj
      · cases hj
        exact absurd hn (hother i d₁ v₁ hi)
      · exact h.unique i j d₁ d₂ v₁ v₂ hi hj hn
  passed i d' g hi := by
    obtain ⟨-, hq⟩ | ⟨-, hi⟩ := Pool.update_cases hi
    · cases hq
    · obtain ⟨s, hs, hrow⟩ := h.passed i d' g hi
      rw [AList.lookup_insert_ne (AList.ne_of_lookup hrow hnone)]
      exact ⟨s, hs, hrow⟩

theorem hear (h : Sound rows stage) {t : ℕ} {d : Deposit}
    {v : Option ScreenOutcome} (ht : stage t = .fresh d v)
    (v' : Option ScreenOutcome) :
    Sound rows (Function.update stage t (.fresh d v')) := by
  have hback : ∀ k d₁ v₁, Function.update stage t (.fresh d v') k = .fresh d₁ v₁ →
      ∃ v₂, stage k = .fresh d₁ v₂ := by
    intro k d₁ v₁ hk
    obtain ⟨hkt, hq⟩ | ⟨-, hk⟩ := Pool.update_cases hk
    · cases hq
      exact ⟨v, by rw [hkt]; exact ht⟩
    · exact ⟨v₁, hk⟩
  refine ⟨h.keyed, ?_, ?_, ?_⟩
  · intro i d₁ v₁ hi
    obtain ⟨v₂, hi'⟩ := hback i d₁ v₁ hi
    exact h.fresh i d₁ v₂ hi'
  · intro i j d₁ d₂ v₁ v₂ hi hj hn
    obtain ⟨w₁, hi'⟩ := hback i d₁ v₁ hi
    obtain ⟨w₂, hj'⟩ := hback j d₂ v₂ hj
    exact h.unique i j d₁ d₂ w₁ w₂ hi' hj' hn
  · intro i d₁ g hi
    obtain ⟨-, hq⟩ | ⟨-, hi⟩ := Pool.update_cases hi
    · cases hq
    · exact h.passed i d₁ g hi

theorem step {call : Call} {w w' : World} {t : ℕ} {q q' : Phase}
    {a : Act Port Port.Reply} {stage : ℕ → Phase}
    (h : Sound w.deposits stage) (hq : stage t = q)
    (hs : Step call w w' q a q') :
    Sound w'.deposits (Function.update stage t q') := by
  cases hs with
  | inserted hd hcall hnone hdep hled =>
      rw [hdep]
      exact h.insert t hd hnone
  | @found n d hd hrow hw =>
      subst hw
      have hn : d.nullifier = n := h.keyed n d hrow
      have hself : d = { d with state := .screened } := by rw [← hd]
      refine h.hold t (s := .screened) rfl ?_
      rw [hn, hrow, ← hself]
  | screened hw => subst hw; exact h.hear hq _
  | unscreened hw => subst hw; exact h.drop t
  | @judged d o hdep hled =>
      rw [hdep]
      have hset := h.settle hq (Deposit.screenTarget o)
      cases o with
      | fail => exact hset
      | pass =>
          have hold := hset.hold t (d := { d with state := .screened })
            (g := .timed d.observedAt) (s := .screened) rfl
            (AList.lookup_insert _)
          rw [Function.update_idem] at hold
          exact hold
  | timed hw =>
      subst hw
      obtain ⟨s, hs, hrow⟩ := h.passed t _ _ hq
      exact h.hold t hs hrow
  | sighted hw _ =>
      subst hw
      obtain ⟨s, hs, hrow⟩ := h.passed t _ _ hq
      exact h.hold t hs hrow
  | cleared hw _ _ =>
      subst hw
      obtain ⟨s, hs, hrow⟩ := h.passed t _ _ hq
      exact h.hold t hs hrow
  | attested hdep hled =>
      rw [hdep]
      obtain ⟨s, hs, hrow⟩ := h.passed t _ _ hq
      exact (h.rewrite hs hrow rfl).hold t (s := .attested) rfl
        (AList.lookup_insert _)
  | minted hdep hled =>
      rw [hdep]
      obtain ⟨s, hs, hrow⟩ := h.passed t _ _ hq
      exact h.hold t hs hrow
  | refused hdep hr hled => rw [hdep]; exact h.drop t
  | issued hdep hled =>
      rw [hdep]
      obtain ⟨s, hs, hrow⟩ := h.passed t _ _ hq
      exact (h.rewrite hs hrow rfl).drop t
  | other _ _ hdep _ => rw [hdep]; exact h.drop t

end Sound

theorem lookup_of_step {call : Call} {w w' : World} {q q' : Phase}
    {a : Act Port Port.Reply} (hs : Step call w w' q a q') {n : BankRefHash}
    (h : w'.deposits.lookup n = none) : w.deposits.lookup n = none := by
  have hins : ∀ m d, w'.deposits = AList.insert m d w.deposits →
      w.deposits.lookup n = none := by
    intro m d hdep
    rw [hdep] at h
    exact AList.lookup_of_insert_none h
  cases hs with
  | inserted _ _ _ hdep _ => exact hins _ _ hdep
  | judged hdep _ => exact hins _ _ hdep
  | attested hdep _ => exact hins _ _ hdep
  | issued hdep _ => exact hins _ _ hdep
  | found _ _ hw => subst hw; exact h
  | screened hw => subst hw; exact h
  | unscreened hw => subst hw; exact h
  | timed hw => subst hw; exact h
  | sighted hw _ => subst hw; exact h
  | cleared hw _ _ => subst hw; exact h
  | minted hdep _ => rw [hdep] at h; exact h
  | refused hdep _ _ => rw [hdep] at h; exact h
  | other _ _ hdep _ => rw [hdep] at h; exact h

/-- A row is a row that was there, in a new state perhaps, or it has just been
inserted. -/
theorem row_of_step {call : Call} {w w' : World} {t : ℕ} {q q' : Phase}
    {a : Act Port Port.Reply} {stage : ℕ → Phase}
    (h : Sound w.deposits stage) (hq : stage t = q) (hs : Step call w w' q a q')
    {n : BankRefHash} {row' : Deposit} (hrow : w'.deposits.lookup n = some row') :
    (∃ row, w.deposits.lookup n = some row ∧ ∃ s, row' = { row with state := s }) ∨
    (w.deposits.lookup n = none ∧ row'.nullifier = n ∧
      a = ⟨.deposits (.insert row'), .ok ()⟩) := by
  have hsame : w'.deposits = w.deposits →
      ∃ row, w.deposits.lookup n = some row ∧ ∃ s, row' = { row with state := s } := by
    intro hdep
    rw [hdep] at hrow
    exact ⟨row', hrow, row'.state, rfl⟩
  have hupd : ∀ (d : Deposit) (s s' : DepositState),
      w.deposits.lookup d.nullifier = some { d with state := s } →
      w'.deposits = AList.insert d.nullifier { d with state := s' } w.deposits →
      ∃ row, w.deposits.lookup n = some row ∧ ∃ s, row' = { row with state := s } := by
    intro d s s' hold hdep
    rw [hdep] at hrow
    obtain ⟨rfl, rfl⟩ | hrow := AList.lookup_insert_cases hrow
    · exact ⟨_, hold, s', rfl⟩
    · exact ⟨row', hrow, row'.state, rfl⟩
  cases hs with
  | @inserted d hd _ hnone hdep _ =>
      rw [hdep] at hrow
      obtain ⟨rfl, rfl⟩ | hrow := AList.lookup_insert_cases hrow
      · exact .inr ⟨hnone, rfl, rfl⟩
      · exact .inl ⟨row', hrow, row'.state, rfl⟩
  | @judged d _ hdep _ => exact .inl (hupd d d.state _ (h.fresh t _ _ hq).2 hdep)
  | attested hdep _ =>
      obtain ⟨s, -, hold⟩ := h.passed t _ _ hq
      exact .inl (hupd _ _ _ hold hdep)
  | issued hdep _ =>
      obtain ⟨s, -, hold⟩ := h.passed t _ _ hq
      exact .inl (hupd _ _ _ hold hdep)
  | found _ _ hw => exact .inl (hsame (by rw [hw]))
  | screened hw => exact .inl (hsame (by rw [hw]))
  | unscreened hw => exact .inl (hsame (by rw [hw]))
  | timed hw => exact .inl (hsame (by rw [hw]))
  | sighted hw _ => exact .inl (hsame (by rw [hw]))
  | cleared hw _ _ => exact .inl (hsame (by rw [hw]))
  | minted hdep _ => exact .inl (hsame hdep)
  | refused hdep _ _ => exact .inl (hsame hdep)
  | other _ _ hdep _ => exact .inl (hsame hdep)

/-! ## Pools -/

def phaseAt (calls : List Call) (c : Calls) (i : ℕ) : Phase :=
  c.stage (fun i => grammar (callAt calls i)) i

/-- What holds of a pool of calls at any moment: each keeps to its grammar,
and copies and rows are together. -/
structure Coherent (calls : List Call) (c : Calls) : Prop where
  obeys : c.Obeys fun i => grammar (callAt calls i)
  sound : Sound c.world.deposits (phaseAt calls c)
  size : c.threads.length = calls.length
  inRange : c.InRange

theorem coherent_start {calls : List Call} {deltaSecs : Int64} {w : World}
    (hw : Keyed w.deposits) : Coherent calls (Calls.start deltaSecs calls w) where
  obeys := Calls.obeys_start (call_obeys deltaSecs) calls w
  sound := by
    refine ⟨hw, ?_, ?_, ?_⟩
    · intro i d v h; cases h
    · intro i j d d' v v' h; cases h
    · intro i d g h; cases h
  size := List.length_map _
  inRange := Pool.inRange_start _ _

theorem coherent_fresh (calls : List Call) (deltaSecs : Int64)
    (ledger : SimulatedLedger.State) :
    Coherent calls (Calls.start deltaSecs calls (.fresh ledger)) :=
  coherent_start fun n d h => by cases h

/-- Call `t` of a pool goes through the port call `a`; everyone else stays
where they were. -/
structure Move (calls : List Call) (c c' : Calls) (t : ℕ)
    (a : Act Port Port.Reply) (q' : Phase) : Prop extends
    Pool.Moved (fun i => grammar (callAt calls i)) c c' t a q' where
  step : Step (callAt calls t) c.world c'.world (phaseAt calls c t) a q'

theorem Move.phase_self {calls : List Call} {c c' : Calls} {t : ℕ}
    {a : Act Port Port.Reply} {q' : Phase} (h : Move calls c c' t a q') :
    phaseAt calls c' t = q' := h.stage_self

theorem Move.phase_of_ne {calls : List Call} {c c' : Calls} {t i : ℕ}
    {a : Act Port Port.Reply} {q' : Phase} (h : Move calls c c' t a q')
    (hi : i ≠ t) : phaseAt calls c' i = phaseAt calls c i := h.stage_of_ne hi

/-- A pool's step is a move, or nothing at all. -/
theorem Coherent.step_cases {calls : List Call} {c : Calls}
    (h : Coherent calls c) (t : ℕ × Env) :
    c.step World.exec t = c ∨
    ∃ a q', Move calls c (c.step World.exec t) t.1 a q' := by
  rcases Pool.step_cases (fun i => grammar (callAt calls i)) World.exec c t with
    heq | ⟨s, hworld, hm⟩
  · exact .inl heq
  · refine .inr ⟨_, _, hm, ?_⟩
    rw [hworld]
    exact step_exec (h.obeys.asks hm.asked)

theorem Coherent.step {calls : List Call} {c : Calls} (h : Coherent calls c)
    (t : ℕ × Env) : Coherent calls (c.step World.exec t) where
  obeys := Pool.obeys_step h.obeys fun s => hears_exec h.sound.keyed s
  sound := by
    rcases h.step_cases t with heq | ⟨a, q', hm⟩
    · rw [heq]; exact h.sound
    · have hphase : phaseAt calls (c.step World.exec t) =
          Function.update (phaseAt calls c) t.1 q' := hm.stage
      rw [hphase]
      exact h.sound.step rfl hm.step
  size := by rw [Pool.length_threads_step, h.size]
  inRange := Pool.inRange_step h.inRange t

theorem Coherent.beyond {calls : List Call} {c : Calls} (h : Coherent calls c)
    (i : ℕ) (hi : calls.length ≤ i) : phaseAt calls c i = .idle :=
  h.inRange.stage (by rw [h.size]; exact hi)

/-- The run rule of the on-ramp: what every move keeps holds after every
schedule. -/
theorem Coherent.run_induct (calls : List Call) {I : Calls → Prop}
    (hmove : ∀ {c c' t a q'}, Coherent calls c → I c →
      Move calls c c' t a q' → I c')
    {c : Calls} (hc : Coherent calls c) (h : I c) (ts : List (ℕ × Env)) :
    Coherent calls (c.run World.exec ts) ∧ I (c.run World.exec ts) := by
  refine Pool.run_induct (I := fun c => Coherent calls c ∧ I c) ?_
    (Pool.along_true _ _ _) ⟨hc, h⟩
  intro c t ⟨hc, hI⟩ _
  refine ⟨hc.step t, ?_⟩
  rcases hc.step_cases t with heq | ⟨a, q', hm⟩
  · rw [heq]; exact hI
  · exact hmove hc hI hm

/-- Once every call has returned, none is in the middle of anything. -/
theorem Coherent.idle_of_quiet {calls : List Call} {c : Calls}
    (h : Coherent calls c) (hq : c.Quiet) (i : ℕ) : phaseAt calls c i = .idle := by
  by_cases hi : i < c.threads.length
  · exact h.obeys.ends hi (Option.isNone_iff_eq_none.mp (hq i hi))
  · rw [h.size] at hi
    exact h.beyond i (by omega)

end Thbc.OnRamp
