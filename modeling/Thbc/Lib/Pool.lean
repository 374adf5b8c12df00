import Thbc.Lib.Prog
import Mathlib.Logic.Function.Basic

/-!
# Programs that overlap

A `Pool` is a list of programs over one shared world. A schedule says which
program makes its next request and under which outside input; the request is
answered at once and the program waits on the next. Nothing else is atomic,
so the schedules of a pool are all interleavings at the granularity of a
request. The pool keeps a log of what was asked and answered, newest first,
and `own` reads off it what one program has gone through.

Two observations carry every proof about a pool. What a program asks next
depends on the replies it got and on nothing else: if each program obeys its
`Grammar` from the empty history, then in every state of every run the
pending request of program `i` is one its grammar allows after `own i`
(`Pool.Obeys`, kept by `Pool.obeys_step`). And a fact about every state of a
run, or about every step of it, is an induction on the schedule
(`Pool.run_induct`, `Pool.Along.mono`): it is enough to look at one step, under
whatever is known to hold at every step of the run.
-/

namespace Thbc.Lib

section History

variable {S : Type} {P : S → Type}

/-- A request and the reply it got. -/
abbrev Act (S : Type) (P : S → Type) : Type := (s : S) × P s

/-- What one program asked and heard, newest first. -/
abbrev History (S : Type) (P : S → Type) : Type := List (Act S P)

/-- The entries of program `i`. -/
def own (i : Nat) (log : List (Nat × Act S P)) : History S P :=
  log.filterMap fun e => if e.1 = i then some e.2 else none

theorem own_cons_self {i : Nat} {a : Act S P} {log : List (Nat × Act S P)} :
    own i ((i, a) :: log) = a :: own i log := by
  simp [own]

theorem own_cons_of_ne {i j : Nat} {a : Act S P} {log : List (Nat × Act S P)}
    (h : j ≠ i) : own i ((j, a) :: log) = own i log := by
  simp [own, h]

theorem mem_own {i : Nat} {a : Act S P} {log : List (Nat × Act S P)} :
    a ∈ own i log ↔ (i, a) ∈ log := by
  simp only [own, List.mem_filterMap, Option.ite_none_right_eq_some,
    Option.some.injEq, Prod.exists]
  refine ⟨fun h => ?_, fun hmem => ⟨i, a, hmem, rfl, rfl⟩⟩
  obtain ⟨j, b, hmem, rfl, rfl⟩ := h
  exact hmem

/-- What a program may do, by what it has been told. The history is read by
an automaton: `start` and `advance` give the state it leads to, `asks` the
requests that may come next, `ends` the states to return in, and `hears` the
replies the program may count on. -/
structure Grammar (S : Type) (P : S → Type) (Q : Type) where
  start : Q
  advance : Q → Act S P → Q
  asks : Q → S → Prop
  ends : Q → Prop
  hears : (s : S) → P s → Prop

namespace Grammar

variable {Q Q' : Type}

/-- The state a history leads to. -/
def state (G : Grammar S P Q) (h : History S P) : Q :=
  h.foldr (fun a q => G.advance q a) G.start

@[simp] theorem state_cons (G : Grammar S P Q) (a : Act S P) (h : History S P) :
    G.state (a :: h) = G.advance (G.state h) a := rfl

/-- A grammar judges programs by its states. -/
def arena (G : Grammar S P Q) : Arena S P Q where
  allows q s := G.asks q s
  moves q s b q' := G.hears s b ∧ q' = G.advance q ⟨s, b⟩

/-- Two grammars at once. -/
def prod (G : Grammar S P Q) (G' : Grammar S P Q') : Grammar S P (Q × Q') where
  start := (G.start, G'.start)
  advance q a := (G.advance q.1 a, G'.advance q.2 a)
  asks q s := G.asks q.1 s ∧ G'.asks q.2 s
  ends q := G.ends q.1 ∧ G'.ends q.2
  hears s b := G.hears s b ∧ G'.hears s b

end Grammar

variable {Q Q' : Type} {α : Type}

theorem Prog.Meets.prod {G : Grammar S P Q} {G' : Grammar S P Q'}
    {R : α → Q → Prop} {R' : α → Q' → Prop} {p : Prog S P α} {q : Q} {q' : Q'}
    (h : p.Meets G.arena R q) (h' : p.Meets G'.arena R' q') :
    p.Meets (G.prod G').arena (fun a x => R a x.1 ∧ R' a x.2) (q, q') := by
  induction p generalizing q q' with
  | pure a => exact ⟨h, h'⟩
  | request s k ih =>
      refine ⟨⟨h.1, h'.1⟩, ?_⟩
      intro b x ⟨⟨hb, hb'⟩, hx⟩
      subst hx
      exact ih b (h.2 b _ ⟨hb, rfl⟩) (h'.2 b _ ⟨hb', rfl⟩)

/-- One request in a grammar. -/
theorem Grammar.meets_call {G : Grammar S P Q} {s : S} {R : P s → Q → Prop} {q : Q} :
    (Prog.call s).Meets G.arena R q ↔
      G.asks q s ∧ ∀ b, G.hears s b → R b (G.advance q ⟨s, b⟩) := by
  rw [Lib.meets_call]
  refine and_congr_right fun _ => ⟨fun h b hb => h b _ ⟨hb, rfl⟩, ?_⟩
  intro h b q' ⟨hb, hq⟩
  subst hq
  exact h b hb

/-- From the state `q` on, `p` does what the grammar allows. -/
def Prog.Obeys (G : Grammar S P Q) (p : Prog S P α) (q : Q) : Prop :=
  p.Meets G.arena (fun _ q' => G.ends q') q

theorem Prog.Obeys.prod {G : Grammar S P Q} {G' : Grammar S P Q'}
    {p : Prog S P α} {q : Q} {q' : Q'} (h : p.Obeys G q) (h' : p.Obeys G' q') :
    p.Obeys (G.prod G') (q, q') :=
  Prog.Meets.prod h h'

/-- A program whose requests the grammar allows in all of its states `J`, and
which never leads out of them, obeys it. -/
theorem Prog.Uses.obeys_within {G : Grammar S P Q} {N : S → Prop} {J : Q → Prop}
    {p : Prog S P α} {q : Q} (hp : p.Uses N)
    (hN : ∀ q s, J q → N s → G.asks q s ∧ ∀ b, J (G.advance q ⟨s, b⟩))
    (hJ : ∀ q, J q → G.ends q) (hq : J q) : p.Obeys G q := by
  induction p generalizing q with
  | pure a => exact hJ q hq
  | request s k ih =>
      refine ⟨(hN q s hq hp.1).1, ?_⟩
      intro b q' ⟨_, hq'⟩
      subst hq'
      exact ih b (hp.2 b) ((hN q s hq hp.1).2 b)

/-- A program whose requests leave the grammar where it is obeys it. -/
theorem Prog.Uses.obeys {G : Grammar S P Q} {N : S → Prop} {p : Prog S P α}
    {q : Q} (hp : p.Uses N)
    (hN : ∀ s, N s → G.asks q s ∧ ∀ b, G.advance q ⟨s, b⟩ = q) (hq : G.ends q) :
    p.Obeys G q := by
  refine hp.obeys_within (J := fun q' => q' = q) ?_ ?_ rfl
  · intro q' s heq hs
    subst heq
    exact hN s hs
  · intro q' heq
    subst heq
    exact hq

/-- The rule for a program that nothing overlaps: what every request the
grammar allows keeps, between its state and the world, holds at the end. -/
theorem Prog.Obeys.run_along {E W : Type} {exec : Handler S P E W}
    {φ : W → E → Prop} {G : Grammar S P Q} {J : Q → W → Prop}
    (honest : ∀ q w s e, J q w → G.hears s (exec e s w).1)
    (step : ∀ q w s e, J q w → φ w e → G.asks q s →
      J (G.advance q ⟨s, (exec e s w).1⟩) (exec e s w).2)
    {p : Prog S P α} {q : Q} {w : W} (hp : p.Obeys G q) (hJ : J q w)
    {es : Nat → E} (hes : p.Along exec φ es w) :
    ∃ q', G.ends q' ∧ J q' (p.run exec es w).2 := by
  induction p generalizing q w es with
  | pure a => exact ⟨q, hp, hJ⟩
  | request s k ih =>
      exact ih _ (hp.2 _ _ ⟨honest q w s (es 0) hJ, rfl⟩)
        (step q w s (es 0) hJ hes.1 hp.1) hes.2

theorem Prog.Obeys.run {E W : Type} {exec : Handler S P E W}
    {G : Grammar S P Q} {J : Q → W → Prop}
    (honest : ∀ q w s e, J q w → G.hears s (exec e s w).1)
    (step : ∀ q w s e, J q w → G.asks q s →
      J (G.advance q ⟨s, (exec e s w).1⟩) (exec e s w).2)
    {p : Prog S P α} {q : Q} {w : W} (hp : p.Obeys G q) (hJ : J q w)
    (es : Nat → E) :
    ∃ q', G.ends q' ∧ J q' (p.run exec es w).2 :=
  Prog.Obeys.run_along (φ := fun _ _ => True) honest
    (fun q w s e hJ _ => step q w s e hJ) hp hJ
    (Prog.along_of_forall (fun _ _ => trivial) p w)

end History

/-- Programs over one world, with the log of their requests. -/
structure Pool (S : Type) (P : S → Type) (α W : Type) where
  threads : List (Prog S P α)
  world : W
  log : List (Nat × Act S P)

namespace Pool

variable {S : Type} {P : S → Type} {E W α : Type}

/-- All programs at their beginning. -/
def start (ps : List (Prog S P α)) (w : W) : Pool S P α W := ⟨ps, w, []⟩

/-- The request program `i` waits on; none if it has returned or is not
there. -/
def pending (c : Pool S P α W) (i : Nat) : Option S :=
  (c.threads[i]?).bind Prog.pending

/-- Every program has returned. -/
def Quiet (c : Pool S P α W) : Prop :=
  ∀ i, i < c.threads.length → (c.pending i).isNone = true

instance (c : Pool S P α W) : Decidable c.Quiet :=
  inferInstanceAs (Decidable (∀ i, i < c.threads.length → _))

theorem lt_of_pending {c : Pool S P α W} {i : Nat} {s : S}
    (h : c.pending i = some s) : i < c.threads.length := by
  unfold pending at h
  cases hp : c.threads[i]? with
  | none => rw [hp] at h; cases h
  | some p => exact (List.getElem?_eq_some_iff.mp hp).1

/-- Program `t.1` makes its request under the outside input `t.2`. -/
def step (exec : Handler S P E W) (c : Pool S P α W) (t : Nat × E) :
    Pool S P α W :=
  match c.threads[t.1]? with
  | some (.request s k) =>
      let r := exec t.2 s c.world
      ⟨c.threads.set t.1 (k r.1), r.2, (t.1, ⟨s, r.1⟩) :: c.log⟩
  | _ => c

/-- A whole schedule. -/
def run (exec : Handler S P E W) (c : Pool S P α W) (ts : List (Nat × E)) :
    Pool S P α W :=
  ts.foldl (step exec) c

@[simp] theorem run_cons (exec : Handler S P E W) (c : Pool S P α W)
    (t : Nat × E) (ts : List (Nat × E)) :
    c.run exec (t :: ts) = (c.step exec t).run exec ts := rfl

theorem run_append (exec : Handler S P E W) (c : Pool S P α W)
    (ts us : List (Nat × E)) :
    c.run exec (ts ++ us) = (c.run exec ts).run exec us :=
  List.foldl_append

/-! ## What one step can do -/

theorem step_of_pending_none {exec : Handler S P E W} {c : Pool S P α W}
    {t : Nat × E} (h : c.pending t.1 = none) : c.step exec t = c := by
  unfold step
  split
  · next s k hk => rw [pending, hk] at h; cases h
  · rfl

/-- A step of a program that waits on `s`: the world moves as the handler
says and the log grows by the answered request. -/
theorem step_of_pending (exec : Handler S P E W) {c : Pool S P α W}
    {t : Nat × E} {s : S} (h : c.pending t.1 = some s) :
    (c.step exec t).world = (exec t.2 s c.world).2 ∧
      (c.step exec t).log = (t.1, ⟨s, (exec t.2 s c.world).1⟩) :: c.log := by
  unfold pending at h
  unfold step
  split
  · next s' k hk =>
      rw [hk] at h
      obtain rfl : s' = s := Option.some.inj h
      exact ⟨rfl, rfl⟩
  · next hno =>
      cases hk : c.threads[t.1]? with
      | none => rw [hk] at h; cases h
      | some p =>
          cases p with
          | pure a => rw [hk] at h; cases h
          | request s' k => exact absurd hk (hno s' k)

/-! ## Every program keeps to its grammar -/

/-- The state of program `i` in its grammar. -/
def stage {Q : Type} (G : Nat → Grammar S P Q) (c : Pool S P α W) (i : Nat) : Q :=
  (G i).state (own i c.log)

/-- Program `i` keeps to `G i` from where it stands. -/
def Obeys {Q : Type} (G : Nat → Grammar S P Q) (c : Pool S P α W) : Prop :=
  ∀ i, ∀ p : Prog S P α, c.threads[i]? = some p →
    p.Obeys (G i) (c.stage G i)

/-- The same with what program `i` returns: an `R i`. -/
def Meets {Q : Type} (G : Nat → Grammar S P Q) (R : Nat → α → Q → Prop)
    (c : Pool S P α W) : Prop :=
  ∀ i, ∀ p : Prog S P α, c.threads[i]? = some p →
    p.Meets (G i).arena (R i) (c.stage G i)

section Obeys

variable {Q : Type} {G : Nat → Grammar S P Q} {R : Nat → α → Q → Prop}
  {c : Pool S P α W}

theorem obeys_start {ps : List (Prog S P α)} {w : W}
    (h : ∀ i, ∀ p : Prog S P α, ps[i]? = some p → p.Obeys (G i) (G i).start) :
    (start ps w).Obeys G := h

theorem meets_step {exec : Handler S P E W} {t : Nat × E} (hc : c.Meets G R)
    (honest : ∀ s, (G t.1).hears s (exec t.2 s c.world).1) :
    (c.step exec t).Meets G R := by
  unfold step
  split
  · next s k hk =>
      intro i p hp
      by_cases hi : i = t.1
      · subst hi
        rw [List.getElem?_set_self (List.getElem?_eq_some_iff.mp hk).1] at hp
        obtain rfl := Option.some.inj hp
        simp only [stage, own_cons_self, Grammar.state_cons]
        exact (hc _ _ hk).2 _ _ ⟨honest s, rfl⟩
      · rw [List.getElem?_set_ne (fun h => hi h.symm)] at hp
        simp only [stage, own_cons_of_ne (fun h : t.1 = i => hi h.symm)]
        exact hc i p hp
  · exact hc

theorem obeys_step {exec : Handler S P E W} {t : Nat × E} (hc : c.Obeys G)
    (honest : ∀ s, (G t.1).hears s (exec t.2 s c.world).1) :
    (c.step exec t).Obeys G :=
  meets_step (R := fun i _ q => (G i).ends q) hc honest

theorem Meets.asks (hc : c.Meets G R) {i : Nat} {s : S}
    (h : c.pending i = some s) : (G i).asks (c.stage G i) s := by
  unfold pending at h
  cases hp : c.threads[i]? with
  | none => rw [hp] at h; cases h
  | some p =>
      rw [hp] at h
      cases p with
      | pure a => cases h
      | request s' k =>
          obtain rfl : s' = s := Option.some.inj h
          exact (hc i _ hp).1

/-- The pending request of a program is one its grammar allows. -/
theorem Obeys.asks (hc : c.Obeys G) {i : Nat} {s : S}
    (h : c.pending i = some s) : (G i).asks (c.stage G i) s :=
  Meets.asks (R := fun i _ q => (G i).ends q) hc h

/-- A program that waits on nothing has returned where its grammar lets it. -/
theorem Obeys.ends (hc : c.Obeys G) {i : Nat} (hi : i < c.threads.length)
    (h : c.pending i = none) : (G i).ends (c.stage G i) := by
  unfold pending at h
  have hp : c.threads[i]? = some c.threads[i] := List.getElem?_eq_getElem hi
  have hg := hc i _ hp
  rw [hp] at h
  cases hq : c.threads[i] with
  | pure a => rw [hq] at hg; exact hg
  | request s k => rw [hq] at h; cases h

/-- What is found after an update is the new value, in its place, or an old
one. -/
theorem update_cases {stage : Nat → Q} {t i : Nat} {q p : Q}
    (h : Function.update stage t q i = p) :
    (i = t ∧ q = p) ∨ (i ≠ t ∧ stage i = p) := by
  by_cases hi : i = t
  · subst hi
    rw [Function.update_self] at h
    exact .inl ⟨rfl, h⟩
  · rw [Function.update_of_ne hi] at h
    exact .inr ⟨hi, h⟩

/-- Program `t` goes through `a` into the state `q`; the others stay where they
were. -/
structure Moved (G : Nat → Grammar S P Q) (c c' : Pool S P α W) (t : Nat)
    (a : Act S P) (q : Q) : Prop where
  log : c'.log = (t, a) :: c.log
  asked : c.pending t = some a.1
  stage : c'.stage G = Function.update (c.stage G) t q

theorem Moved.stage_self {c' : Pool S P α W} {t : Nat} {a : Act S P} {q : Q}
    (h : Moved G c c' t a q) : c'.stage G t = q := by
  rw [h.stage, Function.update_self]

theorem Moved.stage_of_ne {c' : Pool S P α W} {t i : Nat} {a : Act S P} {q : Q}
    (h : Moved G c c' t a q) (hi : i ≠ t) : c'.stage G i = c.stage G i := by
  rw [h.stage, Function.update_of_ne hi]

/-- A step moves one program by one answered request, or does nothing. -/
theorem step_cases (G : Nat → Grammar S P Q) (exec : Handler S P E W)
    (c : Pool S P α W) (t : Nat × E) :
    c.step exec t = c ∨
    ∃ s, (c.step exec t).world = (exec t.2 s c.world).2 ∧
      Moved G c (c.step exec t) t.1 ⟨s, (exec t.2 s c.world).1⟩
        ((G t.1).advance (c.stage G t.1) ⟨s, (exec t.2 s c.world).1⟩) := by
  cases hp : c.pending t.1 with
  | none => exact .inl (step_of_pending_none hp)
  | some s =>
      obtain ⟨hworld, hlog⟩ := step_of_pending exec hp
      refine .inr ⟨s, hworld, hlog, hp, ?_⟩
      funext i
      by_cases hi : i = t.1
      · subst hi
        rw [Function.update_self, Pool.stage, hlog, own_cons_self]
        rfl
      · rw [Function.update_of_ne hi, Pool.stage, hlog,
          own_cons_of_ne (fun h => hi h.symm)]
        rfl

end Obeys

theorem length_threads_step (exec : Handler S P E W) (c : Pool S P α W)
    (t : Nat × E) : (c.step exec t).threads.length = c.threads.length := by
  unfold step
  split
  · exact List.length_set
  · rfl

/-- The log speaks of the programs of the pool only. -/
def InRange (c : Pool S P α W) : Prop := ∀ e ∈ c.log, e.1 < c.threads.length

theorem inRange_start (ps : List (Prog S P α)) (w : W) : (start ps w).InRange := by
  intro e he
  cases he

theorem inRange_step {exec : Handler S P E W} {c : Pool S P α W}
    (h : c.InRange) (t : Nat × E) : (c.step exec t).InRange := by
  intro e he
  rw [length_threads_step]
  cases hp : c.pending t.1 with
  | none => rw [step_of_pending_none hp] at he; exact h e he
  | some s =>
      rw [(step_of_pending exec hp).2] at he
      rcases List.mem_cons.mp he with rfl | he
      · exact lt_of_pending hp
      · exact h e he

/-- A program that is not there has done nothing. -/
theorem InRange.stage {Q : Type} {G : Nat → Grammar S P Q} {c : Pool S P α W}
    (h : c.InRange) {i : Nat} (hi : c.threads.length ≤ i) :
    c.stage G i = (G i).start := by
  have hown : own i c.log = [] := by
    rw [List.eq_nil_iff_forall_not_mem]
    intro a ha
    have := h _ (mem_own.mp ha)
    omega
  rw [Pool.stage, hown]
  rfl

/-! ## Runs -/

/-- `φ` holds of every step the run takes, in the state it is taken from. -/
def Along (exec : Handler S P E W) (φ : Pool S P α W → Nat × E → Prop) :
    Pool S P α W → List (Nat × E) → Prop
  | _, [] => True
  | c, t :: ts => φ c t ∧ Along exec φ (c.step exec t) ts

instance Along.decidable (exec : Handler S P E W)
    (φ : Pool S P α W → Nat × E → Prop) [∀ c t, Decidable (φ c t)] :
    ∀ (c : Pool S P α W) (ts : List (Nat × E)), Decidable (Along exec φ c ts)
  | _, [] => inferInstanceAs (Decidable True)
  | c, t :: ts =>
      have := Along.decidable exec φ (c.step exec t) ts
      inferInstanceAs (Decidable (φ c t ∧ Along exec φ (c.step exec t) ts))

theorem along_true (exec : Handler S P E W) (c : Pool S P α W)
    (ts : List (Nat × E)) : Along exec (fun _ _ => True) c ts := by
  induction ts generalizing c with
  | nil => trivial
  | cons t ts ih => exact ⟨trivial, ih _⟩

theorem along_append {exec : Handler S P E W}
    {φ : Pool S P α W → Nat × E → Prop} {c : Pool S P α W}
    {ts us : List (Nat × E)} :
    Along exec φ c (ts ++ us) ↔
      Along exec φ c ts ∧ Along exec φ (c.run exec ts) us := by
  induction ts generalizing c with
  | nil => exact (iff_of_eq (true_and _)).symm
  | cons t ts ih =>
      show φ c t ∧ Along exec φ _ (ts ++ us) ↔ (φ c t ∧ Along exec φ _ ts) ∧ _
      rw [ih, run_cons, and_assoc]

/-- Step by step: what was run before does not matter to the rest. -/
theorem along_iff {exec : Handler S P E W}
    {φ : Pool S P α W → Nat × E → Prop} {c : Pool S P α W}
    {ts : List (Nat × E)} :
    Along exec φ c ts ↔ ∀ us t vs, ts = us ++ t :: vs → φ (c.run exec us) t := by
  constructor
  · intro h us t vs hts
    rw [hts] at h
    exact (along_append.mp h).2.1
  · intro h
    induction ts generalizing c with
    | nil => trivial
    | cons t ts ih =>
        refine ⟨h [] t ts rfl, ih fun us t' vs hts => ?_⟩
        exact h (t :: us) t' vs (by rw [hts]; rfl)

/-- The step rule: an invariant that every step of the run keeps, and under
which every step does `ψ`. -/
theorem Along.mono {exec : Handler S P E W}
    {φ ψ : Pool S P α W → Nat × E → Prop} {I : Pool S P α W → Prop}
    (hstep : ∀ c t, I c → φ c t → I (c.step exec t))
    (hψ : ∀ c t, I c → φ c t → ψ c t) {c : Pool S P α W}
    {ts : List (Nat × E)} (h : Along exec φ c ts) (hc : I c) :
    Along exec ψ c ts := by
  induction ts generalizing c with
  | nil => trivial
  | cons t ts ih =>
      exact ⟨hψ c t hc h.1, ih h.2 (hstep c t hc h.1)⟩

/-- The run rule: what every step keeps holds at the end. -/
theorem run_induct {exec : Handler S P E W}
    {φ : Pool S P α W → Nat × E → Prop} {I : Pool S P α W → Prop}
    (hstep : ∀ c t, I c → φ c t → I (c.step exec t)) {c : Pool S P α W}
    {ts : List (Nat × E)} (h : Along exec φ c ts) (hc : I c) :
    I (c.run exec ts) := by
  induction ts generalizing c with
  | nil => exact hc
  | cons t ts ih => exact ih h.2 (hstep c t hc h.1)

end Pool

/-! ## Things that happen once -/

/-- Entries with `p` are in the log at most once, and not before `done`. -/
structure Once {ε : Type} (p : ε → Bool) (done : Prop) (log : List ε) : Prop where
  before : ¬ done → log.countP p = 0
  once : log.countP p ≤ 1

theorem Once.mono {ε : Type} {p : ε → Bool} {done done' : Prop} {log : List ε}
    (h : Once p done log) (stays : done → done') : Once p done' log :=
  ⟨fun hn => h.before fun hd => hn (stays hd), h.once⟩

/-- What can happen only before `done` and brings `done` about happens once. -/
theorem Once.cons {ε : Type} {p : ε → Bool} {done done' : Prop} {log : List ε}
    {e : ε} (h : Once p done log) (stays : done → done')
    (fires : p e = true → ¬ done ∧ done') : Once p done' (e :: log) := by
  cases hp : p e with
  | true =>
      obtain ⟨hno, hyes⟩ := fires hp
      have h0 := h.before hno
      have hc : (e :: log).countP p = log.countP p + 1 :=
        List.countP_cons_of_pos hp
      exact ⟨fun hn => absurd hyes hn, by omega⟩
  | false =>
      have hc : (e :: log).countP p = log.countP p :=
        List.countP_cons_of_neg (by rw [hp]; exact Bool.false_ne_true)
      exact ⟨fun hn => by rw [hc]; exact h.before fun hd => hn (stays hd),
        by rw [hc]; exact h.once⟩

end Thbc.Lib
