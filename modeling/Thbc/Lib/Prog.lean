import Mathlib.Logic.Basic

/-!
# Programs that talk to their environment

`Prog S P α` is a computation that issues requests `s : S`, waits for the
reply `P s` to each, and returns an `α`. It is the shape of code written
against a set of ports: everything the code can learn or change goes through
a request, and what lies behind the requests is not part of the program. A
`Handler` is what lies behind them, and `Prog.run` puts the two together for
one call that nothing else overlaps.

Reasoning about a program never mentions `run`. `Prog.Meets` walks the
program under an `Arena`: a state the reasoner keeps, the requests allowed
in each state, and how the state may change with the reply. It has one rule
per construct (`meets_pure`, `meets_call`, `meets_bind`, and the same for
`ExceptT` on top), and two arenas give it its uses. In `Handler.arena` the
state is the handler's own, every request is allowed, and the rules are
those of a weakest precondition (`meets_run`). In `Grammar.arena` the state
is the history of requests and replies so far and the arena allows what a
grammar allows, so that the rules say what a call may do next, whatever it
is answered (`Pool.lean` makes use of it).
-/

namespace Thbc.Lib

/-- A program over the requests `S`, the reply to `s` being a `P s`. -/
inductive Prog (S : Type) (P : S → Type) (α : Type) : Type where
  | pure (a : α) : Prog S P α
  | request (s : S) (k : P s → Prog S P α) : Prog S P α

namespace Prog

variable {S : Type} {P : S → Type} {α β : Type}

/-- Run `p`, then carry on with what it returned. -/
def bind (p : Prog S P α) (f : α → Prog S P β) : Prog S P β :=
  match p with
  | .pure a => f a
  | .request s k => .request s fun b => (k b).bind f

instance : Monad (Prog S P) where
  pure := .pure
  bind := .bind

/-- One request, answered with its reply. -/
def call (s : S) : Prog S P (P s) := .request s .pure

/-- The request the program is waiting on, if it has not returned. -/
def pending : Prog S P α → Option S
  | .pure _ => none
  | .request s _ => some s

end Prog

/-- What answers requests: an outside input `E`, the request and the state
give the reply and the next state. -/
abbrev Handler (S : Type) (P : S → Type) (E W : Type) : Type :=
  E → (s : S) → W → P s × W

/-- Run a program to its end, one outside input per request. -/
def Prog.run {S : Type} {P : S → Type} {E W α : Type} (exec : Handler S P E W) :
    Prog S P α → (Nat → E) → W → α × W
  | .pure a, _, w => (a, w)
  | .request s k, es, w =>
      let r := exec (es 0) s w
      run exec (k r.1) (fun n => es (n + 1)) r.2

/-- A setting to judge programs in: which requests are allowed where, and
where a reply may lead. -/
structure Arena (S : Type) (P : S → Type) (X : Type) where
  allows : X → S → Prop
  moves : X → (s : S) → P s → X → Prop

section Meets

variable {S : Type} {P : S → Type} {X α β ε : Type}

/-- Every request of the program is allowed where it is made, and wherever
the program returns the postcondition holds. -/
def Prog.Meets (A : Arena S P X) (Q : α → X → Prop) : Prog S P α → X → Prop
  | .pure a, x => Q a x
  | .request s k, x =>
      A.allows x s ∧ ∀ b x', A.moves x s b x' → (k b).Meets A Q x'

theorem meets_pure {A : Arena S P X} {Q : α → X → Prop} {a : α} {x : X} :
    (pure a : Prog S P α).Meets A Q x ↔ Q a x := Iff.rfl

/-- The same for a program that has already been run to its value. -/
theorem meets_return {A : Arena S P X} {Q : α → X → Prop} {a : α} {x : X} :
    (Prog.pure a : Prog S P α).Meets A Q x ↔ Q a x := Iff.rfl

theorem meets_call {A : Arena S P X} {s : S} {Q : P s → X → Prop} {x : X} :
    (Prog.call s).Meets A Q x ↔
      A.allows x s ∧ ∀ b x', A.moves x s b x' → Q b x' := Iff.rfl

theorem meets_bind {A : Arena S P X} {Q : β → X → Prop} {p : Prog S P α}
    {f : α → Prog S P β} {x : X} :
    (p >>= f).Meets A Q x ↔ p.Meets A (fun a y => (f a).Meets A Q y) x := by
  induction p generalizing x with
  | pure a => exact Iff.rfl
  | request s k ih =>
      exact and_congr_right fun _ => forall₃_congr fun b x' hm => ih b

theorem meets_mono {A : Arena S P X} {Q Q' : α → X → Prop} {p : Prog S P α}
    {x : X} (h : p.Meets A Q x) (hQ : ∀ a y, Q a y → Q' a y) :
    p.Meets A Q' x := by
  induction p generalizing x with
  | pure a => exact hQ a x h
  | request s k ih => exact ⟨h.1, fun b x' hm => ih b (h.2 b x' hm)⟩

/-! ## The same rules for programs that may fail

`ExceptT` over `Prog` is how a port call that may return an error is
written; a bind only carries on after a success. -/

theorem meets_run_bind {A : Arena S P X} {Q : Except ε β → X → Prop}
    {p : ExceptT ε (Prog S P) α} {f : α → ExceptT ε (Prog S P) β} {x : X} :
    (p >>= f).run.Meets A Q x ↔
      p.run.Meets A (fun r y => match r with
        | .ok a => (f a).run.Meets A Q y
        | .error e => Q (.error e) y) x := by
  have h : (p >>= f).run = p.run >>= ExceptT.bindCont f := rfl
  rw [h, meets_bind]
  refine iff_of_eq (congrArg (fun Q' => p.run.Meets A Q' x) ?_)
  funext r y
  cases r with
  | ok a => rfl
  | error e => rfl

end Meets

/-! ## Which requests a program uses

Where only the kind of the requests matters there is no state to keep, and
one rule for a bind is all. -/

section Uses

variable {S : Type} {P : S → Type} {α β ε : Type} {N : S → Prop}

/-- Whatever it is answered, every request of the program is an `N`. -/
def Prog.Uses (N : S → Prop) : Prog S P α → Prop
  | .pure _ => True
  | .request s k => N s ∧ ∀ b, (k b).Uses N

theorem Prog.Uses.mono {N' : S → Prop} {p : Prog S P α} (hp : p.Uses N)
    (h : ∀ s, N s → N' s) : p.Uses N' := by
  induction p with
  | pure a => trivial
  | request s k ih => exact ⟨h s hp.1, fun b => ih b (hp.2 b)⟩

theorem uses_any (p : Prog S P α) : p.Uses fun _ => True := by
  induction p with
  | pure a => trivial
  | request s k ih => exact ⟨trivial, ih⟩

theorem uses_call {s : S} (h : N s) : (Prog.call s : Prog S P (P s)).Uses N :=
  ⟨h, fun _ => trivial⟩

theorem uses_bind {p : Prog S P α} {f : α → Prog S P β} (hp : p.Uses N)
    (hf : ∀ a, (f a).Uses N) : (p >>= f).Uses N := by
  induction p with
  | pure a => exact hf a
  | request s k ih => exact ⟨hp.1, fun b => ih b (hp.2 b)⟩

theorem uses_run_bind {p : ExceptT ε (Prog S P) α}
    {f : α → ExceptT ε (Prog S P) β} (hp : p.run.Uses N)
    (hf : ∀ a, (f a).run.Uses N) : (p >>= f).run.Uses N := by
  have h : (p >>= f).run = p.run >>= ExceptT.bindCont f := rfl
  rw [h]
  refine uses_bind hp fun r => ?_
  cases r with
  | ok a => exact hf a
  | error e => trivial

end Uses

/-! ## The handler as an arena -/

section Run

variable {S : Type} {P : S → Type} {E W α : Type}

/-- Everything is allowed, and the state moves as the handler moves it under
some outside input. -/
def Handler.arena (exec : Handler S P E W) : Arena S P W where
  allows _ _ := True
  moves w s b w' := ∃ e, exec e s w = (b, w')

/-- What `Meets` says in the handler's own arena holds of every run. -/
theorem meets_run {exec : Handler S P E W} {Q : α → W → Prop}
    {p : Prog S P α} {w : W} (h : p.Meets (Handler.arena exec) Q w)
    (es : Nat → E) : Q (p.run exec es w).1 (p.run exec es w).2 := by
  induction p generalizing es w with
  | pure a => exact h
  | request s k ih => exact ih _ (h.2 _ _ ⟨es 0, rfl⟩) _

/-- What every request keeps holds after every run. -/
theorem run_keeps {exec : Handler S P E W} {I : W → Prop}
    (hstep : ∀ e s w, I w → I (exec e s w).2) (p : Prog S P α) (es : Nat → E)
    {w : W} (h : I w) : I (p.run exec es w).2 := by
  induction p generalizing es w with
  | pure a => exact h
  | request s k ih => exact ih _ _ (hstep _ _ _ h)

/-! Where a run is known to stay within a `φ`, the moves outside of it need
not be looked at. -/

/-- Every request of the run is made where `φ` holds. -/
def Prog.Along (exec : Handler S P E W) (φ : W → E → Prop) :
    Prog S P α → (Nat → E) → W → Prop
  | .pure _, _, _ => True
  | .request s k, es, w =>
      φ w (es 0) ∧ (k (exec (es 0) s w).1).Along exec φ (fun n => es (n + 1))
        (exec (es 0) s w).2

instance Prog.Along.decidable (exec : Handler S P E W) (φ : W → E → Prop)
    [∀ w e, Decidable (φ w e)] :
    ∀ (p : Prog S P α) (es : Nat → E) (w : W), Decidable (p.Along exec φ es w)
  | .pure _, _, _ => inferInstanceAs (Decidable True)
  | .request s k, es, w =>
      have := Prog.Along.decidable exec φ (k (exec (es 0) s w).1)
        (fun n => es (n + 1)) (exec (es 0) s w).2
      inferInstanceAs (Decidable (φ w (es 0) ∧ (k (exec (es 0) s w).1).Along exec φ
        (fun n => es (n + 1)) (exec (es 0) s w).2))

theorem Prog.along_of_forall {exec : Handler S P E W} {φ : W → E → Prop}
    {es : Nat → E} (h : ∀ w n, φ w (es n)) (p : Prog S P α) (w : W) :
    p.Along exec φ es w := by
  induction p generalizing es w with
  | pure a => trivial
  | request s k ih => exact ⟨h w 0, ih _ (fun w n => h w (n + 1)) _⟩

/-- `Handler.arena`, as far as `φ` holds. -/
def Handler.arenaWhere (exec : Handler S P E W) (φ : W → E → Prop) :
    Arena S P W where
  allows _ _ := True
  moves w s b w' := ∃ e, φ w e ∧ exec e s w = (b, w')

theorem meets_call_where {exec : Handler S P E W} {φ : W → E → Prop} {s : S}
    {Q : P s → W → Prop} {w : W} :
    (Prog.call s).Meets (exec.arenaWhere φ) Q w ↔
      ∀ e, φ w e → Q (exec e s w).1 (exec e s w).2 := by
  rw [meets_call]
  refine ⟨fun h e he => h.2 _ _ ⟨e, he, rfl⟩, fun h => ⟨trivial, ?_⟩⟩
  intro b w' ⟨e, he, heq⟩
  have hq := h e he
  rw [heq] at hq
  exact hq

/-- A request that is answered the same way under every input. -/
theorem meets_call_det {exec : Handler S P E W} {φ : W → E → Prop} {s : S}
    {Q : P s → W → Prop} {a : P s} {w w' : W}
    (hexec : ∀ e, φ w e → exec e s w = (a, w')) (h : Q a w') :
    (Prog.call s).Meets (exec.arenaWhere φ) Q w := by
  refine meets_call_where.mpr fun e he => ?_
  rw [hexec e he]
  exact h

/-- What every request keeps comes on top of any postcondition. -/
theorem meets_keeps {exec : Handler S P E W} {φ : W → E → Prop} {I : W → Prop}
    (hstep : ∀ e s w, I w → I (exec e s w).2) {Q : α → W → Prop}
    {p : Prog S P α} {w : W} (h : p.Meets (exec.arenaWhere φ) Q w) (hI : I w) :
    p.Meets (exec.arenaWhere φ) (fun a w' => Q a w' ∧ I w') w := by
  induction p generalizing w with
  | pure a => exact ⟨h, hI⟩
  | request s k ih =>
      refine ⟨trivial, fun b w' hm => ih b (h.2 b w' hm) ?_⟩
      obtain ⟨e, -, heq⟩ := hm
      have := hstep e s w hI
      rw [heq] at this
      exact this

theorem meets_run_along {exec : Handler S P E W} {φ : W → E → Prop}
    {Q : α → W → Prop} {p : Prog S P α} {w : W}
    (h : p.Meets (exec.arenaWhere φ) Q w) {es : Nat → E}
    (hes : p.Along exec φ es w) : Q (p.run exec es w).1 (p.run exec es w).2 := by
  induction p generalizing es w with
  | pure a => exact h
  | request s k ih => exact ih _ (h.2 _ _ ⟨es 0, hes.1, rfl⟩) hes.2

end Run

end Thbc.Lib
