import Thbc.Lib.Run

/-!
# Runs that stop anywhere

A process can go away between any two requests of a program. What the requests
until then have done is done, the rest of the program is not run, and whatever
comes next starts at its beginning: that is `Prog.upTo`, and `interrupted` is one
such run after another. A program that is given enough requests runs to its end, so
nothing needs to be said of uninterrupted runs beside.

The one rule here is for programs that keep to a grammar each
(`interrupted_induct`). An invariant between the state of the grammar and the
world is kept by every request, as in a run to the end, and it has to be one that
a program may be dropped under: with the same world it holds at the beginning of
the next.
-/

namespace Thbc.Lib

variable {S : Type} {P : S → Type} {E W Q C α : Type}

/-- What the first `n` requests of a run leave. -/
def Prog.upTo (exec : Handler S P E W) : Nat → Prog S P α → (Nat → E) → W → W
  | 0, _, _, w => w
  | _ + 1, .pure _, _, w => w
  | n + 1, .request s k, es, w =>
      let r := exec (es 0) s w
      upTo exec n (k r.1) (fun i => es (i + 1)) r.2

variable {exec : Handler S P E W}

/-- A program is stopped in some state of its grammar. -/
theorem Prog.Obeys.upTo {G : Grammar S P Q} {J : Q → W → Prop}
    (honest : ∀ q w s e, J q w → G.hears s (exec e s w).1)
    (step : ∀ q w s e, J q w → G.asks q s →
      J (G.advance q ⟨s, (exec e s w).1⟩) (exec e s w).2)
    {p : Prog S P α} {q : Q} {w : W} (hp : p.Obeys G q) (hJ : J q w) (n : Nat)
    (es : Nat → E) : ∃ q', J q' (p.upTo exec n es w) := by
  induction n generalizing p q w es with
  | zero => exact ⟨q, hJ⟩
  | succ n ih =>
      cases p with
      | pure a => exact ⟨q, hJ⟩
      | request s k =>
          exact ih (hp.2 _ _ ⟨honest q w s (es 0) hJ, rfl⟩)
            (step q w s (es 0) hJ hp.1) _

/-- Programs one after the other, each stopped after so many requests, unless it
has returned before. -/
def interrupted (exec : Handler S P E W) (prog : C → Prog S P α) (w : W)
    (calls : List (C × Nat × (Nat → E))) : W :=
  calls.foldl (fun w c => (prog c.1).upTo exec c.2.1 c.2.2 w) w

variable {prog : C → Prog S P α}

/-- What holds of a world under every program that is dropped there holds at the
end. -/
theorem interrupted_induct {G : C → Grammar S P Q} {J : Q → W → Prop} {q₀ : Q}
    (obeys : ∀ c, (prog c).Obeys (G c) q₀)
    (honest : ∀ c q w s e, J q w → (G c).hears s (exec e s w).1)
    (step : ∀ c q w s e, J q w → (G c).asks q s →
      J ((G c).advance q ⟨s, (exec e s w).1⟩) (exec e s w).2)
    (drop : ∀ q w, J q w → J q₀ w) (calls : List (C × Nat × (Nat → E))) {w : W}
    (h : J q₀ w) : J q₀ (interrupted exec prog w calls) := by
  unfold interrupted
  induction calls generalizing w with
  | nil => exact h
  | cons c calls ih =>
      obtain ⟨q', hq'⟩ := Prog.Obeys.upTo (honest c.1) (step c.1) (obeys c.1) h c.2.1 c.2.2
      exact ih (drop q' _ hq')

end Thbc.Lib
