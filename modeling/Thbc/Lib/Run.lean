import Thbc.Lib.Pool

/-!
# One run, with a fault or with a log

`Handler.logged` keeps the acts of a run beside its state. `Handler.failing`
answers the first requests that can fail itself, as many as it is told to, and
`Handler.faulty` one of them, the `k`-th; neither passes these on. What a
program leaves behind is then what it would have left had it stopped there;
`cut` keeps the count, so that a walk through a program can say how far it got
without a case for every `k`.
-/

namespace Thbc.Lib

variable {S : Type} {P : S → Type} {E W α : Type}

/-- The `k`-th request that has a `fault` to be answered with gets it, and
nothing is done; with `none` nothing fails any more. -/
def Handler.faulty (exec : Handler S P E W) (fault : (s : S) → Option (P s)) :
    Handler S P E (W × Option Nat)
  | e, s, (w, k) =>
      match fault s, k with
      | some b, some 0 => (b, w, none)
      | some _, some (k + 1) => ((exec e s w).1, (exec e s w).2, some k)
      | _, k => ((exec e s w).1, (exec e s w).2, k)

/-- How many of `total` requests that can fail are carried out, when `i` of
them have been and the `k`-th from there fails. -/
def cut (total i : Nat) : Option Nat → Nat
  | some k => min (i + k) total
  | none => total

theorem cut_self {total : Nat} (k : Option Nat) : cut total total k = total := by
  cases k with
  | none => rfl
  | some k => exact Nat.min_eq_right (Nat.le_add_right _ _)

variable {exec : Handler S P E W} {fault : (s : S) → Option (P s)}
  {φ : W × Option Nat → E → Prop}

theorem faulty_cases (exec : Handler S P E W) (fault : (s : S) → Option (P s))
    (e : E) (s : S) (w : W) (k : Option Nat) :
    (∃ k', exec.faulty fault e s (w, k) = ((exec e s w).1, (exec e s w).2, k')) ∨
    ∃ b, fault s = some b ∧ exec.faulty fault e s (w, k) = (b, w, none) := by
  cases hs : fault s with
  | none => exact .inl ⟨k, by simp only [Handler.faulty, hs]⟩
  | some b =>
      rcases k with - | - | k
      · exact .inl ⟨none, by simp only [Handler.faulty, hs]⟩
      · exact .inr ⟨b, rfl, by simp only [Handler.faulty, hs]⟩
      · exact .inl ⟨some k, by simp only [Handler.faulty, hs]⟩

/-- The rule for a request that can fail, after `i` others, and that does the
same under every input: it fails now, or it is carried out and something later
may fail. -/
theorem meets_call_faulty {s : S} {b : P s} (hs : fault s = some b)
    {Q : P s → W × Option Nat → Prop} {total i m : Nat} {w w' : W} {a : P s}
    {k : Option Nat} (hm : cut total i k = m) (hi : i < total)
    (hexec : ∀ e, φ (w, k) e → exec e s w = (a, w'))
    (hfail : m = i → Q b (w, none))
    (hdone : ∀ k', cut total (i + 1) k' = m → Q a (w', k')) :
    (Prog.call s).Meets ((exec.faulty fault).arenaWhere φ) Q (w, k) := by
  refine meets_call_where.mpr fun e he => ?_
  rcases k with - | - | k
  · have hx : exec.faulty fault e s (w, none) = (a, w', none) := by
      simp only [Handler.faulty, hs, hexec e he]
    rw [hx]
    exact hdone none hm
  · have hx : exec.faulty fault e s (w, some 0) = (b, w, none) := by
      simp only [Handler.faulty, hs]
    rw [hx]
    refine hfail (hm.symm.trans ?_)
    show min (i + 0) total = i
    omega
  · have hx : exec.faulty fault e s (w, some (k + 1)) = (a, w', some k) := by
      simp only [Handler.faulty, hs, hexec e he]
    rw [hx]
    refine hdone (some k) (Eq.trans ?_ hm)
    show min (i + 1 + k) total = min (i + (k + 1)) total
    omega

theorem faulty_of_sound {s : S} (hs : fault s = none) (e : E) (w : W)
    (k : Option Nat) :
    exec.faulty fault e s (w, k) = ((exec e s w).1, (exec e s w).2, k) := by
  simp only [Handler.faulty, hs]

/-- Where nothing is to fail, nothing is different. -/
theorem meets_run_sound {ψ : W → E → Prop} {Q : α → W × Option Nat → Prop}
    {p : Prog S P α} {w : W}
    (h : p.Meets ((exec.faulty fault).arenaWhere fun x => ψ x.1) Q (w, none))
    {es : Nat → E} (hes : p.Along exec ψ es w) :
    Q (p.run exec es w).1 ((p.run exec es w).2, none) := by
  induction p generalizing es w with
  | pure a => exact h
  | request s k ih =>
      refine ih _ (h.2 _ _ ⟨es 0, hes.1, ?_⟩) hes.2
      cases hf : fault s with
      | none => simp only [Handler.faulty, hf]
      | some b => simp only [Handler.faulty, hf]

/-- The first requests that have a fault get it, `k` of them in all, and nothing
is done. -/
def Handler.failing (exec : Handler S P E W) (fault : Nat → (s : S) → Option (P s)) :
    Handler S P E (W × Nat)
  | e, s, (w, 0) => ((exec e s w).1, (exec e s w).2, 0)
  | e, s, (w, k + 1) =>
      match fault k s with
      | some b => (b, w, k)
      | none => ((exec e s w).1, (exec e s w).2, k + 1)

theorem failing_of_sound {exec : Handler S P E W}
    {fault : Nat → (s : S) → Option (P s)} {s : S} (hs : ∀ k, fault k s = none)
    (e : E) (w : W) (k : Nat) :
    exec.failing fault e s (w, k) = ((exec e s w).1, (exec e s w).2, k) := by
  cases k with
  | zero => rfl
  | succ k => simp only [Handler.failing, hs]

/-- The acts of a run are kept, the latest first. -/
def Handler.logged (exec : Handler S P E W) : Handler S P E (W × History S P)
  | e, s, (w, h) => ((exec e s w).1, (exec e s w).2, ⟨s, (exec e s w).1⟩ :: h)

theorem run_logged (exec : Handler S P E W) (p : Prog S P α) (es : Nat → E)
    (w : W) (h : History S P) :
    (p.run exec.logged es (w, h)).1 = (p.run exec es w).1 ∧
      (p.run exec.logged es (w, h)).2.1 = (p.run exec es w).2 := by
  induction p generalizing es w h with
  | pure a => exact ⟨rfl, rfl⟩
  | request s k ih => exact ih _ _ _ _

end Thbc.Lib
