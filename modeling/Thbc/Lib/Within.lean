import Thbc.Lib.Journal

/-!
# Programs that return

A program that makes at most `n` requests on whatever path it takes has returned when
it has had `n` turns, whatever else has had turns meanwhile.
-/

namespace Thbc.Lib

variable {S : Type} {P : S → Type} {E W α β ε : Type}

/-- Whatever it is answered, the program makes at most so many requests. -/
def Prog.Within : Prog S P α → Nat → Prop
  | .pure _, _ => True
  | .request _ _, 0 => False
  | .request _ k, n + 1 => ∀ b, (k b).Within n

section Within

variable {n m : Nat}

theorem within_pure (a : α) : (pure a : Prog S P α).Within n := by
  cases n <;> trivial

theorem Prog.Within.mono {p : Prog S P α} (hp : p.Within n) (hle : n ≤ m) : p.Within m := by
  induction p generalizing n m with
  | pure a => exact within_pure a
  | request s k ih =>
      cases n with
      | zero => exact hp.elim
      | succ n =>
          obtain ⟨m, rfl⟩ : ∃ m', m = m' + 1 := ⟨m - 1, by omega⟩
          exact fun b => ih b (hp b) (by omega)

theorem within_bind {p : Prog S P α} {f : α → Prog S P β} (hp : p.Within n)
    (hf : ∀ a, (f a).Within m) : (p >>= f).Within (m + n) := by
  induction p generalizing n with
  | pure a => exact (hf a).mono (Nat.le_add_right m n)
  | request s k ih =>
      cases n with
      | zero => exact hp.elim
      | succ n => exact fun b => ih b (hp b)

/-- What comes after makes no request. -/
theorem within_map {p : Prog S P α} {f : α → Prog S P β} (hp : p.Within n)
    (hf : ∀ a, (f a).Within 0) : (p >>= f).Within n :=
  (within_bind hp hf).mono (by omega)

theorem within_run_bind {x : ExceptT ε (Prog S P) α} {f : α → ExceptT ε (Prog S P) β}
    (hx : x.run.Within n) (hf : ∀ a, (f a).run.Within m) : (x >>= f).run.Within (m + n) := by
  refine within_bind hx fun r => ?_
  cases r with
  | ok a => exact hf a
  | error e => exact within_pure _

/-- One request, and what comes after it. -/
theorem within_run_step {x : ExceptT ε (Prog S P) α} {f : α → ExceptT ε (Prog S P) β}
    (hx : x.run.Within 1) (hf : ∀ a, (f a).run.Within n) : (x >>= f).run.Within (n + 1) :=
  within_run_bind hx hf

/-- No request, and what comes after it. -/
theorem within_run_after {x : ExceptT ε (Prog S P) α} {f : α → ExceptT ε (Prog S P) β}
    (hx : x.run.Within 0) (hf : ∀ a, (f a).run.Within n) : (x >>= f).run.Within n :=
  within_run_bind hx hf

/-- What comes after makes no request. -/
theorem within_run_map {x : ExceptT ε (Prog S P) α} {f : α → ExceptT ε (Prog S P) β}
    (hx : x.run.Within n) (hf : ∀ a, (f a).run.Within 0) : (x >>= f).run.Within n :=
  (within_run_bind hx hf).mono (by omega)

theorem within_call (s : S) : (Prog.call s : Prog S P (P s)).Within 1 :=
  fun b => within_pure b

end Within

/-- A program that has had its turns has returned. -/
theorem Pool.returned (exec : Handler S P E W) {c : Pool S P α W} {i n : Nat} {p : Prog S P α}
    (hi : c.threads[i]? = some p) (hp : p.Within n) {ts : List (Nat × E)}
    (hts : n ≤ ts.countP fun t => t.1 = i) : ∃ a, (c.run exec ts).result i = some a := by
  induction ts generalizing c n p with
  | nil =>
      obtain rfl : n = 0 := Nat.le_zero.mp hts
      cases p with
      | pure a => exact ⟨a, result_eq_some.mpr hi⟩
      | request s k => exact hp.elim
  | cons t ts ih =>
      rw [List.countP_cons] at hts
      rw [run_cons]
      unfold step
      split
      · next s k hk =>
          by_cases ht : t.1 = i
          · subst ht
            obtain rfl := Option.some.inj (hk.symm.trans hi)
            cases n with
            | zero => exact hp.elim
            | succ n =>
                refine ih (List.getElem?_set_self (List.getElem?_eq_some_iff.mp hk).1)
                  (hp _) ?_
                simpa using hts
          · refine ih ((List.getElem?_set_ne ht).trans hi) hp ?_
            simpa [ht] using hts
      · next hno =>
          cases p with
          | pure a => exact ih hi (within_pure (n := 0) a) (Nat.zero_le _)
          | request s k =>
              have ht : t.1 ≠ i := fun ht => hno s k (ht ▸ hi)
              exact ih hi hp (by simpa [ht] using hts)

end Thbc.Lib
