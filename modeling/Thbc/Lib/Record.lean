import Mathlib.Data.List.Basic

/-!
# Records behind methods that can refuse

`invoke x m` is what the method call `m` makes of the record `x`, or the error
with which it refuses. A client makes calls one after the other and carries on
with the record it has when one is refused: `after` is the record at the end and
`done` the calls that were not refused, each with the record it was made on.

`done_induct` is the rule for both: what a call that succeeds keeps holds at the
end of any calls.
-/

namespace Thbc.Lib

variable {σ M ε : Type}

/-- A method written with assignments to the record. It may have assigned
before it fails. -/
abbrev Mut (ε σ : Type) : Type → Type := ExceptT ε (StateM σ)

/-- The new record, or the record as it was and an error. -/
def settle (x : σ) : Except ε σ → Except ε Unit × σ
  | .ok y => (.ok (), y)
  | .error e => (.error e, x)

/-- The method has the same effect as `f`, and none where `f` refuses. -/
def Mut.Implements (p : Mut ε σ Unit) (f : σ → Except ε σ) : Prop :=
  ∀ x, p.run.run x = settle x (f x)

/-- A method that refuses has assigned nothing. -/
theorem Mut.Implements.unchanged {p : Mut ε σ Unit} {f : σ → Except ε σ}
    (h : p.Implements f) {x : σ} {e : ε} (he : (p.run.run x).1 = .error e) :
    (p.run.run x).2 = x := by
  rw [h x] at he ⊢
  cases hf : f x with
  | ok y => rw [hf] at he; cases he
  | error e' => rfl

section Calls

variable (invoke : σ → M → Except ε σ)

/-- The record after some calls. -/
def after : σ → List M → σ
  | x, [] => x
  | x, m :: ms =>
      match invoke x m with
      | .ok y => after y ms
      | .error _ => after x ms

/-- The calls that succeed. -/
def done : σ → List M → List (σ × M)
  | _, [] => []
  | x, m :: ms =>
      match invoke x m with
      | .ok y => (x, m) :: done y ms
      | .error _ => done x ms

variable {invoke}

theorem after_append (x : σ) (ms ms' : List M) :
    after invoke x (ms ++ ms') = after invoke (after invoke x ms) ms' := by
  induction ms generalizing x with
  | nil => rfl
  | cons m ms ih =>
      rw [List.cons_append, after, after]
      cases invoke x m with
      | ok y => exact ih y
      | error e => exact ih x

theorem done_induct {J : σ → List (σ × M) → Prop} {ms : List M}
    (hstep : ∀ x l m y, m ∈ ms → J x l → invoke x m = .ok y → J y (l ++ [(x, m)]))
    {x : σ} {l : List (σ × M)} (h : J x l) :
    J (after invoke x ms) (l ++ done invoke x ms) := by
  induction ms generalizing x l with
  | nil =>
      rw [done, List.append_nil]
      exact h
  | cons m ms ih =>
      have hrest := fun x l m' y hm' => hstep x l m' y (List.mem_cons_of_mem m hm')
      rw [after, done]
      cases hm : invoke x m with
      | ok y =>
          have hy := ih hrest (hstep x l m y List.mem_cons_self h hm)
          rw [List.append_assoc] at hy
          exact hy
      | error e => exact ih hrest h

/-- The rule for the record alone. -/
theorem after_induct {J : σ → Prop} {ms : List M}
    (hstep : ∀ x m y, m ∈ ms → J x → invoke x m = .ok y → J y) {x : σ} (h : J x) :
    J (after invoke x ms) :=
  @done_induct σ M ε invoke (fun x _ => J x) ms (fun x _ m y => hstep x m y) x [] h

end Calls

end Thbc.Lib
