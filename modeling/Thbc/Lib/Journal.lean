import Thbc.Lib.Pool

/-!
# What a program can say of its own history

A program knows what it has asked and what it was answered, and nothing else. So what
it returns can claim something of its history, and whether it does so rightly is seen
on the program alone: `Prog.Tells` walks it under the grammar that allows everything
and remembers everything. In a pool the claim is then true of what the program has
gone through, whatever else went on (`Pool.tells`).

The claim that every program with errors can make is where they come from: from an
answer, or from the program itself, which has only so many of its own. `Blames` says
so, with one rule for each construct.
-/

namespace Thbc.Lib

variable {S : Type} {P : S → Type} {E W α β ε : Type}

/-- The grammar that allows everything and remembers everything. -/
def journal : Grammar S P (History S P) where
  start := []
  advance h a := a :: h
  asks _ _ := True
  ends _ := True
  hears _ _ := True

theorem journal_state (h : History S P) : journal.state h = h := by
  induction h with
  | nil => rfl
  | cons a h ih =>
      rw [Grammar.state_cons, ih]
      rfl

/-- After the history `h`, whatever the program returns is `R` of the history it then
has. -/
def Prog.Tells (R : α → History S P → Prop) (p : Prog S P α) (h : History S P) : Prop :=
  p.Meets journal.arena R h

section Tells

variable {R : α → History S P → Prop} {h : History S P}

theorem tells_call {s : S} {R : P s → History S P → Prop} :
    (Prog.call s).Tells R h ↔ ∀ b, R b (⟨s, b⟩ :: h) :=
  Grammar.meets_call.trans ⟨fun hc b => hc.2 b trivial, fun hb => ⟨trivial, fun b _ => hb b⟩⟩

theorem tells_bind {R : β → History S P → Prop} {p : Prog S P α} {f : α → Prog S P β} :
    (p >>= f).Tells R h ↔ p.Tells (fun a h => (f a).Tells R h) h := meets_bind

theorem tells_run_bind {R : Except ε β → History S P → Prop} {p : ExceptT ε (Prog S P) α}
    {f : α → ExceptT ε (Prog S P) β} :
    (p >>= f).run.Tells R h ↔
      p.run.Tells (fun r h => match r with
        | .ok a => (f a).run.Tells R h
        | .error e => R (.error e) h) h := meets_run_bind

theorem Prog.Tells.mono {R' : α → History S P → Prop} {p : Prog S P α} (hp : p.Tells R h)
    (hR : ∀ a h, R a h → R' a h) : p.Tells R' h := meets_mono hp hR

theorem tells_of_forall {p : Prog S P α} (hR : ∀ a h, R a h) : p.Tells R h := by
  induction p generalizing h with
  | pure a => exact hR a h
  | request s k ih => exact ⟨trivial, fun b q' _ => ih b⟩

/-- A history only grows. -/
theorem Prog.Tells.since {p : Prog S P α} (hp : p.Tells R h) :
    p.Tells (fun a h' => R a h' ∧ h <:+ h') h := by
  have hall : ∀ (p : Prog S P α) (h' : History S P), h <:+ h' → p.Tells R h' →
      p.Tells (fun a h' => R a h' ∧ h <:+ h') h' := by
    intro p
    induction p with
    | pure a => exact fun h' hsuf hp => ⟨hp, hsuf⟩
    | request s k ih =>
        intro h' hsuf hp
        refine ⟨trivial, fun b q' ⟨_, hq⟩ => ?_⟩
        subst hq
        exact ih b _ (hsuf.trans (List.suffix_cons _ _)) (hp.2 b _ ⟨trivial, rfl⟩)
  exact hall p h List.suffix_rfl hp

theorem mem_two_later {a a₁ a₂ : Act S P} {h : History S P} (ha : a ∈ h) : a ∈ a₂ :: a₁ :: h :=
  List.mem_cons_of_mem _ (List.mem_cons_of_mem _ ha)

end Tells

/-- What program `i` has returned. -/
def Pool.result (c : Pool S P α W) (i : Nat) : Option α :=
  match c.threads[i]? with
  | some (.pure a) => some a
  | _ => none

theorem Pool.result_eq_some {c : Pool S P α W} {i : Nat} {a : α} :
    c.result i = some a ↔ c.threads[i]? = some (.pure a) := by
  unfold result
  split
  · next b hb => rw [hb, Option.some.injEq, Option.some.injEq, Prog.pure.injEq]
  · next hne => exact ⟨nofun, fun h => absurd h (hne a)⟩

/-- What a program returns is true of what it has gone through. -/
theorem Pool.tells {exec : Handler S P E W} {R : α → History S P → Prop}
    {ps : List (Prog S P α)} {i : Nat} {p : Prog S P α} (hi : ps[i]? = some p)
    (hp : p.Tells R []) (w : W) (ts : List (Nat × E)) {a : α}
    (h : ((start ps w).run exec ts).result i = some a) :
    R a (own i ((start ps w).run exec ts).log) := by
  have hmeets : ((start ps w).run exec ts).Meets (fun _ => journal)
      fun j a h => j = i → R a h := by
    refine run_induct (fun c t hc _ => meets_step hc fun s => trivial)
      (along_true exec _ ts) fun j p' hj => ?_
    by_cases hji : j = i
    · subst hji
      obtain rfl : p = p' := Option.some.inj (hi.symm.trans hj)
      exact hp.mono fun _ _ hR _ => hR
    · exact tells_of_forall fun _ _ h => absurd h hji
  rw [← journal_state (own i _)]
  exact hmeets i _ (result_eq_some.mp h) rfl

theorem own_subset (i : Nat) (log : List (Nat × Act S P)) : own i log ⊆ log.map Prod.snd :=
  fun _ ha => List.mem_map_of_mem (mem_own.mp ha)

/-- The latest that a program has gone through, where it stands in the log. -/
theorem own_eq_cons {i : Nat} {log : List (Nat × Act S P)} {a : Act S P} {h : History S P}
    (hown : own i log = a :: h) : ∃ l₂ l₁, log = l₂ ++ (i, a) :: l₁ ∧ own i l₁ = h := by
  obtain ⟨l₂, ⟨j, b⟩, l₁, hlog, -, hb, hrest⟩ := List.filterMap_eq_cons_iff.mp hown
  simp only [Option.ite_none_right_eq_some, Option.some.injEq] at hb
  obtain ⟨rfl, rfl⟩ := hb
  exact ⟨l₂, l₁, hlog, hrest⟩

/-! ## How often something has happened -/

/-- Whatever the program returns, it has since gone through so many acts that are `p`. -/
def Prog.Counts (p : Act S P → Bool) (gain : α → Nat) (x : Prog S P α) : Prop :=
  ∀ h, x.Tells (fun a h' => h.countP p + gain a ≤ h'.countP p) h

section Counts

variable {p : Act S P → Bool} {gain : α → Nat} {total : β → Nat}

theorem Prog.Counts.mono {gain' : α → Nat} {x : Prog S P α} (hx : x.Counts p gain)
    (hle : ∀ a, gain' a ≤ gain a) : x.Counts p gain' :=
  fun h => (hx h).mono fun a _ hgain => Nat.le_trans (Nat.add_le_add_left (hle a) _) hgain

theorem counts_none {x : Prog S P α} (hgain : ∀ a, gain a = 0) : x.Counts p gain := by
  intro h
  have hx : x.Tells (fun _ _ => True) h := tells_of_forall fun _ _ => trivial
  refine hx.since.mono fun a h' ⟨_, hsuf⟩ => ?_
  rw [hgain]
  exact hsuf.sublist.countP_le

theorem counts_pure {a : α} (hgain : gain a = 0) : (pure a : Prog S P α).Counts p gain :=
  fun h => Nat.le_of_eq (congrArg (h.countP p + ·) hgain)

theorem counts_call (s : S) :
    (Prog.call s : Prog S P (P s)).Counts p fun b => if p ⟨s, b⟩ then 1 else 0 :=
  fun _ => tells_call.mpr fun _ => Nat.le_of_eq (List.countP_cons ..).symm

theorem counts_bind {x : Prog S P α} {f : α → Prog S P β} (hx : x.Counts p gain)
    (hf : ∀ a, (f a).Counts p fun b => total b - gain a) : (x >>= f).Counts p total := by
  refine fun h => tells_bind.mpr ((hx h).mono fun a h₁ hgain => ?_)
  refine (hf a h₁).mono fun b h₂ (htotal : _ + (total b - gain a) ≤ _) => ?_
  omega

/-- What comes before takes nothing away. -/
theorem counts_after {x : Prog S P α} {f : α → Prog S P β} (hf : ∀ a, (f a).Counts p total) :
    (x >>= f).Counts p total :=
  counts_bind (counts_none fun _ => rfl) hf

theorem counts_run_bind {gain : Except ε α → Nat} {total : Except ε β → Nat}
    {x : ExceptT ε (Prog S P) α} {f : α → ExceptT ε (Prog S P) β} (hx : x.run.Counts p gain)
    (herr : ∀ e, total (.error e) = 0)
    (hf : ∀ a, (f a).run.Counts p fun r => total r - gain (.ok a)) :
    (x >>= f).run.Counts p total := by
  refine fun h => tells_run_bind.mpr ((hx h).mono fun r h₁ hgain => ?_)
  cases r with
  | error e =>
      have hzero := herr e
      show _ + total (.error e) ≤ _
      omega
  | ok a =>
      refine (hf a h₁).mono fun b h₂ (htotal : _ + (total b - gain (.ok a)) ≤ _) => ?_
      omega

theorem counts_run_after {total : Except ε β → Nat} {x : ExceptT ε (Prog S P) α}
    {f : α → ExceptT ε (Prog S P) β} (herr : ∀ e, total (.error e) = 0)
    (hf : ∀ a, (f a).run.Counts p total) : (x >>= f).run.Counts p total :=
  counts_run_bind (counts_none fun _ => rfl) herr hf

end Counts

/-! ## Where errors come from -/

/-- What `x` fails with is a failure among its answers, or a `C`. -/
def Blames (fails : Act S P → Option ε) (C : ε → Prop) (x : ExceptT ε (Prog S P) α) : Prop :=
  ∀ h, x.run.Tells (fun r h' => ∀ e, r = .error e → (∃ a ∈ h', fails a = some e) ∨ C e) h

section Blames

variable {fails : Act S P → Option ε} {C C' : ε → Prop} {x : ExceptT ε (Prog S P) α}
  {f : α → ExceptT ε (Prog S P) β}

theorem Blames.mono (hx : Blames fails C x) (hC : ∀ e, C e → C' e) : Blames fails C' x :=
  fun h => (hx h).mono fun _ _ hr e he => (hr e he).imp id (hC e)

theorem blames_pure (a : α) : Blames fails C (pure a : ExceptT ε (Prog S P) α) :=
  fun _ _ he => by cases he

theorem blames_throw {e : ε} (he : C e) : Blames fails C (throw e : ExceptT ε (Prog S P) α) := by
  intro h e' heq
  obtain rfl : e = e' := Except.error.inj heq
  exact .inr he

theorem blames_bind (hx : Blames fails C x) (hf : ∀ a, Blames fails C (f a)) :
    Blames fails C (x >>= f) := by
  intro h
  refine tells_run_bind.mpr ((hx h).mono fun r h' hr => ?_)
  cases r with
  | ok a => exact hf a h'
  | error e => exact fun e' he => hr e' (congrArg _ (Except.error.inj he))

/-- The failures of `x` looked at, and some of them passed on. -/
theorem blames_attempt {f : Except ε α → ExceptT ε (Prog S P) β} (hx : Blames fails C x)
    (hok : ∀ a, Blames fails C (f (.ok a)))
    (herr : ∀ e, f (.error e) = throw e ∨ Blames fails C (f (.error e))) :
    Blames fails C (ExceptT.lift x.run >>= f) := by
  intro h
  refine tells_run_bind.mpr (tells_bind.mpr ((hx h).mono fun r h' hr => ?_))
  cases r with
  | ok a => exact hok a h'
  | error e =>
      obtain hthrow | hf := herr e
      · show (f (.error e)).run.Tells _ h'
        rw [hthrow]
        exact fun e' he => hr e' (congrArg _ (Except.error.inj he))
      · exact hf h'

end Blames

end Thbc.Lib
