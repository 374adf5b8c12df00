import Thbc.Lib.Run

/-!
# Programs that rely on each other

A program in a pool knows things about the world that it has found out itself,
and between two of its requests others change the world. What it may go on to
rely on is what they leave alone. So there are three things to say of a pool of
programs that keep to a grammar each: an invariant of the world, an assertion for
each state of the grammar, and a relation that every request keeps to, from the
world before it to the world after. If the assertions are stable under the
relation, they hold of all programs in every state of every run (`Pool.rely`).

The world is seen with the log of the requests, whoever made them. A program that
is never scheduled again is one that has stopped there, so that a run may have its
crashes, too.
-/

namespace Thbc.Lib

variable {S : Type} {P : S → Type} {E W Q α : Type}

/-- The world and the log of a pool. -/
def Pool.view (c : Pool S P α W) : W × History S P := (c.world, c.log.map Prod.snd)

/-- What is shown of one request. -/
structure Relies (exec : Handler S P E W) (G : Nat → Grammar S P Q)
    (I : W × History S P → Prop) (K : Q → W × History S P → Prop)
    (R : W × History S P → W × History S P → Prop) : Prop where
  honest : ∀ i s e w, I w → (G i).hears s (exec e s w.1).1
  inv : ∀ i q s e w, I w → K q w → (G i).asks q s → I (exec.logged e s w).2
  advances : ∀ i q s e w, I w → K q w → (G i).asks q s →
    K ((G i).advance q ⟨s, (exec e s w.1).1⟩) (exec.logged e s w).2
  rely : ∀ i q s e w, I w → K q w → (G i).asks q s → R w (exec.logged e s w).2
  stable : ∀ q w w', I w → K q w → R w w' → K q w'

section Extend

variable {exec : Handler S P E W} {G : Nat → Grammar S P Q} {I J : W × History S P → Prop}
  {K : Q → W × History S P → Prop} {R : W × History S P → W × History S P → Prop}

/-- What was answered before the pool began counts as well. -/
theorem Relies.since (h : Relies exec G I K R) (past : History S P) :
    Relies exec G (fun w => I (w.1, w.2 ++ past)) (fun q w => K q (w.1, w.2 ++ past))
      fun w w' => R (w.1, w.2 ++ past) (w'.1, w'.2 ++ past) where
  honest i s e w := h.honest i s e (w.1, w.2 ++ past)
  inv i q s e w := h.inv i q s e (w.1, w.2 ++ past)
  advances i q s e w := h.advances i q s e (w.1, w.2 ++ past)
  rely i q s e w := h.rely i q s e (w.1, w.2 ++ past)
  stable q w w' := h.stable q (w.1, w.2 ++ past) (w'.1, w'.2 ++ past)

theorem Relies.also (h : Relies exec G I K R)
    (hJ : ∀ i q s e w, I w → K q w → (G i).asks q s → J w → J (exec.logged e s w).2) :
    Relies exec G (fun w => I w ∧ J w) K R where
  honest i s e w hI := h.honest i s e w hI.1
  inv i q s e w hI hK hasks :=
    ⟨h.inv i q s e w hI.1 hK hasks, hJ i q s e w hI.1 hK hasks hI.2⟩
  advances i q s e w hI := h.advances i q s e w hI.1
  rely i q s e w hI := h.rely i q s e w hI.1
  stable q w w' hI := h.stable q w w' hI.1

end Extend

/-- What holds in every state of a run. -/
structure Pool.Relying (G : Nat → Grammar S P Q) (I : W × History S P → Prop)
    (K : Q → W × History S P → Prop) (c : Pool S P α W) : Prop where
  obeys : c.Obeys G
  inv : I c.view
  holds : ∀ i, K (c.stage G i) c.view

variable {exec : Handler S P E W} {G : Nat → Grammar S P Q} {I : W × History S P → Prop}
  {K : Q → W × History S P → Prop} {R : W × History S P → W × History S P → Prop}

theorem Pool.Relying.step {c : Pool S P α W} (h : c.Relying G I K)
    (hr : Relies exec G I K R) (t : Nat × E) : (c.step exec t).Relying G I K := by
  have hobeys := obeys_step h.obeys fun s => hr.honest t.1 s t.2 c.view h.inv
  suffices I (c.step exec t).view ∧ ∀ i, K ((c.step exec t).stage G i) (c.step exec t).view from
    ⟨hobeys, this.1, this.2⟩
  obtain heq | ⟨s, hworld, hm⟩ := step_cases G exec c t
  · rw [heq]
    exact ⟨h.inv, h.holds⟩
  · have hasks := h.obeys.asks hm.asked
    have hview : (c.step exec t).view = (exec.logged t.2 s c.view).2 := by
      rw [view, hworld, hm.log]
      rfl
    rw [hview]
    refine ⟨hr.inv t.1 _ s t.2 _ h.inv (h.holds t.1) hasks, fun i => ?_⟩
    by_cases hi : i = t.1
    · rw [hi, hm.stage_self]
      exact hr.advances t.1 _ s t.2 _ h.inv (h.holds t.1) hasks
    · rw [hm.stage_of_ne hi]
      exact hr.stable _ _ _ h.inv (h.holds i)
        (hr.rely t.1 _ s t.2 _ h.inv (h.holds t.1) hasks)

/-- The rule for a run. -/
theorem Pool.rely {c : Pool S P α W} (hr : Relies exec G I K R) (h : c.Relying G I K)
    (ts : List (Nat × E)) : (c.run exec ts).Relying G I K := by
  induction ts generalizing c with
  | nil => exact h
  | cons t ts ih => exact ih (h.step hr t)

/-! ## Programs told apart by their requests

Where every program keeps to the same kind of requests there is no assertion to carry. -/

section Uses

variable {N : S → Prop} {c : Pool S P α W}

theorem Pool.uses_step (h : ∀ p ∈ c.threads, p.Uses N) (t : Nat × E) :
    (∀ p ∈ (c.step exec t).threads, p.Uses N) ∧
      ((c.step exec t).view = c.view ∨
        ∃ s, N s ∧ (c.step exec t).view = (exec.logged t.2 s c.view).2) := by
  unfold step
  split
  · next s k hk =>
      obtain ⟨hs, hcont⟩ := h _ (List.mem_of_getElem? hk)
      refine ⟨fun p hp => ?_, .inr ⟨s, hs, rfl⟩⟩
      obtain hp | rfl := List.mem_or_eq_of_mem_set hp
      · exact h p hp
      · exact hcont _
  · exact ⟨h, .inl rfl⟩

/-- What every such request keeps holds in every state of every run. -/
theorem Pool.uses_run {ps : List (Prog S P α)} {w : W} (hps : ∀ p ∈ ps, p.Uses N)
    (hstep : ∀ e s v, N s → I v → I (exec.logged e s v).2) (h : I (w, []))
    (ts : List (Nat × E)) : I ((start ps w).run exec ts).view := by
  have hkept : ∀ c : Pool S P α W, ∀ t : Nat × E,
      ((∀ p ∈ c.threads, p.Uses N) ∧ I c.view) → True →
        (∀ p ∈ (c.step exec t).threads, p.Uses N) ∧ I (c.step exec t).view := by
    intro c t ⟨hc, hI⟩ _
    obtain ⟨huses, hview | ⟨s, hs, hview⟩⟩ := uses_step hc t
    · exact ⟨huses, hview ▸ hI⟩
    · exact ⟨huses, hview ▸ hstep t.2 s c.view hs hI⟩
  exact (run_induct hkept (c := start ps w) (along_true exec _ ts) ⟨hps, h⟩).2

end Uses

end Thbc.Lib
