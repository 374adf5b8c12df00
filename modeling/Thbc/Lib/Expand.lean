import Thbc.Lib.Pool

/-!
# Requests that are programs

What answers a request may itself be a program, over requests of its own:
`Prog.expand` puts these programs in the place of the requests. Where several
expanded programs overlap, so do the programs within them, and a request is no
longer one step.

It may be looked at as one all the same, as long as what is carried out for it
touches nothing that is shared, except perhaps with the last of its steps
(`Prog.Carries`). Then every run of the expanded programs is a run of the programs
as they were, in which a request is answered when the program for it has returned,
or later (`Pool.Tracks.run`). The two runs go through the same worlds, behind every
answer in the one log there is what led to it in the other, and whatever has been
asked for in the other belongs to a request of the one.
-/

namespace Thbc.Lib

variable {S T : Type} {P : S → Type} {R : T → Type} {α β : Type}

/-- Every request is carried out by a program of its own. -/
def Prog.expand (impl : (s : S) → Prog T R (P s)) : Prog S P α → Prog T R α
  | .pure a => .pure a
  | .request s k => (impl s).bind fun b => (k b).expand impl

/-- `p` can go through these acts, the oldest first, and return `a`. -/
def Prog.Yields : Prog S P α → List (Act S P) → α → Prop
  | .pure a, l, b => l = [] ∧ a = b
  | .request s k, l, b => ∃ r l', l = ⟨s, r⟩ :: l' ∧ (k r).Yields l' b

theorem uses_expand {impl : (s : S) → Prog T R (P s)} {N : S → Prop} {N' : T → Prop}
    {p : Prog S P α} (hp : p.Uses N) (himpl : ∀ s, N s → (impl s).Uses N') :
    (p.expand impl).Uses N' := by
  induction p with
  | pure a => trivial
  | request s k ih => exact uses_bind (himpl s hp.1) fun b => ih b (hp.2 b)

/-! What a program that has succeeded has gone through. -/

section Yields

variable {ε : Type} {l : List (Act S P)} {s : S}

theorem yields_bind {p : Prog S P α} {f : α → Prog S P β} {b : β}
    (h : (p >>= f).Yields l b) :
    ∃ l₁ l₂ a, l = l₁ ++ l₂ ∧ p.Yields l₁ a ∧ (f a).Yields l₂ b := by
  induction p generalizing l with
  | pure a => exact ⟨[], l, a, rfl, ⟨rfl, rfl⟩, h⟩
  | request s k ih =>
      obtain ⟨r, l', rfl, h⟩ := h
      obtain ⟨l₁, l₂, a, rfl, h₁, h₂⟩ := ih r h
      exact ⟨⟨s, r⟩ :: l₁, l₂, a, rfl, ⟨r, l₁, rfl, h₁⟩, h₂⟩

theorem yields_run_bind {p : ExceptT ε (Prog S P) α} {f : α → ExceptT ε (Prog S P) β}
    {b : β} (h : (p >>= f).run.Yields l (.ok b)) :
    ∃ l₁ l₂ a, l = l₁ ++ l₂ ∧ p.run.Yields l₁ (.ok a) ∧ (f a).run.Yields l₂ (.ok b) := by
  have hrun : (p >>= f).run = p.run >>= ExceptT.bindCont f := rfl
  rw [hrun] at h
  obtain ⟨l₁, l₂, r, rfl, h₁, h₂⟩ := yields_bind h
  cases r with
  | ok a => exact ⟨l₁, l₂, a, rfl, h₁, h₂⟩
  | error e => cases h₂.2

theorem yields_lift_call {b : P s}
    (h : (ExceptT.lift (Prog.call s) : ExceptT ε (Prog S P) (P s)).run.Yields l (.ok b)) :
    l = [⟨s, b⟩] := by
  obtain ⟨r, l', rfl, rfl, hr⟩ := h
  rw [Except.ok.inj hr]

end Yields

variable {E E' W W' : Type}

/-- Nothing of what `p` does shows in `abs`, until it `does` something and returns. -/
def Prog.Carries (exec' : Handler T R E' W') (abs : W' → W) (does : W → β → W → Prop) :
    Prog T R β → Prop
  | .pure b => ∀ w, does w b w
  | .request x k => ∀ e w,
      (abs (exec' e x w).2 = abs w ∧ (k (exec' e x w).1).Carries exec' abs does) ∨
        ∃ b, k (exec' e x w).1 = .pure b ∧ does (abs w) b (abs (exec' e x w).2)

/-- A program whose requests leave `abs` alone, and that may return anything. -/
theorem Prog.Uses.carries {exec' : Handler T R E' W'} {abs : W' → W}
    {does : W → β → W → Prop} {N : T → Prop} {p : Prog T R β} (hp : p.Uses N)
    (hN : ∀ e x w, N x → abs (exec' e x w).2 = abs w) (hdoes : ∀ b w, does w b w) :
    p.Carries exec' abs does := by
  induction p with
  | pure b => exact hdoes b
  | request x k ih => exact fun e w => .inl ⟨hN e x w hp.1, ih _ (hp.2 _)⟩

/-- One request is one step. -/
theorem carries_call {exec' : Handler T R E' W'} {abs : W' → W} {x : T}
    {does : W → R x → W → Prop}
    (h : ∀ e w, does (abs w) (exec' e x w).1 (abs (exec' e x w).2)) :
    (Prog.call x).Carries exec' abs does :=
  fun e w => .inr ⟨_, rfl, h e w⟩

namespace Pool

variable {exec : Handler S P E W} {exec' : Handler T R E' W'} {abs : W' → W}
  {impl : (s : S) → Prog T R (P s)}

/-- Where program `i` stands: at the same value, or in the midst of what is carried out
for its next request. -/
def Stands (exec : Handler S P E W) (exec' : Handler T R E' W') (abs : W' → W)
    (impl : (s : S) → Prog T R (P s)) (i : Nat) (log : List (Nat × Act T R)) :
    Prog T R α → Prog S P α → Prop
  | p', .pure a => p' = .pure a
  | p', .request s k => ∃ (rest : Prog T R (P s)) (part : List (Act T R)),
      p' = rest.bind (fun b => (k b).expand impl) ∧
      rest.Carries exec' abs (fun w b w' => ∃ e, exec e s w = (b, w')) ∧
      (∀ N, (impl s).Uses N → rest.Uses N) ∧ (∀ a ∈ part, (i, a) ∈ log) ∧
      ∀ l b, rest.Yields l b → (impl s).Yields (part ++ l) b

/-- The one pool is the other one, expanded. -/
structure Tracks (exec : Handler S P E W) (exec' : Handler T R E' W') (abs : W' → W)
    (impl : (s : S) → Prog T R (P s)) (c' : Pool T R α W') (c : Pool S P α W) : Prop where
  world : c.world = abs c'.world
  length : c.threads.length = c'.threads.length
  threads : ∀ i p' p, c'.threads[i]? = some p' → c.threads[i]? = some p →
    Stands exec exec' abs impl i c'.log p' p
  answered : ∀ i s b, (i, ⟨s, b⟩) ∈ c.log →
    ∃ l, (∀ a ∈ l, (i, a) ∈ c'.log) ∧ (impl s).Yields l b
  asked : ∀ i a, (i, a) ∈ c'.log →
    ∃ s, ((∃ b, (i, ⟨s, b⟩) ∈ c.log) ∨ c.pending i = some s) ∧
      ∀ N, (impl s).Uses N → N a.1

variable {c' c₁' : Pool T R α W'} {c : Pool S P α W} {i : Nat}

theorem Stands.mono {log log' : List (Nat × Act T R)} {p' : Prog T R α} {p : Prog S P α}
    (h : Stands exec exec' abs impl i log p' p) (hlog : log ⊆ log') :
    Stands exec exec' abs impl i log' p' p := by
  cases p with
  | pure a => exact h
  | request s k =>
      obtain ⟨rest, part, hp, hcarries, huses, hpart, hyields⟩ := h
      exact ⟨rest, part, hp, hcarries, huses, fun a ha => hlog (hpart a ha), hyields⟩

theorem stands_expand
    (himpl : ∀ s, (impl s).Carries exec' abs fun w b w' => ∃ e, exec e s w = (b, w'))
    (log : List (Nat × Act T R)) (p : Prog S P α) :
    Stands exec exec' abs impl i log (p.expand impl) p := by
  cases p with
  | pure a => rfl
  | request s k =>
      exact ⟨impl s, [], rfl, himpl s, fun N h => h,
        fun a ha => absurd ha List.not_mem_nil, fun l b h => h⟩

theorem tracks_start
    (himpl : ∀ s, (impl s).Carries exec' abs fun w b w' => ∃ e, exec e s w = (b, w'))
    (ps : List (Prog S P α)) (w : W') :
    Tracks exec exec' abs impl (start (ps.map (Prog.expand impl)) w) (start ps (abs w)) where
  world := rfl
  length := (List.length_map _).symm
  threads i p' p hp' hp := by
    have hmap : (ps.map (Prog.expand impl))[i]? = some p' := hp'
    have hget : ps[i]? = some p := hp
    rw [List.getElem?_map, hget] at hmap
    rw [← Option.some.inj hmap]
    exact stands_expand himpl _ p
  answered i s b hmem := absurd hmem List.not_mem_nil
  asked i a hmem := absurd hmem List.not_mem_nil

/-- The request of program `i` is answered, and it goes on. -/
theorem Tracks.answer (h : Tracks exec exec' abs impl c' c)
    (himpl : ∀ s, (impl s).Carries exec' abs fun w b w' => ∃ e, exec e s w = (b, w'))
    {s : S} {k : P s → Prog S P α} {b : P s} {e : E}
    (hp : c.threads[i]? = some (.request s k)) (he : exec e s c.world = (b, abs c₁'.world))
    (hthreads : c₁'.threads = c'.threads.set i ((k b).expand impl))
    (hold : c'.log ⊆ c₁'.log)
    (hnew : ∀ j a, (j, a) ∈ c₁'.log → (j, a) ∈ c'.log ∨
      j = i ∧ ∀ N, (impl s).Uses N → N a.1)
    (hyields : ∃ l, (∀ a ∈ l, (i, a) ∈ c₁'.log) ∧ (impl s).Yields l b) :
    Tracks exec exec' abs impl c₁' (c.step exec (i, e)) := by
  have hstep : c.step exec (i, e) =
      ⟨c.threads.set i (k b), abs c₁'.world, (i, ⟨s, b⟩) :: c.log⟩ := by
    unfold step
    dsimp only
    rw [hp]
    dsimp only
    rw [he]
  have hpending : c.pending i = some s := by
    rw [pending, hp]
    rfl
  rw [hstep]
  refine ⟨rfl, ?_, fun j p' p hp' hp₁ => ?_, fun j s' b' hmem => ?_, fun j a hmem => ?_⟩
  · rw [hthreads, List.length_set, List.length_set]
    exact h.length
  · rw [hthreads] at hp'
    dsimp only at hp₁
    by_cases hj : j = i
    · subst hj
      obtain ⟨hlt, -⟩ := List.getElem?_eq_some_iff.mp hp
      rw [List.getElem?_set_self (h.length ▸ hlt)] at hp'
      rw [List.getElem?_set_self hlt] at hp₁
      rw [← Option.some.inj hp', ← Option.some.inj hp₁]
      exact stands_expand himpl _ _
    · rw [List.getElem?_set_ne fun h => hj h.symm] at hp' hp₁
      exact (h.threads j p' p hp' hp₁).mono hold
  · obtain heq | hmem := List.mem_cons.mp hmem
    · cases heq
      exact hyields
    · obtain ⟨l, hl, hy⟩ := h.answered j s' b' hmem
      exact ⟨l, fun a ha => hold (hl a ha), hy⟩
  · obtain hmem | ⟨rfl, hN⟩ := hnew j a hmem
    · obtain ⟨s', hasked, hN⟩ := h.asked j a hmem
      refine ⟨s', ?_, hN⟩
      obtain ⟨b', hb'⟩ | hp' := hasked
      · exact .inl ⟨b', List.mem_cons_of_mem _ hb'⟩
      · by_cases hj : j = i
        · subst hj
          obtain rfl := Option.some.inj (hpending.symm.trans hp')
          exact .inl ⟨b, List.mem_cons_self⟩
        · refine .inr ?_
          rw [pending] at hp' ⊢
          dsimp only
          rw [List.getElem?_set_ne fun h => hj h.symm]
          exact hp'
    · exact ⟨s, .inl ⟨b, List.mem_cons_self⟩, hN⟩

/-- A request in the midst of one of the other, which stays where it is. -/
theorem Tracks.goes_on (h : Tracks exec exec' abs impl c' c) {s : S}
    {k : P s → Prog S P α} {x : T} {r : R x} {rest : Prog T R (P s)}
    {part : List (Act T R)} (hp : c.threads[i]? = some (.request s k))
    (hworld : abs c₁'.world = abs c'.world)
    (hthreads : c₁'.threads = c'.threads.set i (rest.bind fun b => (k b).expand impl))
    (hlog : c₁'.log = (i, ⟨x, r⟩) :: c'.log)
    (hcarries : rest.Carries exec' abs fun w b w' => ∃ e, exec e s w = (b, w'))
    (huses : ∀ N, (impl s).Uses N → N x ∧ rest.Uses N)
    (hpart : ∀ a ∈ part, (i, a) ∈ c'.log)
    (hyields : ∀ l b, rest.Yields l b → (impl s).Yields (part ++ ⟨x, r⟩ :: l) b) :
    Tracks exec exec' abs impl c₁' c := by
  have hold : c'.log ⊆ c₁'.log := by
    rw [hlog]
    exact List.subset_cons_self _ _
  refine ⟨h.world.trans hworld.symm, ?_, fun j p' p hp' hp₁ => ?_, fun j s' b' hmem => ?_,
    fun j a hmem => ?_⟩
  · rw [hthreads, List.length_set]
    exact h.length
  · rw [hthreads] at hp'
    by_cases hj : j = i
    · subst hj
      obtain ⟨hlt, -⟩ := List.getElem?_eq_some_iff.mp hp
      rw [List.getElem?_set_self (h.length ▸ hlt)] at hp'
      obtain rfl := Option.some.inj (hp.symm.trans hp₁)
      obtain rfl := Option.some.inj hp'
      refine ⟨rest, part ++ [⟨x, r⟩], rfl, hcarries, fun N hN => (huses N hN).2,
        fun a ha => ?_, fun l b hl => ?_⟩
      · obtain ha | ha := List.mem_append.mp ha
        · exact hold (hpart a ha)
        · rw [List.mem_singleton.mp ha, hlog]
          exact List.mem_cons_self
      · rw [List.append_assoc]
        exact hyields l b hl
    · rw [List.getElem?_set_ne fun h => hj h.symm] at hp'
      exact (h.threads j p' p hp' hp₁).mono hold
  · obtain ⟨l, hl, hy⟩ := h.answered j s' b' hmem
    exact ⟨l, fun a ha => hold (hl a ha), hy⟩
  · rw [hlog] at hmem
    obtain heq | hmem := List.mem_cons.mp hmem
    · cases heq
      refine ⟨s, .inr ?_, fun N hN => (huses N hN).1⟩
      rw [pending, hp]
      rfl
    · exact h.asked j a hmem

/-- One step of the expanded pool is some steps of the other. -/
theorem Tracks.step (h : Tracks exec exec' abs impl c' c)
    (himpl : ∀ s, (impl s).Carries exec' abs fun w b w' => ∃ e, exec e s w = (b, w'))
    (t : Nat × E') : ∃ ts, Tracks exec exec' abs impl (c'.step exec' t) (c.run exec ts) := by
  cases hp' : c'.threads[t.1]? with
  | none =>
      refine ⟨[], ?_⟩
      rw [step_of_pending_none (by rw [pending, hp']; rfl)]
      exact h
  | some p' =>
    cases p' with
    | pure a =>
        refine ⟨[], ?_⟩
        rw [step_of_pending_none (by rw [pending, hp']; rfl)]
        exact h
    | request x k' =>
      have hstep : c'.step exec' t = ⟨c'.threads.set t.1 (k' (exec' t.2 x c'.world).1),
          (exec' t.2 x c'.world).2, (t.1, ⟨x, (exec' t.2 x c'.world).1⟩) :: c'.log⟩ := by
        unfold Pool.step
        rw [hp']
      obtain ⟨hlt, -⟩ := List.getElem?_eq_some_iff.mp hp'
      obtain ⟨p, hp⟩ : ∃ p, c.threads[t.1]? = some p :=
        ⟨_, List.getElem?_eq_getElem (h.length ▸ hlt)⟩
      -- By induction on what program `t.1` has still to do: it may be behind by requests
      -- whose programs have returned.
      induction p generalizing c with
      | pure a => cases h.threads t.1 _ _ hp' hp
      | request s k ih =>
          obtain ⟨rest, part, heq, hcarries, huses, hpart, hyields⟩ := h.threads t.1 _ _ hp' hp
          cases rest with
          | pure b =>
              obtain ⟨e, he⟩ := hcarries c.world
              have hset : c'.threads = c'.threads.set t.1 ((k b).expand impl) := by
                have hget : c'.threads[t.1] = (k b).expand impl :=
                  (List.getElem?_eq_some_iff.mp hp').2.trans heq
                rw [← hget, List.set_getElem_self]
              have hnext : Tracks exec exec' abs impl c' (c.step exec (t.1, e)) :=
                h.answer himpl hp (he.trans (Prod.ext rfl h.world)) hset
                  (List.Subset.refl _) (fun j a hmem => .inl hmem)
                  ⟨part, hpart, by simpa only [List.append_nil] using hyields [] b ⟨rfl, rfl⟩⟩
              have hthread : (c.step exec (t.1, e)).threads[t.1]? = some (k b) := by
                unfold Pool.step
                dsimp only
                rw [hp]
                dsimp only
                rw [he, List.getElem?_set_self (h.length ▸ hlt)]
              obtain ⟨ts, hts⟩ := ih b hnext hthread
              exact ⟨(t.1, e) :: ts, hts⟩
          | request x₁ k₁ =>
              obtain ⟨rfl, hk⟩ := Prog.request.inj heq
              obtain rfl := eq_of_heq hk
              have hyields' : ∀ l b, (k₁ (exec' t.2 x c'.world).1).Yields l b →
                  (impl s).Yields (part ++ ⟨x, (exec' t.2 x c'.world).1⟩ :: l) b :=
                fun l b hl => hyields _ b ⟨_, l, rfl, hl⟩
              obtain ⟨hworld, hrest⟩ | ⟨b, hb, e, he⟩ := hcarries t.2 c'.world
              · refine ⟨[], ?_⟩
                rw [hstep]
                exact h.goes_on hp hworld rfl rfl hrest
                  (fun N hN => ⟨(huses N hN).1, (huses N hN).2 _⟩) hpart hyields'
              · refine ⟨[(t.1, e)], ?_⟩
                rw [hstep]
                refine h.answer himpl hp (h.world ▸ he) ?_ (List.subset_cons_self _ _)
                  (fun j a hmem => ?_) ⟨part ++ [⟨x, (exec' t.2 x c'.world).1⟩], ?_, ?_⟩
                · show c'.threads.set t.1 ((k₁ _).bind _) = _
                  rw [hb]
                  rfl
                · obtain heq | hmem := List.mem_cons.mp hmem
                  · cases heq
                    exact .inr ⟨rfl, fun N hN => (huses N hN).1⟩
                  · exact .inl hmem
                · intro a ha
                  obtain ha | ha := List.mem_append.mp ha
                  · exact List.mem_cons_of_mem _ (hpart a ha)
                  · rw [List.mem_singleton.mp ha]
                    exact List.mem_cons_self
                · refine hyields' [] b ?_
                  rw [hb]
                  exact ⟨rfl, rfl⟩

/-- Whatever the expanded programs go through, the programs themselves can, too. -/
theorem Tracks.run (h : Tracks exec exec' abs impl c' c)
    (himpl : ∀ s, (impl s).Carries exec' abs fun w b w' => ∃ e, exec e s w = (b, w'))
    (ts' : List (Nat × E')) :
    ∃ ts, Tracks exec exec' abs impl (c'.run exec' ts') (c.run exec ts) := by
  induction ts' generalizing c' c with
  | nil => exact ⟨[], h⟩
  | cons t ts' ih =>
      obtain ⟨us, hus⟩ := h.step himpl t
      obtain ⟨vs, hvs⟩ := ih hus
      refine ⟨us ++ vs, ?_⟩
      rw [run_append]
      exact hvs

end Pool

end Thbc.Lib
