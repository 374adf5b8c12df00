import Thbc.Lib.Pool
import Mathlib.Data.List.Forall2

/-!
# Two handlers behind one client

A client makes requests one after the other. What it may ask next depends on
what it has been told so far: `Session` says that a list of requests is one it
may make of a given handler. `replies_alike` is how two handlers are shown to be
the same to such a client: a relation between their states, and the client's
history, that every permitted request keeps and under which the two replies are
alike.
-/

namespace Thbc.Lib

variable {S : Type} {P : S → Type} {E W W' : Type}

namespace Handler

/-- The requests with their replies, in the order they are made. -/
def replies (exec : Handler S P E W) : W → List (E × S) → List (Act S P)
  | _, [] => []
  | w, (e, s) :: cs => ⟨s, (exec e s w).1⟩ :: replies exec (exec e s w).2 cs

/-- Every request is one that the client may make, given its history. -/
def Session (exec : Handler S P E W) (may : History S P → W → S → Prop) :
    History S P → W → List (E × S) → Prop
  | _, _, [] => True
  | h, w, (e, s) :: cs => may h w s ∧
      Session exec may (⟨s, (exec e s w).1⟩ :: h) (exec e s w).2 cs

end Handler

/-- One request, answered twice. -/
inductive Alike (same : (s : S) → P s → P s → Prop) : Act S P → Act S P → Prop where
  | intro {s : S} {b b' : P s} (h : same s b b') : Alike same ⟨s, b⟩ ⟨s, b'⟩

theorem replies_alike {exec : Handler S P E W} {exec' : Handler S P E W'}
    {may : History S P → W → S → Prop} {same : (s : S) → P s → P s → Prop}
    {R : History S P → W → W' → Prop}
    (hstep : ∀ h w w' e s, R h w w' → may h w s →
      same s (exec e s w).1 (exec' e s w').1 ∧
        R (⟨s, (exec e s w).1⟩ :: h) (exec e s w).2 (exec' e s w').2)
    {h : History S P} {w : W} {w' : W'} {cs : List (E × S)} (hR : R h w w')
    (hcs : exec.Session may h w cs) :
    List.Forall₂ (Alike same) (exec.replies w cs) (exec'.replies w' cs) := by
  induction cs generalizing h w w' with
  | nil => exact .nil
  | cons c cs ih =>
      obtain ⟨hmay, hrest⟩ := hcs
      obtain ⟨hsame, hR'⟩ := hstep h w w' c.1 c.2 hR hmay
      exact .cons (.intro hsame) (ih hR' hrest)

end Thbc.Lib
