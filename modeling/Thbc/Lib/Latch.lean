/-!
# Latches

A bit that some events set, some clear and the others leave alone. It is free after a
sequence of events if each that set it has one after it that cleared it.
-/

namespace Thbc.Lib

/-- What an event does to a latch. -/
inductive Signal where
  | set
  | clear
  | none
  deriving DecidableEq

def Signal.apply : Signal → Bool → Bool
  | .set, _ => true
  | .clear, _ => false
  | .none, b => b

/-- The latch after a sequence of events. -/
def latched : Bool → List Signal → Bool
  | b, [] => b
  | b, s :: signals => latched (s.apply b) signals

theorem latched_eq_false {b : Bool} {signals : List Signal} :
    latched b signals = false ↔
      (b = true → .clear ∈ signals) ∧
        ∀ j, signals[j]? = some .set → .clear ∈ signals.drop (j + 1) := by
  induction signals generalizing b with
  | nil => cases b <;> simp [latched]
  | cons s signals ih =>
      have hshift : (∀ j, (s :: signals)[j]? = some .set → .clear ∈ (s :: signals).drop (j + 1)) ↔
          (s = .set → .clear ∈ signals) ∧
            ∀ j, signals[j]? = some .set → .clear ∈ signals.drop (j + 1) := by
        refine ⟨fun h => ⟨fun hs => h 0 (congrArg some hs), fun j => h (j + 1)⟩, ?_⟩
        rintro ⟨hfirst, hrest⟩ (_ | j) hj
        · exact hfirst (Option.some.inj hj)
        · exact hrest j hj
      rw [latched, ih, hshift]
      cases s with
      | set => exact ⟨fun ⟨hin, hrest⟩ => ⟨fun _ => .tail _ (hin rfl), fun _ => hin rfl, hrest⟩,
          fun ⟨_, hin, hrest⟩ => ⟨fun _ => hin rfl, hrest⟩⟩
      | clear => simp [Signal.apply]
      | none => simp [Signal.apply]

/-- A latch that is free at first is free at the end if whatever has set it has been
cleared since. -/
theorem latched_false_iff {signals : List Signal} :
    latched false signals = false ↔
      ∀ j : Nat, signals[j]? = some .set → ∃ m : Nat, j < m ∧ signals[m]? = some .clear := by
  rw [latched_eq_false]
  refine ⟨fun ⟨_, h⟩ j hj => ?_, fun h => ⟨nofun, fun j hj => ?_⟩⟩
  · obtain ⟨m, hm⟩ := List.mem_iff_getElem?.mp (h j hj)
    rw [List.getElem?_drop] at hm
    exact ⟨j + 1 + m, by omega, hm⟩
  · obtain ⟨m, hlt, hm⟩ := h j hj
    refine List.mem_iff_getElem?.mpr ⟨m - (j + 1), ?_⟩
    rw [List.getElem?_drop, ← hm]
    congr 1
    omega

end Thbc.Lib
