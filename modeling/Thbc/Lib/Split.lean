import Mathlib.Data.List.Basic
import Mathlib.Data.String.Basic

/-!
# Splitting a text at a character

`str::split` and `str::rsplit`, and what comes first of either: the text before
the first separator, the text after the last one.
-/

namespace Thbc.Lib

/-- `str::split`. -/
def split (s : String) (c : Char) : List String := (s.toList.splitOn c).map String.ofList

/-- `str::rsplit`. -/
def rsplit (s : String) (c : Char) : List String := (split s c).reverse

section Split

variable {s t : String} {c : Char}

theorem toList_append_separator :
    (s ++ String.singleton c ++ t).toList = s.toList ++ c :: t.toList := by
  simp [String.toList_append]

theorem split_of_not_mem (h : c ∉ s.toList) : split s c = [s] := by
  rw [split, List.splitOn_eq_singleton h, List.map_singleton, String.ofList_toList]

theorem split_append :
    split (s ++ String.singleton c ++ t) c = split s c ++ split t c := by
  rw [split, toList_append_separator, List.splitOn_append_cons_self, List.map_append]
  rfl

/-- A text with a separator has a first one. -/
theorem exists_first (h : c ∈ s.toList) :
    ∃ a b, s = a ++ String.singleton c ++ b ∧ c ∉ a.toList := by
  obtain ⟨a, b, hs, ha⟩ := List.eq_append_cons_of_mem h
  refine ⟨String.ofList a, String.ofList b, ?_, by rwa [String.toList_ofList]⟩
  rw [← String.toList_inj, toList_append_separator, String.toList_ofList,
    String.toList_ofList, hs]

/-- And a last one. -/
theorem exists_last (h : c ∈ s.toList) :
    ∃ a b, s = a ++ String.singleton c ++ b ∧ c ∉ b.toList := by
  obtain ⟨b, a, hs, hb⟩ := List.eq_append_cons_of_mem (List.mem_reverse.mpr h)
  refine ⟨String.ofList a.reverse, String.ofList b.reverse, ?_, ?_⟩
  · rw [← String.toList_inj, toList_append_separator, String.toList_ofList,
      String.toList_ofList, ← List.reverse_inj, hs]
    simp
  · rwa [String.toList_ofList, List.mem_reverse]

theorem split_head_append (h : c ∉ s.toList) :
    (split (s ++ String.singleton c ++ t) c).head? = some s := by
  rw [split_append, split_of_not_mem h, List.singleton_append, List.head?_cons]

theorem rsplit_head_append (h : c ∉ t.toList) :
    (rsplit (s ++ String.singleton c ++ t) c).head? = some t := by
  rw [rsplit, split_append, split_of_not_mem h, List.reverse_append, List.reverse_singleton,
    List.singleton_append, List.head?_cons]

/-- What comes first of a split. -/
theorem split_head_iff (ht : c ∉ t.toList) :
    (split s c).head? = some t ↔ s = t ∨ ∃ b, s = t ++ String.singleton c ++ b := by
  constructor
  · intro h
    by_cases hs : c ∈ s.toList
    · obtain ⟨a, b, rfl, ha⟩ := exists_first hs
      rw [split_head_append ha] at h
      obtain rfl := Option.some.inj h
      exact .inr ⟨b, rfl⟩
    · rw [split_of_not_mem hs] at h
      exact .inl (Option.some.inj h)
  · rintro (rfl | ⟨b, rfl⟩)
    · rw [split_of_not_mem ht, List.head?_cons]
    · exact split_head_append ht

end Split

end Thbc.Lib
