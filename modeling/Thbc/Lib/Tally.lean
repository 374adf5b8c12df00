import Mathlib.Data.List.AList
import Mathlib.Algebra.GroupWithZero.Nat
import Mathlib.Algebra.Order.BigOperators.Group.Finset

/-!
# Finite maps and the totals read off them

A finite map is Mathlib's `AList` at a constant family: a list of entries
whose keys are all different. What programs that keep accounts do with such
a map is replace one entry or drop one, and what is asked of them afterwards
is a total over all entries. The two sides meet in `tally_insert` and
`tally_erase`, which say what one write does to any total at all: the old
weight of the key goes out, the new one comes in, and a key that was absent
weighs nothing.

`tallyBy_eq_sum` reads the same total as a sum over any set of keys that
covers the map, which is how two maps with different values are compared
key by key (`tally_mono`, `tally_congr`).

Where the key has a say in what an entry counts, for a total over some of the
keys only, the total is a `tallyBy`. It has the same rules, and they are proved
for it; a `tally` is the one that does not look at the key.
-/

/-- A finite map from `K` to `V`. -/
abbrev HashMap (K V : Type) : Type := AList fun _ : K => V

namespace AList

variable {K V W : Type}

/-- The values, in the order the entries happen to lie in. -/
def values (m : HashMap K V) : List V := m.entries.map Sigma.snd

/-- The weight of all values under `f`. -/
def tally (f : V → Nat) (m : HashMap K V) : Nat := (m.values.map f).sum

/-- The weight of all entries under `f`. -/
def tallyBy (f : K → V → Nat) (m : HashMap K V) : Nat :=
  (m.entries.map fun e => f e.1 e.2).sum

theorem tally_eq_tallyBy (f : V → Nat) (m : HashMap K V) :
    m.tally f = m.tallyBy fun _ => f := by
  rw [tally, tallyBy, values, List.map_map]
  rfl

/-- How many values satisfy `p`, as a total. -/
theorem length_filter_values (p : V → Bool) (m : HashMap K V) :
    (m.values.filter p).length = m.tally fun v => if p v then 1 else 0 := by
  unfold tally
  induction m.values with
  | nil => rfl
  | cons v vs ih =>
      rw [List.filter_cons]
      split <;> rename_i h
      · simp [h, ih, Nat.add_comm]
      · simp [h, ih]

/-- Restricting a total to the values that satisfy `p`. -/
theorem sum_filter_values (p : V → Bool) (f : V → Nat) (m : HashMap K V) :
    ((m.values.filter p).map f).sum = m.tally fun v => if p v then f v else 0 := by
  unfold tally
  induction m.values with
  | nil => rfl
  | cons v vs ih =>
      rw [List.filter_cons]
      split <;> rename_i h
      · simp [h, ih]
      · simp [h, ih]

section Lookup

variable [DecidableEq K]

theorem ne_of_lookup {m : HashMap K V} {k k' : K} {v : V}
    (h : m.lookup k = some v) (h' : m.lookup k' = none) : k ≠ k' := by
  intro heq
  rw [heq, h'] at h
  cases h

/-- An entry of a map that was written is the one written or an old one. -/
theorem lookup_insert_cases {m : HashMap K V} {k k' : K} {v v' : V}
    (h : (m.insert k v).lookup k' = some v') :
    (k' = k ∧ v' = v) ∨ m.lookup k' = some v' := by
  by_cases hk : k' = k
  · subst hk
    rw [lookup_insert] at h
    exact .inl ⟨rfl, (Option.some.inj h).symm⟩
  · rw [lookup_insert_ne hk] at h
    exact .inr h

/-- What holds of every entry, and of the one that is written. -/
theorem lookup_insert_all {P : K → V → Prop} {m : HashMap K V}
    (h : ∀ k v, m.lookup k = some v → P k v) {k : K} {v : V} (hv : P k v) :
    ∀ k' v', (m.insert k v).lookup k' = some v' → P k' v' := by
  intro k' v' hk'
  obtain ⟨rfl, rfl⟩ | hold := lookup_insert_cases hk'
  · exact hv
  · exact h k' v' hold

/-- A write takes no key away. -/
theorem lookup_of_insert_none {m : HashMap K V} {k k' : K} {v : V}
    (h : (m.insert k v).lookup k' = none) : m.lookup k' = none := by
  by_cases hk : k' = k
  · rw [hk, lookup_insert] at h
    cases h
  · rw [lookup_insert_ne hk] at h
    exact h

/-- What the map weighs at one key: nothing where the key is absent. -/
def weight (f : V → Nat) (m : HashMap K V) (k : K) : Nat :=
  (m.lookup k).elim 0 f

theorem weight_of_lookup {f : V → Nat} {m : HashMap K V} {k : K} {v : V}
    (h : m.lookup k = some v) : m.weight f k = f v := by
  rw [weight, h, Option.elim_some]

theorem weight_of_none {f : V → Nat} {m : HashMap K V} {k : K}
    (h : m.lookup k = none) : m.weight f k = 0 := by
  rw [weight, h, Option.elim_none]

theorem mem_values {m : HashMap K V} {v : V} :
    v ∈ m.values ↔ ∃ k, m.lookup k = some v := by
  simp only [values, List.mem_map, Sigma.exists]
  refine ⟨fun h => ?_, fun h => ?_⟩
  · obtain ⟨k, v', hmem, rfl⟩ := h
    exact ⟨k, AList.mem_lookup_iff.mpr hmem⟩
  · obtain ⟨k, hk⟩ := h
    exact ⟨k, v, AList.mem_lookup_iff.mp hk, rfl⟩

theorem entries_perm_erase {m : HashMap K V} {k : K} {v : V}
    (h : m.lookup k = some v) : m.entries.Perm (⟨k, v⟩ :: (m.erase k).entries) := by
  have hmem : (⟨k, v⟩ : Sigma fun _ : K => V) ∈ m.entries :=
    AList.mem_lookup_iff.mp h
  obtain ⟨v', l₁, l₂, -, hm, hk⟩ :=
    List.exists_of_kerase (List.mem_keys_of_mem hmem)
  have hv : v' = v := by
    have hmem' : (⟨k, v'⟩ : Sigma fun _ : K => V) ∈ m.entries := by
      rw [hm]; simp
    have h' : m.lookup k = some v' := AList.mem_lookup_iff.mpr hmem'
    rw [h] at h'
    exact (Option.some.inj h').symm
  subst hv
  show m.entries.Perm (⟨k, v'⟩ :: List.kerase k m.entries)
  rw [hk, hm]
  exact List.perm_middle

theorem entries_erase_of_none {m : HashMap K V} {k : K} (h : m.lookup k = none) :
    (m.erase k).entries = m.entries :=
  List.kerase_of_notMem_keys (AList.lookup_eq_none.mp h)

theorem values_perm_erase {m : HashMap K V} {k : K} {v : V}
    (h : m.lookup k = some v) : m.values.Perm (v :: (m.erase k).values) := by
  have hp := (entries_perm_erase h).map fun e : Sigma fun _ : K => V => e.2
  rw [List.map_cons] at hp
  exact hp

theorem values_insert (m : HashMap K V) (k : K) (v : V) :
    (m.insert k v).values = v :: (m.erase k).values := rfl

theorem values_insert_of_none {m : HashMap K V} {k : K} (h : m.lookup k = none)
    (v : V) : (m.insert k v).values = v :: m.values := by
  rw [values_insert, values, entries_erase_of_none h]
  rfl

/-- Dropping a key takes out its weight. -/
theorem tallyBy_erase (f : K → V → Nat) (m : HashMap K V) (k : K) :
    (m.erase k).tallyBy f + m.weight (f k) k = m.tallyBy f := by
  cases h : m.lookup k with
  | none =>
      rw [weight_of_none h, tallyBy, tallyBy, entries_erase_of_none h, Nat.add_zero]
  | some v =>
      rw [weight_of_lookup h, tallyBy, tallyBy, ((entries_perm_erase h).map _).sum_eq]
      simp only [List.map_cons, List.sum_cons]
      omega

/-- Writing a key takes out its old weight and puts in the new one. -/
theorem tallyBy_insert (f : K → V → Nat) (m : HashMap K V) (k : K) (v : V) :
    (m.insert k v).tallyBy f + m.weight (f k) k = m.tallyBy f + f k v := by
  have he := tallyBy_erase f m k
  have hi : (m.insert k v).tallyBy f = f k v + (m.erase k).tallyBy f := by
    show ((List.kinsert k v m.entries).map fun e => f e.1 e.2).sum =
      f k v + ((List.kerase k m.entries).map fun e => f e.1 e.2).sum
    rw [List.kinsert_def, List.map_cons, List.sum_cons]
  omega

/-- A total is the sum of the weights over any keys that cover the map. -/
theorem tallyBy_eq_sum (f : K → V → Nat) (m : HashMap K V) (S : Finset K)
    (hS : ∀ k ∈ m, k ∈ S) : m.tallyBy f = ∑ k ∈ S, m.weight (f k) k := by
  induction S using Finset.induction_on generalizing m with
  | empty =>
      have : m.entries = [] := by
        cases he : m.entries with
        | nil => rfl
        | cons x xs =>
            have hx : x.1 ∈ m := by
              rw [AList.mem_keys, AList.keys, he]
              simp
            exact absurd (hS _ hx) (by simp)
      simp [tallyBy, this]
  | insert a S ha ih =>
      have hcover : ∀ k ∈ m.erase a, k ∈ S := by
        intro k hk
        rw [AList.mem_erase] at hk
        rcases Finset.mem_insert.mp (hS k hk.2) with rfl | hkS
        · exact absurd rfl hk.1
        · exact hkS
      have hw : ∀ k ∈ S, (m.erase a).weight (f k) k = m.weight (f k) k := by
        intro k hk
        have hne : k ≠ a := fun h => ha (h ▸ hk)
        rw [weight, weight, AList.lookup_erase_ne hne]
      rw [Finset.sum_insert ha, ← tallyBy_erase f m a, ih _ hcover,
        Finset.sum_congr rfl hw, Nat.add_comm]

/-- A map that weighs no less at every key weighs no less. -/
theorem tallyBy_mono {f : K → V → Nat} {g : K → W → Nat} {m : HashMap K V}
    {m' : HashMap K W} (h : ∀ k, m.weight (f k) k ≤ m'.weight (g k) k) :
    m.tallyBy f ≤ m'.tallyBy g := by
  rw [tallyBy_eq_sum f m (m.keys.toFinset ∪ m'.keys.toFinset)
      (fun k hk => by simp [AList.mem_keys.mp hk]),
    tallyBy_eq_sum g m' (m.keys.toFinset ∪ m'.keys.toFinset)
      (fun k hk => by simp [AList.mem_keys.mp hk])]
  exact Finset.sum_le_sum fun k _ => h k

/-- Two maps that weigh the same at every key weigh the same. -/
theorem tallyBy_congr {f : K → V → Nat} {g : K → W → Nat} {m : HashMap K V}
    {m' : HashMap K W} (h : ∀ k, m.weight (f k) k = m'.weight (g k) k) :
    m.tallyBy f = m'.tallyBy g :=
  Nat.le_antisymm (tallyBy_mono fun k => (h k).le)
    (tallyBy_mono fun k => (h k).ge)

/-! The rules for a total that does not look at the keys. -/

theorem tally_erase (f : V → Nat) (m : HashMap K V) (k : K) :
    (m.erase k).tally f + m.weight f k = m.tally f := by
  rw [tally_eq_tallyBy, tally_eq_tallyBy]
  exact tallyBy_erase _ m k

theorem tally_insert (f : V → Nat) (m : HashMap K V) (k : K) (v : V) :
    (m.insert k v).tally f + m.weight f k = m.tally f + f v := by
  rw [tally_eq_tallyBy, tally_eq_tallyBy]
  exact tallyBy_insert _ m k v

theorem weight_le_tally (f : V → Nat) (m : HashMap K V) (k : K) :
    m.weight f k ≤ m.tally f := by
  have := tally_erase f m k
  omega

theorem tally_mono {f : V → Nat} {g : W → Nat} {m : HashMap K V}
    {m' : HashMap K W} (h : ∀ k, m.weight f k ≤ m'.weight g k) :
    m.tally f ≤ m'.tally g := by
  rw [tally_eq_tallyBy, tally_eq_tallyBy]
  exact tallyBy_mono h

theorem tally_congr {f : V → Nat} {g : W → Nat} {m : HashMap K V}
    {m' : HashMap K W} (h : ∀ k, m.weight f k = m'.weight g k) :
    m.tally f = m'.tally g := by
  rw [tally_eq_tallyBy, tally_eq_tallyBy]
  exact tallyBy_congr h

end Lookup

end AList
