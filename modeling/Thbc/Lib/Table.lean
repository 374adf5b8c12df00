import Thbc.Lib.Tally
import Mathlib.Data.List.Sort
import Mathlib.Algebra.BigOperators.Ring.Finset

/-!
# SQL tables

A table with a primary key is the list of its rows, in an order that means
nothing. The statements are the ones that touch a single table: `insert` and
`update` with the constraints of the table, and queries that filter, order,
count and add up. Each is one atomic step that fails as a whole or not at all,
and fails with an SQLSTATE code and a message.

`Stores` says that a table holds a finite map, one row for each value. The
rules below it say what a statement does to such a table and what a query reads
off it, in terms of the map, so that a proof about a program over the table
never looks at the rows themselves.
-/

namespace Thbc.Lib

/-- An error of the database, with its SQLSTATE code. -/
structure SqlError where
  code : String
  message : String
  deriving DecidableEq

abbrev SqlResult (α : Type) : Type := Except SqlError α

/-! ## Values -/

/-- A number as a `BIGINT`. -/
def toBigint (n : Int) : SqlResult Int64 :=
  if -2 ^ 63 ≤ n ∧ n < 2 ^ 63 then .ok (.ofInt n)
  else .error ⟨"22003", "bigint out of range"⟩

def NulFree (s : String) : Prop := Char.ofNat 0 ∉ s.toList

instance (s : String) : Decidable (NulFree s) := inferInstanceAs (Decidable (¬ _))

/-- A string as a `TEXT`, which has no NUL. -/
def toText (s : String) : SqlResult String :=
  if NulFree s then .ok s
  else .error ⟨"22021", "invalid byte sequence for encoding \"UTF8\": 0x00"⟩

theorem toBigint_of_le {n : Int} (hlo : -2 ^ 63 ≤ n) (hhi : n < 2 ^ 63) :
    ∃ v, toBigint n = .ok v ∧ v.toInt = n :=
  ⟨_, if_pos ⟨hlo, hhi⟩, Int64.toInt_ofInt_of_le hlo hhi⟩

theorem toBigint_eq_ok {n : Int} {v : Int64} :
    toBigint n = .ok v ↔ -2 ^ 63 ≤ n ∧ n < 2 ^ 63 ∧ v = .ofInt n := by
  unfold toBigint
  split
  · next h => exact ⟨fun hv => ⟨h.1, h.2, (Except.ok.inj hv).symm⟩, fun hv => hv.2.2 ▸ rfl⟩
  · next h => exact ⟨nofun, fun hv => absurd ⟨hv.1, hv.2.1⟩ h⟩

theorem toText_ok {s : String} (h : NulFree s) : toText s = .ok s := if_pos h

theorem toText_eq_ok {s t : String} : toText s = .ok t ↔ NulFree s ∧ t = s := by
  unfold toText
  split
  · next h =>
      rw [Except.ok.injEq, eq_comm]
      exact ⟨fun ht => ⟨h, ht⟩, And.right⟩
  · next h =>
      refine ⟨fun ht => ?_, fun ht => absurd ht.1 h⟩
      cases ht

/-- The larger of two by comparing them is their maximum. -/
theorem lawfulOrderMax {α : Type} [LE α] [DecidableLE α] [Std.IsLinearOrder α] :
    @Std.LawfulOrderMax α maxOfLe _ := by
  let _ : Max α := maxOfLe
  have hmax : ∀ a b : α, max a b = if a ≤ b then b else a := fun _ _ => rfl
  refine @Std.LawfulOrderMax.mk _ _ _ ⟨fun a b => ?_⟩ ⟨fun a b c => ?_⟩
  · rw [hmax]
    split
    · exact .inr rfl
    · exact .inl rfl
  · rw [hmax]
    split
    · next h => exact ⟨fun hc => ⟨Std.le_trans h hc, hc⟩, And.right⟩
    · next h =>
        have hba : b ≤ a := (Std.le_total (a := a) (b := b)).resolve_left h
        exact ⟨fun hc => ⟨hc, Std.le_trans hba hc⟩, And.left⟩

instance lawfulOrderMaxUInt64 : Std.LawfulOrderMax UInt64 := lawfulOrderMax

instance lawfulOrderMaxInt64 : Std.LawfulOrderMax Int64 := lawfulOrderMax

/-! ## Statements -/

/-- A table with rows `R` and a primary key `C`. -/
structure Schema (R C : Type) where
  relation : String
  key : R → C
  checks : List (String × (R → Bool))

namespace Schema

variable {R C : Type} (s : Schema R C)

/-- The first check that a row fails. -/
def violated (row : R) : Option SqlError :=
  (s.checks.find? fun c => !c.2 row).map fun c =>
    ⟨"23514", "new row for relation \"" ++ s.relation ++
      "\" violates check constraint \"" ++ c.1 ++ "\""⟩

variable {s} in
theorem violated_of_checks {row : R} (h : ∀ c ∈ s.checks, c.2 row = true) :
    s.violated row = none := by
  rw [violated, Option.map_eq_none_iff, List.find?_eq_none]
  intro c hc
  rw [h c hc]
  decide

variable {s} in
theorem checks_of_violated {row : R} (h : s.violated row = none) {c : String × (R → Bool)}
    (hc : c ∈ s.checks) : c.2 row = true := by
  rw [violated, Option.map_eq_none_iff, List.find?_eq_none] at h
  simpa using h c hc

/-- `INSERT INTO … VALUES row`. -/
def insert [DecidableEq C] (row : R) (rows : List R) : SqlResult (List R) :=
  match s.violated row with
  | some e => .error e
  | none =>
      if rows.any fun r => s.key r = s.key row then
        .error ⟨"23505", "duplicate key value violates unique constraint \"" ++
          s.relation ++ "_pkey\""⟩
      else .ok (rows ++ [row])

/-- The same, where the key is drawn from a sequence and so is new. -/
def append (row : R) (rows : List R) : SqlResult (List R) :=
  match s.violated row with
  | some e => .error e
  | none => .ok (rows ++ [row])

/-- `UPDATE … SET f WHERE p`, with the number of rows affected, where `f`
leaves the primary key alone. -/
def update (p : R → Bool) (f : R → R) (rows : List R) : SqlResult (Nat × List R) :=
  match ((rows.filter p).map f).findSome? s.violated with
  | some e => .error e
  | none => .ok ((rows.filter p).length, rows.map fun r => if p r then f r else r)

variable {s}

theorem insert_ok [DecidableEq C] {row : R} {rows rows' : List R} :
    s.insert row rows = .ok rows' ↔
      s.violated row = none ∧ (∀ r ∈ rows, s.key r ≠ s.key row) ∧
        rows' = rows ++ [row] := by
  unfold insert
  cases hv : s.violated row with
  | some e =>
      refine ⟨fun h => ?_, fun h => ?_⟩
      · cases h
      · cases h.1
  | none =>
      have hany : ¬ (rows.any fun r => s.key r = s.key row) = true ↔
          ∀ r ∈ rows, s.key r ≠ s.key row := by
        simp
      by_cases h : (rows.any fun r => s.key r = s.key row) = true
      · rw [if_pos h]
        refine ⟨fun hok => ?_, fun hok => absurd h (hany.mpr hok.2.1)⟩
        cases hok
      · rw [if_neg h, Except.ok.injEq, eq_comm]
        exact ⟨fun hok => ⟨rfl, hany.mp h, hok⟩, fun hok => hok.2.2⟩

theorem update_ok {p : R → Bool} {f : R → R} {rows rows' : List R} {n : Nat} :
    s.update p f rows = .ok (n, rows') ↔
      (∀ r ∈ rows, p r = true → s.violated (f r) = none) ∧
        n = (rows.filter p).length ∧
        rows' = rows.map fun r => if p r then f r else r := by
  unfold update
  cases hv : ((rows.filter p).map f).findSome? s.violated with
  | some e =>
      obtain ⟨r', hr', he⟩ := List.exists_of_findSome?_eq_some hv
      obtain ⟨r, hr, rfl⟩ := List.mem_map.mp hr'
      obtain ⟨hr, hp⟩ := List.mem_filter.mp hr
      refine ⟨fun h => ?_, fun h => ?_⟩
      · cases h
      · rw [h.1 r hr hp] at he
        cases he
  | none =>
      have hok : ∀ r ∈ rows, p r = true → s.violated (f r) = none := fun r hr hp =>
        List.findSome?_eq_none_iff.mp hv (f r)
          (List.mem_map_of_mem (List.mem_filter.mpr ⟨hr, hp⟩))
      rw [Except.ok.injEq, Prod.mk.injEq]
      exact ⟨fun h => ⟨hok, h.1.symm, h.2.symm⟩, fun h => ⟨h.2.1.symm, h.2.2.symm⟩⟩

end Schema

section Queries

variable {R : Type}

/-- `SELECT … WHERE p`, for a condition that can fail. -/
def selectWhere (p : R → SqlResult Bool) : List R → SqlResult (List R)
  | [] => .ok []
  | r :: rows => do
      let keep ← p r
      let rest ← selectWhere p rows
      return if keep then r :: rest else rest

/-- `ORDER BY f`; rows that `f` does not tell apart come in any order. -/
def orderBy (f : R → Int64) (tie : R → Nat) (rows : List R) : List R :=
  (rows.insertionSort fun a b => tie a ≤ tie b).insertionSort fun a b => f a ≤ f b

/-- `COALESCE(SUM(f), 0)::BIGINT`. -/
def sumBigint (f : R → Int64) (rows : List R) : SqlResult Int64 :=
  toBigint (rows.map fun r => (f r).toInt).sum

/-- `COUNT(*)::BIGINT`. -/
def countBigint (rows : List R) : SqlResult Int64 := toBigint rows.length

/-- `COALESCE(MAX(f), 0)::BIGINT`. -/
def maxBigint (f : R → Int64) (rows : List R) : Int64 := (rows.map f).max?.getD 0

theorem orderBy_perm (f : R → Int64) (tie : R → Nat) (rows : List R) :
    (orderBy f tie rows).Perm rows :=
  (List.perm_insertionSort _ _).trans (List.perm_insertionSort _ _)

/-- A condition that does not fail filters. -/
theorem selectWhere_ok {p : R → SqlResult Bool} {q : R → Bool} {rows : List R}
    (h : ∀ r ∈ rows, p r = .ok (q r)) : selectWhere p rows = .ok (rows.filter q) := by
  induction rows with
  | nil => rfl
  | cons r rows ih =>
      rw [selectWhere, h r List.mem_cons_self,
        ih fun r hr => h r (List.mem_cons_of_mem _ hr), List.filter_cons]
      rfl

/-- What is selected meets the condition. -/
theorem mem_of_selectWhere {p : R → SqlResult Bool} {rows kept : List R}
    (h : selectWhere p rows = .ok kept) {r : R} (hr : r ∈ kept) : r ∈ rows ∧ p r = .ok true := by
  induction rows generalizing kept with
  | nil =>
      obtain rfl := Except.ok.inj h
      exact absurd hr List.not_mem_nil
  | cons r' rows ih =>
      rw [selectWhere] at h
      cases hp : p r' with
      | error e =>
          rw [hp] at h
          cases h
      | ok keep =>
          cases hrest : selectWhere p rows with
          | error e =>
              rw [hp, hrest] at h
              cases h
          | ok rest =>
              rw [hp, hrest] at h
              obtain rfl := Except.ok.inj h
              have hlater : r ∈ rest → r ∈ r' :: rows ∧ p r = .ok true := fun hr =>
                ⟨List.mem_cons_of_mem _ (ih hrest hr).1, (ih hrest hr).2⟩
              cases keep with
              | false => exact hlater hr
              | true =>
                  obtain rfl | hr := List.mem_cons.mp hr
                  · exact ⟨List.mem_cons_self, hp⟩
                  · exact hlater hr

end Queries

/-- Reading the rows in another order gives the values in another order. -/
theorem mapM_perm {ε R V : Type} {dec : R → Except ε V} {rows rows' : List R}
    (hp : rows.Perm rows') {vs' : List V} (h : rows'.mapM dec = .ok vs') :
    ∃ vs, rows.mapM dec = .ok vs ∧ vs.Perm vs' := by
  have hcons : ∀ {r : R} {rows : List R} {vs : List V},
      (r :: rows).mapM dec = .ok vs ↔
        ∃ v vs', dec r = .ok v ∧ rows.mapM dec = .ok vs' ∧ vs = v :: vs' := by
    intro r rows vs
    rw [List.mapM_cons]
    cases dec r with
    | error e => simp [bind, Except.bind]
    | ok v => cases rows.mapM dec <;> simp [bind, Except.bind, pure, Except.pure, eq_comm]
  induction hp generalizing vs' with
  | nil => exact ⟨_, h, .refl _⟩
  | cons r _ ih =>
      obtain ⟨v, vs, hv, hvs, rfl⟩ := hcons.mp h
      obtain ⟨us, hus, hperm⟩ := ih hvs
      exact ⟨_, hcons.mpr ⟨v, us, hv, hus, rfl⟩, hperm.cons v⟩
  | swap r r' rows =>
      obtain ⟨v, vs, hv, hvs, rfl⟩ := hcons.mp h
      obtain ⟨v', vs', hv', hvs', rfl⟩ := hcons.mp hvs
      exact ⟨_, hcons.mpr ⟨v', _, hv', hcons.mpr ⟨v, _, hv, hvs', rfl⟩, rfl⟩, .swap _ _ _⟩
  | trans _ _ ih ih' =>
      obtain ⟨us, hus, hperm⟩ := ih' h
      obtain ⟨ts, hts, hperm'⟩ := ih hus
      exact ⟨ts, hts, hperm'.trans hperm⟩

/-- What is read is read from a row. -/
theorem mem_of_mapM {ε R V : Type} {dec : R → Except ε V} {rows : List R} {vs : List V}
    (h : rows.mapM dec = .ok vs) {v : V} (hv : v ∈ vs) : ∃ r ∈ rows, dec r = .ok v := by
  induction rows generalizing vs with
  | nil =>
      obtain rfl := Except.ok.inj h
      exact absurd hv List.not_mem_nil
  | cons r rows ih =>
      rw [List.mapM_cons] at h
      cases hr : dec r with
      | error e =>
          rw [hr] at h
          cases h
      | ok u =>
          cases hrest : rows.mapM dec with
          | error e =>
              rw [hr, hrest] at h
              cases h
          | ok us =>
              rw [hr, hrest] at h
              obtain rfl := Except.ok.inj h
              obtain rfl | hv := List.mem_cons.mp hv
              · exact ⟨r, List.mem_cons_self, hr⟩
              · obtain ⟨r', hr', hdec⟩ := ih hrest hv
                exact ⟨r', List.mem_cons_of_mem _ hr', hdec⟩

theorem mapM_map_ok {ε R V : Type} {enc : V → R} {dec : R → Except ε V} {vs : List V}
    (h : ∀ v ∈ vs, dec (enc v) = .ok v) : (vs.map enc).mapM dec = .ok vs := by
  induction vs with
  | nil => rfl
  | cons v vs ih =>
      rw [List.map_cons, List.mapM_cons, h v List.mem_cons_self,
        ih fun v hv => h v (List.mem_cons_of_mem _ hv)]
      rfl

/-! ## A table that holds a map -/

/-- How the entries of a map lie in a table: `col` is a key as the primary key
column has it, `enc` a value as a row. -/
structure Layout (K V R C : Type) where
  schema : Schema R C
  col : K → C
  enc : V → R
  col_inj : Function.Injective col

section Stores

variable {K V R C : Type} [DecidableEq K] [DecidableEq C]

/-- One row for each value, under the key of its entry. -/
structure Stores (L : Layout K V R C) (m : HashMap K V) (rows : List R) : Prop where
  perm : rows.Perm (m.values.map L.enc)
  keyed : ∀ k v, m.lookup k = some v → L.schema.key (L.enc v) = L.col k

variable {L : Layout K V R C} {m : HashMap K V} {rows : List R}

omit [DecidableEq C] in
theorem Stores.empty (L : Layout K V R C) : Stores L ∅ [] where
  perm := .refl _
  keyed k v h := by cases h

omit [DecidableEq C] in
/-- What a query filters out. -/
theorem Stores.filter (h : Stores L m rows) (p : R → Bool) :
    (rows.filter p).Perm ((m.values.filter fun v => p (L.enc v)).map L.enc) := by
  refine (h.perm.filter p).trans ?_
  rw [List.filter_map]
  exact .refl _

omit [DecidableEq C] in
/-- A sum of naturals that fits. -/
theorem Stores.sumBigint (h : Stores L m rows) {p : R → Bool} {q : V → Bool}
    {f : R → Int64} {g : V → Nat} (hq : ∀ v, p (L.enc v) = q v)
    (hg : ∀ v ∈ m.values, (f (L.enc v)).toInt = g v)
    (hlt : (m.tally fun v => if q v then g v else 0) < 2 ^ 63) :
    ∃ n, sumBigint f (rows.filter p) = .ok n ∧
      n.toInt = m.tally fun v => if q v then g v else 0 := by
  have hsum : ((rows.filter p).map fun r => (f r).toInt).sum =
      ((m.tally fun v => if q v then g v else 0 : Nat) : Int) := by
    rw [((h.filter p).map _).sum_eq, List.map_map, ← AList.sum_filter_values,
      Nat.cast_list_sum, List.map_map]
    simp only [hq]
    refine congrArg _ (List.map_congr_left fun v hv => ?_)
    exact hg v (List.mem_of_mem_filter hv)
  rw [Lib.sumBigint, hsum]
  exact toBigint_of_le (by omega) (by exact_mod_cast hlt)

omit [DecidableEq C] in
/-- A count that fits. -/
theorem Stores.countBigint (h : Stores L m rows) {p : R → Bool} {q : V → Bool}
    (hq : ∀ v, p (L.enc v) = q v) (hlt : (m.values.filter q).length < 2 ^ 63) :
    ∃ n, countBigint (rows.filter p) = .ok n ∧ n.toInt = (m.values.filter q).length := by
  have hlen : (rows.filter p).length = (m.values.filter q).length := by
    rw [(h.filter p).length_eq, List.length_map]
    simp only [hq]
  rw [Lib.countBigint, hlen]
  exact toBigint_of_le (by omega) (by exact_mod_cast hlt)

omit [DecidableEq C] in
/-- Rows that a query picks out, in some order, read back as the values. -/
theorem Stores.decode (h : Stores L m rows) {ε : Type} {dec : R → Except ε V}
    (hdec : ∀ v ∈ m.values, dec (L.enc v) = .ok v) {p : R → Bool} {q : V → Bool}
    (hq : ∀ v ∈ m.values, p (L.enc v) = q v) {out : List R}
    (hout : out.Perm (rows.filter p)) :
    ∃ vs, out.mapM dec = .ok vs ∧ vs.Perm (m.values.filter q) := by
  have hfilter : m.values.filter (fun v => p (L.enc v)) = m.values.filter q :=
    List.filter_congr hq
  refine mapM_perm (hout.trans (h.filter p)) ?_
  rw [hfilter]
  exact mapM_map_ok fun v hv => hdec v (List.mem_of_mem_filter hv)

/-- The rows under one key: the one of its entry. -/
theorem Stores.filter_key (h : Stores L m rows) (k : K) :
    rows.filter (fun r => L.schema.key r = L.col k) =
      ((m.lookup k).map L.enc).toList := by
  have hother : ∀ {k' : K} {v : V}, k' ≠ k → m.lookup k' = some v →
      ¬ L.schema.key (L.enc v) = L.col k := by
    intro k' v hne hv heq
    exact hne (L.col_inj ((h.keyed k' v hv).symm.trans heq))
  have hp := h.filter fun r => L.schema.key r = L.col k
  cases hk : m.lookup k with
  | none =>
      have hnil : (m.values.filter fun v => L.schema.key (L.enc v) = L.col k) = [] := by
        refine List.filter_eq_nil_iff.mpr fun v hv => ?_
        obtain ⟨k', hk'⟩ := AList.mem_values.mp hv
        have hne : k' ≠ k := by
          intro heq
          subst heq
          rw [hk] at hk'
          cases hk'
        simpa using hother hne hk'
      rw [hnil] at hp
      exact hp.eq_nil
  | some v =>
      have hone : ((v :: (m.erase k).values).filter fun v =>
          L.schema.key (L.enc v) = L.col k) = [v] := by
        rw [List.filter_cons_of_pos (by simpa using h.keyed k v hk)]
        refine congrArg _ (List.filter_eq_nil_iff.mpr fun v' hv' => ?_)
        obtain ⟨k', hk'⟩ := AList.mem_values.mp hv'
        have hne : k' ≠ k := by
          intro heq
          subst heq
          rw [AList.lookup_erase] at hk'
          cases hk'
        rw [AList.lookup_erase_ne hne] at hk'
        simpa using hother hne hk'
      have hv := (AList.values_perm_erase hk).filter fun v =>
        L.schema.key (L.enc v) = L.col k
      rw [hone] at hv
      exact List.perm_singleton.mp (hp.trans (hv.map L.enc))

theorem Stores.any_key (h : Stores L m rows) (k : K) :
    (rows.any fun r => L.schema.key r = L.col k) = (m.lookup k).isSome := by
  have hfilter := h.filter_key k
  rw [Bool.eq_iff_iff, List.any_eq_true]
  refine ⟨fun ⟨r, hr, hkey⟩ => ?_, fun hk => ?_⟩
  · have hmem : r ∈ rows.filter fun r => L.schema.key r = L.col k :=
      List.mem_filter.mpr ⟨hr, hkey⟩
    rw [hfilter] at hmem
    cases hk : m.lookup k with
    | none => rw [hk] at hmem; cases hmem
    | some v => rfl
  · obtain ⟨v, hv⟩ := Option.isSome_iff_exists.mp hk
    have hmem : L.enc v ∈ rows.filter fun r => L.schema.key r = L.col k := by
      rw [hfilter, hv]
      exact List.mem_cons_self
    exact ⟨L.enc v, List.mem_filter.mp hmem⟩

omit [DecidableEq C] in
theorem Stores.keyed_insert (h : Stores L m rows) {k : K} {v : V}
    (hv : L.schema.key (L.enc v) = L.col k) (k' : K) (v' : V)
    (hk' : (m.insert k v).lookup k' = some v') : L.schema.key (L.enc v') = L.col k' :=
  AList.lookup_insert_all (P := fun k v => L.schema.key (L.enc v) = L.col k)
    h.keyed hv k' v' hk'

/-- An `INSERT` under a key that is taken. -/
theorem Stores.insert_taken (h : Stores L m rows) {k : K}
    (hk : (m.lookup k).isSome = true) {row : R} (hrow : L.schema.key row = L.col k)
    (hchecks : L.schema.violated row = none) :
    ∃ text, L.schema.insert row rows = .error ⟨"23505", text⟩ := by
  have hany := (h.any_key k).trans hk
  unfold Schema.insert
  rw [hchecks, hrow, hany]
  exact ⟨_, rfl⟩

/-- An `INSERT` under a new key. -/
theorem Stores.insert_free (h : Stores L m rows) {k : K} (hk : m.lookup k = none)
    {v : V} (hv : L.schema.key (L.enc v) = L.col k)
    (hchecks : L.schema.violated (L.enc v) = none) :
    L.schema.insert (L.enc v) rows = .ok (rows ++ [L.enc v]) ∧
      Stores L (m.insert k v) (rows ++ [L.enc v]) := by
  have hany := h.any_key k
  rw [hk] at hany
  refine ⟨?_, ?_, h.keyed_insert hv⟩
  · unfold Schema.insert
    rw [hchecks, hv, hany]
    rfl
  · rw [AList.values_insert_of_none hk]
    exact List.perm_append_singleton _ _ |>.trans (h.perm.cons _)

/-- An `UPDATE` of the row under one key. -/
theorem Stores.update_key (h : Stores L m rows) {k : K} {old : V}
    (hk : m.lookup k = some old) (f : R → R) {v : V} (hf : f (L.enc old) = L.enc v)
    (hv : L.schema.key (L.enc v) = L.col k)
    (hchecks : L.schema.violated (L.enc v) = none) :
    ∃ rows', L.schema.update (fun r => L.schema.key r = L.col k) f rows =
        .ok (1, rows') ∧ Stores L (m.insert k v) rows' := by
  have hfilter := h.filter_key k
  rw [hk] at hfilter
  refine ⟨rows.map fun r => if L.schema.key r = L.col k then f r else r, ?_, ?_,
    h.keyed_insert hv⟩
  · unfold Schema.update
    rw [hfilter]
    simp [hf, hchecks]
  · have hold := (h.perm.trans ((AList.values_perm_erase hk).map L.enc)).map
      fun r => if L.schema.key r = L.col k then f r else r
    refine hold.trans ?_
    rw [AList.values_insert, List.map_cons, List.map_cons, List.map_cons,
      if_pos (h.keyed k old hk), hf]
    refine .of_eq (congrArg _ ?_)
    rw [List.map_map]
    refine List.map_congr_left fun v' hv' => ?_
    obtain ⟨k', hk'⟩ := AList.mem_values.mp hv'
    have hne : k' ≠ k := by
      intro heq
      subst heq
      rw [AList.lookup_erase] at hk'
      cases hk'
    rw [AList.lookup_erase_ne hne] at hk'
    refine if_neg fun heq => hne (L.col_inj ?_)
    exact (h.keyed k' v' hk').symm.trans heq

end Stores

end Thbc.Lib
