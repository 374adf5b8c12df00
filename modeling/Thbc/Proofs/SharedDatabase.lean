import Thbc.Bin.Config

/-!
# What the guard takes for the database

The name is looked for behind the last slash of the whole URL, and the query is
cut off only then. A query may have slashes of its own, as a path of a
certificate or of a socket does, and then the name is taken out of the query,
unless what stands there is the name of the database once more.
-/

namespace Thbc

open Thbc.Lib

/-- A URL `scheme://authority/db` or `scheme://authority/db?query`. -/
structure DatabaseUrl where
  scheme : String
  authority : String
  db : String
  query : Option String
  authority_plain : '/' ∉ authority.toList ∧ '?' ∉ authority.toList
  db_plain : '/' ∉ db.toList ∧ '?' ∉ db.toList

namespace DatabaseUrl

def queryText : Option String → String
  | none => ""
  | some q => "?" ++ q

def text (url : DatabaseUrl) : String :=
  url.scheme ++ "://" ++ url.authority ++ "/" ++ url.db ++ queryText url.query

/-- The query has no slash, or what stands between its last slash and the next
question mark is the name of the database. -/
def QueryHarmless (db q : String) : Prop :=
  '/' ∉ q.toList ∨ ∃ path rest, q = path ++ "/" ++ rest ∧ '/' ∉ rest.toList ∧
    (rest = db ∨ ∃ more, rest = db ++ "?" ++ more)

/-- The query, if there is one, does not hide the name. -/
def Plain (url : DatabaseUrl) : Prop := ∀ q, url.query = some q → QueryHarmless url.db q

end DatabaseUrl

/-- What the guard promises about the URL of a variable. -/
structure Config.Guards (config : Config) (var : String) (url : DatabaseUrl) : Prop where
  sees : databaseName url.text = url.db
  rejects : url.db = "gridtokenx" → ∃ e, config.validate = .error e
  spares : url.db ≠ "gridtokenx" → config.validate ≠ .error (sharedDatabase var)

section Name

variable {front segment db : String}

/-- The segment behind the last slash is what the name is read from. -/
theorem databaseName_segment (h : '/' ∉ segment.toList) :
    databaseName (front ++ "/" ++ segment) = (split segment '?').head?.getD "" := by
  unfold databaseName
  rw [show ("/" : String) = String.singleton '/' from rfl, rsplit_head_append h]
  rfl

theorem databaseName_eq_iff (h : '/' ∉ segment.toList) (hdb : '?' ∉ db.toList) :
    databaseName (front ++ "/" ++ segment) = db ↔
      segment = db ∨ ∃ more, segment = db ++ "?" ++ more := by
  rw [databaseName_segment h, ← show String.singleton '?' = "?" from rfl,
    ← split_head_iff hdb]
  cases hs : (split segment '?').head? with
  | none =>
      have hne : split segment '?' ≠ [] := by
        rw [split, Ne, List.map_eq_nil_iff]
        exact List.splitOn_ne_nil _ _
      exact absurd (List.head?_eq_none_iff.mp hs) hne
  | some name => rw [Option.getD_some, Option.some.injEq]

theorem databaseName_of_slash {q : String} (hq : '/' ∈ q.toList) (hdb : '?' ∉ db.toList) :
    databaseName (front ++ "?" ++ q) = db ↔ DatabaseUrl.QueryHarmless db q := by
  constructor
  · intro h
    obtain ⟨path, rest, hlast, hrest⟩ := exists_last hq
    have hq' : q = path ++ "/" ++ rest := hlast
    refine .inr ⟨path, rest, hq', hrest, ?_⟩
    have htext : front ++ "?" ++ q = (front ++ "?" ++ path) ++ "/" ++ rest := by
      rw [hq', ← String.append_assoc, ← String.append_assoc]
    rw [htext] at h
    exact (databaseName_eq_iff hrest hdb).mp h
  · rintro (h | ⟨path, rest, rfl, hrest, hname⟩)
    · exact absurd hq h
    · have htext : front ++ "?" ++ (path ++ "/" ++ rest) =
          (front ++ "?" ++ path) ++ "/" ++ rest := by
        rw [← String.append_assoc, ← String.append_assoc]
      rw [htext]
      exact (databaseName_eq_iff hrest hdb).mpr hname

end Name

namespace DatabaseUrl

theorem databaseName_text (url : DatabaseUrl) :
    databaseName url.text = url.db ↔ url.Plain := by
  obtain ⟨scheme, authority, db, query, -, hslash, hmark⟩ := url
  show databaseName (scheme ++ "://" ++ authority ++ "/" ++ db ++ queryText query) = db ↔
    ∀ q, query = some q → QueryHarmless db q
  cases query with
  | none =>
      rw [queryText, String.append_empty]
      refine ⟨fun _ q hq => (by cases hq), fun _ => ?_⟩
      exact (databaseName_eq_iff hslash hmark).mpr (.inl rfl)
  | some q =>
      simp only [Option.some.injEq, forall_eq', queryText, ← String.append_assoc]
      by_cases hq : '/' ∈ q.toList
      · exact databaseName_of_slash hq hmark
      · have hsegment : '/' ∉ (db ++ "?" ++ q).toList := by
          simp [String.toList_append, hslash, hq]
        refine ⟨fun _ => .inl hq, fun _ => ?_⟩
        have htext : scheme ++ "://" ++ authority ++ "/" ++ db ++ "?" ++ q =
            scheme ++ "://" ++ authority ++ "/" ++ (db ++ "?" ++ q) := by
          simp only [String.append_assoc]
        rw [htext]
        exact (databaseName_eq_iff hsegment hmark).mpr (.inr ⟨q, rfl⟩)

end DatabaseUrl

namespace Config

variable {config : Config} {var : String} {url : DatabaseUrl}

/-- The guard keeps its promise about a URL exactly where the query does not hide
the name. -/
theorem guards_iff (hmem : (var, some url.text) ∈ config.databaseUrls) :
    config.Guards var url ↔ url.Plain := by
  rw [← url.databaseName_text]
  refine ⟨fun h => h.sees, fun hname => ⟨hname, fun hdb => ?_, fun hdb h => ?_⟩⟩
  · exact validate_refuses hmem (hname.trans hdb)
  · exact hdb (hname.symm.trans (validate_shared hmem h))

/-- A runtime URL with a plain query, and the shared database as its own. -/
theorem guards_iff_sslmode :
    let url : DatabaseUrl := ⟨"postgresql", "user:pw@localhost:7001", "gridtokenx",
      some "sslmode=disable", by decide, by decide⟩
    let config : Config := ⟨some url.text, none, .simulated, 86400, 3600⟩
    config.Guards databaseUrlVar url :=
  (guards_iff (List.mem_cons_self)).mpr fun _ h => by
    obtain rfl := Option.some.inj h
    exact .inl (by decide)

/-- A migration alias into the shared database, with a certificate in its query,
passes. -/
theorem unguarded_certificate :
    let url : DatabaseUrl := ⟨"postgres", "pgdog:6432", "gridtokenx",
      some "sslrootcert=/etc/ssl/ca.pem", by decide, by decide⟩
    let config : Config :=
      ⟨some "postgres://pgdog:6432/gridtokenx_thbc", some url.text, .chainBridge, 86400, 3600⟩
    databaseName url.text = "ca.pem" ∧ config.validate = .ok () ∧
      ¬ config.Guards migrationDatabaseUrlVar url := by
  have hname : databaseName "postgres://pgdog:6432/gridtokenx?sslrootcert=/etc/ssl/ca.pem" =
      "ca.pem" := by decide
  have hvalid : validate ⟨some "postgres://pgdog:6432/gridtokenx_thbc",
      some "postgres://pgdog:6432/gridtokenx?sslrootcert=/etc/ssl/ca.pem", .chainBridge,
      86400, 3600⟩ = .ok () := by decide
  refine ⟨hname, hvalid, fun h => ?_⟩
  obtain ⟨e, he⟩ := h.rejects rfl
  cases hvalid.symm.trans he

end Config

end Thbc
