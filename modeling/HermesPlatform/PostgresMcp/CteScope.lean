/-
  HermesPlatform.PostgresMcp.CteScope

  Scope completeness of the SQL analysis: are all the relations a query reads
  as physical tables in the list that the scope check goes through?

  `lexicalReads` is the reference: the relations of the parsed query that no
  visible `WITH` name binds.  The code drops an unqualified reference whenever
  its name is bound by some `WITH` clause of the query, wherever that clause
  stands.  So a reference outside the scope of the clause that is written like
  one of its names is lost, and `analyzeReadQuery_complete_iff` says that
  nothing else is.
-/

import HermesPlatform.PostgresMcp.SqlPolicy

namespace HermesPlatform
namespace PostgresMcp

open Python QueryTree

/-! ## Reference semantics -/

/-- The reference is written as the name `n`. -/
def rangeVarSees (n : String) (r : RangeVar) : Bool :=
  (truthy r.schemaname).isNone && r.relname == n

/-- The reference has no qualification and names the CTE `n` under the
    dialect's comparison of identifiers. -/
def tableSees (sameName : Ident → Ident → Bool) (n : Ident) (t : TableExpr) : Bool :=
  (partText t.catalog).isNone && (partText t.db).isNone &&
    match t.this with
    | some i => sameName n i
    | none => false

/-- The relations a pglast tree reads as physical tables. -/
def pgReads (root : PgTree) : List Relation :=
  (physical rangeVarSees [] root).map RangeVar.relation

/-- The relations a sqlglot tree reads as physical tables; a table function
    has no name and is not one of them. -/
def genericReads (sameName : Ident → Ident → Bool) (root : GenericTree) : List Relation :=
  ((physical (tableSees sameName) [] root).filter fun t => (partText t.this).isSome).map
    TableExpr.relation

section Reads

variable (P : Parsers) (sameName : Ident → Ident → Bool) (sql databaseType : String)

/-- The relations the query reads as physical tables under lexical scoping. -/
def lexicalReads : List Relation :=
  if databaseType = "postgresql" then
    match P.parseSql (String.ofList (trimStatement sql)) with
    | some [root] => pgReads root
    | _ => []
  else match genericDialects.lookup databaseType with
    | none => []
    | some dialect =>
        match P.parse (String.ofList (trimStatement sql)) dialect with
        | some [some root] => genericReads sameName root
        | _ => []

/-- The names bound by the `WITH` clauses of the query, wherever they stand. -/
def withNames : List String :=
  if databaseType = "postgresql" then
    match P.parseSql (String.ofList (trimStatement sql)) with
    | some [root] => QueryTree.cteNames (walk root)
    | _ => []
  else match genericDialects.lookup databaseType with
    | none => []
    | some dialect =>
        match P.parse (String.ofList (trimStatement sql)) dialect with
        | some [some root] => genericCteNames (walk root)
        | _ => []

end Reads

/-! ## Completeness up to the names of `WITH` clauses -/

/-- A list of recorded relations that drops exactly the unqualified ones named
    in `names` is complete for `reads` iff no unqualified read is so named. -/
theorem complete_iff_of_recorded {reads recorded : List Relation} {names : List String}
    (hkept : ∀ p ∈ reads, (p.1 = none → p.2 ∉ names) → p ∈ recorded)
    (hdropped : ∀ p ∈ recorded, p.1 = none → p.2 ∉ names) :
    (∀ p ∈ reads, p ∈ recorded) ↔ ∀ p ∈ reads, p.1 = none → p.2 ∉ names := by
  refine ⟨?_, ?_⟩
  · intro hall p hp hnone
    exact hdropped p (hall p hp) hnone
  · intro hfree p hp
    exact hkept p hp (hfree p hp)

theorem namesCte_eq_false {names : List String} {r : RangeVar} :
    r.namesCte names = false ↔ (r.relation.1 = none → r.relation.2 ∉ names) := by
  unfold RangeVar.namesCte RangeVar.relation
  cases truthy r.schemaname <;> simp

theorem skipped_eq_false {names : List String} {t : TableExpr} :
    t.skipped names = false ↔
      (partText t.this).isSome = true ∧ (t.relation.1 = none → t.relation.2 ∉ names) := by
  unfold TableExpr.skipped TableExpr.relation
  cases partText t.this <;> cases partText t.db <;> simp

/-- `analyze_select` is complete iff no physical reference is unqualified and
    named by some `WITH` clause. -/
theorem pgReads_complete_iff {root : PgTree} {relations : List Relation}
    (h : ∀ p, p ∈ relations ↔ Recorded (QueryTree.cteNames (walk root)) (walk root) p) :
    (∀ p ∈ pgReads root, p ∈ relations) ↔
      ∀ p ∈ pgReads root, p.1 = none → p.2 ∉ QueryTree.cteNames (walk root) := by
  apply complete_iff_of_recorded
  · intro p hp hfree
    obtain ⟨r, hr, rfl⟩ := List.mem_map.mp hp
    -- A physical reference occurs in the walk, so the loop has seen it.
    have hwalk : .table r ∈ walk root := mem_walk_of_mem_physical rangeVarSees root [] hr
    exact (h _).mpr ⟨r, hwalk, namesCte_eq_false.mpr hfree, rfl⟩
  · intro p hp
    obtain ⟨r, -, hn, rfl⟩ := (h p).mp hp
    exact namesCte_eq_false.mp hn

theorem genericReads_complete_iff {sameName : Ident → Ident → Bool} {root : GenericTree}
    {relations : List Relation}
    (h : ∀ p, p ∈ relations ↔ ∃ t, .table t ∈ walk root ∧
      t.skipped (genericCteNames (walk root)) = false ∧ t.relation = p) :
    (∀ p ∈ genericReads sameName root, p ∈ relations) ↔
      ∀ p ∈ genericReads sameName root, p.1 = none → p.2 ∉ genericCteNames (walk root) := by
  apply complete_iff_of_recorded
  · intro p hp hfree
    obtain ⟨t, ht, rfl⟩ := List.mem_map.mp hp
    obtain ⟨hphys, hnamed⟩ := List.mem_filter.mp ht
    have hwalk : .table t ∈ walk root :=
      mem_walk_of_mem_physical (tableSees sameName) root [] hphys
    exact (h _).mpr ⟨t, hwalk, skipped_eq_false.mpr ⟨hnamed, hfree⟩, rfl⟩
  · intro p hp
    obtain ⟨t, -, hn, rfl⟩ := (h p).mp hp
    exact (skipped_eq_false.mp hn).2

/-- **Scope completeness.** For an accepted query, every relation it reads as
    a physical table is in the returned relations iff none of these reads is
    unqualified and written like a name that some `WITH` clause of the query
    binds.  `sameName` is the dialect's comparison of a reference with the
    name of a CTE. -/
theorem analyzeReadQuery_complete_iff (lower : String → String) (P : Parsers)
    (sameName : Ident → Ident → Bool) (sql databaseType : String) (a : QueryAnalysis)
    (h : analyzeReadQuery lower P sql databaseType = .ok a) :
    (∀ p ∈ lexicalReads P sameName sql databaseType, p ∈ a.relations) ↔
      ∀ p ∈ lexicalReads P sameName sql databaseType,
        p.1 = none → p.2 ∉ withNames P sql databaseType := by
  by_cases hdb : databaseType = "postgresql"
  · -- PostgreSQL goes through `analyze_select`, every other type through sqlglot.
    rw [analyzeReadQuery, if_pos hdb] at h
    obtain ⟨root, hparse, hrelations, -⟩ := analyzeSelect_ok lower h
    have hreads : lexicalReads P sameName sql databaseType = pgReads root := by
      simp only [lexicalReads, if_pos hdb, hparse]
    have hnames : withNames P sql databaseType = QueryTree.cteNames (walk root) := by
      simp only [withNames, if_pos hdb, hparse]
    rw [hreads, hnames]
    exact pgReads_complete_iff hrelations
  · obtain ⟨dialect, root, hdialect, hparse, hrelations⟩ := analyzeReadQuery_ok lower hdb h
    have hreads : lexicalReads P sameName sql databaseType = genericReads sameName root := by
      simp only [lexicalReads, if_neg hdb, hdialect, hparse]
    have hnames : withNames P sql databaseType = genericCteNames (walk root) := by
      simp only [withNames, if_neg hdb, hdialect, hparse]
    rw [hreads, hnames]
    exact genericReads_complete_iff hrelations

/-! ## Two queries -/

/-- Parsers that know one PostgreSQL text. -/
def parserOf (text : String) (root : PgTree) : Parsers where
  parseSql sql := if sql = text then some [root] else none
  parse _ _ := none

/-- `SELECT * FROM refs`, under the `WITH` clause `ctes`. -/
def selectFrom (ctes : List (String × PgTree)) (refs : List PgTree) : PgTree :=
  .query (.selectStmt false false) false ctes
    (.node (.other "ResTarget") [.node (.other "ColumnRef") [.node (.other "A_Star") []]] :: refs)

/-- `schemaname.relname` in a `FROM` list. -/
def rangeVar (schemaname : Option String) (relname : String) : PgTree :=
  .table ⟨schemaname, relname⟩ []

/-- A subquery in a `FROM` list. -/
def rangeSubselect (query : PgTree) : PgTree :=
  .node (.other "RangeSubselect") [query, .node (.other "Alias") []]

def nestedText : String :=
  "SELECT * FROM (WITH subset AS (SELECT * FROM reporting.items) SELECT * FROM subset) AS nested"

def nestedRoot : PgTree :=
  selectFrom []
    [rangeSubselect
      (selectFrom [("subset", selectFrom [] [rangeVar (some "reporting") "items"])]
        [rangeVar none "subset"])]

/-- The query of the test suite: the nested name is used only in its scope, and
    the analysis is complete. -/
theorem analyzeReadQuery_complete_nested :
    ∃ a, analyzeReadQuery asciiLower (parserOf nestedText nestedRoot) nestedText "postgresql"
        = .ok a ∧
      ∀ p ∈ lexicalReads (parserOf nestedText nestedRoot) (· == ·) nestedText "postgresql",
        p ∈ a.relations :=
  ⟨_, rfl, (analyzeReadQuery_complete_iff asciiLower (parserOf nestedText nestedRoot) (· == ·)
    nestedText "postgresql" _ rfl).mpr (by decide)⟩

def shadowText : String :=
  "SELECT * FROM secrets, (WITH secrets AS (SELECT * FROM reporting.items) SELECT * FROM secrets) AS nested"

def shadowRoot : PgTree :=
  selectFrom []
    -- This reference stands outside the `WITH` clause that binds its name.
    [rangeVar none "secrets",
     rangeSubselect
      (selectFrom [("secrets", selectFrom [] [rangeVar (some "reporting") "items"])]
        [rangeVar none "secrets"])]

/-- The outer `secrets` is a physical table, and the analysis does not hold it. -/
theorem analyzeReadQuery_drops_outer_table :
    ∃ a, analyzeReadQuery asciiLower (parserOf shadowText shadowRoot) shadowText "postgresql"
        = .ok a ∧
      (none, "secrets") ∈
        lexicalReads (parserOf shadowText shadowRoot) (· == ·) shadowText "postgresql" ∧
      (none, "secrets") ∉ a.relations :=
  ⟨_, rfl, by decide, by decide⟩

end PostgresMcp
end HermesPlatform
