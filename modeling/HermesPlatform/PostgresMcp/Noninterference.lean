/-
  HermesPlatform.PostgresMcp.Noninterference

  Two runs of an accepted PostgreSQL query, in database states that agree on the
  rows of the scope.

  A `PgEngine` gives the denotation of a query over the resolution of names and
  overloads.  An `IMMUTABLE` function of `pg_catalog` gets its arguments and
  nothing else.  A `STABLE` one reads besides what it is made to read: the
  relations its argument values name, as `table_to_xml` and its relatives do, and
  the state of the server, as `pg_current_snapshot` and the functions of the
  statistics do.  The check looks at the names and the volatility of functions
  only, so `results_depend_on_scope` needs to know that the query's calls of
  `STABLE` functions read no relation outside the scope and nothing of the server.
-/

import HermesPlatform.Lib.QueryDenotation
import HermesPlatform.PostgresMcp.Functions

namespace HermesPlatform
namespace PostgresMcp

open Python QueryTree Overload

/-! ## Execution -/

/-- PostgreSQL's evaluation of the nodes of a query.  `σ` is a database state
    with fixed catalogs, settings and clock, `R` the rows of a relation, `A` what
    the server knows besides its relations (sessions, transactions, locks,
    statistics), `D` the denotation of a node. -/
structure PgEngine (σ R A D : Type) where
  rows : σ → String × String → R
  server : σ → A
  scan : R → List D → D
  unknownRelation : RangeVar → D
  immutable : PgProc → List D → D
  /-- The relations a `STABLE` function reads because its arguments name them. -/
  named : PgProc → List D → String × String → Prop
  /-- The function reads the state of the server. -/
  readsServer : PgProc → List D → Prop
  stable : (p : PgProc) → (args : List D) → (∀ o, named p args o → R) →
    (readsServer p args → A) → D
  /-- Volatile functions, and those of other schemas. -/
  other : σ → PgProc → List D → D
  unknownFunction : PgCall → D
  node : PgNode → List D → D
  query : PgNode → List D → D
  fix : (n : Nat) → ((Fin n → D) → Fin n → D) → Fin n → D

/-- The value of a function in state `s`. -/
def PgEngine.apply {σ R A D : Type} (E : PgEngine σ R A D) (s : σ) (p : PgProc)
    (args : List D) : D :=
  if p.nspname = "pg_catalog" then
    match p.provolatile with
    | .immutable => E.immutable p args
    | .stable => E.stable p args (fun o _ => E.rows s o) fun _ => E.server s
    | .volatile => E.other s p args
  else E.other s p args

/-- What the names of a query mean: the relations and functions of the
    database, under a search path. -/
structure NameContext where
  relations : List (String × String)
  catalog : PgCatalog
  path : List String

section Execution

variable {σ R A D : Type} (E : PgEngine σ R A D) (N : NameContext)

/-- The interpretation of the nodes of a query. -/
def PgEngine.algebra : Algebra σ RangeVar PgCall PgNode D where
  table s r args :=
    match resolveRelation N.relations N.path r.relation with
    | some o => E.scan (E.rows s o) args
    | none => E.unknownRelation r
  call s c args :=
    match invokes N.catalog N.path c with
    | some p => E.apply s p args
    | none => E.unknownFunction c
  node := E.node
  query := E.query
  fix := E.fix

/-- The statement `_execute` sends:
    `SELECT * FROM (root) AS hermes_scoped_query LIMIT maximum + 1`. -/
def scopedQuery (maximum : Nat) (root : PgTree) : PgTree :=
  .query (.selectStmt false false) false []
    [.node (.other "ResTarget") [.node (.other "ColumnRef") [.node (.other "A_Star") []]],
     rangeSubselect root,
     .node (.aConst (toString (maximum + 1))) []]

/-- The rows `_execute` fetches in state `s`. -/
def execute (maximum : Nat) (root : PgTree) (s : σ) : D :=
  eval rangeVarSees (E.algebra N) s [] (scopedQuery maximum root)

/-- An invocation reads relations of the scope only, and nothing of the server.
    The check knows of a function call that it is not volatile; of an operator and
    of functional notation it knows nothing. -/
def ReadsScope (schemas : Dict String SchemaScope) (c : PgCall) (args : List D) : Prop :=
  ∀ p, invokes N.catalog N.path c = some p →
    (p.provolatile = .stable →
      (∀ o, E.named p args o → ListsObject schemas o) ∧ ¬ E.readsServer p args) ∧
    (match c with
      | .funcCall _ _ _ => True
      | .operator _ _ => p.provolatile ≠ .volatile
      | .fieldCall _ _ => p.provolatile ≠ .volatile)

/-- Every invocation of the query does, at the arguments it is evaluated with in
    state `s`. -/
def CallsReadScope (schemas : Dict String SchemaScope) (s : σ) (root : PgTree) : Prop :=
  CallsHold rangeVarSees (E.algebra N) (ReadsScope E N schemas) s [] root

end Execution

/-! ## Agreement on the references and on the calls -/

section Agreement

variable {σ R A D : Type} {E : PgEngine σ R A D} {N : NameContext}
  {schemas : Dict String SchemaScope} {s s' : σ}

/-- A qualified reference to an object of the scope means the same in both
    states. -/
theorem table_agrees {r : RangeVar} {schema : String} (hr : r.relation = (some schema, r.relname))
    (hlisted : ListsObject schemas (schema, r.relname))
    (hagree : ∀ m, ListsObject schemas m → E.rows s m = E.rows s' m) :
    (E.algebra N).table s r = (E.algebra N).table s' r := by
  funext args
  simp only [PgEngine.algebra, hr, resolveRelation]
  split
  · rename_i o ho
    -- A qualified name is looked up in its schema only.
    split at ho
    · cases ho
      rw [hagree _ hlisted]
    · cases ho
  · rfl

/-- A function of `pg_catalog` that is not volatile has the same value in two states
    with the same rows of the relations it reads, if it reads nothing of the server. -/
theorem apply_congr {p : PgProc} {args : List D} (hschema : p.nspname = "pg_catalog")
    (hvolatile : p.provolatile ≠ .volatile)
    (hreads : p.provolatile = .stable →
      (∀ o, E.named p args o → E.rows s o = E.rows s' o) ∧ ¬ E.readsServer p args) :
    E.apply s p args = E.apply s' p args := by
  rw [PgEngine.apply, PgEngine.apply, if_pos hschema, if_pos hschema]
  cases hv : p.provolatile with
  | volatile => exact absurd hv hvolatile
  | immutable => rfl
  | stable =>
      obtain ⟨hrows, hserver⟩ := hreads hv
      have hview : (fun o (_ : E.named p args o) => E.rows s o) = fun o _ => E.rows s' o :=
        funext fun o => funext (hrows o)
      have hstate : (fun _ : E.readsServer p args => E.server s) = fun _ => E.server s' :=
        funext fun h => absurd h hserver
      simp only [hview, hstate]

theorem call_agrees {c : PgCall} {args : List D}
    (hfun : ∀ p, invokes N.catalog N.path c = some p →
      p.nspname = "pg_catalog" ∧ p.provolatile ≠ .volatile ∧ (p.provolatile = .stable →
        (∀ o, E.named p args o → ListsObject schemas o) ∧ ¬ E.readsServer p args))
    (hagree : ∀ m, ListsObject schemas m → E.rows s m = E.rows s' m) :
    CallAgrees (E.algebra N) s s' c args := by
  simp only [CallAgrees, PgEngine.algebra]
  cases hinv : invokes N.catalog N.path c with
  | none => rfl
  | some p =>
      obtain ⟨hschema, hvolatile, hreads⟩ := hfun p hinv
      refine apply_congr hschema hvolatile fun hstable => ?_
      obtain ⟨hnamed, hserver⟩ := hreads hstable
      exact ⟨fun o ho => hagree o (hnamed o ho), hserver⟩

/-- The wrapper adds neither references nor calls. -/
theorem execute_congr {maximum : Nat} {root : PgTree}
    (htable : ∀ r ∈ physical rangeVarSees [] root,
      (E.algebra N).table s r = (E.algebra N).table s' r)
    (hcall : CallsHold rangeVarSees (E.algebra N) (CallAgrees (E.algebra N) s s') s [] root) :
    execute E N maximum root s = execute E N maximum root s' := by
  apply eval_congr
  · simpa [scopedQuery, rangeSubselect, physical, physicalList, physicalCtes] using htable
  · simpa [scopedQuery, rangeSubselect, CallsHold, CallsHoldList, CallsHoldCtes, evalCtes]
      using hcall

end Agreement

/-- `table_to_xml` as shipped. -/
def tableToXml : PgProc :=
  ⟨"pg_catalog", "table_to_xml", ["regclass", "boolean", "boolean", "text"], .stable, false⟩

/-- `pg_current_snapshot` as shipped. -/
def currentSnapshot : PgProc := ⟨"pg_catalog", "pg_current_snapshot", [], .stable, false⟩

def shippedCatalog : PgCatalog := ⟨[lowerText, tableToXml, currentSnapshot], [], .exact, .exact⟩

/-- The relations of the example database. -/
def exampleRelations : List (String × String) := [("public", "items"), ("secret", "users")]

/-- A value; a document of `table_to_xml` has an element for each row, with one for
    its column. -/
inductive SqlValue where
  | null
  | text (value : String)
  | document (root : String) (rows : List (String × String))
deriving DecidableEq, Repr

/-- What a node is: an expression over the column of the current row, the star, a
    table of one column, or a node that the example has no use for. -/
inductive Denotation where
  | expression (value : SqlValue → SqlValue)
  | star
  | table (rows : List SqlValue)
  | other

/-- The users, and the identifier of the transaction that is next. -/
structure ExampleState where
  users : List String
  nextXid : String

/-- `LIMIT`, of a number in decimal digits. -/
def limitRows (limit : SqlValue) (rows : List SqlValue) : List SqlValue :=
  match limit with
  | .text digits => rows.take (digits.toList.foldl (fun n c => 10 * n + (c.toNat - 48)) 0)
  | _ => rows

/-- `SELECT target FROM table`, also with a `LIMIT`. -/
def selectRows : List Denotation → Denotation
  | [.star, .table rows] => .table rows
  | [.expression value, .table rows] => .table (rows.map value)
  | [.star, .table rows, .expression limit] => .table (limitRows (limit .null) rows)
  | [.expression value, .table rows, .expression limit] =>
      .table (limitRows (limit .null) (rows.map value))
  | _ => .other

def lowerValue : SqlValue → SqlValue
  | .text value => .text (asciiLower value)
  | _ => .null

/-- The relation that the first argument names for a row. -/
def namedBy (args : List Denotation) (row : SqlValue) : Option (String × String) :=
  match args with
  | .expression value :: _ =>
      exampleRelations.find? fun o => value row = .text (o.1 ++ "." ++ o.2)
  | _ => none

/-- The rows of a relation of one column `name` as a document. -/
def documentOf (root : String) (rows : List String) : SqlValue :=
  .document root (rows.map fun value => ("name", value))

/-- PostgreSQL for queries of one table with one column: `lower`, `table_to_xml` of the
    relation that its argument names, and `pg_current_snapshot`. -/
def exampleEngine : PgEngine ExampleState (List String) String Denotation where
  rows s o := if o = ("secret", "users") then s.users else ["Pen", "Ink"]
  server s := s.nextXid
  scan rows _ := .table (rows.map .text)
  unknownRelation _ := .other
  immutable p args :=
    match args with
    | [.expression value] =>
        if p = lowerText then .expression fun row => lowerValue (value row) else .other
    | _ => .other
  named p args o := p = tableToXml ∧ ∃ row, namedBy args row = some o
  readsServer p _ := p = currentSnapshot
  stable p args view server :=
    if hxml : p = tableToXml then
      .expression fun row =>
        match hnamed : namedBy args row with
        | some o => documentOf o.2 (view o ⟨hxml, row, hnamed⟩)
        | none => .null
    else if hsnapshot : p = currentSnapshot then .expression fun _ => .text (server hsnapshot)
    else .other
  other _ _ _ := .other
  unknownFunction _ := .other
  node
    | .aConst text, _ => .expression fun _ => .text text
    | .other "A_Star", _ => .star
    | .other "ColumnRef", [] => .expression id
    | .other _, child :: _ => child
    | _, _ => .other
  query _ parts := selectRows parts
  fix _ _ _ := .other

/-- The names of the example database under the pinned search path. -/
def exampleNames : NameContext :=
  ⟨exampleRelations, shippedCatalog, ["pg_catalog", "public", "reporting"]⟩

/-- The scope does not list the users. -/
theorem exampleEngine_agrees {schemas : Dict String SchemaScope}
    (hscope : reportingScope.schemas = some schemas) (s s' : ExampleState) (m : String × String)
    (hm : ListsObject schemas m) : exampleEngine.rows s m = exampleEngine.rows s' m := by
  cases hscope
  have hne : m ≠ ("secret", "users") := by
    rintro rfl
    revert hm
    decide
  simp only [exampleEngine, if_neg hne]

def xmlText : String :=
  "SELECT table_to_xml('secret.users', true, false, '') FROM public.items"

def xmlRoot : PgTree :=
  .query (.selectStmt false false) false []
    [.node (.other "ResTarget")
      [.call (.funcCall ["table_to_xml"] false ["regclass", "boolean", "boolean", "text"])
        [.node (.aConst "secret.users") [], .node (.aConst "true") [],
         .node (.aConst "false") [], .node (.aConst "") []]],
     rangeVar (some "public") "items"]

end PostgresMcp
end HermesPlatform
