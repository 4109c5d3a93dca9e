/-
  HermesPlatform.PostgresMcp.SqlPolicy

  `hermes_postgres_mcp.sql_policy`: the read-only analysis of a query before it
  is checked against the scope.

  The two parsers (pglast for PostgreSQL, sqlglot for the other dialects) are a
  parameter that maps a text to its syntax trees.  A tree keeps what the policy
  or PostgreSQL's name resolution reads of a node; every other node is `other`
  (pglast) or a bare class name (sqlglot).  `str.lower` is a parameter.

  The analysis collects the names of all `WITH` clauses in one pass over the
  whole tree and then drops every unqualified reference written as one of
  them.  `lexicalReads` is the reference semantics it is compared with: the
  relations the query reads as physical tables when a name is visible only
  where its `WITH` clause puts it.
-/

import HermesPlatform.Lib.Python
import HermesPlatform.Lib.QueryTree
import Mathlib.Data.List.Sort
import Mathlib.Data.String.Basic

namespace HermesPlatform
namespace PostgresMcp

open Python QueryTree

/-- `SQLPolicyError`; the constructor argument of the exception. -/
structure SQLPolicyError where
  message : String
deriving DecidableEq, Repr

/-- `SQLPolicyError.__str__`. -/
def SQLPolicyError.str (e : SQLPolicyError) : String :=
  "HERMES_CAPABILITY_ERROR[INVALID_ARGUMENT]: " ++ e.message

def aggregateFunctions : List String :=
  ["array_agg", "avg", "bit_and", "bit_or", "bool_and", "bool_or", "count",
   "every", "json_agg", "json_object_agg", "max", "min", "string_agg", "sum",
   "xmlagg", "jsonb_agg", "jsonb_object_agg"]

def genericDialects : List (String × String) :=
  [("mysql", "mysql"), ("mariadb", "mysql"), ("doris", "mysql"), ("starrocks", "mysql"),
   ("sqlserver", "tsql"), ("oracle", "oracle"), ("dm", "oracle"),
   ("clickhouse", "clickhouse"), ("elasticsearch", "mysql"), ("sqlite", "sqlite")]

def dangerousFunctions : List String :=
  ["benchmark", "dblink", "eval", "load_file", "pg_read_binary_file",
   "pg_read_file", "pg_ls_dir", "sleep", "sys_eval", "sys_exec",
   "utl_file", "xp_cmdshell"]

/-- Class names of `DISALLOWED_NODES`. -/
def disallowedNodes : List String :=
  ["InsertStmt", "UpdateStmt", "DeleteStmt", "MergeStmt", "CopyStmt",
   "CallStmt", "TransactionStmt", "CreateStmt", "AlterTableStmt",
   "DropStmt", "TruncateStmt", "DoStmt", "VacuumStmt", "VariableSetStmt",
   "GrantStmt", "GrantRoleStmt", "CreateFunctionStmt"]

/-- Class names of `forbidden` in `analyze_read_query`. -/
def forbiddenNodes : List String :=
  ["Insert", "Update", "Delete", "Merge", "Create", "Drop", "Alter",
   "Command", "Transaction", "Commit", "Rollback", "Grant", "Revoke",
   "Copy", "Execute"]

/-- `(schema or None, name)`, as `QueryAnalysis.relations` holds it. -/
abbrev Relation := Option String × String

structure QueryAnalysis where
  sql : String
  relations : List Relation
  functions : List (List String)
  usesAggregate : Bool
deriving DecidableEq, Repr

/-! ## Syntax trees -/

/-- `ast.RangeVar`. -/
structure RangeVar where
  schemaname : Option String
  relname : String
deriving DecidableEq, Repr

/-- A pglast node that makes PostgreSQL invoke a function.  `argTypes` is what
    PostgreSQL's parse analysis assigns to the arguments; the policy does not
    see it. -/
inductive PgCall where
  /-- `ast.FuncCall`; `over` tells whether it has a window clause. -/
  | funcCall (funcname : List String) (over_ : Bool) (argTypes : List String)
  /-- An operator written in an `A_Expr`, a `SubLink` or a `SortBy`. -/
  | operator (name : List String) (argTypes : List String)
  /-- A field selection that parse analysis reads as a function of the row
      (functional notation). -/
  | fieldCall (field : String) (argType : String)
deriving DecidableEq, Repr

/-- Every other pglast node. -/
inductive PgNode where
  | selectStmt (intoClause lockingClause : Bool)
  | aConst (sval : String)
  | other (cls : String)
deriving DecidableEq, Repr

/-- A pglast tree; `query` nodes are the statements that can carry a `WITH`
    clause, a `SelectStmt` always being one. -/
abbrev PgTree := Tree String RangeVar PgCall PgNode

/-- `exp.Identifier`: its text and whether it was quoted. -/
structure Ident where
  text : String
  quoted : Bool
deriving DecidableEq, Repr

/-- `exp.Table` with its parts as written; a table function has no name. -/
structure TableExpr where
  catalog : Option Ident
  db : Option Ident
  this : Option Ident
deriving DecidableEq, Repr

/-- `exp.Func`: `sql_name()`, `name`, and whether it is an `exp.AggFunc`. -/
structure FuncExpr where
  sqlName : String
  name : String
  aggregate : Bool
deriving DecidableEq, Repr

/-- A sqlglot tree; `query` nodes are the instances of `exp.Query`, and any
    other node is known by its class name. -/
abbrev GenericTree := Tree Ident TableExpr FuncExpr String

/-- The parsers: `pglast.parse_sql` and `sqlglot.parse(sql, read=dialect)`;
    `none` is a raised exception. -/
structure Parsers where
  parseSql : String → Option (List PgTree)
  parse : String → String → Option (List (Option GenericTree))

/-- `(str(node.schemaname) if node.schemaname else None, relation)`. -/
def RangeVar.relation (r : RangeVar) : Relation := (truthy r.schemaname, r.relname)

/-- `not node.schemaname and relation in cte_names`. -/
def RangeVar.namesCte (cteNames : List String) (r : RangeVar) : Bool :=
  (truthy r.schemaname).isNone && cteNames.contains r.relname

/-- `str(part)` of an optional identifier, `None` when it is empty. -/
def partText (part : Option Ident) : Option String :=
  truthy (part.map Ident.text)

/-- `(schema, name)` of `analyze_read_query`. -/
def TableExpr.relation (t : TableExpr) : Relation :=
  (partText t.db, (partText t.this).getD "")

/-- `not name or (not table.db and name in cte_names)`. -/
def TableExpr.skipped (cteNames : List String) (t : TableExpr) : Bool :=
  (partText t.this).isNone || ((partText t.db).isNone && cteNames.contains t.relation.2)

/-! ## Result order -/

/-- Order of `sorted(relations, key=lambda item: ((item[0] or ""), item[1]))`. -/
def relationLe (a b : Relation) : Prop :=
  a.1.getD "" < b.1.getD "" ∨ (a.1.getD "" = b.1.getD "" ∧ a.2 ≤ b.2)

instance : DecidableRel relationLe := fun _ _ =>
  inferInstanceAs (Decidable (_ ∨ (_ ∧ _)))

/-- Order of Python's tuples of strings. -/
def nameLe : List String → List String → Bool
  | [], _ => true
  | _ :: _, [] => false
  | a :: as, b :: bs => decide (a < b) || (decide (a = b) && nameLe as bs)

def sortRelations (l : List Relation) : List Relation := l.insertionSort relationLe

def sortFunctions (l : List (List String)) : List (List String) :=
  l.insertionSort fun a b => nameLe a b = true

/-! ## `analyze_select` -/

section Policy

variable (lower : String → String)

/-- `sql.strip()` without one trailing semicolon. -/
def trimStatement (sql : String) : List Char :=
  let normalized := stripChars sql.toList
  if normalized.getLast? = some ';' then rstripChars normalized.dropLast else normalized

/-- The accumulators of the loop over `nodes`. -/
structure Scan where
  relations : List Relation
  functions : List (List String)
  usesAggregate : Bool

/-- Body of the loop over `nodes` in `analyze_select`. -/
def scanNode (cteNames : List String) (acc : Scan) :
    Item String RangeVar PgCall PgNode → Except SQLPolicyError Scan
  | .node (.other cls) =>
      if disallowedNodes.contains cls then .error ⟨"查询包含写操作或管理语句"⟩ else .ok acc
  | .node (.selectStmt into locking) =>
      if into || locking then .error ⟨"查询包含 SELECT INTO 或锁定语句"⟩ else .ok acc
  | .table r =>
      if r.relname = "" then .error ⟨"查询对象名称无效"⟩
      -- A CTE reference is an in-query relation, not a database object.
      else if r.namesCte cteNames then .ok acc
      else .ok { acc with relations := setAdd acc.relations r.relation }
  | .call (.funcCall name over_ _) =>
      if name = [] ∨ name.contains "" then .error ⟨"函数名称无效"⟩
      else .ok { acc with
        functions := setAdd acc.functions name
        usesAggregate := acc.usesAggregate ||
          aggregateFunctions.contains (lower (name.getLastD "")) || over_ }
  | _ => .ok acc

/-- The two flags of a root `SelectStmt`. -/
def selectRoot : PgTree → Option (Bool × Bool)
  | .query (.selectStmt into locking) _ _ _ => some (into, locking)
  | _ => none

def analyzeSelect (P : Parsers) (sql : String) : Except SQLPolicyError QueryAnalysis :=
  let normalized := trimStatement sql
  if normalized = [] ∨ ';' ∈ normalized then .error ⟨"只允许一条 SELECT 语句"⟩
  else match P.parseSql (String.ofList normalized) with
    | none => .error ⟨"SQL 语法无效"⟩
    | some [root] =>
        match selectRoot root with
        | none => .error ⟨"只允许 SELECT 查询"⟩
        | some (into, locking) =>
            if into then .error ⟨"禁止 SELECT INTO"⟩
            else if locking then .error ⟨"禁止锁定查询"⟩
            else
              -- One set of names for the whole tree, whatever the scope of each clause.
              let nodes := walk root
              foldEach (scanNode lower (QueryTree.cteNames nodes)) ⟨[], [], false⟩ nodes >>=
                fun scan => .ok
                  { sql := String.ofList normalized
                    relations := sortRelations scan.relations
                    functions := sortFunctions scan.functions
                    usesAggregate := scan.usesAggregate }
    | some _ => .error ⟨"只允许 SELECT 查询"⟩

/-! ## `analyze_read_query` -/

/-- `str(function.sql_name() or function.name or "").lower()`. -/
def FuncExpr.policyName (f : FuncExpr) : String :=
  lower (if f.sqlName = "" then f.name else f.sqlName)

/-- Body of the loop over `exp.Func` nodes. -/
def scanFunc (acc : List (List String)) :
    Item Ident TableExpr FuncExpr String → Except SQLPolicyError (List (List String))
  | .call f =>
      let name := f.policyName lower
      if name = "" then .ok acc
      else if dangerousFunctions.contains name then .error ⟨"禁止调用函数 " ++ name⟩
      else .ok (setAdd acc [name])
  | _ => .ok acc

/-- Body of the loop over `exp.Table` nodes. -/
def scanTable (cteNames : List String) (acc : List Relation) :
    Item Ident TableExpr FuncExpr String → List Relation
  | .table t => if t.skipped cteNames then acc else setAdd acc t.relation
  | _ => acc

def isAggregate : Item Ident TableExpr FuncExpr String → Bool
  | .call f => f.aggregate
  | .node cls => cls == "Window"
  | _ => false

def isClass (classes : List String) : Item Ident TableExpr FuncExpr String → Bool
  | .node cls => classes.contains cls
  | _ => false

/-- `{str(item.alias_or_name) for item in root.find_all(exp.CTE)}`. -/
def genericCteNames (items : List (Item Ident TableExpr FuncExpr String)) : List String :=
  (QueryTree.cteNames items).map Ident.text

def analyzeReadQuery (P : Parsers) (sql databaseType : String) :
    Except SQLPolicyError QueryAnalysis :=
  if databaseType = "postgresql" then analyzeSelect lower P sql
  else match genericDialects.lookup databaseType with
    | none => .error ⟨"不支持的数据库类型 " ++ databaseType⟩
    | some dialect =>
        let normalized := trimStatement sql
        if normalized = [] then .error ⟨"只允许一条 SELECT 语句"⟩
        else match P.parse (String.ofList normalized) dialect with
          | none => .error ⟨"SQL 语法无效"⟩
          | some [some (.query cls recursive ctes parts)] =>
              let nodes := walk (.query cls recursive ctes parts)
              if nodes.any (isClass forbiddenNodes) then
                .error ⟨"查询包含写操作或管理语句"⟩
              else if nodes.any (isClass ["Into", "Lock"]) then
                .error ⟨"查询包含 SELECT INTO 或锁定语句"⟩
              else
                -- Tables first: a dangerous function is reported after them.
                let relations := nodes.foldl (scanTable (genericCteNames nodes)) []
                foldEach (scanFunc lower) [] nodes >>= fun functions => .ok
                  { sql := String.ofList normalized
                    relations := sortRelations relations
                    functions := sortFunctions functions
                    usesAggregate := nodes.any isAggregate }
          | some [_] => .error ⟨"只允许 SELECT 查询"⟩
          | some _ => .error ⟨"只允许一条 SELECT 语句"⟩

/-! ## What the analysis records -/

theorem mem_sortRelations {p : Relation} {l : List Relation} : p ∈ sortRelations l ↔ p ∈ l :=
  List.mem_insertionSort _

theorem mem_sortFunctions {f : List String} {l : List (List String)} :
    f ∈ sortFunctions l ↔ f ∈ l :=
  List.mem_insertionSort _

/-- The pglast references the loop keeps. -/
def Recorded (cteNames : List String) (items : List (Item String RangeVar PgCall PgNode))
    (p : Relation) : Prop :=
  ∃ r : RangeVar, .table r ∈ items ∧ r.namesCte cteNames = false ∧ r.relation = p

/-- What the loop of `analyze_select` has collected after `items`. -/
structure ScanSpec (cteNames : List String) (acc : Scan)
    (items : List (Item String RangeVar PgCall PgNode)) : Prop where
  relations : ∀ p, p ∈ acc.relations ↔ Recorded cteNames items p
  functions : ∀ f, f ∈ acc.functions ↔
    ∃ over_ argTypes, .call (.funcCall f over_ argTypes) ∈ items

theorem ScanSpec.skip {cteNames : List String} {acc : Scan}
    {items : List (Item String RangeVar PgCall PgNode)} {item : Item String RangeVar PgCall PgNode}
    (h : ScanSpec cteNames acc items)
    (htable : ∀ r, item = .table r → r.namesCte cteNames = true)
    (hcall : ∀ f over_ argTypes, item ≠ .call (.funcCall f over_ argTypes)) :
    ScanSpec cteNames acc (items ++ [item]) := by
  refine ⟨?_, ?_⟩
  · intro p
    rw [h.relations]
    refine ⟨?_, ?_⟩
    · rintro ⟨r, hr, hn, hp⟩
      exact ⟨r, List.mem_append_left _ hr, hn, hp⟩
    · rintro ⟨r, hr, hn, hp⟩
      rcases List.mem_append.mp hr with hr | hr
      · exact ⟨r, hr, hn, hp⟩
      · -- The new item is a reference that names a CTE.
        have := htable r (List.mem_singleton.mp hr).symm
        rw [this] at hn
        cases hn
  · intro f
    rw [h.functions]
    refine ⟨?_, ?_⟩
    · rintro ⟨over_, argTypes, hf⟩
      exact ⟨over_, argTypes, List.mem_append_left _ hf⟩
    · rintro ⟨over_, argTypes, hf⟩
      rcases List.mem_append.mp hf with hf | hf
      · exact ⟨over_, argTypes, hf⟩
      · exact absurd (List.mem_singleton.mp hf).symm (hcall f over_ argTypes)

/-- One turn of the loop keeps the specification. -/
theorem scanNode_spec {cteNames : List String} {acc acc' : Scan}
    {items : List (Item String RangeVar PgCall PgNode)} {item : Item String RangeVar PgCall PgNode}
    (h : ScanSpec cteNames acc items) (hstep : scanNode lower cteNames acc item = .ok acc') :
    ScanSpec cteNames acc' (items ++ [item]) := by
  cases item with
  | table r =>
      simp only [scanNode] at hstep
      split at hstep
      · cases hstep
      split at hstep
      · -- The loop passes over a reference that names a CTE and records any other.
        rename_i hname
        cases hstep
        exact h.skip (by rintro r' ⟨⟩; exact hname) (by simp)
      · rename_i hname
        cases hstep
        refine ⟨?_, ?_⟩
        · intro p
          simp only [mem_setAdd, h.relations]
          refine ⟨?_, ?_⟩
          · rintro (⟨r', hr, hn, hp⟩ | rfl)
            · exact ⟨r', List.mem_append_left _ hr, hn, hp⟩
            · exact ⟨r, by simp, by simpa using hname, rfl⟩
          · rintro ⟨r', hr, hn, hp⟩
            rcases List.mem_append.mp hr with hr | hr
            · exact Or.inl ⟨r', hr, hn, hp⟩
            · rw [List.mem_singleton] at hr
              cases hr
              exact Or.inr hp.symm
        · intro f
          simp [h.functions]
  | call c =>
      cases c with
      | funcCall name over_ argTypes =>
          simp only [scanNode] at hstep
          split at hstep
          · cases hstep
          cases hstep
          refine ⟨?_, ?_⟩
          · intro p
            simp [h.relations, Recorded]
          · intro f
            simp only [mem_setAdd, h.functions]
            refine ⟨?_, ?_⟩
            · rintro (⟨o, a, hf⟩ | rfl)
              · exact ⟨o, a, List.mem_append_left _ hf⟩
              · exact ⟨over_, argTypes, by simp⟩
            · rintro ⟨o, a, hf⟩
              rcases List.mem_append.mp hf with hf | hf
              · exact Or.inl ⟨o, a, hf⟩
              · rw [List.mem_singleton] at hf
                cases hf
                exact Or.inr rfl
      | operator name argTypes =>
          cases hstep
          exact h.skip (by simp) (by simp)
      | fieldCall field argType =>
          cases hstep
          exact h.skip (by simp) (by simp)
  | node n =>
      -- Other nodes are only rejected or let pass.
      have hacc : acc' = acc := by
        cases n with
        | selectStmt into locking =>
            simp only [scanNode] at hstep
            split at hstep <;> cases hstep
            rfl
        | aConst sval => cases hstep; rfl
        | other cls =>
            simp only [scanNode] at hstep
            split at hstep <;> cases hstep
            rfl
      rw [hacc]
      exact h.skip (by simp) (by simp)
  | cte name =>
      cases hstep
      exact h.skip (by simp) (by simp)

/-- **`analyze_select`.** An accepted text is one `SelectStmt`, and the analysis
    holds its references that are not written as one of its `WITH` names, and
    its function names. -/
theorem analyzeSelect_ok {P : Parsers} {sql : String} {a : QueryAnalysis}
    (h : analyzeSelect lower P sql = .ok a) :
    ∃ root, P.parseSql (String.ofList (trimStatement sql)) = some [root] ∧
      (∀ p, p ∈ a.relations ↔ Recorded (QueryTree.cteNames (walk root)) (walk root) p) ∧
      (∀ f, f ∈ a.functions ↔
        ∃ over_ argTypes, .call (.funcCall f over_ argTypes) ∈ walk root) := by
  simp only [analyzeSelect] at h
  split at h
  · cases h
  split at h
  · cases h
  · rename_i root hparse
    split at h
    · cases h
    split at h
    · cases h
    split at h
    · cases h
    rw [bind_eq_ok] at h
    obtain ⟨scan, hscan, ha⟩ := h
    -- The loop starts with nothing collected and runs over the whole walk.
    have hinit : ScanSpec (QueryTree.cteNames (walk root)) ⟨[], [], false⟩ [] :=
      ⟨by simp [Recorded], by simp⟩
    have hspec : ScanSpec (QueryTree.cteNames (walk root)) scan ([] ++ walk root) :=
      foldEach_induction (P := ScanSpec (QueryTree.cteNames (walk root)))
        (fun _ _ _ _ hP hs => scanNode_spec lower hP hs) (walk root) _ _ [] hinit hscan
    rw [List.nil_append] at hspec
    cases ha
    refine ⟨root, hparse, ?_, ?_⟩
    · intro p
      simp only [mem_sortRelations]
      exact hspec.relations p
    · intro f
      simp only [mem_sortFunctions]
      exact hspec.functions f
  · cases h

/-- The sqlglot references the loop keeps. -/
theorem mem_foldl_scanTable {cteNames : List String} {p : Relation} :
    ∀ (items : List (Item Ident TableExpr FuncExpr String)) (acc : List Relation),
      p ∈ items.foldl (scanTable cteNames) acc ↔
        p ∈ acc ∨ ∃ t, .table t ∈ items ∧ t.skipped cteNames = false ∧ t.relation = p
  | [], acc => by simp
  | item :: items, acc => by
      rw [List.foldl_cons, mem_foldl_scanTable items]
      cases item with
      | table t =>
          simp only [scanTable]
          cases hskip : t.skipped cteNames with
          -- A CTE name or a table function adds nothing.
          | true =>
              simp only [if_true, List.mem_cons, Item.table.injEq]
              refine ⟨?_, ?_⟩
              · rintro (hp | ⟨t', ht', hn, hp⟩)
                · exact Or.inl hp
                · exact Or.inr ⟨t', Or.inr ht', hn, hp⟩
              · rintro (hp | ⟨t', rfl | ht', hn, hp⟩)
                · exact Or.inl hp
                · rw [hskip] at hn
                  cases hn
                · exact Or.inr ⟨t', ht', hn, hp⟩
          | false =>
              simp only [Bool.false_eq_true, if_false, mem_setAdd, List.mem_cons,
                Item.table.injEq]
              refine ⟨?_, ?_⟩
              · rintro ((hp | hp) | ⟨t', ht', hn, hp⟩)
                · exact Or.inl hp
                · exact Or.inr ⟨t, Or.inl rfl, hskip, hp.symm⟩
                · exact Or.inr ⟨t', Or.inr ht', hn, hp⟩
              · rintro (hp | ⟨t', rfl | ht', hn, hp⟩)
                · exact Or.inl (Or.inl hp)
                · exact Or.inl (Or.inr hp.symm)
                · exact Or.inr ⟨t', ht', hn, hp⟩
      | call f => simp [scanTable]
      | node cls => simp [scanTable]
      | cte name => simp [scanTable]

/-- **`analyze_read_query`** for the other dialects: an accepted text is one
    query, and the analysis holds its references that the loop keeps. -/
theorem analyzeReadQuery_ok {P : Parsers} {sql databaseType : String} {a : QueryAnalysis}
    (hdb : databaseType ≠ "postgresql")
    (h : analyzeReadQuery lower P sql databaseType = .ok a) :
    ∃ dialect root, genericDialects.lookup databaseType = some dialect ∧
      P.parse (String.ofList (trimStatement sql)) dialect = some [some root] ∧
      ∀ p, p ∈ a.relations ↔ ∃ t, .table t ∈ walk root ∧
        t.skipped (genericCteNames (walk root)) = false ∧ t.relation = p := by
  simp only [analyzeReadQuery, if_neg hdb] at h
  split at h
  · cases h
  rename_i dialect hdialect
  split at h
  · cases h
  split at h
  · cases h
  · -- One statement that is a query; every other answer of the parser is refused.
    rename_i cls recursive ctes parts hparse
    split at h
    · cases h
    split at h
    · cases h
    rw [bind_eq_ok] at h
    obtain ⟨functions, -, ha⟩ := h
    cases ha
    refine ⟨dialect, _, hdialect, hparse, ?_⟩
    intro p
    simp only [mem_sortRelations]
    rw [mem_foldl_scanTable]
    simp
  · cases h
  · cases h

end Policy

end PostgresMcp
end HermesPlatform
