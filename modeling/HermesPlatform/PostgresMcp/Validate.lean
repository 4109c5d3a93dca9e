/-
  HermesPlatform.PostgresMcp.Validate

  `hermes_postgres_mcp.server`: the check of an analysed query against the
  resource scope (`_validate_analysis`) and the settings of the transaction the
  query runs in (`_timeouts`).

  A scope is the stored JSON object with the keys these two functions read; an
  absent key is `none`.  The catalog query over `pg_proc` runs on a parameter,
  the list of the functions of the database.
-/

import HermesPlatform.PostgresMcp.SqlPolicy

namespace HermesPlatform
namespace PostgresMcp

open Python

/-- What `_validate_analysis` raises: `AccessDenied`, or the `ValueError` of
    `_object`. -/
inductive ScopeError where
  | accessDenied (message : String)
  | valueError (message : String)
deriving DecidableEq, Repr

/-- `str(exc)`. -/
def ScopeError.str : ScopeError → String
  | .accessDenied message => "HERMES_CAPABILITY_ERROR[PERMISSION_DENIED]: " ++ message
  | .valueError message => message

/-! ## The scope -/

/-- The definition of one schema of a scope. -/
structure SchemaScope where
  tables : Option (List String)
  views : Option (List String)
deriving DecidableEq, Repr

/-- `[*definition.get("tables", []), *definition.get("views", [])]`. -/
def SchemaScope.objects (definition : SchemaScope) : List String :=
  definition.tables.getD [] ++ definition.views.getD []

structure Permissions where
  aggregate : Option Bool
deriving DecidableEq, Repr

structure Limits where
  statementTimeoutMs : Option Nat
  lockTimeoutMs : Option Nat
deriving DecidableEq, Repr

structure Scope where
  schemas : Option (Dict String SchemaScope)
  permissions : Option Permissions

/-- `_object(value)` of a key that may be absent. -/
def object {α : Type} : Option α → Except ScopeError α
  | some value => .ok value
  | none => .error (.valueError "请求对象格式无效")

theorem object_eq_ok {α : Type} {value : Option α} {a : α} :
    object value = .ok a ↔ value = some a := by
  cases value <;> simp [object]

/-- `str(runtime.get("database_type") or "postgresql")`. -/
def runtimeType (databaseType : Option String) : String :=
  (truthy databaseType).getD "postgresql"

def caseInsensitive (databaseType : Option String) : Bool :=
  ["oracle", "dm", "sqlserver"].contains (runtimeType databaseType)

/-! ## The function catalog -/

inductive Volatility where
  | immutable
  | stable
  | volatile
deriving DecidableEq, Repr

/-- A row of `pg_proc` joined with its namespace. -/
structure PgProc where
  nspname : String
  proname : String
  argTypes : List String
  provolatile : Volatility
  prosecdef : Bool
deriving DecidableEq, Repr

/-- `p.provolatile <> 'v' AND NOT p.prosecdef`. -/
def PgProc.readOnly (p : PgProc) : Bool :=
  p.provolatile ≠ .volatile && not p.prosecdef

/-- `bool_and`: `NULL` over no rows. -/
def boolAnd : List Bool → Option Bool
  | [] => none
  | b :: bs => some ((b :: bs).all id)

/-- The query of `_validate_analysis` over `pg_proc`. -/
def safeFunction (procs : List PgProc) (name : String) : Option Bool :=
  boolAnd ((procs.filter fun p => p.nspname = "pg_catalog" ∧ p.proname = name).map
    PgProc.readOnly)

theorem safeFunction_eq_true {procs : List PgProc} {name : String} :
    safeFunction procs name = some true ↔
      (∃ p ∈ procs, p.nspname = "pg_catalog" ∧ p.proname = name) ∧
      ∀ p ∈ procs, p.nspname = "pg_catalog" → p.proname = name → p.readOnly = true := by
  unfold safeFunction
  cases hrows : procs.filter fun p => p.nspname = "pg_catalog" ∧ p.proname = name with
  -- No row: `bool_and` is `NULL`, which is not true.
  | nil =>
      have hnone : ∀ p ∈ procs, ¬ (p.nspname = "pg_catalog" ∧ p.proname = name) := by
        simpa using List.filter_eq_nil_iff.mp hrows
      refine ⟨?_, ?_⟩
      · intro h
        cases h
      · rintro ⟨⟨p, hp, hmatch⟩, -⟩
        exact absurd hmatch (hnone p hp)
  | cons q rest =>
      have hmem : ∀ p, p ∈ q :: rest ↔
          p ∈ procs ∧ p.nspname = "pg_catalog" ∧ p.proname = name := by
        intro p
        rw [← hrows, List.mem_filter]
        simp
      have hq := (hmem q).mp List.mem_cons_self
      have hall : boolAnd ((q :: rest).map PgProc.readOnly) = some true ↔
          ∀ p ∈ q :: rest, p.readOnly = true := by
        simp [boolAnd]
      rw [hall]
      refine ⟨?_, ?_⟩
      · intro h
        exact ⟨⟨q, hq⟩, fun p hp hns hname => h p ((hmem p).mpr ⟨hp, hns, hname⟩)⟩
      · rintro ⟨-, h⟩ p hp
        obtain ⟨hp, hns, hname⟩ := (hmem p).mp hp
        exact h p hp hns hname

/-! ## `_validate_analysis` -/

section Validate

variable (lower : String → String)

/-- `str(x).lower() if case_insensitive else str(x)`. -/
def normalize (ci : Bool) (name : String) : String :=
  if ci then lower name else name

/-- `normalized_schemas`: of two keys that fold to one, the later wins. -/
def normalizedSchemas (ci : Bool) (schemas : Dict String SchemaScope) :
    Dict String SchemaScope :=
  Dict.ofPairs (schemas.entries.map fun e => (normalize lower ci e.1, e.2))

/-- `relation_index`: the schemas that list a name, once for each listing. -/
def relationIndex (ci : Bool) (schemas : Dict String SchemaScope) : Dict String (List String) :=
  schemas.entries.foldl (fun index e =>
    e.2.objects.foldl (fun index relation =>
      index.appendTo (normalize lower ci relation) e.1) index) Dict.empty

/-- Body of the loop over `analysis.relations`. -/
def checkRelation (ci : Bool) (schemas : Dict String SchemaScope)
    (index : Dict String (List String)) : Relation → Except ScopeError Unit
  | (none, relation) =>
      if ((index.get? (normalize lower ci relation)).getD []).length ≠ 1 then
        .error (.accessDenied ("未限定 Schema 的对象 " ++ relation ++ " 不唯一或不在 Scope"))
      else .ok ()
  | (some schema, relation) =>
      match schemas.get? (normalize lower ci schema) with
      | some definition =>
          if normalize lower ci relation ∈ definition.objects.map (normalize lower ci) then .ok ()
          else .error (.accessDenied ("对象 " ++ schema ++ "." ++ relation ++ " 不在 Scope"))
      | none => .error (.accessDenied ("对象 " ++ schema ++ "." ++ relation ++ " 不在 Scope"))

/-- `len(function) > 1 and function[-2].lower() != "pg_catalog"`. -/
def isCustom (function : List String) : Bool :=
  match function.dropLast.getLast? with
  | some schema => lower schema ≠ "pg_catalog"
  | none => false

/-- Body of the loop over `analysis.functions`. -/
def checkFunction (procs : List PgProc) (function : List String) : Except ScopeError Unit :=
  if safeFunction procs (function.getLastD "") = some true then .ok ()
  else .error (.accessDenied ("函数 " ++ ".".intercalate function ++ " 不在只读允许范围"))

/-- The checks of the PostgreSQL functions of a query. -/
def checkFunctions (procs : List PgProc) (functions : List (List String)) :
    Except ScopeError Unit :=
  match functions.filter (isCustom lower) with
  | custom :: _ =>
      .error (.accessDenied ("禁止调用自定义函数 " ++ ".".intercalate custom))
  | [] => forEach (checkFunction procs) functions

def validateAnalysis (procs : List PgProc) (databaseType : Option String) (scope : Scope)
    (analysis : QueryAnalysis) : Except ScopeError Unit :=
  object scope.schemas >>= fun schemas =>
  let ci := caseInsensitive databaseType
  let normalized := normalizedSchemas lower ci schemas
  forEach (checkRelation lower ci normalized (relationIndex lower ci normalized))
    analysis.relations >>= fun _ =>
  -- Aggregates are allowed unless the scope says otherwise.
  (if analysis.usesAggregate then
    object scope.permissions >>= fun permissions =>
      if permissions.aggregate.getD true then .ok ()
      else .error (.accessDenied "当前 Scope 禁止聚合查询")
  else .ok ()) >>= fun _ =>
  if runtimeType databaseType ≠ "postgresql" then .ok ()
  else checkFunctions lower procs analysis.functions

/-! ## What an accepted reference satisfies -/

/-- Without case folding the normalised schemas are the schemas. -/
theorem normalizedSchemas_false (schemas : Dict String SchemaScope) :
    normalizedSchemas lower false schemas = schemas := by
  have hentries : (normalizedSchemas lower false schemas).entries = schemas.entries := by
    have hmap : (schemas.entries.map fun e => (normalize lower false e.1, e.2))
        = schemas.entries := by
      simp [normalize]
    rw [normalizedSchemas, hmap]
    exact Dict.entries_ofPairs schemas.nodup
  cases h : normalizedSchemas lower false schemas
  cases schemas
  rw [h] at hentries
  cases hentries
  rfl

/-- The listings of a name: every schema, once for each time it lists it. -/
theorem getD_relationIndex (ci : Bool) (schemas : Dict String SchemaScope) (name : String) :
    ((relationIndex lower ci schemas).get? name).getD []
      = schemas.entries.flatMap fun e =>
          (e.2.objects.filter fun relation => normalize lower ci relation = name).map
            fun _ => e.1 := by
  -- The two nested loops are one loop over the pairs of name and schema.
  have hflat : relationIndex lower ci schemas =
      (schemas.entries.flatMap fun e =>
        e.2.objects.map fun relation => (normalize lower ci relation, e.1)).foldl
          (fun index p => index.appendTo p.1 p.2) Dict.empty := by
    rw [relationIndex, List.foldl_flatMap]
    simp only [List.foldl_map]
  have hempty : (Dict.empty : Dict String (List String)).get? name = none := rfl
  rw [hflat, Dict.getD_get?_foldl_appendTo, hempty, Option.getD_none, List.nil_append,
    List.filter_flatMap, List.map_flatMap]
  congr 1
  funext e
  rw [List.filter_map, List.map_map]
  rfl

/-- The object listed by `schema` under `name`, up to the case folding. -/
def Lists (ci : Bool) (schemas : Dict String SchemaScope) (schema name : String) : Prop :=
  ∃ definition, (schema, definition) ∈ schemas.entries ∧
    ∃ relation ∈ definition.objects, normalize lower ci relation = name

/-- A name with one listing has exactly one schema that lists it. -/
theorem relationIndex_unique {ci : Bool} {schemas : Dict String SchemaScope} {name : String}
    (h : (((relationIndex lower ci schemas).get? name).getD []).length = 1) :
    ∃ schema, ((relationIndex lower ci schemas).get? name).getD [] = [schema] ∧
      Lists lower ci schemas schema name ∧
      ∀ other, Lists lower ci schemas other name → other = schema := by
  obtain ⟨schema, hone⟩ := List.length_eq_one_iff.mp h
  -- The listings of the index are those of the scope.
  have hlists : ∀ s, Lists lower ci schemas s name ↔
      s ∈ ((relationIndex lower ci schemas).get? name).getD [] := by
    intro s
    rw [getD_relationIndex]
    simp only [Lists, List.mem_flatMap, List.mem_map, List.mem_filter, decide_eq_true_eq]
    refine ⟨?_, ?_⟩
    · rintro ⟨definition, hmem, relation, hrel, hname⟩
      exact ⟨(s, definition), hmem, relation, ⟨hrel, hname⟩, rfl⟩
    · rintro ⟨⟨s', definition⟩, hmem, relation, ⟨hrel, hname⟩, rfl⟩
      exact ⟨definition, hmem, relation, hrel, hname⟩
  refine ⟨schema, hone, ?_, ?_⟩
  · rw [hlists, hone]
    exact List.mem_singleton_self schema
  · intro other hother
    rw [hlists, hone] at hother
    exact List.mem_singleton.mp hother

theorem checkRelation_none {ci : Bool} {schemas : Dict String SchemaScope} {relation : String}
    (h : checkRelation lower ci schemas (relationIndex lower ci schemas) (none, relation)
      = .ok ()) :
    ∃ schema,
      ((relationIndex lower ci schemas).get? (normalize lower ci relation)).getD [] = [schema] ∧
      Lists lower ci schemas schema (normalize lower ci relation) ∧
      ∀ other, Lists lower ci schemas other (normalize lower ci relation) → other = schema := by
  simp only [checkRelation] at h
  split at h
  · cases h
  · rename_i hlength
    exact relationIndex_unique lower (not_not.mp hlength)

theorem checkRelation_some {ci : Bool} {schemas : Dict String SchemaScope}
    {index : Dict String (List String)} {schema relation : String}
    (h : checkRelation lower ci schemas index (some schema, relation) = .ok ()) :
    Lists lower ci schemas (normalize lower ci schema) (normalize lower ci relation) := by
  simp only [checkRelation] at h
  split at h
  · rename_i definition hget
    split at h
    · rename_i hmem
      -- The scope spells the object in a way that folds to the same name.
      obtain ⟨listed, hlisted, heq⟩ := List.mem_map.mp hmem
      exact ⟨definition, Dict.mem_of_get? hget, listed, hlisted, heq⟩
    · cases h
  · cases h

/-- **`_validate_analysis`.** What an accepted query satisfies. -/
theorem validateAnalysis_ok {procs : List PgProc} {databaseType : Option String} {scope : Scope}
    {analysis : QueryAnalysis}
    (h : validateAnalysis lower procs databaseType scope analysis = .ok ()) :
    ∃ schemas, scope.schemas = some schemas ∧
      (∀ r ∈ analysis.relations,
        checkRelation lower (caseInsensitive databaseType)
          (normalizedSchemas lower (caseInsensitive databaseType) schemas)
          (relationIndex lower (caseInsensitive databaseType)
            (normalizedSchemas lower (caseInsensitive databaseType) schemas)) r = .ok ()) ∧
      (runtimeType databaseType = "postgresql" → ∀ f ∈ analysis.functions,
        isCustom lower f = false ∧ safeFunction procs (f.getLastD "") = some true) := by
  rw [validateAnalysis, bind_eq_ok] at h
  obtain ⟨schemas, hschemas, h⟩ := h
  simp only [bind_eq_ok] at h
  obtain ⟨_, hrelations, _, _, h⟩ := h
  refine ⟨schemas, object_eq_ok.mp hschemas, forEach_eq_ok.mp hrelations, ?_⟩
  -- The check of functions runs for PostgreSQL only.
  intro htype f hf
  rw [if_neg (not_not.mpr htype), checkFunctions] at h
  split at h
  · cases h
  · rename_i hcustom
    have hnot := List.filter_eq_nil_iff.mp hcustom f hf
    have hsafe := forEach_eq_ok.mp h f hf
    rw [checkFunction] at hsafe
    split at hsafe
    · rename_i hs
      exact ⟨by simpa using hnot, hs⟩
    · cases hsafe

end Validate

/-! ## `_timeouts` -/

/-- `_identifier`. -/
def identifier (value : String) : String :=
  String.ofList
    ('"' :: (value.toList.flatMap fun c => if c = '"' then ['"', '"'] else [c]) ++ ['"'])

/-- `sorted(_object(scope.get("schemas")))`. -/
def sortedSchemas (schemas : Dict String SchemaScope) : List String :=
  schemas.keys.insertionSort (· ≤ ·)

/-- `int(limits.get(key) or default)`. -/
def limitOr (value : Option Nat) (default : Nat) : Nat :=
  if value.getD 0 = 0 then default else value.getD 0

/-- The `set_config` calls of `_timeouts`, each local to the transaction. -/
def timeouts (limits : Limits) (scope : Scope) : Except ScopeError (List (String × String)) :=
  object scope.schemas >>= fun schemas => .ok
    [("statement_timeout", toString (limitOr limits.statementTimeoutMs 5000) ++ "ms"),
     ("lock_timeout", toString (limitOr limits.lockTimeoutMs 1000) ++ "ms"),
     ("search_path",
       ", ".intercalate (identifier "pg_catalog" :: (sortedSchemas schemas).map identifier))]

end PostgresMcp
end HermesPlatform
