/-
  HermesPlatform.Connections.Selection

  `DatabaseScopeSelection` and the definition of a resource scope.

  The validators give a selection whose names they would leave as they are, so the selection
  carries that.  `scope_definition` writes it down as a JSON object, and a new connector revision
  reads it back field by field (`readSelection`).  What is read from a definition writes the same
  definition, but for the revision it is for (`readSelection_scopeDefinition`).
-/

import HermesPlatform.Gateway.Policy
import HermesPlatform.Lib.JsonDict
import Mathlib.Data.List.Dedup
import Mathlib.Data.List.Sort

namespace HermesPlatform
namespace Connections

open Python (Dict isSpace strip rstripChars stripChars strip_strip)
open Json (asDict)
open Gateway (truthy)

/-- What the functions raise. -/
inductive Raised where
  | http (status : Nat) (detail : String)
  /-- A pydantic `ValidationError`, with the message of its first error. -/
  | validation (message : String)
  | typeError
  /-- The database refuses a row. -/
  | database
  deriving DecidableEq

/-! ## Names -/

/-- `not any(ord(character) < 32 for character in value)`. -/
def printable (s : String) : Bool := s.toList.all (32 ≤ ·.toNat)

/-- A name as the validators leave it. -/
structure IsName (s : String) : Prop where
  nonempty : s ≠ ""
  length_le : s.length ≤ 255
  printable : printable s = true
  stripped : strip s = s

abbrev Name := {s : String // IsName s}

theorem length_strip_le (s : String) : (strip s).length ≤ s.length := by
  rw [strip, String.length_ofList, stripChars, rstripChars, List.length_reverse]
  refine (List.dropWhile_suffix isSpace).length_le.trans ?_
  rw [List.length_reverse, ← String.length_toList]
  exact (List.dropWhile_suffix isSpace).length_le

/-- `normalize_schema_name` and `normalize_database_name`, behind the bounds of the field. -/
def normalizeName (message raw : String) : Except Raised Name :=
  if raw.length < 1 then .error (.validation "String should have at least 1 character")
  else if hlong : 255 < raw.length then
    .error (.validation "String should have at most 255 characters")
  else if hbad : strip raw = "" ∨ printable (strip raw) = false then .error (.validation message)
  else .ok ⟨strip raw, fun h => hbad (.inl h),
    (length_strip_le raw).trans (Nat.le_of_not_lt hlong),
    by simpa using fun h => hbad (.inr h), strip_strip raw⟩

theorem normalizeName_name (message : String) (s : Name) : normalizeName message s.val = .ok s := by
  obtain ⟨s, hname⟩ := s
  have hlength : ¬ s.length < 1 := by
    rw [Nat.not_lt, Nat.one_le_iff_ne_zero]
    exact fun h => hname.nonempty (String.length_eq_zero_iff.mp h)
  have hlong : ¬ 255 < s.length := Nat.not_lt.mpr hname.length_le
  simp [normalizeName, hlength, hlong, hname.stripped, hname.nonempty, hname.printable]

/-- Names that differ from each other. -/
structure IsNames (l : List String) : Prop where
  names : ∀ s ∈ l, IsName s
  nodup : l.Nodup

abbrev ObjectNames := {l : List String // IsNames l}

/-- What `validate_object_names` asks of a stripped name. -/
def objectName (s : String) : Bool := s ≠ "" && s.length ≤ 255 && printable s

def validateObjectNames (values : List String) : Except Raised ObjectNames :=
  if hgood : (values.map strip).all objectName = true then
    if hnodup : (values.map strip).Nodup then
      .ok ⟨values.map strip, by
        refine ⟨fun s hs => ?_, hnodup⟩
        have hs' := List.all_eq_true.mp hgood s hs
        obtain ⟨raw, -, rfl⟩ := List.mem_map.mp hs
        simp only [objectName, Bool.and_eq_true, decide_eq_true_eq] at hs'
        exact ⟨hs'.1.1, hs'.1.2, hs'.2, strip_strip raw⟩⟩
    else .error (.validation "数据库对象不能重复")
  else .error (.validation "数据库对象名称无效")

theorem validateObjectNames_names (l : ObjectNames) : validateObjectNames l.val = .ok l := by
  obtain ⟨l, hl⟩ := l
  have hstrip : l.map strip = l := by
    rw [List.map_congr_left (g := id) fun s hs => (hl.names s hs).stripped, List.map_id]
  have hgood : l.all objectName = true := by
    rw [List.all_eq_true]
    intro s hs
    have hname := hl.names s hs
    simp [objectName, hname.nonempty, hname.length_le, hname.printable]
  simp [validateObjectNames, hstrip, hgood, hl.nodup]

/-- `sorted(set(l))`. -/
def sortedSet (l : List String) : List String := l.dedup.insertionSort (· ≤ ·)

theorem mem_sortedSet {l : List String} {s : String} : s ∈ sortedSet l ↔ s ∈ l := by
  rw [sortedSet, List.mem_insertionSort, List.mem_dedup]

theorem sortedSet_nodup (l : List String) : (sortedSet l).Nodup :=
  (List.perm_insertionSort _ _).nodup_iff.mpr (List.nodup_dedup l)

theorem sortedSet_idem (l : List String) : sortedSet (sortedSet l) = sortedSet l := by
  rw [sortedSet, (sortedSet_nodup l).dedup]
  exact (List.pairwise_insertionSort _ _).insertionSort_eq

theorem sortedSet_eq_nil {l : List String} : sortedSet l = [] ↔ l = [] := by
  rw [List.eq_nil_iff_forall_not_mem, List.eq_nil_iff_forall_not_mem]
  simp only [mem_sortedSet]

def ObjectNames.sorted (l : ObjectNames) : ObjectNames :=
  ⟨sortedSet l.val, fun s hs => l.property.names s (mem_sortedSet.mp hs), sortedSet_nodup l.val⟩

/-! ## Selections -/

structure DatabaseObjectSelection where
  name : Name
  tables : ObjectNames
  views : ObjectNames

def DatabaseObjectSelection.make (name : String) (tables views : List String) :
    Except Raised DatabaseObjectSelection := do
  let name ← normalizeName "Schema 名称包含非法字符" name
  let tables ← validateObjectNames tables
  let views ← validateObjectNames views
  return ⟨name, tables, views⟩

theorem DatabaseObjectSelection.make_self (item : DatabaseObjectSelection) :
    make item.name.val item.tables.val item.views.val = .ok item := by
  rw [make, normalizeName_name, validateObjectNames_names, validateObjectNames_names]
  rfl

/-- `Field(ge=least, le=most)`. -/
abbrev Bounded (least most : Int) := {n : Int // least ≤ n ∧ n ≤ most}

def bounded (least most n : Int) : Except Raised (Bounded least most) :=
  if hleast : n < least then
    .error (.validation ("Input should be greater than or equal to " ++ toString least))
  else if hmost : most < n then
    .error (.validation ("Input should be less than or equal to " ++ toString most))
  else .ok ⟨n, Int.not_lt.mp hleast, Int.not_lt.mp hmost⟩

theorem bounded_self {least most : Int} (n : Bounded least most) :
    bounded least most n.val = .ok n := by
  obtain ⟨n, hleast, hmost⟩ := n
  simp [bounded, Int.not_lt.mpr hleast, Int.not_lt.mpr hmost]

structure Limits where
  maxRows : Bounded 1 10000
  statementTimeoutMs : Bounded 100 300000
  lockTimeoutMs : Bounded 50 60000
  maxResponseBytes : Bounded 1024 20971520
  requestsPerMinute : Bounded 1 10000

structure Permissions where
  allowDescribe : Bool
  allowQuery : Bool
  allowPreview : Bool
  allowAggregate : Bool
  deriving DecidableEq

/-- What `validate_selection_shape` asks of the schemas. -/
structure Shape (schemas : List DatabaseObjectSelection) : Prop where
  distinct : (schemas.map (·.name.val)).Nodup
  someObject : ∃ item ∈ schemas, item.tables.val ≠ [] ∨ item.views.val ≠ []
  disjoint : ∀ item ∈ schemas, item.tables.val.Disjoint item.views.val

structure DatabaseScopeSelection where
  database : Name
  name : Option {s : String // s.length ≤ 255}
  schemas : List DatabaseObjectSelection
  permissions : Permissions
  limits : Limits
  shape : Shape schemas

def overlaps (item : DatabaseObjectSelection) : Bool :=
  item.tables.val.any (item.views.val.contains ·)

theorem overlaps_eq_false {item : DatabaseObjectSelection} :
    overlaps item = false ↔ item.tables.val.Disjoint item.views.val := by
  simp [overlaps, List.Disjoint]

def validateSelectionShape (schemas : List DatabaseObjectSelection) :
    Except Raised {l : List DatabaseObjectSelection // l = schemas ∧ Shape l} :=
  if hdistinct : ¬ (schemas.map (·.name.val)).Nodup then
    .error (.validation "Scope 中的 Schema 不能重复")
  else if hobject : ¬ ∃ item ∈ schemas, item.tables.val ≠ [] ∨ item.views.val ≠ [] then
    .error (.validation "Scope 至少选择一个表或视图")
  else
    match hoverlap : schemas.find? overlaps with
    | some item => .error (.validation ("对象不能同时作为表和视图：" ++ item.name.val))
    | none => .ok ⟨schemas, rfl, not_not.mp hdistinct, not_not.mp hobject, fun item hitem =>
        overlaps_eq_false.mp (by simpa using List.find?_eq_none.mp hoverlap item hitem)⟩

theorem validateSelectionShape_shape {schemas : List DatabaseObjectSelection}
    (h : Shape schemas) : validateSelectionShape schemas = .ok ⟨schemas, rfl, h⟩ := by
  rw [validateSelectionShape, dif_neg (not_not.mpr h.distinct), dif_neg (not_not.mpr h.someObject)]
  split
  next item hfound =>
    have hnone := overlaps_eq_false.mpr (h.disjoint item (List.mem_of_find?_eq_some hfound))
    rw [List.find?_some hfound] at hnone
    cases hnone
  next => rfl

def validateName (name : Option String) : Except Raised (Option {s : String // s.length ≤ 255}) :=
  match name with
  | none => .ok none
  | some s =>
      if h : s.length ≤ 255 then .ok (some ⟨s, h⟩)
      else .error (.validation "String should have at most 255 characters")

/-- `DatabaseScopeSelection(…)`. -/
def DatabaseScopeSelection.make (database : String) (name : Option String)
    (schemas : List DatabaseObjectSelection) (permissions : Permissions)
    (maxRows statementTimeoutMs lockTimeoutMs maxResponseBytes requestsPerMinute : Int) :
    Except Raised DatabaseScopeSelection := do
  let database ← normalizeName "数据库名称包含非法字符" database
  let name ← validateName name
  if schemas = [] then throw (.validation "List should have at least 1 item after validation")
  let maxRows ← bounded 1 10000 maxRows
  let statementTimeoutMs ← bounded 100 300000 statementTimeoutMs
  let lockTimeoutMs ← bounded 50 60000 lockTimeoutMs
  let maxResponseBytes ← bounded 1024 20971520 maxResponseBytes
  let requestsPerMinute ← bounded 1 10000 requestsPerMinute
  let schemas ← validateSelectionShape schemas
  return {
    database
    name
    schemas := schemas.val
    permissions
    limits := {
      maxRows
      statementTimeoutMs
      lockTimeoutMs
      maxResponseBytes
      requestsPerMinute }
    shape := schemas.property.2 }

/-- A selection is accepted as it is. -/
theorem DatabaseScopeSelection.make_self (scope : DatabaseScopeSelection) :
    make scope.database.val (scope.name.map (·.val)) scope.schemas scope.permissions
      scope.limits.maxRows.val scope.limits.statementTimeoutMs.val scope.limits.lockTimeoutMs.val
      scope.limits.maxResponseBytes.val scope.limits.requestsPerMinute.val = .ok scope := by
  have hname : validateName (scope.name.map (·.val)) = .ok scope.name := by
    cases hcase : scope.name with
    | none => rfl
    | some s => simp [validateName, s.property]
  have hschemas : scope.schemas ≠ [] := by
    obtain ⟨item, hitem, -⟩ := scope.shape.someObject
    exact List.ne_nil_of_mem hitem
  rw [make, normalizeName_name, hname, bounded_self, bounded_self, bounded_self, bounded_self,
    bounded_self, validateSelectionShape_shape scope.shape]
  simp only [hschemas, if_false]
  rfl

/-! ## Definitions -/

def strings (l : List String) : Json := .array (l.map .string)

def schemaDefinition (item : DatabaseObjectSelection) : Json :=
  .object [("tables", strings (sortedSet item.tables.val)),
    ("views", strings (sortedSet item.views.val))]

def schemasDefinition (schemas : List DatabaseObjectSelection) : Dict String Json :=
  Dict.ofPairs (schemas.map fun item => (item.name.val, schemaDefinition item))

def permissionsDefinition (permissions : Permissions) : List (String × Json) :=
  [("describe", .bool permissions.allowDescribe),
    ("query", .bool permissions.allowQuery),
    ("preview", .bool permissions.allowPreview),
    ("aggregate", .bool permissions.allowAggregate)]

def limitsDefinition (limits : Limits) : List (String × Json) :=
  [("max_rows", .int limits.maxRows.val),
    ("statement_timeout_ms", .int limits.statementTimeoutMs.val),
    ("lock_timeout_ms", .int limits.lockTimeoutMs.val),
    ("max_response_bytes", .int limits.maxResponseBytes.val),
    ("requests_per_minute", .int limits.requestsPerMinute.val)]

def scopeDefinition (instanceId revisionId : String) (scope : DatabaseScopeSelection)
    (databaseType : String) : Dict String Json :=
  Dict.ofPairs
    [("connector_instance_id", .string instanceId),
      ("connector_revision_id", .string revisionId),
      ("database_type", .string databaseType),
      ("database", .string scope.database.val),
      ("schemas", .object (schemasDefinition scope.schemas).entries),
      ("permissions", .object (permissionsDefinition scope.permissions)),
      ("limits", .object (limitsDefinition scope.limits))]

/-! ## Reading a definition -/

/-- What the functions use of Python's values. -/
structure JsonPython where
  /-- `str` of a value that is no string. -/
  repr : Json → String
  /-- `int` of a value that is no integer; `none` where it raises. -/
  int : Json → Option Int

variable (py : JsonPython)

/-- `str(v or "")`. -/
def readText (v : Option Json) : String :=
  match v.filter truthy with
  | some (.string s) => s
  | some v => py.repr v
  | none => ""

/-- `int(v or default)`. -/
def readLimit (v : Option Json) (default : Int) : Except Raised Int :=
  match v.filter truthy with
  | some (.int n) => .ok n
  | some v => (py.int v).elim (.error .typeError) .ok
  | none => .ok default

/-- `bool(v)`, where a missing value is `True`. -/
def readPermission (v : Option Json) : Bool := v.elim true truthy

def readString : Json → Except Raised String
  | .string s => .ok s
  | _ => .error (.validation "Input should be a valid string")

/-- `list(v or [])`, for a field of type `list[str]`. -/
def readStrings (v : Option Json) : Except Raised (List String) :=
  match v.filter truthy with
  | some (.array items) => items.mapM readString
  | some (.string s) => .ok (s.toList.map String.singleton)
  | some (.object members) => .ok (Dict.ofPairs members).keys
  | some _ => .error .typeError
  | none => .ok []

def readSchema (entry : String × Json) : Except Raised DatabaseObjectSelection :=
  match entry.2 with
  | .object members => do
      let tables ← readStrings ((Dict.ofPairs members).get? "tables")
      let views ← readStrings ((Dict.ofPairs members).get? "views")
      DatabaseObjectSelection.make entry.1 tables views
  | _ => DatabaseObjectSelection.make entry.1 [] []

/-- The selection that is built from a definition when the connector has a new revision. -/
def readSelection (name : String) (previous : Dict String Json) :
    Except Raised DatabaseScopeSelection := do
  let permissions := asDict (previous.get? "permissions")
  let limits := asDict (previous.get? "limits")
  let schemas ← (asDict (previous.get? "schemas")).entries.mapM readSchema
  let maxRows ← readLimit py (limits.get? "max_rows") 200
  let statementTimeoutMs ← readLimit py (limits.get? "statement_timeout_ms") 5000
  let lockTimeoutMs ← readLimit py (limits.get? "lock_timeout_ms") 1000
  let maxResponseBytes ← readLimit py (limits.get? "max_response_bytes") 2097152
  let requestsPerMinute ← readLimit py (limits.get? "requests_per_minute") 60
  DatabaseScopeSelection.make (readText py (previous.get? "database")) (some name) schemas
    { allowDescribe := readPermission (permissions.get? "describe")
      allowQuery := readPermission (permissions.get? "query")
      allowPreview := readPermission (permissions.get? "preview")
      allowAggregate := readPermission (permissions.get? "aggregate") }
    maxRows statementTimeoutMs lockTimeoutMs maxResponseBytes requestsPerMinute

/-! ## What is read back -/

def DatabaseObjectSelection.sorted (item : DatabaseObjectSelection) : DatabaseObjectSelection :=
  ⟨item.name, item.tables.sorted, item.views.sorted⟩

theorem Shape.sorted {schemas : List DatabaseObjectSelection} (h : Shape schemas) :
    Shape (schemas.map (·.sorted)) where
  distinct := by
    rw [List.map_map]
    exact h.distinct
  someObject := by
    obtain ⟨item, hitem, hobject⟩ := h.someObject
    refine ⟨item.sorted, List.mem_map_of_mem hitem, ?_⟩
    simpa [DatabaseObjectSelection.sorted, ObjectNames.sorted, sortedSet_eq_nil] using hobject
  disjoint := by
    intro item hitem
    obtain ⟨item, hmem, rfl⟩ := List.mem_map.mp hitem
    intro s ht hv
    exact h.disjoint item hmem (mem_sortedSet.mp ht) (mem_sortedSet.mp hv)

/-- The selection as it stands in its definition, under the name of the scope. -/
def DatabaseScopeSelection.carried (scope : DatabaseScopeSelection)
    (name : {s : String // s.length ≤ 255}) : DatabaseScopeSelection :=
  { scope with
    name := some name
    schemas := scope.schemas.map (·.sorted)
    shape := scope.shape.sorted }

theorem schemaDefinition_sorted (item : DatabaseObjectSelection) :
    schemaDefinition item.sorted = schemaDefinition item := by
  simp [schemaDefinition, DatabaseObjectSelection.sorted, ObjectNames.sorted, sortedSet_idem]

/-- Nothing is lost in the definition. -/
theorem scopeDefinition_carried (instanceId revisionId : String) (scope : DatabaseScopeSelection)
    (databaseType : String) (name : {s : String // s.length ≤ 255}) :
    scopeDefinition instanceId revisionId (scope.carried name) databaseType =
      scopeDefinition instanceId revisionId scope databaseType := by
  have hschemas : schemasDefinition (scope.schemas.map (·.sorted)) =
      schemasDefinition scope.schemas := by
    rw [schemasDefinition, List.map_map, schemasDefinition]
    simp only [Function.comp_def, schemaDefinition_sorted]
    rfl
  simp only [scopeDefinition, DatabaseScopeSelection.carried, hschemas]

/-- Definitions of one selection differ in the revision and the type only. -/
theorem scopeDefinition_set (instanceId revisionId revisionId' : String)
    (scope : DatabaseScopeSelection) (databaseType databaseType' : String) :
    scopeDefinition instanceId revisionId' scope databaseType' =
      ((scopeDefinition instanceId revisionId scope databaseType).set "connector_revision_id"
        (.string revisionId')).set "database_type" (.string databaseType') := by
  rfl

theorem mapM_readString (l : List String) :
    (l.map Json.string).mapM readString = .ok l := by
  induction l with
  | nil => rfl
  | cons s l ih =>
      rw [List.map_cons, List.mapM_cons, ih]
      rfl

theorem readStrings_strings (l : List String) : readStrings (some (strings l)) = .ok l := by
  cases l with
  | nil => rfl
  | cons s l => exact mapM_readString (s :: l)

theorem readSchema_definition (item : DatabaseObjectSelection) :
    readSchema (item.name.val, schemaDefinition item) = .ok item.sorted := by
  have htables : (Dict.ofPairs [("tables", strings (sortedSet item.tables.val)),
      ("views", strings (sortedSet item.views.val))]).get? "tables" =
        some (strings (sortedSet item.tables.val)) := rfl
  have hviews : (Dict.ofPairs [("tables", strings (sortedSet item.tables.val)),
      ("views", strings (sortedSet item.views.val))]).get? "views" =
        some (strings (sortedSet item.views.val)) := rfl
  simp only [readSchema, schemaDefinition, htables, hviews, readStrings_strings]
  exact item.sorted.make_self

theorem readLimit_bounded {least most : Int} (h : 0 < least) (n : Bounded least most)
    (default : Int) : readLimit py (some (.int n.val)) default = .ok n.val := by
  have htrue : truthy (.int n.val) = true := by
    have hne : n.val ≠ 0 := by
      have := n.property.1
      omega
    simpa [truthy] using hne
  simp [readLimit, Option.filter, htrue]

theorem readText_name (s : Name) : readText py (some (.string s.val)) = s.val := by
  have htrue : truthy (.string s.val) = true := by simpa [truthy] using s.property.nonempty
  simp [readText, Option.filter, htrue]

theorem entries_schemasDefinition {schemas : List DatabaseObjectSelection} (h : Shape schemas) :
    (schemasDefinition schemas).entries =
      schemas.map fun item => (item.name.val, schemaDefinition item) := by
  rw [schemasDefinition, Dict.entries_ofPairs]
  rw [List.map_map]
  exact h.distinct

theorem readSchemas_definition (schemas : List DatabaseObjectSelection) (h : Shape schemas) :
    (asDict (some (.object (schemasDefinition schemas).entries))).entries.mapM readSchema =
      .ok (schemas.map (·.sorted)) := by
  rw [asDict, Dict.entries_ofPairs (schemasDefinition schemas).nodup, entries_schemasDefinition h]
  clear h
  induction schemas with
  | nil => rfl
  | cons item schemas ih =>
      rw [List.map_cons, List.mapM_cons, readSchema_definition, ih]
      rfl

/-- **The round trip.** -/
theorem readSelection_scopeDefinition (instanceId revisionId : String)
    (scope : DatabaseScopeSelection) (databaseType : String)
    (name : {s : String // s.length ≤ 255}) :
    readSelection py name.val (scopeDefinition instanceId revisionId scope databaseType) =
      .ok (scope.carried name) := by
  have hdatabase : (scopeDefinition instanceId revisionId scope databaseType).get? "database" =
      some (.string scope.database.val) := rfl
  have hschemas : (scopeDefinition instanceId revisionId scope databaseType).get? "schemas" =
      some (.object (schemasDefinition scope.schemas).entries) := rfl
  have hpermissions : (scopeDefinition instanceId revisionId scope databaseType).get?
      "permissions" = some (.object (permissionsDefinition scope.permissions)) := rfl
  have hlimits : (scopeDefinition instanceId revisionId scope databaseType).get? "limits" =
      some (.object (limitsDefinition scope.limits)) := rfl
  have hrows : (asDict (some (.object (limitsDefinition scope.limits)))).get? "max_rows" =
      some (.int scope.limits.maxRows.val) := rfl
  have hstatement : (asDict (some (.object (limitsDefinition scope.limits)))).get?
      "statement_timeout_ms" = some (.int scope.limits.statementTimeoutMs.val) := rfl
  have hlock : (asDict (some (.object (limitsDefinition scope.limits)))).get?
      "lock_timeout_ms" = some (.int scope.limits.lockTimeoutMs.val) := rfl
  have hbytes : (asDict (some (.object (limitsDefinition scope.limits)))).get?
      "max_response_bytes" = some (.int scope.limits.maxResponseBytes.val) := rfl
  have hrequests : (asDict (some (.object (limitsDefinition scope.limits)))).get?
      "requests_per_minute" = some (.int scope.limits.requestsPerMinute.val) := rfl
  simp only [readSelection, hdatabase, hschemas, hpermissions, hlimits, hrows, hstatement, hlock,
    hbytes, hrequests, readSchemas_definition _ scope.shape, readText_name,
    readLimit_bounded py (by decide : (0 : Int) < 1),
    readLimit_bounded py (by decide : (0 : Int) < 100),
    readLimit_bounded py (by decide : (0 : Int) < 50),
    readLimit_bounded py (by decide : (0 : Int) < 1024)]
  exact (scope.carried name).make_self

end Connections
end HermesPlatform
