/-
  HermesPlatform.Connections.ScopeRevisions

  `revise_scopes_for_connector_revision`: the scopes of a connector carried forward when the
  connector has a new revision.

  The tables are states, `add_scope` and the carrying forward are actions on them, and an action
  that raises leaves them as they were.  In every state that is reached so, each scope has a
  current revision with the highest number, made by `scope_definition`; so a scope can be carried
  forward just when the discovery has its objects, and one that cannot stops them all
  (`revise_scopes_carry`).

  The adapters name what they discover by strings.  Of other names those that are no dictionary
  keys, lists and objects, raise a `TypeError` in the source; here all of them are passed over.
-/

import HermesPlatform.Connections.Selection
import HermesPlatform.Lib.Table
import HermesPlatform.Lib.Transition

namespace HermesPlatform
namespace Connections

open Python (Dict foldEach bind_eq_ok)
open Json (asDict asList)
open Gateway (truthy)

/-! ## Discoveries -/

/-- The dictionaries in `v or []`. -/
def dicts (v : Option Json) : List (Dict String Json) :=
  (asList v).filterMap fun
    | .object members => some (Dict.ofPairs members)
    | _ => none

/-- `item.get("name")`, where it is a string. -/
def nameOf (item : Dict String Json) : Option String :=
  match item.get? "name" with
  | some (.string s) => some s
  | _ => none

def isReady (item : Dict String Json) : Bool :=
  match item.get? "status" with
  | some (.string s) => s = "READY"
  | _ => false

/-- `{item.get("name"): item for item in items}`, of the names that are strings. -/
def byName (items : List (Dict String Json)) : Dict String (Dict String Json) :=
  Dict.ofPairs (items.filterMap fun item => (nameOf item).map fun name => (name, item))

def objectNames (v : Option Json) : List String := (dicts v).filterMap nameOf

/-- What `sorted(set(names) - known)` is. -/
def unknown (names known : List String) : List String := sortedSet (names.filter (· ∉ known))

theorem unknown_eq_nil {names known : List String} : unknown names known = [] ↔ names ⊆ known := by
  rw [unknown, sortedSet_eq_nil, List.filter_eq_nil_iff]
  simp [List.subset_def]

section Validate

variable (py : JsonPython)

def validateObjects (discovered : Dict String (Dict String Json)) (database : String)
    (selected : DatabaseObjectSelection) : Except Raised Unit :=
  match discovered.get? selected.name.val with
  | none => .error (.http 422 ("Schema " ++ database ++ "." ++ selected.name.val ++ " 不存在"))
  | some schema =>
      let unknownTables := unknown selected.tables.val (objectNames (schema.get? "tables"))
      let unknownViews := unknown selected.views.val (objectNames (schema.get? "views"))
      if unknownTables ≠ [] ∨ unknownViews ≠ [] then
        .error (.http 422
          ("Scope 包含未发现的对象：" ++ py.repr (strings (unknownTables ++ unknownViews))))
      else .ok ()

def validateScope (discovery : Dict String Json) (scope : DatabaseScopeSelection) :
    Except Raised Unit :=
  match (dicts (discovery.get? "databases")).find? (nameOf · = some scope.database.val) with
  | none => .error (.http 422 ("数据库 " ++ scope.database.val ++ " 未成功发现"))
  | some database =>
      if isReady database then
        Python.forEach
          (validateObjects py (byName (dicts (database.get? "schemas"))) scope.database.val)
          scope.schemas
      else .error (.http 422 ("数据库 " ++ scope.database.val ++ " 未成功发现"))

end Validate

/-- The discovery has the objects of the selection, in a database that is `READY`. -/
def Contains (discovery : Dict String Json) (scope : DatabaseScopeSelection) : Prop :=
  ∃ database ∈ dicts (discovery.get? "databases"),
    nameOf database = some scope.database.val ∧ isReady database = true ∧
    ∀ selected ∈ scope.schemas, ∃ schema ∈ dicts (database.get? "schemas"),
      nameOf schema = some selected.name.val ∧
      selected.tables.val ⊆ objectNames (schema.get? "tables") ∧
      selected.views.val ⊆ objectNames (schema.get? "views")

/-- No name stands twice. -/
def Distinct (items : List (Dict String Json)) : Prop := (items.filterMap nameOf).Nodup

structure UniqueNames (discovery : Dict String Json) : Prop where
  databases : Distinct (dicts (discovery.get? "databases"))
  schemas : ∀ database ∈ dicts (discovery.get? "databases"),
    Distinct (dicts (database.get? "schemas"))

theorem get?_byName {items : List (Dict String Json)} (h : Distinct items) {name : String}
    {item : Dict String Json} :
    (byName items).get? name = some item ↔ item ∈ items ∧ nameOf item = some name := by
  have hkeys : ((items.filterMap fun item =>
      (nameOf item).map fun name => (name, item)).map Prod.fst).Nodup := by
    rw [List.map_filterMap]
    simpa [Function.comp_def, Distinct] using h
  rw [← Dict.mem_entries_iff, byName, Dict.entries_ofPairs hkeys, List.mem_filterMap]
  constructor
  · rintro ⟨item', hitem, hname⟩
    obtain ⟨name', hname, heq⟩ := Option.map_eq_some_iff.mp hname
    cases heq
    exact ⟨hitem, hname⟩
  · rintro ⟨hitem, hname⟩
    exact ⟨item, hitem, by rw [hname]; rfl⟩

theorem find?_nameOf {items : List (Dict String Json)} (h : Distinct items) {name : String}
    {item : Dict String Json} :
    items.find? (nameOf · = some name) = some item ↔ item ∈ items ∧ nameOf item = some name := by
  constructor
  · intro hfound
    exact ⟨List.mem_of_find?_eq_some hfound, by simpa using List.find?_some hfound⟩
  · rintro ⟨hitem, hname⟩
    induction items with
    | nil => cases hitem
    | cons other items ih =>
        rw [List.find?_cons]
        by_cases hother : nameOf other = some name
        · obtain rfl | hitem := List.mem_cons.mp hitem
          · simp [hname]
          · -- The name would stand at `other` and at `item`.
            rw [Distinct, List.filterMap_cons_some hother, List.nodup_cons] at h
            exact absurd (List.mem_filterMap.mpr ⟨item, hitem, hname⟩) h.1
        · have hitems : item ∈ items := by
            obtain rfl | hitem := List.mem_cons.mp hitem
            · exact absurd hname hother
            · exact hitem
          have hdistinct : Distinct items := by
            cases hcase : nameOf other with
            | none => rwa [Distinct, List.filterMap_cons_none hcase] at h
            | some s =>
                rw [Distinct, List.filterMap_cons_some hcase, List.nodup_cons] at h
                exact h.2
          simp [hother, ih hdistinct hitems]

theorem validateObjects_ok_iff (py : JsonPython) {items : List (Dict String Json)}
    (h : Distinct items) (database : String) (selected : DatabaseObjectSelection) :
    validateObjects py (byName items) database selected = .ok () ↔
      ∃ schema ∈ items, nameOf schema = some selected.name.val ∧
        selected.tables.val ⊆ objectNames (schema.get? "tables") ∧
        selected.views.val ⊆ objectNames (schema.get? "views") := by
  rw [validateObjects]
  cases hfound : (byName items).get? selected.name.val with
  | none =>
      refine iff_of_false (by rintro ⟨⟩) ?_
      rintro ⟨schema, hschema, hname, -⟩
      rw [(get?_byName h).mpr ⟨hschema, hname⟩] at hfound
      cases hfound
  | some schema =>
      obtain ⟨hschema, hname⟩ := (get?_byName h).mp hfound
      simp only [ne_eq, unknown_eq_nil, ← not_and_or]
      constructor
      · intro hok
        split at hok
        next => cases hok
        next hnot => exact ⟨schema, hschema, hname, not_not.mp hnot⟩
      · rintro ⟨schema', hschema', hname', hobjects⟩
        have hsame := (get?_byName h).mpr ⟨hschema', hname'⟩
        rw [hfound, Option.some.injEq] at hsame
        subst hsame
        rw [if_neg (not_not.mpr hobjects)]

/-- What the check finds out, where no name is ambiguous. -/
theorem validateScope_ok_iff (py : JsonPython) {discovery : Dict String Json}
    (h : UniqueNames discovery) (scope : DatabaseScopeSelection) :
    validateScope py discovery scope = .ok () ↔ Contains discovery scope := by
  rw [validateScope]
  cases hfound : (dicts (discovery.get? "databases")).find?
      (nameOf · = some scope.database.val) with
  | none =>
      refine iff_of_false (by rintro ⟨⟩) ?_
      rintro ⟨database, hdatabase, hname, -⟩
      rw [(find?_nameOf h.databases).mpr ⟨hdatabase, hname⟩] at hfound
      cases hfound
  | some database =>
      obtain ⟨hdatabase, hname⟩ := (find?_nameOf h.databases).mp hfound
      have hschemas := h.schemas database hdatabase
      constructor
      · intro hok
        simp only at hok
        split at hok
        next hready =>
          rw [Python.forEach_eq_ok] at hok
          refine ⟨database, hdatabase, hname, hready, ?_⟩
          exact fun selected hselected =>
            (validateObjects_ok_iff py hschemas _ selected).mp (hok selected hselected)
        next => cases hok
      · rintro ⟨database', hdatabase', hname', hready, hobjects⟩
        have hsame := (find?_nameOf h.databases).mpr ⟨hdatabase', hname'⟩
        rw [hfound, Option.some.injEq] at hsame
        subst hsame
        simp only [hready, if_true]
        rw [Python.forEach_eq_ok]
        exact fun selected hselected =>
          (validateObjects_ok_iff py hschemas _ selected).mpr (hobjects selected hselected)

theorem contains_carried {discovery : Dict String Json} {scope : DatabaseScopeSelection}
    {name : {s : String // s.length ≤ 255}} :
    Contains discovery (scope.carried name) ↔ Contains discovery scope := by
  simp [Contains, DatabaseScopeSelection.carried, DatabaseObjectSelection.sorted,
    ObjectNames.sorted, List.subset_def, mem_sortedSet]

/-! ## The tables -/

structure ConnectorInstance where
  id : String
  name : String

structure ConnectorInstanceRevision where
  id : String
  connectionConfig : Dict String Json

structure ResourceScope where
  id : Nat
  name : String
  resourceType : String
  ownerType : String
  ownerId : String
  currentRevisionId : Option Nat
  deriving DecidableEq

structure ResourceScopeRevision where
  id : Nat
  resourceScopeId : Nat
  revision : Nat
  scopeDefinition : Dict String Json
  scopeDigest : String

/-- The scopes stand in the order of `created_at`.  A row gets the id `nextId`. -/
structure Store where
  scopes : List ResourceScope
  revisions : List ResourceScopeRevision
  nextId : Nat

namespace Store

def setCurrent (store : Store) (scopeId revisionId : Nat) : Store :=
  { store with
    scopes := Table.modify (·.id) scopeId
      (fun scope => { scope with currentRevisionId := some revisionId }) store.scopes }

/-- A scope has no two revisions with one number. -/
def insertRevision (store : Store) (scopeId revision : Nat) (definition : Dict String Json)
    (digest : String) : Except Raised (Store × ResourceScopeRevision) :=
  if store.revisions.any (fun row => row.resourceScopeId = scopeId ∧ row.revision = revision) then
    .error .database
  else
    let row := ⟨store.nextId, scopeId, revision, definition, digest⟩
    .ok ({ store with revisions := store.revisions ++ [row], nextId := store.nextId + 1 }, row)

/-- The scopes that are selected for a connector. -/
def scopesOf (store : Store) (instanceId : String) : List ResourceScope :=
  store.scopes.filter fun scope =>
    scope.ownerType = "connector_instance" ∧ scope.ownerId = instanceId ∧
      scope.resourceType ∈ ["postgresql_database", "database_resource"]

end Store

section Actions

variable (py : JsonPython) (digest : Dict String Json → String)

/-- `str(config.get("database_type") or previous.get("database_type") or "postgresql")`. -/
def databaseTypeOf (config previous : Dict String Json) : String :=
  match ((config.get? "database_type").filter truthy).or
      ((previous.get? "database_type").filter truthy) with
  | some v => readText py (some v)
  | none => "postgresql"

def addScope (store : Store) (connector : ConnectorInstance) (revision : ConnectorInstanceRevision)
    (scope : DatabaseScopeSelection) : Except Raised (Store × ResourceScopeRevision) := do
  let definition := scopeDefinition connector.id revision.id scope
    (databaseTypeOf py revision.connectionConfig Dict.empty)
  let name := (Python.truthy (scope.name.map (·.val))).getD
    (connector.name ++ " / " ++ scope.database.val)
  -- The column is `String(255)`.
  if 255 < name.length then throw .database
  let value : ResourceScope := {
    id := store.nextId
    name
    resourceType := "database_resource"
    ownerType := "connector_instance"
    ownerId := connector.id
    currentRevisionId := none }
  let store := { store with scopes := store.scopes ++ [value], nextId := store.nextId + 1 }
  let (store, row) ← store.insertRevision value.id 1 definition (digest definition)
  return (store.setCurrent value.id row.id, row)

/-- The body of the loop of `revise_scopes_for_connector_revision`. -/
def reviseScope (connector : ConnectorInstance) (revision : ConnectorInstanceRevision)
    (discovery : Dict String Json) (acc : Store × List ResourceScopeRevision)
    (scope : ResourceScope) : Except Raised (Store × List ResourceScopeRevision) :=
  match scope.currentRevisionId.bind fun id => Table.lookup (·.id) id acc.1.revisions with
  | none => .ok acc
  | some current => do
      let selection ← readSelection py scope.name current.scopeDefinition
      validateScope py discovery selection
      let definition := scopeDefinition connector.id revision.id selection
        (databaseTypeOf py revision.connectionConfig current.scopeDefinition)
      let (store, value) ←
        acc.1.insertRevision scope.id (current.revision + 1) definition (digest definition)
      return (store.setCurrent scope.id value.id, acc.2 ++ [value])

def reviseScopesForConnectorRevision (store : Store) (connector : ConnectorInstance)
    (revision : ConnectorInstanceRevision) (discovery : Dict String Json) :
    Except Raised (Store × List ResourceScopeRevision) :=
  foldEach (reviseScope py digest connector revision discovery) (store, [])
    (store.scopesOf connector.id)

/-! ## Runs -/

inductive Action where
  | addScope (connector : ConnectorInstance) (revision : ConnectorInstanceRevision)
      (scope : DatabaseScopeSelection)
  | revise (connector : ConnectorInstance) (revision : ConnectorInstanceRevision)
      (discovery : Dict String Json)

/-- The tables after a transaction that is rolled back if it raises. -/
def committed {α : Type} (store : Store) (result : Except Raised (Store × α)) : Store :=
  match result with
  | .ok (after, _) => after
  | .error _ => store

def scopeSystem : Transition.System Store Action where
  init := (· = ⟨[], [], 0⟩)
  step store
    | .addScope connector revision scope =>
        some (committed store (addScope py digest store connector revision scope))
    | .revise connector revision discovery =>
        some (committed store
          (reviseScopesForConnectorRevision py digest store connector revision discovery))

def Reachable (store : Store) : Prop :=
  (scopeSystem py digest).Reachable Transition.System.anyStep store

end Actions

/-! ## What a scope is defined by -/

/-- The current revision of a scope, and the selection it was made of. -/
structure Defined (store : Store) (scope : ResourceScope) (current : ResourceScopeRevision)
    (selection : DatabaseScopeSelection) : Prop where
  pointer : scope.currentRevisionId = some current.id
  row : current ∈ store.revisions
  own : current.resourceScopeId = scope.id
  made : ∃ revisionId databaseType,
    current.scopeDefinition = scopeDefinition scope.ownerId revisionId selection databaseType

/-- The ids of the tables. -/
structure Store.Keyed (store : Store) : Prop where
  scopeIds : Table.Unique (·.id) store.scopes
  revisionIds : Table.Unique (·.id) store.revisions
  scopesBelow : ∀ scope ∈ store.scopes, scope.id < store.nextId
  revisionsBelow : ∀ row ∈ store.revisions, row.id < store.nextId
  ownersBelow : ∀ row ∈ store.revisions, row.resourceScopeId < store.nextId
  names : ∀ scope ∈ store.scopes, scope.name.length ≤ 255

/-- The current revision of the scope has the highest number. -/
def Latest (store : Store) (scope : ResourceScope) (current : ResourceScopeRevision) : Prop :=
  ∀ row ∈ store.revisions, row.resourceScopeId = scope.id → row.revision ≤ current.revision

structure Store.Sound (store : Store) : Prop extends Store.Keyed store where
  defined : ∀ scope ∈ store.scopes, ∃ current selection,
    Defined store scope current selection ∧ Latest store scope current

/-! ## A new current revision -/

/-- A row that becomes the current revision of its scope. -/
def Store.carry (store : Store) (row : ResourceScopeRevision) : Store :=
  let inserted : Store :=
    { store with revisions := store.revisions ++ [row], nextId := store.nextId + 1 }
  inserted.setCurrent row.resourceScopeId row.id

section Carry

variable {store : Store} {row : ResourceScopeRevision}

theorem revisions_carry : (store.carry row).revisions = store.revisions ++ [row] := rfl

theorem ids_carry : (store.carry row).scopes.map (·.id) = store.scopes.map (·.id) :=
  Table.keys_modify fun _ h => h

theorem mem_carry_other {scope : ResourceScope} (hscope : scope ∈ store.scopes)
    (hne : scope.id ≠ row.resourceScopeId) : scope ∈ (store.carry row).scopes :=
  Table.mem_modify_of_ne hscope hne

theorem mem_carry_self {scope : ResourceScope} (hscope : scope ∈ store.scopes)
    (heq : scope.id = row.resourceScopeId) :
    { scope with currentRevisionId := some row.id } ∈ (store.carry row).scopes :=
  Table.mem_modify_of_eq hscope heq

theorem of_mem_carry {scope : ResourceScope} (h : scope ∈ (store.carry row).scopes) :
    (scope ∈ store.scopes ∧ scope.id ≠ row.resourceScopeId) ∨
    ∃ before ∈ store.scopes, before.id = row.resourceScopeId ∧
      scope = { before with currentRevisionId := some row.id } := by
  obtain ⟨before, hbefore, heq⟩ := List.mem_map.mp h
  split at heq
  next hid => exact .inr ⟨before, hbefore, hid, heq.symm⟩
  next hid => exact .inl ⟨heq ▸ hbefore, heq ▸ hid⟩

theorem Store.Keyed.carry (h : store.Keyed) (hid : row.id = store.nextId)
    (hbelow : row.resourceScopeId < store.nextId) : (store.carry row).Keyed where
  scopeIds := h.scopeIds.modify fun _ h => h
  revisionIds := by
    refine h.revisionIds.append ?_
    intro hmem
    obtain ⟨other, hother, heq⟩ := List.mem_map.mp hmem
    have hbelow := h.revisionsBelow other hother
    omega
  scopesBelow := by
    intro scope hscope
    show scope.id < store.nextId + 1
    obtain ⟨hmem, -⟩ | ⟨before, hmem, -, rfl⟩ := of_mem_carry hscope
    · exact Nat.lt_succ_of_lt (h.scopesBelow scope hmem)
    · exact Nat.lt_succ_of_lt (h.scopesBelow before hmem)
  revisionsBelow := by
    intro other hother
    show other.id < store.nextId + 1
    rw [revisions_carry, List.mem_append, List.mem_singleton] at hother
    obtain hother | rfl := hother
    · exact Nat.lt_succ_of_lt (h.revisionsBelow other hother)
    · omega
  ownersBelow := by
    intro other hother
    show other.resourceScopeId < store.nextId + 1
    rw [revisions_carry, List.mem_append, List.mem_singleton] at hother
    obtain hother | rfl := hother
    · exact Nat.lt_succ_of_lt (h.ownersBelow other hother)
    · exact Nat.lt_succ_of_lt hbelow
  names := by
    intro scope hscope
    obtain ⟨hmem, -⟩ | ⟨before, hmem, -, rfl⟩ := of_mem_carry hscope
    · exact h.names scope hmem
    · exact h.names before hmem

/-- The definition of another scope stays. -/
theorem Defined.carry {scope : ResourceScope} {current : ResourceScopeRevision}
    {selection : DatabaseScopeSelection} (h : Defined store scope current selection) :
    Defined (store.carry row) scope current selection :=
  { h with row := List.mem_append_left _ h.row }

theorem Latest.carry {scope : ResourceScope} {current : ResourceScopeRevision}
    (h : Latest store scope current) (hne : scope.id ≠ row.resourceScopeId) :
    Latest (store.carry row) scope current := by
  intro other hother hown
  rw [revisions_carry, List.mem_append, List.mem_singleton] at hother
  obtain hother | rfl := hother
  · exact h other hother hown
  · exact absurd hown.symm hne

/-- The tables stay sound when a scope gets a revision with a higher number, made of a
    selection. -/
theorem Store.Sound.of_carry {scope : ResourceScope} {selection : DatabaseScopeSelection}
    (hkeyed : store.Keyed) (hid : row.id = store.nextId) (hown : row.resourceScopeId = scope.id)
    (hmade : ∃ revisionId databaseType,
      row.scopeDefinition = scopeDefinition scope.ownerId revisionId selection databaseType)
    (hscope : scope ∈ store.scopes)
    (hlatest : ∀ other ∈ store.revisions, other.resourceScopeId = scope.id →
      other.revision ≤ row.revision)
    (hothers : ∀ other ∈ store.scopes, other.id ≠ scope.id → ∃ current selection,
      Defined store other current selection ∧ Latest store other current) :
    (store.carry row).Sound where
  toKeyed := hkeyed.carry hid (hown ▸ hkeyed.scopesBelow scope hscope)
  defined := by
    intro after hafter
    obtain ⟨hmem, hne⟩ | ⟨before, hmem, heq, rfl⟩ := of_mem_carry hafter
    · obtain ⟨current, chosen, hdefined, hmax⟩ := hothers after hmem (hown ▸ hne)
      exact ⟨current, chosen, hdefined.carry, hmax.carry hne⟩
    · obtain rfl : before = scope := hkeyed.scopeIds.eq hmem hscope (heq.trans hown)
      refine ⟨row, selection, ⟨rfl, List.mem_append_right _ (List.mem_singleton_self row), hown,
        hmade⟩, ?_⟩
      intro other hother hother'
      rw [revisions_carry, List.mem_append, List.mem_singleton] at hother
      obtain hother | rfl := hother
      · exact hlatest other hother hother'
      · exact Nat.le_refl _

end Carry

/-! ## The actions -/

section Actions

variable {py : JsonPython} {digest : Dict String Json → String} {store : Store}

theorem insertRevision_eq {scopeId number : Nat} (definition : Dict String Json) (text : String)
    (h : ∀ row ∈ store.revisions, row.resourceScopeId = scopeId → row.revision < number) :
    store.insertRevision scopeId number definition text =
      .ok ({ store with
          revisions := store.revisions ++ [⟨store.nextId, scopeId, number, definition, text⟩]
          nextId := store.nextId + 1 },
        ⟨store.nextId, scopeId, number, definition, text⟩) := by
  have hfree : store.revisions.any
      (fun row => row.resourceScopeId = scopeId ∧ row.revision = number) = false := by
    rw [List.any_eq_false]
    intro row hrow hboth
    obtain ⟨hown, hnumber⟩ := of_decide_eq_true hboth
    have hless := h row hrow hown
    omega
  simp only [Store.insertRevision, hfree, Bool.false_eq_true, if_false]

/-- The definition that a scope is carried forward with. -/
def carriedDefinition (py : JsonPython) (revision : ConnectorInstanceRevision)
    (definition : Dict String Json) : Dict String Json :=
  (definition.set "connector_revision_id" (.string revision.id)).set "database_type"
    (.string (databaseTypeOf py revision.connectionConfig definition))

/-- The row that a scope is carried forward with. -/
def carriedRow (py : JsonPython) (digest : Dict String Json → String) (store : Store)
    (revision : ConnectorInstanceRevision) (current : ResourceScopeRevision) :
    ResourceScopeRevision where
  id := store.nextId
  resourceScopeId := current.resourceScopeId
  revision := current.revision + 1
  scopeDefinition := carriedDefinition py revision current.scopeDefinition
  scopeDigest := digest (carriedDefinition py revision current.scopeDefinition)

/-- One scope: the check of the discovery is all that can raise. -/
theorem reviseScope_eq {connector : ConnectorInstance} {revision : ConnectorInstanceRevision}
    {discovery : Dict String Json} {created : List ResourceScopeRevision} {scope : ResourceScope}
    {current : ResourceScopeRevision} {selection : DatabaseScopeSelection}
    (hsound : store.Sound) (hscope : scope ∈ store.scopes) (howner : scope.ownerId = connector.id)
    (hdefined : Defined store scope current selection) (hlatest : Latest store scope current) :
    reviseScope py digest connector revision discovery (store, created) scope =
      (validateScope py discovery (selection.carried ⟨scope.name, hsound.names scope hscope⟩)).map
        fun _ => (store.carry (carriedRow py digest store revision current),
          created ++ [carriedRow py digest store revision current]) := by
  obtain ⟨revisionId, databaseType, hmade⟩ := hdefined.made
  have hfound : Table.lookup (·.id) current.id store.revisions = some current :=
    hsound.revisionIds.lookup_of_mem hdefined.row
  have hread : readSelection py scope.name current.scopeDefinition =
      .ok (selection.carried ⟨scope.name, hsound.names scope hscope⟩) := by
    rw [hmade]
    exact readSelection_scopeDefinition py _ _ _ _ ⟨scope.name, hsound.names scope hscope⟩
  have hnew (databaseType' : String) : scopeDefinition connector.id revision.id
      (selection.carried ⟨scope.name, hsound.names scope hscope⟩) databaseType' =
      (current.scopeDefinition.set "connector_revision_id" (.string revision.id)).set
        "database_type" (.string databaseType') := by
    rw [scopeDefinition_carried, hmade, howner]
    exact scopeDefinition_set ..
  have hfree : ∀ row ∈ store.revisions, row.resourceScopeId = scope.id →
      row.revision < current.revision + 1 :=
    fun row hrow hown => Nat.lt_succ_of_le (hlatest row hrow hown)
  simp only [reviseScope, hdefined.pointer, Option.bind_some, hfound, hread, hnew, bind,
    Except.bind, insertRevision_eq _ _ hfree]
  cases validateScope py discovery (selection.carried ⟨scope.name, hsound.names scope hscope⟩) with
  | error e => rfl
  | ok _ =>
      rw [← hdefined.own]
      rfl

/-- A scope that has been carried forward. -/
structure CarriedScope (py : JsonPython) (revision : ConnectorInstanceRevision)
    (after : Store) (new : List ResourceScopeRevision) (scope : ResourceScope)
    (current row : ResourceScopeRevision) : Prop where
  isNew : row ∈ new
  own : row.resourceScopeId = scope.id
  next : row.revision = current.revision + 1
  definition : row.scopeDefinition = carriedDefinition py revision current.scopeDefinition
  points : { scope with currentRevisionId := some row.id } ∈ after.scopes

/-- The tables after a list of scopes has been carried forward with the revisions `new`. -/
structure CarriedForward (py : JsonPython) (revision : ConnectorInstanceRevision)
    (store after : Store) (scopes : List ResourceScope) (new : List ResourceScopeRevision) :
    Prop where
  revisions : after.revisions = store.revisions ++ new
  perScope : new.map (·.resourceScopeId) = scopes.map (·.id)
  carried : ∀ scope ∈ scopes, ∀ current selection, Defined store scope current selection →
    ∃ row, CarriedScope py revision after new scope current row
  others : ∀ scope ∈ store.scopes, scope ∉ scopes → scope ∈ after.scopes
  ids : after.scopes.map (·.id) = store.scopes.map (·.id)

variable {connector : ConnectorInstance} {revision : ConnectorInstanceRevision}
  {discovery : Dict String Json}

/-- A scope has one current revision. -/
theorem Defined.current_eq (hkeyed : store.Keyed) {scope : ResourceScope}
    {current current' : ResourceScopeRevision} {selection selection' : DatabaseScopeSelection}
    (h : Defined store scope current selection) (h' : Defined store scope current' selection') :
    current = current' := by
  have hid : some current.id = some current'.id := h.pointer.symm.trans h'.pointer
  exact hkeyed.revisionIds.eq h.row h'.row (Option.some.inj hid)

/-- What the discovery has to contain does not depend on how the definition was made. -/
theorem Defined.contains_iff (py : JsonPython) (hkeyed : store.Keyed) {scope : ResourceScope}
    {current : ResourceScopeRevision} {selection selection' : DatabaseScopeSelection}
    (hscope : scope ∈ store.scopes) (h : Defined store scope current selection)
    (h' : Defined store scope current selection') :
    Contains discovery selection ↔ Contains discovery selection' := by
  obtain ⟨revisionId, databaseType, hmade⟩ := h.made
  obtain ⟨revisionId', databaseType', hmade'⟩ := h'.made
  have hread := readSelection_scopeDefinition py scope.ownerId revisionId selection databaseType
    ⟨scope.name, hkeyed.names scope hscope⟩
  have hread' := readSelection_scopeDefinition py scope.ownerId revisionId' selection'
    databaseType' ⟨scope.name, hkeyed.names scope hscope⟩
  rw [← hmade] at hread
  rw [← hmade', hread, Except.ok.injEq] at hread'
  rw [← contains_carried, hread', contains_carried]

theorem Store.Sound.carried (py : JsonPython) (digest : Dict String Json → String)
    (revision : ConnectorInstanceRevision) (hsound : store.Sound) {scope : ResourceScope}
    {current : ResourceScopeRevision} {selection : DatabaseScopeSelection}
    (hscope : scope ∈ store.scopes) (hdefined : Defined store scope current selection)
    (hlatest : Latest store scope current) :
    (store.carry (carriedRow py digest store revision current)).Sound := by
  obtain ⟨revisionId, databaseType, hmade⟩ := hdefined.made
  refine @Store.Sound.of_carry _ _ scope selection hsound.toKeyed rfl hdefined.own ?_ hscope ?_ ?_
  · refine ⟨revision.id, databaseTypeOf py revision.connectionConfig current.scopeDefinition, ?_⟩
    rw [carriedRow, carriedDefinition, hmade]
    exact (scopeDefinition_set ..).symm
  · exact fun other hother hown => Nat.le_succ_of_le (hlatest other hother hown)
  · exact fun other hother _ => hsound.defined other hother

/-- The loop, one scope at a time: what it does when it ends. -/
theorem foldEach_reviseScope :
    ∀ {scopes : List ResourceScope} {store after : Store}
      {created created' : List ResourceScopeRevision}, store.Sound →
      (∀ scope ∈ scopes, scope ∈ store.scopes ∧ scope.ownerId = connector.id) →
      (scopes.map (·.id)).Nodup →
      foldEach (reviseScope py digest connector revision discovery) (store, created) scopes =
        .ok (after, created') →
      after.Sound ∧
      (UniqueNames discovery → ∀ scope ∈ scopes, ∀ current selection,
        Defined store scope current selection → Contains discovery selection) ∧
      ∃ new, created' = created ++ new ∧ CarriedForward py revision store after scopes new := by
  intro scopes
  induction scopes with
  | nil =>
      intro store after created created' hsound _ _ h
      cases h
      refine ⟨hsound, fun _ scope hscope => absurd hscope List.not_mem_nil, [],
        (List.append_nil _).symm, (List.append_nil _).symm, rfl, ?_, ?_, rfl⟩
      · exact fun scope hscope => absurd hscope List.not_mem_nil
      · exact fun scope hscope _ => hscope
  | cons scope scopes ih =>
      intro store after created created' hsound hscopes hnodup h
      rw [List.map_cons, List.nodup_cons] at hnodup
      obtain ⟨hfirst, hrest⟩ := List.forall_mem_cons.mp hscopes
      obtain ⟨current, selection, hdefined, hlatest⟩ := hsound.defined scope hfirst.1
      rw [foldEach, reviseScope_eq hsound hfirst.1 hfirst.2 hdefined hlatest, bind_eq_ok] at h
      obtain ⟨acc, hstep, hloop⟩ := h
      obtain ⟨_, hvalid, rfl⟩ := Python.map_eq_ok.mp hstep
      have hne : ∀ other ∈ scopes, other.id ≠ scope.id := by
        intro other hother heq
        exact hnodup.1 (heq ▸ List.mem_map_of_mem hother)
      have hmid := hsound.carried py digest revision hfirst.1 hdefined hlatest
      obtain ⟨hafter, hcontains, new, rfl, hforward⟩ := ih hmid
        (fun other hother => ⟨mem_carry_other (hrest other hother).1
          (by rw [carriedRow, hdefined.own]; exact hne other hother), (hrest other hother).2⟩)
        hnodup.2 hloop
      refine ⟨hafter, ?_, carriedRow py digest store revision current :: new, ?_, ?_, ?_, ?_, ?_, ?_⟩
      · intro hunique other hother row chosen hchosen
        obtain rfl | hother := List.mem_cons.mp hother
        · obtain rfl := hdefined.current_eq hsound.toKeyed hchosen
          have hmine := contains_carried.mp ((validateScope_ok_iff py hunique _).mp hvalid)
          exact (hdefined.contains_iff py hsound.toKeyed hfirst.1 hchosen).mp hmine
        · exact hcontains hunique other hother row chosen hchosen.carry
      · rw [List.append_assoc, List.singleton_append]
      · rw [hforward.revisions, revisions_carry, List.append_assoc, List.singleton_append]
      · rw [List.map_cons, List.map_cons, hforward.perScope, carriedRow, hdefined.own]
      · intro other hother row chosen hchosen
        obtain rfl | hother := List.mem_cons.mp hother
        · obtain rfl := hdefined.current_eq hsound.toKeyed hchosen
          refine ⟨carriedRow py digest store revision current, List.mem_cons_self .., hdefined.own,
            rfl, rfl, ?_⟩
          refine hforward.others _ (mem_carry_self hfirst.1 hdefined.own.symm) ?_
          exact fun hmem => hne _ hmem rfl
        · obtain ⟨row', hcarried⟩ := hforward.carried other hother row chosen hchosen.carry
          exact ⟨row', { hcarried with isNew := List.mem_cons_of_mem _ hcarried.isNew }⟩
      · intro other hother hnot
        rw [List.mem_cons, not_or] at hnot
        refine hforward.others other (mem_carry_other hother ?_) hnot.2
        rw [carriedRow, hdefined.own]
        exact fun heq => hnot.1 (hsound.scopeIds.eq hother hfirst.1 heq)
      · rw [hforward.ids, ids_carry]

/-- The loop ends when the discovery has what the scopes name. -/
theorem foldEach_reviseScope_total (hunique : UniqueNames discovery) :
    ∀ {scopes : List ResourceScope} {store : Store} {created : List ResourceScopeRevision},
      store.Sound →
      (∀ scope ∈ scopes, scope ∈ store.scopes ∧ scope.ownerId = connector.id) →
      (scopes.map (·.id)).Nodup →
      (∀ scope ∈ scopes, ∃ current selection,
        Defined store scope current selection ∧ Contains discovery selection) →
      ∃ result, foldEach (reviseScope py digest connector revision discovery) (store, created)
        scopes = .ok result := by
  intro scopes
  induction scopes with
  | nil => exact fun _ _ _ _ => ⟨_, rfl⟩
  | cons scope scopes ih =>
      intro store created hsound hscopes hnodup hcontains
      rw [List.map_cons, List.nodup_cons] at hnodup
      obtain ⟨hfirst, hrest⟩ := List.forall_mem_cons.mp hscopes
      obtain ⟨⟨_, chosen, hchosen, hmine⟩, hothers⟩ := List.forall_mem_cons.mp hcontains
      obtain ⟨current, selection, hdefined, hlatest⟩ := hsound.defined scope hfirst.1
      obtain rfl := hdefined.current_eq hsound.toKeyed hchosen
      have hvalid : validateScope py discovery
          (selection.carried ⟨scope.name, hsound.names scope hfirst.1⟩) = .ok () :=
        (validateScope_ok_iff py hunique _).mpr (contains_carried.mpr
          ((hdefined.contains_iff py hsound.toKeyed hfirst.1 hchosen).mpr hmine))
      rw [foldEach, reviseScope_eq hsound hfirst.1 hfirst.2 hdefined hlatest, hvalid]
      refine ih (hsound.carried py digest revision hfirst.1 hdefined hlatest) ?_ hnodup.2 ?_
      · intro other hother
        refine ⟨mem_carry_other (hrest other hother).1 ?_, (hrest other hother).2⟩
        rw [carriedRow, hdefined.own]
        exact fun heq => hnodup.1 (heq ▸ List.mem_map_of_mem hother)
      · intro other hother
        obtain ⟨theirs, picked, hpicked, hhas⟩ := hothers other hother
        exact ⟨theirs, picked, hpicked.carry, hhas⟩

theorem mem_scopesOf {scope : ResourceScope} (h : scope ∈ store.scopesOf connector.id) :
    scope ∈ store.scopes ∧ scope.ownerId = connector.id := by
  obtain ⟨hmem, hselected⟩ := List.mem_filter.mp h
  exact ⟨hmem, (of_decide_eq_true hselected).2.1⟩

theorem scopesOf_nodup (hkeyed : store.Keyed) :
    ((store.scopesOf connector.id).map (·.id)).Nodup :=
  hkeyed.scopeIds.sublist (List.filter_sublist.map _)

/-- A scope that has no revision yet. -/
def Store.addRow (store : Store) (value : ResourceScope) : Store :=
  { store with scopes := store.scopes ++ [value], nextId := store.nextId + 1 }

theorem Store.Keyed.addRow (h : store.Keyed) {value : ResourceScope}
    (hid : value.id = store.nextId) (hname : value.name.length ≤ 255) :
    (store.addRow value).Keyed where
  scopeIds := by
    refine h.scopeIds.append ?_
    intro hmem
    obtain ⟨other, hother, heq⟩ := List.mem_map.mp hmem
    have hbelow := h.scopesBelow other hother
    omega
  revisionIds := h.revisionIds
  scopesBelow := by
    intro scope hscope
    show scope.id < store.nextId + 1
    obtain hscope | hscope := List.mem_append.mp hscope
    · exact Nat.lt_succ_of_lt (h.scopesBelow scope hscope)
    · rw [List.mem_singleton.mp hscope, hid]
      exact Nat.lt_succ_self _
  revisionsBelow := fun row hrow => Nat.lt_succ_of_lt (h.revisionsBelow row hrow)
  ownersBelow := fun row hrow => Nat.lt_succ_of_lt (h.ownersBelow row hrow)
  names := by
    intro scope hscope
    obtain hscope | hscope := List.mem_append.mp hscope
    · exact h.names scope hscope
    · rwa [List.mem_singleton.mp hscope]

/-- What `add_scope` adds: a scope, and a first revision that it points to. -/
theorem addScope_spec {scope : DatabaseScopeSelection} {after : Store}
    {row : ResourceScopeRevision} (hsound : store.Sound)
    (h : addScope py digest store connector revision scope = .ok (after, row)) :
    ∃ value : ResourceScope, value.id = store.nextId ∧ value.ownerId = connector.id ∧
      value.name.length ≤ 255 ∧ row.id = store.nextId + 1 ∧ row.resourceScopeId = value.id ∧
      row.scopeDefinition = scopeDefinition connector.id revision.id scope
        (databaseTypeOf py revision.connectionConfig Dict.empty) ∧
      after = (store.addRow value).carry row := by
  simp only [addScope] at h
  split at h
  next => cases h
  next hname =>
    obtain ⟨⟨inserted, new⟩, hinsert, heq⟩ := bind_eq_ok.mp h
    rw [insertRevision_eq] at hinsert
    · cases hinsert
      cases heq
      exact ⟨⟨store.nextId, _, "database_resource", "connector_instance", connector.id, none⟩, rfl,
        rfl, Nat.le_of_not_lt hname, rfl, rfl, rfl, rfl⟩
    · intro other hother hown
      have hbelow := hsound.ownersBelow other hother
      omega

theorem addScope_sound {scope : DatabaseScopeSelection} {after : Store}
    {row : ResourceScopeRevision} (hsound : store.Sound)
    (h : addScope py digest store connector revision scope = .ok (after, row)) : after.Sound := by
  obtain ⟨value, hid, howner, hname, hrow, hown, hmade, rfl⟩ := addScope_spec hsound h
  refine Store.Sound.of_carry (hsound.toKeyed.addRow hid hname) hrow hown
    ⟨revision.id, _, howner ▸ hmade⟩ (List.mem_append_right _ (List.mem_singleton_self value)) ?_ ?_
  · intro other hother hother'
    have hbelow := hsound.ownersBelow other hother
    omega
  · intro other hother hne
    obtain hother | hother := List.mem_append.mp hother
    · obtain ⟨current, selection, hdefined, hlatest⟩ := hsound.defined other hother
      exact ⟨current, selection, { hdefined with row := hdefined.row }, hlatest⟩
    · exact absurd (congrArg ResourceScope.id (List.mem_singleton.mp hother)) hne

/-- One action keeps the tables sound. -/
theorem step_sound {after : Store} {action : Action} (hsound : store.Sound)
    (h : (scopeSystem py digest).step store action = some after) : after.Sound := by
  cases action with
  | addScope connector revision scope =>
      cases h
      cases hadd : addScope py digest store connector revision scope with
      | ok result => exact addScope_sound hsound hadd
      | error e => exact hsound
  | revise connector revision discovery =>
      cases h
      cases hrevise : reviseScopesForConnectorRevision py digest store connector revision
          discovery with
      | ok result =>
          exact (foldEach_reviseScope hsound (fun _ => mem_scopesOf)
            (scopesOf_nodup hsound.toKeyed) hrevise).1
      | error e => exact hsound

theorem reachable_sound (h : Reachable py digest store) : store.Sound := by
  refine Transition.System.Reachable.invariant _ ?_ (fun _ _ _ hsound _ hstep =>
    step_sound hsound hstep) h
  rintro _ rfl
  exact ⟨⟨List.nodup_nil, List.nodup_nil, by simp, by simp, by simp, by simp⟩, by simp⟩

/-- **Scopes carried forward**, in any tables that `add_scope` and earlier revisions have made. -/
theorem revise_scopes_carry (h : Reachable py digest store) (hunique : UniqueNames discovery) :
    (∀ scope ∈ store.scopesOf connector.id, scope.name.length ≤ 255 ∧
      ∃ current selection, Defined store scope current selection) ∧
    ((∃ result, reviseScopesForConnectorRevision py digest store connector revision discovery =
        .ok result) ↔
      ∀ scope ∈ store.scopesOf connector.id, ∀ current selection,
        Defined store scope current selection → Contains discovery selection) ∧
    (∀ after created, reviseScopesForConnectorRevision py digest store connector revision
        discovery = .ok (after, created) →
      CarriedForward py revision store after (store.scopesOf connector.id) created) ∧
    ∀ e, reviseScopesForConnectorRevision py digest store connector revision discovery = .error e →
      (scopeSystem py digest).step store (.revise connector revision discovery) = some store := by
  have hsound := reachable_sound h
  have hnodup : ((store.scopesOf connector.id).map (·.id)).Nodup := scopesOf_nodup hsound.toKeyed
  refine ⟨?_, ⟨?_, ?_⟩, ?_, ?_⟩
  · intro scope hscope
    obtain ⟨hmem, -⟩ := mem_scopesOf hscope
    obtain ⟨current, selection, hdefined, -⟩ := hsound.defined scope hmem
    exact ⟨hsound.names scope hmem, current, selection, hdefined⟩
  · rintro ⟨⟨after, created⟩, hrevise⟩
    exact (foldEach_reviseScope hsound (fun _ => mem_scopesOf) hnodup hrevise).2.1 hunique
  · intro hcontains
    refine foldEach_reviseScope_total hunique hsound (fun _ => mem_scopesOf) hnodup ?_
    intro scope hscope
    obtain ⟨current, selection, hdefined, -⟩ := hsound.defined scope (mem_scopesOf hscope).1
    exact ⟨current, selection, hdefined, hcontains scope hscope current selection hdefined⟩
  · intro after created hrevise
    obtain ⟨-, -, new, rfl, hforward⟩ :=
      foldEach_reviseScope hsound (fun _ => mem_scopesOf) hnodup hrevise
    exact hforward
  · intro e herror
    simp only [scopeSystem, herror, committed]

end Actions

/-! ## Two scopes -/

def exampleName (s : String) (h : (s ≠ "" ∧ s.length ≤ 255) ∧ printable s = true ∧
    Python.strip s = s) : Name :=
  ⟨s, h.1.1, h.1.2, h.2.1, h.2.2⟩

def exampleObjects : DatabaseObjectSelection where
  name := exampleName "public" (by decide)
  tables := ⟨["orders"], by
    refine ⟨?_, List.nodup_singleton _⟩
    intro s hs
    rw [List.mem_singleton.mp hs]
    exact (exampleName "orders" (by decide)).property⟩
  views := ⟨[], by simp, List.nodup_nil⟩

def exampleSelection : DatabaseScopeSelection where
  database := exampleName "shop" (by decide)
  name := none
  schemas := [exampleObjects]
  permissions := ⟨true, true, true, false⟩
  limits := ⟨⟨200, by decide⟩, ⟨5000, by decide⟩, ⟨1000, by decide⟩, ⟨2097152, by decide⟩,
    ⟨60, by decide⟩⟩
  shape := ⟨List.nodup_singleton _, ⟨exampleObjects, List.mem_singleton_self _,
    .inl (List.cons_ne_nil _ _)⟩, by simp [exampleObjects]⟩

def examplePython : JsonPython := ⟨fun _ => "", fun _ => none⟩

def exampleDiscovery : Dict String Json :=
  Dict.ofPairs [("databases", .array [.object
    [("name", .string "shop"), ("status", .string "READY"),
      ("schemas", .array [.object
        [("name", .string "public"), ("tables", .array [.object [("name", .string "orders")]]),
          ("views", .array [])]])]])]

/-- Two scopes are selected for the connector's first revision. -/
def exampleAdditions : List Action :=
  [.addScope ⟨"c", "Shop"⟩ ⟨"r1", Dict.empty⟩ exampleSelection,
    .addScope ⟨"c", "Shop"⟩ ⟨"r1", Dict.empty⟩
      { exampleSelection with name := some ⟨"Sales", by decide⟩ }]

/-- Both are carried forward with the number 2. -/
theorem revise_scopes_carry_two :
    ∃ store after created,
      (scopeSystem examplePython fun _ => "").exec ⟨[], [], 0⟩ exampleAdditions = some store ∧
      reviseScopesForConnectorRevision examplePython (fun _ => "") store
        ⟨"c", "Shop"⟩ ⟨"r2", Dict.empty⟩ exampleDiscovery = .ok (after, created) ∧
      created.map (·.revision) = [2, 2] ∧
      CarriedForward examplePython ⟨"r2", Dict.empty⟩ store after (store.scopesOf "c") created := by
  obtain ⟨store, after, created, hexec, hrevise, hnumber⟩ : ∃ store after created,
      (scopeSystem examplePython fun _ => "").exec ⟨[], [], 0⟩ exampleAdditions = some store ∧
      reviseScopesForConnectorRevision examplePython (fun _ => "") store ⟨"c", "Shop"⟩
        ⟨"r2", Dict.empty⟩ exampleDiscovery = .ok (after, created) ∧
      created.map (·.revision) = [2, 2] := ⟨_, _, _, rfl, rfl, rfl⟩
  have hreachable : Reachable examplePython (fun _ => "") store :=
    ⟨_, rfl, Transition.System.path_of_exec exampleAdditions hexec⟩
  have hunique : UniqueNames exampleDiscovery := by
    refine ⟨List.nodup_singleton "shop", ?_⟩
    intro database hdatabase
    obtain rfl := List.mem_singleton.mp hdatabase
    exact List.nodup_singleton "public"
  exact ⟨store, after, created, hexec, hrevise, hnumber,
    (revise_scopes_carry hreachable hunique).2.2.1 after created hrevise⟩

end Connections
end HermesPlatform
