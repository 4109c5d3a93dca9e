/-
  HermesPlatform.PostgresMcp.Dialects

  The scope check of the databases other than PostgreSQL, against the objects
  their sessions read.

  A `Session` is the connection the query runs on: its database, its default
  schema and the case rule of its identifiers.  The check reduces a reference
  to a schema and a name, folds the case of both for three of the types, and
  passes over the catalog part, over table functions and, for a name without
  schema, over the default schema.  `references_designate_iff` says when every
  reference of an accepted query is nevertheless an object of the scope: the check
  vouches for a match, and the session has to read what is matched.
-/

import HermesPlatform.PostgresMcp.CteScope
import HermesPlatform.PostgresMcp.Validate
import Mathlib.Data.Option.Basic

namespace HermesPlatform
namespace PostgresMcp

open Python QueryTree

/-! ## Resolution in a session -/

/-- The types whose identifiers `_validate_analysis` compares without case. -/
def foldsCase (databaseType : String) : Bool :=
  ["oracle", "dm", "sqlserver"].contains databaseType

/-- A connection to a database of the type.  `same` compares an identifier as
    written with the name of an object.  In the types whose case the check does
    not fold, an identifier spelled like a name denotes it. -/
structure Session (databaseType : String) where
  database : String
  defaultSchema : String
  same : Ident → String → Bool
  same_self : foldsCase databaseType = false → ∀ i, same i i.text = true

/-- An optional part of a reference; an empty one counts as absent. -/
def part (i : Option Ident) : Option Ident := i.filter fun i => i.text ≠ ""

theorem partText_eq (i : Option Ident) : partText i = (part i).map Ident.text := by
  cases i with
  | none => rfl
  | some i =>
      by_cases h : i.text = ""
      · simp [partText, truthy, part, Option.filter, h]
      · simp [partText, truthy, part, Option.filter, h]

section Resolution

variable {databaseType : String} (S : Session databaseType)

/-- The written part, or the session's default when it is absent. -/
def Session.partDenotes (default : String) (p : Option Ident) (name : String) : Bool :=
  match part p with
  | some i => S.same i name
  | none => default == name

/-- `t` denotes the object `name` of `schema` in `database`.  A table function
    has no name and denotes no object. -/
def Session.denotes (t : TableExpr) (database schema name : String) : Prop :=
  S.partDenotes S.database t.catalog database = true ∧
  S.partDenotes S.defaultSchema t.db schema = true ∧
  ∃ i ∈ part t.this, S.same i name = true

/-- `t` denotes an object the scope lists.  The listed objects are those of the
    connection's database. -/
def DesignatesListed (schemas : Dict String SchemaScope) (t : TableExpr) : Prop :=
  ∃ e ∈ schemas.entries, ∃ name ∈ e.2.objects, S.denotes t S.database e.1 name

/-- `t` is read as the object `name` of `schema`. -/
def Session.takes (t : TableExpr) (schema name : String) : Prop :=
  S.partDenotes S.defaultSchema t.db schema = true ∧ ∃ i ∈ part t.this, S.same i name = true

/-- A name as `_validate_analysis` compares it. -/
abbrev folded (lower : String → String) (databaseType name : String) : String :=
  normalize lower (foldsCase databaseType) name

/-- The check of one reference. -/
abbrev checkTable (lower : String → String) (databaseType : String)
    (schemas : Dict String SchemaScope) (t : TableExpr) : Except ScopeError Unit :=
  let normalized := normalizedSchemas lower (foldsCase databaseType) schemas
  checkRelation lower (foldsCase databaseType) normalized
    (relationIndex lower (foldsCase databaseType) normalized) t.relation

/-- What the check compares of a reference and an object of the scope. -/
def Matches (lower : String → String) (databaseType : String) (t : TableExpr)
    (schema name : String) : Prop :=
  (∀ d ∈ part t.db, folded lower databaseType schema =
      folded lower databaseType d.text) ∧
    ∀ i ∈ part t.this, folded lower databaseType name =
      folded lower databaseType i.text

/-- What the check does not look at is in order, and what it matches is what the session
    reads; `names` are the names that it passes over. -/
structure CheckSees (lower : String → String) (names : List String)
    (schemas : Dict String SchemaScope) (t : TableExpr) : Prop where
  /-- `t` is not a table function. -/
  named : (part t.this).isSome = true
  /-- A catalog part names the connection's own database. -/
  catalog : ∀ c ∈ part t.catalog, S.same c S.database = true
  /-- A name that is passed over for the name of a `WITH` clause, without being a reference
      to it, is listed in the session's default schema. -/
  hidden : t.skipped names = true → ∃ definition, (S.defaultSchema, definition) ∈ schemas.entries ∧
    ∃ name ∈ definition.objects, ∃ i ∈ part t.this, S.same i name = true
  /-- A name without a schema is matched in the session's default schema only. -/
  unqualified : t.skipped names = false → part t.db = none →
    ∀ e ∈ schemas.entries, ∀ name ∈ e.2.objects, Matches lower databaseType t e.1 name →
      S.defaultSchema = e.1
  /-- Where the check folds case, the database takes the names as written for those that they
      match. -/
  caseRule : t.skipped names = false → foldsCase databaseType = true →
    ∀ e ∈ schemas.entries, ∀ name ∈ e.2.objects, Matches lower databaseType t e.1 name →
      (∀ d ∈ part t.db, S.same d e.1 = true) ∧ ∀ i ∈ part t.this, S.same i name = true

/-- The comparison can tell the objects of the scope apart: what the database takes for a
    name it matches, and no two schemas, or objects of a schema, fold to one name. -/
structure Unambiguous (lower : String → String) (schemas : Dict String SchemaScope) : Prop where
  schemaFolds : ∀ e ∈ schemas.entries, ∀ i, S.same i e.1 = true →
    folded lower databaseType e.1 = folded lower databaseType i.text
  nameFolds : ∀ e ∈ schemas.entries, ∀ name ∈ e.2.objects, ∀ i, S.same i name = true →
    folded lower databaseType name = folded lower databaseType i.text
  oneSchema : ∀ e ∈ schemas.entries, ∀ e' ∈ schemas.entries,
    folded lower databaseType e.1 = folded lower databaseType e'.1 → e = e'
  oneName : ∀ e ∈ schemas.entries, ∀ name ∈ e.2.objects, ∀ name' ∈ e.2.objects,
    folded lower databaseType name = folded lower databaseType name' →
      name = name'

end Resolution

/-! ## The references of a query -/

section References

variable (P : Parsers) (sameName : Ident → Ident → Bool) (sql databaseType : String)

/-- The table references of the query that are not CTE references, table
    functions included. -/
def physicalTables : List TableExpr :=
  match genericDialects.lookup databaseType with
  | none => []
  | some dialect =>
      match P.parse (String.ofList (trimStatement sql)) dialect with
      | some [some root] => physical (tableSees sameName) [] root
      | _ => []

end References

theorem runtimeType_some {databaseType : String} (h : databaseType ≠ "") :
    runtimeType (some databaseType) = databaseType := by
  simp [runtimeType, truthy, Option.filter, h]

theorem caseInsensitive_some {databaseType : String} (h : databaseType ≠ "") :
    caseInsensitive (some databaseType) = foldsCase databaseType := by
  rw [caseInsensitive, runtimeType_some h, foldsCase]

/-! ## What an accepted reference matches -/

section Checked

variable {databaseType : String} {S : Session databaseType} {lower : String → String}
  {names : List String} {schemas : Dict String SchemaScope} {t : TableExpr} {i : Ident}

theorem DesignatesListed.takes (h : DesignatesListed S schemas t) :
    (∀ c ∈ part t.catalog, S.same c S.database = true) ∧
      ∃ e ∈ schemas.entries, ∃ name ∈ e.2.objects, S.takes t e.1 name := by
  obtain ⟨e, he, name, hname, hcatalog, htakes⟩ := h
  refine ⟨?_, e, he, name, hname, htakes⟩
  intro c hc
  simpa [Session.partDenotes, Option.mem_def.mp hc] using hcatalog

/-- A catalog part is absent or names the connection's database. -/
theorem designatesListed_of_takes (hcatalog : ∀ c ∈ part t.catalog, S.same c S.database = true)
    {e : String × SchemaScope} (he : e ∈ schemas.entries) {name : String}
    (hname : name ∈ e.2.objects) (htakes : S.takes t e.1 name) : DesignatesListed S schemas t := by
  refine ⟨e, he, name, hname, ?_, htakes⟩
  cases hc : part t.catalog with
  | none => simp [Session.partDenotes, hc]
  | some c => simpa [Session.partDenotes, hc] using hcatalog c hc

/-- A name is passed over only where it has no schema. -/
theorem part_db_of_skipped (hi : part t.this = some i) (h : t.skipped names = true) :
    part t.db = none := by
  have hthis : partText t.this = some i.text := by
    rw [partText_eq, hi]
    rfl
  rw [TableExpr.skipped, hthis, Option.isNone_some, Bool.false_or, Bool.and_eq_true] at h
  rw [partText_eq, Option.isNone_map] at h
  exact Option.isNone_iff_eq_none.mp h.1

/-- Every schema of the scope that has the folded name is one of those the check has. -/
theorem mem_of_mem_normalizedSchemas {ci : Bool} {schema : String} {definition : SchemaScope}
    (h : (schema, definition) ∈ (normalizedSchemas lower ci schemas).entries) :
    ∃ e ∈ schemas.entries, normalize lower ci e.1 = schema ∧ e.2 = definition := by
  obtain ⟨e, he, heq⟩ := List.mem_map.mp (Dict.mem_of_mem_ofPairs h)
  exact ⟨e, he, congrArg Prod.fst heq, congrArg Prod.snd heq⟩

/-- An accepted reference matches an object of the scope. -/
theorem exists_matches (hi : part t.this = some i)
    (h : checkTable lower databaseType schemas t = .ok ()) :
    ∃ e ∈ schemas.entries, ∃ name ∈ e.2.objects, Matches lower databaseType t e.1 name := by
  have hthis : partText t.this = some i.text := by
    rw [partText_eq, hi]
    rfl
  simp only [checkTable, TableExpr.relation, hthis, partText_eq] at h
  -- The reference is listed under the folded schema, or under any where it has none.
  have hlists : ∃ schema, (∀ d ∈ part t.db, schema = folded lower databaseType d.text) ∧
      Lists lower (foldsCase databaseType) (normalizedSchemas lower (foldsCase databaseType) schemas)
        schema (folded lower databaseType i.text) := by
    cases hd : part t.db with
    | none =>
        rw [hd] at h
        obtain ⟨schema, -, hlists, -⟩ := checkRelation_none lower h
        exact ⟨schema, fun d hd => absurd hd (Option.not_mem_none d), hlists⟩
    | some d =>
        rw [hd] at h
        exact ⟨_, fun d' hd' => by rw [Option.mem_some.mp hd'], checkRelation_some lower h⟩
  obtain ⟨schema, hschema, definition, hentry, name, hname, heq⟩ := hlists
  obtain ⟨e, he, rfl, rfl⟩ := mem_of_mem_normalizedSchemas hentry
  refine ⟨e, he, name, hname, hschema, ?_⟩
  intro i' hi'
  rw [hi, Option.mem_some] at hi'
  rw [← hi']
  exact heq

/-- With one spelling for each schema the check has the schemas of the scope. -/
theorem Unambiguous.entries (h : Unambiguous S lower schemas) :
    (normalizedSchemas lower (foldsCase databaseType) schemas).entries =
      schemas.entries.map fun e => (folded lower databaseType e.1, e.2) := by
  refine Dict.entries_ofPairs ?_
  rw [List.map_map]
  refine List.Nodup.map_on ?_ (List.Nodup.of_map _ schemas.nodup)
  intro e he e' he' heq
  exact h.oneSchema e he e' he' heq

/-- Two objects of the scope that an accepted reference matches are one. -/
theorem Unambiguous.eq_of_matches (hscope : Unambiguous S lower schemas)
    (hi : part t.this = some i)
    (h : checkTable lower databaseType schemas t = .ok ())
    {e e' : String × SchemaScope} (he : e ∈ schemas.entries) (he' : e' ∈ schemas.entries)
    {name name' : String} (hname : name ∈ e.2.objects) (hname' : name' ∈ e'.2.objects)
    (hmatches : Matches lower databaseType t e.1 name)
    (hmatches' : Matches lower databaseType t e'.1 name') : e = e' ∧ name = name' := by
  have hthis : partText t.this = some i.text := by
    rw [partText_eq, hi]
    rfl
  have hlists : ∀ e ∈ schemas.entries, ∀ name ∈ e.2.objects, Matches lower databaseType t e.1 name →
      Lists lower (foldsCase databaseType) (normalizedSchemas lower (foldsCase databaseType) schemas)
        (folded lower databaseType e.1)
        (folded lower databaseType i.text) := by
    intro e he name hname hmatches
    refine ⟨e.2, ?_, name, hname, hmatches.2 i hi⟩
    rw [hscope.entries]
    exact List.mem_map_of_mem he
  have hschema : folded lower databaseType e.1 =
      folded lower databaseType e'.1 := by
    cases hd : part t.db with
    | some d => rw [hmatches.1 d hd, hmatches'.1 d hd]
    | none =>
        simp only [checkTable, TableExpr.relation, hthis, partText_eq, hd] at h
        obtain ⟨schema, -, -, hone⟩ := checkRelation_none lower h
        rw [hone _ (hlists e he name hname hmatches), hone _ (hlists e' he' name' hname' hmatches')]
  have heq := hscope.oneSchema e he e' he' hschema
  subst heq
  refine ⟨rfl, hscope.oneName e he name hname name' hname' ?_⟩
  rw [hmatches.2 i hi, hmatches'.2 i hi]

/-- What the session reads, an unambiguous scope matches. -/
theorem Unambiguous.matches (hscope : Unambiguous S lower schemas) {e : String × SchemaScope}
    (he : e ∈ schemas.entries) {name : String} (hname : name ∈ e.2.objects)
    (htakes : S.takes t e.1 name) : Matches lower databaseType t e.1 name := by
  obtain ⟨hschema, i, hi, hsame⟩ := htakes
  refine ⟨?_, ?_⟩
  · intro d hd
    rw [Session.partDenotes, Option.mem_def.mp hd] at hschema
    exact hscope.schemaFolds e he d hschema
  · intro i' hi'
    cases Option.some.inj (hi.symm.trans hi')
    exact hscope.nameFolds e he name hname i hsame

/-- What the comparison matches, the session reads. -/
theorem CheckSees.takes (h : CheckSees S lower names schemas t) (hchecked : t.skipped names = false)
    {e : String × SchemaScope} (he : e ∈ schemas.entries) {name : String}
    (hname : name ∈ e.2.objects) (hmatches : Matches lower databaseType t e.1 name) :
    S.takes t e.1 name := by
  have hsame : (∀ d ∈ part t.db, S.same d e.1 = true) ∧
      ∀ i ∈ part t.this, S.same i name = true := by
    cases hfolds : foldsCase databaseType with
    | true => exact h.caseRule hchecked hfolds e he name hname hmatches
    | false =>
        -- Without folding a match is spelled like the name it matches.
        have hspelled : ∀ i text,
            folded lower databaseType text = folded lower databaseType i.text →
            S.same i text = true := by
          intro i text heq
          simp only [folded, hfolds, normalize, Bool.false_eq_true, if_false] at heq
          rw [heq]
          exact S.same_self hfolds i
        exact ⟨fun d hd => hspelled d e.1 (hmatches.1 d hd),
          fun i hi => hspelled i name (hmatches.2 i hi)⟩
  obtain ⟨i, hi⟩ := Option.isSome_iff_exists.mp h.named
  refine ⟨?_, i, hi, hsame.2 i hi⟩
  cases hd : part t.db with
  | none =>
      have hdefault := h.unqualified hchecked hd e he name hname hmatches
      simp [Session.partDenotes, hd, hdefault]
  | some d => simpa [Session.partDenotes, hd] using hsame.1 d hd

/-- A reference that the check accepts, or passes over, denotes an object of the scope if
    the check sees all that its resolution depends on. -/
theorem CheckSees.designatesListed (h : CheckSees S lower names schemas t)
    (hchecked : t.skipped names = false →
      checkTable lower databaseType schemas t = .ok ()) :
    DesignatesListed S schemas t := by
  obtain ⟨i, hi⟩ := Option.isSome_iff_exists.mp h.named
  cases hskipped : t.skipped names with
  | true =>
      obtain ⟨definition, he, name, hname, hsame⟩ := h.hidden hskipped
      refine designatesListed_of_takes h.catalog he hname ⟨?_, hsame⟩
      simp [Session.partDenotes, part_db_of_skipped hi hskipped]
  | false =>
      -- The acceptance gives a match, and a match is what the session reads.
      obtain ⟨e, he, name, hname, hmatches⟩ := exists_matches hi (hchecked hskipped)
      exact designatesListed_of_takes h.catalog he hname (h.takes hskipped he hname hmatches)

/-- In an unambiguous scope the check has to see all of it. -/
theorem DesignatesListed.checkSees (h : DesignatesListed S schemas t)
    (hscope : Unambiguous S lower schemas)
    (hchecked : t.skipped names = false →
      checkTable lower databaseType schemas t = .ok ()) :
    CheckSees S lower names schemas t := by
  obtain ⟨hcatalog, e, he, name, hname, htakes⟩ := h.takes
  obtain ⟨hschema, i, hi, hsame⟩ := htakes
  -- A match is the object that the session reads.
  have hone : t.skipped names = false → ∀ e' ∈ schemas.entries, ∀ name' ∈ e'.2.objects,
      Matches lower databaseType t e'.1 name' → e = e' ∧ name = name' := by
    intro hskipped e' he' name' hname' hmatches'
    exact hscope.eq_of_matches hi (hchecked hskipped) he he' hname hname'
      (hscope.matches he hname ⟨hschema, i, hi, hsame⟩) hmatches'
  refine ⟨?_, hcatalog, ?_, ?_, ?_⟩
  · rw [Option.mem_def.mp hi]
    rfl
  · intro hskipped
    have hdefault : S.defaultSchema = e.1 := by
      simpa [Session.partDenotes, part_db_of_skipped hi hskipped] using hschema
    rw [hdefault]
    exact ⟨e.2, he, name, hname, i, hi, hsame⟩
  · intro hskipped hnone e' he' name' hname' hmatches'
    obtain ⟨rfl, rfl⟩ := hone hskipped e' he' name' hname' hmatches'
    simpa [Session.partDenotes, hnone] using hschema
  · intro hskipped _ e' he' name' hname' hmatches'
    obtain ⟨rfl, rfl⟩ := hone hskipped e' he' name' hname' hmatches'
    refine ⟨?_, ?_⟩
    · intro d hd
      simpa [Session.partDenotes, Option.mem_def.mp hd] using hschema
    · intro i' hi'
      rw [Option.mem_unique hi' hi]
      exact hsame

end Checked

/-- **Whole references.** Every table reference of an accepted query denotes an
    object the scope lists if the check sees everything its resolution depends
    on: no table function, no foreign catalog, no name passed over for a `WITH`
    clause that the default schema does not list, and for the others a match that
    the session reads as well.  In a scope whose objects the comparison can tell
    apart, only then. -/
theorem references_designate_iff (lower : String → String) (P : Parsers)
    (sameName : Ident → Ident → Bool) (sql databaseType : String) (S : Session databaseType)
    (procs : List PgProc) (scope : Scope) (analysis : QueryAnalysis)
    (hdb : databaseType ≠ "postgresql")
    (hanalysis : analyzeReadQuery lower P sql databaseType = .ok analysis)
    (hvalid : validateAnalysis lower procs (some databaseType) scope analysis = .ok ()) :
    ∃ schemas, scope.schemas = some schemas ∧
      ((∀ t ∈ physicalTables P sameName sql databaseType,
          CheckSees S lower (withNames P sql databaseType) schemas t) →
        ∀ t ∈ physicalTables P sameName sql databaseType, DesignatesListed S schemas t) ∧
      (Unambiguous S lower schemas →
        ((∀ t ∈ physicalTables P sameName sql databaseType, DesignatesListed S schemas t) ↔
          ∀ t ∈ physicalTables P sameName sql databaseType,
            CheckSees S lower (withNames P sql databaseType) schemas t)) := by
  obtain ⟨dialect, root, hdialect, hparse, hrelations⟩ := analyzeReadQuery_ok lower hdb hanalysis
  have htype : databaseType ≠ "" := by
    rintro rfl
    cases hdialect
  obtain ⟨schemas, hschemas, hcheck, -⟩ := validateAnalysis_ok lower hvalid
  rw [caseInsensitive_some htype] at hcheck
  have htables : physicalTables P sameName sql databaseType
      = physical (tableSees sameName) [] root := by
    simp only [physicalTables, hdialect, hparse]
  have hnames : withNames P sql databaseType = genericCteNames (walk root) := by
    simp only [withNames, if_neg hdb, hdialect, hparse]
  rw [htables, hnames]
  -- A reference that is not passed over is one of the relations that are checked.
  have hchecked : ∀ t ∈ physical (tableSees sameName) [] root,
      t.skipped (genericCteNames (walk root)) = false →
        checkTable lower databaseType schemas t = .ok () := by
    intro t ht hskipped
    have hwalk : .table t ∈ walk root := mem_walk_of_mem_physical (tableSees sameName) root [] ht
    exact hcheck _ ((hrelations _).mpr ⟨t, hwalk, hskipped, rfl⟩)
  refine ⟨schemas, hschemas, ?_, ?_⟩
  · intro hsees t ht
    exact (hsees t ht).designatesListed (hchecked t ht)
  · intro hscope
    apply forall₂_congr
    intro t ht
    exact ⟨fun h => h.checkSees hscope (hchecked t ht), fun h => h.designatesListed (hchecked t ht)⟩

/-! ## Two queries -/

/-- Parsers that know one text of the other dialects. -/
def genericParserOf (text : String) (root : GenericTree) : Parsers where
  parseSql _ := none
  parse sql _ := if sql = text then some [some root] else none

/-- `SELECT * FROM t`. -/
def genericSelectFrom (t : TableExpr) : GenericTree :=
  .query "Select" false [] [.node "Star" [], .node "From" [.table t []]]

def plain (text : String) : Ident := ⟨text, false⟩

def itemsScope (schema : String) : Scope where
  schemas := some (.ofPairs [(schema, ⟨some ["items"], some []⟩)])
  permissions := some ⟨some true⟩

/-- A MySQL connection to `business` with case-sensitive names. -/
def mysqlSession : Session "mysql" where
  database := "business"
  defaultSchema := "business"
  same i name := i.text == name
  same_self _ _ := beq_self_eq_true _

def mysqlTable : TableExpr := ⟨none, some (plain "business"), some (plain "items")⟩

theorem references_designate_mysql :
    ∃ schemas, (itemsScope "business").schemas = some schemas ∧
      ∀ t ∈ physicalTables
          (genericParserOf "SELECT * FROM business.items" (genericSelectFrom mysqlTable))
          (· == ·) "SELECT * FROM business.items" "mysql",
        DesignatesListed mysqlSession schemas t := by
  obtain ⟨schemas, hschemas, hsees, -⟩ := references_designate_iff asciiLower
    (genericParserOf "SELECT * FROM business.items" (genericSelectFrom mysqlTable))
    (· == ·) "SELECT * FROM business.items" "mysql" mysqlSession [] (itemsScope "business") _
    (by decide) rfl rfl
  refine ⟨schemas, hschemas, hsees ?_⟩
  intro t ht
  have heq : t = mysqlTable := List.mem_singleton.mp ht
  subst heq
  cases Option.some.inj (show (itemsScope "business").schemas = some _ from hschemas)
  exact ⟨rfl, fun c hc => absurd hc (Option.not_mem_none c), fun h => absurd h (by decide),
    fun _ hnone => absurd hnone (by decide), fun _ hfolds => absurd hfolds (by decide)⟩

/-- A SQL Server connection to `business` with ASCII case-insensitive names. -/
def sqlserverSession : Session "sqlserver" where
  database := "business"
  defaultSchema := "dbo"
  same i name := asciiLower i.text == asciiLower name
  same_self _ _ := beq_self_eq_true _

def sqlserverTable : TableExpr :=
  ⟨some (plain "payroll"), some (plain "dbo"), some (plain "items")⟩

/-- The scope lists `dbo.items` of the database `business`, and the accepted
    query reads `dbo.items` of the database `payroll`. -/
theorem references_designate_foreign_catalog :
    ∃ analysis schemas,
      analyzeReadQuery asciiLower
        (genericParserOf "SELECT * FROM payroll.dbo.items" (genericSelectFrom sqlserverTable))
        "SELECT * FROM payroll.dbo.items" "sqlserver" = .ok analysis ∧
      validateAnalysis asciiLower [] (some "sqlserver") (itemsScope "dbo") analysis = .ok () ∧
      (itemsScope "dbo").schemas = some schemas ∧
      sqlserverTable ∈ physicalTables
        (genericParserOf "SELECT * FROM payroll.dbo.items" (genericSelectFrom sqlserverTable))
        (· == ·) "SELECT * FROM payroll.dbo.items" "sqlserver" ∧
      sqlserverSession.denotes sqlserverTable "payroll" "dbo" "items" ∧
      ¬ DesignatesListed sqlserverSession schemas sqlserverTable := by
  refine ⟨_, _, rfl, rfl, rfl, List.mem_cons_self, ?_, ?_⟩
  · exact ⟨by decide, by decide, plain "items", rfl, by decide⟩
  · rintro ⟨e, -, name, -, hcatalog, -⟩
    revert hcatalog
    decide

end PostgresMcp
end HermesPlatform
