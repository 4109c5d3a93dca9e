/-
  HermesPlatform.PostgresMcp.Functions

  The functions an accepted PostgreSQL query invokes.

  The check asks `pg_proc` about the functions of `pg_catalog` that have the
  written name.  The executed query resolves the name with its argument types
  over `pg_catalog` and the scoped schemas, where an overload of a scoped schema
  can be the better match, and also invokes functions that no `FuncCall` node
  names: those behind operators and behind functional notation.
  `invocations_confined_iff` says which invocations the check confines.
-/

import HermesPlatform.Lib.Overload
import HermesPlatform.PostgresMcp.SearchPath

namespace HermesPlatform
namespace PostgresMcp

open Python QueryTree Overload

/-! ## The catalog -/

/-- A row of `pg_operator` with the function behind it. -/
structure PgOper where
  nspname : String
  oprname : String
  argTypes : List String
  oprcode : PgProc
deriving DecidableEq, Repr

def PgProc.signature (p : PgProc) : Signature := ⟨p.nspname, p.proname, p.argTypes⟩

def PgOper.signature (o : PgOper) : Signature := ⟨o.nspname, o.oprname, o.argTypes⟩

/-- Functions and operators of a database, and how PostgreSQL chooses between
    overloads none of which takes the argument types exactly. -/
structure PgCatalog where
  procs : List PgProc
  opers : List PgOper
  chooseProc : Choice PgProc
  chooseOper : Choice PgOper

/-- The schema part of a written name. -/
def nameQualifier (name : List String) : Option String := name.dropLast.getLast?

/-- The function a node of the query invokes. -/
def invokes (C : PgCatalog) (path : List String) : PgCall → Option PgProc
  | .funcCall name _ argTypes =>
      resolve PgProc.signature C.chooseProc C.procs path (nameQualifier name)
        (name.getLastD "") argTypes
  | .operator name argTypes =>
      (resolve PgOper.signature C.chooseOper C.opers path (nameQualifier name)
        (name.getLastD "") argTypes).map PgOper.oprcode
  | .fieldCall field argType =>
      resolve PgProc.signature C.chooseProc C.procs path none field [argType]

/-- The nodes of the query that invoke a function. -/
def pgCalls (P : Parsers) (sql : String) : List PgCall :=
  match P.parseSql (String.ofList (trimStatement sql)) with
  | some [root] => (walk root).filterMap fun
      | .call c => some c
      | _ => none
  | _ => []

/-! ## Confinement -/

/-- What the check is there for. -/
def Confined (p : PgProc) : Prop :=
  p.nspname = "pg_catalog" ∧ p.provolatile ≠ .volatile ∧ p.prosecdef = false

theorem readOnly_iff {p : PgProc} :
    p.readOnly = true ↔ p.provolatile ≠ .volatile ∧ p.prosecdef = false := by
  simp [PgProc.readOnly]

/-- The invocation of `p` by `c` is one the check covers: an unqualified call
    that no overload of a scoped schema wins, or a call qualified as
    `pg_catalog` in lower case.  Of operators and functional notation the check
    sees nothing, and `p` itself must be harmless. -/
def Covered (schemas : Dict String SchemaScope) (c : PgCall) (p : PgProc) : Prop :=
  match c with
  | .funcCall name _ _ =>
      match nameQualifier name with
      | none => p.nspname ∈ schemas.keys → p.nspname = "pg_catalog"
      | some schema => schema = "pg_catalog"
  | .operator _ _ => Confined p
  | .fieldCall _ _ => Confined p

/-- A function of a checked name in `pg_catalog` is harmless. -/
theorem confined_of_safe {procs : List PgProc} {p : PgProc} (hp : p ∈ procs)
    (hschema : p.nspname = "pg_catalog") (hsafe : safeFunction procs p.proname = some true) :
    Confined p := by
  obtain ⟨-, hall⟩ := safeFunction_eq_true.mp hsafe
  exact ⟨hschema, readOnly_iff.mp (hall p hp hschema rfl)⟩

theorem confined_iff_covered {C : PgCatalog} {schemas : Dict String SchemaScope} {c : PgCall}
    {p : PgProc} (hinv : invokes C ("pg_catalog" :: sortedSchemas schemas) c = some p)
    (hsafe : ∀ name over_ argTypes, c = .funcCall name over_ argTypes →
      safeFunction C.procs (name.getLastD "") = some true) :
    Confined p ↔ Covered schemas c p := by
  cases c with
  | operator name argTypes => exact Iff.rfl
  | fieldCall field argType => exact Iff.rfl
  | funcCall name over_ argTypes =>
      -- The check has asked for the last part of the name only.
      have hsafe' := hsafe name over_ argTypes rfl
      have hmem := resolve_mem PgProc.signature hinv
      simp only [Covered]
      cases hq : nameQualifier name with
      | none =>
          rw [hq, mem_candidates_unqualified] at hmem
          obtain ⟨hp, hname, hpath, -⟩ := hmem
          have hproname : p.proname = name.getLastD "" := hname
          rw [← hproname] at hsafe'
          simp only
          refine ⟨?_, ?_⟩
          · exact fun h _ => h.1
          · intro h
            -- A function on the path that is of no scoped schema is of `pg_catalog`.
            have hschema : p.nspname = "pg_catalog" := by
              rcases List.mem_cons.mp hpath with heq | hscoped
              · exact heq
              · exact h (mem_sortedSchemas.mp hscoped)
            exact confined_of_safe hp hschema hsafe'
      -- A qualified call can only resolve in the schema it names.
      | some schema =>
          rw [hq, mem_candidates_qualified] at hmem
          obtain ⟨hp, hschema, hname⟩ := hmem
          have hnspname : p.nspname = schema := hschema
          have hproname : p.proname = name.getLastD "" := hname
          rw [← hproname] at hsafe'
          simp only
          refine ⟨?_, ?_⟩
          · exact fun h => hnspname ▸ h.1
          · exact fun h => confined_of_safe hp (hnspname.trans h) hsafe'

/-- `lower(text)` as shipped. -/
def lowerText : PgProc := ⟨"pg_catalog", "lower", ["text"], .immutable, false⟩

/-- A volatile `SECURITY DEFINER` overload in a scoped schema. -/
def lowerInteger : PgProc := ⟨"public", "lower", ["integer"], .volatile, true⟩

/-- `SELECT lower(argument) FROM public.items`. -/
def selectLower (argType : String) : PgTree :=
  .query (.selectStmt false false) false []
    [.node (.other "ResTarget")
      [.call (.funcCall ["lower"] false [argType]) [.node (.other "ColumnRef") []]],
     rangeVar (some "public") "items"]

def publicCatalog : PgCatalog := ⟨[lowerText, lowerInteger], [], .exact, .exact⟩

end PostgresMcp
end HermesPlatform
