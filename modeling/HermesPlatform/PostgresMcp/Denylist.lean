/-
  HermesPlatform.PostgresMcp.Denylist

  The functions that an accepted query of the other dialects calls, against
  `DANGEROUS_FUNCTIONS`.

  The loop over the `exp.Func` nodes takes `sql_name()` before `name`.  That is the name of
  the class, which is the function's own for a class that sqlglot knows; a call of any other
  function is an `exp.Anonymous`, whose `sql_name()` is "ANONYMOUS" and whose `name` is the
  one that is written.  `denylist_effective_iff` says what follows for an accepted query.
-/

import HermesPlatform.PostgresMcp.Dialects

namespace HermesPlatform
namespace PostgresMcp

open Python QueryTree

/-- `sql_name()` of `exp.Anonymous`. -/
def anonymousName : String := "ANONYMOUS"

/-- The names that a call can be written with.  `sqlNames` are those that sqlglot knows a
    class by, from its `sql_name()`. -/
def FuncExpr.writtenNames (sqlNames : String → List String) (f : FuncExpr) : List String :=
  if f.sqlName = anonymousName ∨ f.sqlName = "" then [f.name] else sqlNames f.sqlName

/-- The calls of the tree that the text is read as. -/
def genericCalls (P : Parsers) (sql databaseType : String) : List FuncExpr :=
  match genericDialects.lookup databaseType with
  | none => []
  | some dialect =>
      match P.parse (String.ofList (trimStatement sql)) dialect with
      | some [some root] => (walk root).filterMap fun
          | .call f => some f
          | _ => none
      | _ => []

section Policy

variable (lower : String → String)

/-- A loop that completes has passed each call. -/
theorem scanFunc_passed {items : List (Item Ident TableExpr FuncExpr String)}
    {acc acc' : List (List String)} (h : foldEach (scanFunc lower) acc items = .ok acc') :
    ∀ f, .call f ∈ items → f.policyName lower ∉ dangerousFunctions := by
  have hloop := foldEach_induction
    (P := fun _ seen => ∀ f, .call f ∈ seen → f.policyName lower ∉ dangerousFunctions)
    ?_ items acc acc' [] (by simp) h
  · simpa using hloop
  intro acc acc' seen item hseen hstep f hf
  obtain hf | hf := List.mem_append.mp hf
  · exact hseen f hf
  rw [List.mem_singleton] at hf
  subst hf
  simp only [scanFunc] at hstep
  split at hstep
  next hempty =>
    rw [hempty]
    decide
  next =>
    split at hstep
    next => cases hstep
    next hpassed => simpa using hpassed

/-- An accepted query has passed the loop. -/
theorem policyName_of_accepted {P : Parsers} {sql databaseType : String} {a : QueryAnalysis}
    (hdb : databaseType ≠ "postgresql")
    (h : analyzeReadQuery lower P sql databaseType = .ok a) :
    ∀ f ∈ genericCalls P sql databaseType, f.policyName lower ∉ dangerousFunctions := by
  simp only [analyzeReadQuery, if_neg hdb] at h
  split at h
  · cases h
  rename_i dialect hdialect
  split at h
  · cases h
  split at h
  · cases h
  · rename_i cls recursive ctes parts hparse
    split at h
    · cases h
    split at h
    · cases h
    rw [bind_eq_ok] at h
    obtain ⟨functions, hloop, -⟩ := h
    intro f hf
    simp only [genericCalls, hdialect, hparse, List.mem_filterMap] at hf
    obtain ⟨item, hitem, hcall⟩ := hf
    apply scanFunc_passed lower hloop f
    split at hcall
    next g =>
      cases hcall
      exact hitem
    next => cases hcall
  · cases h
  · cases h

/-- What a call is written with, against what the loop compares. -/
theorem writtenNames_of_policyName {sqlNames : String → List String}
    (hnames : ∀ cls, ∀ name ∈ sqlNames cls, lower name ∈ dangerousFunctions →
      lower cls ∈ dangerousFunctions)
    {f : FuncExpr} (hknown : f.sqlName ≠ anonymousName)
    (hpassed : f.policyName lower ∉ dangerousFunctions) :
    ∀ name ∈ f.writtenNames sqlNames, lower name ∉ dangerousFunctions := by
  intro name hname
  simp only [FuncExpr.writtenNames, hknown, false_or] at hname
  simp only [FuncExpr.policyName] at hpassed
  split at hname
  next hempty =>
    rw [if_pos hempty] at hpassed
    rw [List.mem_singleton] at hname
    exact hname ▸ hpassed
  next hclass =>
    rw [if_neg hclass] at hpassed
    exact fun hdangerous => hpassed (hnames f.sqlName name hname hdangerous)

/-- **Denylist.** No call of an accepted query is written with a name of the list iff no call
    of a function that sqlglot does not know is. -/
theorem denylist_effective_iff (P : Parsers) (sqlNames : String → List String)
    (hnames : ∀ cls, ∀ name ∈ sqlNames cls, lower name ∈ dangerousFunctions →
      lower cls ∈ dangerousFunctions)
    (sql databaseType : String) (a : QueryAnalysis) (hdb : databaseType ≠ "postgresql")
    (h : analyzeReadQuery lower P sql databaseType = .ok a) :
    (∀ f ∈ genericCalls P sql databaseType,
        ∀ name ∈ f.writtenNames sqlNames, lower name ∉ dangerousFunctions) ↔
      ∀ f ∈ genericCalls P sql databaseType,
        f.sqlName = anonymousName → lower f.name ∉ dangerousFunctions := by
  constructor
  · intro hall f hf hanonymous
    apply hall f hf
    simp [FuncExpr.writtenNames, hanonymous]
  · intro hunknown f hf
    by_cases hanonymous : f.sqlName = anonymousName
    · intro name hname
      simp only [FuncExpr.writtenNames, hanonymous, true_or, if_true, List.mem_singleton] at hname
      exact hname ▸ hunknown f hf hanonymous
    · exact writtenNames_of_policyName lower hnames hanonymous
        (policyName_of_accepted lower hdb h f hf)

end Policy

/-! ## Two queries -/

/-- `SELECT f(..)`. -/
def genericSelectCall (f : FuncExpr) : GenericTree :=
  .query "Select" false [] [.call f [.node "Literal" []]]

/-- `exp.Abs`. -/
def absCall : FuncExpr := ⟨"ABS", "5", false⟩

theorem denylist_effective_abs :
    (genericCalls (genericParserOf "SELECT ABS(5)" (genericSelectCall absCall))
        "SELECT ABS(5)" "mysql" = [absCall]) ∧
      ∀ f ∈ genericCalls (genericParserOf "SELECT ABS(5)" (genericSelectCall absCall))
          "SELECT ABS(5)" "mysql",
        ∀ name ∈ f.writtenNames ([·]), asciiLower name ∉ dangerousFunctions := by
  refine ⟨by decide, ?_⟩
  apply (denylist_effective_iff asciiLower
    (genericParserOf "SELECT ABS(5)" (genericSelectCall absCall)) ([·]) ?_ "SELECT ABS(5)" "mysql"
    _ (by decide) rfl).mpr
  · decide
  · rintro cls name hname hdangerous
    rw [List.mem_singleton] at hname
    exact hname ▸ hdangerous

/-- `exp.Anonymous` for a function that MySQL has and sqlglot does not know. -/
def sleepCall : FuncExpr := ⟨anonymousName, "Sleep", false⟩

/-- The query is accepted, though `sleep` is on the list. -/
theorem denylist_misses_sleep :
    ∃ a, analyzeReadQuery asciiLower
        (genericParserOf "SELECT Sleep(5)" (genericSelectCall sleepCall))
        "SELECT Sleep(5)" "mysql" = .ok a ∧
      sleepCall ∈ genericCalls (genericParserOf "SELECT Sleep(5)" (genericSelectCall sleepCall))
        "SELECT Sleep(5)" "mysql" ∧
      asciiLower sleepCall.name ∈ dangerousFunctions :=
  ⟨_, rfl, by decide, by decide⟩

end PostgresMcp
end HermesPlatform
