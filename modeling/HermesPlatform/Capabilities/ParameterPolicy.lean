/-
  HermesPlatform.Capabilities.ParameterPolicy

  Two readers of one parameter policy: `apply_parameter_policy` of the backend, and
  `_apply_policy` of the gateway on a policy of any shape.

  The backend skips a rule that has not the shape it expects; the gateway reads it as
  Python does, and knows no `max_length` and no `regex`.  What only one of them rejects
  is `backendOnly` and `gatewayOnly`; they agree just where these do (`policies_agree_iff`).

  `str.lower`, `repr`, `in`, the order of Python values, `int` and `re.fullmatch` are
  parameters.
-/

import HermesPlatform.Gateway.Policy
import Mathlib.Data.List.Dedup

namespace HermesPlatform
namespace Capabilities

open Python
open Gateway (GatewayError PythonValues internalError truthy protectedFields protectedPaths
  protectedItems protectedMembers isForbidden memberPath checkForbidden checkRequired checkField
  setScope ParameterPolicy)

/-- What the two functions use of Python's values; `none` where it raises.  In `order`
    the inner `none` is a comparison with a NaN. -/
structure PolicyPython where
  lower : String → String
  /-- `str` of a value that is no string. -/
  repr : Json → String
  isIn : Json → Json → Option Bool
  order : Json → Json → Option (Option Ordering)
  int : Json → Option Int
  /-- `re.fullmatch(pattern, string) is not None`. -/
  fullmatch : String → String → Option Bool

namespace PolicyPython

variable (py : PolicyPython)

def greater (a b : Json) : Option Bool := (py.order a b).map (· = some .gt)

def less (a b : Json) : Option Bool := (py.order a b).map (· = some .lt)

def atMost (a b : Json) : Option Bool := (py.order a b).map fun o => o = some .lt ∨ o = some .eq

def atLeast (a b : Json) : Option Bool := (py.order a b).map fun o => o = some .gt ∨ o = some .eq

def values : PythonValues :=
  { lower := py.lower
    repr := py.repr
    isIn := py.isIn
    greater := py.greater
    less := py.less }

end PolicyPython

/-! ## `apply_parameter_policy` -/

/-- A `ParameterPolicyError`, or any other exception. -/
inductive PolicyFailure where
  | policy (message : String)
  | other
deriving DecidableEq, Repr

/-- `str(item) for item in rule`, where the rule is a list. -/
def listNames (py : PolicyPython) : Option Json → List String
  | some (.array items) => items.map py.values.str
  | _ => []

/-- The items of a rule that is a dictionary. -/
def dictRules : Option Json → List (String × Json)
  | some (.object members) => members
  | _ => []

def isArray : Json → Bool
  | .array _ => true
  | _ => false

/-- `isinstance(v, (int, float)) and not isinstance(v, bool)`. -/
def isNumber : Json → Bool
  | .int _ | .float _ => true
  | _ => false

/-- `len(v)`, where there is one. -/
def lenOf : Json → Option Int
  | .string s => some s.length
  | .array items => some items.length
  | .object members => some members.length
  | _ => none

/-- `", ".join(sorted(names))`. -/
def joinSorted (names : List String) : String := ", ".intercalate (names.insertionSort (· ≤ ·))

/-- A rule for one field that the arguments have: `accepts` is `none` where it raises. -/
def checkRule (accepts : Json → Json → Option Bool) (complaint : String) (args : Dict String Json)
    (entry : String × Json) : Except PolicyFailure Unit :=
  match args.get? entry.1 with
  | none => .ok ()
  | some v =>
      match accepts v entry.2 with
      | none => .error .other
      | some true => .ok ()
      | some false => .error (.policy ("parameter " ++ entry.1 ++ " " ++ complaint))

/-- `not isinstance(choices, list) or value in choices`. -/
def choiceAccepts (py : PolicyPython) (v choices : Json) : Option Bool :=
  if isArray choices then py.isIn v choices else some true

/-- The comparison of a number; other values are not compared. -/
def boundAccepts (compare : Json → Json → Option Bool) (v limit : Json) : Option Bool :=
  if isNumber v then compare v limit else some true

def lengthAccepts (py : PolicyPython) (v limit : Json) : Option Bool :=
  match lenOf v with
  | some n => (py.int limit).map (n ≤ ·)
  | none => some true

def regexAccepts (py : PolicyPython) (v pattern : Json) : Option Bool :=
  match v with
  | .string s => py.fullmatch (py.values.str pattern) s
  | _ => some false

/-- `raise ParameterPolicyError(..)` where there are names to complain about. -/
def rejectNames (complaint : String) (names : List String) : Except PolicyFailure Unit :=
  if names ≠ [] then .error (.policy (complaint ++ ": " ++ joinSorted names)) else .ok ()

/-- `apply_parameter_policy`. -/
def applyParameterPolicy (py : PolicyPython) (args policy : Dict String Json)
    (scope : Option (Dict String Json)) : Except PolicyFailure (Dict String Json) := do
  let forbidden := protectedFields ++ listNames py (policy.get? "forbidden_fields")
  rejectNames "forbidden parameters"
    (protectedPaths py.values forbidden (.object args.entries) "").dedup
  rejectNames "missing required parameters"
    ((listNames py (policy.get? "required_fields")).filter (· ∉ args.keys))
  forEach (checkRule (choiceAccepts py) "is not an allowed value" args)
    (dictRules (policy.get? "allowed_values"))
  forEach (checkRule (boundAccepts py.atLeast) "violates minimum" args)
    (dictRules (policy.get? "minimum"))
  forEach (checkRule (boundAccepts py.atMost) "violates maximum" args)
    (dictRules (policy.get? "maximum"))
  forEach (checkRule (lengthAccepts py) "exceeds max_length" args)
    (dictRules (policy.get? "max_length"))
  forEach (checkRule (regexAccepts py) "does not match policy" args)
    (dictRules (policy.get? "regex"))
  let value := args.update (dictRules (policy.get? "fixed"))
  let value := value.update (dictRules (policy.get? "injected_fields"))
  pure (setScope scope value)

/-! ## `_apply_policy` -/

/-- `str(item) for item in policy.get(key, [])`; `none` where it is not iterable. -/
def iterNames (py : PolicyPython) : Option Json → Option (List String)
  | none => some []
  | some (.array items) => some (items.map py.values.str)
  | some (.string s) => some (s.toList.map fun c => String.ofList [c])
  | some (.object members) => some (members.map Prod.fst)
  | some _ => none

/-- `(policy.get(key) or {}).items()`; `none` where it has no items. -/
def ruleItems : Option Json → Option (List (String × Json))
  | none => some []
  | some v =>
      if truthy v then
        match v with
        | .object members => some members
        | _ => none
      else some []

/-- An element of a sequence that `dict.update` takes for a pair. -/
def pairOf : Json → Option (Json × Json)
  | .array [key, v] => some (key, v)
  | .string s =>
      match s.toList with
      | [c, d] => some (.string (String.ofList [c]), .string (String.ofList [d]))
      | _ => none
  | .object [(key, _), (key', _)] => some (.string key, .string key')
  | _ => none

def hashable : Json → Bool
  | .array _ | .object _ => false
  | _ => true

/-- What `value.update(policy.get(key) or {})` sets; `none` where it raises. -/
def updateItems : Option Json → Option (List (Json × Json))
  | none => some []
  | some v =>
      if truthy v then
        match v with
        | .object members => some (members.map fun m => (.string m.1, m.2))
        | .array items => (items.mapM pairOf).filter fun pairs => pairs.all (hashable ·.1)
        | _ => none
      else some []

/-- A setting of a field; the keys of a sequence need not be strings. -/
def fieldSetting : Json × Json → Option (String × Json)
  | (.string key, v) => some (key, v)
  | _ => none

/-- The fields of the result, and what is set under keys that are no strings. -/
structure ScopedArguments where
  fields : Dict String Json
  others : List (Json × Json)

/-- The value, or an exception that is no `GatewayError`. -/
def orRaise {α : Type} : Option α → Except GatewayError α
  | some a => .ok a
  | none => .error internalError

/-- `_apply_policy` on a policy of any shape.  On one that has the shape of
    `Gateway.ParameterPolicy` it is `Gateway.applyPolicy`, see
    `applyPolicyJson_policyJson`. -/
def applyPolicyJson (py : PolicyPython) (args policy : Dict String Json)
    (scope : Option (Dict String Json)) : Except GatewayError ScopedArguments := do
  let forbidden ← orRaise (iterNames py (policy.get? "forbidden_fields"))
  checkForbidden py.values (protectedFields ++ forbidden) args
  let required ← orRaise (iterNames py (policy.get? "required_fields"))
  forEach (checkRequired args) required
  let allowed ← orRaise (ruleItems (policy.get? "allowed_values"))
  forEach (checkField py.values.notIn "不在允许范围" args) allowed
  let maximum ← orRaise (ruleItems (policy.get? "maximum"))
  forEach (checkField py.greater "超过上限" args) maximum
  let minimum ← orRaise (ruleItems (policy.get? "minimum"))
  forEach (checkField py.less "低于下限" args) minimum
  let fixed ← orRaise (updateItems (policy.get? "fixed"))
  let value := args.update (fixed.filterMap fieldSetting)
  let injected ← orRaise (updateItems (policy.get? "injected_fields"))
  let value := value.update (injected.filterMap fieldSetting)
  pure ⟨setScope scope value, (fixed ++ injected).filter (fieldSetting · |>.isNone)⟩

/-! ## Reasons to reject -/

section Reasons

variable (py : PolicyPython) (args policy : Dict String Json)

/-- The value of the field breaks the rule, or the comparison raises. -/
def breaks (violates : Json → Json → Option Bool) (entry : String × Json) : Bool :=
  match args.get? entry.1 with
  | none => false
  | some v => violates v entry.2 != some false

def numeric (entry : String × Json) : Bool := (args.get? entry.1).any isNumber

/-- A forbidden key in the arguments, at any depth. -/
def hasForbidden (names : List String) : Bool :=
  protectedPaths py.values (protectedFields ++ names) (.object args.entries) "" ≠ []

def lacks (names : List String) : Bool := names.any (· ∉ args.keys)

/-- A comparison of a number with a NaN. -/
def unordered (entry : String × Json) : Bool :=
  match args.get? entry.1 with
  | none => false
  | some v => isNumber v && py.order v entry.2 = some none

/-- What both reject. -/
def shared : Bool :=
  hasForbidden py args (listNames py (policy.get? "forbidden_fields")) ||
  lacks args (listNames py (policy.get? "required_fields")) ||
  (dictRules (policy.get? "allowed_values")).any (fun e =>
    isArray e.2 && breaks args py.values.notIn e) ||
  (dictRules (policy.get? "maximum")).any (fun e => numeric args e && breaks args py.greater e) ||
  (dictRules (policy.get? "minimum")).any (fun e => numeric args e && breaks args py.less e)

/-- What only the backend rejects: a `max_length` or `regex` rule that is broken or cannot
    be evaluated, and a bound that a number cannot be compared with. -/
def backendOnly : Bool :=
  (dictRules (policy.get? "maximum")).any (unordered py args) ||
  (dictRules (policy.get? "minimum")).any (unordered py args) ||
  (dictRules (policy.get? "max_length")).any (breaks args fun v limit =>
    (lengthAccepts py v limit).map not) ||
  (dictRules (policy.get? "regex")).any (breaks args fun v pattern =>
    (regexAccepts py v pattern).map not)

/-- `rule` is no list, and what Python iterates over instead makes the gateway reject. -/
def otherNames (rejects : List String → Bool) (rule : Option Json) : Bool :=
  !rule.any isArray && (iterNames py rule).all rejects

/-- What only the gateway rejects: rules that have not the shape the backend expects, and
    bounds for values that are no numbers. -/
def gatewayOnly : Bool :=
  otherNames py (hasForbidden py args) (policy.get? "forbidden_fields") ||
  otherNames py (lacks args) (policy.get? "required_fields") ||
  (ruleItems (policy.get? "allowed_values")).all (·.any fun e =>
    !isArray e.2 && breaks args py.values.notIn e) ||
  (ruleItems (policy.get? "maximum")).all (·.any fun e =>
    !numeric args e && breaks args py.greater e) ||
  (ruleItems (policy.get? "minimum")).all (·.any fun e =>
    !numeric args e && breaks args py.less e) ||
  updateItems (policy.get? "fixed") = none ||
  updateItems (policy.get? "injected_fields") = none

end Reasons

variable {py : PolicyPython} {args policy : Dict String Json} {scope : Option (Dict String Json)}

/-! ## Forbidden keys -/

theorem isForbidden_mono {values : PythonValues} {names names' : List String} (h : names ⊆ names')
    {key : String} (hkey : isForbidden values names key = true) : isForbidden values names' key = true := by
  simp only [isForbidden, decide_eq_true_eq] at hkey ⊢
  exact List.map_subset _ h hkey

/-- More forbidden names find more paths. -/
theorem protectedPaths_mono {values : PythonValues} {names names' : List String} (h : names ⊆ names')
    (v : Json) : ∀ path, protectedPaths values names v path ⊆ protectedPaths values names' v path := by
  induction v with
  | null | bool | int | float | string => exact fun _ => List.Subset.refl _
  | array items ih =>
      intro path
      simp only [protectedPaths]
      generalize 0 = index
      induction items generalizing index with
      | nil => exact List.Subset.refl _
      | cons v rest ihrest =>
          simp only [protectedItems]
          refine List.append_subset.2 ⟨?_, ?_⟩
          · exact List.subset_append_of_subset_left _ (ih v List.mem_cons_self _)
          · exact List.subset_append_of_subset_right _
              (ihrest (fun w hw => ih w (List.mem_cons_of_mem _ hw)) _)
  | object members ih =>
      intro path
      simp only [protectedPaths]
      induction members with
      | nil => exact List.Subset.refl _
      | cons m rest ihrest =>
          obtain ⟨key, v⟩ := m
          simp only [protectedMembers]
          refine List.append_subset.2 ⟨List.append_subset.2 ⟨?_, ?_⟩, ?_⟩
          · split
            next hkey =>
              rw [if_pos (isForbidden_mono h hkey)]
              exact List.subset_append_of_subset_left _ (List.subset_append_left _ _)
            next => exact List.nil_subset _
          · exact List.subset_append_of_subset_left _
              (List.subset_append_of_subset_right _ (ih (key, v) List.mem_cons_self _))
          · exact List.subset_append_of_subset_right _
              (ihrest fun w hw => ih w (List.mem_cons_of_mem _ hw))

theorem hasForbidden_mono {names : List String} (h : hasForbidden py args [] = true) :
    hasForbidden py args names = true := by
  simp only [hasForbidden, decide_eq_true_eq, ne_eq] at h ⊢
  intro hnone
  have hsub : protectedPaths py.values (protectedFields ++ []) (.object args.entries) "" ⊆
      protectedPaths py.values (protectedFields ++ names) (.object args.entries) "" :=
    protectedPaths_mono
      (List.append_subset.2 ⟨List.subset_append_left protectedFields names, List.nil_subset _⟩) _ _
  rw [hnone] at hsub
  exact h (List.subset_nil.1 hsub)

/-! ## One rule -/

theorem forbidden_ok {names : List String} :
    checkForbidden py.values (protectedFields ++ names) args = .ok () ↔
      hasForbidden py args names = false := by
  rw [Gateway.checkForbidden_ok, hasForbidden, decide_eq_false_iff_not, not_not]

theorem forEach_required_ok {names : List String} :
    forEach (checkRequired args) names = .ok () ↔ lacks args names = false := by
  rw [forEach_eq_ok, lacks, List.any_eq_false]
  refine forall₂_congr fun name _ => ?_
  simp only [checkRequired]
  split <;> simp_all

theorem field_ok {violates : Json → Json → Option Bool} {complaint : String}
    {entry : String × Json} :
    checkField violates complaint args entry = .ok () ↔ breaks args violates entry = false := by
  rw [Gateway.checkField_ok, breaks]
  cases args.get? entry.1 with
  | none => simp
  | some v => simp

theorem checkRule_ok {accepts : Json → Json → Option Bool} {complaint : String}
    {entry : String × Json} :
    checkRule accepts complaint args entry = .ok () ↔
      breaks args (fun v bound => (accepts v bound).map not) entry = false := by
  simp only [checkRule, breaks]
  cases args.get? entry.1 with
  | none => simp
  | some v =>
      dsimp only
      rcases accepts v entry.2 with _ | _ | _ <;> simp

theorem forEach_field_ok {violates : Json → Json → Option Bool} {complaint : String}
    {entries : List (String × Json)} :
    forEach (checkField violates complaint args) entries = .ok () ↔
      entries.any (breaks args violates) = false := by
  rw [forEach_eq_ok, List.any_eq_false]
  exact forall₂_congr fun entry _ => field_ok.trans (Bool.not_eq_true _).symm.to_iff

theorem forEach_rule_ok {accepts : Json → Json → Option Bool} {complaint : String}
    {entries : List (String × Json)} :
    forEach (checkRule accepts complaint args) entries = .ok () ↔
      entries.any (breaks args fun v bound => (accepts v bound).map not) = false := by
  rw [forEach_eq_ok, List.any_eq_false]
  exact forall₂_congr fun entry _ => checkRule_ok.trans (Bool.not_eq_true _).symm.to_iff

/-- The backend compares with the choices that are lists. -/
theorem breaks_choice (entry : String × Json) :
    breaks args (fun v choices => (choiceAccepts py v choices).map not) entry =
      (isArray entry.2 && breaks args py.values.notIn entry) := by
  simp only [breaks, choiceAccepts]
  split
  · simp
  · cases isArray entry.2 <;> simp [PythonValues.notIn, PolicyPython.values]

/-- The backend compares numbers only, and rejects what is not ordered. -/
theorem breaks_maximum (entry : String × Json) :
    breaks args (fun v limit => (boundAccepts py.atMost v limit).map not) entry =
      ((numeric args entry && breaks args py.greater entry) || unordered py args entry) := by
  simp only [breaks, boundAccepts, numeric, unordered]
  split
  next hnone => simp [hnone]
  next v hv =>
    rw [hv, Option.any_some]
    cases isNumber v with
    | false => simp
    | true =>
        rcases horder : py.order v entry.2 with _ | _ | _ | _ | _ <;>
          simp [PolicyPython.atMost, PolicyPython.greater, horder]

theorem breaks_minimum (entry : String × Json) :
    breaks args (fun v limit => (boundAccepts py.atLeast v limit).map not) entry =
      ((numeric args entry && breaks args py.less entry) || unordered py args entry) := by
  simp only [breaks, boundAccepts, numeric, unordered]
  split
  next hnone => simp [hnone]
  next v hv =>
    rw [hv, Option.any_some]
    cases isNumber v with
    | false => simp
    | true =>
        rcases horder : py.order v entry.2 with _ | _ | _ | _ | _ <;>
          simp [PolicyPython.atLeast, PolicyPython.less, horder]

/-! ## What the gateway reads -/

theorem ruleItems_eq_dictRules {rule : Option Json} {entries : List (String × Json)}
    (h : ruleItems rule = some entries) : entries = dictRules rule := by
  cases rule with
  | none =>
      cases h
      rfl
  | some v =>
      simp only [ruleItems] at h
      split at h
      · split at h
        · cases h
          rfl
        · cases h
      next hfalse =>
        cases h
        cases v with
        | object members =>
            rw [Gateway.truthy, Bool.not_eq_true, Bool.not_eq_false', List.isEmpty_iff] at hfalse
            exact hfalse.symm
        | null | bool | int | float | string | array => rfl

theorem any_or {α : Type} (l : List α) (p q : α → Bool) :
    (l.any fun a => p a || q a) = (l.any p || l.any q) := by
  induction l with
  | nil => rfl
  | cons a rest ih =>
      rw [List.any_cons, List.any_cons, List.any_cons, ih]
      cases p a <;> cases q a <;> simp

theorem any_split {α : Type} (l : List α) (p q : α → Bool) :
    l.any q = ((l.any fun a => p a && q a) || l.any fun a => !p a && q a) := by
  rw [← any_or]
  congr 1
  funext a
  cases p a <;> simp

/-- The gateway's reading of a table of rules, split by whether the backend reads an entry
    as well. -/
theorem all_ruleItems (rule : Option Json) (known broken : String × Json → Bool) :
    (ruleItems rule).all (·.any broken) =
      ((dictRules rule).any (fun e => known e && broken e) ||
        (ruleItems rule).all (·.any fun e => !known e && broken e)) := by
  cases h : ruleItems rule with
  | none => simp
  | some entries =>
      rw [← ruleItems_eq_dictRules h, Option.all_some, Option.all_some]
      exact any_split entries known broken

/-- The gateway's reading of a list of names. -/
theorem all_iterNames (rule : Option Json) {rejects : List String → Bool}
    (hmono : ∀ names, rejects [] = true → rejects names = true) :
    (iterNames py rule).all rejects = (rejects (listNames py rule) || otherNames py rejects rule) := by
  have hother : ∀ {names : Option (List String)}, rejects [] = true → names.all rejects = true := by
    intro names hempty
    cases names with
    | none => rfl
    | some names => exact hmono names hempty
  cases rule with
  | none => simp [iterNames, listNames, otherNames]
  | some v =>
      cases v with
      | array items => simp [iterNames, listNames, otherNames, isArray]
      | null | bool | int | float | string | object =>
          simp only [listNames, otherNames, Option.any_some, isArray, Bool.not_false, Bool.true_and]
          cases hempty : rejects [] with
          | false => rw [Bool.false_or]
          | true => rw [hother hempty, Bool.true_or]

/-! ## Both functions -/

/-- The arguments with the fields of the two dictionaries. -/
def backendFields (args policy : Dict String Json) : Dict String Json :=
  (args.update (dictRules (policy.get? "fixed"))).update (dictRules (policy.get? "injected_fields"))

/-- The arguments with the settings that the gateway makes. -/
def gatewayFields (args : Dict String Json) (fixed injected : List (Json × Json)) : Dict String Json :=
  (args.update (fixed.filterMap fieldSetting)).update (injected.filterMap fieldSetting)

theorem rejectNames_ok {complaint : String} {names : List String} :
    rejectNames complaint names = .ok () ↔ names = [] := by
  simp only [rejectNames]
  split <;> simp_all

theorem rejectForbidden_ok {complaint : String} {names : List String} :
    rejectNames complaint (protectedPaths py.values (protectedFields ++ names) (.object args.entries) "").dedup =
      .ok () ↔ hasForbidden py args names = false := by
  rw [rejectNames_ok, hasForbidden, List.dedup_eq_nil, decide_eq_false_iff_not, not_not]

theorem rejectMissing_ok {complaint : String} {names : List String} :
    rejectNames complaint (names.filter (· ∉ args.keys)) = .ok () ↔ lacks args names = false := by
  rw [rejectNames_ok, List.filter_eq_nil_iff, lacks, List.any_eq_false]

theorem exists_unit {p : Unit → Prop} : (∃ u, p u) ↔ p () := ⟨fun ⟨_, h⟩ => h, fun h => ⟨(), h⟩⟩

/-- What the backend accepts, and its result. -/
theorem applyParameterPolicy_ok {value : Dict String Json} :
    applyParameterPolicy py args policy scope = .ok value ↔
      shared py args policy = false ∧ backendOnly py args policy = false ∧
        value = setScope scope (backendFields args policy) := by
  have hchoice : (breaks args fun v choices => (choiceAccepts py v choices).map not) =
      fun e => isArray e.2 && breaks args py.values.notIn e := funext breaks_choice
  have hmaximum : (breaks args fun v limit => (boundAccepts py.atMost v limit).map not) =
      fun e => (numeric args e && breaks args py.greater e) || unordered py args e :=
    funext breaks_maximum
  have hminimum : (breaks args fun v limit => (boundAccepts py.atLeast v limit).map not) =
      fun e => (numeric args e && breaks args py.less e) || unordered py args e :=
    funext breaks_minimum
  simp only [applyParameterPolicy, bind_eq_ok, exists_unit, rejectForbidden_ok, rejectMissing_ok,
    forEach_rule_ok, hchoice, hmaximum, hminimum, any_or, Bool.or_eq_false_iff, shared, backendOnly]
  constructor
  · rintro ⟨hforbidden, hlacks, hallowed, ⟨hless, hmin⟩, ⟨hgreater, hmax⟩, hlength, hregex, hvalue⟩
    cases hvalue
    exact ⟨⟨⟨⟨⟨hforbidden, hlacks⟩, hallowed⟩, hgreater⟩, hless⟩, ⟨⟨⟨hmax, hmin⟩, hlength⟩, hregex⟩, rfl⟩
  · rintro ⟨⟨⟨⟨⟨hforbidden, hlacks⟩, hallowed⟩, hgreater⟩, hless⟩, ⟨⟨⟨hmax, hmin⟩, hlength⟩, hregex⟩, rfl⟩
    exact ⟨hforbidden, hlacks, hallowed, ⟨hless, hmin⟩, ⟨hgreater, hmax⟩, hlength, hregex, rfl⟩

theorem orRaise_eq_ok {α : Type} {o : Option α} {a : α} : orRaise o = .ok a ↔ o = some a := by
  cases o with
  | none =>
      refine ⟨?_, ?_⟩
      · rintro ⟨⟩
      · rintro ⟨⟩
  | some b =>
      refine ⟨?_, ?_⟩
      · rintro ⟨⟩
        rfl
      · rintro ⟨⟩
        rfl

/-- A reading that does not raise and is not rejected. -/
theorem all_eq_false {α : Type} {o : Option α} {rejects : α → Bool} :
    o.all rejects = false ↔ ∃ a, o = some a ∧ rejects a = false := by
  cases o with
  | none => simp
  | some a => simp

/-- What the gateway accepts, and its result. -/
theorem applyPolicyJson_ok {value : ScopedArguments} :
    applyPolicyJson py args policy scope = .ok value ↔
      shared py args policy = false ∧ gatewayOnly py args policy = false ∧
        ∃ fixed injected, updateItems (policy.get? "fixed") = some fixed ∧
          updateItems (policy.get? "injected_fields") = some injected ∧
          value = ⟨setScope scope (gatewayFields args fixed injected),
            (fixed ++ injected).filter (fieldSetting · |>.isNone)⟩ := by
  have hforbidden : (iterNames py (policy.get? "forbidden_fields")).all (hasForbidden py args) =
      (hasForbidden py args (listNames py (policy.get? "forbidden_fields")) ||
        otherNames py (hasForbidden py args) (policy.get? "forbidden_fields")) :=
    all_iterNames _ fun _ => hasForbidden_mono
  have hlacks : (iterNames py (policy.get? "required_fields")).all (lacks args) =
      (lacks args (listNames py (policy.get? "required_fields")) ||
        otherNames py (lacks args) (policy.get? "required_fields")) :=
    all_iterNames _ fun _ hempty => nomatch hempty
  have hallowed := all_ruleItems (policy.get? "allowed_values") (fun e => isArray e.2)
    (breaks args py.values.notIn)
  have hmaximum := all_ruleItems (policy.get? "maximum") (numeric args) (breaks args py.greater)
  have hminimum := all_ruleItems (policy.get? "minimum") (numeric args) (breaks args py.less)
  have hreject : (shared py args policy || gatewayOnly py args policy) =
      ((iterNames py (policy.get? "forbidden_fields")).all (hasForbidden py args) ||
        (iterNames py (policy.get? "required_fields")).all (lacks args) ||
        (ruleItems (policy.get? "allowed_values")).all (·.any (breaks args py.values.notIn)) ||
        (ruleItems (policy.get? "maximum")).all (·.any (breaks args py.greater)) ||
        (ruleItems (policy.get? "minimum")).all (·.any (breaks args py.less)) ||
        updateItems (policy.get? "fixed") = none || updateItems (policy.get? "injected_fields") = none) := by
    rw [hforbidden, hlacks, hallowed, hmaximum, hminimum, shared, gatewayOnly]
    ac_rfl
  rw [← and_assoc, ← Bool.or_eq_false_iff, hreject]
  simp only [applyPolicyJson, bind_eq_ok, orRaise_eq_ok, exists_unit, forbidden_ok,
    forEach_required_ok, forEach_field_ok, Bool.or_eq_false_iff, all_eq_false, decide_eq_false_iff_not]
  constructor
  · rintro ⟨names, hnames, hpaths, required, hrequired, hhas, allowed, hitems, hchoices, maximum, hmax,
      hgreater, minimum, hmin, hless, fixed, hfixed, injected, hinjected, hvalue⟩
    cases hvalue
    refine ⟨⟨⟨⟨⟨⟨⟨⟨names, hnames, hpaths⟩, ⟨required, hrequired, hhas⟩⟩, ⟨allowed, hitems, hchoices⟩⟩,
      ⟨maximum, hmax, hgreater⟩⟩, ⟨minimum, hmin, hless⟩⟩, ?_⟩, ?_⟩, fixed, injected, hfixed, hinjected, rfl⟩
    · rw [hfixed]
      exact Option.some_ne_none _
    · rw [hinjected]
      exact Option.some_ne_none _
  · rintro ⟨⟨⟨⟨⟨⟨⟨⟨names, hnames, hpaths⟩, ⟨required, hrequired, hhas⟩⟩, ⟨allowed, hitems, hchoices⟩⟩,
      ⟨maximum, hmax, hgreater⟩⟩, ⟨minimum, hmin, hless⟩⟩, _⟩, _⟩, fixed, injected, hfixed, hinjected, rfl⟩
    exact ⟨names, hnames, hpaths, required, hrequired, hhas, allowed, hitems, hchoices, maximum, hmax,
      hgreater, minimum, hmin, hless, fixed, hfixed, injected, hinjected, rfl⟩

/-! ## Agreement -/

/-- Both reject, or both accept and their results have the same value for every field. -/
def Agree : Except PolicyFailure (Dict String Json) → Except GatewayError ScopedArguments → Prop
  | .ok value, .ok result => result.others = [] ∧ ∀ key, value.get? key = result.fields.get? key
  | .error _, .error _ => True
  | _, _ => False

/-- The settings that the gateway reads from `fixed` and `injected_fields` come to the fields
    that the backend sets.  Where they are dictionaries, or false, this is so. -/
def SameFields (args policy : Dict String Json) (scope : Option (Dict String Json)) : Prop :=
  ∀ fixed ∈ updateItems (policy.get? "fixed"), ∀ injected ∈ updateItems (policy.get? "injected_fields"),
    (∀ item ∈ fixed ++ injected, fieldSetting item ≠ none) ∧
      ∀ key, (setScope scope (backendFields args policy)).get? key =
        (setScope scope (gatewayFields args fixed injected)).get? key

theorem fieldSetting_object (members : List (String × Json)) :
    (members.map fun m => ((.string m.1 : Json), m.2)).filterMap fieldSetting = members := by
  rw [List.filterMap_map]
  exact List.filterMap_some

theorem agree_iff {a : Except PolicyFailure (Dict String Json)} {b : Except GatewayError ScopedArguments} :
    Agree a b ↔ ((∃ value, a = .ok value) ↔ ∃ result, b = .ok result) ∧
      ∀ value result, a = .ok value → b = .ok result →
        result.others = [] ∧ ∀ key, value.get? key = result.fields.get? key := by
  cases a <;> cases b <;> simp [Agree]

theorem backend_accepts_iff : (∃ value, applyParameterPolicy py args policy scope = .ok value) ↔
    shared py args policy = false ∧ backendOnly py args policy = false := by
  simp only [applyParameterPolicy_ok]
  exact ⟨fun ⟨_, hshared, hown, _⟩ => ⟨hshared, hown⟩, fun ⟨hshared, hown⟩ => ⟨_, hshared, hown, rfl⟩⟩

theorem exists_updateItems (h : gatewayOnly py args policy = false) :
    ∃ fixed injected, updateItems (policy.get? "fixed") = some fixed ∧
      updateItems (policy.get? "injected_fields") = some injected := by
  rw [gatewayOnly, Bool.or_eq_false_iff, Bool.or_eq_false_iff] at h
  obtain ⟨⟨_, hfixed⟩, hinjected⟩ := h
  obtain ⟨fixed, hfixed⟩ := Option.ne_none_iff_exists'.1 (of_decide_eq_false hfixed)
  obtain ⟨injected, hinjected⟩ := Option.ne_none_iff_exists'.1 (of_decide_eq_false hinjected)
  exact ⟨fixed, injected, hfixed, hinjected⟩

theorem gateway_accepts_iff : (∃ result, applyPolicyJson py args policy scope = .ok result) ↔
    shared py args policy = false ∧ gatewayOnly py args policy = false := by
  simp only [applyPolicyJson_ok]
  constructor
  · rintro ⟨_, hshared, hown, _⟩
    exact ⟨hshared, hown⟩
  · rintro ⟨hshared, hown⟩
    obtain ⟨fixed, injected, hfixed, hinjected⟩ := exists_updateItems hown
    exact ⟨_, hshared, hown, fixed, injected, hfixed, hinjected, rfl⟩

/-- Where both accept, their results agree just where they set the same fields. -/
theorem sameResult_iff (hshared : shared py args policy = false)
    (hbackend : backendOnly py args policy = false) (hgateway : gatewayOnly py args policy = false) :
    (∀ value result, applyParameterPolicy py args policy scope = .ok value →
      applyPolicyJson py args policy scope = .ok result →
        result.others = [] ∧ ∀ key, value.get? key = result.fields.get? key) ↔
      SameFields args policy scope := by
  have hothers : ∀ items : List (Json × Json), items.filter (fieldSetting · |>.isNone) = [] ↔
      ∀ item ∈ items, fieldSetting item ≠ none := by
    intro items
    rw [List.filter_eq_nil_iff]
    exact forall₂_congr fun item _ => not_congr Option.isNone_iff_eq_none
  constructor
  · intro h fixed hfixed injected hinjected
    have hresult := h _ _ (applyParameterPolicy_ok.2 ⟨hshared, hbackend, rfl⟩)
      (applyPolicyJson_ok.2 ⟨hshared, hgateway, fixed, injected, hfixed, hinjected, rfl⟩)
    exact ⟨(hothers _).1 hresult.1, hresult.2⟩
  · intro h value result hvalue hresult
    obtain ⟨_, _, rfl⟩ := applyParameterPolicy_ok.1 hvalue
    obtain ⟨_, _, fixed, injected, hfixed, hinjected, rfl⟩ := applyPolicyJson_ok.1 hresult
    obtain ⟨hfields, hsame⟩ := h fixed hfixed injected hinjected
    exact ⟨(hothers _).2 hfields, hsame⟩

/-- **Agreement.**  The two agree just where a rule that both read rejects, or each has a
    reason of its own, or neither has one and they set the same fields. -/
theorem policies_agree_iff (py : PolicyPython) (args policy : Dict String Json)
    (scope : Option (Dict String Json)) :
    Agree (applyParameterPolicy py args policy scope) (applyPolicyJson py args policy scope) ↔
      shared py args policy = true ∨
        (backendOnly py args policy = true ∧ gatewayOnly py args policy = true) ∨
        (backendOnly py args policy = false ∧ gatewayOnly py args policy = false ∧
          SameFields args policy scope) := by
  rw [agree_iff, backend_accepts_iff, gateway_accepts_iff]
  cases hshared : shared py args policy with
  | true =>
      refine iff_of_true ⟨by simp, ?_⟩ (Or.inl rfl)
      intro value result hvalue _
      rw [(applyParameterPolicy_ok.1 hvalue).1] at hshared
      cases hshared
  | false =>
      cases hown : backendOnly py args policy <;> cases hother : gatewayOnly py args policy
      · simpa using sameResult_iff hshared hown hother
      · simp
      · simp
      · refine iff_of_true ⟨by simp, ?_⟩ (Or.inr (Or.inl ⟨rfl, rfl⟩))
        intro value result hvalue _
        rw [(applyParameterPolicy_ok.1 hvalue).2.1] at hown
        cases hown

/-! ## A rule that the gateway does not know -/

/-- For names in lower case, and limits that are integers. -/
def plainPython : PolicyPython where
  lower := fun name => name
  repr := fun _ => ""
  isIn := fun _ _ => none
  order := fun _ _ => none
  int
    | .int n => some n
    | _ => none
  fullmatch := fun _ _ => none

/-- `{"max_length": {"query": 3}}`. -/
def lengthPolicy : Dict String Json :=
  Dict.ofPairs [("max_length", .object [("query", .int 3)])]

def longQuery : Dict String Json := Dict.ofPairs [("query", .string "select")]

theorem max_length_disagrees :
    ¬ Agree (applyParameterPolicy plainPython longQuery lengthPolicy none)
      (applyPolicyJson plainPython longQuery lengthPolicy none) := by
  have hbackend : applyParameterPolicy plainPython longQuery lengthPolicy none =
      .error (.policy "parameter query exceeds max_length") := rfl
  have hgateway : applyPolicyJson plainPython longQuery lengthPolicy none = .ok ⟨longQuery, []⟩ := rfl
  rw [hbackend, hgateway]
  exact fun h => h

/-! ## Policies of the expected shape -/

/-- A policy whose rules have the shape that both expect, as the object it is stored as. -/
def policyJson (policy : ParameterPolicy) : Dict String Json :=
  ⟨[("forbidden_fields", .array (policy.forbiddenFields.map .string)),
    ("required_fields", .array (policy.requiredFields.map .string)),
    ("allowed_values", .object policy.allowedValues),
    ("maximum", .object policy.maximum),
    ("minimum", .object policy.minimum),
    ("fixed", .object policy.fixed.entries),
    ("injected_fields", .object policy.injectedFields.entries)],
    by simp⟩

theorem iterNames_strings (names : List String) :
    iterNames py (some (.array (names.map .string))) = some names := by
  simp [iterNames, PythonValues.str, Function.comp_def]

theorem ruleItems_object (members : List (String × Json)) :
    ruleItems (some (.object members)) = some members := by
  cases members <;> rfl

theorem updateItems_object (members : List (String × Json)) :
    updateItems (some (.object members)) = some (members.map fun m => (.string m.1, m.2)) := by
  cases members <;> rfl

theorem filter_others_object (members : List (String × Json)) :
    (members.map fun m => ((.string m.1 : Json), m.2)).filter (fieldSetting · |>.isNone) = [] := by
  rw [List.filter_eq_nil_iff]
  intro item hitem
  obtain ⟨m, _, rfl⟩ := List.mem_map.1 hitem
  exact Bool.false_ne_true

theorem ok_bind {ε α β : Type} (a : α) (f : α → Except ε β) : ((.ok a : Except ε α) >>= f) = f a := rfl

theorem bind_map_congr {ε α β γ : Type} {x : Except ε α} {f : α → Except ε γ} {g : α → Except ε β}
    {k : β → γ} (h : ∀ a, f a = (g a).map k) : (x >>= f) = (x >>= g).map k := by
  cases x with
  | error e => rfl
  | ok a => exact h a

/-- On such a policy `_apply_policy` is `Gateway.applyPolicy`. -/
theorem applyPolicyJson_policyJson (py : PolicyPython) (args : Dict String Json) (policy : ParameterPolicy)
    (scope : Option (Dict String Json)) :
    applyPolicyJson py args (policyJson policy) scope =
      (Gateway.applyPolicy py.values args policy scope).map (⟨·, []⟩) := by
  have hforbidden : (policyJson policy).get? "forbidden_fields" =
      some (.array (policy.forbiddenFields.map .string)) := rfl
  have hrequired : (policyJson policy).get? "required_fields" =
      some (.array (policy.requiredFields.map .string)) := rfl
  have hallowed : (policyJson policy).get? "allowed_values" = some (.object policy.allowedValues) := rfl
  have hmaximum : (policyJson policy).get? "maximum" = some (.object policy.maximum) := rfl
  have hminimum : (policyJson policy).get? "minimum" = some (.object policy.minimum) := rfl
  have hfixed : (policyJson policy).get? "fixed" = some (.object policy.fixed.entries) := rfl
  have hinjected : (policyJson policy).get? "injected_fields" =
      some (.object policy.injectedFields.entries) := rfl
  rw [applyPolicyJson, hforbidden, hrequired, hallowed, hmaximum, hminimum, hfixed, hinjected,
    iterNames_strings, iterNames_strings, ruleItems_object, ruleItems_object, ruleItems_object,
    updateItems_object, updateItems_object]
  have hfields : gatewayFields args (policy.fixed.entries.map fun m => (.string m.1, m.2))
      (policy.injectedFields.entries.map fun m => (.string m.1, m.2)) =
        (args.update policy.fixed.entries).update policy.injectedFields.entries := by
    rw [gatewayFields, fieldSetting_object, fieldSetting_object]
  have hothers := (List.filter_append (p := (fieldSetting · |>.isNone))
    (policy.fixed.entries.map fun m => ((.string m.1 : Json), m.2))
    (policy.injectedFields.entries.map fun m => (.string m.1, m.2))).trans
      (congrArg₂ (· ++ ·) (filter_others_object _) (filter_others_object _))
  rw [gatewayFields] at hfields
  simp only [orRaise, ok_bind, Gateway.applyPolicy]
  refine bind_map_congr fun _ => ?_
  refine bind_map_congr fun _ => ?_
  refine bind_map_congr fun _ => ?_
  refine bind_map_congr fun _ => ?_
  refine bind_map_congr fun _ => ?_
  rw [hfields, hothers]
  rfl

end Capabilities
end HermesPlatform
