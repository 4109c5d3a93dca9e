/-
  HermesPlatform.Capabilities.ProtectedFields

  What `_apply_policy` of the gateway keeps from the caller: no protected or forbidden key
  at any depth of an accepted object, and one resource scope for all of them.
-/

import HermesPlatform.Capabilities.ParameterPolicy

namespace HermesPlatform
namespace Capabilities

open Python
open Gateway (PythonValues protectedFields protectedPaths protectedItems protectedMembers
  isForbidden memberPath setScope)

/-- A key of the value, at any depth through objects and arrays. -/
inductive KeyIn (key : String) : Json → Prop where
  | here {v : Json} {members : List (String × Json)} (h : (key, v) ∈ members) :
      KeyIn key (.object members)
  | member {k : String} {v : Json} {members : List (String × Json)} (h : (k, v) ∈ members)
      (inner : KeyIn key v) : KeyIn key (.object members)
  | item {v : Json} {items : List Json} (h : v ∈ items) (inner : KeyIn key v) :
      KeyIn key (.array items)

section Walk

variable {values : PythonValues} {forbidden : List String}

theorem protectedItems_eq_nil {items : List Json} {index : Nat} {path : String}
    (h : protectedItems values forbidden items index path = []) :
    ∀ v ∈ items, ∃ path', protectedPaths values forbidden v path' = [] := by
  induction items generalizing index with
  | nil => simp
  | cons v rest ih =>
      rw [protectedItems, List.append_eq_nil_iff] at h
      intro w hw
      obtain rfl | hw := List.mem_cons.mp hw
      · exact ⟨_, h.1⟩
      · exact ih h.2 w hw

theorem protectedMembers_eq_nil {members : List (String × Json)} {path : String}
    (h : protectedMembers values forbidden members path = []) :
    ∀ m ∈ members, isForbidden values forbidden m.1 = false ∧
      ∃ path', protectedPaths values forbidden m.2 path' = [] := by
  induction members with
  | nil => simp
  | cons m rest ih =>
      obtain ⟨key, v⟩ := m
      rw [protectedMembers, List.append_eq_nil_iff, List.append_eq_nil_iff] at h
      obtain ⟨⟨hkey, hv⟩, hrest⟩ := h
      intro w hw
      obtain rfl | hw := List.mem_cons.mp hw
      · refine ⟨?_, _, hv⟩
        by_contra hforbidden
        rw [if_pos (by simpa using hforbidden)] at hkey
        cases hkey
      · exact ih hrest w hw

/-- The walk reaches every key. -/
theorem not_forbidden_of_protectedPaths {key : String} {v : Json} (hkey : KeyIn key v) :
    ∀ path, protectedPaths values forbidden v path = [] →
      isForbidden values forbidden key = false := by
  induction hkey with
  | here hmem =>
      intro path h
      rw [protectedPaths] at h
      exact (protectedMembers_eq_nil h _ hmem).1
  | member hmem _ ih =>
      intro path h
      rw [protectedPaths] at h
      obtain ⟨-, path', hv⟩ := protectedMembers_eq_nil h _ hmem
      exact ih path' hv
  | item hmem _ ih =>
      intro path h
      rw [protectedPaths] at h
      obtain ⟨path', hv⟩ := protectedItems_eq_nil h _ hmem
      exact ih path' hv

end Walk

section Accepted

variable {py : PolicyPython} {args policy : Dict String Json} {scope : Option (Dict String Json)}
  {result : ScopedArguments}

/-- No key of an accepted object is a protected field, or one that the policy forbids. -/
theorem keys_of_accepted (h : applyPolicyJson py args policy scope = .ok result) :
    ∃ names, iterNames py (policy.get? "forbidden_fields") = some names ∧
      ∀ key, KeyIn key (.object args.entries) → ∀ name ∈ protectedFields ++ names,
        py.lower key ≠ py.lower name := by
  obtain ⟨names, hnames, h⟩ := bind_eq_ok.mp h
  obtain ⟨_, hcheck, -⟩ := bind_eq_ok.mp h
  refine ⟨names, orRaise_eq_ok.mp hnames, ?_⟩
  intro key hkey name hname heq
  have hnone := forbidden_ok.mp hcheck
  simp only [hasForbidden, decide_eq_false_iff_not, not_not] at hnone
  have hallowed := not_forbidden_of_protectedPaths hkey "" hnone
  simp only [isForbidden, decide_eq_false_iff_not] at hallowed
  apply hallowed
  rw [List.mem_map]
  exact ⟨name, hname, heq.symm⟩

/-- The resource scope of the result, where the caller has set none. -/
theorem resourceScope_of_accepted (h : applyPolicyJson py args policy scope = .ok result) :
    ∃ fixed injected, updateItems (policy.get? "fixed") = some fixed ∧
      updateItems (policy.get? "injected_fields") = some injected ∧
      result.fields.get? "resource_scope" =
        (setScope scope (gatewayFields .empty fixed injected)).get? "resource_scope" := by
  obtain ⟨-, -, fixed, injected, hfixed, hinjected, rfl⟩ := applyPolicyJson_ok.mp h
  refine ⟨fixed, injected, hfixed, hinjected, ?_⟩
  -- The name is one of the protected fields, so an accepted object does not have it.
  have hargs : args.get? "resource_scope" = none := by
    cases hget : args.get? "resource_scope" with
    | none => rfl
    | some v =>
        obtain ⟨names, -, hkeys⟩ := keys_of_accepted h
        have hprotected : "resource_scope" ∈ protectedFields ++ names :=
          List.mem_append_left _ (by decide)
        exact absurd rfl (hkeys _ (.here (Dict.mem_of_get? hget)) _ hprotected)
  have hfields : (gatewayFields args fixed injected).get? "resource_scope" =
      (gatewayFields .empty fixed injected).get? "resource_scope" := by
    simp only [gatewayFields, Dict.get?_update, hargs]
    rfl
  show (setScope scope (gatewayFields args fixed injected)).get? "resource_scope" = _
  cases scope with
  | none => exact hfields
  | some s =>
      simp only [setScope]
      split
      · rw [Dict.get?_set, Dict.get?_set]
        rfl
      · exact hfields

end Accepted

/-- **Protected fields.** An accepted object has no protected and no forbidden key at any depth,
    in any letter case, and any two accepted objects get the same resource scope. -/
theorem protected_fields_kept (py : PolicyPython) (args args' policy : Dict String Json)
    (scope : Option (Dict String Json)) (result result' : ScopedArguments)
    (h : applyPolicyJson py args policy scope = .ok result)
    (h' : applyPolicyJson py args' policy scope = .ok result') :
    (∃ names, iterNames py (policy.get? "forbidden_fields") = some names ∧
      ∀ key, KeyIn key (.object args.entries) → ∀ name ∈ protectedFields ++ names,
        py.lower key ≠ py.lower name) ∧
      result.fields.get? "resource_scope" = result'.fields.get? "resource_scope" := by
  refine ⟨keys_of_accepted h, ?_⟩
  obtain ⟨fixed, injected, hfixed, hinjected, hscope⟩ := resourceScope_of_accepted h
  obtain ⟨fixed', injected', hfixed', hinjected', hscope'⟩ := resourceScope_of_accepted h'
  rw [hfixed] at hfixed'
  rw [hinjected] at hinjected'
  cases hfixed'
  cases hinjected'
  rw [hscope, hscope']

/-- `str.lower` for ASCII names, and nothing to compare. -/
def asciiPython : PolicyPython := { plainPython with lower := asciiLower }

/-- `{"forbidden_fields": ["Tenant"]}`. -/
def tenantPolicy : Dict String Json :=
  Dict.ofPairs [("forbidden_fields", .array [.string "Tenant"])]

def nestedQuery : Dict String Json :=
  Dict.ofPairs [("filters", .array [.object [("name", .string "tenant")]])]

def salesScope : Dict String Json := Dict.ofPairs [("schemas", .object [("sales", .null)])]

theorem protected_fields_kept_salesScope :
    (∀ key, KeyIn key (.object nestedQuery.entries) → asciiLower key ≠ "tenant") ∧
      ∃ result result',
        applyPolicyJson asciiPython nestedQuery tenantPolicy (some salesScope) = .ok result ∧
        applyPolicyJson asciiPython longQuery tenantPolicy (some salesScope) = .ok result' ∧
        result.fields.get? "resource_scope" = result'.fields.get? "resource_scope" := by
  obtain ⟨⟨names, hnames, hkeys⟩, hscope⟩ := protected_fields_kept asciiPython nestedQuery longQuery
    tenantPolicy (some salesScope) _ _ rfl rfl
  cases hnames
  refine ⟨?_, _, _, rfl, rfl, hscope⟩
  intro key hkey
  exact hkeys key hkey "Tenant" (by decide)

/-- A forbidden key in other letters, in an object of a list. -/
example : (applyPolicyJson asciiPython
    (Dict.ofPairs [("filters", .array [.object [("TENANT", .null)]])]) tenantPolicy none).isOk =
      false := by
  decide

end Capabilities
end HermesPlatform
