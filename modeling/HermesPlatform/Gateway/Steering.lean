/-
  HermesPlatform.Gateway.Steering

  Whether a caller can steer the parameters that the gateway owns: the fixed and
  injected fields of the policy under their mapped names, and the resource scope
  under `scope_target`.

  Under one name the scope goes before the fixed fields of the mapping, these go
  before the arguments, and of the arguments that are renamed to it the last one
  counts (`get?_mapRequest_accepted`).  A field that the caller names keeps its place
  among the arguments of the caller, so that what the caller puts after it wins.
  `gateway_owned` says for which policies and mappings no caller can do so.
-/

import HermesPlatform.Gateway.Policy
import Mathlib.Data.List.Dedup

namespace HermesPlatform
namespace Gateway

open Python

/-! ## What an accepted call passes -/

theorem protectedMembers_of_mem {py : PythonValues} {forbidden : List String}
    {members : List (String × Json)} {path key : String}
    (hkey : key ∈ members.map Prod.fst) (hforbidden : isForbidden py forbidden key = true) :
    protectedMembers py forbidden members path ≠ [] := by
  induction members with
  | nil => cases hkey
  | cons m rest ih =>
      obtain ⟨k, v⟩ := m
      rw [protectedMembers]
      rcases List.mem_cons.mp hkey with rfl | hkey
      · rw [if_pos hforbidden]
        simp
      · simp [ih hkey]

/-- A caller cannot set the resource scope. -/
theorem scope_notMem_of_accepted {py : PythonValues} {args value : Dict String Json}
    {policy : ParameterPolicy} {scope : Option (Dict String Json)}
    (h : applyPolicy py args policy scope = .ok value) : "resource_scope" ∉ args.keys := by
  intro hkey
  obtain ⟨_, hcheck, -⟩ := bind_eq_ok.mp h
  simp only [checkForbidden] at hcheck
  split at hcheck
  · cases hcheck
  · rename_i hpresent
    refine hpresent (protectedMembers_of_mem hkey ?_)
    simp [isForbidden, protectedFields]

theorem value_of_accepted {py : PythonValues} {args value : Dict String Json}
    {policy : ParameterPolicy} {scope : Option (Dict String Json)}
    (h : applyPolicy py args policy scope = .ok value) :
    value = setScope scope
      ((args.update policy.fixed.entries).update policy.injectedFields.entries) := by
  obtain ⟨-, -, h⟩ := bind_eq_ok.mp h
  obtain ⟨-, -, h⟩ := bind_eq_ok.mp h
  obtain ⟨-, -, h⟩ := bind_eq_ok.mp h
  obtain ⟨-, -, h⟩ := bind_eq_ok.mp h
  obtain ⟨-, -, h⟩ := bind_eq_ok.mp h
  cases h
  rfl

/-! ## Arguments and policy fields in one -/

/-- The value that the policy sets for a field. -/
def ParameterPolicy.owned (policy : ParameterPolicy) (key : String) : Option Json :=
  (policy.injectedFields.get? key).or (policy.fixed.get? key)

/-- The fields of the policy that the caller does not name. -/
def ParameterPolicy.added (policy : ParameterPolicy) (args : Dict String Json) : List String :=
  policy.fixed.keys.filter (· ∉ args.keys) ++
    policy.injectedFields.keys.filter fun k => k ∉ args.keys ∧ k ∉ policy.fixed.keys

/-- What is sent to the mapping, the resource scope excepted: the arguments in
    the order of the caller, with the values of the policy for its fields, and
    then the fields that the caller does not name. -/
def sources (policy : ParameterPolicy) (args : Dict String Json) : List (String × Json) :=
  args.entries.map (fun e => (e.1, (policy.owned e.1).getD e.2)) ++
    (policy.added args).filterMap fun k => (policy.owned k).map fun v => (k, v)

theorem get?_merged (policy : ParameterPolicy) (args : Dict String Json) (k : String) :
    ((args.update policy.fixed.entries).update policy.injectedFields.entries).get? k =
      (policy.owned k).or (args.get? k) := by
  rw [Dict.get?_update_dict, Dict.get?_update_dict, ParameterPolicy.owned, Option.or_assoc]

theorem keys_merged (policy : ParameterPolicy) (args : Dict String Json) :
    ((args.update policy.fixed.entries).update policy.injectedFields.entries).keys =
      args.keys ++ policy.added args := by
  rw [Dict.keys_update, Dict.keys_update, ParameterPolicy.added, List.append_assoc]
  congr 2
  refine List.filter_congr fun k _ => ?_
  simp only [List.mem_append, List.mem_filter, decide_not, not_or, not_and, Bool.decide_and]
  by_cases hargs : k ∈ args.keys <;> by_cases hfixed : k ∈ policy.fixed.keys <;>
    simp [hargs, hfixed]

theorem owned_of_mem {policy : ParameterPolicy} {k : String}
    (h : k ∈ policy.fixed.keys ∨ k ∈ policy.injectedFields.keys) :
    ∃ v, policy.owned k = some v := by
  obtain hk | hk := h
  · obtain ⟨v, hv⟩ := Dict.mem_keys_iff.mp hk
    rw [ParameterPolicy.owned, hv]
    cases policy.injectedFields.get? k with
    | none => exact ⟨v, rfl⟩
    | some w => exact ⟨w, rfl⟩
  · obtain ⟨v, hv⟩ := Dict.mem_keys_iff.mp hk
    exact ⟨v, by rw [ParameterPolicy.owned, hv, Option.some_or]⟩

theorem mem_of_owned {policy : ParameterPolicy} {k : String} {v : Json}
    (h : policy.owned k = some v) :
    k ∈ policy.fixed.keys ∨ k ∈ policy.injectedFields.keys := by
  rw [ParameterPolicy.owned, Option.or_eq_some_iff] at h
  obtain h | ⟨-, h⟩ := h
  · exact .inr (Dict.mem_keys_iff.mpr ⟨v, h⟩)
  · exact .inl (Dict.mem_keys_iff.mpr ⟨v, h⟩)

/-- A field that the caller does not name is one of the policy. -/
theorem owned_of_added {policy : ParameterPolicy} {args : Dict String Json} {k : String}
    (h : k ∈ policy.added args) : ∃ v, policy.owned k = some v :=
  owned_of_mem ((List.mem_append.mp h).imp List.mem_of_mem_filter List.mem_of_mem_filter)

theorem notMem_of_added {policy : ParameterPolicy} {args : Dict String Json} {k : String}
    (h : k ∈ policy.added args) : k ∉ args.keys := by
  obtain h | h := List.mem_append.mp h
  · exact of_decide_eq_true (List.mem_filter.mp h).2
  · exact (of_decide_eq_true (List.mem_filter.mp h).2).1

theorem entries_merged (policy : ParameterPolicy) (args : Dict String Json) :
    ((args.update policy.fixed.entries).update policy.injectedFields.entries).entries =
      sources policy args := by
  refine Dict.entries_eq_of_get? ?_ fun e he => ?_
  · rw [keys_merged, sources, List.map_append, List.map_map]
    congr 1
    rw [List.map_filterMap]
    have hall : ∀ k ∈ policy.added args,
        ((policy.owned k).map fun v => (k, v)).map Prod.fst = some k := by
      intro k hk
      obtain ⟨v, hv⟩ := owned_of_added hk
      rw [hv]
      rfl
    rw [List.filterMap_congr hall, List.filterMap_some]
  · rw [get?_merged]
    rcases List.mem_append.mp he with he | he
    · obtain ⟨⟨k, v⟩, hmem, rfl⟩ := List.mem_map.mp he
      rw [Dict.get?_of_mem hmem]
      cases policy.owned k <;> rfl
    · obtain ⟨k, -, hk⟩ := List.mem_filterMap.mp he
      obtain ⟨v, hv, rfl⟩ := Option.map_eq_some_iff.mp hk
      rw [hv]
      rfl

/-! ## Who writes last -/

/-- The value of the last argument that is sent under the name. -/
def lastArgument (py : PythonValues) (policy : ParameterPolicy) (mapping : RequestMapping)
    (args : Dict String Json) (name : String) : Option Json :=
  mapping.lastSent py (sources policy args) name

/-- What is sent under `scope_target`: the resource scope, where there is one,
    or else a field of the policy with this name. -/
def scopeValue (policy : ParameterPolicy) (scope : Option (Dict String Json)) : Option Json :=
  match scope.filter (·.entries ≠ []) with
  | some s => some (.object s.entries)
  | none => (policy.owned "resource_scope").filter isNotNone

/-- What is sent under the name on behalf of the scope. -/
def scopeAt (py : PythonValues) (policy : ParameterPolicy) (mapping : RequestMapping)
    (scope : Option (Dict String Json)) (name : String) : Option Json :=
  mapping.scopeAt py (scopeValue policy scope) name

/-- The resource scope is not among the arguments that are sent. -/
theorem filter_sends_setEntries (mapping : RequestMapping) (v : Json) (l : List (String × Json)) :
    (Dict.setEntries "resource_scope" v l).filter (fun e => mapping.sends e.1) =
      l.filter fun e => mapping.sends e.1 := by
  have hscope : mapping.sends "resource_scope" = false := by simp [RequestMapping.sends]
  induction l with
  | nil => simp [Dict.setEntries, hscope]
  | cons e rest ih =>
      rw [Dict.setEntries]
      split
      · rename_i hkey
        rw [List.filter_cons_of_neg (by simp [hscope]), List.filter_cons_of_neg (by simp [hkey, hscope])]
      · rw [List.filter_cons, List.filter_cons, ih]

theorem filter_sends_setScope (mapping : RequestMapping) (scope : Option (Dict String Json))
    (value : Dict String Json) :
    (setScope scope value).entries.filter (fun e => mapping.sends e.1) =
      value.entries.filter fun e => mapping.sends e.1 := by
  unfold setScope
  split
  · split
    · exact filter_sends_setEntries mapping _ _
    · rfl
  · rfl

theorem getValue_scope {policy : ParameterPolicy} {args : Dict String Json}
    (hargs : "resource_scope" ∉ args.keys) (scope : Option (Dict String Json)) :
    getValue (setScope scope
      ((args.update policy.fixed.entries).update policy.injectedFields.entries)) "resource_scope" =
      scopeValue policy scope := by
  have hnone : args.get? "resource_scope" = none := by
    rw [← Option.not_isSome_iff_eq_none]
    intro h
    exact hargs (Dict.mem_keys_iff.mpr (Option.isSome_iff_exists.mp h))
  have hmerged := get?_merged policy args "resource_scope"
  rw [hnone, Option.or_none] at hmerged
  unfold getValue setScope scopeValue
  cases scope with
  | none => simp only [Option.filter_none, hmerged]
  | some s =>
      by_cases hs : s.entries ≠ []
      · rw [Option.filter_some, if_pos (by simpa using hs)]
        simp only [if_pos hs, Dict.get?_set, if_pos]
        rfl
      · rw [Option.filter_some, if_neg (by simpa using hs)]
        simp only [if_neg hs, hmerged]

/-- What stands under a name, for an accepted call. -/
theorem get?_mapRequest_accepted {py : PythonValues} {args value : Dict String Json}
    {policy : ParameterPolicy} {scope : Option (Dict String Json)}
    (h : applyPolicy py args policy scope = .ok value) (mapping : RequestMapping) (name : String) :
    (mapRequest py value mapping).get? name =
      (scopeAt py policy mapping scope name).or
        ((mapping.fixed.get? name).or (lastArgument py policy mapping args name)) := by
  have hscope := @getValue_scope policy args (scope_notMem_of_accepted h) scope
  rw [← value_of_accepted h] at hscope
  have hsent : value.entries.filter (fun e => mapping.sends e.1) =
      (sources policy args).filter fun e => mapping.sends e.1 := by
    rw [value_of_accepted h, filter_sends_setScope, entries_merged]
  rw [get?_mapRequest, hscope, scopeAt, lastArgument, RequestMapping.lastSent, hsent]
  rfl

/-! ## Steering -/

section Owned

variable (py : PythonValues) (policy : ParameterPolicy) (mapping : RequestMapping)
  (scope : Option (Dict String Json))

/-- The request has the values of the policy for its fields, and the resource
    scope and nothing else under `scope_target`. -/
structure OwnedSent (request : Dict String Json) : Prop where
  field : ∀ k v, policy.owned k = some v → ∀ w, request.get? (mapping.name py k) = some w → w = v
  /-- Only a field that the mapping drops can be missing. -/
  fieldSent : ∀ k v, policy.owned k = some v → mapping.sends k = true →
    request.get? (mapping.name py k) ≠ none
  target : ∀ t, mapping.target py = some t → ∀ w, request.get? t = some w →
    ∃ s, scope = some s ∧ w = .object s.entries
  targetSent : ∀ t s, mapping.target py = some t → scope = some s → s.entries ≠ [] →
    request.get? t ≠ none

/-- A field of the policy, with the value that the policy sets, which is sent under the name. -/
structure FieldAt (name k : String) (v : Json) : Prop where
  owned : policy.owned k = some v
  sends : mapping.sends k = true
  named : mapping.name py k = name

/-- Only such values can come under the name: the scope, if it goes there, is one, or else the
    fixed field of the mapping, or else all fields of the policy that are sent under it are, and a
    caller cannot set another one.  Another field that is sent under the name is harmless if the
    checks admit such values for it only, or admit no value for one of these policy fields, which
    then comes after all that the caller sends. -/
structure Guarded (name : String) (ok : Json → Prop) : Prop where
  ofScope : ∀ w, scopeAt py policy mapping scope name = some w → ok w
  fixed : scopeAt py policy mapping scope name = none →
    ∀ w, mapping.fixed.get? name = some w → ok w
  field : scopeAt py policy mapping scope name = none → mapping.fixed.get? name = none →
    ∀ k v, FieldAt py policy mapping name k v → ok v
  caller : scopeAt py policy mapping scope name = none → mapping.fixed.get? name = none →
    ∀ j w, policy.owned j = none → mapping.sends j = true → mapping.name py j = name →
      policy.Admits py j w →
        ok w ∨ ∃ k v, FieldAt py policy mapping name k v ∧ ∀ u, ¬ policy.Admits py k u

/-- The names that the gateway owns are guarded. -/
structure Separate : Prop where
  field : ∀ k v, policy.owned k = some v →
    Guarded py policy mapping scope (mapping.name py k) (· = v)
  target : ∀ t, mapping.target py = some t →
    Guarded py policy mapping scope t fun w => ∃ s, scope = some s ∧ w = .object s.entries

/-- Every accepted call is sent with such a value under the name, or none. -/
def Kept (name : String) (ok : Json → Prop) : Prop :=
  ∀ args value, applyPolicy py args policy scope = .ok value →
    ∀ w, (mapRequest py value mapping).get? name = some w → ok w

end Owned

section Accepted

variable {py : PythonValues} {policy : ParameterPolicy} {mapping : RequestMapping}
  {scope : Option (Dict String Json)} {args value : Dict String Json}

theorem mem_added {k : String} {v : Json} (howned : policy.owned k = some v)
    (hkey : k ∉ args.keys) : k ∈ policy.added args := by
  rw [ParameterPolicy.added, List.mem_append, List.mem_filter, List.mem_filter]
  by_cases hfixed : k ∈ policy.fixed.keys
  · exact .inl ⟨hfixed, decide_eq_true hkey⟩
  · refine .inr ⟨?_, decide_eq_true ⟨hkey, hfixed⟩⟩
    have hnone : policy.fixed.get? k = none := by
      by_contra hsome
      exact hfixed (Dict.mem_keys_iff.mpr (Option.ne_none_iff_exists'.mp hsome))
    rw [ParameterPolicy.owned, hnone, Option.or_none] at howned
    exact Dict.mem_keys_iff.mpr ⟨v, howned⟩

/-- A field that the caller does not name is sent at the end. -/
theorem sent_of_added {name k : String} {v : Json} (hadded : k ∈ policy.added args)
    (h : FieldAt py policy mapping name k v) :
    (name, v) ∈ (((policy.added args).filterMap fun k =>
      (policy.owned k).map fun v => (k, v)).filter fun e => mapping.sends e.1).map
        fun e => (mapping.name py e.1, e.2) := by
  refine List.mem_map.mpr ⟨(k, v), List.mem_filter.mpr ⟨?_, h.sends⟩, by rw [h.named]⟩
  exact List.mem_filterMap.mpr ⟨k, hadded, by rw [h.owned]; rfl⟩

/-- The last argument is a field of the policy, or an argument of a caller who has named all the
    fields that are sent under the name. -/
theorem lastArgument_cases {name : String} {w : Json}
    (h : lastArgument py policy mapping args name = some w) :
    (∃ k, FieldAt py policy mapping name k w) ∨
      ∃ j, (j, w) ∈ args.entries ∧ policy.owned j = none ∧ mapping.sends j = true ∧
        mapping.name py j = name ∧ ∀ k v, FieldAt py policy mapping name k v → k ∈ args.keys := by
  rw [lastArgument, RequestMapping.lastSent, sources, List.filter_append, List.map_append,
    Dict.lastValue_append, Option.or_eq_some_iff] at h
  obtain hadded | ⟨hnone, hnamed⟩ := h
  · -- The last one is a field that the caller does not name.
    obtain ⟨e, he, heq⟩ := List.mem_map.mp (Dict.mem_of_lastValue hadded)
    obtain ⟨hmem, hsends⟩ := List.mem_filter.mp he
    obtain ⟨k, -, hk⟩ := List.mem_filterMap.mp hmem
    obtain ⟨v, howned, rfl⟩ := Option.map_eq_some_iff.mp hk
    obtain ⟨hname, rfl⟩ := Prod.mk.inj heq
    exact .inl ⟨k, howned, hsends, hname⟩
  · obtain ⟨e, he, heq⟩ := List.mem_map.mp (Dict.mem_of_lastValue hnamed)
    obtain ⟨hmem, hsends⟩ := List.mem_filter.mp he
    obtain ⟨⟨j, u⟩, harg, rfl⟩ := List.mem_map.mp hmem
    obtain ⟨hname, hvalue⟩ := Prod.mk.inj heq
    cases howned : policy.owned j with
    | some v =>
        rw [howned] at hvalue
        obtain rfl : v = w := hvalue
        exact .inl ⟨j, howned, hsends, hname⟩
    | none =>
        rw [howned] at hvalue
        obtain rfl : u = w := hvalue
        refine .inr ⟨j, harg, howned, hsends, hname, fun k v hfield => ?_⟩
        -- A field that the caller does not name would come behind the argument.
        by_contra hkey
        obtain ⟨x, hx⟩ := Dict.exists_lastValue
          (sent_of_added (mem_added hfield.owned hkey) hfield)
        rw [hnone] at hx
        cases hx

/-- Guarded names are safe from every caller. -/
theorem Guarded.kept {name : String} {ok : Json → Prop}
    (h : Guarded py policy mapping scope name ok) : Kept py policy mapping scope name ok := by
  intro args value haccepted w hw
  rw [get?_mapRequest_accepted haccepted] at hw
  -- The scope goes before a fixed field of the mapping, and that before the arguments.
  cases hscope : scopeAt py policy mapping scope name with
  | some s =>
      rw [hscope, Option.some_or] at hw
      exact h.ofScope w (hscope.trans hw)
  | none =>
      rw [hscope, Option.none_or] at hw
      cases hfixed : mapping.fixed.get? name with
      | some f =>
          rw [hfixed, Option.some_or] at hw
          exact h.fixed hscope w (hfixed.trans hw)
      | none =>
          rw [hfixed, Option.none_or] at hw
          obtain ⟨k, hfield⟩ | ⟨j, harg, howned, hsends, hname, hall⟩ := lastArgument_cases hw
          · exact h.field hscope hfixed k w hfield
          · have hadmits := (applyPolicy_accepts_iff.mp ⟨value, haccepted⟩).2
            obtain hok | ⟨k, v, hfield, hnot⟩ :=
              h.caller hscope hfixed j w howned hsends hname (hadmits (j, w) harg)
            · exact hok
            · -- The caller cannot have named this field.
              obtain ⟨u, hu⟩ := Dict.mem_keys_iff.mp (hall k v hfield)
              exact absurd (hadmits (k, u) (Dict.mem_of_get? hu)) (hnot u)

/-- A field of the policy is sent unless the mapping drops it. -/
theorem field_sent (h : applyPolicy py args policy scope = .ok value) {k : String} {v : Json}
    (howned : policy.owned k = some v) (hsends : mapping.sends k = true) :
    (mapRequest py value mapping).get? (mapping.name py k) ≠ none := by
  have hsource : (k, v) ∈ sources policy args := by
    rw [← entries_merged]
    refine Dict.mem_of_get? ?_
    rw [get?_merged, howned, Option.some_or]
  have hsent : (k, v) ∈ (sources policy args).filter fun e => mapping.sends e.1 :=
    List.mem_filter.mpr ⟨hsource, hsends⟩
  obtain ⟨w, hw⟩ := Dict.exists_lastValue (List.mem_map_of_mem
    (f := fun e : String × Json => (mapping.name py e.1, e.2)) hsent)
  have hlast : lastArgument py policy mapping args (mapping.name py k) = some w := hw
  rw [get?_mapRequest_accepted h, hlast]
  simp

theorem target_sent (h : applyPolicy py args policy scope = .ok value) {t : String}
    (htarget : mapping.target py = some t) {s : Dict String Json} (hscope : scope = some s)
    (hs : s.entries ≠ []) : (mapRequest py value mapping).get? t ≠ none := by
  have hvalue : scopeAt py policy mapping scope t = some (.object s.entries) := by
    rw [scopeAt, RequestMapping.scopeAt, if_pos htarget, scopeValue, hscope, Option.filter_some,
      if_pos (by simpa using hs)]
  rw [get?_mapRequest_accepted h, hvalue, Option.some_or]
  simp

/-- A caller who names all fields of the policy under a name, and then another one that is sent
    under it. -/
theorem lastArgument_of_named {name j : String} {w : Json} {front : List (String × Json)}
    (hargs : args.entries = front ++ [(j, w)])
    (hnamed : ∀ k v, FieldAt py policy mapping name k v → k ∈ args.keys)
    (howned : policy.owned j = none) (hsends : mapping.sends j = true)
    (hname : mapping.name py j = name) : lastArgument py policy mapping args name = some w := by
  have hadded : Dict.lastValue ((((policy.added args).filterMap fun k =>
      (policy.owned k).map fun v => (k, v)).filter fun e => mapping.sends e.1).map
        fun e => (mapping.name py e.1, e.2)) name = none := by
    by_contra hsome
    obtain ⟨x, hx⟩ := Option.ne_none_iff_exists'.mp hsome
    obtain ⟨e, he, heq⟩ := List.mem_map.mp (Dict.mem_of_lastValue hx)
    obtain ⟨hmem, hsent⟩ := List.mem_filter.mp he
    obtain ⟨k, hk, hfield⟩ := List.mem_filterMap.mp hmem
    obtain ⟨v, hv, rfl⟩ := Option.map_eq_some_iff.mp hfield
    exact notMem_of_added hk (hnamed k v ⟨hv, hsent, (Prod.mk.inj heq).1⟩)
  rw [lastArgument, RequestMapping.lastSent, sources, List.filter_append, List.map_append,
    Dict.lastValue_append, hadded, Option.none_or, hargs, List.map_append, List.filter_append,
    List.map_append, Dict.lastValue_append, List.map_singleton, howned,
    show [(j, Option.none.getD w)].filter (fun e => mapping.sends e.1) = [(j, w)] by simp [hsends],
    List.map_singleton, hname, Dict.lastValue_cons, if_pos rfl]
  rfl

/-- The last field of an accepted call can be any that the checks admit, behind any others. -/
theorem exists_accepted (h : applyPolicy py args policy scope = .ok value) {j : String} {w : Json}
    (hadmits : policy.Admits py j w) {l : List String} (hj : j ∉ l)
    (hl : ∀ k ∈ l, ∃ u, policy.Admits py k u) :
    ∃ args' value', applyPolicy py args' policy scope = .ok value' ∧ (∀ k ∈ l, k ∈ args'.keys) ∧
      ∃ front, args'.entries = front ++ [(j, w)] := by
  have : Nonempty Json := ⟨.null⟩
  choose! u hu using hl
  obtain ⟨hrequired, hall⟩ := applyPolicy_accepts_iff.mp ⟨value, h⟩
  -- Of the accepted call the other arguments stay; then come the names of `l`, and last `j`.
  let kept := args.entries.filter fun e => e.1 ≠ j ∧ e.1 ∉ l
  have hkept : ∀ e ∈ kept, e ∈ args.entries ∧ e.1 ≠ j ∧ e.1 ∉ l := fun e he =>
    ⟨(List.mem_filter.mp he).1, of_decide_eq_true (List.mem_filter.mp he).2⟩
  let front := kept ++ l.dedup.map fun k => (k, u k)
  have hkeys : (front ++ [(j, w)]).map Prod.fst = kept.map Prod.fst ++ (l.dedup ++ [j]) := by
    simp only [front, List.map_append, List.map_map, List.append_assoc, List.map_singleton]
    rw [show Prod.fst ∘ (fun k => (k, u k)) = id from rfl, List.map_id]
  have hnodup : ((front ++ [(j, w)]).map Prod.fst).Nodup := by
    rw [hkeys, List.nodup_append, List.nodup_append]
    refine ⟨args.nodup.sublist (List.filter_sublist.map Prod.fst),
      ⟨List.nodup_dedup l, List.nodup_singleton j, ?_⟩, ?_⟩
    · intro k hk k' hk' heq
      rw [List.mem_singleton.mp hk'] at heq
      exact hj (heq ▸ List.mem_dedup.mp hk)
    · intro k hk k' hk' heq
      subst heq
      obtain ⟨e, he, rfl⟩ := List.mem_map.mp hk
      obtain ⟨-, hne, hnot⟩ := hkept e he
      obtain hin | hin := List.mem_append.mp hk'
      · exact hnot (List.mem_dedup.mp hin)
      · exact hne (List.mem_singleton.mp hin)
  let args' : Dict String Json := ⟨front ++ [(j, w)], hnodup⟩
  have hmemKeys : ∀ k, k ∈ args'.keys ↔ k ∈ kept.map Prod.fst ∨ k ∈ l ∨ k = j := by
    intro k
    show k ∈ (front ++ [(j, w)]).map Prod.fst ↔ _
    rw [hkeys, List.mem_append, List.mem_append, List.mem_dedup, List.mem_singleton]
  -- Each argument is one that the checks admit, and no required field has gone.
  have haccepts : (∀ field ∈ policy.requiredFields, field ∈ args'.keys) ∧
      ∀ arg ∈ args'.entries, policy.Admits py arg.1 arg.2 := by
    refine ⟨fun field hfield => (hmemKeys field).mpr ?_, fun arg harg => ?_⟩
    · by_cases hin : field = j ∨ field ∈ l
      · exact hin.elim (.inr ∘ .inr) (.inr ∘ .inl)
      · obtain ⟨hne, hnot⟩ := not_or.mp hin
        obtain ⟨e, he, rfl⟩ := List.mem_map.mp (hrequired field hfield)
        exact .inl (List.mem_map_of_mem (List.mem_filter.mpr ⟨he, decide_eq_true ⟨hne, hnot⟩⟩))
    · obtain harg | harg := List.mem_append.mp harg
      · obtain harg | harg := List.mem_append.mp harg
        · exact hall arg (hkept arg harg).1
        · obtain ⟨k, hk, rfl⟩ := List.mem_map.mp harg
          exact hu k (List.mem_dedup.mp hk)
      · rw [List.mem_singleton.mp harg]
        exact hadmits
  obtain ⟨value', hvalue'⟩ := applyPolicy_accepts_iff.mpr haccepts
  exact ⟨args', value', hvalue', fun k hk => (hmemKeys k).mpr (.inr (.inl hk)), front, rfl⟩

/-- A name that is safe from every caller is guarded, if its policy fields are. -/
theorem Guarded.of_kept (h : applyPolicy py args policy scope = .ok value) {name : String}
    {ok : Json → Prop} (hkept : Kept py policy mapping scope name ok)
    (hfields : ∀ k v, FieldAt py policy mapping name k v →
      Kept py policy mapping scope name (· = v)) : Guarded py policy mapping scope name ok where
  ofScope := by
    intro w hw
    refine hkept args value h w ?_
    rw [get?_mapRequest_accepted h, hw, Option.some_or]
  fixed := by
    intro hscope w hw
    refine hkept args value h w ?_
    rw [get?_mapRequest_accepted h, hscope, hw, Option.none_or, Option.some_or]
  field := by
    intro _ _ k v hfield
    have hsent := field_sent h hfield.owned hfield.sends
    rw [hfield.named] at hsent
    obtain ⟨w, hw⟩ := Option.ne_none_iff_exists'.mp hsent
    obtain rfl := hfields k v hfield args value h w hw
    exact hkept args value h w hw
  caller := by
    intro hscope hfixed j w howned hsends hname hadmits
    by_contra hnot
    obtain ⟨hbad, hall⟩ := not_or.mp hnot
    -- The caller names all the policy fields under the name, and then the other one.
    let l := (policy.fixed.keys ++ policy.injectedFields.keys).filter fun k =>
      mapping.sends k ∧ mapping.name py k = name
    have hl : ∀ k ∈ l, ∃ v, FieldAt py policy mapping name k v := by
      intro k hk
      obtain ⟨hkeys, hk⟩ := List.mem_filter.mp hk
      obtain ⟨hsent, hnamed⟩ := of_decide_eq_true hk
      obtain ⟨v, hv⟩ := owned_of_mem (List.mem_append.mp hkeys)
      exact ⟨v, hv, hsent, hnamed⟩
    have hj : j ∉ l := by
      intro hj
      obtain ⟨v, hfield⟩ := hl j hj
      have hsome := hfield.owned
      rw [howned] at hsome
      cases hsome
    have hnamable : ∀ k ∈ l, ∃ u, policy.Admits py k u := by
      intro k hk
      obtain ⟨v, hfield⟩ := hl k hk
      by_contra hnone
      exact hall ⟨k, v, hfield, not_exists.mp hnone⟩
    obtain ⟨args', value', h', hkeys, front, hentries⟩ := exists_accepted h hadmits hj hnamable
    have hlast : lastArgument py policy mapping args' name = some w := by
      refine lastArgument_of_named hentries (fun k v hfield => hkeys k ?_) howned hsends hname
      exact List.mem_filter.mpr ⟨List.mem_append.mpr (mem_of_owned hfield.owned),
        decide_eq_true ⟨hfield.sends, hfield.named⟩⟩
    refine hbad (hkept args' value' h' w ?_)
    rw [get?_mapRequest_accepted h', hscope, hfixed, Option.none_or, Option.none_or, hlast]

end Accepted

/-- **No steering.** Where some call is accepted at all, every two accepted calls are sent with the
    values of the gateway if and only if the names that the gateway owns are guarded. -/
theorem gateway_owned {py : PythonValues} {policy : ParameterPolicy} {mapping : RequestMapping}
    {scope : Option (Dict String Json)}
    (haccepted : ∃ args value, applyPolicy py args policy scope = .ok value) :
    (∀ args args' value value', applyPolicy py args policy scope = .ok value →
      applyPolicy py args' policy scope = .ok value' →
      OwnedSent py policy mapping scope (mapRequest py value mapping) ∧
        OwnedSent py policy mapping scope (mapRequest py value' mapping)) ↔
      Separate py policy mapping scope := by
  obtain ⟨args₀, value₀, h₀⟩ := haccepted
  constructor
  · intro hsent
    have hfield : ∀ k v, policy.owned k = some v →
        Kept py policy mapping scope (mapping.name py k) (· = v) :=
      fun k v howned args value h w hw => (hsent args args value value h h).1.field k v howned w hw
    have hfields : ∀ name k v, FieldAt py policy mapping name k v →
        Kept py policy mapping scope name (· = v) :=
      fun name k v h => h.named ▸ hfield k v h.owned
    refine ⟨fun k v howned => .of_kept h₀ (hfield k v howned) (hfields _), fun t htarget => ?_⟩
    exact .of_kept h₀ (fun args value h w hw =>
      (hsent args args value value h h).1.target t htarget w hw) (hfields t)
  · intro hseparate
    have hsent : ∀ args value, applyPolicy py args policy scope = .ok value →
        OwnedSent py policy mapping scope (mapRequest py value mapping) := fun args value h =>
      { field := fun k v howned => (hseparate.field k v howned).kept args value h
        fieldSent := fun k v howned hsends => field_sent h howned hsends
        target := fun t htarget => (hseparate.target t htarget).kept args value h
        targetSent := fun t s htarget hscope hs => target_sent h htarget hscope hs }
    exact fun args args' value value' h h' => ⟨hsent args value h, hsent args' value' h'⟩

/-- The policy fixes the tenant. -/
def tenantPolicy : ParameterPolicy :=
  ⟨[], [], [], [], [], Dict.ofPairs [("tenant", .string "acme")], Dict.empty⟩

/-- The provider knows the customer as the tenant. -/
def tenantMapping : RequestMapping :=
  ⟨Dict.ofPairs [("customer", .string "tenant")], [], Dict.empty, .null⟩

def tenantArgs (customer : String) : Dict String Json :=
  Dict.ofPairs [("tenant", .string "any"), ("customer", .string customer)]

def tenantValue (customer : String) : Dict String Json :=
  Dict.ofPairs [("tenant", .string "acme"), ("customer", .string customer)]

/-- The policy forbids the caller to name the tenant as well. -/
def guardedPolicy : ParameterPolicy := { tenantPolicy with forbiddenFields := ["tenant"] }

theorem guardedPolicy_owned {k : String} {v : Json} (h : guardedPolicy.owned k = some v) :
    k = "tenant" ∧ v = .string "acme" := by
  have hget : guardedPolicy.owned k = (tenantPolicy.fixed.get? k) := rfl
  rw [hget, tenantPolicy, Dict.get?_ofPairs, Dict.lastValue_cons] at h
  by_cases hk : "tenant" = k
  · subst hk
    rw [if_pos rfl] at h
    exact ⟨rfl, (Option.some.inj h).symm⟩
  · rw [if_neg hk] at h
    cases h

theorem guardedPolicy_separate : Separate plainValues guardedPolicy tenantMapping none where
  field := by
    intro k v howned
    obtain ⟨rfl, rfl⟩ := guardedPolicy_owned howned
    refine ⟨fun w hw => (by cases hw), fun _ w hw => (by cases hw), ?_, ?_⟩
    · rintro - - k v ⟨howned, -, -⟩
      exact (guardedPolicy_owned howned).2
    · rintro - - j w - - - -
      refine .inr ⟨"tenant", .string "acme", ⟨rfl, rfl, rfl⟩, fun u hadmits => ?_⟩
      have hpermitted := hadmits.permitted
      simp [protectedMembers, isForbidden, plainValues, guardedPolicy] at hpermitted
  target := fun t ht => by cases ht

/-- Under that policy two callers that name different customers both reach the
    tenant of the policy. -/
theorem gateway_owned_guardedPolicy :
    OwnedSent plainValues guardedPolicy tenantMapping none (mapRequest plainValues
        (Dict.ofPairs [("customer", .string "rival"), ("tenant", .string "acme")])
        tenantMapping) ∧
      OwnedSent plainValues guardedPolicy tenantMapping none (mapRequest plainValues
        (Dict.ofPairs [("customer", .string "other"), ("tenant", .string "acme")])
        tenantMapping) :=
  (gateway_owned ⟨Dict.empty, _, rfl⟩).mpr guardedPolicy_separate
    (Dict.ofPairs [("customer", .string "rival")]) (Dict.ofPairs [("customer", .string "other")])
    _ _ rfl rfl

/-- A caller that names the tenant first chooses the tenant with the argument
    that is renamed to it. -/
theorem tenant_steered :
    applyPolicy plainValues (tenantArgs "rival") tenantPolicy none = .ok (tenantValue "rival") ∧
      ¬ OwnedSent plainValues tenantPolicy tenantMapping none
        (mapRequest plainValues (tenantValue "rival") tenantMapping) := by
  refine ⟨rfl, fun h => ?_⟩
  have hvalue := h.field "tenant" (.string "acme") rfl (.string "rival") rfl
  simp at hvalue

end Gateway
end HermesPlatform
