/-
  HermesPlatform.PostgresMcp.SearchPath

  Unqualified names: the object the scope check matches against the object
  PostgreSQL resolves.

  `_timeouts` pins `search_path` to `pg_catalog` and the scoped schemas in
  sorted order.  PostgreSQL reads the setting back as a list of identifiers
  (`splitIdentifiers`) and takes an unqualified name from the first schema of
  the list that holds a relation of that name, whatever the scope lists there.
  `resolveRelation_matched_iff` says when this is the object the check matched.
-/

import HermesPlatform.PostgresMcp.CteScope
import HermesPlatform.PostgresMcp.Validate

namespace HermesPlatform
namespace PostgresMcp

open Python QueryTree

/-! ## The setting as PostgreSQL reads it -/

/-- Where the scan of a list of quoted identifiers stands. -/
inductive ListScan where
  | between
  | quoted (name : List Char)
  | closed (name : List Char)
  | after (name : List Char)

/-- The identifiers of a `search_path` setting, `none` on a syntax error.  Only
    quoted identifiers are read, the only kind `_timeouts` writes. -/
def splitIdentifiers : ListScan → List Char → Option (List String)
  | .between, [] => none
  | .between, c :: cs =>
      if c = '"' then splitIdentifiers (.quoted []) cs
      else if isSpace c then splitIdentifiers .between cs
      else none
  | .quoted _, [] => none
  | .quoted name, c :: cs =>
      if c = '"' then splitIdentifiers (.closed name) cs
      else splitIdentifiers (.quoted (name ++ [c])) cs
  | .closed name, [] => some [String.ofList name]
  | .closed name, c :: cs =>
      -- A doubled quote stands for one quote of the name.
      if c = '"' then splitIdentifiers (.quoted (name ++ ['"'])) cs
      else if c = ',' then (String.ofList name :: ·) <$> splitIdentifiers .between cs
      else if isSpace c then splitIdentifiers (.after name) cs
      else none
  | .after name, [] => some [String.ofList name]
  | .after name, c :: cs =>
      if c = ',' then (String.ofList name :: ·) <$> splitIdentifiers .between cs
      else if isSpace c then splitIdentifiers (.after name) cs
      else none

/-- The scan of a quoted identifier reads its characters back. -/
theorem splitIdentifiers_quoted (cs : List Char) :
    ∀ (name rest : List Char),
      splitIdentifiers (.quoted name)
        ((cs.flatMap fun c => if c = '"' then ['"', '"'] else [c]) ++ '"' :: rest)
        = splitIdentifiers (.closed (name ++ cs)) rest := by
  induction cs with
  | nil =>
      intro name rest
      simp [splitIdentifiers]
  | cons c cs ih =>
      intro name rest
      rw [List.flatMap_cons, List.append_assoc]
      -- A quote is written twice and read back as one.
      by_cases hc : c = '"'
      · subst hc
        simp [splitIdentifiers, ih]
      · simp [splitIdentifiers, hc, ih]

theorem splitIdentifiers_identifier (value : String) (rest : List Char) :
    splitIdentifiers .between ((identifier value).toList ++ rest)
      = splitIdentifiers (.closed value.toList) rest := by
  have hbody := splitIdentifiers_quoted value.toList [] rest
  rw [List.nil_append] at hbody
  rw [identifier, String.toList_ofList, ← hbody, List.cons_append, List.cons_append,
    List.append_assoc, splitIdentifiers, if_pos rfl]
  rfl

/-- **Quoting round trip.** The setting `_timeouts` writes is read back as the
    list of its schemas. -/
theorem splitIdentifiers_intercalate (name : String) (names : List String) :
    splitIdentifiers .between (", ".intercalate ((name :: names).map identifier)).toList
      = some (name :: names) := by
  induction names generalizing name with
  | nil =>
      have hone := splitIdentifiers_identifier name []
      rw [List.append_nil] at hone
      simp [hone, splitIdentifiers]
  | cons next names ih =>
      have hrest := ih next
      rw [List.map_cons] at hrest ⊢
      rw [List.map_cons, String.intercalate_cons_cons, String.toList_append,
        String.toList_append, List.append_assoc, splitIdentifiers_identifier]
      -- Between two names stand a comma and a blank.
      have hsep : (", " : String).toList = [',', ' '] := rfl
      rw [hsep, List.cons_append, splitIdentifiers, if_neg (by decide), if_pos rfl,
        List.cons_append, splitIdentifiers, if_neg (by decide), if_pos (by decide),
        List.nil_append, hrest]
      simp

/-- The schemas PostgreSQL searches under the settings of `_timeouts`. -/
def searchPath (settings : List (String × String)) : List String :=
  match settings.lookup "search_path" with
  | some value => (splitIdentifiers .between value.toList).getD []
  | none => []

theorem searchPath_timeouts {limits : Limits} {scope : Scope} {settings : List (String × String)}
    (h : timeouts limits scope = .ok settings) :
    ∃ schemas, scope.schemas = some schemas ∧
      searchPath settings = "pg_catalog" :: sortedSchemas schemas := by
  rw [timeouts, bind_eq_ok] at h
  obtain ⟨schemas, hschemas, h⟩ := h
  cases h
  refine ⟨schemas, object_eq_ok.mp hschemas, ?_⟩
  have hread := splitIdentifiers_intercalate "pg_catalog" (sortedSchemas schemas)
  rw [List.map_cons] at hread
  simp only [searchPath, Dict.lookup_cons, if_neg (show ¬"search_path" = "statement_timeout" by decide),
    if_neg (show ¬"search_path" = "lock_timeout" by decide), if_pos, hread, Option.getD_some]

/-! ## Resolution -/

/-- The relation a name resolves to in a database whose relations are `catalog`. -/
def resolveRelation (catalog : List (String × String)) (path : List String) :
    Relation → Option (String × String)
  | (some schema, name) => if (schema, name) ∈ catalog then some (schema, name) else none
  | (none, name) => (path.find? fun schema => (schema, name) ∈ catalog).map (·, name)

/-- `s` comes before `t` in the search path. -/
def Precedes (s t : String) : Prop :=
  t ≠ "pg_catalog" ∧ (s = "pg_catalog" ∨ s < t)

instance : DecidableRel Precedes := fun _ _ => inferInstanceAs (Decidable (_ ∧ _))

theorem find?_sorted {l : List String} (h : l.Pairwise (· ≤ ·)) {p : String → Bool}
    {t : String} :
    l.find? p = some t ↔ t ∈ l ∧ p t = true ∧ ∀ s ∈ l, s < t → p s = false := by
  induction l with
  | nil => simp
  | cons a l ih =>
      rw [List.pairwise_cons] at h
      cases hpa : p a with
      | true =>
          rw [List.find?_cons_of_pos hpa, Option.some.injEq]
          refine ⟨?_, ?_⟩
          · -- The first element is below all others.
            rintro rfl
            refine ⟨List.mem_cons_self, hpa, ?_⟩
            intro s hs hlt
            rcases List.mem_cons.mp hs with rfl | hs
            · exact absurd hlt (lt_irrefl _)
            · exact absurd hlt (not_lt_of_ge (h.1 s hs))
          · rintro ⟨ht, -, hbefore⟩
            rcases List.mem_cons.mp ht with rfl | ht
            · rfl
            · by_contra hne
              have hlt : a < t := lt_of_le_of_ne (h.1 t ht) hne
              have := hbefore a List.mem_cons_self hlt
              rw [hpa] at this
              cases this
      | false =>
          rw [List.find?_cons_of_neg (by simp [hpa]), ih h.2]
          refine ⟨?_, ?_⟩
          · rintro ⟨ht, hpt, hbefore⟩
            refine ⟨List.mem_cons_of_mem _ ht, hpt, ?_⟩
            intro s hs hlt
            rcases List.mem_cons.mp hs with rfl | hs
            · exact hpa
            · exact hbefore s hs hlt
          · rintro ⟨ht, hpt, hbefore⟩
            rcases List.mem_cons.mp ht with rfl | ht
            · rw [hpa] at hpt
              cases hpt
            · exact ⟨ht, hpt, fun s hs hlt => hbefore s (List.mem_cons_of_mem _ hs) hlt⟩

theorem mem_sortedSchemas {schemas : Dict String SchemaScope} {s : String} :
    s ∈ sortedSchemas schemas ↔ s ∈ schemas.keys :=
  List.mem_insertionSort _

/-- The first schema of the pinned path that satisfies `p`. -/
theorem find?_pinnedPath (schemas : Dict String SchemaScope) {p : String → Bool} {t : String} :
    ("pg_catalog" :: sortedSchemas schemas).find? p = some t ↔
      t ∈ "pg_catalog" :: schemas.keys ∧ p t = true ∧
        ∀ s ∈ "pg_catalog" :: schemas.keys, Precedes s t → p s = false := by
  have hsorted : (sortedSchemas schemas).Pairwise (· ≤ ·) :=
    List.pairwise_insertionSort (· ≤ ·) _
  have hmem : ∀ s, s ∈ "pg_catalog" :: schemas.keys ↔
      s ∈ "pg_catalog" :: sortedSchemas schemas := by
    intro s
    rw [List.mem_cons, List.mem_cons, mem_sortedSchemas]
  simp only [hmem]
  -- `pg_catalog` stands before the sorted schemas of the scope.
  cases hcat : p "pg_catalog" with
  | true =>
      rw [List.find?_cons_of_pos hcat, Option.some.injEq]
      refine ⟨?_, ?_⟩
      · rintro rfl
        exact ⟨List.mem_cons_self, hcat, fun s _ hs => absurd rfl hs.1⟩
      · rintro ⟨-, -, hbefore⟩
        by_contra hne
        have := hbefore "pg_catalog" List.mem_cons_self ⟨fun h => hne h.symm, Or.inl rfl⟩
        rw [hcat] at this
        cases this
  | false =>
      rw [List.find?_cons_of_neg (by simp [hcat]), find?_sorted hsorted]
      refine ⟨?_, ?_⟩
      · rintro ⟨ht, hpt, hbefore⟩
        refine ⟨List.mem_cons_of_mem _ ht, hpt, ?_⟩
        intro s hs hprec
        rcases List.mem_cons.mp hs with rfl | hs
        · exact hcat
        · rcases hprec.2 with rfl | hlt
          · exact hcat
          · exact hbefore s hs hlt
      · rintro ⟨ht, hpt, hbefore⟩
        have hne : t ≠ "pg_catalog" := by
          rintro rfl
          rw [hcat] at hpt
          cases hpt
        refine ⟨(List.mem_cons.mp ht).resolve_left hne, hpt, ?_⟩
        exact fun s hs hlt => hbefore s (List.mem_cons_of_mem _ hs) ⟨hne, Or.inr hlt⟩

/-! ## The matched object -/

/-- The object of the scope the check matches a reference with. -/
def matchedObject (lower : String → String) (schemas : Dict String SchemaScope) :
    Relation → Option (String × String)
  | (some schema, name) => some (schema, name)
  | (none, name) =>
      match ((relationIndex lower false schemas).get? name).getD [] with
      | [schema] => some (schema, name)
      | _ => none

/-- The scope lists the object `m`. -/
def ListsObject (schemas : Dict String SchemaScope) (m : String × String) : Prop :=
  ∃ e ∈ schemas.entries, e.1 = m.1 ∧ m.2 ∈ e.2.objects

instance (schemas : Dict String SchemaScope) : DecidablePred (ListsObject schemas) := fun _ =>
  inferInstanceAs (Decidable (∃ e ∈ schemas.entries, _))

theorem listsObject_iff {lower : String → String} {schemas : Dict String SchemaScope}
    {schema name : String} :
    Lists lower false schemas schema name ↔ ListsObject schemas (schema, name) := by
  unfold Lists ListsObject
  simp only [normalize, Bool.false_eq_true, if_false]
  refine ⟨?_, ?_⟩
  · rintro ⟨definition, hentry, relation, hrel, rfl⟩
    exact ⟨(schema, definition), hentry, rfl, hrel⟩
  · rintro ⟨⟨s, definition⟩, hentry, rfl, hrel⟩
    exact ⟨definition, hentry, name, hrel, rfl⟩

/-- An accepted reference matches an object of the scope, and a qualified one
    matches the object it names. -/
theorem matchedObject_of_check {lower : String → String} {schemas : Dict String SchemaScope}
    {r : Relation}
    (h : checkRelation lower false schemas (relationIndex lower false schemas) r = .ok ()) :
    ∃ m, matchedObject lower schemas r = some m ∧ ListsObject schemas m ∧ m.2 = r.2 := by
  obtain ⟨schema, name⟩ := r
  cases schema with
  | none =>
      obtain ⟨s, hone, hlists, -⟩ := checkRelation_none lower h
      have hname : normalize lower false name = name := rfl
      rw [hname] at hone hlists
      refine ⟨(s, name), ?_, listsObject_iff.mp hlists, rfl⟩
      simp only [matchedObject, hone]
  | some s =>
      have hlists := checkRelation_some lower h
      exact ⟨(s, name), rfl, listsObject_iff.mp hlists, rfl⟩

/-- No schema of the search path hides `m` from its unqualified name: none
    before its own holds a relation of that name, and none at all does when `m`
    itself is not in the database. -/
def Unshadowed (catalog : List (String × String)) (schemas : Dict String SchemaScope)
    (m : String × String) : Prop :=
  (∀ s ∈ "pg_catalog" :: schemas.keys, Precedes s m.1 → (s, m.2) ∉ catalog) ∧
  (m ∉ catalog → ∀ s ∈ "pg_catalog" :: schemas.keys, (s, m.2) ∉ catalog)

theorem resolveRelation_unqualified_iff (catalog : List (String × String))
    {schemas : Dict String SchemaScope} {m : String × String} (hm : ListsObject schemas m) :
    resolveRelation catalog ("pg_catalog" :: sortedSchemas schemas) (none, m.2)
        = (if m ∈ catalog then some m else none) ↔
      Unshadowed catalog schemas m := by
  obtain ⟨schema, name⟩ := m
  obtain ⟨e, hentry, hschema, -⟩ := hm
  have hkey : schema ∈ "pg_catalog" :: schemas.keys :=
    List.mem_cons_of_mem _ (List.mem_map.mpr ⟨e, hentry, hschema⟩)
  simp only [resolveRelation, Unshadowed]
  -- When the object exists the search has to stop at its schema, else nowhere.
  by_cases hcat : (schema, name) ∈ catalog
  · rw [if_pos hcat]
    have hmap : ∀ o : Option String, o.map (·, name) = some (schema, name) ↔ o = some schema := by
      intro o
      cases o <;> simp
    rw [hmap, find?_pinnedPath]
    refine ⟨?_, ?_⟩
    · rintro ⟨-, -, hbefore⟩
      exact ⟨fun s hs hp => by simpa using hbefore s hs hp, fun hnot => absurd hcat hnot⟩
    · rintro ⟨hbefore, -⟩
      exact ⟨hkey, by simpa using hcat, fun s hs hp => by simpa using hbefore s hs hp⟩
  · rw [if_neg hcat, Option.map_eq_none_iff, List.find?_eq_none]
    have hpath : (∀ s ∈ "pg_catalog" :: sortedSchemas schemas, (s, name) ∉ catalog) ↔
        ∀ s ∈ "pg_catalog" :: schemas.keys, (s, name) ∉ catalog := by
      simp only [List.forall_mem_cons, mem_sortedSchemas]
    simp only [decide_eq_true_eq, hpath]
    refine ⟨?_, ?_⟩
    · intro h
      exact ⟨fun s hs _ => h s hs, fun _ => h⟩
    · rintro ⟨-, h⟩
      exact h hcat

/-- **Resolution of accepted names.** Every accepted reference matches an
    object `m` of the scope.  Its resolution in the pinned search path is `m`
    when `m` exists and fails otherwise, iff the reference is qualified or no
    schema of the path hides `m`. -/
theorem resolveRelation_matched_iff (lower : String → String) (procs : List PgProc)
    (databaseType : Option String) (scope : Scope) (limits : Limits) (analysis : QueryAnalysis)
    (settings : List (String × String)) (catalog : List (String × String)) (r : Relation)
    (hdb : runtimeType databaseType = "postgresql")
    (hvalid : validateAnalysis lower procs databaseType scope analysis = .ok ())
    (hsettings : timeouts limits scope = .ok settings) (hr : r ∈ analysis.relations) :
    ∃ schemas m, scope.schemas = some schemas ∧ matchedObject lower schemas r = some m ∧
      ListsObject schemas m ∧
      (resolveRelation catalog (searchPath settings) r = (if m ∈ catalog then some m else none) ↔
        (r.1 = none → Unshadowed catalog schemas m)) := by
  obtain ⟨schemas, hschemas, hchecked, -⟩ := validateAnalysis_ok lower hvalid
  obtain ⟨schemas', hschemas', hpath⟩ := searchPath_timeouts hsettings
  rw [hschemas, Option.some.injEq] at hschemas'
  subst hschemas'
  -- PostgreSQL names are compared as they are written.
  have hci : caseInsensitive databaseType = false := by
    rw [caseInsensitive, hdb]
    rfl
  have hcheck := hchecked r hr
  rw [hci, normalizedSchemas_false] at hcheck
  obtain ⟨m, hmatched, hlisted, hname⟩ := matchedObject_of_check hcheck
  refine ⟨schemas, m, hschemas, hmatched, hlisted, ?_⟩
  rw [hpath]
  obtain ⟨schema, name⟩ := r
  cases schema with
  | none =>
      have hres := resolveRelation_unqualified_iff catalog hlisted
      rw [hname] at hres
      rw [hres]
      simp
  | some s =>
      cases hmatched
      simp [resolveRelation]

/-! ## Two catalogs -/

def reportingScope : Scope where
  schemas := some (.ofPairs
    [("public", ⟨some ["items", "shared"], some []⟩),
     ("reporting", ⟨some ["shared"], some ["daily"]⟩)])
  permissions := some ⟨some true⟩

def defaultLimits : Limits := ⟨none, none⟩

def analysisOf (relations : List Relation) : QueryAnalysis := ⟨"", relations, [], false⟩

/-- `daily` is read from `reporting`: `public` has no relation of that name. -/
theorem resolveRelation_daily :
    ∃ settings, timeouts defaultLimits reportingScope = .ok settings ∧
      resolveRelation [("public", "items"), ("reporting", "daily")] (searchPath settings)
        (none, "daily") = some ("reporting", "daily") := by
  refine ⟨_, rfl, ?_⟩
  obtain ⟨schemas, m, hschemas, hmatched, -, hiff⟩ :=
    resolveRelation_matched_iff asciiLower [] none reportingScope defaultLimits
      (analysisOf [(none, "daily")]) _ [("public", "items"), ("reporting", "daily")]
      (none, "daily") rfl rfl rfl List.mem_cons_self
  cases hschemas
  cases hmatched
  exact hiff.mpr (fun _ => by unfold Unshadowed; decide)

/-- The scope lists `reporting.daily`, and the database also has a relation
    `public.daily` that it does not list: the accepted query
    `SELECT * FROM daily` reads the latter. -/
theorem resolveRelation_reads_unlisted :
    ∃ analysis settings,
      analyzeReadQuery asciiLower
        (parserOf "SELECT * FROM daily" (selectFrom [] [rangeVar none "daily"]))
        "SELECT * FROM daily" "postgresql" = .ok analysis ∧
      validateAnalysis asciiLower [] none reportingScope analysis = .ok () ∧
      timeouts defaultLimits reportingScope = .ok settings ∧
      (none, "daily") ∈ analysis.relations ∧
      resolveRelation [("public", "daily"), ("reporting", "daily")] (searchPath settings)
        (none, "daily") = some ("public", "daily") ∧
      ∀ schemas, reportingScope.schemas = some schemas →
        ¬ ListsObject schemas ("public", "daily") :=
  ⟨_, _, rfl, rfl, rfl, by decide, by decide, by
    rintro schemas ⟨⟩
    decide⟩

end PostgresMcp
end HermesPlatform
