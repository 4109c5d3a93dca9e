/-
  HermesPlatform.Gateway.Redaction

  What `_summary` lets through of the values beneath secret keys.

  `conceal` takes away what lies beneath every secret key, at every depth; two values that
  are concealed to the same differ in nothing else.  `_summary` redacts the keys of the
  outermost object only, so a secret key further down is stored with its value, unless it
  lies beyond the limits of `_bounded`.
-/

import HermesPlatform.Gateway.Audit

namespace HermesPlatform
namespace Gateway
namespace Audit

/-- Neither a list nor a dictionary. -/
def PyValue.isAtom : PyValue → Bool
  | .list _ | .dict _ => false
  | _ => true

/-- Induction over the values. -/
@[elab_as_elim]
theorem PyValue.induction {P : PyValue → Prop} (atom : ∀ v, v.isAtom = true → P v)
    (list : ∀ items, (∀ v ∈ items, P v) → P (.list items))
    (dict : ∀ members, (∀ m ∈ members, P m.2) → P (.dict members)) (v : PyValue) : P v := by
  refine @PyValue.rec P (fun items => ∀ v ∈ items, P v) (fun members => ∀ m ∈ members, P m.2)
    (fun m => P m.2) (atom _ rfl) (fun _ => atom _ rfl) (fun _ => atom _ rfl)
    (fun _ => atom _ rfl) (fun _ => atom _ rfl) list dict (List.forall_mem_nil _) ?_
    (List.forall_mem_nil _) ?_ (fun _ _ h => h) v
  · intro head tail hhead htail
    exact List.forall_mem_cons.mpr ⟨hhead, htail⟩
  · intro head tail hhead htail
    exact List.forall_mem_cons.mpr ⟨hhead, htail⟩

section Conceal

variable (lower : Text → Text)

mutual
/-- The value without what lies beneath secret keys. -/
def conceal : PyValue → PyValue
  | .list items => .list (concealItems items)
  | .dict members => .dict (concealMembers members)
  | v => v
def concealItems : List PyValue → List PyValue
  | [] => []
  | v :: rest => conceal v :: concealItems rest
def concealMembers : List (Text × PyValue) → List (Text × PyValue)
  | [] => []
  | (key, v) :: rest =>
      (key, if isSecret lower key then .none else conceal v) :: concealMembers rest
end

mutual
/-- `_bounded` keeps a secret key, and with it what lies beneath. -/
def shows : PyValue → Bool
  | .list items => showsItems items 20
  | .dict members => showsMembers members 20
  | _ => false
def showsItems : List PyValue → Nat → Bool
  | v :: rest, n + 1 => shows v || showsItems rest n
  | _, _ => false
def showsMembers : List (Text × PyValue) → Nat → Bool
  | (key, v) :: rest, n + 1 => isSecret lower key || shows v || showsMembers rest n
  | _, _ => false
end

/-- `_summary` keeps a secret key that it does not redact. -/
def leaks : PyValue → Bool
  | .dict members =>
      ((members.take 50).filter (·.1 ≠ text "resource_scope")).any fun (key, item) =>
        !isSecret lower key && shows lower item
  | v => shows lower v

/-! ## What is concealed changes nothing else -/

variable {lower}

theorem conceal_of_isAtom {v : PyValue} (h : v.isAtom = true) : conceal lower v = v := by
  cases v <;> first | rfl | cases h

/-- What `_bounded` keeps can be told without what is concealed. -/
theorem shows_conceal (v : PyValue) : shows lower (conceal lower v) = shows lower v := by
  induction v using PyValue.induction with
  | atom v hv => rw [conceal_of_isAtom hv]
  | list items ih =>
      suffices h : ∀ n, showsItems lower (concealItems lower items) n =
          showsItems lower items n from h 20
      induction items with
      | nil => exact fun _ => rfl
      | cons v rest ihRest =>
          rw [List.forall_mem_cons] at ih
          intro n
          cases n with
          | zero => rfl
          | succ n => simp only [concealItems, showsItems, ih.1, ihRest ih.2]
  | dict members ih =>
      suffices h : ∀ n, showsMembers lower (concealMembers lower members) n =
          showsMembers lower members n from h 20
      induction members with
      | nil => exact fun _ => rfl
      | cons m rest ihRest =>
          rw [List.forall_mem_cons] at ih
          intro n
          cases n with
          | zero => rfl
          | succ n =>
              simp only [concealMembers, showsMembers, ihRest ih.2]
              cases hsecret : isSecret lower m.1 with
              | true => rfl
              | false => simp [ih.1]

/-- Where `_bounded` keeps no secret key, it keeps nothing that is concealed. -/
theorem bounded_conceal (v : PyValue) (h : shows lower v = false) :
    bounded (conceal lower v) = bounded v := by
  induction v using PyValue.induction with
  | atom v hv => rw [conceal_of_isAtom hv]
  | list items ih =>
      suffices hall : ∀ n, showsItems lower items n = false →
          boundedItems (concealItems lower items) n = boundedItems items n from
        congrArg PyValue.list (hall 20 h)
      clear h
      induction items with
      | nil => exact fun _ _ => rfl
      | cons v rest ihRest =>
          rw [List.forall_mem_cons] at ih
          intro n hn
          cases n with
          | zero => rfl
          | succ n =>
              rw [showsItems, Bool.or_eq_false_iff] at hn
              rw [concealItems, boundedItems, boundedItems, ih.1 hn.1, ihRest ih.2 n hn.2]
  | dict members ih =>
      suffices hall : ∀ n, showsMembers lower members n = false →
          boundedMembers (concealMembers lower members) n = boundedMembers members n from
        congrArg PyValue.dict (hall 20 h)
      clear h
      induction members with
      | nil => exact fun _ _ => rfl
      | cons m rest ihRest =>
          rw [List.forall_mem_cons] at ih
          intro n hn
          cases n with
          | zero => rfl
          | succ n =>
              rw [showsMembers, Bool.or_eq_false_iff, Bool.or_eq_false_iff] at hn
              obtain ⟨⟨hsecret, hshows⟩, hrest⟩ := hn
              rw [concealMembers, hsecret, boundedMembers, boundedMembers]
              simp only [Bool.false_eq_true, if_false, ih.1 hshows, ihRest ih.2 n hrest]

/-- Another value can always be told from what `_bounded` makes of a value. -/
theorem exists_bounded_ne (v : PyValue) : ∃ w, bounded w ≠ bounded v := by
  cases v with
  | none => exact ⟨.bool true, nofun⟩
  | _ => exact ⟨.none, nofun⟩

/-- A secret key that `_bounded` keeps can have another value, and it shows. -/
theorem exists_of_shows (v : PyValue) (h : shows lower v = true) :
    ∃ w, conceal lower w = conceal lower v ∧ bounded w ≠ bounded v := by
  induction v using PyValue.induction with
  | atom v hv => cases v <;> first | cases h | cases hv
  | list items ih =>
      suffices hall : ∀ n, showsItems lower items n = true →
          ∃ items', concealItems lower items' = concealItems lower items ∧
            boundedItems items' n ≠ boundedItems items n by
        obtain ⟨items', hconceal, hne⟩ := hall 20 h
        exact ⟨.list items', congrArg PyValue.list hconceal, fun heq => hne (PyValue.list.inj heq)⟩
      clear h
      induction items with
      | nil =>
          intro n hn
          cases n <;> cases hn
      | cons v rest ihRest =>
          rw [List.forall_mem_cons] at ih
          intro n hn
          cases n with
          | zero => cases hn
          | succ n =>
              rw [showsItems, Bool.or_eq_true] at hn
              obtain hv | hrest := hn
              · obtain ⟨w, hconceal, hne⟩ := ih.1 hv
                refine ⟨w :: rest, ?_, fun heq => hne (List.cons.inj heq).1⟩
                rw [concealItems, hconceal, concealItems]
              · obtain ⟨rest', hconceal, hne⟩ := ihRest ih.2 n hrest
                refine ⟨v :: rest', ?_, fun heq => hne (List.cons.inj heq).2⟩
                rw [concealItems, hconceal, concealItems]
  | dict members ih =>
      suffices hall : ∀ n, showsMembers lower members n = true →
          ∃ members', concealMembers lower members' = concealMembers lower members ∧
            boundedMembers members' n ≠ boundedMembers members n by
        obtain ⟨members', hconceal, hne⟩ := hall 20 h
        exact ⟨.dict members', congrArg PyValue.dict hconceal,
          fun heq => hne (PyValue.dict.inj heq)⟩
      clear h
      induction members with
      | nil =>
          intro n hn
          cases n <;> cases hn
      | cons m rest ihRest =>
          rw [List.forall_mem_cons] at ih
          intro n hn
          cases n with
          | zero => cases hn
          | succ n =>
              obtain ⟨key, v⟩ := m
              have hhead : ∀ w, bounded w ≠ bounded v →
                  boundedMembers ((key, w) :: rest) (n + 1) ≠
                    boundedMembers ((key, v) :: rest) (n + 1) := fun w hne heq =>
                hne (Prod.mk.inj (List.cons.inj heq).1).2
              rw [showsMembers, Bool.or_eq_true, Bool.or_eq_true] at hn
              obtain (hsecret | hv) | hrest := hn
              · obtain ⟨w, hne⟩ := exists_bounded_ne v
                refine ⟨(key, w) :: rest, ?_, hhead w hne⟩
                rw [concealMembers, concealMembers, hsecret]
                rfl
              · obtain ⟨w, hconceal, hne⟩ := ih.1 hv
                refine ⟨(key, w) :: rest, ?_, hhead w hne⟩
                rw [concealMembers, hconceal, concealMembers]
              · obtain ⟨rest', hconceal, hne⟩ := ihRest ih.2 n hrest
                refine ⟨(key, v) :: rest', ?_, fun heq => hne (List.cons.inj heq).2⟩
                rw [concealMembers, hconceal, concealMembers]

/-! ## The summary -/

/-- What `_summary` takes of the outermost members. -/
def kept (members : List (Text × PyValue)) : List (Text × PyValue) :=
  (members.take 50).filter (·.1 ≠ text "resource_scope")

/-- What `_summary` makes of a member. -/
def summaryMember (lower : Text → Text) (m : Text × PyValue) : Text × PyValue :=
  (m.1, if isSecret lower m.1 then .str (text "[REDACTED]") else bounded m.2)

theorem summary_dict (members : List (Text × PyValue)) :
    summary lower (.dict members) = .dict ((kept members).map (summaryMember lower)) := rfl

theorem leaks_dict (members : List (Text × PyValue)) :
    leaks lower (.dict members) = (kept members).any fun m => !isSecret lower m.1 && shows lower m.2 :=
  rfl

def concealMember (lower : Text → Text) (m : Text × PyValue) : Text × PyValue :=
  (m.1, if isSecret lower m.1 then .none else conceal lower m.2)

theorem concealMembers_eq_map (members : List (Text × PyValue)) :
    concealMembers lower members = members.map (concealMember lower) := by
  induction members with
  | nil => rfl
  | cons m rest ih =>
      rw [concealMembers, ih]
      rfl

theorem kept_concealMembers (members : List (Text × PyValue)) :
    kept (concealMembers lower members) = (kept members).map (concealMember lower) := by
  rw [concealMembers_eq_map, kept, ← List.map_take, List.filter_map]
  rfl

/-- A value that is no dictionary is not redacted. -/
theorem summary_of_not_dict {v : PyValue} (h : ∀ members, v ≠ .dict members) :
    summary lower v = .dict [(text "value", bounded v)] ∧ leaks lower v = shows lower v := by
  cases v with
  | dict members => exact absurd rfl (h members)
  | _ => exact ⟨rfl, rfl⟩

theorem conceal_ne_dict {v : PyValue} (h : ∀ members, v ≠ .dict members) :
    ∀ members, conceal lower v ≠ .dict members := by
  cases v with
  | dict members => exact absurd rfl (h members)
  | _ => exact nofun

theorem leaks_conceal (v : PyValue) : leaks lower (conceal lower v) = leaks lower v := by
  by_cases hdict : ∃ members, v = .dict members
  · obtain ⟨members, rfl⟩ := hdict
    rw [conceal, leaks_dict, leaks_dict, kept_concealMembers, List.any_map]
    congr 1
    funext m
    by_cases hsecret : isSecret lower m.1 = true
    · simp only [Function.comp_apply, concealMember, hsecret, Bool.not_true, Bool.false_and]
    · simp only [Function.comp_apply, concealMember, if_neg hsecret, shows_conceal]
  · rw [not_exists] at hdict
    rw [(summary_of_not_dict (conceal_ne_dict hdict)).2, (summary_of_not_dict hdict).2,
      shows_conceal]

theorem summary_conceal {v : PyValue} (h : leaks lower v = false) :
    summary lower (conceal lower v) = summary lower v := by
  by_cases hdict : ∃ members, v = .dict members
  · obtain ⟨members, rfl⟩ := hdict
    rw [leaks_dict, List.any_eq_false] at h
    rw [conceal, summary_dict, summary_dict, kept_concealMembers, List.map_map]
    congr 1
    refine List.map_congr_left fun m hm => ?_
    by_cases hsecret : isSecret lower m.1 = true
    · simp only [Function.comp_apply, summaryMember, concealMember, if_pos hsecret]
    · have hshows : shows lower m.2 = false := by simpa [hsecret] using h m hm
      simp only [Function.comp_apply, summaryMember, concealMember, if_neg hsecret,
        bounded_conceal m.2 hshows]
  · rw [not_exists] at hdict
    have hv : summary lower v = .dict [(text "value", bounded v)] ∧
        leaks lower v = shows lower v := summary_of_not_dict hdict
    rw [hv.2] at h
    rw [(summary_of_not_dict (conceal_ne_dict hdict)).1, hv.1, bounded_conceal v h]

/-- A member that is kept can be replaced. -/
theorem exists_kept_split {members : List (Text × PyValue)} {m : Text × PyValue}
    (h : m ∈ kept members) :
    ∃ a b c d, members = a ++ m :: b ∧ ∀ m' : Text × PyValue, m'.1 = m.1 →
      kept (a ++ m' :: b) = c ++ m' :: d := by
  obtain ⟨htake, hkey⟩ := List.mem_filter.mp h
  obtain ⟨a, b, hsplit⟩ := List.append_of_mem htake
  refine ⟨a, b ++ members.drop 50, a.filter (·.1 ≠ text "resource_scope"),
    b.filter (·.1 ≠ text "resource_scope"), ?_, ?_⟩
  · rw [← List.cons_append, ← List.append_assoc, ← hsplit, List.take_append_drop]
  · intro m' hm'
    have hlength : (a ++ m' :: b).length = min 50 members.length := by
      rw [← List.length_take, hsplit, List.length_append, List.length_append, List.length_cons,
        List.length_cons]
    have hrest : (members.drop 50).take (50 - (a ++ m' :: b).length) = [] := by
      rw [hlength, ← List.length_eq_zero_iff, List.length_take, List.length_drop]
      omega
    have hfirst : (a ++ m' :: (b ++ members.drop 50)).take 50 = a ++ m' :: b := by
      rw [← List.cons_append, ← List.append_assoc, List.take_append, hrest, List.append_nil]
      exact List.take_of_length_le (by omega)
    rw [kept, hfirst, List.filter_append, List.filter_cons_of_pos]
    rw [hm']
    exact hkey

/-- A leak shows in the summary of another value that is concealed to the same. -/
theorem exists_of_leaks {v : PyValue} (h : leaks lower v = true) :
    ∃ w, conceal lower w = conceal lower v ∧ summary lower w ≠ summary lower v := by
  by_cases hdict : ∃ members, v = .dict members
  · obtain ⟨members, rfl⟩ := hdict
    rw [leaks_dict, List.any_eq_true] at h
    obtain ⟨⟨key, item⟩, hm, hleak⟩ := h
    rw [Bool.and_eq_true, Bool.not_eq_true'] at hleak
    obtain ⟨w, hconceal, hne⟩ := exists_of_shows item hleak.2
    obtain ⟨a, b, c, d, rfl, hkept⟩ := exists_kept_split hm
    refine ⟨.dict (a ++ (key, w) :: b), ?_, ?_⟩
    · rw [conceal, conceal, concealMembers_eq_map, concealMembers_eq_map]
      simp only [List.map_append, List.map_cons, concealMember, hconceal]
    · intro heq
      rw [summary_dict, summary_dict, hkept (key, w) rfl, hkept (key, item) rfl, List.map_append,
        List.map_append, PyValue.dict.injEq] at heq
      have hmember := List.head_eq_of_cons_eq (List.append_cancel_left heq)
      have hopen : ¬ isSecret lower key = true := by
        rw [hleak.1]
        exact Bool.false_ne_true
      rw [summaryMember, summaryMember, if_neg hopen, if_neg hopen] at hmember
      exact hne (Prod.mk.inj hmember).2
  · rw [not_exists] at hdict
    have hv : summary lower v = .dict [(text "value", bounded v)] ∧
        leaks lower v = shows lower v := summary_of_not_dict hdict
    rw [hv.2] at h
    obtain ⟨w, hconceal, hne⟩ := exists_of_shows v h
    refine ⟨w, hconceal, ?_⟩
    have hw : ∀ members, w ≠ .dict members := by
      rintro members rfl
      exact conceal_ne_dict hdict _ hconceal.symm
    rw [(summary_of_not_dict hw).1, hv.1]
    intro heq
    rw [PyValue.dict.injEq] at heq
    exact hne (Prod.mk.inj (List.head_eq_of_cons_eq heq)).2

/-- **What the redaction hides.**  The summaries of all values that differ from a value only
    beneath secret keys are the same as its own, if and only if the summary keeps no secret
    key below the outermost object. -/
theorem redacted_iff (lower : Text → Text) (v : PyValue) :
    (∀ w, conceal lower w = conceal lower v → summary lower w = summary lower v) ↔
      leaks lower v = false := by
  constructor
  · intro h
    by_contra hleaks
    obtain ⟨w, hconceal, hne⟩ := exists_of_leaks (Bool.not_eq_false _ ▸ hleaks)
    exact hne (h w hconceal)
  · intro hleaks w hconceal
    have hw : leaks lower w = false := by
      rw [← leaks_conceal, hconceal, leaks_conceal, hleaks]
    rw [← summary_conceal hw, hconceal, summary_conceal hleaks]

/-- `str.lower` on ASCII text. -/
def asciiLower (s : Text) : Text := s.map fun c => if 65 ≤ c ∧ c ≤ 90 then c + 32 else c

/-- Arguments with a password in an inner object. -/
def nestedPassword (password : String) : PyValue :=
  .dict [(text "auth", .dict [(text "password", .str (text password))])]

/-- A password one level down is stored. -/
theorem nested_password_stored :
    conceal asciiLower (nestedPassword "hunter2") = conceal asciiLower (nestedPassword "swordfish") ∧
      summary asciiLower (nestedPassword "hunter2") ≠
        summary asciiLower (nestedPassword "swordfish") := by
  have hsummary : ∀ password ∈ ["hunter2", "swordfish"],
      summary asciiLower (nestedPassword password) = nestedPassword password := by
    intro password hpassword
    rcases List.mem_pair.mp hpassword with rfl | rfl <;> rfl
  refine ⟨by rfl, ?_⟩
  rw [hsummary _ List.mem_cons_self, hsummary _ (List.mem_cons_of_mem _ List.mem_cons_self)]
  intro h
  have htext : text "hunter2" = text "swordfish" := by
    simpa only [nestedPassword, PyValue.dict.injEq, PyValue.str.injEq, List.cons.injEq,
      Prod.mk.injEq, and_true, true_and] using h
  exact absurd htext (by decide)

end Conceal

end Audit
end Gateway
end HermesPlatform
