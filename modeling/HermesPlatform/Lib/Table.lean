/-
  HermesPlatform.Lib.Table

  Tables: lists of rows in which no two rows have the same key.

  `lookup` finds the row of a key, `modify` changes it, `upsert` changes it or
  adds it.  The lemmas say where a row of the table is afterwards.
-/

import Mathlib.Algebra.GroupWithZero.Nat
import Mathlib.Data.List.Nodup

namespace HermesPlatform
namespace Table

variable {ρ κ : Type} [DecidableEq κ] {key : ρ → κ} {rows : List ρ} {k : κ} {f : ρ → ρ}
  {row row' new : ρ}

/-- No two rows have the same key. -/
def Unique (key : ρ → κ) (rows : List ρ) : Prop := (rows.map key).Nodup

def lookup (key : ρ → κ) (k : κ) (rows : List ρ) : Option ρ := rows.find? (key · = k)

/-- Changes the row of a key. -/
def modify (key : ρ → κ) (k : κ) (f : ρ → ρ) (rows : List ρ) : List ρ :=
  rows.map fun row => if key row = k then f row else row

def delete (key : ρ → κ) (k : κ) (rows : List ρ) : List ρ := rows.filter (key · ≠ k)

/-- Changes the row of a key, or adds one. -/
def upsert (key : ρ → κ) (k : κ) (f : ρ → ρ) (new : ρ) (rows : List ρ) : List ρ :=
  match lookup key k rows with
  | some _ => modify key k f rows
  | none => rows ++ [new]

/-! ## Lookup -/

theorem mem_of_lookup (h : lookup key k rows = some row) : row ∈ rows :=
  List.mem_of_find?_eq_some h

theorem key_of_lookup (h : lookup key k rows = some row) : key row = k := by
  simpa using List.find?_some h

theorem lookup_eq_none : lookup key k rows = none ↔ k ∉ rows.map key := by
  simp [lookup]

omit [DecidableEq κ] in
theorem Unique.eq (h : Unique key rows) (hrow : row ∈ rows) (hrow' : row' ∈ rows)
    (hkey : key row = key row') : row = row' :=
  List.inj_on_of_nodup_map h hrow hrow' hkey

/-- The row of a key is the one that `lookup` finds. -/
theorem Unique.eq_of_lookup (h : Unique key rows) (hfound : lookup key k rows = some row')
    (hrow : row ∈ rows) (hkey : key row = k) : row = row' :=
  h.eq hrow (mem_of_lookup hfound) (hkey.trans (key_of_lookup hfound).symm)

/-- With unique keys, a row is what `lookup` finds. -/
theorem Unique.lookup_of_mem (h : Unique key rows) (hrow : row ∈ rows) :
    lookup key (key row) rows = some row := by
  cases hfound : lookup key (key row) rows with
  | none => exact absurd (List.mem_map_of_mem hrow) (lookup_eq_none.mp hfound)
  | some row' => rw [h.eq_of_lookup hfound hrow rfl]

theorem Unique.ne_of_lookup (h : Unique key rows) (hfound : lookup key k rows = some row')
    (hrow : row ∈ rows) (hne : row ≠ row') : key row ≠ k :=
  fun hkey => hne (h.eq_of_lookup hfound hrow hkey)

/-! ## Where the rows are afterwards -/

theorem mem_modify_of_ne (hrow : row ∈ rows) (hkey : key row ≠ k) : row ∈ modify key k f rows :=
  List.mem_map.mpr ⟨row, hrow, if_neg hkey⟩

theorem mem_modify_of_eq (hrow : row ∈ rows) (hkey : key row = k) : f row ∈ modify key k f rows :=
  List.mem_map.mpr ⟨row, hrow, if_pos hkey⟩

theorem mem_delete_of_ne (hrow : row ∈ rows) (hkey : key row ≠ k) : row ∈ delete key k rows :=
  List.mem_filter.mpr ⟨hrow, by simpa using hkey⟩

theorem mem_upsert_of_ne (hrow : row ∈ rows) (hkey : key row ≠ k) :
    row ∈ upsert key k f new rows := by
  unfold upsert
  split
  · exact mem_modify_of_ne hrow hkey
  · exact List.mem_append_left _ hrow

theorem mem_upsert_of_eq (hrow : row ∈ rows) (hkey : key row = k) :
    f row ∈ upsert key k f new rows := by
  unfold upsert
  split
  · exact mem_modify_of_eq hrow hkey
  · rename_i hnone
    exact absurd (hkey ▸ List.mem_map_of_mem hrow) (lookup_eq_none.mp hnone)

/-! ## Lookup afterwards -/

theorem lookup_cons :
    lookup key k (row :: rows) = if key row = k then some row else lookup key k rows := by
  rw [lookup, List.find?_cons]
  by_cases hkey : key row = k
  · rw [if_pos hkey, decide_eq_true hkey]
  · rw [if_neg hkey, decide_eq_false hkey]
    rfl

theorem lookup_append {rows' : List ρ} :
    lookup key k (rows ++ rows') = (lookup key k rows).or (lookup key k rows') :=
  List.find?_append

theorem lookup_modify_self (hf : ∀ row, key row = k → key (f row) = k) :
    lookup key k (modify key k f rows) = (lookup key k rows).map f := by
  induction rows with
  | nil => rfl
  | cons row rest ih =>
      have hcons : modify key k f (row :: rest) =
          (if key row = k then f row else row) :: modify key k f rest := rfl
      rw [hcons, lookup_cons, lookup_cons, ih]
      by_cases hkey : key row = k
      · rw [if_pos hkey, if_pos hkey, if_pos (hf row hkey)]
        rfl
      · rw [if_neg hkey, if_neg hkey, if_neg hkey]

theorem lookup_modify_of_ne {j : κ} (hne : j ≠ k) (hf : ∀ row, key row = k → key (f row) = k) :
    lookup key j (modify key k f rows) = lookup key j rows := by
  induction rows with
  | nil => rfl
  | cons row rest ih =>
      have hcons : modify key k f (row :: rest) =
          (if key row = k then f row else row) :: modify key k f rest := rfl
      rw [hcons, lookup_cons, lookup_cons, ih]
      by_cases hkey : key row = k
      · rw [if_pos hkey, if_neg fun h => hne (h.symm.trans (hf row hkey)),
          if_neg fun h => hne (h.symm.trans hkey)]
      · rw [if_neg hkey]

/-- The rows of some keys are kept. -/
theorem lookup_filter (p : κ → Bool) :
    lookup key k (rows.filter fun row => p (key row)) = if p k then lookup key k rows else none := by
  induction rows with
  | nil => exact (ite_self _).symm
  | cons row rest ih =>
      rw [List.filter_cons, lookup_cons]
      by_cases hkey : key row = k
      · rw [hkey, if_pos rfl]
        split
        next => rw [lookup_cons, if_pos hkey]
        next hp => rw [ih, if_neg hp]
      · rw [if_neg hkey]
        split
        next => rw [lookup_cons, if_neg hkey, ih]
        next => exact ih

theorem lookup_delete_self : lookup key k (delete key k rows) = none := by
  rw [lookup_eq_none, delete]
  intro hmem
  obtain ⟨row, hrow, hkey⟩ := List.mem_map.mp hmem
  have hne := (List.mem_filter.mp hrow).2
  simp [hkey] at hne

theorem lookup_delete_of_ne {j : κ} (hne : j ≠ k) :
    lookup key j (delete key k rows) = lookup key j rows := by
  induction rows with
  | nil => rfl
  | cons row rest ih =>
      rw [lookup_cons, delete]
      by_cases hkey : key row = k
      · have hj : ¬ key row = j := fun h => hne (h.symm.trans hkey)
        rw [List.filter_cons_of_neg (by simpa using hkey), if_neg hj]
        exact ih
      · rw [List.filter_cons_of_pos (by simpa using hkey), lookup_cons]
        split
        · rfl
        · exact ih

/-- The row that `upsert` leaves for its key. -/
theorem lookup_upsert_self (hf : ∀ row, key row = k → key (f row) = k) (hnew : key new = k) :
    lookup key k (upsert key k f new rows) = some (((lookup key k rows).map f).getD new) := by
  unfold upsert
  cases hfound : lookup key k rows with
  | some row =>
      have hmodified : lookup key k (modify key k f rows) = (lookup key k rows).map f :=
        lookup_modify_self hf
      rw [hfound] at hmodified
      exact hmodified
  | none =>
      have hlast : lookup key k [new] = some new := lookup_cons.trans (if_pos hnew)
      exact lookup_append.trans (by rw [hfound, hlast]; rfl)

theorem lookup_upsert_of_ne {j : κ} (hne : j ≠ k) (hf : ∀ row, key row = k → key (f row) = k)
    (hnew : key new = k) : lookup key j (upsert key k f new rows) = lookup key j rows := by
  unfold upsert
  split
  · exact lookup_modify_of_ne hne hf
  · have hlast : lookup key j [new] = none :=
      lookup_cons.trans (if_neg fun h => hne (h.symm.trans hnew))
    rw [lookup_append, hlast, Option.or_none]

/-- A row of the table afterwards was there before, was changed, or is the new one. -/
theorem mem_upsert_cases (hrow : row ∈ upsert key k f new rows) :
    (row ∈ rows ∧ key row ≠ k) ∨ (∃ old, key old = k ∧ row = f old) ∨ row = new := by
  unfold upsert at hrow
  split at hrow
  · obtain ⟨old, hold, heq⟩ := List.mem_map.mp hrow
    by_cases hmatch : key old = k
    · rw [if_pos hmatch] at heq
      exact .inr (.inl ⟨old, hmatch, heq.symm⟩)
    · rw [if_neg hmatch] at heq
      exact .inl (heq ▸ ⟨hold, hmatch⟩)
  · rename_i hnone
    rcases List.mem_append.mp hrow with hrow | hrow
    · have hkey : key row ≠ k := by
        rintro rfl
        exact lookup_eq_none.mp hnone (List.mem_map_of_mem hrow)
      exact .inl ⟨hrow, hkey⟩
    · exact .inr (.inr (List.mem_singleton.mp hrow))

/-- A row with another key was there before. -/
theorem mem_of_mem_upsert (hrow : row ∈ upsert key k f new rows) (hkey : key row ≠ k)
    (hf : ∀ row, key row = k → key (f row) = k) (hnew : key new = k) : row ∈ rows := by
  rcases mem_upsert_cases hrow with ⟨hold, -⟩ | ⟨old, hold, rfl⟩ | rfl
  · exact hold
  · exact absurd (hf old hold) hkey
  · exact absurd hnew hkey

/-- No key is lost. -/
theorem mem_keys_upsert {j : κ} (hj : j ∈ rows.map key)
    (hf : ∀ row, key row = k → key (f row) = k) : j ∈ (upsert key k f new rows).map key := by
  obtain ⟨row, hrow, rfl⟩ := List.mem_map.mp hj
  by_cases hkey : key row = k
  · have hmem : f row ∈ upsert key k f new rows := mem_upsert_of_eq hrow hkey
    exact List.mem_map.mpr ⟨f row, hmem, (hf row hkey).trans hkey.symm⟩
  · exact List.mem_map_of_mem (mem_upsert_of_ne hrow hkey)

theorem mem_keys_upsert_self (hf : ∀ row, key row = k → key (f row) = k) (hnew : key new = k) :
    k ∈ (upsert key k f new rows).map key := by
  have hfound : lookup key k (upsert key k f new rows) = _ := lookup_upsert_self hf hnew
  exact List.mem_map.mpr ⟨_, mem_of_lookup hfound, key_of_lookup hfound⟩

/-! ## The last row -/

theorem modify_of_notMem (h : k ∉ rows.map key) : modify key k f rows = rows := by
  have hid : modify key k f rows = rows.map id := by
    refine List.map_congr_left fun row hrow => ?_
    have hkey : key row ≠ k := by
      rintro rfl
      exact h (List.mem_map_of_mem hrow)
    exact if_neg hkey
  rw [hid, List.map_id]

/-- A row whose key no other row has, at the end of the table. -/
theorem modify_concat (h : key row ∉ rows.map key) :
    modify key (key row) f (rows ++ [row]) = rows ++ [f row] := by
  have hrest : modify key (key row) f rows = rows := modify_of_notMem h
  rw [modify, List.map_append, List.map_singleton, if_pos rfl]
  exact congrArg (· ++ [f row]) hrest

theorem upsert_of_notMem (h : k ∉ rows.map key) : upsert key k f new rows = rows ++ [new] := by
  rw [upsert, lookup_eq_none.2 h]

theorem upsert_concat (h : key row ∉ rows.map key) :
    upsert key (key row) f new (rows ++ [row]) = rows ++ [f row] := by
  rw [upsert]
  split
  · exact modify_concat h
  next hnone =>
    refine absurd (List.mem_map_of_mem ?_) (lookup_eq_none.1 hnone)
    exact List.mem_append_right _ (List.mem_singleton_self row)

omit [DecidableEq κ] in
theorem Unique.of_append {rows' : List ρ} (h : Unique key (rows ++ row :: rows')) :
    key row ∉ rows.map key ∧ Unique key (rows ++ [row] ++ rows') := by
  have hassoc : rows ++ [row] ++ rows' = rows ++ row :: rows' := by
    rw [List.append_assoc, List.singleton_append]
  rw [hassoc]
  refine ⟨fun hmem => ?_, h⟩
  rw [Unique, List.map_append, List.map_cons] at h
  exact (List.nodup_append.mp h).2.2 _ hmem _ List.mem_cons_self rfl

/-- Rows with keys of their own, one after the other. -/
theorem foldl_upsert {rows' : List ρ} {f : ρ → ρ → ρ} (h : Unique key (rows ++ rows')) :
    rows'.foldl (fun rows row => upsert key (key row) (f row) row rows) rows = rows ++ rows' := by
  induction rows' generalizing rows with
  | nil => rw [List.foldl_nil, List.append_nil]
  | cons row rows' ih =>
      obtain ⟨hnew, hrest⟩ := h.of_append
      rw [List.foldl_cons, upsert_of_notMem hnew, ih hrest, List.append_assoc,
        List.singleton_append]

/-- A projection of the rows that keeps the keys and follows the change. -/
theorem map_upsert {ρ' : Type} {key' : ρ' → κ} {f' : ρ' → ρ'} (g : ρ → ρ')
    (hkey : ∀ row, key' (g row) = key row) (hf : ∀ row, g (f row) = f' (g row)) :
    (upsert key k f new rows).map g = upsert key' k f' (g new) (rows.map g) := by
  have hkeys : (rows.map g).map key' = rows.map key := by
    rw [List.map_map]
    exact List.map_congr_left fun row _ => hkey row
  by_cases hk : k ∈ rows.map key
  · obtain ⟨row, hrow⟩ := Option.ne_none_iff_exists'.mp (mt lookup_eq_none.mp (not_not_intro hk))
    obtain ⟨row', hrow'⟩ := Option.ne_none_iff_exists'.mp
      (mt lookup_eq_none.mp (not_not_intro (hkeys ▸ hk)))
    rw [upsert, hrow, upsert, hrow', modify, modify, List.map_map, List.map_map]
    refine List.map_congr_left fun row _ => ?_
    by_cases hmatch : key row = k
    · simp only [Function.comp_apply, if_pos hmatch, hkey, hf]
    · simp only [Function.comp_apply, if_neg hmatch, hkey]
  · rw [upsert_of_notMem hk, upsert_of_notMem (hkeys ▸ hk), List.map_append, List.map_singleton]

/-! ## Keys -/

theorem keys_modify (hf : ∀ row, key row = k → key (f row) = k) :
    (modify key k f rows).map key = rows.map key := by
  rw [modify, List.map_map]
  refine List.map_congr_left fun row _ => ?_
  simp only [Function.comp_apply]
  split
  · rename_i hkey
    rw [hf row hkey, hkey]
  · rfl

theorem Unique.modify (h : Unique key rows) (hf : ∀ row, key row = k → key (f row) = k) :
    Unique key (modify key k f rows) := by
  rw [Unique, keys_modify hf]
  exact h

theorem Unique.delete (h : Unique key rows) : Unique key (delete key k rows) :=
  List.Nodup.sublist (List.Sublist.map _ List.filter_sublist) h

omit [DecidableEq κ] in
theorem Unique.append (h : Unique key rows) (hnew : key new ∉ rows.map key) :
    Unique key (rows ++ [new]) := by
  rw [Unique, List.map_append, List.nodup_append]
  refine ⟨h, List.nodup_singleton _, ?_⟩
  rintro a ha b hb rfl
  obtain rfl := List.mem_singleton.mp hb
  exact hnew ha

theorem Unique.upsert (h : Unique key rows) (hf : ∀ row, key row = k → key (f row) = k)
    (hnew : key new = k) : Unique key (upsert key k f new rows) := by
  unfold Table.upsert
  split
  · exact h.modify hf
  · rename_i hnone
    exact h.append (hnew ▸ lookup_eq_none.mp hnone)

/-- A property of keys, for the keys of the table afterwards. -/
theorem keys_upsert {P : κ → Prop} (h : ∀ row ∈ rows, P (key row))
    (hf : ∀ row, key row = k → key (f row) = k) (hnew : key new = k) (hk : P k) :
    ∀ row ∈ upsert key k f new rows, P (key row) := by
  intro row hrow
  unfold upsert at hrow
  split at hrow
  · have hmem : key row ∈ (modify key k f rows).map key := List.mem_map_of_mem hrow
    rw [keys_modify hf] at hmem
    obtain ⟨old, hold, heq⟩ := List.mem_map.mp hmem
    exact heq ▸ h old hold
  · rcases List.mem_append.mp hrow with hrow | hrow
    · exact h row hrow
    · obtain rfl := List.mem_singleton.mp hrow
      exact hnew ▸ hk

/-! ## Keys with values -/

section Values

variable {β : Type} {entries : List (κ × β)} {v : β}

def get (k : κ) (entries : List (κ × β)) : Option β := (lookup Prod.fst k entries).map Prod.snd

/-- Sets the value of a key; a key that is there keeps its place. -/
def put (k : κ) (v : β) (entries : List (κ × β)) : List (κ × β) :=
  upsert Prod.fst k (fun _ => (k, v)) (k, v) entries

theorem get_eq_none : get k entries = none ↔ k ∉ entries.map Prod.fst := by
  rw [get, Option.map_eq_none_iff, lookup_eq_none]

theorem get_put (j : κ) : get j (put k v entries) = if j = k then some v else get j entries := by
  have hf : ∀ row : κ × β, row.1 = k → ((fun _ => (k, v)) row : κ × β).1 = k := fun _ _ => rfl
  simp only [get, put]
  split
  next hj =>
    rw [hj, lookup_upsert_self hf rfl]
    cases lookup Prod.fst k entries <;> rfl
  next hj => rw [lookup_upsert_of_ne hj hf rfl]

theorem get_delete (j : κ) :
    get j (delete Prod.fst k entries) = if j = k then none else get j entries := by
  simp only [get]
  split
  next hj => rw [hj, lookup_delete_self, Option.map_none]
  next hj => rw [lookup_delete_of_ne hj]

/-- The entries of some keys are kept. -/
theorem get_filter (p : κ → Bool) (j : κ) :
    get j (entries.filter fun e => p e.1) = if p j then get j entries else none := by
  rw [get, lookup_filter p]
  split <;> rfl

theorem Unique.put (h : Unique Prod.fst entries) : Unique Prod.fst (put k v entries) :=
  h.upsert (fun _ _ => rfl) rfl

/-- With unique keys, an entry is the value of its key. -/
theorem Unique.get_of_mem (h : Unique Prod.fst entries) (hmem : (k, v) ∈ entries) :
    get k entries = some v := by
  rw [get, h.lookup_of_mem hmem]
  rfl

/-- Entries changed or dropped one by one. -/
theorem get_filterMap {γ : Type} (h : Unique Prod.fst entries) (g : κ → β → Option γ) (j : κ) :
    get j (entries.filterMap fun e => (g e.1 e.2).map (e.1, ·)) = (get j entries).bind (g j) := by
  induction entries with
  | nil => rfl
  | cons e rest ih =>
      obtain ⟨i, u⟩ := e
      obtain ⟨hnew, hrest⟩ := List.nodup_cons.mp h
      have htail := ih hrest
      have hcons : get j ((i, u) :: rest) = if i = j then some u else get j rest := by
        rw [get, lookup_cons]
        split <;> rfl
      rw [hcons]
      by_cases hij : i = j
      · subst hij
        have hnone : get i rest = none := by rw [get, lookup_eq_none.mpr hnew, Option.map_none]
        rw [if_pos rfl, Option.bind_some]
        cases hg : g i u with
        | none =>
            rw [List.filterMap_cons_none (by rw [hg]; rfl), htail, hnone]
            rfl
        | some w =>
            rw [List.filterMap_cons_some (by rw [hg]; rfl), get, lookup_cons, if_pos rfl]
            rfl
      · rw [if_neg hij, ← htail]
        cases hg : g i u with
        | none => rw [List.filterMap_cons_none (by rw [hg]; rfl)]
        | some w =>
            rw [List.filterMap_cons_some (by rw [hg]; rfl), get, lookup_cons, if_neg hij]
            rfl

omit [DecidableEq κ] in
theorem Unique.filterMap {γ : Type} (h : Unique Prod.fst entries) (g : κ → β → Option γ) :
    Unique Prod.fst (entries.filterMap fun e => (g e.1 e.2).map (e.1, ·)) := by
  induction entries with
  | nil => exact List.nodup_nil
  | cons e rest ih =>
      obtain ⟨i, u⟩ := e
      obtain ⟨hnew, hrest⟩ := List.nodup_cons.mp h
      cases hg : g i u with
      | none =>
          rw [List.filterMap_cons_none (by rw [hg]; rfl)]
          exact ih hrest
      | some w =>
          rw [List.filterMap_cons_some (by rw [hg]; rfl)]
          refine List.nodup_cons.mpr ⟨?_, ih hrest⟩
          intro hmem
          obtain ⟨row, hrow, hkey⟩ := List.mem_map.mp hmem
          obtain ⟨e', he', heq⟩ := List.mem_filterMap.mp hrow
          obtain ⟨w', -, rfl⟩ := Option.map_eq_some_iff.mp heq
          exact hnew (List.mem_map.mpr ⟨e', he', hkey⟩)

theorem mem_of_get (hget : get k entries = some v) : (k, v) ∈ entries := by
  obtain ⟨⟨j, u⟩, hfound, rfl⟩ := Option.map_eq_some_iff.mp hget
  obtain rfl : j = k := key_of_lookup hfound
  exact mem_of_lookup hfound

/-- Setting one value changes a sum over the entries by that one. -/
theorem sum_map_put (h : Unique Prod.fst entries) (w : κ × β → Nat) :
    ((put k v entries).map w).sum + ((get k entries).map fun u => w (k, u)).getD 0
      = (entries.map w).sum + w (k, v) := by
  cases hlookup : lookup Prod.fst k entries with
  | none =>
      have hput : put k v entries = entries ++ [(k, v)] := upsert_of_notMem (lookup_eq_none.mp hlookup)
      simp [hput, get, hlookup]
  | some row =>
      have hput : put k v entries = modify Prod.fst k (fun _ => (k, v)) entries := by
        rw [put, upsert, hlookup]
      rw [hput, get, hlookup]
      -- The entry is the head, and the key is not in the rest, or it is further on.
      induction entries with
      | nil => cases hlookup
      | cons e rest ih =>
          obtain ⟨j, u⟩ := e
          obtain ⟨hnew, hrest⟩ := List.nodup_cons.mp h
          rw [lookup_cons] at hlookup
          have hcons : modify Prod.fst k (fun _ => (k, v)) ((j, u) :: rest)
              = (if j = k then (k, v) else (j, u)) :: modify Prod.fst k (fun _ => (k, v)) rest := rfl
          rw [hcons]
          split at hlookup
          next hjk =>
            cases hlookup
            have hjk : j = k := hjk
            subst hjk
            rw [modify_of_notMem hnew]
            simp only [if_true, List.map_cons, List.sum_cons, Option.map_some, Option.getD_some]
            omega
          next hjk =>
            have hput' : put k v rest = modify Prod.fst k (fun _ => (k, v)) rest := by
              rw [put, upsert, hlookup]
            have htail := ih hrest hlookup hput'
            have hjk : ¬ j = k := hjk
            simp only [if_neg hjk, List.map_cons, List.sum_cons]
            omega

end Values

end Table
end HermesPlatform
