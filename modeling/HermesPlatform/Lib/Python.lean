/-
  HermesPlatform.Lib.Python

  The Python values and control flow the translated functions rest on: string
  trimming, insertion-ordered dictionaries, sets kept as duplicate-free lists,
  and loops that stop at the first raised exception (`Except`).

  Strings are taken apart through `String.toList`.  `str.lower` is not here: it
  follows the Unicode case tables, and the development takes it as a parameter.
-/

import Mathlib.Data.List.Basic
import Mathlib.Data.List.DropRight
import Mathlib.Data.List.Nodup
import Mathlib.Data.List.Perm.Subperm

namespace HermesPlatform
namespace Python

/-! ## Strings -/

/-- `str.isspace` of one character. -/
def isSpace (c : Char) : Bool :=
  let n := c.toNat
  (9 ≤ n && n ≤ 13) || (28 ≤ n && n ≤ 32) || n == 0x85 || n == 0xa0 || n == 0x1680 ||
    (0x2000 ≤ n && n ≤ 0x200a) || n == 0x2028 || n == 0x2029 || n == 0x202f ||
    n == 0x205f || n == 0x3000

def rstripChars (cs : List Char) : List Char :=
  (cs.reverse.dropWhile isSpace).reverse

/-- `value.strip()` on characters. -/
def stripChars (cs : List Char) : List Char :=
  rstripChars (cs.dropWhile isSpace)

/-- `value.strip()`. -/
def strip (s : String) : String :=
  String.ofList (stripChars s.toList)

theorem stripChars_idem (cs : List Char) : stripChars (stripChars cs) = stripChars cs := by
  have hinitial : stripChars cs <+: cs.dropWhile isSpace := List.rdropWhile_prefix isSpace _
  have hhead : (stripChars cs).dropWhile isSpace = stripChars cs := by
    rw [List.dropWhile_eq_self_iff]
    intro hpos
    rw [hinitial.getElem hpos]
    exact List.dropWhile_eq_self_iff.mp (List.dropWhile_idempotent isSpace cs) _
  rw [stripChars, hhead]
  exact List.rdropWhile_idempotent isSpace _

theorem stripChars_of_forall {cs : List Char} (h : ∀ c ∈ cs, isSpace c = false) :
    stripChars cs = cs := by
  have hhead : cs.dropWhile isSpace = cs := by
    rw [List.dropWhile_eq_self_iff]
    intro hpos
    rw [h _ (List.getElem_mem hpos)]
    exact Bool.false_ne_true
  rw [stripChars, hhead]
  refine List.rdropWhile_eq_self_iff.mpr fun hne => ?_
  rw [h _ (List.getLast_mem hne)]
  exact Bool.false_ne_true

@[simp] theorem strip_strip (s : String) : strip (strip s) = strip s := by
  simp only [strip, String.toList_ofList, stripChars_idem]

theorem strip_of_forall {s : String} (h : ∀ c ∈ s.toList, isSpace c = false) : strip s = s := by
  rw [strip, stripChars_of_forall h, String.ofList_toList]

/-- Lower case of the ASCII letters, what `str.lower` does to ASCII text. -/
def asciiLower (s : String) : String :=
  String.ofList (s.toList.map Char.toLower)

/-- The value of a string attribute that is tested for truth: `None` and `""`
    are both false. -/
def truthy (s : Option String) : Option String :=
  s.filter (· ≠ "")

theorem truthy_eq_some {s : Option String} {x : String} :
    truthy s = some x ↔ s = some x ∧ x ≠ "" := by
  simp [truthy, Option.filter_eq_some_iff]

/-! ## Sets -/

/-- `s.add(x)` on a set kept as a list. -/
def setAdd {α : Type} [DecidableEq α] (s : List α) (x : α) : List α :=
  if x ∈ s then s else s ++ [x]

@[simp] theorem mem_setAdd {α : Type} [DecidableEq α] {s : List α} {x y : α} :
    y ∈ setAdd s x ↔ y ∈ s ∨ y = x := by
  unfold setAdd
  split
  · rename_i h
    refine ⟨?_, ?_⟩
    · exact Or.inl
    · rintro (hy | rfl)
      · exact hy
      · exact h
  · simp

/-! ## Loops that may raise -/

section Loops

variable {ε α β : Type}

theorem bind_eq_ok {x : Except ε α} {f : α → Except ε β} {b : β} :
    x >>= f = .ok b ↔ ∃ a, x = .ok a ∧ f a = .ok b := by
  cases x with
  | error e =>
      refine ⟨?_, ?_⟩
      · intro h; cases h
      · rintro ⟨a, h, -⟩; cases h
  | ok a =>
      refine ⟨?_, ?_⟩
      · intro h; exact ⟨a, rfl, h⟩
      · rintro ⟨a', h, hf⟩; cases h; exact hf

theorem map_eq_ok {x : Except ε α} {f : α → β} {b : β} :
    x.map f = .ok b ↔ ∃ a, x = .ok a ∧ f a = b := by
  cases x with
  | error e => exact iff_of_false (by rintro ⟨⟩) (by rintro ⟨a, ⟨⟩, -⟩)
  | ok a => simp only [Except.map, Except.ok.injEq, exists_eq_left']

theorem mapError_eq_ok {ε' : Type} {f : ε → ε'} {x : Except ε α} {a : α} :
    x.mapError f = .ok a ↔ x = .ok a := by
  cases x with
  | error e => exact iff_of_false (by rintro ⟨⟩) (by rintro ⟨⟩)
  | ok a => simp only [Except.mapError, Except.ok.injEq]

/-- `for x in xs: check(x)`: stops at the first element that raises. -/
def forEach (check : α → Except ε Unit) : List α → Except ε Unit
  | [] => .ok ()
  | x :: xs => check x >>= fun _ => forEach check xs

theorem forEach_eq_ok {check : α → Except ε Unit} {xs : List α} :
    forEach check xs = .ok () ↔ ∀ x ∈ xs, check x = .ok () := by
  induction xs with
  | nil => simp [forEach]
  | cons x xs ih =>
      rw [forEach, bind_eq_ok, List.forall_mem_cons, ← ih]
      refine ⟨?_, ?_⟩
      · rintro ⟨⟨⟩, hx, hxs⟩
        exact ⟨hx, hxs⟩
      · rintro ⟨hx, hxs⟩
        exact ⟨(), hx, hxs⟩

/-- `for x in xs: acc = step(acc, x)`: stops at the first step that raises. -/
def foldEach (step : β → α → Except ε β) : β → List α → Except ε β
  | acc, [] => .ok acc
  | acc, x :: xs => step acc x >>= fun acc' => foldEach step acc' xs

/-- A relation between the accumulator and the elements already read that one
    step extends holds of a completed loop. -/
theorem foldEach_induction {step : β → α → Except ε β} {P : β → List α → Prop}
    (hstep : ∀ acc acc' seen x, P acc seen → step acc x = .ok acc' → P acc' (seen ++ [x])) :
    ∀ (xs : List α) (acc acc' : β) (seen : List α),
      P acc seen → foldEach step acc xs = .ok acc' → P acc' (seen ++ xs)
  | [], acc, acc', seen, hP, h => by
      rw [foldEach] at h
      cases h
      simpa using hP
  | x :: xs, acc, acc', seen, hP, h => by
      rw [foldEach, bind_eq_ok] at h
      obtain ⟨mid, hmid, hrest⟩ := h
      have := foldEach_induction hstep xs mid acc' (seen ++ [x])
        (hstep acc mid seen x hP hmid) hrest
      simpa using this

/-- A loop whose steps never raise while `P` holds completes. -/
theorem foldEach_total {step : β → α → Except ε β} {P : β → List α → Prop} {all : List α}
    (hstep : ∀ acc seen x, x ∈ all → P acc seen →
      ∃ acc', step acc x = .ok acc' ∧ P acc' (seen ++ [x])) :
    ∀ (xs : List α) (acc : β) (seen : List α), xs ⊆ all → P acc seen →
      ∃ acc', foldEach step acc xs = .ok acc' ∧ P acc' (seen ++ xs)
  | [], acc, seen, _, hP => ⟨acc, rfl, by rwa [List.append_nil]⟩
  | x :: xs, acc, seen, hsub, hP => by
      obtain ⟨hx, hxs⟩ := List.cons_subset.mp hsub
      obtain ⟨mid, hmid, hPmid⟩ := hstep acc seen x hx hP
      obtain ⟨acc', hrest, hP'⟩ := foldEach_total hstep xs mid (seen ++ [x]) hxs hPmid
      refine ⟨acc', ?_, by rwa [List.append_assoc] at hP'⟩
      rw [foldEach, hmid]
      exact hrest

/-- A loop that raises does so at one of its elements. -/
theorem foldEach_error {step : β → α → Except ε β} {e : ε} {xs : List α} {acc : β}
    (h : foldEach step acc xs = .error e) : ∃ acc', ∃ x ∈ xs, step acc' x = .error e := by
  induction xs generalizing acc with
  | nil => cases h
  | cons x xs ih =>
      rw [foldEach] at h
      cases hstep : step acc x with
      | error e' =>
          rw [hstep] at h
          cases h
          exact ⟨acc, x, List.mem_cons_self, hstep⟩
      | ok acc' =>
          rw [hstep] at h
          obtain ⟨acc'', y, hy, herr⟩ := ih h
          exact ⟨acc'', y, List.mem_cons_of_mem _ hy, herr⟩

/-- A property that every step keeps holds at the end of a loop, and a loop that
    raises does so with what a step raises. -/
theorem foldEach_rule {step : β → α → Except ε β} {P : β → Prop} {Q : ε → Prop} {xs : List α}
    (hok : ∀ x ∈ xs, ∀ acc acc', P acc → step acc x = .ok acc' → P acc')
    (herror : ∀ x ∈ xs, ∀ acc e, P acc → step acc x = .error e → Q e) {acc : β} (h : P acc) :
    (∀ acc', foldEach step acc xs = .ok acc' → P acc') ∧
      ∀ e, foldEach step acc xs = .error e → Q e := by
  induction xs generalizing acc with
  | nil =>
      refine ⟨?_, by simp [foldEach]⟩
      intro acc' hend
      cases hend
      exact h
  | cons x xs ih =>
      cases hstep : step acc x with
      | error e =>
          have hloop : foldEach step acc (x :: xs) = .error e := by
            rw [foldEach, hstep]
            rfl
          rw [hloop]
          refine ⟨fun acc' hend => (by cases hend), ?_⟩
          intro e' hend
          cases hend
          exact herror x List.mem_cons_self acc e h hstep
      | ok acc' =>
          have hloop : foldEach step acc (x :: xs) = foldEach step acc' xs := by
            rw [foldEach, hstep]
            rfl
          rw [hloop]
          refine ih ?_ ?_ (hok x List.mem_cons_self acc acc' h hstep)
          · exact fun y hy => hok y (List.mem_cons_of_mem _ hy)
          · exact fun y hy => herror y (List.mem_cons_of_mem _ hy)

end Loops

/-! ## Dictionaries -/

/-- An insertion-ordered dictionary. -/
structure Dict (α β : Type) where
  entries : List (α × β)
  nodup : (entries.map Prod.fst).Nodup

namespace Dict

variable {α β : Type} [DecidableEq α]

/-- Entries after `d[k] = v`: an existing key keeps its place. -/
def setEntries (k : α) (v : β) : List (α × β) → List (α × β)
  | [] => [(k, v)]
  | (j, w) :: rest => if j = k then (k, v) :: rest else (j, w) :: setEntries k v rest

theorem mem_keys_setEntries {k j : α} {v : β} {l : List (α × β)} :
    j ∈ (setEntries k v l).map Prod.fst ↔ j = k ∨ j ∈ l.map Prod.fst := by
  induction l with
  | nil => simp [setEntries]
  | cons e rest ih =>
      obtain ⟨i, w⟩ := e
      rw [setEntries]
      split
      · rename_i hik
        subst hik
        simp
      · rw [List.map_cons, List.mem_cons, ih, List.map_cons, List.mem_cons]
        tauto

theorem nodup_setEntries {k : α} {v : β} {l : List (α × β)}
    (h : (l.map Prod.fst).Nodup) : ((setEntries k v l).map Prod.fst).Nodup := by
  induction l with
  | nil => simp [setEntries]
  | cons e rest ih =>
      obtain ⟨i, w⟩ := e
      rw [List.map_cons, List.nodup_cons] at h
      rw [setEntries]
      split
      · rename_i hik
        subst hik
        rw [List.map_cons, List.nodup_cons]
        exact h
      · rename_i hik
        rw [List.map_cons, List.nodup_cons, mem_keys_setEntries]
        refine ⟨?_, ih h.2⟩
        -- The head is neither the key that is set nor in the rest.
        rintro (rfl | hi)
        · exact hik rfl
        · exact h.1 hi

def empty : Dict α β := ⟨[], List.nodup_nil⟩

theorem mem_setEntries {k j : α} {v w : β} {l : List (α × β)}
    (h : (j, w) ∈ setEntries k v l) : (j, w) = (k, v) ∨ (j, w) ∈ l := by
  induction l with
  | nil => exact Or.inl (List.mem_singleton.mp h)
  | cons e rest ih =>
      rw [setEntries] at h
      split at h
      · rcases List.mem_cons.mp h with h | h
        · exact Or.inl h
        · exact Or.inr (List.mem_cons_of_mem _ h)
      · rcases List.mem_cons.mp h with h | h
        · exact Or.inr (h ▸ List.mem_cons_self)
        · rcases ih h with h | h
          · exact Or.inl h
          · exact Or.inr (List.mem_cons_of_mem _ h)

/-- Setting a key that is not there appends it. -/
theorem setEntries_of_notMem {k : α} {v : β} {l : List (α × β)} (h : k ∉ l.map Prod.fst) :
    setEntries k v l = l ++ [(k, v)] := by
  induction l with
  | nil => rfl
  | cons e rest ih =>
      rw [List.map_cons, List.mem_cons, not_or] at h
      rw [setEntries, if_neg (fun heq => h.1 heq.symm), ih h.2, List.cons_append]

/-- `d[k] = v`. -/
def set (d : Dict α β) (k : α) (v : β) : Dict α β :=
  ⟨setEntries k v d.entries, nodup_setEntries d.nodup⟩

/-- `d.get(k)`. -/
def get? (d : Dict α β) (k : α) : Option β := d.entries.lookup k

def keys (d : Dict α β) : List α := d.entries.map Prod.fst

omit [DecidableEq α] in
theorem nodup_keys (d : Dict α β) : d.keys.Nodup := d.nodup

/-- `{k: v for k, v in pairs}`. -/
def ofPairs (pairs : List (α × β)) : Dict α β :=
  pairs.foldl (fun d p => d.set p.1 p.2) empty

/-- Every entry of `ofPairs` is one of the pairs. -/
theorem mem_of_mem_ofPairs {pairs : List (α × β)} {e : α × β}
    (h : e ∈ (ofPairs pairs).entries) : e ∈ pairs := by
  -- Induction on the pairs, for any dictionary built so far.
  have hfold : ∀ (pairs : List (α × β)) (d : Dict α β),
      e ∈ (pairs.foldl (fun d p => d.set p.1 p.2) d).entries → e ∈ d.entries ∨ e ∈ pairs := by
    intro pairs
    induction pairs with
    | nil => exact fun d he => Or.inl he
    | cons p rest ih =>
        intro d he
        rcases ih (d.set p.1 p.2) he with he | he
        · rcases mem_setEntries he with heq | he
          · have hep : e = p := heq
            exact Or.inr (hep ▸ List.mem_cons_self)
          · exact Or.inl he
        · exact Or.inr (List.mem_cons_of_mem _ he)
  rcases hfold pairs empty h with h | h
  · cases h
  · exact h

/-- Pairs with distinct keys are the entries of their dictionary. -/
theorem entries_ofPairs {pairs : List (α × β)} (h : (pairs.map Prod.fst).Nodup) :
    (ofPairs pairs).entries = pairs := by
  have hfold : ∀ (pairs : List (α × β)) (d : Dict α β),
      ((d.entries ++ pairs).map Prod.fst).Nodup →
      (pairs.foldl (fun d p => d.set p.1 p.2) d).entries = d.entries ++ pairs := by
    intro pairs
    induction pairs with
    | nil => intro d _; simp
    | cons p rest ih =>
        intro d hd
        have hp : p.1 ∉ d.entries.map Prod.fst := by
          rw [List.map_append, List.map_cons, List.nodup_append] at hd
          intro hmem
          exact hd.2.2 p.1 hmem p.1 List.mem_cons_self rfl
        -- The key is new, so its pair goes to the end.
        have hset : (d.set p.1 p.2).entries = d.entries ++ [p] := setEntries_of_notMem hp
        rw [List.foldl_cons, ih _ (by rw [hset]; simpa using hd), hset]
        simp
  exact hfold pairs empty (by simpa [empty] using h)

theorem lookup_map {γ : Type} (f : β → γ) (k : α) (l : List (α × β)) :
    (l.map fun p => (p.1, f p.2)).lookup k = (l.lookup k).map f := by
  induction l with
  | nil => rfl
  | cons e rest ih =>
      obtain ⟨j, w⟩ := e
      rw [List.map_cons, List.lookup_cons, List.lookup_cons]
      cases k == j with
      | true => rfl
      | false => exact ih

theorem mem_keys_ofPairs {pairs : List (α × β)} {k : α} :
    k ∈ (ofPairs pairs).keys ↔ k ∈ pairs.map Prod.fst := by
  have hfold : ∀ (pairs : List (α × β)) (d : Dict α β),
      k ∈ (pairs.foldl (fun d p => d.set p.1 p.2) d).keys ↔
        k ∈ d.keys ∨ k ∈ pairs.map Prod.fst := by
    intro pairs
    induction pairs with
    | nil => simp
    | cons p rest ih =>
        intro d
        have hset : k ∈ (d.set p.1 p.2).keys ↔ k = p.1 ∨ k ∈ d.keys := mem_keys_setEntries
        rw [List.foldl_cons, ih, hset, List.map_cons, List.mem_cons]
        tauto
  rw [ofPairs, hfold]
  simp [keys, empty]

/-- As many keys as pairs: the pairs have distinct keys. -/
theorem nodup_of_length_keys_ofPairs {pairs : List (α × β)}
    (h : (ofPairs pairs).keys.length = pairs.length) : (pairs.map Prod.fst).Nodup := by
  have hsub : (ofPairs pairs).keys ⊆ pairs.map Prod.fst := fun _ hk => mem_keys_ofPairs.mp hk
  have hnodup : (ofPairs pairs).keys.Nodup := (ofPairs pairs).nodup
  -- The keys are among those of the pairs and as many.
  have hperm : (ofPairs pairs).keys.Perm (pairs.map Prod.fst) :=
    (hnodup.subperm hsub).perm_of_length_le (by rw [List.length_map]; omega)
  exact hperm.nodup_iff.mp hnodup

/-- `d.setdefault(k, []).append(x)`. -/
def appendTo {γ : Type} (d : Dict α (List γ)) (k : α) (x : γ) : Dict α (List γ) :=
  d.set k ((d.get? k).getD [] ++ [x])

theorem lookup_cons (k j : α) (v : β) (l : List (α × β)) :
    List.lookup k ((j, v) :: l) = if k = j then some v else List.lookup k l := by
  rw [List.lookup_cons]
  by_cases h : k = j
  · subst h
    simp
  · have hb : (k == j) = false := by simpa using h
    rw [hb, if_neg h]

theorem get?_set (d : Dict α β) (k j : α) (v : β) :
    (d.set k v).get? j = if j = k then some v else d.get? j := by
  obtain ⟨l, hl⟩ := d
  simp only [set, get?]
  clear hl
  induction l with
  | nil => rw [setEntries, lookup_cons]
  | cons e rest ih =>
      obtain ⟨i, w⟩ := e
      rw [setEntries]
      split
      · rename_i hik
        subst hik
        rw [lookup_cons, lookup_cons]
        split <;> rfl
      · rename_i hik
        rw [lookup_cons, lookup_cons, ih]
        by_cases h : j = i
        · subst h
          simp [hik]
        · simp [h]

/-- Collecting pairs with `appendTo`: a key holds the values paired with it, in
    their order. -/
theorem getD_get?_foldl_appendTo {γ : Type} (k : α) :
    ∀ (pairs : List (α × γ)) (d : Dict α (List γ)),
      ((pairs.foldl (fun d p => d.appendTo p.1 p.2) d).get? k).getD []
        = (d.get? k).getD [] ++ (pairs.filter fun p => p.1 = k).map Prod.snd
  | [], d => by simp
  | p :: rest, d => by
      rw [List.foldl_cons, getD_get?_foldl_appendTo k rest, appendTo, get?_set]
      by_cases h : p.1 = k
      · subst h
        simp
      · have h' : ¬ k = p.1 := fun heq => h heq.symm
        simp [h, h']

theorem mem_of_get? {d : Dict α β} {k : α} {v : β} (h : d.get? k = some v) :
    (k, v) ∈ d.entries := by
  unfold get? at h
  generalize d.entries = l at h
  induction l with
  | nil => simp at h
  | cons e rest ih =>
      obtain ⟨i, w⟩ := e
      rw [lookup_cons] at h
      split at h
      · rename_i hki
        cases h
        rw [hki]
        exact List.mem_cons_self
      · exact List.mem_cons_of_mem _ (ih h)

theorem get?_of_mem {d : Dict α β} {k : α} {v : β} (h : (k, v) ∈ d.entries) :
    d.get? k = some v := by
  obtain ⟨l, hl⟩ := d
  simp only [get?] at h ⊢
  induction l with
  | nil => simp at h
  | cons e rest ih =>
      obtain ⟨i, w⟩ := e
      rw [List.map_cons, List.nodup_cons] at hl
      rw [lookup_cons]
      rcases List.mem_cons.mp h with heq | hrest
      · cases heq
        rw [if_pos rfl]
      · -- `k` stands further on, and no key stands twice.
        have hki : k ≠ i := by
          rintro rfl
          exact hl.1 (List.mem_map.mpr ⟨(k, v), hrest, rfl⟩)
        rw [if_neg hki]
        exact ih hl.2 hrest

theorem exists_get?_ofPairs {pairs : List (α × β)} {k : α} (h : k ∈ pairs.map Prod.fst) :
    ∃ v, (ofPairs pairs).get? k = some v := by
  obtain ⟨⟨j, v⟩, hmem, rfl⟩ := List.mem_map.mp (mem_keys_ofPairs.mpr h)
  exact ⟨v, get?_of_mem hmem⟩

/-! ### `update` -/

/-- `d.update(pairs)`. -/
def update (d : Dict α β) (pairs : List (α × β)) : Dict α β :=
  pairs.foldl (fun d p => d.set p.1 p.2) d

/-- The last value that the pairs have for a key. -/
def lastValue (pairs : List (α × β)) (k : α) : Option β :=
  (pairs.filter fun p => p.1 = k).getLast?.map Prod.snd

theorem lastValue_cons (p : α × β) (pairs : List (α × β)) (k : α) :
    lastValue (p :: pairs) k = (lastValue pairs k).or (if p.1 = k then some p.2 else none) := by
  unfold lastValue
  by_cases hk : p.1 = k
  · rw [List.filter_cons_of_pos (by simpa using hk), List.getLast?_cons, if_pos hk]
    cases (pairs.filter fun p => p.1 = k).getLast? <;> rfl
  · rw [List.filter_cons_of_neg (by simpa using hk), if_neg hk, Option.or_none]

theorem lastValue_append (pairs pairs' : List (α × β)) (k : α) :
    lastValue (pairs ++ pairs') k = (lastValue pairs' k).or (lastValue pairs k) := by
  rw [lastValue, List.filter_append, List.getLast?_append, Option.map_or]
  rfl

theorem exists_lastValue {pairs : List (α × β)} {k : α} {v : β} (h : (k, v) ∈ pairs) :
    ∃ w, lastValue pairs k = some w := by
  have hmem : (k, v) ∈ pairs.filter fun p => p.1 = k := by
    rw [List.mem_filter]
    exact ⟨h, by simp⟩
  obtain ⟨p, hp⟩ := Option.ne_none_iff_exists'.mp
    (mt List.getLast?_eq_none_iff.mp (List.ne_nil_of_mem hmem))
  exact ⟨p.2, by rw [lastValue, hp]; rfl⟩

theorem mem_of_lastValue {pairs : List (α × β)} {k : α} {v : β} (h : lastValue pairs k = some v) :
    (k, v) ∈ pairs := by
  obtain ⟨p, hlast, rfl⟩ := Option.map_eq_some_iff.mp h
  have hmem := List.mem_filter.mp (List.mem_of_getLast? hlast)
  have hkey : p.1 = k := by simpa using hmem.2
  rw [← hkey]
  exact hmem.1

theorem get?_update (d : Dict α β) (pairs : List (α × β)) (k : α) :
    (d.update pairs).get? k = (lastValue pairs k).or (d.get? k) := by
  induction pairs generalizing d with
  | nil => rfl
  | cons p rest ih =>
      rw [update, List.foldl_cons]
      show (update (d.set p.1 p.2) rest).get? k = _
      rw [ih, lastValue_cons, get?_set, Option.or_assoc]
      by_cases hk : p.1 = k
      · subst hk
        simp
      · rw [if_neg hk, if_neg (Ne.symm hk), Option.none_or]

theorem get?_ofPairs (pairs : List (α × β)) (k : α) :
    (ofPairs pairs).get? k = lastValue pairs k := by
  have hupdate := get?_update (empty : Dict α β) pairs k
  rw [show (empty : Dict α β).get? k = none from rfl, Option.or_none] at hupdate
  exact hupdate

/-- A dictionary has one value for a key. -/
theorem lastValue_entries (d : Dict α β) (k : α) : lastValue d.entries k = d.get? k := by
  obtain ⟨l, hl⟩ := d
  show lastValue l k = l.lookup k
  induction l with
  | nil => rfl
  | cons p rest ih =>
      obtain ⟨j, v⟩ := p
      rw [List.map_cons, List.nodup_cons] at hl
      rw [lastValue_cons, ih hl.2, lookup_cons]
      by_cases hk : k = j
      · subst hk
        have hnone : rest.lookup k = none := by
          rw [List.lookup_eq_none_iff]
          intro e he
          have hkey : e.1 ∈ rest.map Prod.fst := List.mem_map_of_mem he
          have hne : k ≠ e.1 := by
            rintro rfl
            exact hl.1 hkey
          simpa using hne
        rw [hnone, if_pos rfl]
        rfl
      · rw [if_neg (Ne.symm hk), if_neg hk, Option.or_none]

theorem get?_update_dict (d e : Dict α β) (k : α) :
    (d.update e.entries).get? k = (e.get? k).or (d.get? k) := by
  rw [get?_update, lastValue_entries]

theorem keys_set (d : Dict α β) (k : α) (v : β) :
    (d.set k v).keys = if k ∈ d.keys then d.keys else d.keys ++ [k] := by
  obtain ⟨l, hl⟩ := d
  show (setEntries k v l).map Prod.fst =
    if k ∈ l.map Prod.fst then l.map Prod.fst else l.map Prod.fst ++ [k]
  clear hl
  induction l with
  | nil => rfl
  | cons e rest ih =>
      obtain ⟨j, w⟩ := e
      rw [setEntries]
      by_cases hj : j = k
      · subst hj
        simp
      · rw [if_neg hj, List.map_cons, ih]
        by_cases hk : k ∈ rest.map Prod.fst
        · simp [hk]
        · have hne : ¬ k = j := fun h => hj h.symm
          rw [if_neg hk, if_neg (by simp only [List.map_cons, List.mem_cons, hne, hk, or_self,
            not_false_eq_true])]
          rfl

/-- `update` appends the keys that are new, in their order. -/
theorem keys_update (d e : Dict α β) :
    (d.update e.entries).keys = d.keys ++ e.keys.filter (· ∉ d.keys) := by
  obtain ⟨l, hl⟩ := e
  show (d.update l).keys = d.keys ++ (l.map Prod.fst).filter (· ∉ d.keys)
  induction l generalizing d with
  | nil => simp [update]
  | cons p rest ih =>
      rw [List.map_cons, List.nodup_cons] at hl
      show (update (d.set p.1 p.2) rest).keys = _
      rw [ih (d.set p.1 p.2) hl.2, keys_set, List.map_cons]
      by_cases hp : p.1 ∈ d.keys
      · rw [if_pos hp, List.filter_cons_of_neg (by simpa using hp)]
      · rw [if_neg hp, List.filter_cons_of_pos (by simpa using hp), List.append_assoc,
          List.singleton_append]
        -- The key that was added now does not come again.
        have hrest : (rest.map Prod.fst).filter (· ∉ d.keys ++ [p.1]) =
            (rest.map Prod.fst).filter (· ∉ d.keys) := by
          refine List.filter_congr fun k hk => ?_
          have hne : k ≠ p.1 := by
            rintro rfl
            exact hl.1 hk
          simp [hne]
        rw [hrest]

/-- A dictionary is its keys and what it has for them. -/
theorem entries_eq_of_get? {d : Dict α β} {l : List (α × β)} (hkeys : l.map Prod.fst = d.keys)
    (hget : ∀ e ∈ l, d.get? e.1 = some e.2) : d.entries = l := by
  obtain ⟨entries, hnodup⟩ := d
  have hkeys : l.map Prod.fst = entries.map Prod.fst := hkeys
  show entries = l
  refine List.ext_getElem ?_ fun i hi hi' => ?_
  · simpa using (congrArg List.length hkeys).symm
  · have hmem : l[i] ∈ l := List.getElem_mem hi'
    have hfst : (l[i]).1 = (entries[i]).1 := by
      have := congrArg (fun ks => ks[i]?) hkeys
      simpa [hi, hi'] using this
    have hvalue := mem_of_get? (hget _ hmem)
    exact List.inj_on_of_nodup_map hnodup (List.getElem_mem hi) hvalue hfst.symm

theorem mem_keys_iff {d : Dict α β} {k : α} : k ∈ d.keys ↔ ∃ v, d.get? k = some v := by
  refine ⟨fun h => ?_, fun ⟨v, h⟩ => List.mem_map_of_mem (mem_of_get? h)⟩
  obtain ⟨⟨k', v⟩, hmem, rfl⟩ := List.mem_map.mp h
  exact ⟨v, get?_of_mem hmem⟩

theorem mem_entries_iff {d : Dict α β} {k : α} {v : β} : (k, v) ∈ d.entries ↔ d.get? k = some v :=
  ⟨get?_of_mem, mem_of_get?⟩

omit [DecidableEq α] in
theorem nodup_entries (d : Dict α β) : d.entries.Nodup := List.Nodup.of_map _ d.nodup

/-- Equality of dictionaries: the same entries, in whatever order. -/
theorem perm_iff_get? {d e : Dict α β} :
    d.entries.Perm e.entries ↔ ∀ k, d.get? k = e.get? k := by
  refine ⟨?_, ?_⟩
  · intro h k
    ext v
    rw [← mem_entries_iff, ← mem_entries_iff, h.mem_iff]
  · intro h
    rw [List.perm_ext_iff_of_nodup d.nodup_entries e.nodup_entries]
    rintro ⟨k, v⟩
    rw [mem_entries_iff, mem_entries_iff, h k]

end Dict

end Python
end HermesPlatform
