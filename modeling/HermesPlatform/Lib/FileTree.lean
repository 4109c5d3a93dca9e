/-
  HermesPlatform.Lib.FileTree

  File trees: directories and files at paths, the root being a directory.

  A tree carries that no two nodes have one path and that what is above a node is a directory,
  so a file is never above another node.  `mkdirs` makes the directories that are missing on a
  path, `create` makes a file where nothing was.
-/

import HermesPlatform.Lib.Table
import Mathlib.Data.List.Induction

namespace HermesPlatform
namespace FileTree

inductive Node (β : Type) where
  | dir
  | file (content : List β)

/-- What the file system answers instead. -/
inductive Fault where
  | exists
  | missing
  | notDirectory

structure Tree (ν β : Type) [DecidableEq ν] where
  /-- The nodes below the root, by their paths. -/
  nodes : List (List ν × Node β)
  unique : Table.Unique Prod.fst nodes
  below : ∀ p n, (p, n) ∈ nodes → p ≠ []
  closed : ∀ p n, (p, n) ∈ nodes → p.dropLast = [] ∨ (p.dropLast, .dir) ∈ nodes

namespace Tree

variable {ν β : Type} [DecidableEq ν]

def empty : Tree ν β where
  nodes := []
  unique := List.nodup_nil
  below := by simp
  closed := by simp

/-- The node at a path. -/
def get (t : Tree ν β) (p : List ν) : Option (Node β) :=
  if p = [] then some .dir else Table.get p t.nodes

/-- The size of a node. -/
def Node.size : Node β → Nat
  | .dir => 0
  | .file content => content.length

/-- What the files of the tree hold together. -/
def size (t : Tree ν β) : Nat := (t.nodes.map fun node => Node.size node.2).sum

variable {t t' : Tree ν β} {p q : List ν} {node : Node β}

@[simp] theorem get_nil (t : Tree ν β) : t.get [] = some .dir := if_pos rfl

@[simp] theorem get_empty (p : List ν) :
    (empty : Tree ν β).get p = if p = [] then some .dir else none := rfl

@[simp] theorem size_empty : (empty : Tree ν β).size = 0 := rfl

theorem get_eq_some (hp : p ≠ []) : t.get p = some node ↔ (p, node) ∈ t.nodes := by
  rw [get, if_neg hp]
  exact ⟨Table.mem_of_get, t.unique.get_of_mem⟩

/-- What is above a node is a directory. -/
theorem get_dropLast (h : t.get p = some node) : t.get p.dropLast = some .dir := by
  by_cases hp : p = []
  · rw [hp]
    exact t.get_nil
  · obtain hroot | hdir := t.closed p node ((get_eq_some hp).mp h)
    · rw [hroot]
      exact t.get_nil
    · by_cases hroot : p.dropLast = []
      · rw [hroot]
        exact t.get_nil
      · exact (get_eq_some hroot).mpr hdir

/-- **No file is used as a directory.** -/
theorem get_below_file {content : List β} (h : t.get p = some (.file content)) (hq : q ≠ []) :
    t.get (p ++ q) = none := by
  induction q using List.reverseRecOn with
  | nil => exact absurd rfl hq
  | append_singleton q name ih =>
      by_contra hsome
      obtain ⟨node, hnode⟩ := Option.ne_none_iff_exists'.mp hsome
      have habove := get_dropLast hnode
      rw [← List.append_assoc, List.dropLast_concat] at habove
      by_cases hempty : q = []
      · rw [hempty, List.append_nil, h] at habove
        cases habove
      · rw [ih hempty] at habove
        cases habove

/-! ## A new node -/

/-- The tree with a node that is new in a directory. -/
def add (t : Tree ν β) (dir : List ν) (name : ν) (node : Node β) (hdir : t.get dir = some .dir)
    (hnew : t.get (dir ++ [name]) = none) : Tree ν β where
  nodes := t.nodes ++ [(dir ++ [name], node)]
  unique := by
    refine Table.Unique.append t.unique ?_
    rw [get, if_neg (by simp)] at hnew
    exact Table.get_eq_none.mp hnew
  below := by
    intro p n h
    obtain h | h := List.mem_append.mp h
    · exact t.below p n h
    · obtain ⟨rfl, -⟩ := Prod.mk.inj (List.mem_singleton.mp h)
      simp
  closed := by
    intro p n h
    obtain h | h := List.mem_append.mp h
    · exact (t.closed p n h).imp id fun hmem => List.mem_append_left _ hmem
    · obtain ⟨rfl, -⟩ := Prod.mk.inj (List.mem_singleton.mp h)
      rw [List.dropLast_concat]
      by_cases hroot : dir = []
      · exact .inl hroot
      · exact .inr (List.mem_append_left _ ((get_eq_some hroot).mp hdir))

section Add

variable {dir : List ν} {name : ν} {hdir : t.get dir = some .dir}
  {hnew : t.get (dir ++ [name]) = none}

theorem get_add (q : List ν) : (t.add dir name node hdir hnew).get q =
    if q = dir ++ [name] then some node else t.get q := by
  by_cases hroot : q = []
  · subst hroot
    rw [get_nil, get_nil, if_neg (by simp)]
  · split
    next hq => exact (get_eq_some hroot).mpr (hq ▸ List.mem_append_right _ List.mem_cons_self)
    next hq =>
      apply Option.ext
      intro node'
      rw [get_eq_some hroot, get_eq_some hroot]
      simp [add, hq]

@[simp] theorem size_add : (t.add dir name node hdir hnew).size = t.size + Node.size node := by
  simp [size, add]

end Add

/-! ## Directories -/

/-- `path.mkdir(parents=True, exist_ok=True)`, below a directory that is there. -/
def mkdirs (t : Tree ν β) (dir : List ν) (hdir : t.get dir = some .dir) :
    List ν → Except Fault (Tree ν β)
  | [] => .ok t
  | name :: rest =>
      match h : t.get (dir ++ [name]) with
      | some .dir => mkdirs t (dir ++ [name]) h rest
      | some (.file _) => .error (if rest = [] then .exists else .notDirectory)
      | none => mkdirs (t.add dir name .dir hdir h) (dir ++ [name])
          (by rw [get_add, if_pos rfl]) rest

/-- `t'` has the nodes of `t` and, besides these, only directories on a path. -/
structure Widens (t t' : Tree ν β) (p : List ν) : Prop where
  keeps : ∀ q node, t.get q = some node → t'.get q = some node
  adds : ∀ q, t.get q = none → t'.get q = none ∨ (t'.get q = some .dir ∧ q <+: p)
  size : t'.size = t.size

theorem Widens.refl (t : Tree ν β) (p : List ν) : Widens t t p :=
  ⟨fun _ _ h => h, fun _ h => .inl h, rfl⟩

theorem Widens.get_file (h : Widens t t' p) {content : List β} :
    t'.get q = some (.file content) ↔ t.get q = some (.file content) := by
  refine ⟨fun hfile => ?_, h.keeps q _⟩
  cases hget : t.get q with
  | none =>
      obtain hnone | ⟨hdir, -⟩ := h.adds q hget
      · rw [hnone] at hfile
        cases hfile
      · rw [hdir] at hfile
        cases hfile
  | some node =>
      rw [h.keeps q node hget] at hfile
      exact hfile

theorem widens_mkdirs (dir : List ν) (hdir : t.get dir = some .dir) (path : List ν)
    (h : t.mkdirs dir hdir path = .ok t') :
    Widens t t' (dir ++ path) ∧ t'.get (dir ++ path) = some .dir := by
  induction path generalizing t dir with
  | nil =>
      cases h
      rw [List.append_nil]
      exact ⟨.refl _ _, hdir⟩
  | cons name rest ih =>
      rw [mkdirs] at h
      rw [← List.singleton_append, ← List.append_assoc]
      split at h
      next hfound => exact ih _ hfound h
      next => cases h
      next hnone =>
        obtain ⟨⟨hkeeps, hadds, hsize⟩, hlast⟩ := ih _ _ h
        refine ⟨⟨?_, ?_, ?_⟩, hlast⟩
        · intro q node hq
          apply hkeeps
          rw [get_add, if_neg ?_]
          · exact hq
          · rintro rfl
            rw [hnone] at hq
            cases hq
        · intro q hq
          by_cases hnew : q = dir ++ [name]
          · subst hnew
            refine .inr ⟨hkeeps _ _ ?_, List.prefix_append _ _⟩
            rw [get_add, if_pos rfl]
          · apply hadds
            rw [get_add, if_neg hnew]
            exact hq
        · rw [hsize, size_add]
          rfl

/-! ## Files -/

/-- `path.open("xb")`, and the content written to it. -/
def create (t : Tree ν β) (p : List ν) (content : List β) : Except Fault (Tree ν β) :=
  if hp : p = [] then .error .exists
  else
    match hdir : t.get p.dropLast with
    | some .dir =>
        match hnew : t.get p with
        | none => .ok (t.add p.dropLast (p.getLast hp) (.file content) hdir
            (by rw [List.dropLast_append_getLast]; exact hnew))
        | some _ => .error .exists
    | some (.file _) => .error .notDirectory
    | none => .error .missing

/-- A file is made where nothing was. -/
theorem create_ok {content : List β} (h : t.create p content = .ok t') :
    p ≠ [] ∧ t.get p = none ∧
      (∀ q, t'.get q = if q = p then some (.file content) else t.get q) ∧
      t'.size = t.size + content.length := by
  rw [create] at h
  split at h
  next => cases h
  next hp =>
    split at h
    next =>
      split at h
      next hnew =>
        cases h
        refine ⟨hp, hnew, ?_, size_add⟩
        intro q
        rw [get_add, List.dropLast_append_getLast]
      next => cases h
    next => cases h
    next => cases h

end Tree

end FileTree
end HermesPlatform
