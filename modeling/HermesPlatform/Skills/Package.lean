/-
  HermesPlatform.Skills.Package

  `SkillPackageImporter._extract`: the entries of an uploaded archive, written below the
  extraction root.

  An entry's name becomes a path without `..`, whose folded text no other entry may have; the
  declared sizes and the bytes that are read are both held to the limit, and only directories
  and regular files are made, a file where nothing was.  `str.casefold` is a parameter.
-/

import HermesPlatform.Lib.FileTree
import HermesPlatform.Lib.Python

namespace HermesPlatform
namespace Skills

open FileTree Python

/-! ## What can be raised -/

inductive Raised where
  | skillLoadError (message : String)
  | badZipFile
  | fileExistsError (message : String)
  /-- Any other subclass of `Exception`. -/
  | exception (name : String)
  /-- `KeyboardInterrupt`, `SystemExit` and what else is outside `Exception`. -/
  | baseException (name : String)

/-- What `except Exception` catches. -/
def Raised.isException : Raised → Bool
  | .baseException _ => false
  | _ => true

def osError : Fault → Raised
  | .exists => .fileExistsError ""
  | .missing => .exception "FileNotFoundError"
  | .notDirectory => .exception "NotADirectoryError"

/-! ## Paths -/

/-- `"/"` or `"//"` in front of an absolute path. -/
def pathRoot : List Char → List String
  | '/' :: '/' :: '/' :: _ => ["/"]
  | '/' :: '/' :: _ => ["//"]
  | '/' :: _ => ["/"]
  | _ => []

/-- `PurePosixPath(path).parts`. -/
def pathParts (path : String) : List String :=
  pathRoot path.toList ++
    (((path.toList.splitOn '/').map String.ofList).filter fun part => part ≠ "" ∧ part ≠ ".")

/-- `filename.replace("\\", "/")`. -/
def slashed (filename : String) : String :=
  String.ofList (filename.toList.map fun c => if c = '\\' then '/' else c)

/-- Where a path leads from a directory. -/
def resolve (base : List String) : List String → List String
  | [] => base
  | part :: rest =>
      if part = ".." then resolve base.dropLast rest
      else if part = "." ∨ part = "" then resolve base rest
      else resolve (base ++ [part]) rest

/-! ## Entries -/

/-- `ZipInfo`, and what the archive gives for the entry: the error of `archive.open`, or the chunks
    and the error that ends them. -/
structure Member where
  filename : String
  externalAttr : Nat
  fileSize : Nat
  openFault : Option Raised
  chunks : List (List UInt8)
  fault : Option Raised

namespace Member

/-- `info.is_dir()`. -/
def isDir (info : Member) : Bool := info.filename.toList.getLast? = some '/'

/-- `path.parts`. -/
def parts (info : Member) : List String := pathParts (slashed info.filename)

def canonical (info : Member) : String :=
  String.ofList (((String.intercalate "/" info.parts).toList).rdropWhile (· == '/'))

def fileType (info : Member) : Nat := (info.externalAttr >>> 16) &&& 0o170000

/-- What is read before the empty chunk at the end. -/
def content (info : Member) : List UInt8 := (info.chunks.takeWhile (· ≠ [])).flatten

end Member

/-- `stat.S_IFLNK`, `stat.S_IFREG` and `stat.S_IFDIR`. -/
def sIfLnk : Nat := 0o120000
def sIfReg : Nat := 0o100000
def sIfDir : Nat := 0o040000

/-! ## Extraction -/

structure Extraction where
  totalBytes : Nat
  extractedBytes : Nat
  seen : List String
  tree : Tree String UInt8

section Extract

variable (maxEntries maxExtractedBytes : Nat) (casefold : String → String)

def expandsBeyond : Raised :=
  .skillLoadError s!"Skill ZIP expands beyond {maxExtractedBytes} bytes"

/-- `while chunk := source.read(..)`. -/
def copyChunks (fault : Option Raised) (extractedBytes : Nat) (written : List UInt8) :
    List (List UInt8) → Except Raised (Nat × List UInt8)
  | [] => match fault with
      | some raised => .error raised
      | none => .ok (extractedBytes, written)
  | chunk :: rest =>
      if chunk = [] then .ok (extractedBytes, written)
      else if extractedBytes + chunk.length > maxExtractedBytes then
        .error (expandsBeyond maxExtractedBytes)
      else copyChunks fault (extractedBytes + chunk.length) (written ++ chunk) rest

/-- The checks of an entry, up to its sizes. -/
def checkMember (seen : List String) (totalBytes : Nat) (info : Member) : Except Raised Unit :=
  let normalized := slashed info.filename
  if normalized = "" ∨ normalized.toList.head? = some '/' ∨ pathRoot normalized.toList ≠ [] ∨
      ".." ∈ info.parts ∨ "" ∈ info.parts then
    .error (.skillLoadError s!"unsafe archive path: {info.filename}")
  else if casefold info.canonical ∈ seen then
    .error (.skillLoadError s!"duplicate archive path: {info.canonical}")
  else if info.fileType = sIfLnk then
    .error (.skillLoadError s!"symbolic links are not allowed: {info.canonical}")
  else if info.fileType ≠ 0 ∧ info.fileType ≠ sIfReg ∧ info.fileType ≠ sIfDir then
    .error (.skillLoadError s!"special files are not allowed: {info.canonical}")
  else if totalBytes + info.fileSize > maxExtractedBytes then
    .error (expandsBeyond maxExtractedBytes)
  else .ok ()

/-- The body of the loop. -/
def extractMember (state : Extraction) (info : Member) : Except Raised Extraction := do
  checkMember maxExtractedBytes casefold state.seen state.totalBytes info
  let seen := state.seen ++ [casefold info.canonical]
  let totalBytes := state.totalBytes + info.fileSize
  if info.isDir then
    let tree ← (state.tree.mkdirs [] state.tree.get_nil info.parts).mapError osError
    return { state with totalBytes, seen, tree }
  else
    let tree ← (state.tree.mkdirs [] state.tree.get_nil info.parts.dropLast).mapError osError
    info.openFault.elim (.ok ()) Except.error
    -- The file is opened before it is read.
    let _ ← (tree.create info.parts []).mapError osError
    let (extractedBytes, written) ←
      copyChunks maxExtractedBytes info.fault state.extractedBytes [] info.chunks
    let tree ← (tree.create info.parts written).mapError osError
    return { totalBytes, extractedBytes, seen, tree }

/-- `except zipfile.BadZipFile`. -/
def notBadZip : Raised → Raised
  | .badZipFile => .skillLoadError "uploaded file is not a valid ZIP archive"
  | raised => raised

/-- `_extract`, from `archive.infolist()` on. -/
def extract (infolist : Except Raised (List Member)) : Except Raised (Tree String UInt8) :=
  Except.mapError notBadZip do
    let entries ← infolist
    if entries = [] ∨ entries.length > maxEntries then
      throw (.skillLoadError s!"Skill ZIP must contain 1 to {maxEntries} entries")
    let state ← foldEach (extractMember maxExtractedBytes casefold) ⟨0, 0, [], .empty⟩ entries
    return state.tree

end Extract

/-! ## The names of an entry -/

theorem not_mem_of_mem_splitOn {sep : Char} {cs part : List Char} (h : part ∈ cs.splitOn sep) :
    sep ∉ part := by
  rw [List.splitOn_eq_splitOnP] at h
  induction cs generalizing part with
  | nil =>
      rw [List.splitOnP_nil, List.mem_singleton] at h
      rw [h]
      exact List.not_mem_nil
  | cons c cs ih =>
      rw [List.splitOnP_cons_eq_if_modifyHead] at h
      split at h
      next =>
        obtain rfl | h := List.mem_cons.mp h
        · exact List.not_mem_nil
        · exact ih h
      next hc =>
        obtain ⟨first, rest, hsplit⟩ := List.exists_cons_of_ne_nil
          (List.splitOnP_ne_nil (· == sep) cs)
        rw [hsplit, List.modifyHead_cons] at h
        obtain rfl | h := List.mem_cons.mp h
        · rw [List.mem_cons, not_or]
          refine ⟨fun heq => hc (by simp [heq]), ?_⟩
          exact ih (hsplit ▸ List.mem_cons_self)
        · exact ih (hsplit ▸ List.mem_cons_of_mem _ h)

/-- A part of a path that goes one directory down. -/
def Plain (part : String) : Prop := part ≠ "" ∧ part ≠ "." ∧ part ≠ ".." ∧ '/' ∉ part.toList

theorem plain_of_mem_parts {info : Member} (hroot : pathRoot (slashed info.filename).toList = [])
    (hup : ".." ∉ info.parts) {part : String} (h : part ∈ info.parts) : Plain part := by
  have hne : part ≠ ".." := fun heq => hup (heq ▸ h)
  rw [Member.parts, pathParts, hroot, List.nil_append] at h
  obtain ⟨hmem, hnames⟩ := List.mem_filter.mp h
  obtain ⟨hempty, hdot⟩ := of_decide_eq_true hnames
  obtain ⟨cs, hcs, rfl⟩ := List.mem_map.mp hmem
  refine ⟨hempty, hdot, hne, ?_⟩
  rw [String.toList_ofList]
  exact not_mem_of_mem_splitOn hcs

/-- A plain path leads below the directory it starts from. -/
theorem resolve_of_plain {p : List String} (h : ∀ part ∈ p, Plain part) (base : List String) :
    resolve base p = base ++ p := by
  induction p generalizing base with
  | nil => rw [resolve, List.append_nil]
  | cons part rest ih =>
      obtain ⟨hempty, hdot, hup, -⟩ := h part List.mem_cons_self
      rw [resolve, if_neg hup, if_neg (by simp [hempty, hdot]),
        ih fun part hpart => h part (List.mem_cons_of_mem _ hpart), List.append_assoc,
        List.singleton_append]

/-! ## One entry -/

section Member

variable {maxExtractedBytes : Nat} {casefold : String → String}

/-- What an entry has passed. -/
structure Checked (limit : Nat) (casefold : String → String) (seen : List String)
    (totalBytes : Nat) (info : Member) : Prop where
  plain : ∀ part ∈ info.parts, Plain part
  fresh : casefold info.canonical ∉ seen
  regular : info.fileType = 0 ∨ info.fileType = sIfReg ∨ info.fileType = sIfDir
  declared : totalBytes + info.fileSize ≤ limit

theorem checked_of_ok {seen : List String} {totalBytes : Nat} {info : Member}
    (h : checkMember maxExtractedBytes casefold seen totalBytes info = .ok ()) :
    Checked maxExtractedBytes casefold seen totalBytes info := by
  simp only [checkMember] at h
  split at h
  next => cases h
  next hsafe =>
    split at h
    next => cases h
    next hfresh =>
      split at h
      next => cases h
      next =>
        split at h
        next => cases h
        next hregular =>
          split at h
          next => cases h
          next hsize =>
            simp only [not_or] at hsafe
            obtain ⟨-, -, hroot, hup, -⟩ := hsafe
            refine ⟨fun part => plain_of_mem_parts (not_not.mp hroot) hup, hfresh, ?_, by omega⟩
            by_contra hnone
            simp only [not_or] at hnone
            exact hregular hnone

/-- The chunks are counted before they are written. -/
theorem copyChunks_ok {fault : Option Raised} {extractedBytes : Nat} {written : List UInt8}
    {chunks : List (List UInt8)} {count : Nat} {content : List UInt8}
    (hlimit : extractedBytes ≤ maxExtractedBytes)
    (h : copyChunks maxExtractedBytes fault extractedBytes written chunks =
      .ok (count, content)) :
    content = written ++ (chunks.takeWhile (· ≠ [])).flatten ∧
      count = extractedBytes + (chunks.takeWhile (· ≠ [])).flatten.length ∧
      count ≤ maxExtractedBytes := by
  induction chunks generalizing extractedBytes written with
  | nil =>
      cases fault with
      | some raised => cases h
      | none =>
          cases h
          simp [hlimit]
  | cons chunk rest ih =>
      rw [copyChunks] at h
      split at h
      next hempty =>
        cases h
        simp [hempty, hlimit]
      next hne =>
        split at h
        next => cases h
        next hsize =>
          obtain ⟨hwritten, hcount, hbound⟩ := ih (by omega) h
          rw [List.takeWhile_cons_of_pos (by simpa using hne), List.flatten_cons,
            List.length_append]
          refine ⟨?_, by omega, hbound⟩
          rw [hwritten, List.append_assoc]

/-- What one entry changes. -/
structure Extracted (limit : Nat) (casefold : String → String) (info : Member)
    (state state' : Extraction) : Prop where
  checked : Checked limit casefold state.seen state.totalBytes info
  seen : state'.seen = state.seen ++ [casefold info.canonical]
  reached : ∀ p, state'.tree.get p ≠ none → state.tree.get p ≠ none ∨ p <+: info.parts
  files : ∀ p c, state'.tree.get p = some (.file c) ↔
    state.tree.get p = some (.file c) ∨ (info.isDir = false ∧ info.parts = p ∧ info.content = c)
  size : state.tree.size = state.extractedBytes → state'.tree.size = state'.extractedBytes
  bound : state'.extractedBytes ≤ limit

theorem extracted_of_ok {state state' : Extraction} {info : Member}
    (hlimit : state.extractedBytes ≤ maxExtractedBytes)
    (h : extractMember maxExtractedBytes casefold state info = .ok state') :
    Extracted maxExtractedBytes casefold info state state' := by
  obtain ⟨u, hchecked, h⟩ := bind_eq_ok.mp h
  replace hchecked := checked_of_ok hchecked
  split at h
  next hdir =>
    obtain ⟨tree, htree, h⟩ := bind_eq_ok.mp h
    obtain ⟨hwidens, -⟩ := Tree.widens_mkdirs [] _ _ (mapError_eq_ok.mp htree)
    cases h
    refine ⟨hchecked, rfl, ?_, ?_, hwidens.size.trans, hlimit⟩
    · intro p hp
      by_cases hold : state.tree.get p = none
      · obtain hnone | ⟨-, hstart⟩ := hwidens.adds p hold
        · exact absurd hnone hp
        · rw [List.nil_append] at hstart
          exact .inr hstart
      · exact .inl hold
    · intro p c
      rw [hwidens.get_file, hdir]
      simp
  next hfile =>
    obtain ⟨tree, htree, h⟩ := bind_eq_ok.mp h
    obtain ⟨-, -, h⟩ := bind_eq_ok.mp h
    obtain ⟨-, -, h⟩ := bind_eq_ok.mp h
    obtain ⟨⟨count, written⟩, hcopied, h⟩ := bind_eq_ok.mp h
    obtain ⟨tree', htree', hresult⟩ := bind_eq_ok.mp h
    obtain ⟨hwidens, -⟩ := Tree.widens_mkdirs [] _ _ (mapError_eq_ok.mp htree)
    obtain ⟨-, hnew, hget, hsize⟩ := Tree.create_ok (mapError_eq_ok.mp htree')
    obtain ⟨hwritten, hcount, hbound⟩ := copyChunks_ok hlimit hcopied
    obtain rfl : written = info.content := hwritten
    subst hcount
    cases hresult
    refine ⟨hchecked, rfl, ?_, ?_, ?_, hbound⟩
    · intro p hp
      by_cases hself : p = info.parts
      · exact .inr (hself ▸ List.prefix_refl _)
      · rw [hget, if_neg hself] at hp
        by_cases hold : state.tree.get p = none
        · obtain hnone | ⟨-, hstart⟩ := hwidens.adds p hold
          · exact absurd hnone hp
          · rw [List.nil_append] at hstart
            exact .inr (hstart.trans (List.dropLast_prefix _))
        · exact .inl hold
    · intro p c
      rw [hget]
      split
      next hself =>
        subst hself
        have hold : state.tree.get info.parts ≠ some (.file c) := by
          intro hold
          rw [← hwidens.get_file, hnew] at hold
          cases hold
        simp [hold, hfile]
      next hself =>
        rw [hwidens.get_file]
        simp [Ne.symm hself]
    · intro hold
      rw [hsize, hwidens.size, hold]
      rfl

end Member

/-! ## All entries -/

/-- What is to hold of the tree that is extracted from the entries. -/
structure Safe (limit : Nat) (casefold : String → String) (entries : List Member)
    (tree : Tree String UInt8) : Prop where
  /-- Every path that is made leads below the extraction root. -/
  inside : ∀ p, tree.get p ≠ none → ∀ root, resolve root p = root ++ p ∧
    ∀ part ∈ p, '/' ∉ part.toList
  distinct : (entries.map fun info => casefold info.canonical).Nodup
  /-- The files are the entries' files, each with its own content. -/
  files : ∀ p c, tree.get p = some (.file c) ↔
    ∃ info ∈ entries, info.isDir = false ∧ info.parts = p ∧ info.content = c
  /-- Nothing is below a file. -/
  apart : ∀ p c q, tree.get p = some (.file c) → q ≠ [] → tree.get (p ++ q) = none
  bounded : tree.size ≤ limit
  regular : ∀ info ∈ entries,
    info.fileType = 0 ∨ info.fileType = sIfReg ∨ info.fileType = sIfDir

section Entries

variable {maxEntries maxExtractedBytes : Nat} {casefold : String → String}

/-- What holds after each round of the loop. -/
structure Progress (limit : Nat) (casefold : String → String) (entries : List Member)
    (state : Extraction) : Prop where
  seen : state.seen = entries.map fun info => casefold info.canonical
  distinct : state.seen.Nodup
  plain : ∀ p, state.tree.get p ≠ none → ∀ part ∈ p, Plain part
  files : ∀ p c, state.tree.get p = some (.file c) ↔
    ∃ info ∈ entries, info.isDir = false ∧ info.parts = p ∧ info.content = c
  regular : ∀ info ∈ entries,
    info.fileType = 0 ∨ info.fileType = sIfReg ∨ info.fileType = sIfDir
  size : state.tree.size = state.extractedBytes
  bound : state.extractedBytes ≤ limit

theorem Progress.start (limit : Nat) (casefold : String → String) :
    Progress limit casefold [] ⟨0, 0, [], .empty⟩ := by
  refine ⟨rfl, List.nodup_nil, ?_, ?_, by simp, rfl, Nat.zero_le _⟩
  · intro p hp part hpart
    rw [Tree.get_empty] at hp
    split at hp
    next hroot => simp [hroot] at hpart
    next => exact absurd rfl hp
  · intro p c
    rw [Tree.get_empty]
    split
    · simp
    · simp

theorem Progress.step {entries : List Member} {info : Member} {state state' : Extraction}
    (h : Progress maxExtractedBytes casefold entries state)
    (hstep : extractMember maxExtractedBytes casefold state info = .ok state') :
    Progress maxExtractedBytes casefold (entries ++ [info]) state' := by
  obtain ⟨hchecked, hseen, hreached, hfiles, hsize, hbound⟩ := extracted_of_ok h.bound hstep
  refine ⟨?_, ?_, ?_, ?_, ?_, hsize h.size, hbound⟩
  · rw [hseen, h.seen, List.map_append, List.map_singleton]
  · rw [hseen]
    rw [← List.concat_eq_append]
    exact h.distinct.concat hchecked.fresh
  · intro p hp part hpart
    obtain hold | hstart := hreached p hp
    · exact h.plain p hold part hpart
    · exact hchecked.plain part (hstart.subset hpart)
  · intro p c
    rw [hfiles, h.files]
    simp only [List.mem_append, List.mem_singleton, or_and_right, exists_or, exists_eq_left]
  · intro m hm
    obtain hm | hm := List.mem_append.mp hm
    · exact h.regular m hm
    · exact List.mem_singleton.mp hm ▸ hchecked.regular

/-- **`_extract`** makes nothing that is not safe. -/
theorem safe_of_extract {entries : List Member} {tree : Tree String UInt8}
    (h : extract maxEntries maxExtractedBytes casefold (.ok entries) = .ok tree) :
    Safe maxExtractedBytes casefold entries tree := by
  rw [extract, mapError_eq_ok] at h
  obtain ⟨entries', hentries, h⟩ := bind_eq_ok.mp h
  cases hentries
  split at h
  next => cases h
  next =>
    obtain ⟨state, hrun, h⟩ := bind_eq_ok.mp h
    cases h
    have hdone := foldEach_induction (P := fun state done =>
      Progress maxExtractedBytes casefold done state) (fun _ _ _ _ => Progress.step) _ _ _ []
      (.start _ _) hrun
    rw [List.nil_append] at hdone
    refine ⟨?_, ?_, hdone.files, ?_, ?_, hdone.regular⟩
    · intro p hp root
      have hplain := hdone.plain p hp
      exact ⟨resolve_of_plain hplain root, fun part hpart => (hplain part hpart).2.2.2⟩
    · rw [← hdone.seen]
      exact hdone.distinct
    · intro p c q hfile hq
      exact Tree.get_below_file hfile hq
    · rw [hdone.size]
      exact hdone.bound

end Entries

end Skills
end HermesPlatform
