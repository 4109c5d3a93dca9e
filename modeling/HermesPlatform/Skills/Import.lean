/-
  HermesPlatform.Skills.Import

  `SkillPackageImporter.import_zip`: a package is extracted and checked in a directory of its
  own below the skills root, moved to its destination in one step, and loaded once more there.

  What the file system and the helpers answer is a parameter, `Environment`; a step that raises
  ends the import.  The import takes the skill back when the loading raises an `Exception`; it
  does not when the loading raises something else, when `rmtree` leaves something behind, or
  when it is the removal of the temporary directory that raises.
-/

import HermesPlatform.Lib.JsonDict
import HermesPlatform.Skills.Package
import Mathlib.Logic.Function.Basic

namespace HermesPlatform
namespace Skills

open FileTree Python

/-! ## The manifest -/

/-- `SKILL_ID.fullmatch`. -/
def isSkillId (s : String) : Bool :=
  let letter := fun c : Char => c.isLower || c.isDigit
  match s.toList with
  | first :: rest =>
      letter first && decide (2 ≤ rest.length ∧ rest.length ≤ 63) &&
        rest.dropLast.all (fun c => letter c || c = '-') && rest.getLast?.any letter
  | [] => false

/-- `VERSION.fullmatch`. -/
def isVersion (s : String) : Bool :=
  match s.toList with
  | first :: rest =>
      first.isAlphanum && decide (rest.length ≤ 63) &&
        rest.all fun c => c.isAlphanum || c = '.' || c = '+' || c = '-'
  | [] => false

/-- What `_validate_manifest` returns. -/
structure Manifest where
  id : String
  name : String
  description : Option String
  version : String
  entry : String
  runtimeSupport : List String

def asString : Json → Option String
  | .string s => some s
  | _ => none

/-- `any(item not in {"hermes", "pi", "deepseek"} for item in items)`. -/
def anyUnsupported : List Json → Except Raised Bool
  | [] => .ok false
  | .array _ :: _ => .error (.exception "TypeError")
  | .object _ :: _ => .error (.exception "TypeError")
  | .string s :: rest =>
      if s = "hermes" ∨ s = "pi" ∨ s = "deepseek" then anyUnsupported rest else .ok true
  | _ :: _ => .ok true

/-- `_validate_manifest`. -/
def validateManifest (manifest : Dict String Json) : Except Raised Manifest := do
  let rawId := (manifest.get? "id").getD ((manifest.get? "name").getD .null)
  let rawName := (manifest.get? "display_name").getD ((manifest.get? "name").getD .null)
  let rawVersion := (manifest.get? "version").getD .null
  let rawDescription := (manifest.get? "description").getD .null
  let rawEntry := match (manifest.get? "entry").getD (.string "SKILL.md") with
    | .object members => ((Dict.ofPairs members).get? "file").getD .null
    | value => value
  let rawSupport := (manifest.get? "runtime_support").getD (.array [.string "hermes"])
  let id ← match (asString rawId).filter isSkillId with
    | some id => .ok id
    | none => .error (.skillLoadError "skill.yaml id/name must be a lowercase hyphenated identifier")
  let name ← match (asString rawName).filter fun s => strip s ≠ "" ∧ s.length ≤ 255 with
    | some name => .ok name
    | none => .error (.skillLoadError
        "skill.yaml name/display_name must contain 1 to 255 characters")
  let version ← match (asString rawVersion).filter isVersion with
    | some version => .ok version
    | none => .error (.skillLoadError "skill.yaml version is required and invalid")
  let description ← match rawDescription with
    | .null => .ok none
    | .string s => .ok (some s)
    | _ => .error (.skillLoadError "skill.yaml description must be a string")
  let entry ← match asString rawEntry with
    | some "SKILL.md" => .ok "SKILL.md"
    | _ => .error (.skillLoadError "first-stage Skill entry must be SKILL.md")
  let unsupported :=
    Raised.skillLoadError "skill.yaml runtime_support must contain hermes, pi, and/or deepseek"
  let support ← match rawSupport with
    | .array (item :: items) => .ok (item :: items)
    | _ => .error unsupported
  if ← anyUnsupported support then throw unsupported
  return { id, name := strip name, description, version, entry
           runtimeSupport := (support.filterMap asString).eraseDups }

/-! ## The import -/

structure ImportedSkill where
  id : String
  name : String
  description : Option String
  version : String
  path : String
  manifest : Dict String Json
  runtimeSupport : List String
  packageSha256 : String

/-- The files below one directory. -/
abbrev Directory := Tree String UInt8

/-- The directories of the skills root, less the temporary one of the import. -/
abbrev Root := String → Option Directory

/-- The settings, and what the steps of the import answer or raise. -/
structure Environment where
  maxUploadBytes : Nat
  maxEntries : Nat
  maxExtractedBytes : Nat
  casefold : String → String
  sha256 : List UInt8 → String
  makeRoot : Option Raised
  makeTemporary : Option Raised
  writeArchive : Option Raised
  infolist : List UInt8 → Except Raised (List Member)
  packageRoot : Directory → Except Raised Directory
  readManifest : Directory → Except Raised (Dict String Json)
  validateSkillContract : Dict String Json → Option Raised
  normalizeRuntimeFiles : Directory → Manifest → Dict String Json → Except Raised Directory
  statDestination : Option Raised
  copytree : Directory → Except Raised Directory
  replace : Option Raised
  loadDefinition : String → Directory → Option Raised
  /-- What `shutil.rmtree(.., ignore_errors=True)` leaves. -/
  rmtree : Directory → Option Directory
  /-- The removal of the temporary directory. -/
  cleanup : Option Raised

namespace Environment

variable (env : Environment)

def raiseIf : Option Raised → Except Raised Unit
  | some raised => .error raised
  | none => .ok ()

/-- The steps before the `with` block. -/
def enter (package : List UInt8) : Except Raised Unit := do
  if package = [] then throw (.skillLoadError "Skill ZIP is empty")
  if package.length > env.maxUploadBytes then
    throw (.skillLoadError s!"Skill ZIP exceeds {env.maxUploadBytes} bytes")
  raiseIf env.makeRoot
  raiseIf env.makeTemporary

/-- The steps that work in the temporary directory only. -/
def stage (package : List UInt8) : Except Raised (Dict String Json × Manifest × Directory) := do
  raiseIf env.writeArchive
  let extracted ← extract env.maxEntries env.maxExtractedBytes env.casefold (env.infolist package)
  let packageRoot ← env.packageRoot extracted
  let manifest ← env.readManifest packageRoot
  let fields ← validateManifest manifest
  raiseIf (env.validateSkillContract manifest)
  let packageRoot ← env.normalizeRuntimeFiles packageRoot fields manifest
  return (manifest, fields, packageRoot)

/-- From `destination.exists()` to the end of the `with` block. -/
def install (id : String) (packageRoot : Directory) (root : Root) : Except Raised Unit × Root :=
  match env.statDestination with
  | some raised => (.error raised, root)
  | none =>
  if root id ≠ none then (.error (.fileExistsError s!"skill path already exists: {id}"), root)
  else
    match env.copytree packageRoot with
    | .error raised => (.error raised, root)
    | .ok installed =>
    match env.replace with
    | some raised => (.error raised, root)
    | none =>
    match env.loadDefinition id installed with
    | none => (.ok (), Function.update root id (some installed))
    | some raised =>
        if raised.isException then (.error raised, Function.update root id (env.rmtree installed))
        else (.error raised, Function.update root id (some installed))

/-- The end of the `with` block. -/
def leave {α : Type} (body : Except Raised α × Root) : Except Raised α × Root :=
  match env.cleanup with
  | some raised => (.error raised, body.2)
  | none => body

/-- `import_zip`. -/
def importZip (package : List UInt8) (root : Root) : Except Raised ImportedSkill × Root :=
  match env.enter package with
  | .error raised => (.error raised, root)
  | .ok () =>
  env.leave <|
    match env.stage package with
    | .error raised => (.error raised, root)
    | .ok (manifest, fields, packageRoot) =>
        let (outcome, root) := env.install fields.id packageRoot root
        (outcome.map fun _ =>
          { id := fields.id, name := fields.name, description := fields.description
            version := fields.version, path := fields.id, manifest
            runtimeSupport := fields.runtimeSupport, packageSha256 := env.sha256 package }, root)

/-- The import leaves no trace below the skills root when it raises. -/
def RolledBack (package : List UInt8) (root : Root) : Prop :=
  ∀ raised root', env.importZip package root = (.error raised, root') → root' = root

/-- From the moment the skill is at its destination: only an `Exception` of the loading is raised,
    and `rmtree` then leaves nothing. -/
def TakesBack (package : List UInt8) (root : Root) : Prop :=
  ∀ manifest fields packageRoot installed, env.enter package = .ok () →
    env.stage package = .ok (manifest, fields, packageRoot) → env.statDestination = none →
    root fields.id = none → env.copytree packageRoot = .ok installed → env.replace = none →
    match env.loadDefinition fields.id installed with
    | none => env.cleanup = none
    | some raised => raised.isException = true ∧ env.rmtree installed = none

variable {env}

theorem leave_raises {α : Type} {body : Except Raised α × Root} {raised : Raised} {root : Root}
    (h : env.leave body = (.error raised, root)) :
    body.2 = root ∧ (env.cleanup = some raised ∨ body.1 = .error raised) := by
  rw [leave] at h
  split at h
  next r hr =>
    cases h
    exact ⟨rfl, .inl hr⟩
  next => exact ⟨congrArg Prod.snd h, .inr (congrArg Prod.fst h)⟩

/-- The steps up to `os.replace` either all succeed, on a skill that is new, or leave the root as
    it was. -/
theorem install_cases (env : Environment) (id : String) (packageRoot : Directory) (root : Root) :
    (env.install id packageRoot root).2 = root ∨
      (env.statDestination = none ∧ root id = none ∧
        ∃ installed, env.copytree packageRoot = .ok installed ∧ env.replace = none) := by
  rw [install]
  split
  next => exact .inl rfl
  next hstat =>
    split
    next => exact .inl rfl
    next hnew =>
      split
      next => exact .inl rfl
      next installed hcopied =>
        split
        next => exact .inl rfl
        next hreplaced => exact .inr ⟨hstat, not_not.mp hnew, installed, hcopied, hreplaced⟩

/-- What happens once the skill is at its destination. -/
theorem install_eq {id : String} {packageRoot installed : Directory} {root : Root}
    (hstat : env.statDestination = none) (hnew : root id = none)
    (hcopied : env.copytree packageRoot = .ok installed) (hreplaced : env.replace = none) :
    env.install id packageRoot root =
      match env.loadDefinition id installed with
      | none => (.ok (), Function.update root id (some installed))
      | some raised =>
          if raised.isException then
            (.error raised, Function.update root id (env.rmtree installed))
          else (.error raised, Function.update root id (some installed)) := by
  simp only [install, hstat, hnew, hcopied, hreplaced, ne_eq, not_true_eq_false, if_false]

theorem update_ne {root : Root} {id : String} {installed : Directory} (hnew : root id = none) :
    Function.update root id (some installed) ≠ root := by
  intro h
  have hid := congrFun h id
  rw [Function.update_self, hnew] at hid
  cases hid

/-- An import that raises and leaves no trace took the skill back. -/
theorem takesBack_of_rolledBack {package : List UInt8} {root : Root}
    (h : env.RolledBack package root) : env.TakesBack package root := by
  intro manifest fields packageRoot installed henter hstage hstat hnew hcopied hreplaced
  have himport := install_eq hstat hnew hcopied hreplaced
  simp only [RolledBack, importZip, henter, hstage, himport] at h
  split
  next hload =>
    rw [hload] at h
    by_contra hcleanup
    obtain ⟨raised, hraised⟩ := Option.ne_none_iff_exists'.mp hcleanup
    refine @update_ne root fields.id installed hnew (h raised _ ?_)
    rw [leave, hraised]
  next raised hload =>
    -- Whatever the end of the block raises, the root stays as the handler left it.
    have hleft (left : Root) : ∃ raised', env.leave
        ((.error raised : Except Raised ImportedSkill), left) = (.error raised', left) := by
      rw [leave]
      split
      next r _ => exact ⟨r, rfl⟩
      next => exact ⟨raised, rfl⟩
    rw [hload] at h
    cases hkind : raised.isException with
    | true =>
        simp only [hkind, if_true] at h
        obtain ⟨raised', hresult⟩ := hleft (Function.update root fields.id (env.rmtree installed))
        have hroot := congrFun (h raised' _ hresult) fields.id
        rw [Function.update_self, hnew] at hroot
        exact ⟨rfl, hroot⟩
    | false =>
        simp only [hkind, Bool.false_eq_true, if_false] at h
        obtain ⟨raised', hresult⟩ := hleft (Function.update root fields.id (some installed))
        exact absurd (h raised' _ hresult) (update_ne hnew)

theorem rolledBack_of_takesBack {package : List UInt8} {root : Root}
    (h : env.TakesBack package root) : env.RolledBack package root := by
  intro raised root' himport
  rw [importZip] at himport
  split at himport
  next =>
    cases himport
    rfl
  next henter =>
    obtain ⟨hroot, hraised⟩ := leave_raises himport
    split at hroot
    next => exact hroot.symm
    next manifest fields packageRoot hstage =>
      obtain hsame | ⟨hstat, hnew, installed, hcopied, hreplaced⟩ :=
        install_cases env fields.id packageRoot root
      · exact hroot.symm.trans hsame
      · have hback := h manifest fields packageRoot installed henter hstage hstat hnew hcopied
          hreplaced
        have heq := install_eq hstat hnew hcopied hreplaced
        simp only [hstage, heq] at hraised
        simp only [heq] at hroot
        split at hback
        next hload =>
          rw [hload] at hraised
          obtain hcleanup | hok := hraised
          · rw [hback] at hcleanup
            cases hcleanup
          · cases hok
        next r hload =>
          obtain ⟨hkind, hempty⟩ := hback
          simp only [hload, hkind, if_true, hempty] at hroot
          rw [← hroot, ← hnew, Function.update_eq_self]

end Environment

/-- **`import_zip`**: what is extracted is safe, and a step that raises leaves no trace below the
    skills root, exactly where the import takes the skill back. -/
theorem importZip_safe_iff (env : Environment) (package : List UInt8) (root : Root) :
    (∀ entries tree, extract env.maxEntries env.maxExtractedBytes env.casefold (.ok entries) =
        .ok tree → Safe env.maxExtractedBytes env.casefold entries tree) ∧
      (env.RolledBack package root ↔ env.TakesBack package root) :=
  ⟨fun _ _ => safe_of_extract,
    Environment.takesBack_of_rolledBack, Environment.rolledBack_of_takesBack⟩

def writeManifest : List UInt8 :=
  "id: write-hb\nname: Write HB\nversion: 1.0.0\n".toList.map fun c => c.toNat.toUInt8

/-- A package for which every step but the removal of the temporary directory succeeds. -/
def cleanupFails : Environment where
  maxUploadBytes := 1000
  maxEntries := 10
  maxExtractedBytes := 1000
  casefold := asciiLower
  sha256 _ := ""
  makeRoot := none
  makeTemporary := none
  writeArchive := none
  infolist _ := .ok [⟨"SKILL.md", 0, 2, none, [[111, 107]], none⟩,
    ⟨"skill.yaml", 0, writeManifest.length, none, [writeManifest], none⟩]
  packageRoot := .ok
  readManifest _ := .ok (Dict.ofPairs [("id", .string "write-hb"), ("name", .string "Write HB"),
    ("version", .string "1.0.0")])
  validateSkillContract _ := none
  normalizeRuntimeFiles packageRoot _ _ := .ok packageRoot
  statDestination := none
  copytree := .ok
  replace := none
  loadDefinition _ _ := none
  rmtree _ := none
  cleanup := some (.exception "OSError")

theorem importZip_leaves_skill :
    ¬ ∀ (env : Environment) (package : List UInt8) (root : Root),
      (∀ entries tree, extract env.maxEntries env.maxExtractedBytes env.casefold (.ok entries) =
        .ok tree → Safe env.maxExtractedBytes env.casefold entries tree) ∧
      env.RolledBack package root := by
  intro h
  have hback := (h cleanupFails [80] fun _ => none).2 (.exception "OSError") _ rfl
  have hid := congrFun hback "write-hb"
  revert hid
  decide +kernel

end Skills
end HermesPlatform
