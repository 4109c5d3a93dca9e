/-
  HermesPlatform.Runtimes.Artifacts

  `_collect_artifacts` of the DeepSeek runtime: the patch of a workspace and the test report, each
  cut to a number of bytes.

  Git and the file system are parameters.  The bytes are cut first and decoded then, with U+FFFD
  for what is ill-formed; so an artifact can have more bytes than it was cut to
  (`collectArtifacts_bounded_iff`).
-/

import HermesPlatform.Lib.Python
import HermesPlatform.Lib.Utf8

namespace HermesPlatform
namespace DeepSeek
namespace Artifacts

open Utf8

/-! ## Git -/

/-- A run of git. -/
structure GitRun where
  timedOut : Bool
  returncode : Int
  stdout : List UInt8

/-- What a run printed, if it ended as it should. -/
def GitRun.printed (run : GitRun) (accepted : List Int) : List UInt8 :=
  if run.timedOut then [] else if run.returncode ∈ accepted then run.stdout else []

/-- `_git_output`. -/
def gitOutput (run : GitRun) (maximumBytes : Nat) (accepted : List Int) : List UInt8 :=
  (run.printed accepted).take maximumBytes

structure Workspace where
  hasGit : Bool
  /-- `git diff`. -/
  diff : GitRun
  /-- `git ls-files --others -z`. -/
  lsFiles : GitRun
  /-- The path resolves to one below the workspace. -/
  inside : List UInt8 → Bool
  isFile : List UInt8 → Bool
  /-- `git diff --no-index /dev/null path`. -/
  diffNew : List UInt8 → GitRun

def totalLength (patches : List (List UInt8)) : Nat := (patches.map List.length).sum

/-- The loop over the untracked paths. -/
def addPatches (ws : Workspace) (maximumBytes : Nat) :
    List (List UInt8) → List (List UInt8) → List (List UInt8)
  | [], patches => patches
  | rawPath :: paths, patches =>
      if rawPath = [] then addPatches ws maximumBytes paths patches
      else if ws.inside rawPath = false then addPatches ws maximumBytes paths patches
      else if ws.isFile rawPath = false then addPatches ws maximumBytes paths patches
      else if maximumBytes ≤ totalLength patches then patches
      else
        let patch := gitOutput (ws.diffNew rawPath) (maximumBytes - totalLength patches) [0, 1]
        if patch = [] then addPatches ws maximumBytes paths patches
        else addPatches ws maximumBytes paths (patches ++ [patch])

/-- The bytes that `_git_diff` decodes. -/
def gitDiffBytes (ws : Workspace) (maximumBytes : Nat) : List UInt8 :=
  let tracked := gitOutput ws.diff maximumBytes [0]
  if maximumBytes ≤ tracked.length then tracked.take maximumBytes
  else
    let untracked := gitOutput ws.lsFiles maximumBytes [0]
    (addPatches ws maximumBytes (untracked.splitOn 0) [tracked]).flatten.take maximumBytes

def gitDiff (ws : Workspace) (maximumBytes : Nat) : String :=
  String.ofList (decodeReplace (gitDiffBytes ws maximumBytes))

/-! ## Artifacts -/

structure Artifact where
  filename : String
  artifactType : String
  contentType : String
  content : String
  deriving DecidableEq

/-- `"\n\n".join(value for value in test_report if value).strip()`. -/
def reportText (testReport : List String) : String :=
  Python.strip ("\n\n".intercalate (testReport.filter (· ≠ "")))

def collectArtifacts (ws : Workspace) (testReport : List String) (maximumBytes : Nat) :
    List Artifact :=
  let diff := gitDiff ws maximumBytes
  let report := reportText testReport
  (if ws.hasGit ∧ diff ≠ "" then
    [⟨"changes.patch", "code_patch", "text/x-diff; charset=utf-8", diff⟩,
      ⟨"git-diff.patch", "git_diff", "text/x-diff; charset=utf-8", diff⟩]
  else []) ++
  if report ≠ "" then
    [⟨"test-report.txt", "test_report", "text/plain; charset=utf-8",
      String.ofList (decodeReplace ((encode report.toList).take maximumBytes))⟩]
  else []

/-! ## What git printed -/

/-- The untracked files. -/
def newFiles (ws : Workspace) (maximumBytes : Nat) : List (List UInt8) :=
  ((gitOutput ws.lsFiles maximumBytes [0]).splitOn 0).filter fun rawPath =>
    rawPath ≠ [] ∧ ws.inside rawPath ∧ ws.isFile rawPath

/-- What git prints for the tracked files and for one untracked file after another. -/
def gitPrinted (ws : Workspace) (maximumBytes : Nat) : List UInt8 :=
  ws.diff.printed [0] ++ (newFiles ws maximumBytes).flatMap fun rawPath =>
    (ws.diffNew rawPath).printed [0, 1]

theorem totalLength_eq (patches : List (List UInt8)) :
    totalLength patches = patches.flatten.length := List.length_flatten.symm

/-- A part that is cut where the whole is cut. -/
theorem take_append_take {α : Type} (as bs cs : List α) (n : Nat) :
    (as ++ bs.take (n - as.length) ++ cs).take n = (as ++ (bs ++ cs)).take n := by
  have hlength : n - as.length - (bs.take (n - as.length)).length = n - as.length - bs.length := by
    rw [List.length_take]
    omega
  rw [List.append_assoc, List.take_append, List.take_append, List.take_append, List.take_append,
    List.take_take, Nat.min_self, hlength]

theorem addPatches_take (ws : Workspace) (maximumBytes : Nat) (paths patches : List (List UInt8)) :
    (addPatches ws maximumBytes paths patches).flatten.take maximumBytes =
      (patches.flatten ++ (paths.filter fun rawPath =>
        rawPath ≠ [] ∧ ws.inside rawPath ∧ ws.isFile rawPath).flatMap fun rawPath =>
          (ws.diffNew rawPath).printed [0, 1]).take maximumBytes := by
  induction paths generalizing patches with
  | nil => rw [addPatches, List.filter_nil, List.flatMap_nil, List.append_nil]
  | cons rawPath paths ih =>
      rw [addPatches]
      by_cases hskip : rawPath ≠ [] ∧ ws.inside rawPath ∧ ws.isFile rawPath
      · obtain ⟨hne, hinside, hfile⟩ := hskip
        rw [if_neg hne, if_neg (by simp [hinside]), if_neg (by simp [hfile]),
          List.filter_cons_of_pos (by simp [hne, hinside, hfile]), List.flatMap_cons,
          totalLength_eq]
        split
        next hfull => rw [List.take_append_of_le_length hfull]
        next hroom =>
          simp only
          split
          next hempty =>
            -- The file has no patch: there is room for its first byte, if it had one.
            rw [gitOutput, List.take_eq_nil_iff] at hempty
            obtain hzero | hempty := hempty
            · omega
            · rw [ih, hempty, List.nil_append]
          next =>
            rw [ih, List.flatten_append, List.flatten_singleton, gitOutput, take_append_take]
      · have hnext : (if rawPath = [] then addPatches ws maximumBytes paths patches
            else if ws.inside rawPath = false then addPatches ws maximumBytes paths patches
            else if ws.isFile rawPath = false then addPatches ws maximumBytes paths patches
            else if maximumBytes ≤ totalLength patches then patches
            else
              let patch := gitOutput (ws.diffNew rawPath) (maximumBytes - totalLength patches)
                [0, 1]
              if patch = [] then addPatches ws maximumBytes paths patches
              else addPatches ws maximumBytes paths (patches ++ [patch])) =
            addPatches ws maximumBytes paths patches := by
          by_cases hne : rawPath = []
          · rw [if_pos hne]
          · by_cases hinside : ws.inside rawPath = true
            · have hfile : ws.isFile rawPath = false := by
                by_contra hfile
                exact hskip ⟨hne, hinside, by simpa using hfile⟩
              rw [if_neg hne, if_neg (by simp [hinside]), if_pos hfile]
            · rw [if_neg hne, if_pos (by simpa using hinside)]
        rw [hnext, ih, List.filter_cons_of_neg (by simpa using hskip)]

/-- The bytes are the first that git printed. -/
theorem gitDiffBytes_eq (ws : Workspace) (maximumBytes : Nat) :
    gitDiffBytes ws maximumBytes = (gitPrinted ws maximumBytes).take maximumBytes := by
  simp only [gitDiffBytes, gitPrinted, newFiles]
  have htracked : gitOutput ws.diff maximumBytes [0] =
      (ws.diff.printed [0]).take maximumBytes := rfl
  split
  next hfull =>
    rw [htracked, List.length_take] at hfull
    rw [htracked, List.take_take, Nat.min_self, List.take_append_of_le_length (by omega)]
  next hroom =>
    rw [htracked, List.length_take] at hroom
    rw [addPatches_take, htracked, List.flatten_singleton,
      List.take_of_length_le (by omega : (ws.diff.printed [0]).length ≤ maximumBytes)]

/-! ## The bound -/

/-- The content of an artifact takes no more bytes than that. -/
def Artifact.Bounded (maximumBytes : Nat) (artifact : Artifact) : Prop :=
  (encode artifact.content.toList).length ≤ maximumBytes

/-- There is room for what decoding adds: two bytes for each ill-formed sequence of one byte, one
    for each of two bytes. -/
def LeavesRoom (maximumBytes : Nat) (bytes : List UInt8) : Prop :=
  bytes.length + 2 * illFormed 1 bytes + illFormed 2 bytes ≤ maximumBytes

theorem gitDiff_bounded_iff (ws : Workspace) (maximumBytes : Nat) :
    (encode (gitDiff ws maximumBytes).toList).length ≤ maximumBytes ↔
      LeavesRoom maximumBytes ((gitPrinted ws maximumBytes).take maximumBytes) := by
  rw [gitDiff, String.toList_ofList, utf8Size_decodeReplace, gitDiffBytes_eq, LeavesRoom]

/-- **The size bound.**  The artifacts keep to it just when what git printed, cut to the bound,
    leaves the room, and the report is not cut behind the first or the second byte of a
    character. -/
theorem collectArtifacts_bounded_iff (ws : Workspace) (testReport : List String)
    (maximumBytes : Nat) :
    (∀ artifact ∈ collectArtifacts ws testReport maximumBytes, artifact.Bounded maximumBytes) ↔
      (ws.hasGit = true →
        LeavesRoom maximumBytes ((gitPrinted ws maximumBytes).take maximumBytes)) ∧
      cut (reportText testReport).toList maximumBytes ≠ 1 ∧
      cut (reportText testReport).toList maximumBytes ≠ 2 := by
  rw [← gitDiff_bounded_iff, ← length_decodeReplace_take]
  have hdiff : gitDiff ws maximumBytes = "" →
      (encode (gitDiff ws maximumBytes).toList).length ≤ maximumBytes := by
    intro hempty
    rw [hempty]
    exact Nat.zero_le _
  have hreport : reportText testReport = "" →
      (encode (decodeReplace ((encode (reportText testReport).toList).take maximumBytes))).length ≤
        maximumBytes := by
    intro hempty
    have hnone : encode "".toList = [] := rfl
    rw [hempty, hnone, List.take_nil]
    exact Nat.zero_le _
  constructor
  · intro h
    refine ⟨fun hgit => ?_, ?_⟩
    · by_cases hempty : gitDiff ws maximumBytes = ""
      · exact hdiff hempty
      · exact h ⟨"changes.patch", "code_patch", _, gitDiff ws maximumBytes⟩
          (List.mem_append_left _ (by rw [if_pos ⟨hgit, hempty⟩]; exact List.mem_cons_self))
    · by_cases hempty : reportText testReport = ""
      · exact hreport hempty
      · have hmem := h ⟨"test-report.txt", "test_report", _, _⟩
          (List.mem_append_right _ (by rw [if_pos hempty]; exact List.mem_singleton_self _))
        rwa [Artifact.Bounded, String.toList_ofList] at hmem
  · rintro ⟨hgit, hbounded⟩ artifact hmem
    obtain hmem | hmem := List.mem_append.mp hmem
    · split at hmem
      next hshown =>
        have hcontent : artifact.content = gitDiff ws maximumBytes := by
          obtain rfl | hmem := List.mem_cons.mp hmem
          · rfl
          · rw [List.mem_singleton.mp hmem]
        rw [Artifact.Bounded, hcontent]
        exact hgit hshown.1
      next => cases hmem
    · split at hmem
      next =>
        rw [List.mem_singleton.mp hmem, Artifact.Bounded, String.toList_ofList]
        exact hbounded
      next => cases hmem

/-- A workspace without a repository. -/
def plainWorkspace : Workspace where
  hasGit := false
  diff := ⟨false, 129, []⟩
  lsFiles := ⟨false, 128, []⟩
  inside := fun _ => true
  isFile := fun _ => false
  diffNew := fun _ => ⟨false, 128, []⟩

/-- A report of 1025 bytes. -/
def accentedReport : List Char := List.replicate 1023 'a' ++ ['é']

/-- The first byte of its last character comes back as U+FFFD: the artifact has 1026 bytes. -/
theorem accentedReport_exceeds : ¬ ∀ artifact ∈
    collectArtifacts plainWorkspace [String.ofList accentedReport] 1024, artifact.Bounded 1024 := by
  intro h
  have hspace : ∀ c ∈ accentedReport, Python.isSpace c = false := by
    intro c hc
    obtain hc | hc := List.mem_append.mp hc
    · rw [List.eq_of_mem_replicate hc]
      rfl
    · rw [List.mem_singleton.mp hc]
      rfl
  have hcut : cut accentedReport 1024 = 1 := by
    have hletters : (encode (List.replicate 1023 'a')).length = 1023 := by
      rw [length_encode, List.map_replicate, List.sum_replicate_nat]
      rfl
    rw [accentedReport, cut_append ['é'] (by omega), hletters]
    rfl
  have hne : String.ofList accentedReport ≠ "" := by
    intro hempty
    have hlist := congrArg String.toList hempty
    rw [String.toList_ofList] at hlist
    cases hlist
  have hreport : reportText [String.ofList accentedReport] = String.ofList accentedReport := by
    have hone (t : String) : "\n\n".intercalate [t] = t := rfl
    rw [reportText, List.filter_cons_of_pos (by simpa using hne), List.filter_nil, hone,
      Python.strip_of_forall (by rwa [String.toList_ofList])]
  have hshown : collectArtifacts plainWorkspace [String.ofList accentedReport] 1024 =
      [⟨"test-report.txt", "test_report", "text/plain; charset=utf-8",
        String.ofList (decodeReplace ((encode accentedReport).take 1024))⟩] := by
    rw [collectArtifacts, hreport, if_neg (by rintro ⟨⟨⟩, -⟩), if_pos hne, String.toList_ofList]
    rfl
  rw [hshown] at h
  have hbounded := h _ (List.mem_singleton_self _)
  rw [Artifact.Bounded, String.toList_ofList, length_decodeReplace_take] at hbounded
  exact hbounded.1 hcut

end Artifacts
end DeepSeek
end HermesPlatform
