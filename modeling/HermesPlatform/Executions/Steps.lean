/-
  HermesPlatform.Executions.Steps

  The steps that the attempts of an execution record.

  Every attempt records its steps under keys of its own, so that none is written over, and
  under sequence numbers of its own thousand.
-/

import HermesPlatform.Lib.Json
import HermesPlatform.Lib.Table
import HermesPlatform.Snapshots.Validation

namespace HermesPlatform.Executions

open Snapshots (RuntimeType)

/-! ## Steps -/

/-- The steps that an attempt records once. -/
inductive Single where
  | requestReceived
  | inputSchemaValidate
  | memoryLoad
  | skillLoad
  | mcpLoad
  | knowledgeRetrieval
  | sourceRecall
  | promptBuild
  | runtime
  | outputSchemaValidate
deriving DecidableEq, Repr

/-- The steps that an attempt records for every item of a list, under its index. -/
inductive Item where
  | trace
  | mcpCall
  | artifactSave
deriving DecidableEq, Repr

inductive StepKind where
  | single (name : Single)
  | item (name : Item) (index : Nat)
deriving DecidableEq, Repr

def Single.key (runtimeType : RuntimeType) : Single → String
  | .requestReceived => "request_received"
  | .inputSchemaValidate => "input_schema_validate"
  | .memoryLoad => "memory_load"
  | .skillLoad => "skill_load"
  | .mcpLoad => "mcp_load"
  | .knowledgeRetrieval => "knowledge_retrieval"
  | .sourceRecall => "source_recall"
  | .promptBuild => "prompt_build"
  | .runtime => runtimeType.text ++ "_runtime"
  | .outputSchemaValidate => "output_schema_validate"

def Single.offset : Single → Nat
  | .requestReceived => 0
  | .inputSchemaValidate => 100
  | .memoryLoad => 200
  | .skillLoad => 300
  | .mcpLoad => 400
  | .knowledgeRetrieval => 500
  | .sourceRecall => 550
  | .promptBuild => 600
  | .runtime => 700
  | .outputSchemaValidate => 800

def Item.key (runtimeType : RuntimeType) : Item → String
  | .trace => runtimeType.text ++ "_trace"
  | .mcpCall => "mcp_call"
  | .artifactSave => "artifact_save"

def Item.offset : Item → Nat
  | .trace => 710
  | .mcpCall => 710
  | .artifactSave => 900

def StepKind.offset : StepKind → Nat
  | .single name => name.offset
  | .item name index => name.offset + index

/-- A row of `execution_steps`: `step_key` and `sequence` are what its attempt, the Runtime of
    the attempt and its kind make them. -/
structure ExecutionStep where
  runtimeType : RuntimeType
  attempt : Nat
  kind : StepKind
deriving DecidableEq, Repr

namespace ExecutionStep

def stepKey (step : ExecutionStep) : String :=
  match step.kind with
  | .single name =>
      if step.attempt = 0 then name.key step.runtimeType
      else name.key step.runtimeType ++ "_" ++ step.attempt.repr
  | .item .trace index =>
      Item.trace.key step.runtimeType ++ "_" ++ step.attempt.repr ++ "_" ++ index.repr
  | .item name index =>
      if step.attempt = 0 then name.key step.runtimeType ++ "_" ++ index.repr
      else name.key step.runtimeType ++ "_" ++ step.attempt.repr ++ "_" ++ index.repr

def sequence (step : ExecutionStep) : Nat := step.attempt * 1000 + step.kind.offset

end ExecutionStep

/-- A step whose key is there is written over: `uq_execution_steps_execution_key`. -/
def recordStep (rows : List ExecutionStep) (step : ExecutionStep) : List ExecutionStep :=
  Table.upsert ExecutionStep.stepKey step.stepKey (fun _ => step) step rows

/-! ## Attempts -/

/-- An attempt of an execution.  `mcpCalls` says which of the recorded calls are objects, and
    `recorded` how many steps are recorded when the attempt ends: a failure ends it after any
    of them. -/
structure Attempt where
  runtimeType : RuntimeType
  sourceRecall : Bool
  trace : Nat
  mcpCalls : List Bool
  report : Bool
  artifacts : Nat
  recorded : Nat
deriving DecidableEq, Repr

namespace Attempt

variable (attempt : Attempt)

def preparation : List Single :=
  [.requestReceived, .inputSchemaValidate, .memoryLoad, .skillLoad, .mcpLoad, .knowledgeRetrieval]
    ++ (if attempt.sourceRecall then [.sourceRecall] else []) ++ [.promptBuild]

/-- `result.trace[:100]` -/
def traceLength : Nat := min attempt.trace 100

def runtimeTrace : List StepKind := (List.range attempt.traceLength).map (.item .trace)

/-- The calls that are no objects are passed over, and keep their indices. -/
def mcpCallSteps : List StepKind :=
  ((List.range attempt.mcpCalls.length).filter fun index => attempt.mcpCalls.getD index false).map
    (.item .mcpCall)

/-- The result, the report if there is one, and the Runtime's own artifacts. -/
def artifactSteps : List StepKind :=
  (List.range (1 + (if attempt.report then 1 else 0) + attempt.artifacts)).map
    (.item .artifactSave)

/-- What is recorded before the output is validated. -/
def untilTrace : List StepKind :=
  attempt.preparation.map .single ++ .single .runtime :: attempt.runtimeTrace

/-- What is recorded after that. -/
def completion : List StepKind := attempt.mcpCallSteps ++ attempt.artifactSteps

/-- The steps of an attempt that does not fail, in the order in which they are recorded. -/
def kinds : List StepKind :=
  attempt.untilTrace ++ .single .outputSchemaValidate :: attempt.completion

def recordedKinds : List StepKind := attempt.kinds.take attempt.recorded

def steps (number : Nat) : List ExecutionStep :=
  attempt.recordedKinds.map (⟨attempt.runtimeType, number, ·⟩)

end Attempt

/-- The steps of the attempts in the order in which they are recorded. -/
def records : Nat → List Attempt → List ExecutionStep
  | _, [] => []
  | number, attempt :: rest => attempt.steps number ++ records (number + 1) rest

/-- The rows of an execution. -/
def executionSteps (attempts : List Attempt) : List ExecutionStep :=
  (records 0 attempts).foldl recordStep []

/-! ## Keys -/

/-- The name of a step, without its numbers. -/
def StepKind.name : StepKind → Single ⊕ Item
  | .single name => .inl name
  | .item name _ => .inr name

def nameKey (runtimeType : RuntimeType) : Single ⊕ Item → String :=
  Sum.elim (Single.key runtimeType) (Item.key runtimeType)

def runtimeTypes : List RuntimeType := [.hermes, .pi, .deepseek]

def names : List (Single ⊕ Item) :=
  [.inl .requestReceived, .inl .inputSchemaValidate, .inl .memoryLoad, .inl .skillLoad,
    .inl .mcpLoad, .inl .knowledgeRetrieval, .inl .sourceRecall, .inl .promptBuild, .inl .runtime,
    .inl .outputSchemaValidate, .inr .trace, .inr .mcpCall, .inr .artifactSave]

namespace ExecutionStep

/-- The numbers of a key. -/
def numbers (step : ExecutionStep) : List Nat :=
  match step.kind with
  | .single _ => if step.attempt = 0 then [] else [step.attempt]
  | .item .trace index => [step.attempt, index]
  | .item _ index => if step.attempt = 0 then [index] else [step.attempt, index]

end ExecutionStep

def numberText (n : Nat) : List Char := '_' :: Nat.toDigits 10 n

theorem isDigit_of_mem_toDigits {n : Nat} {c : Char} (h : c ∈ Nat.toDigits 10 n) :
    c.isDigit = true :=
  Nat.isDigit_of_mem_toDigits (by decide) (by decide) h

/-- The names of the steps end in other characters. -/
def isNumberChar (c : Char) : Bool := c.isDigit || c == '_'

theorem isNumberChar_of_mem {n : Nat} {c : Char} (h : c ∈ numberText n) :
    isNumberChar c = true := by
  rcases List.mem_cons.mp h with rfl | h
  · rfl
  · rw [isNumberChar, isDigit_of_mem_toDigits h, Bool.true_or]

/-- A property of all names can be tested. -/
theorem forall_names {P : RuntimeType → Single ⊕ Item → Prop}
    (h : ∀ rt ∈ runtimeTypes, ∀ a ∈ names, P rt a) (rt : RuntimeType) (a : Single ⊕ Item) :
    P rt a := by
  have htype : rt ∈ runtimeTypes := by cases rt <;> decide
  refine h rt htype a ?_
  rcases a with a | a
  · cases a <;> simp [names]
  · cases a <;> simp [names]

theorem nameKey_inj {rt rt' : RuntimeType} {a b : Single ⊕ Item}
    (h : nameKey rt a = nameKey rt' b) : a = b := by
  have hall : ∀ rt ∈ runtimeTypes, ∀ a ∈ names, ∀ rt' ∈ runtimeTypes, ∀ b ∈ names,
      nameKey rt a = nameKey rt' b → a = b := by
    decide +kernel
  exact forall_names (fun rt' hrt' b hb =>
    forall_names (fun rt hrt a ha => hall rt hrt a ha rt' hrt' b hb) rt a) rt' b h

theorem letter_at_end (rt : RuntimeType) (a : Single ⊕ Item) :
    (nameKey rt a).toList.getLast?.all isNumberChar = false := by
  have hall : ∀ rt ∈ runtimeTypes, ∀ a ∈ names,
      (nameKey rt a).toList.getLast?.all isNumberChar = false := by
    decide +kernel
  exact forall_names hall rt a

/-- What follows a letter at the end of a text. -/
theorem eq_nil_of_letter {a z : List Char} (h : (a ++ z).getLast?.all isNumberChar = false)
    (hz : ∀ c ∈ z, isNumberChar c = true) : z = [] := by
  by_contra hne
  rw [List.getLast?_append_of_ne_nil a hne, List.getLast?_eq_some_getLast hne] at h
  rw [Option.all_some, hz _ (List.getLast_mem hne)] at h
  cases h

theorem append_inj_of_letter {a b x y : List Char} (ha : a.getLast?.all isNumberChar = false)
    (hb : b.getLast?.all isNumberChar = false) (hx : ∀ c ∈ x, isNumberChar c = true)
    (hy : ∀ c ∈ y, isNumberChar c = true) (h : a ++ x = b ++ y) : a = b ∧ x = y := by
  -- One text goes on where the other ends, with characters of numbers only.
  rcases List.append_eq_append_iff.mp h with ⟨z, rfl, rfl⟩ | ⟨z, rfl, rfl⟩
  · obtain rfl := eq_nil_of_letter hb fun c hc => hx c (List.mem_append_left _ hc)
    exact ⟨(List.append_nil a).symm, rfl⟩
  · obtain rfl := eq_nil_of_letter ha fun c hc => hy c (List.mem_append_left _ hc)
    exact ⟨List.append_nil b, rfl⟩

theorem takeWhile_digits (n : Nat) (ns : List Nat) :
    (Nat.toDigits 10 n ++ ns.flatMap numberText).takeWhile Char.isDigit = Nat.toDigits 10 n := by
  rw [List.takeWhile_append_of_pos fun c hc => isDigit_of_mem_toDigits hc]
  cases ns with
  | nil => exact List.append_nil _
  | cons m ms => exact List.append_nil _

theorem numbersText_inj {ns ms : List Nat} (h : ns.flatMap numberText = ms.flatMap numberText) :
    ns = ms := by
  induction ns generalizing ms with
  | nil =>
      cases ms with
      | nil => rfl
      | cons m ms => cases h
  | cons n ns ih =>
      cases ms with
      | nil => cases h
      | cons m ms =>
          have htail : Nat.toDigits 10 n ++ ns.flatMap numberText =
              Nat.toDigits 10 m ++ ms.flatMap numberText := (List.cons.inj h).2
          have hdigits : Nat.toDigits 10 n = Nat.toDigits 10 m := by
            rw [← takeWhile_digits n ns, htail, takeWhile_digits]
          obtain rfl := Json.toDigits_inj hdigits
          rw [ih (List.append_cancel_left htail)]

theorem ExecutionStep.toList_stepKey (step : ExecutionStep) :
    step.stepKey.toList =
      (nameKey step.runtimeType step.kind.name).toList ++ step.numbers.flatMap numberText := by
  obtain ⟨rt, k, kind⟩ := step
  have hnumber : ∀ n : Nat, ("_" ++ n.repr).toList = numberText n := by
    intro n
    rw [String.toList_append, Nat.toList_repr]
    rfl
  have hone : ∀ (text : String) (n : Nat),
      (text ++ "_" ++ n.repr).toList = text.toList ++ [n].flatMap numberText := by
    intro text n
    rw [String.append_assoc, String.toList_append, hnumber, List.flatMap_singleton]
  have htwo : ∀ (text : String) (n m : Nat), (text ++ "_" ++ n.repr ++ "_" ++ m.repr).toList =
      text.toList ++ [n, m].flatMap numberText := by
    intro text n m
    rw [hone, hone, List.append_assoc, ← List.flatMap_append, List.singleton_append]
  cases kind with
  | single name =>
      unfold stepKey numbers
      dsimp only
      split
      · exact (List.append_nil _).symm
      · exact hone _ _
  | item name index =>
      have hretry : ∀ text : String,
          (if k = 0 then text ++ "_" ++ index.repr
            else text ++ "_" ++ k.repr ++ "_" ++ index.repr).toList =
          text.toList ++ (if k = 0 then [index] else [k, index]).flatMap numberText := by
        intro text
        split
        · exact hone text index
        · exact htwo text k index
      cases name with
      | trace => exact htwo _ k index
      | mcpCall => exact hretry _
      | artifactSave => exact hretry _

theorem ExecutionStep.stepKey_inj {s s' : ExecutionStep} (h : s.stepKey = s'.stepKey) :
    s.attempt = s'.attempt ∧ s.kind = s'.kind := by
  have hchars : ∀ s : ExecutionStep, ∀ c ∈ s.numbers.flatMap numberText,
      isNumberChar c = true := by
    intro s c hc
    obtain ⟨n, -, hc⟩ := List.mem_flatMap.mp hc
    exact isNumberChar_of_mem hc
  have htext := congrArg String.toList h
  rw [toList_stepKey, toList_stepKey] at htext
  obtain ⟨hkey, hnumbers⟩ := append_inj_of_letter (letter_at_end _ _) (letter_at_end _ _)
    (hchars s) (hchars s') htext
  -- The name gives the kind of the step, and how many numbers there are the rest.
  have hname := nameKey_inj (String.toList_inj.mp hkey)
  have hnumbers := numbersText_inj hnumbers
  obtain ⟨rt, k, kind⟩ := s
  obtain ⟨rt', k', kind'⟩ := s'
  cases kind with
  | single name =>
      cases kind' with
      | item name' j => cases hname
      | single name' =>
          obtain rfl := Sum.inl.inj hname
          simp only [numbers] at hnumbers
          grind
  | item name i =>
      cases kind' with
      | single name' => cases hname
      | item name' j =>
          obtain rfl := Sum.inr.inj hname
          cases name <;> simp only [numbers] at hnumbers <;> grind

/-! ## The rows of an execution -/

namespace Attempt

variable {attempt : Attempt} {kind : StepKind}

theorem mem_untilTrace : kind ∈ attempt.untilTrace ↔
    (∃ name ∈ attempt.preparation, kind = .single name) ∨ kind = .single .runtime ∨
      ∃ i < attempt.traceLength, kind = .item .trace i := by
  simp only [untilTrace, runtimeTrace, List.mem_append, List.mem_map, List.mem_cons,
    List.mem_range, eq_comm]

theorem mem_completion : kind ∈ attempt.completion ↔
    (∃ i, attempt.mcpCalls.getD i false = true ∧ kind = .item .mcpCall i) ∨
      ∃ i < 1 + (if attempt.report then 1 else 0) + attempt.artifacts,
        kind = .item .artifactSave i := by
  have hlength : ∀ i, attempt.mcpCalls.getD i false = true → i < attempt.mcpCalls.length := by
    intro i h
    by_contra hge
    rw [List.getD_eq_getElem?_getD, List.getElem?_eq_none (Nat.le_of_not_lt hge)] at h
    cases h
  constructor
  · intro h
    rcases List.mem_append.mp h with h | h
    · obtain ⟨i, hi, rfl⟩ := List.mem_map.mp h
      exact .inl ⟨i, (List.mem_filter.mp hi).2, rfl⟩
    · obtain ⟨i, hi, rfl⟩ := List.mem_map.mp h
      exact .inr ⟨i, List.mem_range.mp hi, rfl⟩
  · rintro (⟨i, hi, rfl⟩ | ⟨i, hi, rfl⟩)
    · refine List.mem_append_left _ (List.mem_map_of_mem (List.mem_filter.mpr ⟨?_, hi⟩))
      exact List.mem_range.mpr (hlength i hi)
    · exact List.mem_append_right _ (List.mem_map_of_mem (List.mem_range.mpr hi))

theorem item_injective (name : Item) : Function.Injective (StepKind.item name) := by
  intro i j h
  exact (StepKind.item.inj h).2

theorem nodup_untilTrace : attempt.untilTrace.Nodup := by
  have hpreparation : attempt.preparation.Nodup := by
    unfold preparation
    cases attempt.sourceRecall <;> decide
  have hruntime : .runtime ∉ attempt.preparation := by
    unfold preparation
    cases attempt.sourceRecall <;> decide
  refine List.nodup_append.mpr ⟨?_, List.nodup_cons.mpr ⟨?_, ?_⟩, ?_⟩
  · exact hpreparation.map fun _ _ => StepKind.single.inj
  · intro h
    obtain ⟨i, -, hi⟩ := List.mem_map.mp h
    cases hi
  · exact List.nodup_range.map (item_injective .trace)
  · intro x hx y hy
    obtain ⟨name, hname, rfl⟩ := List.mem_map.mp hx
    rcases List.mem_cons.mp hy with rfl | hy
    · intro h
      exact hruntime (StepKind.single.inj h ▸ hname)
    · obtain ⟨i, -, rfl⟩ := List.mem_map.mp hy
      exact StepKind.noConfusion

theorem nodup_completion : attempt.completion.Nodup := by
  refine List.nodup_append.mpr ⟨?_, ?_, ?_⟩
  · exact (List.nodup_range.filter _).map (item_injective .mcpCall)
  · exact List.nodup_range.map (item_injective .artifactSave)
  · intro x hx y hy h
    obtain ⟨i, -, rfl⟩ := List.mem_map.mp hx
    obtain ⟨j, -, rfl⟩ := List.mem_map.mp hy
    cases h

theorem output_notMem_untilTrace : .single .outputSchemaValidate ∉ attempt.untilTrace := by
  intro h
  rcases mem_untilTrace.mp h with ⟨name, hname, heq⟩ | heq | ⟨i, -, heq⟩
  · obtain rfl := StepKind.single.inj heq
    revert hname
    unfold preparation
    cases attempt.sourceRecall <;> decide
  · cases heq
  · cases heq

theorem disjoint_completion {kind' : StepKind} (h : kind ∈ attempt.untilTrace)
    (h' : kind' ∈ attempt.completion) : kind ≠ kind' := by
  rcases mem_untilTrace.mp h with ⟨name, -, rfl⟩ | rfl | ⟨i, -, rfl⟩
  all_goals
    rcases mem_completion.mp h' with ⟨j, -, rfl⟩ | ⟨j, -, rfl⟩
    all_goals
      intro heq
      cases heq

theorem nodup_kinds : attempt.kinds.Nodup := by
  have houtput : .single .outputSchemaValidate ∉ attempt.completion := by
    intro h
    rcases mem_completion.mp h with ⟨i, -, heq⟩ | ⟨i, -, heq⟩
    · cases heq
    · cases heq
  refine List.nodup_append.mpr
    ⟨nodup_untilTrace, List.nodup_cons.mpr ⟨houtput, nodup_completion⟩, ?_⟩
  rintro x hx y hy rfl
  rcases List.mem_cons.mp hy with rfl | hy
  · exact output_notMem_untilTrace hx
  · exact disjoint_completion hx hy rfl

theorem mem_steps {step : ExecutionStep} {number : Nat} : step ∈ attempt.steps number ↔
    step.runtimeType = attempt.runtimeType ∧ step.attempt = number ∧
      step.kind ∈ attempt.recordedKinds := by
  constructor
  · intro h
    obtain ⟨kind, hkind, rfl⟩ := List.mem_map.mp h
    exact ⟨rfl, rfl, hkind⟩
  · rintro ⟨hruntime, rfl, hkind⟩
    exact List.mem_map.mpr ⟨step.kind, hkind, by rw [← hruntime]⟩

end Attempt

theorem mem_records {step : ExecutionStep} {number : Nat} {attempts : List Attempt} :
    step ∈ records number attempts ↔
      ∃ (i : Nat) (attempt : Attempt),
        attempts[i]? = some attempt ∧ step ∈ attempt.steps (number + i) := by
  induction attempts generalizing number with
  | nil =>
      constructor
      · intro h
        cases h
      · rintro ⟨i, attempt, h, -⟩
        cases h
  | cons first rest ih =>
      rw [records, List.mem_append, ih]
      constructor
      · rintro (h | ⟨i, attempt, hattempt, h⟩)
        · exact ⟨0, first, rfl, h⟩
        · exact ⟨i + 1, attempt, hattempt, by rwa [Nat.add_right_comm] at h⟩
      · rintro ⟨i, attempt, hattempt, h⟩
        cases i with
        | zero =>
            obtain rfl := Option.some.inj hattempt
            exact .inl h
        | succ i => exact .inr ⟨i, attempt, hattempt, by rwa [Nat.add_right_comm]⟩

/-- The steps are under keys of their own. -/
theorem unique_records (number : Nat) (attempts : List Attempt) :
    Table.Unique ExecutionStep.stepKey (records number attempts) := by
  induction attempts generalizing number with
  | nil => exact List.nodup_nil
  | cons first rest ih =>
      rw [Table.Unique, records, List.map_append]
      refine List.nodup_append.mpr ⟨?_, ih _, ?_⟩
      · rw [Attempt.steps, List.map_map]
        have hnodup : first.recordedKinds.Nodup :=
          Attempt.nodup_kinds.sublist (List.take_sublist _ _)
        exact hnodup.map fun x y h => (ExecutionStep.stepKey_inj h).2
      · intro x hx y hy h
        obtain ⟨s, hs, rfl⟩ := List.mem_map.mp hx
        obtain ⟨s', hs', rfl⟩ := List.mem_map.mp hy
        obtain ⟨i, attempt, -, hs'⟩ := mem_records.mp hs'
        have hs := (Attempt.mem_steps.mp hs).2.1
        have hs' := (Attempt.mem_steps.mp hs').2.1
        have := (ExecutionStep.stepKey_inj h).1
        omega

/-- No step of an execution is written over. -/
theorem executionSteps_eq (attempts : List Attempt) :
    executionSteps attempts = records 0 attempts := by
  have hunique : Table.Unique ExecutionStep.stepKey ([] ++ records 0 attempts) :=
    unique_records 0 attempts
  exact Table.foldl_upsert hunique

theorem mem_executionSteps {step : ExecutionStep} {attempts : List Attempt} :
    step ∈ executionSteps attempts ↔
      ∃ attempt, attempts[step.attempt]? = some attempt ∧ step ∈ attempt.steps step.attempt := by
  rw [executionSteps_eq, mem_records]
  constructor
  · rintro ⟨i, attempt, hattempt, h⟩
    have hi := (Attempt.mem_steps.mp h).2.1
    rw [Nat.zero_add] at h hi
    rw [hi]
    exact ⟨attempt, hattempt, h⟩
  · rintro ⟨attempt, hattempt, h⟩
    exact ⟨step.attempt, attempt, hattempt, by rwa [Nat.zero_add]⟩

theorem nodup_executionSteps (attempts : List Attempt) : (executionSteps attempts).Nodup := by
  rw [executionSteps_eq]
  exact List.Nodup.of_map _ (unique_records 0 attempts)

end HermesPlatform.Executions
