/-
  HermesPlatform.Executions.Timeline

  The order in which the steps of an execution are shown: by their sequence numbers.

  The numbers of an attempt are in bands: the preparation, the Runtime, the trace, the output
  validation, the artifacts.  The trace and the tool calls are numbered from the same base by
  their indices, which the width of the band does not bound.
-/

import HermesPlatform.Executions.Steps
import HermesPlatform.Lib.SortedBy

namespace HermesPlatform.Executions

open SortedBy (Sorted)

/-- The preparation, the Runtime, its trace with the tool calls, the output validation, the
    artifacts. -/
def StepKind.phase : StepKind → Nat
  | .single .runtime => 1
  | .single .outputSchemaValidate => 3
  | .single _ => 0
  | .item .trace _ => 2
  | .item .mcpCall _ => 2
  | .item .artifactSave _ => 4

/-- `earlier` may be shown before `later`. -/
def InOrder (earlier later : ExecutionStep) : Prop :=
  earlier.attempt ≠ later.attempt + 1 ∧
    (earlier.attempt = later.attempt →
      earlier.kind.phase ≤ later.kind.phase ∧ earlier.sequence ≠ later.sequence)

theorem single_offset_inj {a b : Single} (h : a.offset = b.offset) : a = b := by
  cases a <;> cases b <;> first | rfl | exact absurd h (by decide)

namespace Attempt

/-- The trace ends below the number of the output validation, and the numbers of the tool
    calls are between the two. -/
def Fits (attempt : Attempt) : Prop :=
  (.single .outputSchemaValidate ∈ attempt.recordedKinds → attempt.traceLength ≤ 90) ∧
    ∀ i, .item .mcpCall i ∈ attempt.recordedKinds → attempt.traceLength ≤ i ∧ i < 90

/-- The numbers of the artifacts stay below those of the next attempt, if it records
    anything. -/
def FitsBefore (attempt next : Attempt) : Prop :=
  next.recordedKinds ≠ [] → ∀ i, .item .artifactSave i ∈ attempt.recordedKinds → i < 100

end Attempt

def FitInBands (attempts : List Attempt) : Prop :=
  ∀ (i : Nat) (attempt : Attempt), attempts[i]? = some attempt →
    attempt.Fits ∧ ∀ next, attempts[i + 1]? = some next → attempt.FitsBefore next

namespace Attempt

variable {attempt next : Attempt} {kind kind' : StepKind}

/-! ## What is recorded before a step -/

theorem recorded_untilTrace
    (h : .single .outputSchemaValidate ∈ attempt.recordedKinds)
    (hkind : kind ∈ attempt.untilTrace) : kind ∈ attempt.recordedKinds := by
  rw [recordedKinds, kinds, List.take_append] at h ⊢
  rcases List.mem_append.mp h with h | h
  · exact absurd (List.mem_of_mem_take h) output_notMem_untilTrace
  · -- The validation is recorded, so everything before it is.
    have hlength : attempt.untilTrace.length ≤ attempt.recorded := by
      by_contra hlt
      rw [Nat.sub_eq_zero_of_le (Nat.le_of_not_le hlt), List.take_zero] at h
      cases h
    rw [List.take_of_length_le hlength]
    exact List.mem_append_left _ hkind

theorem recorded_output (h : kind ∈ attempt.recordedKinds) (hkind : kind ∈ attempt.completion) :
    .single .outputSchemaValidate ∈ attempt.recordedKinds := by
  rw [recordedKinds, kinds, List.take_append] at h ⊢
  refine List.mem_append_right _ ?_
  rcases List.mem_append.mp h with h | h
  · exact absurd rfl (disjoint_completion (List.mem_of_mem_take h) hkind)
  · cases hrest : attempt.recorded - attempt.untilTrace.length with
    | zero =>
        rw [hrest, List.take_zero] at h
        cases h
    | succ n =>
        rw [List.take_succ_cons]
        exact List.mem_cons_self

theorem recorded_request (h : attempt.recordedKinds ≠ []) :
    .single .requestReceived ∈ attempt.recordedKinds := by
  unfold recordedKinds at h ⊢
  cases hrecorded : attempt.recorded with
  | zero =>
      rw [hrecorded, List.take_zero] at h
      exact absurd rfl h
  | succ n => exact List.mem_cons_self

theorem recorded_split (h : kind ∈ attempt.recordedKinds) :
    kind ∈ attempt.untilTrace ∨ kind = .single .outputSchemaValidate ∨
      kind ∈ attempt.completion := by
  rcases List.mem_append.mp (List.mem_of_mem_take h) with h | h
  · exact .inl h
  · exact .inr (List.mem_cons.mp h)

/-- What a recorded step is. -/
theorem recorded_cases (h : kind ∈ attempt.recordedKinds) :
    (∃ name, kind = .single name) ∨ (∃ i < attempt.traceLength, kind = .item .trace i) ∨
      (∃ i, kind = .item .mcpCall i) ∨ ∃ i, kind = .item .artifactSave i := by
  rcases recorded_split h with h | rfl | h
  · rcases mem_untilTrace.mp h with ⟨name, -, rfl⟩ | rfl | ⟨i, hi, rfl⟩
    · exact .inl ⟨name, rfl⟩
    · exact .inl ⟨.runtime, rfl⟩
    · exact .inr (.inl ⟨i, hi, rfl⟩)
  · exact .inl ⟨.outputSchemaValidate, rfl⟩
  · rcases mem_completion.mp h with ⟨i, -, rfl⟩ | ⟨i, -, rfl⟩
    · exact .inr (.inr (.inl ⟨i, rfl⟩))
    · exact .inr (.inr (.inr ⟨i, rfl⟩))

/-! ## Bands -/

/-- Every phase has a band, of which only the lower end is sure. -/
theorem offset_bounds (kind : StepKind) :
    (kind.phase = 0 ∧ kind.offset ≤ 600) ∨ (kind.phase = 1 ∧ kind.offset = 700) ∨
      (kind.phase = 2 ∧ 710 ≤ kind.offset) ∨ (kind.phase = 3 ∧ kind.offset = 800) ∨
        (kind.phase = 4 ∧ 900 ≤ kind.offset) := by
  cases kind with
  | single name => cases name <;> decide
  | item name i =>
      have hoffset : name.offset ≤ (StepKind.item name i).offset := Nat.le_add_right _ _
      cases name with
      | trace => exact .inr (.inr (.inl ⟨rfl, hoffset⟩))
      | mcpCall => exact .inr (.inr (.inl ⟨rfl, hoffset⟩))
      | artifactSave => exact .inr (.inr (.inr (.inr ⟨rfl, hoffset⟩)))

theorem phase_le_of_untilTrace (h : kind ∈ attempt.untilTrace) : kind.phase ≤ 2 := by
  rcases mem_untilTrace.mp h with ⟨name, hname, rfl⟩ | rfl | ⟨i, -, rfl⟩
  · have hne : name ≠ .outputSchemaValidate := by
      rintro rfl
      exact output_notMem_untilTrace h
    cases name with
    | outputSchemaValidate => exact absurd rfl hne
    | _ => decide
  · decide
  · exact Nat.le_refl 2

theorem output_of_phase (h : kind ∈ attempt.recordedKinds) (hphase : 3 ≤ kind.phase) :
    .single .outputSchemaValidate ∈ attempt.recordedKinds := by
  rcases recorded_split h with hkind | rfl | hkind
  · have := phase_le_of_untilTrace hkind
    omega
  · exact h
  · exact recorded_output h hkind

theorem output_of_mcpCall {i : Nat} (h : .item .mcpCall i ∈ attempt.recordedKinds) :
    .single .outputSchemaValidate ∈ attempt.recordedKinds := by
  rcases recorded_split h with hkind | heq | hkind
  · rcases mem_untilTrace.mp hkind with ⟨name, -, heq⟩ | heq | ⟨j, -, heq⟩
    all_goals cases heq
  · cases heq
  · exact recorded_output h hkind

namespace Fits

variable (hfits : attempt.Fits)

include hfits

theorem offset_lt_output (h : kind ∈ attempt.recordedKinds) (hphase : kind.phase ≤ 2)
    (houtput : .single .outputSchemaValidate ∈ attempt.recordedKinds) : kind.offset < 800 := by
  have htrace := hfits.1 houtput
  rcases recorded_cases h with ⟨name, rfl⟩ | ⟨i, hi, rfl⟩ | ⟨i, rfl⟩ | ⟨i, rfl⟩
  · cases name with
    | outputSchemaValidate => exact absurd hphase (by decide)
    | _ => decide
  · change 710 + i < 800
    omega
  · have := (hfits.2 i h).2
    change 710 + i < 800
    omega
  · change 4 ≤ 2 at hphase
    omega

/-- Steps of different phases. -/
theorem offset_lt (h : kind ∈ attempt.recordedKinds) (h' : kind' ∈ attempt.recordedKinds)
    (hphase : kind.phase < kind'.phase) : kind.offset < kind'.offset := by
  have hlt : 3 ≤ kind'.phase → kind.phase ≤ 2 → kind.offset < 800 := fun h3 h2 =>
    hfits.offset_lt_output h h2 (output_of_phase h' h3)
  have hbounds := offset_bounds kind
  have hbounds' := offset_bounds kind'
  -- Only the band of the trace is open above: `hlt` closes it.
  omega

/-- Different steps of one phase. -/
theorem offset_ne (h : kind ∈ attempt.recordedKinds) (h' : kind' ∈ attempt.recordedKinds)
    (hphase : kind.phase = kind'.phase) (hne : kind ≠ kind') : kind.offset ≠ kind'.offset := by
  have hitem : ∀ (name : Item) (i j : Nat), StepKind.item name i ≠ .item name j →
      (StepKind.item name i).offset ≠ (StepKind.item name j).offset := by
    rintro name i j hne hoffset
    exact hne (Nat.add_left_cancel hoffset ▸ rfl)
  rcases recorded_cases h with ⟨name, rfl⟩ | ⟨i, hi, rfl⟩ | ⟨i, rfl⟩ | ⟨i, rfl⟩
  · rcases recorded_cases h' with ⟨name', rfl⟩ | ⟨j, -, rfl⟩ | ⟨j, rfl⟩ | ⟨j, rfl⟩
    · intro hoffset
      exact hne (congrArg StepKind.single (single_offset_inj hoffset))
    all_goals cases name <;> cases hphase
  · rcases recorded_cases h' with ⟨name', rfl⟩ | ⟨j, -, rfl⟩ | ⟨j, rfl⟩ | ⟨j, rfl⟩
    · cases name' <;> cases hphase
    · exact hitem .trace i j hne
    · -- The calls begin where the trace ends.
      have := (hfits.2 j h').1
      change 710 + i ≠ 710 + j
      omega
    · cases hphase
  · rcases recorded_cases h' with ⟨name', rfl⟩ | ⟨j, hj, rfl⟩ | ⟨j, rfl⟩ | ⟨j, rfl⟩
    · cases name' <;> cases hphase
    · have := (hfits.2 i h).1
      change 710 + i ≠ 710 + j
      omega
    · exact hitem .mcpCall i j hne
    · cases hphase
  · rcases recorded_cases h' with ⟨name', rfl⟩ | ⟨j, -, rfl⟩ | ⟨j, rfl⟩ | ⟨j, rfl⟩
    · cases name' <;> cases hphase
    · cases hphase
    · cases hphase
    · exact hitem .artifactSave i j hne

/-- Steps whose numbers allow an order. -/
theorem inOrder (h : kind ∈ attempt.recordedKinds) (h' : kind' ∈ attempt.recordedKinds)
    (hne : kind ≠ kind') (hle : kind.offset ≤ kind'.offset) :
    kind.phase ≤ kind'.phase ∧ kind.offset ≠ kind'.offset := by
  rcases Nat.lt_trichotomy kind.phase kind'.phase with hphase | hphase | hphase
  · exact ⟨Nat.le_of_lt hphase, Nat.ne_of_lt (hfits.offset_lt h h' hphase)⟩
  · exact ⟨Nat.le_of_eq hphase, hfits.offset_ne h h' hphase hne⟩
  · have := hfits.offset_lt h' h hphase
    omega

/-- The steps of an attempt stay in its thousand, if the artifacts do. -/
theorem offset_lt_thousand (h : kind ∈ attempt.recordedKinds)
    (hartifacts : ∀ i, .item .artifactSave i ∈ attempt.recordedKinds → i < 100) :
    kind.offset < 1000 := by
  rcases recorded_cases h with ⟨name, rfl⟩ | ⟨i, hi, rfl⟩ | ⟨i, rfl⟩ | ⟨i, rfl⟩
  · cases name <;> decide
  · have : attempt.traceLength ≤ 100 := Nat.min_le_right _ _
    change 710 + i < 1000
    omega
  · have := (hfits.2 i h).2
    change 710 + i < 1000
    omega
  · have := hartifacts i h
    change 900 + i < 1000
    omega

end Fits

theorem fits_of_inOrder
    (h : ∀ kind ∈ attempt.recordedKinds, ∀ kind' ∈ attempt.recordedKinds, kind ≠ kind' →
      kind.offset ≤ kind'.offset → kind.phase ≤ kind'.phase ∧ kind.offset ≠ kind'.offset) :
    attempt.Fits := by
  have htrace : ∀ i, i < attempt.traceLength →
      .single .outputSchemaValidate ∈ attempt.recordedKinds →
        .item .trace i ∈ attempt.recordedKinds := by
    intro i hi houtput
    exact recorded_untilTrace houtput (mem_untilTrace.mpr (.inr (.inr ⟨i, hi, rfl⟩)))
  constructor
  · intro houtput
    by_contra hlt
    -- the ninety-first event has the number of the validation
    have hevent := htrace 90 (Nat.lt_of_not_le hlt) houtput
    exact (h _ hevent _ houtput (by decide) (by decide)).2 rfl
  · intro i hcall
    have houtput := output_of_mcpCall hcall
    constructor
    · by_contra hlt
      have hevent := htrace i (Nat.lt_of_not_le hlt) houtput
      have hne : StepKind.item .trace i ≠ .item .mcpCall i := by
        intro heq
        cases heq
      exact (h _ hevent _ hcall hne (Nat.le_refl _)).2 rfl
    · by_contra hge
      -- a call from the ninetieth on may be shown behind the validation
      have hle : 800 ≤ 710 + i := by omega
      have hphase := (h _ houtput _ hcall StepKind.noConfusion hle).1
      exact absurd hphase (Nat.not_le_of_lt (Nat.lt_succ_self 2))

end Attempt

/-- **The steps of an execution are shown in time order, exactly while the bands are wide
    enough.** -/
theorem steps_in_order_iff (attempts : List Attempt) :
    (∀ shown, Sorted ExecutionStep.sequence (executionSteps attempts) shown →
      shown.Pairwise InOrder) ↔ FitInBands attempts := by
  rw [SortedBy.forall_sorted_iff (nodup_executionSteps attempts)]
  have hmem : ∀ {i : Nat} {attempt : Attempt} {kind : StepKind}, attempts[i]? = some attempt →
      kind ∈ attempt.recordedKinds →
        ⟨attempt.runtimeType, i, kind⟩ ∈ executionSteps attempts := by
    intro i attempt kind hattempt hkind
    exact mem_executionSteps.mpr ⟨attempt, hattempt, Attempt.mem_steps.mpr ⟨rfl, rfl, hkind⟩⟩
  constructor
  · intro h i attempt hattempt
    constructor
    · refine Attempt.fits_of_inOrder fun kind hkind kind' hkind' hne hle => ?_
      have hstep := h _ (hmem hattempt hkind) _ (hmem hattempt hkind')
        (fun heq => hne (congrArg ExecutionStep.kind heq)) (Nat.add_le_add_left hle _)
      obtain ⟨hphase, hsequence⟩ := hstep.2 rfl
      exact ⟨hphase, fun heq => hsequence (congrArg (i * 1000 + ·) heq)⟩
    · intro next hnext hrecorded j hartifact
      by_contra hge
      -- the next attempt begins below the artifact
      have hrequest := Attempt.recorded_request hrecorded
      have hle : (i + 1) * 1000 + 0 ≤ i * 1000 + (900 + j) := by omega
      have hstep := h _ (hmem hnext hrequest) _ (hmem hattempt hartifact)
        (fun heq => absurd (congrArg ExecutionStep.attempt heq) (Nat.succ_ne_self i)) hle
      exact hstep.1 rfl
  · intro hfits a ha b hb hne hle
    obtain ⟨first, hfirst, ha⟩ := mem_executionSteps.mp ha
    obtain ⟨second, hsecond, hb⟩ := mem_executionSteps.mp hb
    obtain ⟨haruntime, -, ha⟩ := Attempt.mem_steps.mp ha
    obtain ⟨hbruntime, -, hb⟩ := Attempt.mem_steps.mp hb
    have hsequence : a.attempt * 1000 + a.kind.offset ≤ b.attempt * 1000 + b.kind.offset := hle
    constructor
    · intro hattempt
      rw [hattempt] at hfirst
      obtain ⟨hsecondFits, hbefore⟩ := hfits _ _ hsecond
      have hlt := hsecondFits.offset_lt_thousand hb
        (hbefore first hfirst (List.ne_nil_of_mem ha))
      omega
    · intro hattempt
      rw [hattempt, hsecond] at hfirst
      obtain rfl := Option.some.inj hfirst
      have hkind : a.kind ≠ b.kind := by
        intro hkind
        obtain ⟨runtime, number, kind⟩ := a
        obtain ⟨runtime', number', kind'⟩ := b
        dsimp only at haruntime hbruntime hattempt hkind
        rw [haruntime, hbruntime, hattempt, hkind] at hne
        exact hne rfl
      obtain ⟨hphase, hoffset⟩ := (hfits _ _ hsecond).1.inOrder ha hb hkind (by omega)
      refine ⟨hphase, fun heq => hoffset ?_⟩
      have heq : a.attempt * 1000 + a.kind.offset = b.attempt * 1000 + b.kind.offset := heq
      omega

def longTrace : Attempt := ⟨.hermes, false, 91, [], false, 0, 101⟩

/-- The ninety-first event of a trace has the number of the output validation. -/
theorem long_trace_shares_number :
    ¬ ∀ shown, Sorted ExecutionStep.sequence (executionSteps [longTrace]) shown →
      shown.Pairwise InOrder := by
  intro h
  rw [SortedBy.forall_sorted_iff (nodup_executionSteps _)] at h
  have hmem : ∀ kind ∈ longTrace.recordedKinds,
      ⟨.hermes, 0, kind⟩ ∈ executionSteps [longTrace] := by
    intro kind hkind
    exact mem_executionSteps.mpr ⟨longTrace, rfl, Attempt.mem_steps.mpr ⟨rfl, rfl, hkind⟩⟩
  have hevent := hmem (.item .trace 90) (by decide)
  have houtput := hmem (.single .outputSchemaValidate) (by decide)
  have hstep := h _ hevent _ houtput (by decide) (Nat.le_refl 800)
  exact (hstep.2 rfl).2 rfl

end HermesPlatform.Executions
