/-
  HermesPlatform.Gateway.Admission

  The quotas hold over all runs of the admission, and its locks cannot deadlock.

  Everything a quota bounds is a `Counter`.  A caller that has passed a half of
  the check has slack on all counters under that key, and the slack stays while
  it holds the lock: only an admission makes a counter grow, and an admission
  that a counter counts needs the lock of the counter.
-/

import HermesPlatform.Gateway.Quota
import HermesPlatform.Lib.Parties

namespace HermesPlatform
namespace Gateway

open LockOrder Parties Transition

/-! ## Counters -/

/-- What a quota bounds.  The windows are those of `created_at` values, with
    both ends. -/
inductive Counter where
  | pending (bindingId : String)
  | perExecution (bindingId executionId : String)
  | perMinute (bindingId : String) (start : Int)
  | instancePending (revisionId : String)
  | instancePerMinute (revisionId : String) (start : Int)

namespace Counter

def counts : Counter → Invocation → Bool
  | pending b, v => ofBinding b v && decide (v.status = .pending)
  | perExecution b e, v => ofBinding b v && v.admitted && decide (v.executionId = e)
  | perMinute b start, v =>
      ofBinding b v && v.admitted && decide (start ≤ v.createdAt ∧ v.createdAt ≤ start + minute)
  | instancePending r, v => ofRevision r v && decide (v.status = .pending)
  | instancePerMinute r start, v =>
      ofRevision r v && v.admitted && decide (start ≤ v.createdAt ∧ v.createdAt ≤ start + minute)

def count (κ : Counter) (rows : List Invocation) : Nat := rows.countP κ.counts

def limit (policies : Policies) : Counter → Int
  | pending b => orDefault (policies.binding b).maxConcurrency 2
  | perExecution b _ => orDefault (policies.binding b).callsPerExecution 20
  | perMinute b _ => orDefault (policies.binding b).callsPerMinute 60
  | instancePending r => orDefault (policies.revision r).maxConcurrency 20
  | instancePerMinute r _ => orDefault (policies.revision r).callsPerMinute 600

/-- The lock under which the counter grows. -/
def key : Counter → String
  | pending b | perExecution b _ | perMinute b _ => bindingKey b
  | instancePending r | instancePerMinute r _ => revisionKey r

/-- A new row is counted under one of the two locks of its caller. -/
theorem key_of_counts {κ : Counter} {call : Call} {id : Nat} {now : Int}
    (h : κ.counts (call.row id now) = true) : κ.key ∈ call.lockKeys := by
  rw [mem_lockKeys]
  cases κ with
  | pending b | perExecution b e | perMinute b start =>
      left
      simp only [counts, ofBinding, Call.row, Bool.and_eq_true, decide_eq_true_eq,
        Option.some.injEq] at h
      simp [key, h]
  | instancePending r | instancePerMinute r start =>
      right
      simp only [counts, ofRevision, Call.row, Bool.and_eq_true, decide_eq_true_eq,
        Option.some.injEq] at h
      simp [key, h]

theorem count_cons_le (κ : Counter) (v : Invocation) (rows : List Invocation) :
    κ.count (v :: rows) ≤ κ.count rows + 1 := by
  rw [count, List.countP_cons]
  split <;> simp [count]

theorem count_cons_of_not {κ : Counter} {v : Invocation} (rows : List Invocation)
    (h : κ.counts v = false) : κ.count (v :: rows) = κ.count rows := by
  rw [count, List.countP_cons, if_neg (by simp [h])]
  rfl

/-- An ended row is counted where it was counted before, if at all. -/
theorem counts_ended {κ : Counter} {v : Invocation} {status : InvocationStatus}
    (hstatus : status ≠ .pending) (h : κ.counts { v with status } = true) : κ.counts v = true := by
  cases κ with
  | pending b | instancePending b => simp [counts, hstatus] at h
  | perExecution b e | perMinute b start | instancePerMinute b start => exact h

theorem count_setStatus_le (κ : Counter) (id : Nat) {status : InvocationStatus}
    (hstatus : status ≠ .pending) (rows : List Invocation) :
    κ.count (setStatus id status rows) ≤ κ.count rows := by
  rw [count, setStatus, List.countP_map]
  refine List.countP_mono_left fun v _ h => ?_
  simp only [Function.comp_apply] at h
  split at h
  · exact counts_ended hstatus h
  · exact h

theorem count_finishRow_le (κ : Counter) (id : Nat) (succeeded : Bool) (rows : List Invocation) :
    κ.count (finishRow id succeeded rows) ≤ κ.count rows :=
  κ.count_setStatus_le id (by cases succeeded <;> simp) rows

/-- The audit of a failure is never counted. -/
theorem count_auditFailure_le (κ : Counter) (value : Nat) (executionId : String)
    (bindingId revisionId : Option String) (denied : Bool) (now : Int) (rows : List Invocation) :
    κ.count (auditFailure value executionId bindingId revisionId denied now rows) ≤
      κ.count rows := by
  have hstatus : (if denied then InvocationStatus.denied else .failed) ≠ .pending := by
    cases denied <;> simp
  simp only [auditFailure]
  split
  · exact κ.count_setStatus_le value hstatus rows
  · refine le_of_eq (count_cons_of_not rows ?_)
    cases κ <;> simp [counts, hstatus]

end Counter

/-! ## What a check gives -/

/-- All counters under the key that would count the row have room for it. -/
def Slack (policies : Policies) (rows : List Invocation) (row : Invocation) (key : String) : Prop :=
  ∀ κ : Counter, κ.key = key → κ.counts row = true → (κ.count rows : Int) < κ.limit policies

/-- A window around `now` lies within the rows that the check counts. -/
theorem counted_since {start now created : Int} (hnow : now ≤ start + minute)
    (h : start ≤ created) : created ≥ now - minute := by omega

/-- Rows that a count of the check covers are fewer than its limit. -/
theorem count_lt {κ : Counter} {rows : List Invocation} {of p : Invocation → Bool} {limit : Int}
    (hcovers : ∀ v, κ.counts v = true → p v = true ∧ of v = true)
    (hquota : ((rows.filter of).countP p : Int) < limit) : (κ.count rows : Int) < limit := by
  rw [List.countP_filter] at hquota
  have hle : κ.count rows ≤ rows.countP fun v => p v && of v :=
    List.countP_mono_left fun v _ h => by simp [hcovers v h]
  omega

theorem slack_of_binding {policies : Policies} {rows : List Invocation} {call : Call} {id : Nat}
    {now : Int} (h : bindingExceeded policies rows call now = false) :
    Slack policies rows (call.row id now) (bindingKey call.bindingId) := by
  simp only [bindingExceeded, Bool.or_eq_false_iff, decide_eq_false_iff_not, not_le, ge_iff_le] at h
  obtain ⟨⟨hexecution, hminute⟩, hactive⟩ := h
  intro κ hkey hrow
  cases κ with
  | pending b =>
      simp only [Counter.counts, ofBinding, Bool.and_eq_true, decide_eq_true_eq] at hrow
      obtain rfl := Option.some.inj hrow.1
      refine count_lt (fun v hv => ?_) hactive
      simpa [Counter.counts, and_comm] using hv
  | perExecution b e =>
      simp only [Counter.counts, ofBinding, Bool.and_eq_true, decide_eq_true_eq] at hrow
      obtain ⟨⟨hof, -⟩, hexec⟩ := hrow
      obtain rfl := Option.some.inj hof
      refine count_lt (fun v hv => ?_) hexecution
      simp only [Counter.counts, Bool.and_eq_true, decide_eq_true_eq] at hv
      exact ⟨decide_eq_true (hv.2.trans hexec.symm), hv.1.1⟩
  | perMinute b start =>
      simp only [Counter.counts, ofBinding, Bool.and_eq_true, decide_eq_true_eq] at hrow
      obtain ⟨⟨hof, -⟩, -, hend⟩ := hrow
      obtain rfl := Option.some.inj hof
      refine count_lt (fun v hv => ?_) hminute
      simp only [Counter.counts, Bool.and_eq_true, decide_eq_true_eq] at hv
      exact ⟨decide_eq_true (counted_since hend hv.2.1), hv.1.1⟩
  | instancePending r | instancePerMinute r start =>
      exact absurd hkey.symm (bindingKey_ne_revisionKey _ _)

theorem slack_of_instance {policies : Policies} {rows : List Invocation} {call : Call} {id : Nat}
    {now : Int} (h : instanceExceeded policies rows call now = false) :
    Slack policies rows (call.row id now) (revisionKey call.revisionId) := by
  simp only [instanceExceeded, Bool.or_eq_false_iff, decide_eq_false_iff_not, not_le, ge_iff_le] at h
  obtain ⟨hminute, hactive⟩ := h
  intro κ hkey hrow
  cases κ with
  | pending b | perExecution b e | perMinute b start =>
      exact absurd hkey (bindingKey_ne_revisionKey _ _)
  | instancePending r =>
      simp only [Counter.counts, ofRevision, Bool.and_eq_true, decide_eq_true_eq] at hrow
      obtain rfl := Option.some.inj hrow.1
      refine count_lt (fun v hv => ?_) hactive
      simpa [Counter.counts, and_comm] using hv
  | instancePerMinute r start =>
      simp only [Counter.counts, ofRevision, Bool.and_eq_true, decide_eq_true_eq] at hrow
      obtain ⟨⟨hof, -⟩, -, hend⟩ := hrow
      obtain rfl := Option.some.inj hof
      refine count_lt (fun v hv => ?_) hminute
      simp only [Counter.counts, Bool.and_eq_true, decide_eq_true_eq] at hv
      exact ⟨decide_eq_true (counted_since hend hv.2.1), hv.1.1⟩

/-! ## Moves -/

/-- All a move can do. -/
inductive MoveCases (policies : Policies) (free : String → Bool) (rows : List Invocation)
    (c : Caller) : List Invocation → Phase → Prop where
  /-- The caller is in no transaction afterwards, and nothing is admitted. -/
  | ended {rows' : List Invocation} {phase : Phase} (hrows : ∀ κ : Counter, κ.count rows' ≤ κ.count rows)
      (hphase : ∀ id now locks stage, phase ≠ .transaction id now locks stage) :
      MoveCases policies free rows c rows' phase
  | begin (id : Nat) (now : Int) :
      MoveCases policies free rows c rows
        (.transaction id now (.start c.call.lockKeys (lockKeys_increasing c.call)) .locking)
  | lock {id : Nat} {now : Int} {locks : Acquisition String} {key : String} {rest : List String}
      (hphase : c.phase = .transaction id now locks .locking) (htodo : locks.todo = key :: rest)
      (hfree : free key = true) :
      MoveCases policies free rows c rows (.transaction id now locks.take .locking)
  | bindingChecked {id : Nat} {now : Int} {locks : Acquisition String}
      (hphase : c.phase = .transaction id now locks .locking) (htodo : locks.todo = [])
      (hquota : bindingExceeded policies rows c.call now = false) :
      MoveCases policies free rows c rows (.transaction id now locks .bindingChecked)
  | instanceChecked {id : Nat} {now : Int} {locks : Acquisition String}
      (hphase : c.phase = .transaction id now locks .bindingChecked)
      (hquota : instanceExceeded policies rows c.call now = false) :
      MoveCases policies free rows c rows (.transaction id now locks .instanceChecked)
  | insert {id : Nat} {now : Int} {locks : Acquisition String}
      (hphase : c.phase = .transaction id now locks .instanceChecked) :
      MoveCases policies free rows c (c.call.row id now :: rows) (.admitted id)

theorem move_cases {policies : Policies} {free : String → Bool} {rows rows' : List Invocation}
    {c : Caller} {m : Move} {phase : Phase}
    (h : c.move policies free rows m = some (rows', phase)) :
    MoveCases policies free rows c rows' phase := by
  unfold Caller.move at h
  split at h
  · cases h
    exact .ended (fun κ => le_rfl) (by simp)
  · cases h
    exact .begin _ _
  · rename_i hphase
    split at h
    · cases h
    · rename_i htodo
      split at h
      · rename_i hfree
        cases h
        exact .lock hphase htodo hfree
      · cases h
  · rename_i hphase
    split at h
    · cases h
    · rename_i htodo
      split at h
      · cases h
        exact .ended (fun κ => le_rfl) (by simp)
      · rename_i hquota
        cases h
        exact .bindingChecked hphase (not_not.mp htodo) (Bool.eq_false_of_not_eq_true hquota)
  · rename_i hphase
    split at h
    · cases h
      exact .ended (fun κ => le_rfl) (by simp)
    · rename_i hquota
      cases h
      exact .instanceChecked hphase (Bool.eq_false_of_not_eq_true hquota)
  · rename_i hphase
    split at h
    · cases h
    · cases h
      exact .insert hphase
  · cases h
    exact .ended (fun κ => le_rfl) (by simp)
  · cases h
    exact .ended (fun κ => κ.count_finishRow_le _ _ _) (by simp)
  · cases h
    exact .ended (fun κ => le_rfl) (by simp)
  · cases h
    exact .ended (fun κ => κ.count_auditFailure_le _ _ _ _ _ _ _) (by simp)
  · cases h
    exact .ended (fun κ => le_rfl) (by simp)
  · cases h

/-! ## The invariant -/

/-- What the stage of a transaction stands for. -/
structure StageOk (policies : Policies) (rows : List Invocation) (call : Call) (id : Nat)
    (now : Int) (locks : Acquisition String) (stage : Stage) : Prop where
  keys : locks.held ++ locks.todo = call.lockKeys
  locked : stage ≠ .locking → locks.todo = []
  binding : stage ≠ .locking →
    Slack policies rows (call.row id now) (bindingKey call.bindingId)
  revision : stage = .instanceChecked →
    Slack policies rows (call.row id now) (revisionKey call.revisionId)

/-- The invariant for one caller. -/
def CallerOk (policies : Policies) (rows : List Invocation) (c : Caller) : Prop :=
  ∀ id now locks stage, c.phase = .transaction id now locks stage →
    StageOk policies rows c.call id now locks stage

theorem StageOk.held {policies : Policies} {rows : List Invocation} {call : Call} {id : Nat}
    {now : Int} {locks : Acquisition String} {stage : Stage}
    (h : StageOk policies rows call id now locks stage) (hstage : stage ≠ .locking) :
    locks.held = call.lockKeys := by
  have hkeys := h.keys
  rwa [h.locked hstage, List.append_nil] at hkeys

/-- Slack is kept when the counters under the key do not grow. -/
theorem Slack.mono {policies : Policies} {rows rows' : List Invocation} {row : Invocation}
    {key : String} (h : Slack policies rows row key)
    (hle : ∀ κ : Counter, κ.key = key → κ.count rows' ≤ κ.count rows) :
    Slack policies rows' row key := by
  intro κ hkey hrow
  have hlt := h κ hkey hrow
  have := hle κ hkey
  omega

/-- A caller keeps its invariant when the counters under the locks it holds do
    not grow. -/
theorem CallerOk.mono {policies : Policies} {rows rows' : List Invocation} {c : Caller}
    (h : CallerOk policies rows c)
    (hle : ∀ κ : Counter, κ.key ∈ c.held → κ.count rows' ≤ κ.count rows) :
    CallerOk policies rows' c := by
  intro id now locks stage hphase
  have hok := h id now locks stage hphase
  have hheld : c.held = locks.held := by simp only [Caller.held, hphase]
  refine ⟨hok.keys, hok.locked, fun hstage => ?_, fun hstage => ?_⟩
  · refine (hok.binding hstage).mono fun κ hkey => hle κ ?_
    rw [hheld, hok.held hstage, hkey]
    exact mem_lockKeys.mpr (.inl rfl)
  · refine (hok.revision hstage).mono fun κ hkey => hle κ ?_
    rw [hheld, hok.held (by simp [hstage]), hkey]
    exact mem_lockKeys.mpr (.inr rfl)

/-- A caller holds the lock. -/
def Caller.Holds (c : Caller) (key : String) : Prop := key ∈ c.held

/-- The caller at place `i` holds the lock. -/
def Admissions.Holds (s : Admissions) (i : Nat) (key : String) : Prop :=
  ∃ c, s.callers[i]? = some c ∧ c.Holds key

structure Safe (policies : Policies) (s : Admissions) : Prop where
  callers : ∀ c ∈ s.callers, CallerOk policies s.rows c
  exclusive : Exclusive Caller.Holds s.callers
  bounded : ∀ κ : Counter, (κ.count s.rows : Int) ≤ κ.limit policies

section Move

variable {policies : Policies} {free : String → Bool} {rows rows' : List Invocation} {c : Caller}
  {phase : Phase}

/-- Locks that are new were free. -/
theorem MoveCases.held (h : MoveCases policies free rows c rows' phase) {key : String}
    (hkey : key ∈ Caller.held ⟨c.call, phase⟩) : key ∈ c.held ∨ free key = true := by
  cases h with
  | ended hrows hphase =>
      unfold Caller.held at hkey
      split at hkey
      · rename_i heq
        exact absurd heq (hphase _ _ _ _)
      · cases hkey
  | begin id now => cases hkey
  | lock hphase htodo hfree =>
      simp only [Caller.held, (Acquisition.take_eq htodo).1, List.mem_append,
        List.mem_singleton] at hkey
      rcases hkey with hkey | rfl
      · left
        simpa only [Caller.held, hphase] using hkey
      · exact .inr hfree
  | bindingChecked hphase htodo hquota =>
      left
      simpa only [Caller.held, hphase] using hkey
  | instanceChecked hphase hquota =>
      left
      simpa only [Caller.held, hphase] using hkey
  | insert hphase => cases hkey

/-- A counter that grows is one whose lock the caller holds, and stays within
    its limit. -/
theorem MoveCases.grows (h : MoveCases policies free rows c rows' phase)
    (hok : CallerOk policies rows c) (κ : Counter) :
    κ.count rows' ≤ κ.count rows ∨
      κ.key ∈ c.held ∧ (κ.count rows' : Int) ≤ κ.limit policies := by
  cases h with
  | ended hrows hphase => exact .inl (hrows κ)
  | begin id now => exact .inl le_rfl
  | lock hphase htodo hfree => exact .inl le_rfl
  | bindingChecked hphase htodo hquota => exact .inl le_rfl
  | instanceChecked hphase hquota => exact .inl le_rfl
  | @insert id now locks hphase =>
      cases hcounts : κ.counts (c.call.row id now) with
      | false => exact .inl (Counter.count_cons_of_not rows hcounts).le
      | true =>
          right
          have hstage := hok _ _ _ _ hphase
          have hkey := Counter.key_of_counts hcounts
          refine ⟨?_, ?_⟩
          · simp only [Caller.held, hphase]
            rwa [hstage.held (by simp)]
          · -- Both halves of the check were passed, so there is room under either lock.
            have hroom : (κ.count rows : Int) < κ.limit policies := by
              rcases mem_lockKeys.mp hkey with hbinding | hrevision
              · exact hstage.binding (by simp) κ hbinding hcounts
              · exact hstage.revision rfl κ hrevision hcounts
            have hle := κ.count_cons_le (c.call.row id now) rows
            omega

/-- The caller that moves has its invariant afterwards. -/
theorem MoveCases.callerOk (h : MoveCases policies free rows c rows' phase)
    (hok : CallerOk policies rows c) : CallerOk policies rows' ⟨c.call, phase⟩ := by
  intro id' now' locks' stage' heq
  dsimp only at heq ⊢
  cases h with
  | ended hrows hphase => exact absurd heq (hphase _ _ _ _)
  | begin id now =>
      cases heq
      exact ⟨rfl, by simp, by simp, by simp⟩
  | lock hphase htodo hfree =>
      cases heq
      have hstage := hok _ _ _ _ hphase
      exact ⟨(Acquisition.take_keys _).trans hstage.keys, by simp, by simp, by simp⟩
  | bindingChecked hphase htodo hquota =>
      cases heq
      have hstage := hok _ _ _ _ hphase
      exact ⟨hstage.keys, fun _ => htodo, fun _ => slack_of_binding hquota, by simp⟩
  | instanceChecked hphase hquota =>
      cases heq
      have hstage := hok _ _ _ _ hphase
      exact ⟨hstage.keys, fun _ => hstage.locked (by simp), fun _ => hstage.binding (by simp),
        fun _ => slack_of_instance hquota⟩
  | insert hphase => cases heq

end Move

/-! ## Runs -/

theorem freeFor_of_free {s : Admissions} {i : Nat} {key : String} (hfree : s.free i key = true) :
    FreeFor Caller.Holds s.callers i key :=
  freeFor_of_all hfree fun c hc => by simpa [Caller.Holds] using hc

theorem safe_move {policies : Policies} {s : Admissions} {i : Nat} {c : Caller}
    {rows : List Invocation} {phase : Phase} (h : Safe policies s) (hget : s.callers[i]? = some c)
    (hcases : MoveCases policies (s.free i) s.rows c rows phase) :
    Safe policies ⟨rows, s.callers.set i ⟨c.call, phase⟩⟩ := by
  have hok := h.callers c (List.mem_of_getElem? hget)
  refine ⟨?_, ?_, ?_⟩
  · intro c' hmem
    obtain ⟨j, hget'⟩ := List.mem_iff_getElem?.mp hmem
    rcases getElem?_set_cases hget' with ⟨-, rfl⟩ | ⟨hne, hget'⟩
    · exact hcases.callerOk hok
    · -- A counter under a lock that the other caller holds does not grow.
      refine (h.callers c' (List.mem_of_getElem? hget')).mono fun κ hkey => ?_
      rcases hcases.grows hok κ with hle | ⟨hheld, -⟩
      · exact hle
      · exact absurd (h.exclusive i j c c' κ.key hget hget' hheld hkey) hne
  · refine h.exclusive.set hget fun key hkey => ?_
    rcases hcases.held hkey with hheld | hfree
    · exact .inl hheld
    · exact .inr (freeFor_of_free hfree)
  · intro κ
    rcases hcases.grows hok κ with hle | ⟨-, hlimit⟩
    · have := h.bounded κ
      show (κ.count rows : Int) ≤ _
      omega
    · exact hlimit

theorem safe_arrive {policies : Policies} {s : Admissions} (call : Call) (h : Safe policies s) :
    Safe policies { s with callers := s.callers ++ [⟨call, .resolving⟩] } := by
  have hnone : ∀ key, ¬ Caller.Holds ⟨call, .resolving⟩ key := fun key hkey => by cases hkey
  refine ⟨?_, h.exclusive.append hnone, h.bounded⟩
  intro c hmem
  rcases List.mem_append.mp hmem with hmem | hmem
  · exact h.callers c hmem
  · rw [List.mem_singleton] at hmem
    subst hmem
    intro id now locks stage heq
    cases heq

/-- All limits are positive. -/
def Policies.Positive (policies : Policies) : Prop := ∀ κ : Counter, 1 ≤ κ.limit policies

theorem safe_reachable {policies : Policies} (hpos : policies.Positive) {s : Admissions}
    (h : (system policies).Reachable System.anyStep s) : Safe policies s := by
  refine h.invariant (Safe policies) ?_ ?_
  · rintro s ⟨hrows, hcallers⟩
    refine ⟨by simp [hcallers], by rw [hcallers]; exact Exclusive.nil, ?_⟩
    · intro κ
      have := hpos κ
      rw [hrows]
      simp only [Counter.count, List.countP_nil]
      omega
  · intro s a t hsafe _ hstep
    cases a with
    | arrive call =>
        cases hstep
        exact safe_arrive call hsafe
    | move i m =>
        simp only [system, step, Option.bind_eq_some_iff, Option.map_eq_some_iff] at hstep
        obtain ⟨c, hget, ⟨rows, phase⟩, hmove, rfl⟩ := hstep
        exact safe_move hsafe hget (move_cases hmove)

/-! ## Waiting -/

/-- The advisory locks as the callers hold and wait for them. -/
def Admissions.locks (s : Admissions) : Locks Nat String where
  holds := s.Holds
  waits i key := ∃ c, s.callers[i]? = some c ∧ c.next? = some key

/-- Each caller waits for a key above those it holds. -/
theorem locks_increasing (s : Admissions) : s.locks.Increasing := by
  rintro i key key' ⟨c, hget, hnext⟩ ⟨c', hget', hkey⟩
  rw [hget, Option.some.injEq] at hget'
  subst hget'
  unfold Caller.next? at hnext
  split at hnext
  · rename_i id now locks stage hphase
    simp only [Caller.Holds, Caller.held, hphase] at hkey
    obtain ⟨rest, htodo⟩ := List.head?_eq_some_iff.mp hnext
    exact Acquisition.held_lt htodo hkey
  · cases hnext

/-- **Quota safety.** However the callers interleave, all counts that a quota
    bounds are within their limits, and no callers wait for each other's
    advisory locks in a cycle. -/
theorem quota_safe {policies : Policies} (hpos : policies.Positive) {s : Admissions}
    (h : (system policies).Reachable System.anyStep s) :
    (∀ κ : Counter, (κ.count s.rows : Int) ≤ κ.limit policies) ∧
      ∀ i, ¬ Relation.TransGen s.locks.WaitsFor i i :=
  ⟨(safe_reachable hpos h).bounded, Locks.no_cycle (locks_increasing s)⟩

/-- No policy sets a quota. -/
def defaultPolicies : Policies := ⟨fun _ => ⟨none, none, none⟩, fun _ => ⟨none, none, none⟩⟩

theorem defaultPolicies_positive : defaultPolicies.Positive := by
  intro κ
  cases κ <;> simp [Counter.limit, defaultPolicies, orDefault]

def someCall : Call := ⟨"execution", "binding", "revision"⟩

/-- A caller takes both locks and passes the check of its binding. -/
def arriveAndLock (i id : Nat) (now : Int) : List Action :=
  [.arrive someCall, .move i (.begin id now), .move i .lock, .move i .lock, .move i .check]

/-- Two calls are admitted and the third one is refused. -/
def fullGateway : Admissions where
  rows := [someCall.row 1 20, someCall.row 0 10]
  callers := [⟨someCall, .admitted 0⟩, ⟨someCall, .admitted 1⟩,
    ⟨someCall, .failed (some 2) (some "binding") (some "revision")⟩]

theorem quota_safe_full :
    (∀ κ : Counter, (κ.count fullGateway.rows : Int) ≤ κ.limit defaultPolicies) ∧
      ∀ i, ¬ Relation.TransGen fullGateway.locks.WaitsFor i i :=
  quota_safe defaultPolicies_positive ⟨⟨[], []⟩, ⟨rfl, rfl⟩, System.path_of_exec
    (arriveAndLock 0 0 10 ++ [.move 0 .check, .move 0 .insert] ++
      arriveAndLock 1 1 20 ++ [.move 1 .check, .move 1 .insert] ++ arriveAndLock 2 2 15) rfl⟩

end Gateway
end HermesPlatform
