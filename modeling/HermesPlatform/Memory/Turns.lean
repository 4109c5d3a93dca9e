/-
  HermesPlatform.Memory.Turns

  `AgentMemoryStore.append_turn`: the messages of a session are loaded, a turn is put at
  their end, and the last ones are stored.

  Any number of calls on one namespace interleave; each request to the provider is one step.
  The Redis provider looks for the list of an older version where it finds no value, and
  stores it under the new key; the list is empty for the other providers, which have none.
  The stored value does not expire meanwhile.
-/

import HermesPlatform.Lib.Parties
import HermesPlatform.Lib.Transition
import Mathlib.Algebra.Group.Nat.Even
import Mathlib.Data.List.DropRight
import Mathlib.Data.List.Nodup
import Mathlib.Data.String.Basic

namespace HermesPlatform
namespace Memory

open Parties Transition

/-! ## The store -/

inductive Role where
  | user
  | assistant
deriving DecidableEq, Repr

structure Message where
  role : Role
  content : String
deriving DecidableEq, Repr

/-- A JSON value under the key `messages`. -/
inductive Value where
  | messages (items : List Message)
  /-- Anything that is not a list. -/
  | other
deriving DecidableEq, Repr

structure MemorySettings where
  /-- `agent_memory_max_turns`. -/
  maxTurns : Nat
  maxMessageChars : Nat
  one_le : 1 ≤ maxTurns
deriving DecidableEq, Repr

/-- `self.max_messages`. -/
def MemorySettings.maxMessages (settings : MemorySettings) : Nat := settings.maxTurns * 2

/-- The arguments of a call. -/
structure Turn where
  userInput : String
  assistantOutput : String
deriving DecidableEq, Repr

/-- `text[:n]`. -/
def clip (n : Nat) (text : String) : String := String.ofList (text.toList.take n)

/-- What `append_turn` adds. -/
def Turn.messages (settings : MemorySettings) (turn : Turn) : List Message :=
  [⟨.user, clip settings.maxMessageChars turn.userInput⟩,
    ⟨.assistant, clip settings.maxMessageChars turn.assistantOutput⟩]

/-- Where a call is. -/
inductive Phase where
  /-- At `GET`. -/
  | entered
  /-- `GET` found nothing; at `LRANGE`. -/
  | missing
  /-- At the `SET` of the list that is migrated. -/
  | migrating (legacy : List Message)
  /-- At the `SET` of the new list. -/
  | loaded (current : List Message)
  | returned
  | raised
deriving DecidableEq, Repr

structure Call where
  turn : Turn
  phase : Phase
deriving DecidableEq, Repr

/-- The call is past its `GET` and has its `SET` before it. -/
def Call.busy (call : Call) : Bool :=
  match call.phase with
  | .missing | .migrating _ | .loaded _ => true
  | .entered | .returned | .raised => false

structure TurnStore where
  value : Option Value
  /-- The list under the key of the older version. -/
  legacy : List Message
  calls : List Call
  /-- The calls whose turn has been stored, in order. -/
  appended : List Nat
deriving DecidableEq, Repr

inductive TurnAction where
  | appendTurn (turn : Turn)
  | get (i : Nat)
  | lrange (i : Nat)
  | migrate (i : Nat)
  | set (i : Nat)
  /-- A request or its answer is lost, or the task is cancelled. -/
  | fail (i : Nat)
deriving DecidableEq, Repr

namespace TurnStore

variable (s : TurnStore)

def setPhase (i : Nat) (call : Call) (phase : Phase) : TurnStore :=
  { s with calls := s.calls.set i { call with phase := phase } }

end TurnStore

/-- `append_turn` after `provider.get` has found a value. -/
def afterGet : Option Value → Phase
  | none => .missing
  | some (.messages items) => .loaded items
  | some .other => .raised

/-- `legacy or None`. -/
def afterLrange : List Message → Phase
  | [] => .loaded []
  | legacy => .migrating legacy

def stepCall (settings : MemorySettings) (s : TurnStore) (i : Nat) (call : Call) :
    TurnAction → Option TurnStore
  | .get _ => if call.phase = .entered then some (s.setPhase i call (afterGet s.value)) else none
  | .lrange _ =>
      if call.phase = .missing then some (s.setPhase i call (afterLrange s.legacy)) else none
  | .migrate _ =>
      match call.phase with
      | .migrating legacy =>
          some { s.setPhase i call (.loaded legacy) with value := some (.messages legacy) }
      | _ => none
  | .set _ =>
      match call.phase with
      | .loaded current =>
          let current := current ++ call.turn.messages settings
          some
            { s.setPhase i call .returned with
              value := some (.messages (current.rtake settings.maxMessages))
              appended := s.appended ++ [i] }
      | _ => none
  | .fail _ => some (s.setPhase i call .raised)
  | .appendTurn _ => none

def turnStep (settings : MemorySettings) (s : TurnStore) : TurnAction → Option TurnStore
  | .appendTurn turn => some { s with calls := s.calls ++ [⟨turn, .entered⟩] }
  | .get i => s.calls[i]?.bind fun call => stepCall settings s i call (.get i)
  | .lrange i => s.calls[i]?.bind fun call => stepCall settings s i call (.lrange i)
  | .migrate i => s.calls[i]?.bind fun call => stepCall settings s i call (.migrate i)
  | .set i => s.calls[i]?.bind fun call => stepCall settings s i call (.set i)
  | .fail i => s.calls[i]?.bind fun call => stepCall settings s i call (.fail i)

/-- What is stored before: any list under the new key or the old one, or no list. -/
def StoredBefore (base : List Message) (s : TurnStore) : Prop :=
  match s.value with
  | none => s.legacy = base
  | some (.messages items) => items = base
  | some .other => True

def turnSystem (settings : MemorySettings) (base : List Message) : System TurnStore TurnAction where
  init s := StoredBefore base s ∧ s.calls = [] ∧ s.appended = []
  step := turnStep settings

/-! ## The law -/

/-- No other call is between its `GET` and its `SET`. -/
def TurnStore.alone (s : TurnStore) (i : Nat) : Bool :=
  (s.calls.eraseIdx i).all fun call => !call.busy

/-- Nobody writes between a call's `GET` and its `SET`. -/
def Undisturbed (s : TurnStore) : TurnAction → Prop
  | .migrate i | .set i => s.alone i = true
  | _ => True

instance (s : TurnStore) (a : TurnAction) : Decidable (Undisturbed s a) := by
  cases a <;> unfold Undisturbed <;> infer_instance

/-- The turns that have been stored, in order. -/
def TurnStore.turns (s : TurnStore) : List Turn :=
  s.appended.filterMap fun i => s.calls[i]?.map (·.turn)

/-- What the calls leave. -/
structure TurnsLaw (settings : MemorySettings) (base : List Message) (s : TurnStore) : Prop where
  /-- Once a turn has been stored, the list is the end of what was there and the turns. -/
  stored : s.appended ≠ [] → s.value = some (.messages
    ((base ++ s.turns.flatMap (·.messages settings)).rtake settings.maxMessages))
  /-- The last turns are there, each of them whole and in order, at the end of the list. -/
  kept : s.appended ≠ [] → ∃ front, s.value = some (.messages
    (front ++ (s.turns.rtake settings.maxTurns).flatMap (·.messages settings)))
  length : ∀ items, s.appended ≠ [] → s.value = some (.messages items) →
    Even items.length ∧ items.length ≤ settings.maxMessages
  /-- Every call that has returned has stored its turn, once. -/
  returned : ∀ i call, s.calls[i]? = some call → call.phase = .returned → i ∈ s.appended
  nodup : s.appended.Nodup

/-! ## The last turns -/

theorem rtake_rtake_append {α : Type} (n : Nat) (l m : List α) :
    (l.rtake n ++ m).rtake n = (l ++ m).rtake n := by
  simp only [List.rtake_eq_reverse_take_reverse, List.reverse_append, List.reverse_reverse,
    List.take_append, List.take_take]
  congr 3
  omega

theorem rtake_append {α : Type} (n : Nat) (l m : List α) :
    (l ++ m).rtake n = l.rtake (n - m.length) ++ m.rtake n := by
  simp only [List.rtake_eq_reverse_take_reverse, List.reverse_append, List.take_append,
    List.length_reverse]

/-- Every turn is two messages. -/
theorem rtake_flatMap_messages (settings : MemorySettings) (n : Nat) (turns : List Turn) :
    (turns.flatMap (·.messages settings)).rtake (n * 2)
      = (turns.rtake n).flatMap (·.messages settings) := by
  induction turns using List.reverseRecOn generalizing n with
  | nil => simp
  | append_singleton turns turn ih =>
      cases n with
      | zero => simp
      | succ n =>
          rw [List.rtake_concat_succ, List.flatMap_append, List.flatMap_append, ← ih n]
          have htwo : ∀ items : List Message, items ++ [turn].flatMap (·.messages settings)
              = items ++ [⟨.user, clip settings.maxMessageChars turn.userInput⟩]
                ++ [⟨.assistant, clip settings.maxMessageChars turn.assistantOutput⟩] := by
            intro items
            simp [Turn.messages]
          rw [htwo, htwo, Nat.succ_mul, List.rtake_concat_succ, List.rtake_concat_succ]

theorem length_flatMap_messages (settings : MemorySettings) (turns : List Turn) :
    (turns.flatMap (·.messages settings)).length = turns.length * 2 := by
  induction turns with
  | nil => rfl
  | cons turn turns ih =>
      rw [List.flatMap_cons, List.length_append, ih, List.length_cons]
      simp only [Turn.messages, List.length_cons, List.length_nil]
      omega

/-- The cut leaves the last turns whole. -/
theorem rtake_append_messages (settings : MemorySettings) (base : List Message)
    (turns : List Turn) :
    ∃ front, (base ++ turns.flatMap (·.messages settings)).rtake settings.maxMessages
      = front ++ (turns.rtake settings.maxTurns).flatMap (·.messages settings) :=
  ⟨_, by rw [rtake_append, MemorySettings.maxMessages, rtake_flatMap_messages]⟩

theorem length_rtake {α : Type} (n : Nat) (l : List α) : (l.rtake n).length = min n l.length := by
  rw [List.rtake, List.length_drop]
  omega

/-! ## The invariant -/

section Invariant

variable {settings : MemorySettings} {base : List Message} {s : TurnStore} {i : Nat} {call : Call}

/-- What `provider.get` finds. -/
def TurnStore.contents (s : TurnStore) : List Message :=
  match s.value with
  | none => s.legacy
  | some (.messages items) => items
  | some .other => []

/-- The messages that are there. -/
def TurnStore.expected (settings : MemorySettings) (base : List Message) (s : TurnStore) :
    List Message :=
  if s.appended = [] then base
  else (base ++ s.turns.flatMap (·.messages settings)).rtake settings.maxMessages

/-- What a call between its `GET` and its `SET` has read is still so. -/
def TurnStore.Fresh (s : TurnStore) (phase : Phase) : Prop :=
  match phase with
  | .missing => s.value = none
  | .migrating legacy => s.value = none ∧ legacy = s.legacy
  | .loaded current => s.value ≠ some .other ∧ current = s.contents
  | .entered | .returned | .raised => True

/-- What every step keeps. -/
structure MemoryInv (settings : MemorySettings) (base : List Message) (s : TurnStore) : Prop where
  contents : s.value ≠ some .other → s.contents = s.expected settings base
  written : s.appended ≠ [] → ∃ items, s.value = some (.messages items)
  fresh : ∀ call ∈ s.calls, s.Fresh call.phase
  appended : ∀ i ∈ s.appended, ∃ call, s.calls[i]? = some call ∧
    (call.phase = .returned ∨ call.phase = .raised)
  returned : ∀ i call, s.calls[i]? = some call → call.phase = .returned → i ∈ s.appended
  nodup : s.appended.Nodup

theorem contents_of_none (h : s.value = none) : s.contents = s.legacy := by
  rw [TurnStore.contents, h]

namespace MemoryInv

theorem init (hbase : StoredBefore base s) (hcalls : s.calls = []) (happended : s.appended = []) :
    MemoryInv settings base s where
  contents := by
    intro hvalue
    unfold StoredBefore at hbase
    unfold TurnStore.contents
    rw [TurnStore.expected, if_pos happended]
    split at hbase
    next => exact hbase
    next => exact hbase
    next hother => exact absurd hother hvalue
  written := fun hne => absurd happended hne
  fresh := by simp [hcalls]
  appended := by simp [happended]
  returned := by simp [hcalls]
  nodup := happended ▸ List.nodup_nil

theorem turns_setPhase (hget : s.calls[i]? = some call) (phase : Phase) :
    (s.setPhase i call phase).turns = s.turns := by
  unfold TurnStore.turns
  apply List.filterMap_congr
  intro j _
  simp only [TurnStore.setPhase, List.getElem?_set]
  split
  next hij =>
    subst hij
    rw [if_pos (List.getElem?_eq_some_iff.mp hget).1, hget]
    rfl
  next => rfl

/-- The call goes on, and nothing is stored. -/
theorem setPhase (h : MemoryInv settings base s) (hget : s.calls[i]? = some call) {phase : Phase}
    (hfresh : s.Fresh phase) (hphase : phase ≠ .returned)
    (hraised : call.phase ≠ .returned ∧ call.phase ≠ .raised ∨ phase = .raised) :
    MemoryInv settings base (s.setPhase i call phase) where
  contents := by
    rw [TurnStore.expected, turns_setPhase hget]
    exact h.contents
  written := h.written
  fresh := by
    intro other hother
    obtain hother | rfl := List.mem_or_eq_of_mem_set hother
    · exact h.fresh other hother
    · exact hfresh
  appended := by
    intro j hj
    obtain ⟨other, hother, hended⟩ := h.appended j hj
    by_cases hij : i = j
    · subst hij
      obtain rfl := Option.some.inj (hother.symm.trans hget)
      have hset : (s.setPhase i other phase).calls[i]? = some { other with phase := phase } := by
        simp [TurnStore.setPhase, (List.getElem?_eq_some_iff.mp hget).1]
      refine ⟨_, hset, .inr ?_⟩
      obtain hopen | hraised := hraised
      · -- A call that has ended makes no other request.
        cases hended with
        | inl hreturned => exact absurd hreturned hopen.1
        | inr hr => exact absurd hr hopen.2
      · exact hraised
    · exact ⟨other, (List.getElem?_set_ne hij).trans hother, hended⟩
  returned := by
    intro j other hother hreturned
    obtain ⟨rfl, rfl⟩ | ⟨-, hother⟩ := getElem?_set_cases hother
    · exact absurd hreturned hphase
    · exact h.returned j other hother hreturned
  nodup := h.nodup

theorem appendTurn (h : MemoryInv settings base s) (turn : Turn) :
    MemoryInv settings base { s with calls := s.calls ++ [⟨turn, .entered⟩] } := by
  have hold : ∀ i ∈ s.appended, (s.calls ++ [⟨turn, .entered⟩])[i]? = s.calls[i]? := by
    intro i hi
    obtain ⟨call, hcall, -⟩ := h.appended i hi
    exact List.getElem?_append_left (List.getElem?_eq_some_iff.mp hcall).1
  have hturns : TurnStore.turns { s with calls := s.calls ++ [⟨turn, .entered⟩] } = s.turns := by
    apply List.filterMap_congr
    intro i hi
    rw [hold i hi]
  constructor
  case contents =>
    rw [TurnStore.expected, hturns]
    exact h.contents
  case written => exact h.written
  case fresh =>
    rw [List.forall_mem_append, List.forall_mem_singleton]
    exact ⟨h.fresh, trivial⟩
  case appended =>
    intro i hi
    obtain ⟨call, hcall, hended⟩ := h.appended i hi
    exact ⟨call, (hold i hi).trans hcall, hended⟩
  case returned =>
    intro i call hcall hreturned
    obtain hcall | rfl := getElem?_append_cases hcall
    · exact h.returned i call hcall hreturned
    · cases hreturned
  case nodup => exact h.nodup

theorem get (h : MemoryInv settings base s) (hget : s.calls[i]? = some call)
    (hphase : call.phase = .entered) :
    MemoryInv settings base (s.setPhase i call (afterGet s.value)) := by
  refine h.setPhase hget ?_ ?_ (.inl (by simp [hphase]))
  · -- What the call has read is the value as it is now.
    cases hvalue : s.value with
    | none => exact hvalue
    | some value =>
        cases value with
        | messages items => simp [afterGet, TurnStore.Fresh, TurnStore.contents, hvalue]
        | other => trivial
  · cases s.value with
    | none => simp [afterGet]
    | some value => cases value <;> simp [afterGet]

theorem lrange (h : MemoryInv settings base s) (hget : s.calls[i]? = some call)
    (hphase : call.phase = .missing) :
    MemoryInv settings base (s.setPhase i call (afterLrange s.legacy)) := by
  have hnone : s.value = none := by
    have hfresh := h.fresh call (List.mem_of_getElem? hget)
    rwa [hphase] at hfresh
  refine h.setPhase hget ?_ ?_ (.inl (by simp [hphase]))
  · cases hlegacy : s.legacy with
    | nil => simp [afterLrange, TurnStore.Fresh, TurnStore.contents, hnone, hlegacy]
    | cons item items => exact ⟨hnone, hlegacy.symm⟩
  · cases s.legacy <;> simp [afterLrange]

/-- Where nobody else has read, nothing that has been read gets out of date. -/
theorem fresh_of_alone (halone : s.alone i = true) {s' : TurnStore} {j : Nat} {other : Call}
    (hne : i ≠ j) (hother : s.calls[j]? = some other) : s'.Fresh other.phase := by
  have hmem : other ∈ s.calls.eraseIdx i :=
    List.mem_eraseIdx_iff_getElem?.mpr ⟨j, hne.symm, hother⟩
  have hidle := List.all_eq_true.mp halone other hmem
  unfold Call.busy at hidle
  cases hphase : other.phase <;> simp [hphase] at hidle <;> trivial

/-- The list of the older version moves to the new key. -/
theorem migrate (h : MemoryInv settings base s) (hget : s.calls[i]? = some call)
    {legacy : List Message} (hphase : call.phase = .migrating legacy)
    (halone : s.alone i = true) :
    MemoryInv settings base
      { s.setPhase i call (.loaded legacy) with value := some (.messages legacy) } := by
  obtain ⟨hnone, hlegacy⟩ : s.value = none ∧ legacy = s.legacy := by
    have hfresh := h.fresh call (List.mem_of_getElem? hget)
    rwa [hphase] at hfresh
  -- No turn has been stored, since the new key has no value yet.
  have hempty : s.appended = [] := by
    by_contra hne
    obtain ⟨items, hsome⟩ := h.written hne
    rw [hnone] at hsome
    cases hsome
  constructor
  case contents =>
    intro _
    have hcontents := h.contents (by simp [hnone])
    rw [TurnStore.expected, if_pos hempty, contents_of_none hnone] at hcontents
    have hexpected : TurnStore.expected settings base
        { s.setPhase i call (.loaded legacy) with value := some (.messages legacy) } = base :=
      if_pos hempty
    rw [hexpected, ← hcontents]
    exact hlegacy
  case written => exact fun hne => absurd hempty hne
  case fresh =>
    intro other hother
    obtain ⟨j, hj⟩ := List.mem_iff_getElem?.mp hother
    obtain ⟨-, rfl⟩ | ⟨hne, hj⟩ := getElem?_set_cases hj
    · simp [TurnStore.Fresh, TurnStore.contents]
    · exact fresh_of_alone halone hne hj
  case appended => exact fun j hj => absurd (hempty ▸ hj : j ∈ []) List.not_mem_nil
  case returned =>
    intro j other hother hreturned
    obtain ⟨-, rfl⟩ | ⟨-, hother⟩ := getElem?_set_cases hother
    · cases hreturned
    · exact h.returned j other hother hreturned
  case nodup => exact h.nodup

/-- The turn comes after those that are there. -/
theorem set (h : MemoryInv settings base s) (hget : s.calls[i]? = some call)
    {current : List Message} (hphase : call.phase = .loaded current)
    (halone : s.alone i = true) :
    MemoryInv settings base
      { s.setPhase i call .returned with
        value := some (.messages
          ((current ++ call.turn.messages settings).rtake settings.maxMessages))
        appended := s.appended ++ [i] } := by
  obtain ⟨hlist, hcurrent⟩ : s.value ≠ some .other ∧ current = s.contents := by
    have hfresh := h.fresh call (List.mem_of_getElem? hget)
    rwa [hphase] at hfresh
  have hset : (s.setPhase i call .returned).calls[i]? = some { call with phase := .returned } := by
    simp [TurnStore.setPhase, (List.getElem?_eq_some_iff.mp hget).1]
  have hturns : TurnStore.turns { s.setPhase i call .returned with appended := s.appended ++ [i] }
      = s.turns ++ [call.turn] := by
    have hold := turns_setPhase hget .returned
    unfold TurnStore.turns at hold ⊢
    rw [List.filterMap_append, ← hold, List.filterMap_cons_some (by rw [hset]; rfl)]
    rfl
  constructor
  case contents =>
    intro _
    have hexpected : TurnStore.expected settings base
        { s.setPhase i call .returned with
          value := some (.messages
            ((current ++ call.turn.messages settings).rtake settings.maxMessages))
          appended := s.appended ++ [i] }
        = (base ++ (s.turns ++ [call.turn]).flatMap (·.messages settings)).rtake
            settings.maxMessages := by
      rw [TurnStore.expected, if_neg (by simp)]
      exact congrArg (fun turns : List Turn =>
        (base ++ turns.flatMap (·.messages settings)).rtake settings.maxMessages) hturns
    -- The turn comes behind some messages that were cut, or behind all.
    have hlast : (s.expected settings base ++ call.turn.messages settings).rtake
          settings.maxMessages
        = (base ++ (s.turns ++ [call.turn]).flatMap (·.messages settings)).rtake
            settings.maxMessages := by
      rw [List.flatMap_append, List.flatMap_singleton, ← List.append_assoc, TurnStore.expected]
      split
      next hempty =>
        have hnone : s.turns = [] := by simp [TurnStore.turns, hempty]
        rw [hnone, List.flatMap_nil, List.append_nil]
      next => rw [rtake_rtake_append]
    rw [hexpected, ← hlast, ← h.contents hlist, ← hcurrent]
    rfl
  case written => exact fun _ => ⟨_, rfl⟩
  case fresh =>
    intro other hother
    obtain ⟨j, hj⟩ := List.mem_iff_getElem?.mp hother
    obtain ⟨-, rfl⟩ | ⟨hne, hj⟩ := getElem?_set_cases hj
    · trivial
    · exact fresh_of_alone halone hne hj
  case appended =>
    rw [List.forall_mem_append, List.forall_mem_singleton]
    refine ⟨?_, _, hset, .inl rfl⟩
    intro j hj
    obtain ⟨other, hother, hended⟩ := h.appended j hj
    by_cases hij : i = j
    · subst hij
      exact ⟨_, hset, .inl rfl⟩
    · exact ⟨other, (List.getElem?_set_ne hij).trans hother, hended⟩
  case returned =>
    intro j other hother hreturned
    obtain ⟨rfl, rfl⟩ | ⟨-, hother⟩ := getElem?_set_cases hother
    · exact List.mem_append_right _ (List.mem_singleton.mpr rfl)
    · exact List.mem_append_left _ (h.returned j other hother hreturned)
  case nodup =>
    have hnew : i ∉ s.appended := by
      intro hi
      obtain ⟨other, hother, hended⟩ := h.appended i hi
      obtain rfl := Option.some.inj (hother.symm.trans hget)
      simp [hphase] at hended
    exact List.nodup_append.mpr ⟨h.nodup, List.nodup_singleton i, by
      rintro j hj k hk rfl
      exact hnew (List.mem_singleton.mp hk ▸ hj)⟩

/-- One lemma for each action. -/
theorem of_step (h : MemoryInv settings base s) (a : TurnAction) (hundisturbed : Undisturbed s a)
    {s' : TurnStore} (hstep : turnStep settings s a = some s') : MemoryInv settings base s' := by
  cases a with
  | appendTurn turn =>
      rw [turnStep, Option.some.injEq] at hstep
      exact hstep ▸ h.appendTurn turn
  | get i =>
      obtain ⟨call, hget, hstep⟩ := Option.bind_eq_some_iff.mp hstep
      rw [stepCall, Option.ite_none_right_eq_some, Option.some.injEq] at hstep
      exact hstep.2 ▸ h.get hget hstep.1
  | lrange i =>
      obtain ⟨call, hget, hstep⟩ := Option.bind_eq_some_iff.mp hstep
      rw [stepCall, Option.ite_none_right_eq_some, Option.some.injEq] at hstep
      exact hstep.2 ▸ h.lrange hget hstep.1
  | migrate i =>
      obtain ⟨call, hget, hstep⟩ := Option.bind_eq_some_iff.mp hstep
      rw [stepCall] at hstep
      split at hstep
      next legacy hphase =>
        cases hstep
        exact h.migrate hget hphase hundisturbed
      next => cases hstep
  | set i =>
      obtain ⟨call, hget, hstep⟩ := Option.bind_eq_some_iff.mp hstep
      rw [stepCall] at hstep
      split at hstep
      next current hphase =>
        cases hstep
        exact h.set hget hphase hundisturbed
      next => cases hstep
  | fail i =>
      obtain ⟨call, hget, hstep⟩ := Option.bind_eq_some_iff.mp hstep
      rw [stepCall, Option.some.injEq] at hstep
      exact hstep ▸ h.setPhase hget trivial (by simp) (.inr rfl)

theorem law (h : MemoryInv settings base s) (heven : Even base.length) :
    TurnsLaw settings base s := by
  have hstored : s.appended ≠ [] → s.value = some (.messages
      ((base ++ s.turns.flatMap (·.messages settings)).rtake settings.maxMessages)) := by
    intro hne
    obtain ⟨items, hvalue⟩ := h.written hne
    have hcontents := h.contents (by simp [hvalue])
    rw [TurnStore.expected, if_neg hne, TurnStore.contents, hvalue] at hcontents
    rw [hvalue, ← hcontents]
  constructor
  case stored => exact hstored
  case kept =>
    intro hne
    obtain ⟨front, hfront⟩ := rtake_append_messages settings base s.turns
    exact ⟨front, by rw [hstored hne, hfront]⟩
  case length =>
    intro items hne hvalue
    rw [hstored hne, Option.some.injEq, Value.messages.injEq] at hvalue
    rw [← hvalue, length_rtake, List.length_append, length_flatMap_messages]
    refine ⟨?_, Nat.min_le_left _ _⟩
    -- Both the bound and the length of the whole are even.
    have htwice : Even (base.length + s.turns.length * 2) := heven.add ⟨_, Nat.mul_two _⟩
    obtain hle | hle := Nat.le_total settings.maxMessages (base.length + s.turns.length * 2)
    · rw [Nat.min_eq_left hle]
      exact ⟨settings.maxTurns, Nat.mul_two _⟩
    · rwa [Nat.min_eq_right hle]
  case returned => exact h.returned
  case nodup => exact h.nodup

end MemoryInv

end Invariant

/-- **No lost turn**, in every run from a list of even length in which nobody writes between a
    call's `GET` and its `SET`. -/
theorem turns_kept (settings : MemorySettings) (base : List Message) (heven : Even base.length)
    {s : TurnStore} (h : (turnSystem settings base).Reachable Undisturbed s) :
    TurnsLaw settings base s := by
  refine MemoryInv.law (h.invariant (MemoryInv settings base) ?_ ?_) heven
  · rintro s ⟨hbase, hcalls, happended⟩
    exact MemoryInv.init hbase hcalls happended
  · intro s a s' hs hundisturbed hstep
    exact hs.of_step a hundisturbed hstep

def eightTurns : MemorySettings := ⟨8, 20000, by decide⟩

def emptyStore : TurnStore := ⟨none, [], [], []⟩

def firstTurn : Turn := ⟨"a", "A"⟩

def secondTurn : Turn := ⟨"b", "B"⟩

/-- One call after the other. -/
def sequentialCalls : List TurnAction :=
  [.appendTurn firstTurn, .appendTurn secondTurn, .get 0, .lrange 0, .set 0, .get 1, .set 1]

theorem turns_kept_sequentialCalls : ∃ s,
    (turnSystem eightTurns []).exec emptyStore sequentialCalls = some s ∧
      s.turns = [firstTurn, secondTurn] ∧ TurnsLaw eightTurns [] s := by
  refine ⟨_, rfl, by decide, ?_⟩
  apply turns_kept eightTurns [] Even.zero
  exact ⟨emptyStore, ⟨rfl, rfl, rfl⟩,
    System.path_of_allowed sequentialCalls (by decide) rfl⟩

/-- Both calls read before either writes. -/
def overlappingCalls : List TurnAction :=
  [.appendTurn firstTurn, .appendTurn secondTurn, .get 0, .get 1, .lrange 0, .lrange 1, .set 0,
    .set 1]

/-- Both return, and the stored list has the second turn only, though there is room for
    eight. -/
theorem overlapping_calls_lose_turn : ∃ s,
    (turnSystem eightTurns []).exec emptyStore overlappingCalls = some s ∧
      (∀ call ∈ s.calls, call.phase = .returned) ∧ s.turns = [firstTurn, secondTurn] ∧
      s.value = some (.messages (secondTurn.messages eightTurns)) ∧
      ¬ TurnsLaw eightTurns [] s := by
  refine ⟨_, rfl, by decide, by decide, by decide, ?_⟩
  intro hlaw
  have hstored := hlaw.stored (by decide)
  revert hstored
  decide

end Memory
end HermesPlatform
