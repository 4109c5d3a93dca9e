/-
  HermesPlatform.Orchestration.MessageBus

  `AgentMessageBus.list`: the messages to an agent, by pages of the stream.

  The limit is that of `XRANGE`, which does not know whom a message is for: a page can be
  empty although a later message is addressed to the agent, and who reads on until an empty
  page misses it.  Messages may be published between the pages; none is trimmed.
  `json.loads` is a parameter.
-/

import HermesPlatform.Lib.Json
import HermesPlatform.Lib.Paging
import HermesPlatform.Lib.Python
import HermesPlatform.Lib.Transition
import Mathlib.Data.Prod.Lex

namespace HermesPlatform
namespace Orchestration
namespace MessageBus

open Python Transition

/-! ## Messages -/

/-- The id of an entry: milliseconds, and a number within them. -/
abbrev StreamId := Lex (Nat × Nat)

/-- The fields of an entry that `list` reads. -/
structure Fields where
  fromAgent : Option String
  toAgent : Option String
  messageType : Option String
  payload : Option String
  taskId : Option String
deriving DecidableEq, Repr

structure Entry where
  id : StreamId
  fields : Fields
deriving DecidableEq

structure AgentMessage where
  id : StreamId
  fromAgent : String
  toAgent : String
  messageType : String
  payload : Json
  taskId : Option String
  /-- `created_at`, in milliseconds. -/
  createdAt : Nat

section Reading

variable (loads : String → Option Json)

/-- `payload`, as an object. -/
def payload (fields : Fields) : Json :=
  match loads ((truthy fields.payload).getD "{}") with
  | some (.object members) => .object members
  | some value => .object [("value", value)]
  | none => .object [("raw", (fields.payload.map Json.string).getD .null)]

def message (entry : Entry) : AgentMessage where
  id := entry.id
  fromAgent := entry.fields.fromAgent.getD ""
  toAgent := entry.fields.toAgent.getD ""
  messageType := (truthy entry.fields.messageType).getD "event"
  payload := payload loads entry.fields
  taskId := truthy entry.fields.taskId
  createdAt := (ofLex entry.id).1

/-- `XRANGE key (after_id + COUNT count`; no id is `"-"`. -/
def xrange (afterId : Option StreamId) (count : Nat) (stream : List Entry) : List Entry :=
  (Paging.behind Entry.id afterId stream).take count

/-- `if to_agent and fields.get("to") != to_agent: continue`. -/
def listed (toAgent : Option String) (entry : Entry) : Bool :=
  match truthy toAgent with
  | some agent => entry.fields.toAgent = some agent
  | none => true

def list (afterId : Option StreamId) (toAgent : Option String) (count : Nat)
    (stream : List Entry) : List AgentMessage :=
  ((xrange afterId count stream).filter (listed toAgent)).map (message loads)

end Reading

/-! ## Reading on until an empty page -/

/-- The id of an agent. -/
structure AgentId where
  id : String
  ne_empty : id ≠ ""

/-- The message is addressed to the agent. -/
def AgentId.receives (agent : AgentId) (entry : Entry) : Bool :=
  entry.fields.toAgent = some agent.id

/-- A reader of the pages, and the stream. -/
structure Listing where
  stream : List Entry
  cursor : Option StreamId
  collected : List AgentMessage
  /-- An empty page has been returned. -/
  ended : Bool

inductive Action where
  | publish (entry : Entry)
  | list (count : Nat)
deriving DecidableEq

section System

variable (loads : String → Option Json) (agent : AgentId)

/-- The ids of the stream increase; a page has a positive count. -/
def step (s : Listing) : Action → Option Listing
  | .publish entry =>
      if s.ended = false ∧ ∀ e ∈ s.stream, e.id < entry.id then
        some { s with stream := s.stream ++ [entry] }
      else none
  | .list count =>
      if s.ended = false ∧ 0 < count then
        let messages := list loads s.cursor (some agent.id) count s.stream
        match messages.getLast? with
        | none => some { s with ended := true }
        | some last =>
            some { s with cursor := some last.id, collected := s.collected ++ messages }
      else none

/-- A stream, and a reader at its beginning. -/
def Start (s : Listing) : Prop :=
  s.stream.Pairwise (·.id < ·.id) ∧ s.cursor = none ∧ s.collected = [] ∧ s.ended = false

def system : System Listing Action := ⟨Start, step loads agent⟩

/-- What the stream holds for the agent. -/
def expected (s : Listing) : List AgentMessage :=
  (s.stream.filter agent.receives).map (message loads)

/-- The reader has a beginning of what the stream holds for the agent, and after an empty page
    all of it. -/
structure Law (s : Listing) : Prop where
  initial : s.collected <+: expected loads agent s
  complete : s.ended = true → s.collected = expected loads agent s

/-- A page reaches the next message to the agent: fewer than `count` others come before it. -/
def Reaches (s : Listing) : Action → Prop
  | .publish _ => True
  | .list count =>
      (∃ e ∈ Paging.behind Entry.id s.cursor s.stream, agent.receives e = true) →
        Paging.gap agent.receives (Paging.behind Entry.id s.cursor s.stream) < count

instance (s : Listing) : ∀ a, Decidable (Reaches agent s a)
  | .publish _ => isTrue trivial
  | .list count =>
      inferInstanceAs (Decidable
        ((∃ e ∈ Paging.behind Entry.id s.cursor s.stream, agent.receives e = true) →
          Paging.gap agent.receives (Paging.behind Entry.id s.cursor s.stream) < count))

end System

/-! ## Pages -/

section Runs

variable {loads : String → Option Json} {agent : AgentId} {s t : Listing}

theorem listed_agent : listed (some agent.id) = agent.receives := by
  funext entry
  rw [listed, truthy_eq_some.mpr ⟨rfl, agent.ne_empty⟩]
  rfl

theorem list_eq (cursor : Option StreamId) (count : Nat) (stream : List Entry) :
    list loads cursor (some agent.id) count stream =
      (Paging.page Entry.id agent.receives cursor count stream).map (message loads) := by
  rw [list, listed_agent]
  rfl

/-- Where a reader is in the stream. -/
structure Invariant (loads : String → Option Json) (agent : AgentId) (s : Listing) : Prop where
  sorted : s.stream.Pairwise (·.id < ·.id)
  place : ∃ front rest, Paging.At Entry.id s.cursor s.stream front rest ∧
    s.collected = (front.filter agent.receives).map (message loads)

namespace Invariant

theorem start (h : Start s) : Invariant loads agent s := by
  obtain ⟨hsorted, hcursor, hcollected, -⟩ := h
  refine ⟨hsorted, [], s.stream, ?_, hcollected⟩
  rw [hcursor]
  exact Paging.at_start s.stream

theorem publish (h : Invariant loads agent s) {entry : Entry}
    (hentry : ∀ e ∈ s.stream, e.id < entry.id) :
    Invariant loads agent { s with stream := s.stream ++ [entry] } := by
  obtain ⟨hsorted, front, rest, hat, hcollected⟩ := h
  refine ⟨?_, front, rest ++ [entry], hat.append hentry, hcollected⟩
  rw [List.pairwise_append]
  refine ⟨hsorted, List.pairwise_singleton _ _, ?_⟩
  intro a ha b hb
  rw [List.mem_singleton.mp hb]
  exact hentry a ha

theorem page (h : Invariant loads agent s) {count : Nat} {e : Entry}
    (hlast : (Paging.page Entry.id agent.receives s.cursor count s.stream).getLast? = some e) :
    Invariant loads agent
      { s with
        cursor := some e.id
        collected := s.collected ++ list loads s.cursor (some agent.id) count s.stream } := by
  obtain ⟨hsorted, front, rest, hat, hcollected⟩ := h
  obtain ⟨front', rest', hat', hfront'⟩ := hat.page hsorted hlast
  refine ⟨hsorted, front', rest', hat', ?_⟩
  rw [hfront', List.map_append, ← hcollected, list_eq]

theorem initial (h : Invariant loads agent s) : s.collected <+: expected loads agent s := by
  obtain ⟨-, front, rest, hat, hcollected⟩ := h
  rw [hcollected, expected, hat.log_eq, List.filter_append, List.map_append]
  exact List.prefix_append _ _

/-- Everything has been read if and only if nothing for the agent is behind the cursor. -/
theorem collected_eq_iff (h : Invariant loads agent s) :
    s.collected = expected loads agent s ↔
      (Paging.behind Entry.id s.cursor s.stream).filter agent.receives = [] := by
  obtain ⟨-, front, rest, hat, hcollected⟩ := h
  rw [hcollected, expected, hat.behind_eq, hat.log_eq, List.filter_append, List.map_append]
  constructor
  · intro heq
    exact List.map_eq_nil_iff.mp (List.append_cancel_left ((List.append_nil _).trans heq)).symm
  · intro hnil
    rw [hnil, List.map_nil, List.append_nil]

end Invariant

/-- The two ways a page comes out. -/
theorem list_cases {count : Nat} (hstep : step loads agent s (.list count) = some t) :
    s.ended = false ∧
      (Paging.page Entry.id agent.receives s.cursor count s.stream = [] ∧
          t = { s with ended := true } ∨
        ∃ e, (Paging.page Entry.id agent.receives s.cursor count s.stream).getLast? = some e ∧
          t = { s with
            cursor := some e.id
            collected := s.collected ++ list loads s.cursor (some agent.id) count s.stream }) := by
  simp only [step] at hstep
  split at hstep
  case isFalse => cases hstep
  case isTrue hopen =>
    refine ⟨hopen.1, ?_⟩
    have hlast : (list loads s.cursor (some agent.id) count s.stream).getLast? =
        (Paging.page Entry.id agent.receives s.cursor count s.stream).getLast?.map
          (message loads) := by
      rw [list_eq, List.getLast?_map]
    rw [hlast] at hstep
    cases hpage : (Paging.page Entry.id agent.receives s.cursor count s.stream).getLast? with
    | none =>
        rw [hpage] at hstep
        cases hstep
        exact .inl ⟨List.getLast?_eq_none_iff.mp hpage, rfl⟩
    | some e =>
        rw [hpage] at hstep
        cases hstep
        exact .inr ⟨e, rfl, rfl⟩

theorem publish_cases {entry : Entry} (hstep : step loads agent s (.publish entry) = some t) :
    s.ended = false ∧ (∀ e ∈ s.stream, e.id < entry.id) ∧
      t = { s with stream := s.stream ++ [entry] } := by
  simp only [step] at hstep
  split at hstep
  case isFalse => cases hstep
  case isTrue hopen =>
    cases hstep
    exact ⟨hopen.1, hopen.2, rfl⟩

theorem Invariant.step (h : Invariant loads agent s) {a : Action}
    (hstep : step loads agent s a = some t) : Invariant loads agent t := by
  cases a with
  | publish entry =>
      obtain ⟨-, hentry, rfl⟩ := publish_cases hstep
      exact h.publish hentry
  | list count =>
      obtain ⟨-, ⟨-, rfl⟩ | ⟨e, hlast, rfl⟩⟩ := list_cases hstep
      · exact ⟨h.sorted, h.place⟩
      · exact h.page hlast

theorem Invariant.of_reachable {good : Listing → Action → Prop}
    (h : (system loads agent).Reachable good s) : Invariant loads agent s := by
  refine h.invariant (Invariant loads agent) ?_ ?_
  · intro s hs
    exact Invariant.start hs
  · intro s a t hinv _ hstep
    exact hinv.step hstep

/-- A page request keeps the law if and only if it reaches the next message to the agent. -/
theorem Invariant.law_iff (h : Invariant loads agent s) {a : Action}
    (hstep : MessageBus.step loads agent s a = some t) :
    Law loads agent t ↔ Reaches agent s a := by
  have ht := (h.step hstep).initial
  cases a with
  | publish entry =>
      obtain ⟨hopen, -, rfl⟩ := publish_cases hstep
      refine iff_of_true ⟨ht, fun hended => ?_⟩ trivial
      rw [hopen] at hended
      cases hended
  | list count =>
      obtain ⟨hopen, ⟨hpage, rfl⟩ | ⟨e, hlast, rfl⟩⟩ := list_cases hstep
      · -- The page is empty: nothing may be left.
        have hempty := Paging.page_eq_nil.mp hpage
        have hlaw : Law loads agent { s with ended := true } ↔
            s.collected = expected loads agent s :=
          ⟨fun hlaw => hlaw.complete rfl, fun hall => ⟨ht, fun _ => hall⟩⟩
        rw [hlaw, h.collected_eq_iff]
        constructor
        · rintro hnil ⟨e, he, hreceives⟩
          exact absurd hreceives (List.filter_eq_nil_iff.mp hnil e he)
        · intro hreaches
          by_contra hne
          obtain ⟨e, he⟩ := List.exists_mem_of_ne_nil _ hne
          have hgap := hreaches ⟨e, (List.mem_filter.mp he).1, (List.mem_filter.mp he).2⟩
          exact absurd (hempty.resolve_left hne) (Nat.not_le.mpr hgap)
      · -- The page is not empty: it reaches the next message, and the reader goes on.
        have hpage : Paging.page Entry.id agent.receives s.cursor count s.stream ≠ [] := by
          intro hnil
          rw [hnil] at hlast
          cases hlast
        refine iff_of_true ⟨ht, fun hended => ?_⟩ fun _ => ?_
        · rw [hopen] at hended
          cases hended
        · exact Nat.not_le.mp fun hgap => hpage (Paging.page_eq_nil.mpr (.inr hgap))

/-- **When paging is complete.**  In every run whose page requests reach the next message to
    the agent, the reader has a beginning of the agent's messages, and at the empty page all of
    them.  After a run of any steps, a request keeps this if and only if it reaches so far. -/
theorem paging_complete_iff (loads : String → Option Json) (agent : AgentId) :
    (∀ t, (system loads agent).Reachable (Reaches agent) t → Law loads agent t) ∧
      ∀ s a t, (system loads agent).Reachable System.anyStep s → step loads agent s a = some t →
        (Law loads agent t ↔ Reaches agent s a) := by
  constructor
  · intro t ht
    have hlaw : Invariant loads agent t ∧ Law loads agent t := by
      refine ht.invariant (fun s => Invariant loads agent s ∧ Law loads agent s) ?_ ?_
      · intro s hs
        have hinv : Invariant loads agent s := Invariant.start hs
        refine ⟨hinv, hinv.initial, fun hended => ?_⟩
        rw [hs.2.2.2] at hended
        cases hended
      · rintro s a t ⟨hinv, -⟩ hreaches hstep
        exact ⟨hinv.step hstep, (hinv.law_iff hstep).mpr hreaches⟩
    exact hlaw.2
  · intro s a t hs hstep
    exact (Invariant.of_reachable hs).law_iff hstep

end Runs

/-! ## Two messages -/

def planner : AgentId := ⟨"planner", by decide⟩

def messageTo (id : Nat) (agent : String) : Entry :=
  ⟨toLex (id, 0), ⟨some "manager", some agent, some "event", some "\x7b\x7d", none⟩⟩

/-- `json.loads` on the empty object. -/
def loadsEmpty (text : String) : Option Json :=
  if text = "\x7b\x7d" then some (.object []) else none

/-- A message to the researcher, then one to the planner. -/
def twoMessages : Listing :=
  ⟨[messageTo 1 "researcher", messageTo 2 "planner"], none, [], false⟩

theorem start_twoMessages : Start twoMessages := by
  refine ⟨?_, rfl, rfl, rfl⟩
  decide +kernel

/-- With two messages a page, the planner's is read. -/
theorem paging_complete_iff_twoMessages :
    ∃ t, (system loadsEmpty planner).exec twoMessages [.list 2, .list 2] = some t ∧
      t.ended = true ∧ t.collected.map AgentMessage.id = [toLex (2, 0)] ∧
      Law loadsEmpty planner t := by
  have hallowed : (system loadsEmpty planner).Allowed (Reaches planner) twoMessages
      [.list 2, .list 2] := by
    decide +kernel
  refine ⟨_, rfl, by decide +kernel, by decide +kernel, ?_⟩
  refine (paging_complete_iff loadsEmpty planner).1 _ ⟨twoMessages, start_twoMessages, ?_⟩
  exact System.path_of_allowed _ hallowed rfl

/-- With one message a page, the first page is empty and the planner's message is missed. -/
theorem single_page_misses :
    ∃ t, (system loadsEmpty planner).exec twoMessages [.list 1] = some t ∧
      t.ended = true ∧ t.collected = [] ∧ ¬ Law loadsEmpty planner t := by
  refine ⟨_, rfl, by decide +kernel, rfl, ?_⟩
  intro hlaw
  have hlength := congrArg List.length (hlaw.complete rfl)
  exact absurd hlength (by decide +kernel)

end MessageBus
end Orchestration
end HermesPlatform
