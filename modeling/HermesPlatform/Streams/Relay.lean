/-
  HermesPlatform.Streams.Relay

  A streamed run of an agent: `stream_prepared_agent` takes the events of the runtime and
  completes, fails or cancels the execution, `_internal_sse_events` hands them on to the console.

  The console is told of exactly one end, behind everything else, unless an exception escapes
  that the generator does not catch.  What it is told is what the execution has been stored as,
  but for an execution that a stop has cancelled meanwhile: that stays cancelled, and the console
  is told of the failure (`relay_ends`).  The text it has shown is the text that the runtime has
  sent, where its deltas are texts (`console_text`).

  Whether the execution has been cancelled elsewhere is read at every refresh of its row, and is
  an answer of the surroundings, as the exceptions of the database, the memory and the artifact
  storage are.
-/

import HermesPlatform.Lib.JsonDict
import HermesPlatform.Streams.RuntimeStream

namespace HermesPlatform
namespace Streams

open Python Utf8
open Gateway (truthy)

/-- An event of the response: its name and its payload. -/
abbrev Frame := EventName × List (String × Json)

/-! ## `_map_hermes_event` -/

/-- `"tool."`. -/
def toolPrefix : List Char := ['t', 'o', 'o', 'l', '.']

/-- `"subagent."`. -/
def subagentPrefix : List Char := ['s', 'u', 'b', 'a', 'g', 'e', 'n', 't', '.']

section Mapping

variable (py : StreamPython)

/-- `str(event.get("event", ""))`. -/
def eventTypeOf (event : Event) : String := py.str ((event.get? "event").getD (.string ""))

/-- `str(event.get("delta") or "")`. -/
def deltaText (event : Event) : String := py.str (orElse (get event "delta") (.string ""))

/-- `_map_hermes_event(event)`. -/
def mapHermesEvent (event : Event) : Option Frame :=
  let eventType := eventTypeOf py event
  if eventType = "_keepalive" then some (.keepalive, [("event", .string "keepalive")])
  else if eventType = "message.delta" then
    some (.token, [("event", .string "token"), ("text", .string (deltaText py event))])
  else if toolPrefix.isPrefixOf eventType.toList then
    some (.tool,
      [("event", .string "tool"), ("type", .string (String.ofList (eventType.toList.drop 5))),
        ("name", get event "tool"), ("duration", get event "duration"),
        ("error", (event.get? "error").getD (.bool false))])
  else if eventType ∈ ["run.created", "reasoning.available"] ∨
      subagentPrefix.isPrefixOf eventType.toList then
    some (.trace, [("event", .string "trace"), ("type", .string eventType),
      ("data", .object event.entries)])
  else if eventType = "run.completed" then none
  else
    some (.trace, [("event", .string "trace"),
      ("type", .string (if eventType = "" then "runtime" else eventType)),
      ("data", .object event.entries)])

end Mapping

/-! ## The execution -/

/-- The exceptions that the code tells apart, with their texts. -/
inductive Exc where
  | agentMemory (text : String)
  | artifactStorage (text : String)
  | runtimeCancelled (text : String)
  | hermesRuntime (text : String)
  | runtimeAdapter (text : String)
  | value (text : String)
  /-- `asyncio.CancelledError`: the client has gone. -/
  | disconnected
  /-- What no `except` clause names. -/
  | other
deriving DecidableEq, Repr

inductive ExecutionStatus where
  | running
  | succeeded
  | failed
  | cancelled
deriving DecidableEq, Repr

/-- What a run leaves behind. -/
structure Stored where
  status : ExecutionStatus
  error : Option String
  /-- The output, the run id and the token usage with which the run has been completed. -/
  output : Option String
  runId : Option String
  tokenUsage : Option Nat
  /-- The events of the trace, from the last recording that has come to its end. -/
  trace : List Event
  /-- The turns that the memory has been given. -/
  turns : List (String × String)

/-- What the surroundings answer while a run is completed. -/
structure Completing where
  /-- What the steps up to the trace raise. -/
  record : Option Exc
  /-- What is raised between the validation and the memory. -/
  validated : Option Exc
  appendTurn : Option Exc
  /-- The refresh finds the execution cancelled. -/
  cancelled : Bool
  /-- What is raised from there to the commit. -/
  commit : Option Exc

/-- What a run depends on. -/
structure RunEnv where
  /-- `runtime_type.title()`. -/
  label : String
  agentId : String
  executionId : String
  input : String
  /-- What `_validate_output` raises on an output. -/
  validate : String → Option Exc
  /-- The answers at the completion by the event with this number. -/
  completing : Nat → Completing
  /-- The refresh of `_fail_execution` finds the execution cancelled. -/
  cancelledAtEnd : Bool

/-- `HermesClient._extract_token_usage(event)`. -/
def extractTokenUsage (event : Event) : Option Nat :=
  match event.get? "usage" with
  | some (.object usage) =>
      match (Dict.ofPairs usage).get? "total_tokens" with
      | some (.int n) => if n < 0 then none else some n.toNat
      | _ => none
  | _ => none

/-- `_complete_execution` and what comes in front of it.  What has been committed before an
    exception stays. -/
def complete (env : RunEnv) (c : Completing) (stored : Stored) (output : String)
    (runId : Option String) (tokenUsage : Option Nat) (trace : List Event) :
    Stored × Option Exc :=
  match c.record with
  | some e => (stored, some e)
  | none =>
      let stored := { stored with trace := trace.take 100 }
      match (env.validate output).or (c.validated.or c.appendTurn) with
      | some e => (stored, some e)
      | none =>
          let stored := { stored with turns := stored.turns ++ [(env.input, output)] }
          if c.cancelled then
            ({ stored with status := .cancelled },
              some (.runtimeCancelled "Agent Runtime execution was cancelled"))
          else
            match c.commit with
            | some e => (stored, some e)
            | none =>
                ({ stored with
                    status := .succeeded
                    output := some output
                    runId := runId
                    tokenUsage := tokenUsage }, none)

/-- `_fail_execution(execution, session, exc)`. -/
def failExecution (env : RunEnv) (stored : Stored) (text : String) : Stored :=
  if env.cancelledAtEnd then { stored with status := .cancelled }
  else
    { stored with
      status := .failed
      error := some (String.ofList (text.toList.take 2000)) }

/-- The `except` clauses of `stream_prepared_agent`. -/
def settle (env : RunEnv) (stored : Stored) : Exc → Stored
  | .agentMemory text => failExecution env stored text
  | .artifactStorage text => failExecution env stored text
  | .runtimeCancelled _ =>
      { stored with
        status := .cancelled
        error := none }
  | .hermesRuntime text => failExecution env stored text
  | .runtimeAdapter text => failExecution env stored text
  | .value text => failExecution env stored text
  | .disconnected => failExecution env stored "stream client disconnected"
  | .other => stored

/-! ## `stream_prepared_agent` -/

/-- The variables of the loop, and the events that have been yielded. -/
structure Relay where
  runId : Option String
  outputParts : List String
  runtimeTrace : List Event
  completed : Bool
  stored : Stored
  yielded : List Event

section Run

variable (py : StreamPython) (env : RunEnv)

/-- `str(event.get("error") or default)`. -/
def errorText (event : Event) (default : String) : String :=
  py.str (orElse (get event "error") (.string default))

/-- The types that stay out of the trace. -/
def untraced : List String := ["_keepalive", "message.delta", "run.created", "run.completed"]

/-- The assignments at the head of the loop. -/
def Relay.collect (s : Relay) (event : Event) : Relay :=
  { s with
    runtimeTrace :=
      if eventTypeOf py event ∈ untraced then s.runtimeTrace else s.runtimeTrace ++ [event]
    runId := if truthy (get event "run_id") then some (py.str (get event "run_id")) else s.runId
    outputParts :=
      if eventTypeOf py event = "message.delta" then
        match event.get? "delta" with
        | some (.string delta) => s.outputParts ++ [delta]
        | _ => s.outputParts
      else s.outputParts }

/-- `str(event.get("output") or "".join(output_parts))`. -/
def outputOf (event : Event) (parts : List String) : String :=
  py.str (orElse (get event "output") (.string (String.join parts)))

/-- The body of the loop for the event with this number: the state behind the `yield`, or the
    exception. -/
def Relay.onEvent (n : Nat) (s : Relay) (event : Event) : Relay × Option Exc :=
  let s := s.collect py event
  let eventType := eventTypeOf py event
  if eventType ∈ ["run.cancelled", "run.canceled"] then
    (s, some (.runtimeCancelled (errorText py event (env.label ++ " Runtime execution cancelled"))))
  else if eventType = "run.failed" then
    (s, some (.hermesRuntime (errorText py event (env.label ++ " Runtime execution failed"))))
  else if eventType = "run.completed" then
    let output := outputOf py event s.outputParts
    match complete env (env.completing n) s.stored output s.runId (extractTokenUsage event)
        s.runtimeTrace with
    | (stored, some e) => ({ s with stored := stored }, some e)
    | (stored, none) =>
        ({ s with
            stored := stored
            completed := true
            yielded := s.yielded ++ [event.set "output" (.string output)] }, none)
  else ({ s with yielded := s.yielded ++ [event] }, none)

/-- The loop, from the event with this number on. -/
def Relay.onEvents : Nat → Relay → List Event → Relay × Option Exc
  | _, s, [] => (s, none)
  | n, s, event :: events =>
      match s.onEvent py env n event with
      | (s, some e) => (s, some e)
      | (s, none) => Relay.onEvents (n + 1) s events

/-- The events of the runtime, and the exception that ends them. -/
structure Source where
  events : List Event
  ending : Option Exc

def Relay.initial (stored : Stored) : Relay := ⟨none, [], [], false, stored, []⟩

/-- `stream_prepared_agent`: the events that it yields, the exception that ends it and what it
    leaves behind. -/
def streamPreparedAgent (stored : Stored) (source : Source) : List Event × Option Exc × Stored :=
  let r := (Relay.initial stored).onEvents py env 0 source.events
  let ending := r.2.or (source.ending.or
    (if r.1.completed then none
      else some (.hermesRuntime
        (env.label ++ " Runtime event stream ended without a completion event"))))
  (r.1.yielded, ending, ending.elim r.1.stored (settle env r.1.stored))

/-! ## `_internal_sse_events` -/

def startFrame : Frame :=
  (.start, [("event", .string "start"), ("agent_id", .string env.agentId),
    ("execution_id", .string env.executionId)])

def endFrame (status : String) : Frame :=
  (.finish, [("event", .string "end"), ("status", .string status),
    ("execution_id", .string env.executionId)])

def errorFrame (message : String) : Frame :=
  (.error, [("event", .string "error"), ("status", .string "failed"),
    ("message", .string message)])

/-- The event behind the loop: of its regular end, or of an exception that is caught. -/
def terminalFrame : Option Exc → Option Frame
  | none => some (endFrame env "success")
  | some (.runtimeCancelled _) => some (endFrame env "cancelled")
  | some (.agentMemory text) => some (errorFrame text)
  | some (.artifactStorage text) => some (errorFrame text)
  | some (.hermesRuntime text) => some (errorFrame text)
  | some (.runtimeAdapter text) => some (errorFrame text)
  | some (.value text) => some (errorFrame text)
  | some .disconnected => none
  | some .other => none

/-- `_internal_sse_events`: the events that the console is sent, and what the run leaves behind.
    `none` is an execution that is not found. -/
def internalSseEvents (stored : Option Stored) (source : Source) : List Frame × Option Stored :=
  match stored with
  | none => ([startFrame env, errorFrame "execution log not found"], none)
  | some stored =>
      let r := streamPreparedAgent py env stored source
      (startFrame env :: r.1.filterMap (mapHermesEvent py) ++ (terminalFrame env r.2.1).toList,
        some r.2.2)

end Run

/-! ## The end of a run -/

variable {py : StreamPython} {env : RunEnv}

/-- The names of the events on the way of a run. -/
def EventName.isStep : EventName → Bool
  | .trace | .token | .tool | .keepalive => true
  | .start | .finish | .error => false

/-- An event of the runtime is no event of the end. -/
theorem mapHermesEvent_name {event : Event} {frame : Frame}
    (h : mapHermesEvent py event = some frame) : frame.1.isStep = true := by
  unfold mapHermesEvent at h
  dsimp only at h
  split at h
  · cases h
    rfl
  split at h
  · cases h
    rfl
  split at h
  · cases h
    rfl
  split at h
  · cases h
    rfl
  split at h
  · cases h
  · cases h
    rfl

/-- A completion that does not raise. -/
theorem complete_eq_none {c : Completing} {stored after : Stored} {output : String}
    {runId : Option String} {tokenUsage : Option Nat} {trace : List Event}
    (h : complete env c stored output runId tokenUsage trace = (after, none)) :
    after.status = .succeeded ∧ after.output = some output := by
  unfold complete at h
  dsimp only at h
  split at h
  · cases h
  split at h
  · cases h
  split at h
  · cases h
  split at h
  · cases h
  · cases h
    exact ⟨rfl, rfl⟩

/-- What holds of the state of the loop. -/
def Relay.Sound (s : Relay) : Prop :=
  s.completed = true → s.stored.status = .succeeded ∧ s.stored.output.isSome = true

theorem sound_onEvent {n : Nat} {s after : Relay} {event : Event} (h : s.Sound)
    (hstep : s.onEvent py env n event = (after, none)) : after.Sound := by
  have hcollect : (s.collect py event).Sound := h
  unfold Relay.onEvent at hstep
  dsimp only at hstep
  split at hstep
  · cases hstep
  split at hstep
  · cases hstep
  split at hstep
  · split at hstep
    · cases hstep
    next stored hcomplete =>
      obtain ⟨hstatus, houtput⟩ := complete_eq_none hcomplete
      cases hstep
      exact fun _ => ⟨hstatus, by rw [houtput]; rfl⟩
  · cases hstep
    exact hcollect

theorem sound_onEvents {n : Nat} {s after : Relay} {events : List Event} (h : s.Sound)
    (hrun : s.onEvents py env n events = (after, none)) : after.Sound := by
  induction events generalizing n s with
  | nil =>
      cases hrun
      exact h
  | cons event events ih =>
      rw [Relay.onEvents] at hrun
      split at hrun
      · cases hrun
      next next hstep => exact ih (sound_onEvent h hstep) hrun

/-- An event of the runtime as it is handed on: a completion carries its output. -/
def HandedOn (py : StreamPython) (event handed : Event) : Prop :=
  handed = event ∨
    eventTypeOf py event = "run.completed" ∧ ∃ output, handed = event.set "output" (.string output)

theorem handedOn_onEvent {n : Nat} {s after : Relay} {event : Event}
    (hstep : s.onEvent py env n event = (after, none)) :
    ∃ handed, after.yielded = s.yielded ++ [handed] ∧ HandedOn py event handed := by
  unfold Relay.onEvent at hstep
  dsimp only at hstep
  split at hstep
  · cases hstep
  split at hstep
  · cases hstep
  split at hstep
  next hcompleted =>
    split at hstep
    · cases hstep
    · cases hstep
      exact ⟨_, rfl, .inr ⟨hcompleted, _, rfl⟩⟩
  · cases hstep
    exact ⟨event, rfl, .inl rfl⟩

/-- An event that ends the loop is not handed on. -/
theorem yielded_onEvent {n : Nat} {s after : Relay} {event : Event} {e : Exc}
    (hstep : s.onEvent py env n event = (after, some e)) : after.yielded = s.yielded := by
  unfold Relay.onEvent at hstep
  dsimp only at hstep
  split at hstep
  · cases hstep
    rfl
  split at hstep
  · cases hstep
    rfl
  split at hstep
  · split at hstep
    · cases hstep
      rfl
    · cases hstep
  · cases hstep

/-- The loop hands on a beginning of the events, each of them once. -/
theorem handedOn_onEvents {n : Nat} {s after : Relay} {events : List Event} {ending : Option Exc}
    (hrun : s.onEvents py env n events = (after, ending)) :
    ∃ front handed, front <+: events ∧ after.yielded = s.yielded ++ handed ∧
      List.Forall₂ (HandedOn py) front handed ∧ (ending = none → front = events) := by
  induction events generalizing n s with
  | nil =>
      cases hrun
      exact ⟨[], [], List.prefix_rfl, (List.append_nil _).symm, .nil, fun _ => rfl⟩
  | cons event events ih =>
      rw [Relay.onEvents] at hrun
      split at hrun
      next s' e hstep =>
        cases hrun
        refine ⟨[], [], List.nil_prefix, ?_, .nil, nofun⟩
        rw [yielded_onEvent hstep, List.append_nil]
      next s' hstep =>
        obtain ⟨first, hyielded, hfirst⟩ := handedOn_onEvent hstep
        obtain ⟨front, handed, hfront, hrest, hhanded, hend⟩ := ih hrun
        refine ⟨event :: front, first :: handed, List.cons_prefix_cons.mpr ⟨rfl, hfront⟩, ?_,
          .cons hfirst hhanded, fun hnone => by rw [hend hnone]⟩
        rw [hrest, hyielded, List.append_assoc]
        rfl

/-- What the last event tells of the execution. -/
inductive Told (env : RunEnv) (ending : Option Exc) (stored : Stored) : Option Frame → Prop where
  | success (status : stored.status = .succeeded) (output : stored.output.isSome = true) :
      Told env ending stored (some (endFrame env "success"))
  | cancelled (status : stored.status = .cancelled) :
      Told env ending stored (some (endFrame env "cancelled"))
  | failed (text : String) (status : stored.status = .failed)
      (error : stored.error = some (String.ofList (text.toList.take 2000))) :
      Told env ending stored (some (errorFrame text))
  /-- A stop has cancelled the execution meanwhile; the failure is told and not stored. -/
  | cancelledElsewhere (text : String) (status : stored.status = .cancelled)
      (found : env.cancelledAtEnd = true) : Told env ending stored (some (errorFrame text))
  | nothing (escaped : ending = some .disconnected ∨ ending = some .other) :
      Told env ending stored none

theorem told_failed (ending : Option Exc) (stored : Stored) (text : String) :
    Told env ending (failExecution env stored text) (some (errorFrame text)) := by
  by_cases hcancelled : env.cancelledAtEnd = true
  · refine .cancelledElsewhere text ?_ hcancelled
    rw [failExecution, if_pos hcancelled]
  · refine .failed text ?_ ?_ <;> rw [failExecution, if_neg hcancelled]

/-- Every exception leads to its event. -/
theorem told_settle (stored : Stored) (e : Exc) :
    Told env (some e) (settle env stored e) (terminalFrame env (some e)) := by
  cases e with
  | agentMemory text => exact told_failed _ stored text
  | artifactStorage text => exact told_failed _ stored text
  | runtimeCancelled text => exact .cancelled rfl
  | hermesRuntime text => exact told_failed _ stored text
  | runtimeAdapter text => exact told_failed _ stored text
  | value text => exact told_failed _ stored text
  | disconnected => exact .nothing (.inl rfl)
  | other => exact .nothing (.inr rfl)

/-- A run that nothing ends has been completed. -/
theorem completed_of_ending {stored : Stored} {source : Source}
    (h : (streamPreparedAgent py env stored source).2.1 = none) :
    ∃ s, (Relay.initial stored).onEvents py env 0 source.events = (s, none) ∧
      s.completed = true ∧ (streamPreparedAgent py env stored source).2.2 = s.stored := by
  unfold streamPreparedAgent at h ⊢
  cases hrun : (Relay.initial stored).onEvents py env 0 source.events with
  | mk s e =>
      rw [hrun] at h
      cases e with
      | some e => cases h
      | none =>
          cases hending : source.ending with
          | some e =>
              rw [hending] at h
              cases h
          | none =>
              rw [hending] at h
              cases hcompleted : s.completed with
              | true => exact ⟨s, rfl, hcompleted, by simp only [hcompleted]; rfl⟩
              | false =>
                  simp only [hcompleted] at h
                  cases h

/-- The text of a token, as it is handed on. -/
def tokenText (frame : Frame) : Option String :=
  match frame with
  | (.token, payload) =>
      match payload.lookup "text" with
      | some (.string text) => some text
      | _ => none
  | _ => none

/-- The texts of the deltas among some events. -/
def sentTexts (py : StreamPython) (events : List Event) : List String :=
  events.filterMap fun event =>
    if eventTypeOf py event = "message.delta" then some (deltaText py event) else none

/-- A delta is a text. -/
def IsTextual (py : StreamPython) (event : Event) : Prop :=
  eventTypeOf py event = "message.delta" → ∃ text, event.get? "delta" = some (.string text)

theorem sentTexts_append (events more : List Event) :
    sentTexts py (events ++ more) = sentTexts py events ++ sentTexts py more :=
  List.filterMap_append

theorem sentTexts_other {event : Event} (h : eventTypeOf py event ≠ "message.delta") :
    sentTexts py [event] = [] := by
  rw [sentTexts, List.filterMap_cons, if_neg h]
  rfl

theorem deltaText_string {event : Event} {text : String}
    (h : event.get? "delta" = some (.string text)) : deltaText py event = text := by
  rw [deltaText, get, h]
  by_cases htext : text = ""
  · subst htext
    rfl
  · rw [orElse, if_pos]
    · rfl
    · exact decide_eq_true htext

/-- The tokens that are handed on are the deltas that have been yielded. -/
theorem tokenText_mapHermesEvent (event : Event) :
    (mapHermesEvent py event).bind tokenText =
      if eventTypeOf py event = "message.delta" then some (deltaText py event) else none := by
  unfold mapHermesEvent
  dsimp only
  split
  next h =>
    rw [h, if_neg (by decide)]
    rfl
  split
  · rfl
  split
  · rfl
  split
  · rfl
  split
  · rfl
  · rfl

theorem tokenTexts_mapped (events : List Event) :
    (events.filterMap (mapHermesEvent py)).filterMap tokenText = sentTexts py events := by
  rw [List.filterMap_filterMap, sentTexts]
  exact List.filterMap_congr fun event _ => tokenText_mapHermesEvent event

/-- The variables of the loop behind some events of the runtime. -/
structure Relay.Reflects (py : StreamPython) (s : Relay) (events : List Event) : Prop where
  parts : s.outputParts = sentTexts py events
  yielded : sentTexts py s.yielded = sentTexts py events
  /-- The output is that of the last completion. -/
  output : s.completed = true → ∃ front event back, events = front ++ event :: back ∧
    eventTypeOf py event = "run.completed" ∧
    (∀ e ∈ back, eventTypeOf py e ≠ "run.completed") ∧
    s.stored.output = some (outputOf py event (sentTexts py front))

theorem collect_outputParts {s : Relay} {event : Event} (h : IsTextual py event) :
    (s.collect py event).outputParts = s.outputParts ++ sentTexts py [event] := by
  by_cases hdelta : eventTypeOf py event = "message.delta"
  · obtain ⟨text, htext⟩ := h hdelta
    simp only [Relay.collect, if_pos hdelta, htext, sentTexts, List.filterMap_cons,
      List.filterMap_nil, deltaText_string htext]
  · rw [sentTexts_other hdelta, List.append_nil]
    exact if_neg hdelta

theorem eventTypeOf_set_output (event : Event) (v : Json) :
    eventTypeOf py (event.set "output" v) = eventTypeOf py event := by
  rw [eventTypeOf, Dict.get?_set, if_neg (by decide)]
  rfl

/-- An event that the loop hands on. -/
theorem reflects_onEvent {n : Nat} {s after : Relay} {events : List Event} {event : Event}
    (h : s.Reflects py events) (htextual : IsTextual py event)
    (hstep : s.onEvent py env n event = (after, none)) : after.Reflects py (events ++ [event]) := by
  have hparts : (s.collect py event).outputParts = sentTexts py (events ++ [event]) := by
    rw [collect_outputParts htextual, h.parts, sentTexts_append]
  unfold Relay.onEvent at hstep
  dsimp only at hstep
  split at hstep
  · cases hstep
  split at hstep
  · cases hstep
  split at hstep
  next hcompleted =>
    -- A completion carries no text, and the output is that of the events before it.
    have hnone : sentTexts py [event] = [] :=
      sentTexts_other (by rw [hcompleted]; decide)
    rw [sentTexts_append, hnone, List.append_nil] at hparts
    split at hstep
    · cases hstep
    next stored hcomplete =>
      obtain ⟨-, houtput⟩ := complete_eq_none hcomplete
      cases hstep
      refine ⟨?_, ?_, fun _ => ⟨events, event, [], rfl, hcompleted, nofun, ?_⟩⟩
      · rw [sentTexts_append, hnone, List.append_nil]
        exact hparts
      · have hset : eventTypeOf py (event.set "output"
            (.string (outputOf py event (s.collect py event).outputParts))) ≠ "message.delta" := by
          rw [eventTypeOf_set_output, hcompleted]
          decide
        rw [sentTexts_append, sentTexts_append, hnone, sentTexts_other hset]
        exact congrArg (· ++ []) h.yielded
      · rw [houtput, hparts]
  next hcompleted =>
    -- Any other event leaves the last completion the last.
    cases hstep
    refine ⟨hparts, ?_, ?_⟩
    · rw [sentTexts_append, sentTexts_append]
      exact congrArg (· ++ sentTexts py [event]) h.yielded
    · intro hs
      obtain ⟨front, last, back, rfl, hlast, hback, houtput⟩ := h.output hs
      refine ⟨front, last, back ++ [event], ?_, hlast, ?_, houtput⟩
      · rw [List.append_assoc]
        rfl
      · intro e he
        rcases List.mem_append.mp he with he | he
        · exact hback e he
        · rwa [List.mem_singleton.mp he]

/-- The loop has handed on a beginning of the events, and all of them where it has come to its
    end. -/
theorem reflects_onEvents {n : Nat} {s after : Relay} {events rest : List Event}
    {ending : Option Exc} (h : s.Reflects py events) (htextual : ∀ e ∈ rest, IsTextual py e)
    (hrun : s.onEvents py env n rest = (after, ending)) :
    ∃ front, front <+: rest ∧ sentTexts py after.yielded = sentTexts py (events ++ front) ∧
      (ending = none → front = rest ∧ after.Reflects py (events ++ rest)) := by
  induction rest generalizing n s events with
  | nil =>
      cases hrun
      rw [List.append_nil]
      exact ⟨[], List.prefix_rfl, by rw [List.append_nil]; exact h.yielded, fun _ => ⟨rfl, h⟩⟩
  | cons event rest ih =>
      rw [Relay.onEvents] at hrun
      split at hrun
      next s' e hstep =>
        -- An event that ends the loop is not handed on.
        cases hrun
        refine ⟨[], List.nil_prefix, ?_, nofun⟩
        rw [yielded_onEvent hstep, List.append_nil]
        exact h.yielded
      next s' hstep =>
        have hnext := reflects_onEvent h (htextual event List.mem_cons_self) hstep
        obtain ⟨front, hfront, htexts, hend⟩ :=
          ih hnext (fun e he => htextual e (List.mem_cons_of_mem event he)) hrun
        rw [List.append_assoc] at htexts hend
        refine ⟨event :: front, List.cons_prefix_cons.mpr ⟨rfl, hfront⟩, htexts, ?_⟩
        intro hnone
        obtain ⟨rfl, hreflects⟩ := hend hnone
        exact ⟨rfl, hreflects⟩

theorem reflects_initial (stored : Stored) : (Relay.initial stored).Reflects py [] :=
  ⟨rfl, rfl, nofun⟩

theorem tokenText_terminalFrame (env : RunEnv) (ending : Option Exc) :
    (terminalFrame env ending).toList.filterMap tokenText = [] := by
  match ending with
  | none => rfl
  | some e => cases e <;> rfl

/-- The text of a run: its tokens are the deltas of a beginning of the events, of all events where
    it succeeds, and the output is that of the last completion. -/
theorem relay_text (env : RunEnv) (stored : Stored) {source : Source}
    (htextual : ∀ e ∈ source.events, IsTextual py e) :
    ∃ front, front <+: source.events ∧
      (internalSseEvents py env (some stored) source).1.filterMap tokenText = sentTexts py front ∧
      ((streamPreparedAgent py env stored source).2.1 = none → front = source.events ∧
        ∃ before event back, source.events = before ++ event :: back ∧
          eventTypeOf py event = "run.completed" ∧
          (∀ e ∈ back, eventTypeOf py e ≠ "run.completed") ∧
          (streamPreparedAgent py env stored source).2.2.output =
            some (outputOf py event (sentTexts py before))) := by
  cases hrun : (Relay.initial stored).onEvents py env 0 source.events with
  | mk after ending =>
      obtain ⟨front, hfront, htexts, hend⟩ :=
        reflects_onEvents (reflects_initial stored) htextual hrun
      have hyielded : (streamPreparedAgent py env stored source).1 = after.yielded := by
        rw [streamPreparedAgent, hrun]
      refine ⟨front, hfront, ?_, ?_⟩
      · rw [internalSseEvents, List.filterMap_append, tokenText_terminalFrame, List.append_nil]
        show ((streamPreparedAgent py env stored source).1.filterMap _).filterMap tokenText = _
        rw [hyielded, tokenTexts_mapped, htexts]
        rfl
      · intro hnone
        obtain ⟨s, hrun', hcompleted, hstored⟩ := completed_of_ending hnone
        rw [hrun] at hrun'
        cases hrun'
        obtain ⟨rfl, hreflects⟩ := hend rfl
        rw [hstored]
        exact ⟨rfl, hreflects.output hcompleted⟩

/-! ## The console -/

/-- `if (name && !value.event) value.event = name`, for a name. -/
def setEventName (name : List Char) (value : Event) : Option Event :=
  if Json.jsTruthy (get value "event") then some value
  else some (value.set "event" (.string (String.ofList name)))

section Console

-- `String(value || '')` of a value that is no string.
variable (jsString : Json → String)

/-- What an event adds to `streamedOutput`. -/
def consoleText (value : Event) : String :=
  match get value "event", get value "text" with
  | .string name, .string text => if name = "token" then text else ""
  | .string name, v => if name = "token" then jsString v else ""
  | _, _ => ""

/-- `streamedOutput`, behind some events. -/
def streamedOutput (events : List Event) : String := String.join (events.map (consoleText jsString))

end Console

/-- The events of the response by their names. -/
inductive Shaped : Frame → Prop where
  | start (agent execution : Json) :
      Shaped (.start, [("event", .string "start"), ("agent_id", agent),
        ("execution_id", execution)])
  | keepalive : Shaped (.keepalive, [("event", .string "keepalive")])
  | token (text : String) : Shaped (.token, [("event", .string "token"), ("text", .string text)])
  | tool (type name duration error : Json) :
      Shaped (.tool, [("event", .string "tool"), ("type", type), ("name", name),
        ("duration", duration), ("error", error)])
  | trace (type data : Json) :
      Shaped (.trace, [("event", .string "trace"), ("type", type), ("data", data)])
  | finish (status execution : Json) :
      Shaped (.finish, [("event", .string "end"), ("status", status), ("execution_id", execution)])
  | error (status message : Json) :
      Shaped (.error, [("event", .string "error"), ("status", status), ("message", message)])

theorem shaped_mapHermesEvent {event : Event} {frame : Frame}
    (h : mapHermesEvent py event = some frame) : Shaped frame := by
  unfold mapHermesEvent at h
  dsimp only at h
  split at h
  · cases h
    exact .keepalive
  split at h
  · cases h
    exact .token _
  split at h
  · cases h
    exact .tool _ _ _ _
  split at h
  · cases h
    exact .trace _ _
  split at h
  · cases h
  · cases h
    exact .trace _ _

theorem shaped_terminalFrame {ending : Option Exc} {frame : Frame}
    (h : terminalFrame env ending = some frame) : Shaped frame := by
  match ending, h with
  | none, h =>
      cases h
      exact .finish _ _
  | some (.runtimeCancelled _), h =>
      cases h
      exact .finish _ _
  | some (.agentMemory _), h | some (.artifactStorage _), h | some (.hermesRuntime _), h
  | some (.runtimeAdapter _), h | some (.value _), h =>
      cases h
      exact .error _ _

theorem shaped_internalSseEvents (stored : Stored) (source : Source) :
    ∀ frame ∈ (internalSseEvents py env (some stored) source).1, Shaped frame := by
  intro frame hframe
  rcases List.mem_append.mp hframe with hframe | hframe
  · rcases List.mem_cons.mp hframe with rfl | hframe
    · exact .start _ _
    · obtain ⟨event, -, hmap⟩ := List.mem_filterMap.mp hframe
      exact shaped_mapHermesEvent hmap
  · exact shaped_terminalFrame (Option.mem_toList.mp hframe)

/-- The console reads the text of an event that it has parsed. -/
theorem received_shaped {frame : Frame} (h : Shaped frame) {parse : List Char → Option Event}
    (hparse : parse (Json.object frame.2).print = some (Dict.ofPairs frame.2))
    (jsString : Json → String) :
    received parse setEventName frame.1 frame.2 = .event (Dict.ofPairs frame.2) ∧
      consoleText jsString (Dict.ofPairs frame.2) = (tokenText frame).getD "" := by
  rw [received, hparse]
  cases h <;> exact ⟨rfl, rfl⟩

theorem deliver_events {V : Type} (values : List V) :
    deliver (values.map Emitted.event) = (values, false) := by
  induction values with
  | nil => rfl
  | cons value values ih => rw [List.map_cons, deliver, ih]

theorem join_getD (texts : List (Option String)) :
    String.join (texts.map (·.getD "")) = String.join (texts.filterMap id) := by
  induction texts with
  | nil => rfl
  | cons text texts ih =>
      cases text with
      | none =>
          rw [List.map_cons, List.filterMap_cons_none rfl, String.join_cons, ih]
          exact String.empty_append
      | some text =>
          have hsome : (some text :: texts).filterMap id = text :: texts.filterMap id := rfl
          rw [hsome, List.map_cons, String.join_cons, String.join_cons, ih]
          rfl

/-- What the console shows of a response. -/
theorem streamedOutput_received {frames : List Frame} (hshaped : ∀ frame ∈ frames, Shaped frame)
    {parse : List Char → Option Event} (jsString : Json → String)
    (hparse : ∀ frame ∈ frames,
      parse (Json.object frame.2).print = some (Dict.ofPairs frame.2))
    {chunks : List (List UInt8)}
    (hchunks : chunks.flatten = encode (frames.flatMap fun frame => sse frame.1 frame.2)) :
    (consumeSSE parse setEventName chunks).2 = false ∧
      streamedOutput jsString (consumeSSE parse setEventName chunks).1 =
        String.join (frames.filterMap tokenText) := by
  have hmap : (frames.map fun frame => received parse setEventName frame.1 frame.2) =
      (frames.map fun frame => Dict.ofPairs frame.2).map Emitted.event := by
    rw [List.map_map]
    exact List.map_congr_left fun frame hframe =>
      (received_shaped (hshaped frame hframe) (hparse frame hframe) jsString).1
  have htexts : (frames.map fun frame => consoleText jsString (Dict.ofPairs frame.2)) =
      (frames.map tokenText).map (·.getD "") := by
    rw [List.map_map]
    exact List.map_congr_left fun frame hframe =>
      (received_shaped (hshaped frame hframe) (hparse frame hframe) jsString).2
  rw [console_receives parse setEventName frames chunks hchunks, hmap, deliver_events]
  refine ⟨rfl, ?_⟩
  rw [streamedOutput, List.map_map]
  show String.join (frames.map fun frame => consoleText jsString (Dict.ofPairs frame.2)) = _
  rw [htexts, join_getD, List.filterMap_map]
  rfl

/-! ## From the runtime to the console -/

/-- The stream of an adapter as the source of a run. -/
def sourceOf (failureText : StreamFailure → String) (r : List Event × Option StreamFailure) :
    Source :=
  ⟨r.1, r.2.map fun failure => .runtimeAdapter (failureText failure)⟩

theorem source_ending {stored : Stored} {source : Source}
    (h : (streamPreparedAgent py env stored source).2.1 = none) : source.ending = none := by
  unfold streamPreparedAgent at h
  dsimp only at h
  rw [Option.or_eq_none_iff, Option.or_eq_none_iff] at h
  exact h.2.1

theorem outputOf_empty {event : Event} {parts : List String}
    (h : truthy (get event "output") = false) : outputOf py event parts = String.join parts := by
  rw [outputOf, orElse, if_neg (Bool.eq_false_iff.mp h)]
  rfl

/-- **The text that the console shows is the text that the runtime has sent**, however the bytes are
    cut on the way to the platform and on the way to the console: up to some event, and of all
    events where the run succeeds.  The output that is stored is then that of the last completion,
    and where the runtime leaves it empty and sends no text behind it, the text on the console.
    The deltas of the events are texts: another value the console shows, and the output leaves it
    out. -/
theorem console_text (events : List Event) (chunks₁ chunks₂ : List (List UInt8))
    (aiterLines : List (List UInt8) → List (List Char)) (failureText : StreamFailure → String)
    (parse : List Char → Option Event) (jsString : Json → String) (env : RunEnv) (stored : Stored)
    (source : Source)
    (hexact : ∀ e ∈ events, Json.Exact py.decoders (.object e.entries))
    (htextual : ∀ e ∈ events, IsTextual py (normalizeEvent py e))
    (hlines : ∀ chunks, aiterLines chunks = splitlines (decodeReplace chunks.flatten))
    (hchunks₁ : chunks₁.flatten = encode (events.flatMap dataFrame))
    (hsource : source = sourceOf failureText (runtimeEvents py false (aiterLines chunks₁)))
    (hparse : ∀ frame ∈ (internalSseEvents py env (some stored) source).1,
      parse (Json.object frame.2).print = some (Dict.ofPairs frame.2))
    (hchunks₂ : chunks₂.flatten = encode
      ((internalSseEvents py env (some stored) source).1.flatMap fun frame =>
        sse frame.1 frame.2)) :
    ∃ front, front <+: events.takeWhile isUnbroken ∧
      streamedOutput jsString (consumeSSE parse setEventName chunks₂).1 =
        String.join (sentTexts py (front.map (normalizeEvent py))) ∧
      ((streamPreparedAgent py env stored source).2.1 = none →
        front = events ∧ ∃ before event back,
          events.map (normalizeEvent py) = before ++ event :: back ∧
          eventTypeOf py event = "run.completed" ∧
          (∀ e ∈ back, eventTypeOf py e ≠ "run.completed") ∧
          (streamPreparedAgent py env stored source).2.2.output =
            some (outputOf py event (sentTexts py before)) ∧
          (truthy (get event "output") = false → sentTexts py back = [] →
            outputOf py event (sentTexts py before) =
              streamedOutput jsString (consumeSSE parse setEventName chunks₂).1)) := by
  have hshown := (streamedOutput_received (shaped_internalSseEvents stored source) jsString hparse
    hchunks₂).2
  rw [runtime_received events chunks₁ aiterLines hexact hlines hchunks₁] at hsource
  have hevents : source.events = (events.takeWhile isUnbroken).map (normalizeEvent py) := by
    rw [hsource, sourceOf]
  have htextual' : ∀ e ∈ source.events, IsTextual py e := by
    intro e he
    rw [hevents] at he
    obtain ⟨event, hevent, rfl⟩ := List.mem_map.mp he
    exact htextual event ((List.takeWhile_prefix _).subset hevent)
  obtain ⟨texts, hprefix, htexts, hend⟩ := relay_text env stored htextual'
  rw [hevents] at hprefix hend
  obtain ⟨front, hfront, rfl⟩ := List.prefix_map_iff.mp hprefix
  refine ⟨front, hfront, by rw [hshown, htexts], ?_⟩
  intro hnone
  obtain ⟨hwhole, before, event, back, hsplit, hcompleted, hlast, houtput⟩ := hend hnone
  -- A source that does not fail has no broken event.
  have hall : events.all isUnbroken = true := by
    have hending := source_ending hnone
    by_cases hall : events.all isUnbroken = true
    · exact hall
    · rw [hsource, sourceOf, if_neg hall] at hending
      cases hending
  have htake : events.takeWhile isUnbroken = events :=
    List.takeWhile_eq_self_iff.mpr (List.all_eq_true.mp hall)
  rw [htake] at hfront hwhole hsplit
  have hlength := congrArg List.length hwhole
  rw [List.length_map, List.length_map] at hlength
  obtain rfl := hfront.eq_of_length hlength
  refine ⟨rfl, before, event, back, hsplit, hcompleted, hlast, houtput, ?_⟩
  intro hempty hback
  have hevent : sentTexts py [event] = [] := sentTexts_other (by rw [hcompleted]; decide)
  rw [outputOf_empty hempty, hshown, htexts, hsplit, sentTexts_append,
    ← List.singleton_append, sentTexts_append, hevent, hback, List.append_nil, List.append_nil]

/-- `JSON.parse` of an object. -/
def parseObject (decoders : Json.Decoders) (text : List Char) : Option Event :=
  match Json.readText decoders text with
  | some (.object members) => some (Dict.ofPairs members)
  | _ => none

theorem exact_strings {decoders : Json.Decoders} {members : List (String × Json)}
    (hnodup : (members.map Prod.fst).Nodup) (hstring : ∀ m ∈ members, ∃ s, m.2 = .string s) :
    Json.Exact decoders (.object members) := by
  refine .object hnodup fun m hm => ?_
  obtain ⟨s, hs⟩ := hstring m hm
  rw [hs]
  exact .string s

theorem parseObject_print {decoders : Json.Decoders} {members : List (String × Json)}
    (h : Json.Exact decoders (.object members)) :
    parseObject decoders (Json.object members).print = some (Dict.ofPairs members) := by
  rw [parseObject, Json.readText_print h]

/-- A run in which nothing fails. -/
def sampleEnv : RunEnv :=
  { label := "Pi"
    agentId := "writer"
    executionId := "run-1"
    input := "hi"
    validate := fun _ => none
    completing := fun _ => ⟨none, none, none, false, none⟩
    cancelledAtEnd := false }

def sampleStored : Stored := ⟨.running, none, none, none, none, [], []⟩

def sampleEvents : List Event :=
  [tokenEvent "é", tokenEvent "!", ⟨[("type", .string "done")], List.nodup_singleton _⟩]

def sampleSource : Source := ⟨sampleEvents.map (normalizeEvent asciiPython), none⟩

def sampleFrames : List Frame :=
  [startFrame sampleEnv, (.token, [("event", .string "token"), ("text", .string "é")]),
    (.token, [("event", .string "token"), ("text", .string "!")]), endFrame sampleEnv "success"]

/-- Bytes that are cut behind so many. -/
def cutBehind (n : Nat) (bytes : List UInt8) : List (List UInt8) := [bytes.take n, bytes.drop n]

theorem flatten_cutBehind (n : Nat) (bytes : List UInt8) : (cutBehind n bytes).flatten = bytes := by
  rw [cutBehind, List.flatten_cons, List.flatten_singleton, List.take_append_drop]

/-- The text of a run whose bytes are cut within a character on both ways. -/
theorem console_text_sample :
    streamedOutput (fun _ => "") (consumeSSE (parseObject asciiPython.decoders) setEventName
      (cutBehind 106 (encode (sampleFrames.flatMap fun frame => sse frame.1 frame.2)))).1 =
        "é!" := by
  have hexact : ∀ e ∈ sampleEvents, Json.Exact asciiPython.decoders (.object e.entries) := by
    simp only [sampleEvents, List.forall_mem_cons]
    refine ⟨exact_strings (Dict.nodup _) ?_, exact_strings (Dict.nodup _) ?_,
      exact_strings (List.nodup_singleton _) ?_, List.forall_mem_nil _⟩ <;> simp [tokenEvent]
  have htextual : ∀ e ∈ sampleEvents, IsTextual asciiPython (normalizeEvent asciiPython e) := by
    simp only [sampleEvents, List.forall_mem_cons]
    exact ⟨fun _ => ⟨"é", rfl⟩, fun _ => ⟨"!", rfl⟩, fun h => absurd h (by decide),
      List.forall_mem_nil _⟩
  have hsource := runtime_received sampleEvents
    (cutBehind 32 (encode (sampleEvents.flatMap dataFrame)))
    (fun chunks => splitlines (decodeReplace chunks.flatten)) hexact (fun _ => rfl)
    (flatten_cutBehind 32 _)
  have hframes : (internalSseEvents asciiPython sampleEnv (some sampleStored) sampleSource).1 =
      sampleFrames := rfl
  have hparse : ∀ frame ∈ sampleFrames,
      parseObject asciiPython.decoders (Json.object frame.2).print =
        some (Dict.ofPairs frame.2) := by
    simp only [sampleFrames, List.forall_mem_cons]
    refine ⟨parseObject_print (exact_strings (by decide) ?_),
      parseObject_print (exact_strings (by decide) ?_),
      parseObject_print (exact_strings (by decide) ?_),
      parseObject_print (exact_strings (by decide) ?_),
      List.forall_mem_nil _⟩ <;> simp [startFrame, endFrame]
  obtain ⟨front, -, htext, hend⟩ := console_text sampleEvents
    (cutBehind 32 (encode (sampleEvents.flatMap dataFrame)))
    (cutBehind 106 (encode (sampleFrames.flatMap fun frame => sse frame.1 frame.2)))
    (fun chunks => splitlines (decodeReplace chunks.flatten)) (fun _ => "")
    (parseObject asciiPython.decoders) (fun _ => "") sampleEnv sampleStored sampleSource hexact
    htextual (fun _ => rfl) (flatten_cutBehind 32 _) (by rw [hsource]; rfl)
    (by rw [hframes]; exact hparse) (by rw [hframes]; exact flatten_cutBehind 106 _)
  have hsuccess :
      (streamPreparedAgent asciiPython sampleEnv sampleStored sampleSource).2.1 = none :=
    rfl
  obtain ⟨rfl, -⟩ := hend hsuccess
  rw [htext]
  rfl

end Streams
end HermesPlatform
