/-
  HermesPlatform.Streams.RuntimeStream

  The events that a runtime streams to the platform: `_sse` of the DeepSeek bridge and `sendSse`
  of the Pi Runtime write them, `PiRuntimeAdapter.stream` reads them line by line.

  A line ends where `str.splitlines` ends it, so also at U+0085, U+2028 and U+2029, and the
  writers leave these characters as they are.  The adapter receives the events up to the first
  one that has such a character in one of its texts, and there it fails (`runtime_received`).
  `response.aiter_lines()` of `httpx` is a parameter: it has the behaviour of `splitlines` on the
  decoded text.
-/

import HermesPlatform.Gateway.Policy
import HermesPlatform.Lib.JsonPrefix
import HermesPlatform.Streams.EventStream

namespace HermesPlatform
namespace Streams

open Python Utf8
open Gateway (truthy)

/-- What the streams use of Python's values. -/
structure StreamPython where
  lower : String → String
  /-- `str` of a value that is no string. -/
  repr : Json → String
  decoders : Json.Decoders

/-- An event as a program holds it. -/
abbrev Event := Dict String Json

/-! ## Values -/

def StreamPython.str (py : StreamPython) : Json → String
  | .string s => s
  | v => py.repr v

/-- `event.get(key)`, where `None` is `null`. -/
def get (event : Event) (key : String) : Json := (event.get? key).getD .null

/-- `a or b`. -/
def orElse (a b : Json) : Json := if truthy a then a else b

/-- `event.setdefault(key, value)`. -/
def setDefault (event : Event) (key : String) (value : Json) : Event :=
  if key ∈ event.keys then event else event.set key value

/-! ## The runtime -/

/-- `_sse(event)`, `sendSse(response, event)`. -/
def dataFrame (event : Event) : List Char :=
  dataField ++ ' ' :: (Json.object event.entries).print ++ ['\n', '\n']

/-! ## The adapter -/

/-- Where `str.splitlines` ends a line. -/
def isLineBreak (c : Char) : Bool :=
  (10 ≤ c.toNat && c.toNat ≤ 13) || (28 ≤ c.toNat && c.toNat ≤ 30) ||
    c.toNat = 0x85 || c.toNat = 0x2028 || c.toNat = 0x2029

/-- `str.splitlines()`. -/
def splitlines : List Char → List (List Char)
  | [] => []
  | '\r' :: '\n' :: cs => [] :: splitlines cs
  | c :: cs =>
      if isLineBreak c then [] :: splitlines cs
      else
        match splitlines cs with
        | [] => [[c]]
        | line :: lines => (c :: line) :: lines

/-- `"[DONE]"`. -/
def doneMark : List Char := ['[', 'D', 'O', 'N', 'E', ']']

/-- How a stream can fail. -/
inductive StreamFailure where
  /-- "Runtime stream failed", for an `HTTPError` or a `ValueError`. -/
  | streamFailed
  /-- "Runtime returned a non-object event". -/
  | nonObjectEvent
deriving DecidableEq, Repr

section Adapter

variable (py : StreamPython)

/-- `_normalize_event(event)`. -/
def normalizeEvent (event : Event) : Event :=
  let eventType :=
    py.lower (py.str (orElse (get event "event") (orElse (get event "type") (.string ""))))
  if eventType ∈ ["token", "delta", "message", "message_delta"] then
    (event.set "event" (.string "message.delta")).set "delta"
      (.string (py.str (orElse (get event "delta") (orElse (get event "text") (.string "")))))
  else if eventType ∈ ["completed", "complete", "done", "success"] then
    setDefault (event.set "event" (.string "run.completed")) "output"
      (orElse (get event "output_text") (orElse (get event "result") (get event "text")))
  else if eventType ∈ ["failed", "error"] then event.set "event" (.string "run.failed")
  else if eventType ∈ ["cancelled", "canceled"] then event.set "event" (.string "run.cancelled")
  else if eventType ∈ ["tool_call", "tool.started", "tool_start"] then
    setDefault (event.set "event" (.string "tool.started")) "tool" (get event "name")
  else if eventType ∈ ["tool_result", "tool.completed", "tool_end"] then
    setDefault (event.set "event" (.string "tool.completed")) "tool" (get event "name")
  else if eventType = "" then event.set "event" (.string "runtime.event")
  else event.set "event" (.string eventType)

/-- The body of `PiRuntimeAdapter.stream` behind the response: the events that it yields, and the
    error that ends it.  The flag says that the connection breaks off behind the lines. -/
def runtimeEvents (broken : Bool) : List (List Char) → List Event × Option StreamFailure
  | [] => ([], if broken then some .streamFailed else none)
  | line :: lines =>
      if dataField.isPrefixOf line then
        let raw := stripChars (line.drop 5)
        if raw = [] then runtimeEvents broken lines
        else if raw = doneMark then
          let r := runtimeEvents broken lines
          (Dict.ofPairs [("event", .string "run.completed")] :: r.1, r.2)
        else
          match Json.readText py.decoders raw with
          | none => ([], some .streamFailed)
          | some (.object members) =>
              let r := runtimeEvents broken lines
              (normalizeEvent py (Dict.ofPairs members) :: r.1, r.2)
          | some _ => ([], some .nonObjectEvent)
      else runtimeEvents broken lines

end Adapter

/-! ## Lines -/

theorem splitlines_cons {c : Char} (cs : List Char) (h : c ≠ '\r') :
    splitlines (c :: cs) =
      if isLineBreak c then [] :: splitlines cs
      else
        match splitlines cs with
        | [] => [[c]]
        | line :: lines => (c :: line) :: lines := by
  rw [splitlines]
  rintro _ hc
  exact absurd hc h

theorem ne_return {c : Char} (h : isLineBreak c = false) : c ≠ '\r' := by
  rintro rfl
  cases h

/-- A line up to its end. -/
theorem splitlines_line {line : List Char} {c : Char} (rest : List Char)
    (hline : ∀ d ∈ line, isLineBreak d = false) (hc : isLineBreak c = true) (hreturn : c ≠ '\r') :
    splitlines (line ++ c :: rest) = line :: splitlines rest := by
  induction line with
  | nil => rw [List.nil_append, splitlines_cons _ hreturn, if_pos hc]
  | cons d line ih =>
      have hd := hline d List.mem_cons_self
      rw [List.cons_append, splitlines_cons _ (ne_return hd), hd,
        ih fun x hx => hline x (List.mem_cons_of_mem d hx)]
      rfl

/-- A list is cut in front of the first element with a property. -/
theorem exists_first {α : Type} (p : α → Bool) {xs : List α} (h : ∃ x ∈ xs, p x = true) :
    ∃ front x back, xs = front ++ x :: back ∧ p x = true ∧ ∀ y ∈ front, p y = false := by
  cases hdrop : xs.dropWhile (!p ·) with
  | nil =>
      obtain ⟨x, hx, hpx⟩ := h
      have hnot := List.dropWhile_eq_nil_iff.mp hdrop x hx
      rw [hpx] at hnot
      cases hnot
  | cons x back =>
      refine ⟨xs.takeWhile (!p ·), x, back, ?_, ?_, ?_⟩
      · rw [← hdrop, List.takeWhile_append_dropWhile]
      · have hne : xs.dropWhile (!p ·) ≠ [] := hdrop ▸ List.cons_ne_nil x back
        have hhead := List.head_dropWhile_not (!p ·) hne
        simpa [hdrop] using hhead
      · intro y hy
        simpa using List.mem_takeWhile_imp hy

/-! ## The events -/

variable {py : StreamPython}

/-- No text in the event has one of the characters that `json.dumps` leaves as they are and that
    end a line. -/
def isUnbroken (event : Event) : Bool :=
  (Json.object event.entries).print.all fun c =>
    c.toNat ≠ 0x85 && c.toNat ≠ 0x2028 && c.toNat ≠ 0x2029

theorem isUnbroken_eq (event : Event) :
    isUnbroken event = (Json.object event.entries).print.all (!isLineBreak ·) := by
  rw [isUnbroken, Bool.eq_iff_iff, List.all_eq_true, List.all_eq_true]
  refine forall₂_congr fun c hc => ?_
  have h32 := Json.le_of_mem_print hc
  simp only [isLineBreak, Bool.and_eq_true, decide_eq_true_eq, Bool.not_eq_true',
    Bool.or_eq_false_iff, Bool.and_eq_false_iff, decide_eq_false_iff_not]
  omega

theorem print_event (event : Event) :
    ∃ inner, (Json.object event.entries).print = '{' :: inner ++ ['}'] := ⟨_, rfl⟩

theorem stripChars_blank (cs : List Char) : stripChars (' ' :: cs) = stripChars cs := rfl

theorem stripChars_brace (cs : List Char) :
    ∃ front spaces, stripChars ('{' :: cs) = '{' :: front ∧ cs = front ++ spaces := by
  have hinitial : stripChars ('{' :: cs) <+: '{' :: cs := List.rdropWhile_prefix isSpace _
  have hne : stripChars ('{' :: cs) ≠ [] := by
    intro hnil
    have hspace := List.rdropWhile_eq_nil_iff.mp hnil '{' List.mem_cons_self
    cases hspace
  obtain ⟨c, front, hfront⟩ := List.exists_cons_of_ne_nil hne
  obtain ⟨spaces, hspaces⟩ := hinitial
  rw [hfront, List.cons_append] at hspaces
  obtain ⟨rfl, rfl⟩ := List.cons.inj hspaces
  exact ⟨front, spaces, hfront, rfl⟩

theorem stripChars_print (event : Event) :
    stripChars (Json.object event.entries).print = (Json.object event.entries).print := by
  obtain ⟨inner, hinner⟩ := print_event event
  rw [hinner]
  exact List.rdropWhile_concat_neg isSpace ('{' :: inner) '}' Bool.false_ne_true

/-- The line of an event. -/
theorem runtimeEvents_event {event : Event} (h : Json.Exact py.decoders (.object event.entries))
    (broken : Bool) (lines : List (List Char)) :
    runtimeEvents py broken ((dataField ++ ' ' :: (Json.object event.entries).print) :: lines) =
      (normalizeEvent py event :: (runtimeEvents py broken lines).1,
        (runtimeEvents py broken lines).2) := by
  have hraw : stripChars ((dataField ++ ' ' :: (Json.object event.entries).print).drop 5) =
      (Json.object event.entries).print := by
    rw [List.drop_left' (by rfl), stripChars_blank, stripChars_print]
  have hprefix :
      dataField.isPrefixOf (dataField ++ ' ' :: (Json.object event.entries).print) = true :=
    List.isPrefixOf_iff_prefix.mpr (List.prefix_append _ _)
  have hdict : Dict.ofPairs event.entries = event := by
    have hentries := Dict.entries_ofPairs event.nodup
    cases hpairs : Dict.ofPairs event.entries
    rw [hpairs] at hentries
    cases event
    cases hentries
    rfl
  have hne : (Json.object event.entries).print ≠ [] := Json.print_ne_nil _
  have hdone : (Json.object event.entries).print ≠ doneMark := by
    intro heq
    cases heq
  rw [runtimeEvents, if_pos hprefix]
  dsimp only
  rw [hraw, if_neg hne, if_neg hdone, Json.readText_print h]
  dsimp only
  rw [hdict]

/-- The line on which the text of an event breaks off. -/
theorem runtimeEvents_beginning {event : Event}
    (h : Json.Exact py.decoders (.object event.entries)) {front back : List Char}
    (htext : (Json.object event.entries).print = '{' :: front ++ back) (hback : back ≠ [])
    (broken : Bool) (lines : List (List Char)) :
    runtimeEvents py broken ((dataField ++ ' ' :: '{' :: front) :: lines) =
      ([], some .streamFailed) := by
  obtain ⟨front', spaces, hstrip, hfront⟩ := stripChars_brace front
  have hraw : stripChars ((dataField ++ ' ' :: '{' :: front).drop 5) = '{' :: front' := by
    rw [List.drop_left' (by rfl), stripChars_blank, hstrip]
  have hprefix : dataField.isPrefixOf (dataField ++ ' ' :: '{' :: front) = true :=
    List.isPrefixOf_iff_prefix.mpr (List.prefix_append _ _)
  have hdone : '{' :: front' ≠ doneMark := by
    intro heq
    cases heq
  have hread : Json.readText py.decoders ('{' :: front') = none := by
    have htext' : Json.print (.object event.entries) = ('{' :: front') ++ (spaces ++ back) := by
      rw [htext, hfront, List.cons_append, List.cons_append, List.append_assoc]
    exact Json.readText_beginning h htext' fun hnil => hback (List.append_eq_nil_iff.mp hnil).2
  rw [runtimeEvents, if_pos hprefix]
  dsimp only
  rw [hraw, if_neg (List.cons_ne_nil _ _), if_neg hdone, hread]

theorem dataField_unbroken : ∀ d ∈ dataField ++ [' ', '{'], isLineBreak d = false :=
  List.all_iff_forall_prop.mp (by decide)

/-- The lines of an event and of what follows it. -/
theorem splitlines_dataFrame {event : Event} (h : isUnbroken event = true) (rest : List Char) :
    splitlines (dataFrame event ++ rest) =
      (dataField ++ ' ' :: (Json.object event.entries).print) :: [] :: splitlines rest := by
  have hline : ∀ d ∈ dataField ++ ' ' :: (Json.object event.entries).print,
      isLineBreak d = false := by
    intro d hd
    rw [isUnbroken_eq] at h
    rcases List.mem_append.mp hd with hd | hd
    · exact dataField_unbroken d (List.mem_append_left _ hd)
    · rcases List.mem_cons.mp hd with rfl | hd
      · rfl
      · exact Bool.not_eq_true' _ |>.mp (List.all_eq_true.mp h d hd)
  have hblank : splitlines ('\n' :: rest) = [] :: splitlines rest :=
    splitlines_cons rest (by decide)
  rw [dataFrame, List.append_assoc]
  exact (splitlines_line ('\n' :: rest) hline rfl (by decide)).trans (congrArg _ hblank)

theorem runtimeEvents_blank (broken : Bool) (lines : List (List Char)) :
    runtimeEvents py broken ([] :: lines) = runtimeEvents py broken lines := rfl

/-- The first line of an event whose text is broken. -/
theorem splitlines_broken {event : Event} (h : isUnbroken event = false) (rest : List Char) :
    ∃ front back lines, (Json.object event.entries).print = '{' :: front ++ back ∧ back ≠ [] ∧
      splitlines (dataFrame event ++ rest) = (dataField ++ ' ' :: '{' :: front) :: lines := by
  obtain ⟨inner, hinner⟩ := print_event event
  obtain ⟨c, hc, hbreak⟩ : ∃ c ∈ inner ++ ['}'], isLineBreak c = true := by
    rw [isUnbroken_eq] at h
    obtain ⟨c, hc, hbreak⟩ := List.all_eq_false.mp h
    rw [hinner, List.cons_append] at hc
    rcases List.mem_cons.mp hc with rfl | hc
    · exact absurd rfl hbreak
    · exact ⟨c, hc, by simpa using hbreak⟩
  -- The text up to the first character that ends a line.
  obtain ⟨front, d, back, heq, hd, hfront⟩ := exists_first isLineBreak ⟨c, hc, hbreak⟩
  have hprint : (Json.object event.entries).print = '{' :: front ++ d :: back := by
    rw [hinner, List.cons_append, heq]
    rfl
  have hreturn : d ≠ '\r' := by
    rintro rfl
    have hmem : '\r' ∈ (Json.object event.entries).print := by
      rw [hprint]
      exact List.mem_append_right _ List.mem_cons_self
    exact absurd (Json.le_of_mem_print hmem) (by decide)
  have hline : ∀ x ∈ dataField ++ ' ' :: '{' :: front, isLineBreak x = false := by
    intro x hx
    have hx : x ∈ dataField ++ [' ', '{'] ∨ x ∈ front := by
      simpa only [List.mem_append, List.mem_cons, List.not_mem_nil, or_false, or_assoc] using hx
    rcases hx with hx | hx
    · exact dataField_unbroken x hx
    · exact hfront x hx
  refine ⟨front, d :: back, splitlines (back ++ '\n' :: '\n' :: rest), hprint,
    List.cons_ne_nil _ _, ?_⟩
  rw [← splitlines_line _ hline hd hreturn, dataFrame, hprint]
  simp only [List.append_assoc, List.cons_append, List.nil_append]

/-- **The adapter receives the events up to the first one whose text a line break cuts**, and fails
    there. -/
theorem runtimeEvents_splitlines {events : List Event}
    (h : ∀ e ∈ events, Json.Exact py.decoders (.object e.entries)) :
    runtimeEvents py false (splitlines (events.flatMap dataFrame)) =
      ((events.takeWhile isUnbroken).map (normalizeEvent py),
        if events.all isUnbroken then none else some .streamFailed) := by
  induction events with
  | nil => rfl
  | cons event events ih =>
      have hevent := h event List.mem_cons_self
      have ih := ih fun e he => h e (List.mem_cons_of_mem event he)
      rw [List.flatMap_cons]
      by_cases hunbroken : isUnbroken event = true
      · rw [splitlines_dataFrame hunbroken, runtimeEvents_event hevent, runtimeEvents_blank, ih,
          List.takeWhile_cons_of_pos hunbroken, List.all_cons, hunbroken, Bool.true_and]
        rfl
      · obtain ⟨front, back, lines, htext, hback, hlines⟩ :=
          splitlines_broken (Bool.eq_false_iff.mpr hunbroken) (events.flatMap dataFrame)
        rw [hlines, runtimeEvents_beginning hevent htext hback,
          List.takeWhile_cons_of_neg hunbroken, List.all_cons, Bool.eq_false_iff.mpr hunbroken]
        rfl

/-- **The events that the adapter yields**, however the bytes of the response are cut. -/
theorem runtime_received (events : List Event) (chunks : List (List UInt8))
    (aiterLines : List (List UInt8) → List (List Char))
    (hexact : ∀ e ∈ events, Json.Exact py.decoders (.object e.entries))
    (hlines : ∀ chunks, aiterLines chunks = splitlines (decodeReplace chunks.flatten))
    (hchunks : chunks.flatten = encode (events.flatMap dataFrame)) :
    runtimeEvents py false (aiterLines chunks) =
      ((events.takeWhile isUnbroken).map (normalizeEvent py),
        if events.all isUnbroken then none else some .streamFailed) := by
  rw [hlines, hchunks, decodeReplace_encode, runtimeEvents_splitlines hexact]

/-- Python's values on ASCII texts and strings. -/
def asciiPython : StreamPython :=
  { lower := asciiLower
    repr := fun _ => ""
    decoders := .ascii }

/-- The event of a token. -/
def tokenEvent (text : String) : Event :=
  ⟨[("type", .string "token"), ("text", .string text)],
    (by decide : ["type", "text"].Nodup)⟩

/-- A token with a line separator ends the stream. -/
theorem runtime_received_separator :
    runtimeEvents asciiPython false (splitlines (decodeReplace (List.flatten
      [(encode ([tokenEvent "é", tokenEvent "a\u2028b"].flatMap dataFrame)).take 32,
        (encode ([tokenEvent "é", tokenEvent "a\u2028b"].flatMap dataFrame)).drop 32]))) =
      ([normalizeEvent asciiPython (tokenEvent "é")], some .streamFailed) := by
  have hexact (text : String) :
      Json.Exact asciiPython.decoders (.object (tokenEvent text).entries) := by
    refine .object (tokenEvent text).nodup ?_
    intro m hm
    rcases List.mem_pair.mp hm with rfl | rfl
    · exact .string _
    · exact .string _
  refine (runtime_received [tokenEvent "é", tokenEvent "a\u2028b"] _
    (fun chunks => splitlines (decodeReplace chunks.flatten)) ?_ (fun _ => rfl)
    (by rw [List.flatten_cons, List.flatten_singleton, List.take_append_drop])).trans ?_
  · intro e he
    rcases List.mem_pair.mp he with rfl | rfl
    · exact hexact "é"
    · exact hexact "a\u2028b"
  · rfl

end Streams
end HermesPlatform
