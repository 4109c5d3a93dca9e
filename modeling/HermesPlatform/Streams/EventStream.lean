/-
  HermesPlatform.Streams.EventStream

  The events that the platform streams to its console: `_sse` writes them as server-sent
  events, `consumeSSE` reads them from the chunks of a response body.

  However the bytes of the stream are cut, also within a character, the console receives the
  events that have been sent, in their order.  `JSON.parse` and the assignment of a missing
  event name are parameters.
-/

import HermesPlatform.Lib.JsonText
import HermesPlatform.Lib.Utf8Stream

namespace HermesPlatform
namespace Streams

open Incremental Utf8

/-! ## The server -/

inductive EventName where
  | start
  | trace
  | token
  | tool
  | keepalive
  | finish
  | error
deriving DecidableEq, Repr

def EventName.text : EventName → List Char
  | .start => ['s', 't', 'a', 'r', 't']
  | .trace => ['t', 'r', 'a', 'c', 'e']
  | .token => ['t', 'o', 'k', 'e', 'n']
  | .tool => ['t', 'o', 'o', 'l']
  | .keepalive => ['k', 'e', 'e', 'p', 'a', 'l', 'i', 'v', 'e']
  | .finish => ['e', 'n', 'd']
  | .error => ['e', 'r', 'r', 'o', 'r']

/-- `"event:"`. -/
def eventField : List Char := ['e', 'v', 'e', 'n', 't', ':']

/-- `"data:"`. -/
def dataField : List Char := ['d', 'a', 't', 'a', ':']

/-- `_sse(event, payload)`, with the members of the payload. -/
def sse (event : EventName) (payload : List (String × Json)) : List Char :=
  eventField ++ ' ' :: event.text ++
    '\n' :: (dataField ++ ' ' :: (Json.object payload).print) ++ ['\n', '\n']

/-! ## The console -/

/-- A `TextDecoder`: the bytes it keeps back, and whether it has put out anything. -/
structure TextDecoder where
  kept : List UInt8
  started : Bool
deriving DecidableEq, Repr

/-- A byte order mark at the beginning is left out. -/
def dropBom : List Char → List Char
  | '\uFEFF' :: cs => cs
  | cs => cs

/-- `decoder.decode(bytes, { stream })`. -/
def TextDecoder.decode (d : TextDecoder) (bytes : List UInt8) (stream : Bool) :
    List Char × TextDecoder :=
  let r := segmentReader.drain (d.kept ++ bytes)
  let segments := if stream then r.1 else r.1 ++ flush r.2
  let text := segments.map Segment.text
  (if d.started then text else dropBom text,
    ⟨if stream then r.2 else [], d.started || !segments.isEmpty⟩)

/-- `text.replace(/\r\n/g, '\n')`. -/
def replaceCrlf : List Char → List Char
  | '\r' :: '\n' :: cs => '\n' :: replaceCrlf cs
  | c :: cs => c :: replaceCrlf cs
  | [] => []

/-- `WhiteSpace` and `LineTerminator`. -/
def isWhite (c : Char) : Bool :=
  (9 ≤ c.toNat && c.toNat ≤ 13) || (0x2000 ≤ c.toNat && c.toNat ≤ 0x200a) ||
    c.toNat ∈ [0x20, 0xa0, 0x1680, 0x2028, 0x2029, 0x202f, 0x205f, 0x3000, 0xfeff]

def trimStart (cs : List Char) : List Char := cs.dropWhile isWhite

def trim (cs : List Char) : List Char := (trimStart (trimStart cs).reverse).reverse

/-- What a frame leads to: an event that is handed on, or an exception. -/
inductive Emitted (V : Type) where
  | nothing
  | event (value : V)
  | raised
deriving DecidableEq, Repr

section Console

variable {V : Type} (parse : List Char → Option V) (setName : List Char → V → Option V)

/-- `emitSSEFrame(frame, onEvent)`. -/
def emitSSEFrame (frame : List Char) : Emitted V :=
  let lines := frame.splitOn '\n'
  let name := ((lines.find? (eventField.isPrefixOf ·)).map fun line => trim (line.drop 6)).getD []
  let raw := ['\n'].intercalate
    ((lines.filter (dataField.isPrefixOf ·)).map fun line => trimStart (line.drop 5))
  if raw = [] then .nothing
  else
    match parse raw with
    | none => .raised
    | some value =>
        if name = [] then .event value
        else
          match setName name value with
          | none => .raised
          | some value => .event value

/-- The events that are handed on one after the other, and whether an exception ends it. -/
def deliver : List (Emitted V) → List V × Bool
  | [] => ([], false)
  | .nothing :: rest => deliver rest
  | .event value :: rest => (value :: (deliver rest).1, (deliver rest).2)
  | .raised :: _ => ([], true)

/-- The reader of the parts that `buffer.split('\n\n')` gives, without the last. -/
def frameReader : Reader Char (List Char) := upTo ['\n', '\n'] (List.cons_ne_nil _ _)

/-- The variables of the loop, and whether it has been left by an exception. -/
structure Consumer (V : Type) where
  decoder : TextDecoder
  buffer : List Char
  delivered : List V
  raised : Bool

/-- One iteration. -/
def Consumer.iteration (stream : Bool) (s : Consumer V) (bytes : List UInt8) : Consumer V :=
  if s.raised then s
  else
    let (text, decoder) := s.decoder.decode bytes stream
    let r := frameReader.drain (s.buffer ++ replaceCrlf text)
    let d := deliver (r.1.map (emitSSEFrame parse setName))
    ⟨decoder, r.2, s.delivered ++ d.1, d.2⟩

def Consumer.initial : Consumer V := ⟨⟨[], false⟩, [], [], false⟩

/-- `consumeSSE(body, onEvent)`: what is handed to `onEvent`, and whether the promise is
    rejected. -/
def consumeSSE (chunks : List (List UInt8)) : List V × Bool :=
  let s := chunks.foldl (Consumer.iteration parse setName true) Consumer.initial
  let s := s.iteration parse setName false []
  if s.raised then (s.delivered, true)
  else if trim s.buffer = [] then (s.delivered, false)
  else
    let d := deliver [emitSSEFrame parse setName s.buffer]
    (s.delivered ++ d.1, d.2)

end Console

/-! ## The decoder -/

theorem dropBom_append (xs ys : List Char) :
    dropBom (xs ++ ys) = if xs = [] then dropBom ys else dropBom xs ++ ys := by
  cases xs with
  | nil => rfl
  | cons x xs =>
      rw [if_neg (List.cons_ne_nil _ _), List.cons_append]
      unfold dropBom
      by_cases h : x = '\uFEFF'
      · subst h
        rfl
      · split
        next heq => exact absurd (List.cons.inj heq).1 h
        next =>
          split
          next heq => exact absurd (List.cons.inj heq).1 h
          next => rfl

/-- The state of the decoder behind some bytes. -/
def decoderAt (bytes : List UInt8) : TextDecoder :=
  ⟨(segmentReader.drain bytes).2, !(segmentReader.drain bytes).1.isEmpty⟩

/-- The text that has come out behind some bytes. -/
def textAt (bytes : List UInt8) : List Char :=
  dropBom ((segmentReader.drain bytes).1.map Segment.text)

theorem dropBom_map_append (xs ys : List Segment) :
    dropBom ((xs ++ ys).map Segment.text) =
      dropBom (xs.map Segment.text) ++
        (if xs.isEmpty = false then ys.map Segment.text else dropBom (ys.map Segment.text)) := by
  rw [List.map_append, dropBom_append]
  cases xs with
  | nil => rfl
  | cons x xs => rfl

/-- One chunk of the stream. -/
theorem decode_stream (bytes chunk : List UInt8) :
    textAt (bytes ++ chunk) = textAt bytes ++ ((decoderAt bytes).decode chunk true).1 ∧
      ((decoderAt bytes).decode chunk true).2 = decoderAt (bytes ++ chunk) := by
  have happend := Reader.drain_append (R := segmentReader) bytes chunk
  constructor
  · rw [textAt, happend, dropBom_map_append]
    simp only [textAt, decoderAt, TextDecoder.decode, if_true, Bool.not_eq_true']
  · simp only [decoderAt, happend, TextDecoder.decode, if_true]
    cases (segmentReader.drain bytes).1 <;> rfl

/-- The end of the stream. -/
theorem decode_end (bytes : List UInt8) :
    textAt bytes ++ ((decoderAt bytes).decode [] false).1 = dropBom (decodeReplace bytes) := by
  have hkept : segmentReader.drain ((segmentReader.drain bytes).2 ++ []) =
      ([], (segmentReader.drain bytes).2) := by
    rw [List.append_nil]
    exact Reader.drain_none (Reader.next_drain bytes)
  rw [decodeReplace, segments_eq_drain, dropBom_map_append]
  simp only [textAt, decoderAt, TextDecoder.decode, hkept, Bool.false_eq_true, if_false,
    List.nil_append, Bool.not_eq_true']

/-! ## Frames -/

theorem replaceCrlf_of_notMem {cs : List Char} (h : '\r' ∉ cs) : replaceCrlf cs = cs := by
  induction cs with
  | nil => rfl
  | cons c cs ih =>
      rw [List.mem_cons, not_or] at h
      rw [replaceCrlf]
      · rw [ih h.2]
      · rintro _ rfl
        exact absurd rfl h.1

section Frames

variable {V : Type}

theorem deliver_append (xs ys : List (Emitted V)) :
    deliver (xs ++ ys) =
      if (deliver xs).2 then deliver xs
      else ((deliver xs).1 ++ (deliver ys).1, (deliver ys).2) := by
  induction xs with
  | nil => rfl
  | cons x xs ih =>
      cases x with
      | nothing => exact ih
      | raised => rfl
      | event value =>
          rw [List.cons_append, deliver, deliver, ih]
          dsimp only
          split <;> rfl

variable (parse : List Char → Option V) (setName : List Char → V → Option V)

/-- What the frames of a text lead to. -/
def outcome (text : List Char) : List V × Bool :=
  deliver ((frameReader.drain text).1.map (emitSSEFrame parse setName))

theorem outcome_append (text more : List Char) :
    outcome parse setName (text ++ more) =
      if (outcome parse setName text).2 then outcome parse setName text
      else
        ((outcome parse setName text).1 ++
            (outcome parse setName ((frameReader.drain text).2 ++ more)).1,
          (outcome parse setName ((frameReader.drain text).2 ++ more)).2) := by
  rw [outcome, Reader.drain_append, List.map_append, deliver_append]
  rfl

/-- What holds of the loop behind some text: where it goes on, the buffer is the incomplete
    frame. -/
structure Consumer.At (s : Consumer V) (text : List Char) : Prop where
  delivered : (s.delivered, s.raised) = outcome parse setName text
  buffer : s.raised = false → s.buffer = (frameReader.drain text).2

variable {parse setName}

theorem Consumer.At.stuck {s : Consumer V} {text : List Char} (h : s.At parse setName text)
    (hraised : s.raised = true) (more : List Char) : s.At parse setName (text ++ more) := by
  have hdelivered := h.delivered
  refine ⟨?_, fun hfalse => absurd (hraised ▸ hfalse) (by decide)⟩
  rw [outcome_append, ← hdelivered, if_pos hraised]

/-- One iteration takes the text on that the decoder puts out. -/
theorem Consumer.At.iteration {s : Consumer V} {text : List Char} (h : s.At parse setName text)
    (stream : Bool) (bytes : List UInt8) (hcr : '\r' ∉ (s.decoder.decode bytes stream).1)
    (hraised : s.raised = false) :
    (s.iteration parse setName stream bytes).At parse setName
        (text ++ (s.decoder.decode bytes stream).1) ∧
      (s.iteration parse setName stream bytes).decoder = (s.decoder.decode bytes stream).2 := by
  have hdelivered := h.delivered
  have hbuffer := h.buffer hraised
  unfold Consumer.iteration
  rw [hraised, if_neg Bool.false_ne_true]
  dsimp only
  rw [replaceCrlf_of_notMem hcr, hbuffer]
  refine ⟨⟨?_, ?_⟩, rfl⟩
  · dsimp only
    rw [outcome_append, ← hdelivered, hraised, if_neg Bool.false_ne_true]
    rfl
  · intro
    exact (congrArg Prod.snd (Reader.drain_append text _)).symm

end Frames

/-! ## The loop -/

section Loop

variable {V : Type} {parse : List Char → Option V} {setName : List Char → V → Option V}

theorem notMem_of_append {bytes chunk : List UInt8} (h : '\r' ∉ textAt (bytes ++ chunk)) :
    '\r' ∉ textAt bytes ∧ '\r' ∉ ((decoderAt bytes).decode chunk true).1 := by
  rw [(decode_stream bytes chunk).1, List.mem_append, not_or] at h
  exact h

theorem at_foldl (chunks : List (List UInt8)) {s : Consumer V} {bytes : List UInt8}
    (h : s.At parse setName (textAt bytes))
    (hdecoder : s.raised = false → s.decoder = decoderAt bytes)
    (hcr : '\r' ∉ textAt (bytes ++ chunks.flatten)) :
    ∃ t, chunks.foldl (Consumer.iteration parse setName true) s = t ∧
      t.At parse setName (textAt (bytes ++ chunks.flatten)) ∧
      (t.raised = false → t.decoder = decoderAt (bytes ++ chunks.flatten)) := by
  induction chunks generalizing s bytes with
  | nil =>
      rw [List.flatten_nil, List.append_nil]
      exact ⟨s, rfl, h, hdecoder⟩
  | cons chunk chunks ih =>
      rw [List.flatten_cons, ← List.append_assoc] at hcr ⊢
      obtain ⟨htext, hnext⟩ := decode_stream bytes chunk
      -- The text of a beginning of the bytes is a beginning of the text.
      have hchunk : '\r' ∉ textAt (bytes ++ chunk) := by
        intro hmem
        have hall := (Reader.drain_append (R := segmentReader) (bytes ++ chunk) chunks.flatten)
        refine hcr ?_
        rw [textAt, hall, dropBom_map_append]
        exact List.mem_append_left _ hmem
      rw [List.foldl_cons]
      cases hraised : s.raised with
      | true =>
          -- After an exception the loop reads no chunk.
          refine ih ?_ ?_ hcr
          · have hsame : s.iteration parse setName true chunk = s := by
              rw [Consumer.iteration, hraised, if_pos rfl]
            rw [hsame, htext]
            exact h.stuck hraised _
          · intro hfalse
            rw [Consumer.iteration, hraised, if_pos rfl, hraised] at hfalse
            cases hfalse
      | false =>
          have hd := hdecoder hraised
          have hstep := h.iteration true chunk
            (by rw [hd]; exact (notMem_of_append hchunk).2) hraised
          rw [hd, ← htext, hnext] at hstep
          exact ih hstep.1 (fun _ => hstep.2) hcr

/-- **The chunks do not matter.**  The console hands on what the frames of the whole text lead
    to. -/
theorem consumeSSE_eq (chunks : List (List UInt8))
    (hcr : '\r' ∉ dropBom (decodeReplace chunks.flatten))
    (hrest : (frameReader.drain (dropBom (decodeReplace chunks.flatten))).2 = []) :
    consumeSSE parse setName chunks =
      outcome parse setName (dropBom (decodeReplace chunks.flatten)) := by
  have hend := decode_end chunks.flatten
  have hsplit : '\r' ∉ textAt chunks.flatten ∧
      '\r' ∉ ((decoderAt chunks.flatten).decode [] false).1 := by
    rw [← hend, List.mem_append, not_or] at hcr
    exact hcr
  have hinit : (Consumer.initial (V := V)).At parse setName (textAt []) := ⟨rfl, fun _ => rfl⟩
  obtain ⟨t, ht, hat, hdecoder⟩ := at_foldl chunks hinit (fun _ => rfl) hsplit.1
  rw [List.nil_append] at hat hdecoder
  rw [consumeSSE, ht]
  dsimp only
  cases hraised : t.raised with
  | true =>
      have hsame : t.iteration parse setName false [] = t := by
        rw [Consumer.iteration, hraised, if_pos rfl]
      have hstuck := hat.stuck hraised ((decoderAt chunks.flatten).decode [] false).1
      rw [hend] at hstuck
      rw [hsame, hraised, if_pos rfl, ← hstuck.delivered, hraised]
  | false =>
      have hd := hdecoder hraised
      -- The decoder is flushed, which ends a character that the bytes have left open.
      have hlast := (hat.iteration false [] (by rw [hd]; exact hsplit.2) hraised).1
      rw [hd, hend] at hlast
      rw [← hlast.delivered]
      cases hafter : (t.iteration parse setName false []).raised with
      | true => rfl
      | false =>
          have hbuffer := hlast.buffer hafter
          rw [hrest] at hbuffer
          rw [hbuffer]
          rfl

end Loop

/-! ## Events -/

section Events

variable {V : Type} (parse : List Char → Option V) (setName : List Char → V → Option V)

/-- What the console makes of an event. -/
def received (event : EventName) (payload : List (String × Json)) : Emitted V :=
  match (parse (Json.object payload).print).bind (setName event.text) with
  | none => .raised
  | some value => .event value

/-- The lines of an event. -/
def frame (event : EventName) (payload : List (String × Json)) : List Char :=
  eventField ++ ' ' :: event.text ++ '\n' :: (dataField ++ ' ' :: (Json.object payload).print)

theorem newline_notMem_print (v : Json) : '\n' ∉ v.print ∧ '\r' ∉ v.print :=
  ⟨fun h => absurd (Json.le_of_mem_print h) (by decide),
    fun h => absurd (Json.le_of_mem_print h) (by decide)⟩

theorem newline_notMem_name (event : EventName) :
    '\n' ∉ eventField ++ ' ' :: event.text ∧ '\r' ∉ eventField ++ ' ' :: event.text := by
  cases event <;> decide

theorem newline_notMem_data (payload : List (String × Json)) :
    '\n' ∉ dataField ++ ' ' :: (Json.object payload).print ∧
      '\r' ∉ dataField ++ ' ' :: (Json.object payload).print := by
  obtain ⟨hn, hr⟩ := newline_notMem_print (.object payload)
  simp only [List.mem_append, List.mem_cons, not_or]
  exact ⟨⟨by decide, by decide, hn⟩, by decide, by decide, hr⟩

theorem print_object (payload : List (String × Json)) :
    ∃ tail, (Json.object payload).print = '{' :: tail := by
  rw [Json.print, Json.enclose, List.cons_append]
  exact ⟨_, rfl⟩

theorem splitOn_frame (event : EventName) (payload : List (String × Json)) :
    (frame event payload).splitOn '\n' =
      [eventField ++ ' ' :: event.text, dataField ++ ' ' :: (Json.object payload).print] := by
  rw [frame, List.splitOn_append_cons_self, List.splitOn_eq_singleton (newline_notMem_name event).1,
    List.splitOn_eq_singleton (newline_notMem_data payload).1]
  rfl

theorem emitSSEFrame_frame (event : EventName) (payload : List (String × Json)) :
    emitSSEFrame parse setName (frame event payload) = received parse setName event payload := by
  obtain ⟨tail, htail⟩ := print_object payload
  have hname : trim ((eventField ++ ' ' :: event.text).drop 6) = event.text := by
    cases event <;> decide
  have hne : event.text ≠ [] := by cases event <;> decide
  have hraw : trimStart ((dataField ++ ' ' :: (Json.object payload).print).drop 5) =
      (Json.object payload).print := by
    rw [htail]
    rfl
  have hlines : ([eventField ++ ' ' :: event.text,
      dataField ++ ' ' :: (Json.object payload).print].find? (eventField.isPrefixOf ·)) =
        some (eventField ++ ' ' :: event.text) ∧
      ([eventField ++ ' ' :: event.text,
        dataField ++ ' ' :: (Json.object payload).print].filter (dataField.isPrefixOf ·)) =
        [dataField ++ ' ' :: (Json.object payload).print] := by
    exact ⟨rfl, rfl⟩
  have hprint : (Json.object payload).print ≠ [] := htail ▸ List.cons_ne_nil _ _
  rw [emitSSEFrame, splitOn_frame, hlines.1, hlines.2]
  simp only [Option.map_some, Option.getD_some, List.map_cons, List.map_nil, hname, hraw, hne,
    if_false, List.intercalate_singleton, hprint, received]
  cases parse (Json.object payload).print with
  | none => rfl
  | some value => rfl

/-- The only line end in a frame stands before its data. -/
theorem frame_line_end (event : EventName) (payload : List (String × Json)) (i : Nat)
    (h : (frame event payload)[i]? = some '\n') :
    ∃ y, (frame event payload)[i + 1]? = some y ∧ y ≠ '\n' := by
  rw [frame] at h ⊢
  rw [List.getElem?_append] at h
  split at h
  · exact absurd (List.mem_of_getElem? h) (newline_notMem_name event).1
  · rename_i hi
    rw [List.getElem?_append_right (by omega), Nat.sub_add_comm (by omega)]
    cases hk : i - (eventField ++ ' ' :: event.text).length with
    | zero => exact ⟨'d', rfl, by decide⟩
    | succ k =>
        rw [hk, List.getElem?_cons_succ] at h
        exact absurd (List.mem_of_getElem? h) (newline_notMem_data payload).1

/-- An event is read up to its blank line. -/
theorem next_sse (event : EventName) (payload : List (String × Json)) (rest : List Char) :
    frameReader.next (sse event payload ++ rest) = some (frame event payload, rest) := by
  have hcut := cutAt_pair rest (frame_line_end event payload)
  have htext : sse event payload ++ rest = frame event payload ++ '\n' :: '\n' :: rest := by
    rw [sse, frame, List.append_assoc (_ ++ _) ['\n', '\n'] rest]
    rfl
  rw [htext]
  exact hcut

theorem sse_notMem_cr (event : EventName) (payload : List (String × Json)) :
    '\r' ∉ sse event payload := by
  have hname := (newline_notMem_name event).2
  have hdata := (newline_notMem_data payload).2
  rw [sse, List.mem_append, List.mem_append, List.mem_cons]
  rintro ((h | h | h) | h)
  · exact hname h
  · cases h
  · exact hdata h
  · revert h
    decide

theorem dropBom_sse (events : List (EventName × List (String × Json))) :
    dropBom (events.flatMap fun e => sse e.1 e.2) = events.flatMap fun e => sse e.1 e.2 := by
  cases events with
  | nil => rfl
  | cons e events => rfl

/-- **The console receives the events that have been sent**, in their order, however the bytes
    of the stream are cut. -/
theorem console_receives (events : List (EventName × List (String × Json)))
    (chunks : List (List UInt8))
    (h : chunks.flatten = encode (events.flatMap fun e => sse e.1 e.2)) :
    consumeSSE parse setName chunks =
      deliver (events.map fun e => received parse setName e.1 e.2) := by
  have htext : dropBom (decodeReplace chunks.flatten) = events.flatMap fun e => sse e.1 e.2 := by
    rw [h, decodeReplace_encode, dropBom_sse]
  have hnil : frameReader.next [] = none := rfl
  have hdrain : frameReader.drain (events.flatMap (fun e => sse e.1 e.2) ++ []) =
      (events.map fun e => frame e.1 e.2, []) :=
    Reader.drain_flatMap (fun e _ rest => next_sse e.1 e.2 rest) hnil
  rw [List.append_nil] at hdrain
  have hcr : '\r' ∉ events.flatMap fun e => sse e.1 e.2 := by
    intro hmem
    obtain ⟨e, -, he⟩ := List.mem_flatMap.mp hmem
    exact sse_notMem_cr e.1 e.2 he
  rw [consumeSSE_eq chunks (htext ▸ hcr) (by rw [htext, hdrain]), htext, outcome, hdrain,
    List.map_map]
  refine congrArg deliver (List.map_congr_left fun e _ => ?_)
  exact emitSSEFrame_frame parse setName e.1 e.2

end Events

/-- A stream that is cut within the character of its first event. -/
theorem console_receives_cut :
    consumeSSE some (fun _ value => some value)
        [(encode (sse .token [("text", .string "é")])).take 29,
          (encode (sse .token [("text", .string "é")])).drop 29 ++ encode (sse .finish [])] =
      ([['{', '"', 't', 'e', 'x', 't', '"', ':', '"', 'é', '"', '}'], ['{', '}']], false) :=
  (console_receives some (fun _ value => some value)
    [(.token, [("text", .string "é")]), (.finish, [])] _ (by decide)).trans (by decide)

end Streams
end HermesPlatform
