/-
  HermesPlatform.Runtimes.CapabilityDispatcher

  The capability calls of a DeepSeek process: `DispatcherClient` in the child, the loop of
  `CapabilityDispatcher._serve` in its parent, and the socket between them.

  The bytes of the requests and the text of the replies arrive in pieces of any size; calls are
  aborted, and either end closes, at any time.  A call is settled at most once, and a reply settles
  the call that it answers.  Once nothing is on its way every call has been settled, but for
  one whose frame is one or two bytes too long: its refusal has no id
  (`dispatcher_settles`).

  The gateway answers the requests in the order in which the loop takes them.  The execution token
  and its renewal are left out, and so is the `RecursionError` of `json.loads`: the refusal of a
  request that is nested deeper than Python allows has no id either.  `JSON.parse` is a parameter.
-/

import HermesPlatform.Gateway.Policy
import HermesPlatform.Lib.Correlation
import HermesPlatform.Lib.JsonDict
import HermesPlatform.Lib.JsonPrefix
import HermesPlatform.Lib.Incremental
import HermesPlatform.Lib.Utf8Stream

namespace HermesPlatform
namespace DeepSeek
namespace Dispatcher

open Python Incremental Transition Utf8
open Gateway (truthy)

/-! ## Requests -/

/-- `payload`. -/
inductive Payload where
  | list
  | invoke (toolName : String) (arguments : Json)

def Payload.members : Payload → List (String × Json)
  | .list => [("type", .string "list")]
  | .invoke toolName arguments =>
      [("type", .string "invoke"), ("tool_name", .string toolName), ("arguments", arguments)]

/-- The arguments of a call are a JSON value. -/
def Payload.Valid (decoders : Json.Decoders) : Payload → Prop
  | .list => True
  | .invoke _ arguments => Json.Exact decoders arguments

/-- `String(++this.sequence)` of the call with this number, counted from zero. -/
def idText (n : Nat) : List Char := Nat.toDigits 10 (n + 1)

/-- `JSON.stringify({ id, ...payload })`. -/
def requestText (n : Nat) (p : Payload) : List Char :=
  (Json.object (("id", .string (String.ofList (idText n))) :: p.members)).print

/-- What the client writes for a call. -/
def requestBytes (n : Nat) (p : Payload) : List UInt8 := encode (requestText n p) ++ [10]

/-! ## The parent -/

/-- `MAX_FRAME_BYTES`. -/
def maxFrameBytes : Nat := 2097152

/-- How the call of the gateway ends. -/
inductive Answer where
  /-- `_safe_error` of an exception. -/
  | raised (message : String)
  | invalidJson
  | response (isSuccess : Bool) (payload : Json)

/-- What the loop of the parent depends on. -/
structure Server where
  decoders : Json.Decoders
  tools : Dict String Json
  /-- `str` of a value that is no string. -/
  repr : Json → String

def member (v : Json) (key : String) : Json := ((Json.asDict (some v)).get? key).getD .null

def isDict : Json → Bool
  | .object _ => true
  | _ => false

def isText (v : Json) (text : String) : Bool :=
  match v with
  | .string s => s = text
  | _ => false

namespace Server

variable (server : Server)

def str : Json → String
  | .string s => s
  | v => server.repr v

/-- `str(exc)[:500]`. -/
def safeError (text : String) : String := String.ofList (text.toList.take 500)

/-- `_dispatch(request)`. -/
def dispatch (request : Json) (answer : Answer) : Except String (List (String × Json)) :=
  if isText (member request "type") "list" then
    .ok [("tools", .array (server.tools.entries.map Prod.snd))]
  else if !isText (member request "type") "invoke" then
    .error "Unsupported Capability dispatcher request"
  else
    match member request "tool_name" with
    | .string toolName =>
        if toolName ∉ server.tools.keys then
          .error "Capability tool is not authorized for this execution"
        else if !isDict (member request "arguments") then
          .error "Capability arguments must be an object"
        else
          match answer with
          | .raised message => .error message
          | .invalidJson => .error "Capability Gateway returned invalid JSON"
          | .response isSuccess payload =>
              if !isSuccess || !isDict payload || !isText (member payload "status") "SUCCEEDED" then
                let message := member (member payload "error") "message"
                .error (safeError
                  (if truthy message then server.str message else "Capability invocation failed"))
              else
                .ok [("data", member payload "data"),
                  ("invocation_id", member payload "invocation_id")]
    | _ => .error "Capability tool is not authorized for this execution"

/-- The members of a refusal. -/
def refusal (id : Json) (message : String) : List (String × Json) :=
  [("id", id), ("ok", .bool false), ("error", .object [("message", .string message)])]

/-- `request_id` and `response` for a line. -/
def response (raw : List UInt8) (answer : Answer) : Json × List (String × Json) :=
  if maxFrameBytes < raw.length then
    (.null, refusal .null "Capability dispatcher request is too large")
  else
    match Json.loads server.decoders raw with
    | none => (.null, refusal .null "Capability dispatcher failed")
    | some (.object members) =>
        let id := member (.object members) "id"
        match server.dispatch (.object members) answer with
        | .error message => (id, refusal id message)
        | .ok reply => (id, [("id", id), ("ok", .bool true)] ++ reply)
    | some _ => (.null, refusal .null "Capability dispatcher request must be an object")

/-- The text that is written for a line, without the line end. -/
def replyText (raw : List UInt8) (answer : Answer) : List Char :=
  let r := server.response raw answer
  let text := (Json.object r.2).print
  if (encode text).length + 1 ≤ maxFrameBytes then text
  else Json.printAscii (.object (refusal r.1 "Capability response is too large"))

end Server

/-! ## The child -/

/-- How a reply settles a call. -/
inductive Outcome where
  | resolved (frame : Json)
  | rejected (message : List Char)

/-- What the client depends on. -/
structure Client where
  /-- `JSON.parse`. -/
  parse : List Char → Option Json
  /-- `String(v)` of a value that is neither a string nor `null`. -/
  jsString : Json → List Char

namespace Client

variable (client : Client)

def string : Json → List Char
  | .string s => s.toList
  | .null => ['n', 'u', 'l', 'l']
  | v => client.jsString v

/-- `String(frame.id)` where the member is there. -/
def frameId (frame : Json) : List Char := client.string (member frame "id")

/-- `frame.ok` decides, `frame?.error?.message` is the text. -/
def outcome (frame : Json) : Outcome :=
  if Json.jsTruthy (member frame "ok") then .resolved frame
  else
    let message := member (member frame "error") "message"
    .rejected (if Json.jsTruthy message then client.string message
      else "Platform Capability call failed".toList)

end Client

/-! ## The system -/

structure State where
  /-- The payloads of the calls; `sequence` is their number. -/
  issued : List Payload
  /-- `pending`: the ids with the numbers of their calls. -/
  pending : List (List Char × Nat)
  /-- The calls whose promise is settled; `none` for one that was aborted or failed. -/
  settled : List (Nat × Option Outcome)
  buffer : List Char
  clientOpen : Bool
  toServer : List UInt8
  toClient : List Char
  /-- The buffer of the stream reader. -/
  received : List UInt8
  /-- The line that the loop works on. -/
  raw : Option (List UInt8)
  /-- The lines that have been answered. -/
  served : Nat
  serverOpen : Bool

inductive Action where
  | request (p : Payload)
  /-- The signal of a call is aborted, or its write fails. -/
  | abort (n : Nat)
  | deliver (k : Nat)
  | readline
  | respond
  | stopServer
  | data (k : Nat)
  | closed
  | closeClient

/-- `this.pending.delete(id)` and the promise of the call. -/
def State.settle (s : State) (n : Nat) (outcome : Option Outcome) : State :=
  { s with
    pending := s.pending.filter (·.1 ≠ idText n)
    settled := s.settled ++ [(n, outcome)] }

/-- `fail(error)`. -/
def State.fail (s : State) : State :=
  { s with
    pending := []
    settled := s.settled ++ s.pending.map fun w => (w.2, none) }

/-- `request(payload, signal)`; a destroyed socket reports an error to the write. -/
def State.request (s : State) (p : Payload) : State :=
  let n := s.issued.length
  let s := { s with
    issued := s.issued ++ [p]
    pending := s.pending ++ [(idText n, n)]
    toServer := if s.clientOpen then s.toServer ++ requestBytes n p else s.toServer }
  if s.clientOpen then s else s.settle n none

/-- The reader of the lines of the client. -/
def lineReader : Reader Char (List Char) := upTo ['\n'] (List.cons_ne_nil _ _)

section System

variable (server : Server) (client : Client) (gateway : Nat → Answer)

/-- One line of `consume`. -/
def State.consumeLine (s : State) (raw : List Char) : State :=
  if raw = [] then s
  else
    match client.parse raw with
    | none => s
    | some frame =>
        match s.pending.lookup (client.frameId frame) with
        | none => s
        | some n => s.settle n (some (client.outcome frame))

/-- `consume(chunk)`. -/
def State.consume (s : State) (chunk : List Char) : State :=
  let r := lineReader.drain (s.buffer ++ chunk)
  { r.1.foldl (State.consumeLine client) s with buffer := r.2 }

/-- The limit of the stream reader. -/
def readerLimit : Nat := maxFrameBytes + 1

/-- `await reader.readline()`, where it does not wait: the loop takes a line, or is left because
    the limit is exceeded. -/
def State.readline (s : State) : Option State :=
  match cutAt [10] s.received with
  | some (line, rest) =>
      if readerLimit < line.length then some { s with serverOpen := false }
      else
        some
          { s with
            raw := some (line ++ [10])
            received := rest }
  | none => if readerLimit < s.received.length then some { s with serverOpen := false } else none

def step (s : State) : Action → Option State
  | .request p => some (s.request p)
  | .abort n => if n ∈ s.pending.map Prod.snd then some (s.settle n none) else none
  | .deliver k =>
      some
        { s with
          toServer := s.toServer.drop k
          received := s.received ++ s.toServer.take k }
  | .readline => if s.serverOpen && s.raw.isNone then s.readline else none
  | .respond =>
      if s.serverOpen then
        s.raw.map fun raw =>
          { s with
            raw := none
            served := s.served + 1
            toClient := s.toClient ++ (server.replyText raw (gateway s.served) ++ ['\n']) }
      else none
  | .stopServer => some { s with serverOpen := false }
  | .data k =>
      if s.clientOpen then
        some { s.consume client (s.toClient.take k) with toClient := s.toClient.drop k }
      else none
  | .closed =>
      if !s.serverOpen && s.toClient.isEmpty then some { s.fail with clientOpen := false } else none
  | .closeClient => some { s.fail with clientOpen := false }

def initial : State := ⟨[], [], [], [], true, [], [], [], none, 0, true⟩

def wellFormed (server : Server) (_ : State) : Action → Prop
  | .request p => p.Valid server.decoders
  | _ => True

/-- The dispatcher and its client. -/
def system : System State Action :=
  { init := fun s => s = initial
    step := step server client gateway }

end System

/-! ## Lines -/

theorem newline_notMem_encode {text : List Char} (h : '\n' ∉ text) : 10 ∉ encode text := by
  intro hmem
  obtain ⟨c, hc, hbyte⟩ := List.mem_flatMap.mp hmem
  by_cases hascii : c.toNat < 0x80
  · rw [encodeChar, if_pos hascii] at hbyte
    have hnat : (10 : UInt8).toNat = c.toNat := by
      rw [List.mem_singleton.mp hbyte, UInt8.toNat_ofNat', Nat.mod_eq_of_lt (by omega)]
    obtain rfl : c = '\n' := Char.toNat_inj.mp hnat.symm
    exact h hc
  · exact absurd (le_of_mem_encodeChar (Nat.not_lt.mp hascii) hbyte) (by decide)

theorem decodeText_encode {decoders : Json.Decoders} {text : List Char}
    (h : decoders.text (encode text) = some text) :
    Json.decodeText decoders (encode text) = some text := by
  rw [Json.decodeText]
  split
  next hall =>
    refine congrArg some ?_
    have hascii : ∀ c ∈ text, c.toNat < 0x80 := by
      intro c hc
      by_contra hlarge
      have hbyte : ∃ b, b ∈ encodeChar c :=
        List.exists_mem_of_length_pos (by rw [length_encodeChar]; exact c.utf8Size_pos)
      obtain ⟨b, hb⟩ := hbyte
      have hsmall := List.all_eq_true.mp hall b (List.mem_flatMap.mpr ⟨c, hc, hb⟩)
      have hle := le_of_mem_encodeChar (Nat.not_lt.mp hlarge) hb
      simp only [Bool.and_eq_true, decide_eq_true_eq] at hsmall
      omega
    clear h hall
    induction text with
    | nil => rfl
    | cons c text ih =>
        have hc := hascii c List.mem_cons_self
        rw [encode, List.flatMap_cons, List.map_append, ← encode,
          ih fun d hd => hascii d (List.mem_cons_of_mem c hd), encodeChar, if_pos hc,
          List.map_singleton, UInt8.toNat_ofNat', Nat.mod_eq_of_lt (by omega), Char.ofNat_toNat]
        rfl
  next => exact h

theorem exact_request {decoders : Json.Decoders} {p : Payload} (h : p.Valid decoders) (n : Nat) :
    Json.Exact decoders (.object (("id", .string (String.ofList (idText n))) :: p.members)) := by
  cases p with
  | list =>
      refine .object (by decide : ["id", "type"].Nodup) ?_
      simp only [Payload.members, List.forall_mem_cons]
      exact ⟨.string _, .string _, nofun⟩
  | invoke toolName arguments =>
      refine .object (by decide : ["id", "type", "tool_name", "arguments"].Nodup) ?_
      simp only [Payload.members, List.forall_mem_cons]
      exact ⟨.string _, .string _, .string _, h, nofun⟩

theorem newline_notMem_request (n : Nat) (p : Payload) : '\n' ∉ requestText n p :=
  fun h => absurd (Json.le_of_mem_print h) (by decide)

/-- The parent reads the request that the child has written. -/
theorem loads_requestBytes {server : Server} {n : Nat} {p : Payload} (h : p.Valid server.decoders)
    (htext : ∀ cs, server.decoders.text (encode cs) = some cs) :
    Json.loads server.decoders (requestBytes n p) =
      some (.object (("id", .string (String.ofList (idText n))) :: p.members)) := by
  have hbytes : requestBytes n p = encode (requestText n p ++ ['\n']) := by
    rw [encode, List.flatMap_append]
    rfl
  rw [hbytes, Json.loads_eq (decodeText_encode (htext _)), requestText,
    Json.readText_blanks (exact_request h n) (Json.opened_print_object _)
      (List.forall_mem_singleton.mpr rfl)]

theorem response_requestBytes {server : Server} {n : Nat} {p : Payload}
    (h : p.Valid server.decoders)
    (htext : ∀ cs, server.decoders.text (encode cs) = some cs)
    (hfits : (requestBytes n p).length ≤ maxFrameBytes) (answer : Answer) :
    (server.response (requestBytes n p) answer).1 = .string (String.ofList (idText n)) := by
  have hid : member (.object (("id", .string (String.ofList (idText n))) :: p.members)) "id" =
      .string (String.ofList (idText n)) := by cases p <;> rfl
  rw [Server.response, if_neg (Nat.not_lt.mpr hfits), loads_requestBytes h htext]
  dsimp only
  rw [hid]
  split <;> rfl

theorem response_tooLong {server : Server} {raw : List UInt8} (h : maxFrameBytes < raw.length)
    (answer : Answer) : (server.response raw answer).1 = .null := by
  rw [Server.response, if_pos h]

theorem replyText_line (server : Server) (raw : List UInt8) (answer : Answer) :
    server.replyText raw answer ≠ [] ∧ '\n' ∉ server.replyText raw answer := by
  rw [Server.replyText]
  split
  · exact ⟨Json.print_ne_nil _, fun h => absurd (Json.le_of_mem_print h) (by decide)⟩
  · refine ⟨?_, fun h => absurd (Json.le_of_mem_printAscii h) (by decide)⟩
    rw [Json.printAscii, Json.enclose]
    exact List.append_ne_nil_of_right_ne_nil _ (List.cons_ne_nil _ _)

theorem idText_inj {n m : Nat} (h : idText n = idText m) : n = m := by
  have hsucc := Json.toDigits_inj h
  omega

theorem idText_ne_null (n : Nat) : idText n ≠ ['n', 'u', 'l', 'l'] := by
  intro h
  have hmem : 'n' ∈ idText n := h ▸ List.mem_cons_self
  have hdigit := Nat.isDigit_of_mem_toDigits (by decide) (by decide) hmem
  cases hdigit

/-! ## The exchange behind it -/

section Simulation

variable (server : Server) (client : Client) (gateway : Nat → Answer)

/-- What a call is answered with. -/
def answerOf (n : Nat) (p : Payload) : Outcome :=
  match client.parse (server.replyText (requestBytes n p) (gateway n)) with
  | some frame => client.outcome frame
  | none => .rejected []

/-- A line that the client receives: the reply to a call, or one without an id. -/
structure IsReply (text : List Char) (reply : Option (Nat × Outcome)) : Prop where
  line : text ≠ [] ∧ '\n' ∉ text
  frame : ∃ frame, client.parse text = some frame ∧
    match reply with
    | some r => client.frameId frame = idText r.1 ∧ client.outcome frame = r.2
    | none => ∀ n, client.frameId frame ≠ idText n

/-- The bytes of the request with this number. -/
def frameBytes (issued : List Payload) (n : Nat) : List UInt8 :=
  (issued[n]?).elim [] (requestBytes n)

/-- The way of the requests, as long as both ends are open. -/
structure Wire (c : State) (a : Correlation.Exchange Payload Outcome) : Prop where
  served : c.served ≤ c.issued.length
  requests : a.requests = List.range' c.served (c.issued.length - c.served)
  line : (c.raw.getD [] ++ c.received) ++ c.toServer = a.requests.flatMap (frameBytes c.issued)
  raw : ∀ raw, c.raw = some raw → ∃ p, c.issued[c.served]? = some p ∧
    raw = requestBytes c.served p ∧ raw.length ≤ maxFrameBytes + 2

/-- The dispatcher and its client as an exchange of requests and replies. -/
structure Simulates (c : State) (a : Correlation.Exchange Payload Outcome) : Prop where
  issued : a.issued = c.issued
  pending : c.pending = a.pending.map fun n => (idText n, n)
  settled : a.settled = c.settled
  stopped : a.stopped = !(c.serverOpen && c.clientOpen)
  wire : c.serverOpen = true → c.clientOpen = true → Wire c a
  replies : c.clientOpen = true → ∃ frames : List (List Char × Option (Nat × Outcome)),
    (∀ f ∈ frames, IsReply client f.1 f.2) ∧
    c.buffer ++ c.toClient = frames.flatMap (fun f => f.1 ++ ['\n']) ∧
    a.replies = frames.filterMap Prod.snd
  left : c.clientOpen = false → c.pending = []
  valid : ∀ p ∈ c.issued, p.Valid server.decoders
  /-- What is dropped is one or two bytes too long. -/
  dropped : ∀ n ∈ a.dropped, maxFrameBytes < (frameBytes c.issued n).length ∧
    (frameBytes c.issued n).length ≤ maxFrameBytes + 2

end Simulation

variable {server : Server} {client : Client} {gateway : Nat → Answer}

theorem frameBytes_append {issued : List Payload} {n : Nat} (h : n < issued.length) (p : Payload) :
    frameBytes (issued ++ [p]) n = frameBytes issued n := by
  rw [frameBytes, frameBytes, List.getElem?_append_left h]

theorem lt_of_frameBytes {issued : List Payload} {n : Nat} (h : 0 < (frameBytes issued n).length) :
    n < issued.length := by
  by_contra hn
  rw [frameBytes, List.getElem?_eq_none_iff.mpr (Nat.not_lt.mp hn)] at h
  exact absurd h (Nat.lt_irrefl 0)

theorem frameBytes_last (issued : List Payload) (p : Payload) :
    frameBytes (issued ++ [p]) issued.length = requestBytes issued.length p := by
  rw [frameBytes, List.getElem?_append_right (Nat.le_refl _), Nat.sub_self]
  rfl

/-- The keys of the calls determine them. -/
theorem lookup_pending (pending : List Nat) (n : Nat) :
    (pending.map fun m => (idText m, m)).lookup (idText n) =
      if n ∈ pending then some n else none := by
  induction pending with
  | nil => rfl
  | cons m pending ih =>
      rw [List.map_cons, List.lookup_cons]
      by_cases h : n = m
      · subst h
        rw [beq_self_eq_true, if_pos List.mem_cons_self]
      · have hne : (idText n == idText m) = false :=
          beq_eq_false_iff_ne.mpr fun heq => h (idText_inj heq)
        rw [hne, ih]
        by_cases hmem : n ∈ pending
        · rw [if_pos hmem, if_pos (List.mem_cons_of_mem m hmem)]
        · rw [if_neg hmem, if_neg (fun hc => (List.mem_cons.mp hc).elim h hmem)]

theorem lookup_other (pending : List Nat) {key : List Char} (h : ∀ n, key ≠ idText n) :
    (pending.map fun m => (idText m, m)).lookup key = none := by
  refine List.lookup_eq_none_iff.mpr ?_
  intro entry hentry
  obtain ⟨m, -, rfl⟩ := List.mem_map.mp hentry
  exact bne_iff_ne.mpr (h m)

theorem filter_pending {pending : List Nat} (hnodup : pending.Nodup) (n : Nat) :
    (pending.map fun m => (idText m, m)).filter (·.1 ≠ idText n) =
      (pending.erase n).map fun m => (idText m, m) := by
  rw [hnodup.erase_eq_filter, List.filter_map]
  refine congrArg _ (List.filter_congr fun m _ => ?_)
  rw [Bool.eq_iff_iff]
  simp only [Function.comp_apply, decide_eq_true_eq, bne_iff_ne]
  exact not_congr ⟨fun h => idText_inj h, fun h => h ▸ rfl⟩

open Correlation (Exchange exchange Consistent)

/-- The client reads lines one after the other: each settles the call that it replies to, if that is
    waited for. -/
theorem consumeLines {frames : List (List Char × Option (Nat × Outcome))}
    {rest : List (Nat × Outcome)} {c : State} {a : Exchange Payload Outcome}
    (hconsistent : Consistent (answerOf server client gateway) a)
    (hframes : ∀ f ∈ frames, IsReply client f.1 f.2)
    (hpending : c.pending = a.pending.map fun n => (idText n, n)) (hsettled : a.settled = c.settled)
    (hreplies : a.replies = frames.filterMap Prod.snd ++ rest) :
    ∃ pending settled,
      (frames.map Prod.fst).foldl (State.consumeLine client) c =
        { c with
          pending := pending.map fun n => (idText n, n)
          settled := settled } ∧
      (exchange (answerOf server client gateway)).Path System.anyStep a
        { a with
          pending := pending
          settled := settled
          replies := rest } := by
  induction frames generalizing c a with
  | nil =>
      refine ⟨a.pending, a.settled, ?_, ?_⟩
      · rw [← hpending, hsettled]
        rfl
      · have hself : { a with pending := a.pending, settled := a.settled, replies := rest }
            = a := by
          have hrest : a.replies = rest := hreplies
          rw [← hrest]
        rw [hself]
        exact .refl
  | cons f frames ih =>
      obtain ⟨⟨hne, -⟩, frame, hparse, hframe⟩ := hframes f List.mem_cons_self
      have hrest := fun g hg => hframes g (List.mem_cons_of_mem f hg)
      obtain ⟨text, reply⟩ := f
      rw [List.map_cons, List.foldl_cons]
      have hline : c.consumeLine client text =
          match c.pending.lookup (client.frameId frame) with
          | none => c
          | some n => c.settle n (some (client.outcome frame)) := by
        rw [State.consumeLine, if_neg hne, hparse]
      cases reply with
      | none =>
          rw [hpending, lookup_other _ hframe] at hline
          rw [hline]
          exact ih hconsistent hrest hpending hsettled hreplies
      | some r =>
          obtain ⟨n, res⟩ := r
          obtain ⟨hid, rfl⟩ := hframe
          have hreplies : a.replies =
              (n, client.outcome frame) :: (frames.filterMap Prod.snd ++ rest) :=
            hreplies
          rw [hpending, hid, lookup_pending] at hline
          have hstep : Correlation.step (answerOf server client gateway) a .receive =
              some (if n ∈ a.pending then
                ({ a with replies := frames.filterMap Prod.snd ++ rest }).settle n
                  (some (client.outcome frame))
                else { a with replies := frames.filterMap Prod.snd ++ rest }) := by
            rw [Correlation.step, hreplies]
          have hnext := hconsistent.step hstep
          have hpath := Correlation.path_step hstep
          by_cases hn : n ∈ a.pending
          · rw [if_pos hn] at hline hnext hpath
            have hsettle : (c.settle n (some (client.outcome frame))).pending =
                (a.pending.erase n).map fun m => (idText m, m) := by
              rw [State.settle, hpending]
              exact filter_pending hconsistent.once.of_append_left n
            obtain ⟨pending, settled, hfold, hrun⟩ := ih hnext hrest hsettle
              (congrArg (· ++ [(n, some (client.outcome frame))]) hsettled) rfl
            rw [hline]
            exact ⟨pending, settled, hfold, hpath.trans hrun⟩
          · rw [if_neg hn] at hline hnext hpath
            obtain ⟨pending, settled, hfold, hrun⟩ := ih hnext hrest hpending hsettled rfl
            rw [hline]
            exact ⟨pending, settled, hfold, hpath.trans hrun⟩

section Steps

variable {c : State} {a : Exchange Payload Outcome}

theorem simulates_initial :
    Simulates server client initial (Exchange.empty : Exchange Payload Outcome) := by
  refine ⟨rfl, rfl, rfl, rfl, fun _ _ => ?_, fun _ => ⟨[], nofun, rfl, rfl⟩, nofun, nofun, nofun⟩
  exact ⟨Nat.le_refl _, rfl, rfl, nofun⟩

theorem Simulates.settle (hconsistent : Consistent (answerOf server client gateway) a)
    (h : Simulates server client c a) (n : Nat) :
    Simulates server client (c.settle n none) (a.settle n none) := by
  refine ⟨h.issued, ?_, congrArg (· ++ [(n, none)]) h.settled, h.stopped, ?_, h.replies, ?_,
    h.valid, h.dropped⟩
  · rw [State.settle, h.pending]
    exact filter_pending hconsistent.once.of_append_left n
  · intro hserver hclient
    have hwire := h.wire hserver hclient
    exact ⟨hwire.served, hwire.requests, hwire.line, hwire.raw⟩
  · intro hclosed
    rw [State.settle, h.left hclosed]
    rfl

/-- The parent stops to read. -/
theorem Simulates.stop (h : Simulates server client c a) :
    Simulates server client { c with serverOpen := false } a.stop :=
  ⟨h.issued, h.pending, h.settled, rfl, nofun, h.replies, h.left, h.valid, h.dropped⟩

/-- `fail(error)`, and the socket is closed. -/
theorem Simulates.fail (h : Simulates server client c a) :
    Simulates server client { c.fail with clientOpen := false } a.stop.giveUpAll := by
  refine ⟨h.issued, rfl, ?_, ?_, nofun, nofun, fun _ => rfl, h.valid, h.dropped⟩
  · show a.settled ++ a.pending.map (fun i => (i, none)) =
      c.settled ++ c.pending.map fun w => (w.2, none)
    rw [h.settled, h.pending, List.map_map]
    rfl
  · show true = !(c.serverOpen && false)
    rw [Bool.and_false]
    rfl

theorem Simulates.request_open (h : Simulates server client c a) {p : Payload}
    (hvalid : p.Valid server.decoders) (hclient : c.clientOpen = true) :
    Simulates server client (c.request p) (a.issue p) := by
  have hrequest : c.request p =
      { c with
        issued := c.issued ++ [p]
        pending := c.pending ++ [(idText c.issued.length, c.issued.length)]
        toServer := c.toServer ++ requestBytes c.issued.length p } := by
    rw [State.request]
    simp only [hclient, if_true]
  rw [hrequest]
  refine ⟨?_, ?_, h.settled, h.stopped, ?_, h.replies, ?_, ?_, ?_⟩
  · rw [Exchange.issue, h.issued]
  · rw [Exchange.issue, h.pending, h.issued, List.map_append]
    rfl
  · intro hserver _
    have hwire := h.wire hserver hclient
    have hserved := hwire.served
    have hstopped : a.stopped = false := by
      rw [h.stopped, hserver, hclient]
      rfl
    have hrequests : (a.issue p).requests = a.requests ++ [c.issued.length] := by
      simp only [Exchange.issue, hstopped, Bool.false_eq_true, if_false, h.issued]
    refine ⟨?_, ?_, ?_, ?_⟩
    · show c.served ≤ (c.issued ++ [p]).length
      rw [List.length_append]
      omega
    · rw [hrequests, hwire.requests, List.length_append, List.length_singleton,
        Nat.succ_sub hserved, List.range'_concat, Nat.one_mul, Nat.add_sub_cancel' hserved]
    · rw [hrequests, List.flatMap_append, List.flatMap_singleton, frameBytes_last]
      show (c.raw.getD [] ++ c.received) ++ (c.toServer ++ _) = _
      rw [← List.append_assoc, hwire.line]
      refine congrArg (· ++ requestBytes c.issued.length p) (List.flatMap_congr fun n hn => ?_)
      rw [hwire.requests, List.mem_range'_1] at hn
      exact (frameBytes_append (by omega) p).symm
    · intro raw hraw
      obtain ⟨p', hp', heq, hlength⟩ := hwire.raw raw hraw
      exact ⟨p', List.getElem?_append_left (List.getElem?_eq_some_iff.mp hp').1 ▸ hp', heq, hlength⟩
  · intro hclosed
    rw [hclient] at hclosed
    cases hclosed
  · intro p' hp'
    rcases List.mem_append.mp hp' with hp' | hp'
    · exact h.valid p' hp'
    · rwa [List.mem_singleton.mp hp']
  · intro n hn
    obtain ⟨hlong, hshort⟩ := h.dropped n hn
    show _ < (frameBytes (c.issued ++ [p]) n).length ∧ _
    rw [frameBytes_append (lt_of_frameBytes (Nat.zero_lt_of_lt hlong))]
    exact ⟨hlong, hshort⟩

/-- A call on a closed socket fails. -/
theorem Simulates.request_closed (h : Simulates server client c a) {p : Payload}
    (hvalid : p.Valid server.decoders) (hclient : c.clientOpen = false) :
    Simulates server client (c.request p) ((a.issue p).settle c.issued.length none) := by
  have hpending : a.pending = [] := by
    have hnil := h.left hclient
    rw [h.pending] at hnil
    exact List.map_eq_nil_iff.mp hnil
  have hrequest : c.request p =
      { c with
        issued := c.issued ++ [p]
        settled := c.settled ++ [(c.issued.length, none)] } := by
    rw [State.request]
    simp [hclient, State.settle, h.left hclient]
  rw [hrequest]
  refine ⟨?_, ?_, ?_, ?_, ?_, ?_, ?_, ?_, ?_⟩
  · rw [Exchange.settle, Exchange.issue, h.issued]
  · show c.pending = _
    rw [h.left hclient, Exchange.settle, Exchange.issue, hpending, h.issued]
    simp
  · exact congrArg (· ++ [(c.issued.length, none)]) h.settled
  · exact h.stopped
  · intro _ hopen
    rw [hclient] at hopen
    cases hopen
  · intro hopen
    rw [hclient] at hopen
    cases hopen
  · exact fun _ => h.left hclient
  · intro p' hp'
    rcases List.mem_append.mp hp' with hp' | hp'
    · exact h.valid p' hp'
    · rwa [List.mem_singleton.mp hp']
  · intro n hn
    obtain ⟨hlong, hshort⟩ := h.dropped n hn
    show _ < (frameBytes (c.issued ++ [p]) n).length ∧ _
    rw [frameBytes_append (lt_of_frameBytes (Nat.zero_lt_of_lt hlong))]
    exact ⟨hlong, hshort⟩

theorem Simulates.deliver (h : Simulates server client c a) (k : Nat) :
    Simulates server client
      { c with
        toServer := c.toServer.drop k
        received := c.received ++ c.toServer.take k } a := by
  refine ⟨h.issued, h.pending, h.settled, h.stopped, ?_, h.replies, h.left, h.valid, h.dropped⟩
  intro hserver hclient
  have hwire := h.wire hserver hclient
  refine ⟨hwire.served, hwire.requests, ?_, hwire.raw⟩
  show (c.raw.getD [] ++ (c.received ++ c.toServer.take k)) ++ c.toServer.drop k = _
  rw [List.append_assoc, List.append_assoc, List.take_append_drop, ← List.append_assoc, hwire.line]

/-- The loop takes the next request, or is left. -/
theorem Simulates.readline (h : Simulates server client c a) {c' : State} (hraw : c.raw = none)
    (hserver : c.serverOpen = true) (hstep : c.readline = some c') :
    Simulates server client c' a ∨ Simulates server client c' a.stop := by
  rw [State.readline] at hstep
  split at hstep
  next line rest hcut =>
    split at hstep
    next hlimit =>
      cases hstep
      exact .inr h.stop
    next hlimit =>
      cases hstep
      refine .inl ⟨h.issued, h.pending, h.settled, h.stopped, ?_, h.replies, h.left, h.valid,
        h.dropped⟩
      intro _ hclient
      have hwire := h.wire hserver hclient
      have hline := hwire.line
      rw [hraw, Option.getD_none, List.nil_append] at hline
      -- The line is that of the first request on its way.
      have hwhole := cutAt_append c.toServer hcut
      rw [hline, hwire.requests] at hwhole
      have hlt : c.served < c.issued.length := by
        by_contra hge
        rw [Nat.sub_eq_zero_of_le (Nat.not_lt.mp hge)] at hwhole
        cases hwhole
      have hhead : c.issued[c.served]? = some c.issued[c.served] := List.getElem?_eq_getElem hlt
      have hbytes : frameBytes c.issued c.served =
          encode (requestText c.served c.issued[c.served]) ++ [10] := by
        rw [frameBytes, hhead]
        rfl
      obtain ⟨k, hk⟩ := Nat.exists_eq_succ_of_ne_zero
        (by omega : c.issued.length - c.served ≠ 0)
      rw [hk, List.range'_succ, List.flatMap_cons, hbytes,
        List.append_assoc, List.singleton_append,
        cutAt_singleton _ (newline_notMem_encode (newline_notMem_request _ _))] at hwhole
      obtain ⟨rfl, -⟩ := Prod.mk.inj (Option.some.inj hwhole)
      refine ⟨hwire.served, hwire.requests, ?_, ?_⟩
      · show (_ ++ [10] ++ rest) ++ c.toServer = _
        rw [← hline, cutAt_eq hcut]
      · intro raw heq
        obtain rfl := Option.some.inj heq
        refine ⟨_, hhead, rfl, ?_⟩
        rw [List.length_append, List.length_singleton]
        have hmax : readerLimit = maxFrameBytes + 1 := rfl
        omega
  next hcut =>
    split at hstep
    next hlimit =>
      cases hstep
      exact .inr h.stop
    next => cases hstep

/-- What `JSON.parse` has to do with the replies: it reads their ids. -/
def ReadsIds (server : Server) (client : Client) (gateway : Nat → Answer) : Prop :=
  ∀ n p, p.Valid server.decoders →
    ∃ frame, client.parse (server.replyText (requestBytes n p) (gateway n)) = some frame ∧
      member frame "id" = (server.response (requestBytes n p) (gateway n)).1

/-- The frames on their way to the client, with a reply behind them. -/
theorem append_reply {frames : List (List Char × Option (Nat × Outcome))}
    {buffer toClient text : List Char} (reply : Option (Nat × Outcome))
    (hframes : ∀ f ∈ frames, IsReply client f.1 f.2)
    (hbuffer : buffer ++ toClient = frames.flatMap fun f => f.1 ++ ['\n'])
    (hreply : IsReply client text reply) :
    ∃ frames' : List (List Char × Option (Nat × Outcome)),
      (∀ f ∈ frames', IsReply client f.1 f.2) ∧
      buffer ++ (toClient ++ (text ++ ['\n'])) = frames'.flatMap (fun f => f.1 ++ ['\n']) ∧
      frames'.filterMap Prod.snd = frames.filterMap Prod.snd ++ reply.toList := by
  refine ⟨frames ++ [(text, reply)], ?_, ?_, ?_⟩
  · intro f hf
    rcases List.mem_append.mp hf with hf | hf
    · exact hframes f hf
    · rw [List.mem_singleton.mp hf]
      exact hreply
  · rw [← List.append_assoc, hbuffer, List.flatMap_append, List.flatMap_singleton]
  · rw [List.filterMap_append]
    cases reply <;> rfl

/-- The loop writes its reply. -/
theorem Simulates.respond (htext : ∀ cs, server.decoders.text (encode cs) = some cs)
    (hparse : ReadsIds server client gateway) (h : Simulates server client c a) {raw : List UInt8}
    (hraw : c.raw = some raw) (hserver : c.serverOpen = true) (hclient : c.clientOpen = true) :
    ∃ a', (exchange (answerOf server client gateway)).Path System.anyStep a a' ∧
      Simulates server client
        { c with
          raw := none
          served := c.served + 1
          toClient := c.toClient ++ (server.replyText raw (gateway c.served) ++ ['\n']) } a' := by
  have hwire := h.wire hserver hclient
  obtain ⟨p, hp, rfl, hlength⟩ := hwire.raw raw hraw
  obtain ⟨hlt, -⟩ := List.getElem?_eq_some_iff.mp hp
  have hvalid := h.valid p (List.mem_of_getElem? hp)
  obtain ⟨frame, hframe, hid⟩ := hparse c.served p hvalid
  obtain ⟨frames, hframes, hbuffer, hreplies⟩ := h.replies hclient
  have hbytes : frameBytes c.issued c.served = requestBytes c.served p := by
    rw [frameBytes, hp]
    rfl
  obtain ⟨k, hk⟩ := Nat.exists_eq_succ_of_ne_zero (by omega : c.issued.length - c.served ≠ 0)
  have hrequests : a.requests = c.served :: List.range' (c.served + 1) k := by
    rw [hwire.requests, hk, List.range'_succ]
  have hrest : c.issued.length - (c.served + 1) = k := by omega
  have hline : c.received ++ c.toServer =
      (List.range' (c.served + 1) k).flatMap (frameBytes c.issued) := by
    have hline := hwire.line
    rw [hraw, hrequests, List.flatMap_cons, hbytes, List.append_assoc] at hline
    exact List.append_cancel_left hline
  have hline' := replyText_line server (requestBytes c.served p) (gateway c.served)
  by_cases hfits : (requestBytes c.served p).length ≤ maxFrameBytes
  · have hstep : Correlation.step (answerOf server client gateway) a .answer =
        some { a with
          requests := List.range' (c.served + 1) k
          replies := a.replies ++ [(c.served, answerOf server client gateway c.served p)] } := by
      rw [Correlation.step, hrequests]
      dsimp only
      rw [h.issued, hp]
      rfl
    have hanswer : answerOf server client gateway c.served p = client.outcome frame := by
      rw [answerOf, hframe]
    refine ⟨_, Correlation.path_step hstep, h.issued, h.pending, h.settled, h.stopped, ?_, ?_,
      h.left, h.valid, h.dropped⟩
    · exact fun _ _ => ⟨hlt, congrArg (List.range' (c.served + 1)) hrest.symm, hline,
        by rintro _ ⟨⟩⟩
    · intro _
      have hframeId : client.frameId frame = idText c.served := by
        rw [Client.frameId, hid, response_requestBytes hvalid htext hfits]
        exact String.toList_ofList
      obtain ⟨frames', hframes', htexts, hall⟩ := append_reply
        (some (c.served, answerOf server client gateway c.served p)) hframes hbuffer
        ⟨hline', frame, hframe, hframeId, hanswer.symm⟩
      exact ⟨frames', hframes', htexts, by rw [hreplies, hall]; rfl⟩
  · have hstep : Correlation.step (answerOf server client gateway) a .drop =
        some { a with
          requests := List.range' (c.served + 1) k
          dropped := a.dropped ++ [c.served] } := by
      rw [Correlation.step, hrequests]
    refine ⟨_, Correlation.path_step hstep, h.issued, h.pending, h.settled, h.stopped, ?_, ?_,
      h.left, h.valid, ?_⟩
    · exact fun _ _ => ⟨hlt, congrArg (List.range' (c.served + 1)) hrest.symm, hline,
        by rintro _ ⟨⟩⟩
    · intro _
      have hframeId (n : Nat) : client.frameId frame ≠ idText n := by
        rw [Client.frameId, hid, response_tooLong (Nat.not_le.mp hfits)]
        exact (idText_ne_null n).symm
      obtain ⟨frames', hframes', htexts, hall⟩ := append_reply none hframes hbuffer
        ⟨hline', frame, hframe, hframeId⟩
      exact ⟨frames', hframes', htexts, by rw [hreplies, hall]; exact (List.append_nil _).symm⟩
    · intro n hn
      rcases List.mem_append.mp hn with hn | hn
      · exact h.dropped n hn
      · rw [List.mem_singleton.mp hn, hbytes]
        exact ⟨Nat.not_le.mp hfits, hlength⟩

/-- The client receives a piece of the replies. -/
theorem Simulates.data (hconsistent : Consistent (answerOf server client gateway) a)
    (h : Simulates server client c a) (hclient : c.clientOpen = true) (k : Nat) :
    ∃ a', (exchange (answerOf server client gateway)).Path System.anyStep a a' ∧
      Simulates server client
        { c.consume client (c.toClient.take k) with toClient := c.toClient.drop k } a' := by
  obtain ⟨frames, hframes, hbuffer, hreplies⟩ := h.replies hclient
  have hwhole : (c.buffer ++ c.toClient.take k) ++ c.toClient.drop k =
      frames.flatMap fun f => f.1 ++ ['\n'] := by
    rw [List.append_assoc, List.take_append_drop, hbuffer]
  have hread : ∀ f ∈ frames, ∀ rest,
      lineReader.next ((f.1 ++ ['\n']) ++ rest) = some (f.1, rest) := by
    intro f hf rest
    rw [List.append_assoc]
    exact cutAt_singleton rest (hframes f hf).line.2
  obtain ⟨front, back, rfl, hfront, hback⟩ := Reader.drain_beginning rfl _ hread hwhole
  rw [List.filterMap_append] at hreplies
  obtain ⟨pending, settled, hfold, hpath⟩ := consumeLines hconsistent
    (fun f hf => hframes f (List.mem_append_left _ hf)) h.pending h.settled hreplies
  have hconsume : c.consume client (c.toClient.take k) =
      { c with
        pending := pending.map fun n => (idText n, n)
        settled := settled
        buffer := (lineReader.drain (c.buffer ++ c.toClient.take k)).2 } := by
    rw [State.consume, hfront, hfold]
  rw [hconsume]
  refine ⟨_, hpath, h.issued, rfl, rfl, h.stopped, ?_, ?_, ?_, h.valid, h.dropped⟩
  · intro hserver _
    have hwire := h.wire hserver hclient
    exact ⟨hwire.served, hwire.requests, hwire.line, hwire.raw⟩
  · exact fun _ => ⟨back, fun f hf => hframes f (List.mem_append_right _ hf), hback, rfl⟩
  · intro hclosed
    rw [hclient] at hclosed
    cases hclosed

/-- **One step** of the dispatcher and its client is some steps of the exchange. -/
theorem Simulates.step (htext : ∀ cs, server.decoders.text (encode cs) = some cs)
    (hparse : ReadsIds server client gateway)
    (hconsistent : Consistent (answerOf server client gateway) a) (h : Simulates server client c a)
    {action : Action} {c' : State} (hwell : wellFormed server c action)
    (hstep : step server client gateway c action = some c') :
    ∃ a', (exchange (answerOf server client gateway)).Path System.anyStep a a' ∧
      Simulates server client c' a' := by
  have hfail : (exchange (answerOf server client gateway)).Path System.anyStep a a.stop.giveUpAll :=
    (Correlation.path_step (a := .stop) rfl).trans (Correlation.path_step (a := .giveUpAll) rfl)
  cases action with
  | request p =>
      cases hstep
      have hissue : Correlation.step (answerOf server client gateway) a (.issue p) =
        some (a.issue p) := rfl
      by_cases hclient : c.clientOpen = true
      · exact ⟨_, Correlation.path_step hissue, h.request_open hwell hclient⟩
      · have hmem : c.issued.length ∈ (a.issue p).pending := by
          rw [← h.issued]
          exact List.mem_append_right _ (List.mem_singleton_self _)
        have hgiveUp : Correlation.step (answerOf server client gateway) (a.issue p)
            (.giveUp c.issued.length) = some ((a.issue p).settle c.issued.length none) := by
          rw [Correlation.step, if_pos hmem]
        exact ⟨_, (Correlation.path_step hissue).trans (Correlation.path_step hgiveUp),
          h.request_closed hwell (Bool.eq_false_iff.mpr hclient)⟩
  | abort n =>
      rw [Dispatcher.step] at hstep
      split at hstep
      next hn =>
        cases hstep
        have hmem : n ∈ a.pending := by
          rw [h.pending, List.map_map] at hn
          obtain ⟨m, hm, rfl⟩ := List.mem_map.mp hn
          exact hm
        have hgiveUp : Correlation.step (answerOf server client gateway) a (.giveUp n) =
            some (a.settle n none) := by
          rw [Correlation.step, if_pos hmem]
        exact ⟨_, Correlation.path_step hgiveUp, h.settle hconsistent n⟩
      next => cases hstep
  | deliver k =>
      cases hstep
      exact ⟨a, .refl, h.deliver k⟩
  | readline =>
      rw [Dispatcher.step] at hstep
      split at hstep
      next hopen =>
        obtain ⟨hserver, hraw⟩ := Bool.and_eq_true_iff.mp hopen
        have hstop : Correlation.step (answerOf server client gateway) a .stop = some a.stop := rfl
        rcases h.readline (Option.isNone_iff_eq_none.mp hraw) hserver hstep with h | h
        · exact ⟨a, .refl, h⟩
        · exact ⟨_, Correlation.path_step hstop, h⟩
      next => cases hstep
  | respond =>
      rw [Dispatcher.step] at hstep
      split at hstep
      next hserver =>
        obtain ⟨raw, hraw, rfl⟩ := Option.map_eq_some_iff.mp hstep
        by_cases hclient : c.clientOpen = true
        · exact h.respond htext hparse hraw hserver hclient
        · exact ⟨a, .refl, h.issued, h.pending, h.settled, h.stopped,
            fun _ hopen => absurd hopen hclient, fun hopen => absurd hopen hclient, h.left, h.valid,
            h.dropped⟩
      next => cases hstep
  | stopServer =>
      cases hstep
      have hstop : Correlation.step (answerOf server client gateway) a .stop = some a.stop := rfl
      exact ⟨_, Correlation.path_step hstop, h.stop⟩
  | data k =>
      rw [Dispatcher.step] at hstep
      split at hstep
      next hclient =>
        cases hstep
        exact h.data hconsistent hclient k
      next => cases hstep
  | closed =>
      rw [Dispatcher.step] at hstep
      split at hstep
      next =>
        cases hstep
        exact ⟨_, hfail, h.fail⟩
      next => cases hstep
  | closeClient =>
      cases hstep
      exact ⟨_, hfail, h.fail⟩

/-- Every run is a run of the exchange. -/
theorem simulates_of_reachable (htext : ∀ cs, server.decoders.text (encode cs) = some cs)
    (hparse : ReadsIds server client gateway)
    (h : (system server client gateway).Reachable (wellFormed server) c) :
    ∃ a, (exchange (answerOf server client gateway)).Reachable System.anyStep a ∧
      Simulates server client c a := by
  refine h.invariant
    (fun c => ∃ a, (exchange (answerOf server client gateway)).Reachable System.anyStep a ∧
      Simulates server client c a) ?_ ?_
  · rintro c rfl
    exact ⟨_, .init rfl, simulates_initial⟩
  · rintro c action c' ⟨a, hreachable, hsimulates⟩ hwell hstep
    obtain ⟨a', hpath, hnext⟩ := hsimulates.step htext hparse
      (Correlation.consistent_of_reachable hreachable) hwell hstep
    exact ⟨a', hreachable.path hpath, hnext⟩

/-- Both ends are open, and nothing is on its way or worked on. -/
structure State.Quiet (c : State) : Prop where
  serverOpen : c.serverOpen = true
  clientOpen : c.clientOpen = true
  raw : c.raw = none
  requests : c.received ++ c.toServer = []
  replies : c.buffer ++ c.toClient = []

theorem frameBytes_ne_nil {issued : List Payload} {n : Nat} (h : n < issued.length) :
    frameBytes issued n ≠ [] := by
  rw [frameBytes, List.getElem?_eq_getElem h]
  exact List.append_ne_nil_of_right_ne_nil _ (List.cons_ne_nil _ _)

/-- Nothing is on its way between the exchange's ends either. -/
theorem Simulates.quiet (h : Simulates server client c a) (hquiet : c.Quiet) :
    a.requests = [] ∧ a.replies = [] ∧ a.stopped = false := by
  refine ⟨?_, ?_, ?_⟩
  · have hwire := h.wire hquiet.serverOpen hquiet.clientOpen
    have hline := hwire.line
    rw [hquiet.raw, Option.getD_none, List.nil_append, hquiet.requests] at hline
    refine List.eq_nil_iff_forall_not_mem.mpr fun n hn => ?_
    have hnil := List.flatMap_eq_nil_iff.mp hline.symm n hn
    rw [hwire.requests, List.mem_range'_1] at hn
    exact frameBytes_ne_nil (by omega) hnil
  · obtain ⟨frames, -, hbuffer, hreplies⟩ := h.replies hquiet.clientOpen
    rw [hquiet.replies] at hbuffer
    have hframes : frames = [] := by
      refine List.eq_nil_iff_forall_not_mem.mpr fun f hf => ?_
      exact absurd (List.flatMap_eq_nil_iff.mp hbuffer.symm f hf)
        (List.append_ne_nil_of_right_ne_nil _ (List.cons_ne_nil _ _))
    rw [hreplies, hframes]
    rfl
  · rw [h.stopped, hquiet.serverOpen, hquiet.clientOpen]
    rfl

/-- **The calls of a process.**  In every run a call is settled at most once, and a reply settles
    the call that it answers.  When the client is closed every call has been settled.  When nothing
    is on its way any more every call has been settled, but for those whose frame is one or two
    bytes too long. -/
theorem dispatcher_settles (htext : ∀ cs, server.decoders.text (encode cs) = some cs)
    (hparse : ReadsIds server client gateway)
    (h : (system server client gateway).Reachable (wellFormed server) c) :
    (c.settled.map Prod.fst).Nodup ∧
    (∀ n outcome, (n, some outcome) ∈ c.settled →
      ∃ p, c.issued[n]? = some p ∧ outcome = answerOf server client gateway n p) ∧
    (c.clientOpen = false → ∀ n < c.issued.length, n ∈ c.settled.map Prod.fst) ∧
    (c.Quiet → ∀ n p, c.issued[n]? = some p → n ∉ c.settled.map Prod.fst →
      maxFrameBytes < (requestBytes n p).length ∧
        (requestBytes n p).length ≤ maxFrameBytes + 2) := by
  obtain ⟨a, hreachable, hsimulates⟩ := simulates_of_reachable htext hparse h
  have hconsistent := Correlation.consistent_of_reachable hreachable
  have hknown : ∀ n < c.issued.length, n ∉ c.settled.map Prod.fst → n ∈ a.pending := by
    intro n hn hsettled
    rw [← hsimulates.issued] at hn
    rw [← hsimulates.settled] at hsettled
    exact ((hconsistent.known n).mp hn).resolve_right hsettled
  refine ⟨?_, ?_, ?_, ?_⟩
  · rw [← hsimulates.settled]
    exact hconsistent.once.of_append_right
  · intro n outcome hmem
    rw [← hsimulates.settled] at hmem
    obtain ⟨p, hp, houtcome⟩ := hconsistent.settled n outcome hmem
    exact ⟨p, hsimulates.issued ▸ hp, houtcome⟩
  · intro hclosed n hn
    by_contra hsettled
    have hpending := hsimulates.pending
    rw [hsimulates.left hclosed] at hpending
    have hnil := List.map_eq_nil_iff.mp hpending.symm
    exact List.not_mem_nil (hnil ▸ hknown n hn hsettled)
  · intro hquiet n p hp hsettled
    obtain ⟨hrequests, hreplies, hstopped⟩ := hsimulates.quiet hquiet
    have hn := (List.getElem?_eq_some_iff.mp hp).1
    have hdropped : n ∈ a.dropped := by
      rcases hconsistent.waiting n (hknown n hn hsettled) with hmem | hmem | hmem | hmem
      · rw [hrequests] at hmem
        cases hmem
      · rw [hreplies] at hmem
        cases hmem
      · exact hmem
      · rw [hstopped] at hmem
        cases hmem
    have hlength := hsimulates.dropped n hdropped
    rw [frameBytes, hp] at hlength
    exact hlength

end Steps

/-! ## Replies that are read as they are written -/

theorem exact_member {env : Json.Decoders} {v : Json} (h : Json.Exact env v) (key : String) :
    Json.Exact env (member v key) := by
  rw [member]
  cases hget : (Json.asDict (some v)).get? key with
  | none => exact .null
  | some value =>
      cases h with
      | object nodup exact =>
          exact exact _ (Dict.mem_of_mem_ofPairs (Dict.mem_of_get? hget))
      | _ => cases hget

theorem exact_refusal {env : Json.Decoders} {id : Json} (h : Json.Exact env id) (message : String) :
    Json.Exact env (.object (Server.refusal id message)) := by
  rw [Server.refusal]
  refine .object (by decide : ["id", "ok", "error"].Nodup) ?_
  simp only [List.forall_mem_cons]
  refine ⟨h, .bool _, .object (List.nodup_singleton _) ?_, nofun⟩
  simp only [List.forall_mem_cons]
  exact ⟨.string _, nofun⟩

/-- A request that is not refused is for the tools, or is answered by the gateway. -/
theorem dispatch_ok {request : Json} {answer : Answer} {reply : List (String × Json)}
    (h : server.dispatch request answer = .ok reply) :
    reply = [("tools", .array (server.tools.entries.map Prod.snd))] ∨
      ∃ isSuccess payload, answer = .response isSuccess payload ∧
        reply = [("data", member payload "data"),
          ("invocation_id", member payload "invocation_id")] := by
  unfold Server.dispatch at h
  split at h
  next =>
    cases h
    exact .inl rfl
  next =>
    split at h
    next => cases h
    next =>
      split at h
      next =>
        split at h
        next => cases h
        next =>
          split at h
          next => cases h
          next =>
            split at h
            next => cases h
            next => cases h
            next isSuccess payload =>
              split at h
              next => cases h
              next =>
                cases h
                exact .inr ⟨isSuccess, payload, rfl, rfl⟩
      next => cases h

/-- The members of a reply to a call. -/
theorem exact_response {n : Nat} {p : Payload} {answer : Answer} (hvalid : p.Valid server.decoders)
    (htext : ∀ cs, server.decoders.text (encode cs) = some cs)
    (htools : ∀ v ∈ server.tools.entries.map Prod.snd, Json.Exact server.decoders v)
    (hanswer : ∀ isSuccess v, answer = .response isSuccess v → Json.Exact server.decoders v) :
    ∃ rest, (server.response (requestBytes n p) answer).2 =
        ("id", (server.response (requestBytes n p) answer).1) :: rest ∧
      Json.Exact server.decoders (.object (server.response (requestBytes n p) answer).2) ∧
      Json.Exact server.decoders (server.response (requestBytes n p) answer).1 := by
  rw [Server.response]
  split
  next => exact ⟨_, rfl, exact_refusal .null _, .null⟩
  next =>
    rw [loads_requestBytes hvalid htext]
    have hid := exact_member (exact_request hvalid n) "id"
    dsimp only
    split
    next => exact ⟨_, rfl, exact_refusal hid _, hid⟩
    next reply hreply =>
      refine ⟨_, rfl, ?_, hid⟩
      rcases dispatch_ok hreply with rfl | ⟨isSuccess, payload, hresponse, rfl⟩
      · refine .object (by decide : ["id", "ok", "tools"].Nodup) ?_
        simp only [List.forall_mem_cons, List.cons_append, List.nil_append]
        exact ⟨hid, .bool _, .array htools, nofun⟩
      · refine .object (by decide : ["id", "ok", "data", "invocation_id"].Nodup) ?_
        have hpayload := hanswer isSuccess payload hresponse
        simp only [List.forall_mem_cons, List.cons_append, List.nil_append]
        exact ⟨hid, .bool _, exact_member hpayload _, exact_member hpayload _, nofun⟩

theorem member_id {id : Json} {rest : List (String × Json)}
    (h : (("id", id) :: rest).map Prod.fst |>.Nodup) :
    member (.object (("id", id) :: rest)) "id" = id := by
  rw [member, Json.asDict, Dict.get?, Dict.entries_ofPairs h]
  rfl

/-- A client that reads JSON as Python does. -/
theorem readsIds_readText (htext : ∀ cs, server.decoders.text (encode cs) = some cs)
    (htools : ∀ v ∈ server.tools.entries.map Prod.snd, Json.Exact server.decoders v)
    (hgateway : ∀ n isSuccess v, gateway n = .response isSuccess v → Json.Exact server.decoders v)
    (hparse : client.parse = Json.readText server.decoders) : ReadsIds server client gateway := by
  intro n p hvalid
  obtain ⟨rest, hmembers, hexact, hid⟩ := exact_response (n := n) hvalid htext htools (hgateway n)
  rw [hparse, Server.replyText]
  split
  next =>
    refine ⟨_, Json.readText_print hexact, ?_⟩
    rw [hmembers] at hexact ⊢
    cases hexact with
    | object nodup exact => exact member_id nodup
  next => exact ⟨_, Json.readText_printAscii (exact_refusal hid _), rfl⟩

/-! ## One run -/

/-- A parent with one tool. -/
def sampleServer : Server :=
  { decoders :=
      { text := fun bytes => some (decodeReplace bytes)
        float := fun _ => ⟨['N', 'a', 'N'], by decide, by decide⟩ }
    tools := ⟨[("search", .object [("name", .string "search")])], List.nodup_singleton _⟩
    repr := fun _ => "" }

def sampleClient : Client :=
  { parse := Json.readText sampleServer.decoders
    jsString := fun _ => [] }

def sampleGateway : Nat → Answer := fun _ => .raised "Connection refused"

/-- The calls of a process that asks for its tools, and calls one. -/
def sampleRun : List Action :=
  [.request .list, .deliver 9, .request (.invoke "search" (.object [])), .deliver 300, .readline,
    .respond, .readline, .data 20, .respond, .data 300]

theorem dispatcher_settles_sample :
    ∃ c, (system sampleServer sampleClient sampleGateway).exec initial sampleRun = some c ∧
      c.settled.map Prod.fst = [0, 1] ∧
      ∀ n outcome, (n, some outcome) ∈ c.settled → ∃ p, c.issued[n]? = some p ∧
        outcome = answerOf sampleServer sampleClient sampleGateway n p := by
  have hrun : ((system sampleServer sampleClient sampleGateway).exec initial sampleRun).map
      (fun c => c.settled.map Prod.fst) = some [0, 1] := by decide +kernel
  obtain ⟨c, hc, hsettled⟩ := Option.map_eq_some_iff.mp hrun
  have hallowed : (system sampleServer sampleClient sampleGateway).Allowed
      (wellFormed sampleServer) initial sampleRun := by
    refine System.allowed_of_forall fun s a ha => ?_
    simp only [sampleRun, List.mem_cons, List.not_mem_nil, or_false] at ha
    rcases ha with rfl | rfl | rfl | rfl | rfl | rfl | rfl | rfl | rfl | rfl
    case inr.inr.inl => exact .object List.nodup_nil nofun
    all_goals trivial
  have htext : ∀ cs, sampleServer.decoders.text (encode cs) = some cs :=
    fun cs => congrArg some (decodeReplace_encode cs)
  have hreads : ReadsIds sampleServer sampleClient sampleGateway := by
    refine readsIds_readText htext ?_ nofun rfl
    intro v hv
    obtain rfl := List.mem_singleton.mp hv
    refine .object (List.nodup_singleton _) fun m hm => ?_
    obtain rfl := List.mem_singleton.mp hm
    exact .string _
  obtain ⟨-, hanswers, -, -⟩ := dispatcher_settles htext hreads
    ⟨initial, rfl, System.path_of_allowed sampleRun hallowed hc⟩
  exact ⟨c, hc, hsettled, hanswers⟩

end Dispatcher
end DeepSeek
end HermesPlatform
