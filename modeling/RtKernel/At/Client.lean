import RtKernel.At.Response
import RtKernel.Core.Run
import RtKernel.Mem.Strings

/-!
# A command and the parser of an AT client

A call of `at_obj_exec_cmd` hands its response object to the parser thread by a pointer in the
client, and waits for a semaphore. The parser reads the pointer once for each line, and works on
with what it has read. Calls exclude each other by the lock of the client, so that there is at most
one; its response object is there until it returns.
-/

namespace RtKernel.At

open Kservice.Chars

/-- `at_resp_status_t`. -/
inductive RespStatus
  | ok
  | error
  | timeout
  | buffFull
  deriving DecidableEq

/-- What does not change: the end sign, the size of the receive buffer, and the table of the URCs
by prefix and suffix. -/
structure Setup where
  endSign : UInt8
  recvBufsz : Nat
  urcTable : List (List UInt8 × List UInt8)

/-- `AT_RESP_END_OK`, `AT_RESP_END_ERROR` and `AT_RESP_END_FAIL`. -/
def atRespEndOk : List UInt8 := [79, 75]

def atRespEndError : List UInt8 := [69, 82, 82, 79, 82]

def atRespEndFail : List UInt8 := [70, 65, 73, 76]

namespace Setup

variable (c : Setup)

/-- `get_urc_obj` finds an entry. -/
def getUrcObj (line : List UInt8) : Bool :=
  c.urcTable.any fun urc =>
    urc.1.length + urc.2.length ≤ line.length && urc.1.isPrefixOf line && urc.2.isSuffixOf line

/-- How a line with the last byte replaced ends the response, if it does. -/
def checkResult (lineNum lineCounts : Nat) (line : List UInt8) : Option RespStatus :=
  let recvLineBuf := terminated line
  if c.endSign ≠ 0 ∧ line.getLast? = some c.endSign ∧ lineNum = 0 then some .ok
  else if atRespEndOk.isPrefixOf recvLineBuf = true ∧ lineNum = 0 then some .ok
  else if rtStrstr (recvLineBuf.takeWhile (· ≠ 0)) atRespEndError = true ∨
      atRespEndFail.isPrefixOf recvLineBuf = true then some .error
  else if lineCounts = lineNum ∧ lineNum ≠ 0 then some .ok
  else none

end Setup

/-- The line that `at_recv_readline` reads: what is in the buffer, whether something did not go
in, and the character before. -/
structure Line where
  buf : List UInt8
  isFull : Bool
  lastCh : UInt8

def Line.empty : Line := { buf := [], isFull := false, lastCh := 0 }

/-- A character is stored where there is room. -/
def Setup.store (c : Setup) (line : Line) (ch : UInt8) : Line :=
  if line.buf.length < c.recvBufsz then { line with buf := line.buf ++ [ch] }
  else { line with isFull := true }

/-- Whether the line ends with the character just stored. -/
def Setup.ends (c : Setup) (line : Line) (ch : UInt8) : Bool :=
  (ch == 10 && line.lastCh == 13) || (c.endSign != 0 && ch == c.endSign) || c.getUrcObj line.buf

/-- What a call of `at_obj_exec_cmd` returns. -/
inductive Result
  | eok
  | error
  | etimeout
  deriving DecidableEq

/-- Where the call is: before it resets the response, sets `client->resp`, resets the semaphore or
sends the command; in `rt_sem_take` and behind it; before it clears `client->resp`, and before it
returns. -/
inductive Phase
  | idle
  | begun
  | attaches
  | resets
  | sends
  | waits
  | taken
  | clears (result : Result)
  | leaves (result : Result)
  deriving DecidableEq

/-- The command has been sent. -/
def Phase.sent : Phase → Bool
  | .waits | .taken | .clears _ | .leaves _ => true
  | .idle | .begun | .attaches | .resets | .sends => false

/-- Where the parser is: in `at_recv_readline`; behind it with a line; before it reads
`client->resp` into `resp`; before it copies the line to `resp`, checks how it ends, clears
`client->resp` and releases the semaphore. -/
inductive Parser
  | reading
  | line
  | takes
  | copies (resp : Nat)
  | checks (resp : Nat)
  | clears
  | releases
  deriving DecidableEq

/-- The response object that the parser works on. -/
def Parser.held : Parser → Option Nat
  | .copies resp | .checks resp => some resp
  | .reading | .line | .takes | .clears | .releases => none

/-- The client with the call and the parser. Calls are numbered, and `resp` is the number of the
call whose response object is meant. -/
structure Client where
  line : Line
  resp : Option Nat
  respNotice : Nat
  respStatus : RespStatus
  parser : Parser
  phase : Phase
  calls : Nat
  /-- The response object of the last call, unless it is `RT_NULL`. -/
  obj : Option AtResponse
  /-- All of the line that is read, the lines other than URCs that have come in since the command
  was sent, and whether the last one has. -/
  text : List UInt8
  log : List (List UInt8)
  fresh : Bool
  /-- A response object has been accessed that is not there, or outside its buffer. -/
  fault : Bool

/-- What happens: a character comes in, the parser goes on, a call begins or goes on, or its timeout
ends. -/
inductive Act
  | getchar (ch : UInt8)
  | parser
  | begin (resp : Option AtResponse)
  | caller
  | timeout

namespace Client

variable (c : Setup)

/-- The response object of a call is there until the call returns. -/
def object (s : Client) (k : Nat) : Option AtResponse :=
  if k = s.calls ∧ s.phase ≠ .idle then s.obj else none

/-- `at_recv_readline` is called again. -/
def readline (s : Client) : Client := { s with parser := .reading, line := .empty, text := [] }

/-- A turn of `at_recv_readline`; a line that did not go into the buffer is given up, and for a URC
its function is called. -/
def getchar (s : Client) (ch : UInt8) : Client :=
  let line := c.store s.line ch
  let text := s.text ++ [ch]
  if c.ends line ch = false then { s with line := { line with lastCh := ch }, text := text }
  else if line.isFull = true then { s.readline with log := s.log ++ [text] }
  else if c.getUrcObj line.buf = true then s.readline
  else
    { s with
      line := line, text := text, parser := .line, log := s.log ++ [text], fresh := s.phase.sent }

/-- The line is copied behind the ones before. -/
def copy (s : Client) (k : Nat) (resp : AtResponse) : Client :=
  if resp.bufLen + s.line.buf.length < resp.buf.length then
    match Cells.writeBlock resp.buf resp.bufLen (terminated s.line.buf) with
    | none => { s with fault := true }
    | some buf =>
      { s with
        parser := .checks k
        obj := some { resp with
          buf := buf, bufLen := resp.bufLen + s.line.buf.length
          lineCounts := resp.lineCounts + 1 } }
  else { s with parser := .checks k, respStatus := .buffFull }

/-- `client_parser` behind `at_recv_readline`. -/
def parse (s : Client) : Option Client :=
  match s.parser with
  | .reading => none
  | .line => some (if s.resp.isSome then { s with parser := .takes } else s.readline)
  | .takes =>
    match s.resp with
    | none => some { s with fault := true }
    | some k => some { s with parser := .copies k }
  | .copies k =>
    match s.object k with
    | none => some { s with fault := true }
    | some resp => some (s.copy k resp)
  | .checks k =>
    match s.object k with
    | none => some { s with fault := true }
    | some resp =>
      match c.checkResult resp.lineNum resp.lineCounts s.line.buf with
      | none => some s.readline
      | some status => some { s with parser := .clears, respStatus := status }
  | .clears => some { s with parser := .releases, resp := none }
  | .releases => some { s.readline with respNotice := s.respNotice + 1 }

/-- `at_obj_exec_cmd` behind the lock. -/
def call (s : Client) : Option Client :=
  match s.phase with
  | .idle => none
  | .begun =>
    some { s with
      phase := .attaches, respStatus := .ok, fresh := false
      obj := s.obj.map fun resp => { resp with bufLen := 0, lineCounts := 0 } }
  | .attaches => some { s with phase := .resets, resp := s.obj.map fun _ => s.calls }
  | .resets => some { s with phase := .sends, respNotice := 0 }
  | .sends =>
    some { s with
      phase := if s.obj.isSome then .waits else .clears .eok, log := [], fresh := false }
  | .waits =>
    if 0 < s.respNotice then some { s with phase := .taken, respNotice := s.respNotice - 1 }
    else none
  | .taken => some { s with phase := .clears (if s.respStatus = .ok then .eok else .error) }
  | .clears result => some { s with phase := .leaves result, resp := none }
  | .leaves _ => some { s with phase := .idle }

def exec (s : Client) : Act → Option Client
  | .getchar ch => if s.parser = .reading then some (s.getchar c ch) else none
  | .parser => s.parse c
  | .begin resp =>
    if s.phase = .idle then some { s with phase := .begun, calls := s.calls + 1, obj := resp }
    else none
  | .caller => s.call
  | .timeout =>
    if s.phase = .waits ∧ s.respNotice = 0 then
      some { s with phase := .clears .etimeout, respStatus := .timeout }
    else none

def Step (s : Client) (a : Act) (s' : Client) : Prop := s.exec c a = some s'

/-- After `at_client_init`. -/
def fresh₀ : Client :=
  { line := .empty, resp := none, respNotice := 0, respStatus := .ok, parser := .reading
    phase := .idle, calls := 0, obj := none, text := [], log := [], fresh := false
    fault := false }

end Client

/-- The lines up to the first that ends the response, where `n` lines have been before. -/
def Setup.answer (c : Setup) (lineNum : Nat) : Nat → List (List UInt8) → Option (List (List UInt8))
  | _, [] => none
  | n, line :: rest =>
    if (c.checkResult lineNum (n + 1) line).isSome then some [line]
    else (answer c lineNum (n + 1) rest).map (line :: ·)

/-- A response holds lines as strings one behind the other, and `at_resp_get_line` finds them. -/
structure AtResponse.Holds (resp : AtResponse) (lines : List (List UInt8)) : Prop where
  lineCounts : resp.lineCounts = lines.length
  consecutive : texts lines <+: resp.buf
  getLine : ∀ n (h : n < lines.length), ∃ p, atRespGetLine resp (n + 1) = some p ∧
    Cells.string resp.buf p = some lines[n].dropLast

namespace Client

variable (c : Setup)

/-- The response holds the lines up to the end line. -/
def Answered (s : Client) (resp : AtResponse) : Prop :=
  ∃ lines, c.answer resp.lineNum 0 s.log = some lines ∧ resp.Holds lines

/-- Response objects are accessed as they may be, and a call that returns `RT_EOK` has its
response. -/
structure Kept (s : Client) : Prop where
  fault : s.fault = false
  answered : s.phase = .leaves .eok → ∀ resp ∈ s.obj, s.Answered c resp

/-- The lines go into the receive buffer one by one and into the response together, and have no NUL
inside. -/
def Fits (s : Client) (resp : AtResponse) : Prop :=
  (∀ line ∈ s.log, line.length ≤ c.recvBufsz ∧ 0 ∉ line.dropLast) ∧
    (texts s.log).length < resp.buf.length

/-- What the parser may do: it takes a response only for a line that has come in since the command
was sent, and finds it complete only when all lines since then fit. -/
def ParserCareful (s : Client) : Prop :=
  match s.parser with
  | .line => s.resp.isSome → s.fresh = true
  | .checks k => ∀ resp ∈ s.object k,
      c.checkResult resp.lineNum resp.lineCounts s.line.buf = some .ok → s.Fits c resp
  | .reading | .takes | .copies _ | .clears | .releases => True

/-- What a call may do: it resets the semaphore while the parser is not about to release it, clears
`client->resp` while the parser is not about to read it, and returns while the parser does not work
on a response. -/
def CallCareful (s : Client) : Prop :=
  match s.phase with
  | .resets => s.parser ≠ .clears ∧ s.parser ≠ .releases
  | .clears _ => s.parser ≠ .takes
  | .leaves _ => s.parser.held = none
  | .idle | .begun | .attaches | .sends | .waits | .taken => True

def Careful (s : Client) : Act → Prop
  | .parser => s.ParserCareful c
  | .caller => s.CallCareful
  | .getchar _ | .begin _ | .timeout => True

end Client

end RtKernel.At
