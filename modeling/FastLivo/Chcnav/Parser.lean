import Mathlib.Data.List.Basic

/-!
# The stream parser of the CHCNAV receiver

The handlers of `hc_msg_parser.c`, the scan loop over them, and the loop of the node that
publishes tokens and clears errors. A handler says whether the pointer moves past the
character it was shown.
-/

namespace FastLivo.Chcnav

/-- `hc__msg_token_type_e`. -/
inductive TokenType
  | none
  | error
  | hcMsg
  | hcShortMsg
  | nmeaMsg
  deriving DecidableEq, Repr

/-- `hc__msg_parser_state_e`. -/
inductive ParserState
  | s0 | s1 | s2 | s3 | s4 | s5 | s6 | s7 | s8 | s9 | s10 | s11 | s12 | s13 | s14 | s15 | s16 | s17
  | s18 | s19 | s20 | s21 | s22 | s23 | s24
  deriving DecidableEq, Repr

/-- What `error.description` says. -/
inductive Description
  | errorChar (c : UInt8)
  | unsupportNmeaHead (head : UInt8 × UInt8)
  | errorNmeaEnd (last : UInt8 × UInt8)
  | tokenValueTooLong (valueLen : Nat)
  deriving DecidableEq, Repr

/-- `HC_PROTOCOL_MAX_LEN`. -/
def hcProtocolMaxLen : Nat := 1024

/-- `hc__msg_token_t`; the bytes of `value` after `value_len` are zero. -/
structure Token where
  type : TokenType := .none
  value : List UInt8 := []
  deriving DecidableEq, Repr

/-- `token_value.value[index]`. -/
def Token.at (t : Token) (index : Nat) : UInt8 := t.value.getD index 0

/-- Members of `hc__msg_parser_t` that the handlers use, and the token they fill. `error` is
`none` for `HC__STATE_NONE`. -/
structure Scanner where
  error : Option (ParserState × Description) := none
  state : ParserState := .s0
  specifiedLen : Nat := 0
  token : Token := {}
  deriving DecidableEq, Repr

/-- `strcmp` reads on behind the two characters of `nmea_head_2` and `nmea_end_2`, which no
zero terminates: the characters that lie there during the call. -/
structure StackBytes where
  afterHead : UInt8
  afterEnd : UInt8

namespace Scanner

/-! ## Handlers -/

/-- An error in the current state. -/
def fail (s : Scanner) (description : Description) : Scanner :=
  { s with token := { s.token with type := .error }, error := some (s.state, description) }

/-- A token is complete. -/
def accept (s : Scanner) (type : TokenType) : Scanner :=
  { s with token := { s.token with type := type }, state := .s0 }

def goto (s : Scanner) (state : ParserState) : Scanner := { s with state := state }

/-- Go on to a state that counts characters. -/
def count (s : Scanner) (state : ParserState) (specifiedLen : Nat) : Scanner :=
  { s with state := state, specifiedLen := specifiedLen }

/-- One expected character. -/
def expect (s : Scanner) (c expected : UInt8) (next : Scanner) : Scanner × Bool :=
  if expected = c then (next, true) else (s.fail (.errorChar c), false)

/-- Count down, and go on without taking the character that follows. -/
def countThen (s : Scanner) (next : Scanner) : Scanner × Bool :=
  if 0 < s.specifiedLen then ({ s with specifiedLen := s.specifiedLen - 1 }, true) else (next, false)

/-- Count down, and accept with the last character. -/
def countAccept (s : Scanner) (type : TokenType) : Scanner × Bool :=
  let s := { s with specifiedLen := s.specifiedLen - 1 }
  (if s.specifiedLen = 0 then s.accept type else s, true)

/-- The length field of a message and its checksum. -/
def restLen (s : Scanner) : Nat := (s.token.at 5).toNat * 256 + (s.token.at 4).toNat + 4

def dealS0 (s : Scanner) (c : UInt8) : Scanner × Bool :=
  if 0xaa = c then (s.goto .s1, true)
  else if 0x24 = c then (s.count .s18 5, true)
  else (s.fail (.errorChar c), true)

def dealS1 (s : Scanner) (c : UInt8) : Scanner × Bool :=
  if 0xcc = c then (s.goto .s2, true)
  else if 0x55 = c then (s.goto .s12, true)
  else (s.fail (.errorChar c), false)

def dealS2 (s : Scanner) (c : UInt8) : Scanner × Bool := s.expect c 0x48 (s.goto .s3)

def dealS3 (s : Scanner) (c : UInt8) : Scanner × Bool := s.expect c 0x43 (s.count .s4 2)

def dealS4 (s : Scanner) : Scanner × Bool := s.countThen (s.count .s5 2)

def dealS5 (s : Scanner) : Scanner × Bool := s.countThen (s.count .s6 2)

def dealS6 (s : Scanner) : Scanner × Bool := s.countThen (s.count .s7 4)

def dealS7 (s : Scanner) : Scanner × Bool := s.countThen (s.count .s8 4)

def dealS8 (s : Scanner) : Scanner × Bool := s.countThen (s.count .s9 4)

def dealS9 (s : Scanner) : Scanner × Bool := s.countThen (s.count .s10 s.restLen)

def dealS10 (s : Scanner) : Scanner × Bool := s.countAccept .hcMsg

def dealS11 (s : Scanner) : Scanner × Bool := (s.accept .hcMsg, false)

def dealS12 (s : Scanner) (c : UInt8) : Scanner × Bool := s.expect c 0x48 (s.goto .s13)

def dealS13 (s : Scanner) (c : UInt8) : Scanner × Bool := s.expect c 0x43 (s.count .s14 2)

def dealS14 (s : Scanner) : Scanner × Bool := s.countThen (s.count .s15 2)

def dealS15 (s : Scanner) : Scanner × Bool := s.countThen (s.count .s16 s.restLen)

def dealS16 (s : Scanner) : Scanner × Bool := s.countAccept .hcShortMsg

def dealS17 (s : Scanner) : Scanner × Bool := (s.accept .hcShortMsg, false)

def dealS18 (s : Scanner) : Scanner × Bool := s.countThen (s.goto .s19)

/-- Whether two characters are a supported head, as `strcmp` sees them. -/
def supportedHead (head : UInt8 × UInt8) (after : UInt8) : Bool :=
  -- "GP", "GN", "BD" and "GT"
  (head == (0x47, 0x50) || head == (0x47, 0x4e) || head == (0x42, 0x44) || head == (0x47, 0x54)) &&
    after == 0

def dealS19 (stack : StackBytes) (s : Scanner) (c : UInt8) : Scanner × Bool :=
  let nmeaHead2 := (s.token.at 1, s.token.at 2)
  if supportedHead nmeaHead2 (stack.afterHead) then
    (if 0x2c = c then s.goto .s21 else s.goto .s20, true)
  else (s.fail (.unsupportNmeaHead nmeaHead2), false)

def dealS20 (s : Scanner) (c : UInt8) : Scanner × Bool := s.expect c 0x2c (s.goto .s21)

/-- Letters, digits, comma, dot and minus. -/
def bodyChar (c : UInt8) : Bool :=
  (c ≤ 0x5a && 0x41 ≤ c) || (c ≤ 0x7a && 0x61 ≤ c) || (c ≤ 0x39 && 0x30 ≤ c) ||
    c == 0x2c || c == 0x2e || c == 0x2d

def dealS21 (s : Scanner) (c : UInt8) : Scanner × Bool :=
  if 0x2a = c then (s.count .s22 4, true)
  else if bodyChar c then (s, true)
  else (s.fail (.errorChar c), false)

def dealS22 (s : Scanner) : Scanner × Bool := s.countAccept .nmeaMsg

def dealS23 (stack : StackBytes) (s : Scanner) : Scanner × Bool :=
  let len := s.token.value.length
  let nmeaEnd2 := (s.token.at (len - 2), s.token.at (len - 1))
  if nmeaEnd2 == (0x0d, 0x0a) && stack.afterEnd == 0 then (s.goto .s24, false)
  else (s.fail (.errorNmeaEnd nmeaEnd2), false)

def dealS24 (s : Scanner) : Scanner × Bool := (s.accept .nmeaMsg, false)

/-- `g_hc__msg_state_handler`. -/
def handler (stack : StackBytes) (s : Scanner) (c : UInt8) : Scanner × Bool :=
  match s.state with
  | .s0 => s.dealS0 c
  | .s1 => s.dealS1 c
  | .s2 => s.dealS2 c
  | .s3 => s.dealS3 c
  | .s4 => s.dealS4
  | .s5 => s.dealS5
  | .s6 => s.dealS6
  | .s7 => s.dealS7
  | .s8 => s.dealS8
  | .s9 => s.dealS9
  | .s10 => s.dealS10
  | .s11 => s.dealS11
  | .s12 => s.dealS12 c
  | .s13 => s.dealS13 c
  | .s14 => s.dealS14
  | .s15 => s.dealS15
  | .s16 => s.dealS16
  | .s17 => s.dealS17
  | .s18 => s.dealS18
  | .s19 => s.dealS19 stack c
  | .s20 => s.dealS20 c
  | .s21 => s.dealS21 c
  | .s22 => s.dealS22
  | .s23 => s.dealS23 stack
  | .s24 => s.dealS24

/-- One round of the loop of `hc__msg_parser_scan`, on the character at the pointer. -/
def scanChar (stack : StackBytes) (s : Scanner) (c : UInt8) : Scanner × Bool :=
  let (s, move) := s.handler stack c
  if s.token.value.length + move.toNat < hcProtocolMaxLen then
    ({ s with token := { s.token with value := s.token.value ++ if move then [c] else [] } }, move)
  else
    ({ s with
        token := { s.token with type := .error }
        error := some (s.state, .tokenValueTooLong s.token.value.length) }, false)

end Scanner

/-! ## The node -/

/-- `hc__msg_type_e`. -/
inductive MsgType
  | nmea
  | cgiShortHeader
  | cgiHeader
  deriving DecidableEq, Repr

/-- `type_value` of `hc__single_msg_t`. -/
inductive TypeValue
  | nmea (header : List UInt8)
  | cgi (msgId : Nat)
  deriving DecidableEq, Repr

/-- `hc__single_msg_t`. -/
structure SingleMsg where
  msgType : MsgType
  typeValue : TypeValue
  value : List UInt8
  deriving DecidableEq, Repr

/-- A `char`, which is signed. -/
def signedChar (c : UInt8) : Int := if c.toNat < 128 then c.toNat else c.toNat - 256

/-- `(value[7] << 8) + value[6]` as an `unsigned short`. -/
def Token.msgId (t : Token) : Nat :=
  ((signedChar (t.at 7) * 256 + signedChar (t.at 6)) % 65536).toNat

/-- The message of a complete token. -/
def Token.singleMsg (t : Token) : Option SingleMsg :=
  match t.type with
  | .hcShortMsg => some ⟨.cgiShortHeader, .cgi t.msgId, t.value⟩
  | .hcMsg => some ⟨.cgiHeader, .cgi t.msgId, t.value⟩
  | .nmeaMsg =>
    let header := if t.at 6 = 0x2c then (t.value.drop 1).take 5 else (t.value.drop 1).take 6
    some ⟨.nmea, .nmea header, t.value⟩
  | _ => none

/-- The scanner, and the messages passed to `msg_recv_callback`. -/
structure Decoder where
  scanner : Scanner := {}
  published : List SingleMsg := []
  deriving DecidableEq, Repr

/-- What `node_start` does with the token that a scan returned. -/
def Decoder.handleToken (d : Decoder) : Decoder :=
  match d.scanner.token.singleMsg with
  | some msg => { d with published := d.published ++ [msg] }
  | none => { d with scanner := { d.scanner with error := none, state := .s0 } }

/-- The entry of `hc__msg_parser_scan`. A scan that finds an error returns at once, with no
token, and the node clears the error. -/
def Decoder.enterScan (d : Decoder) : Decoder :=
  let d := { d with scanner := { d.scanner with token := {} } }
  if d.scanner.error.isSome then d.handleToken else d

/-- A character shown to the parser, and whether the pointer moves on. When a scan returns,
the node deals with the token and scans again. -/
def Decoder.feed (stack : StackBytes) (d : Decoder) (c : UInt8) : Decoder × Bool :=
  let (scanner, move) := d.scanner.scanChar stack c
  let d := { d with scanner := scanner }
  if scanner.token.type = .none then (d, move) else (d.handleToken.enterScan, move)

/-- The node with its input buffer: what the last read filled and the pointer into it, and
what the device will return. -/
structure Node where
  decoder : Decoder := {}
  buffer : List UInt8 := []
  pointer : Nat := 0
  reads : List (List UInt8)
  deriving DecidableEq, Repr

/-- `parser_read_handler`: a read that does not fit counts for nothing. -/
def parserReadHandler (size : Nat) (read : List UInt8) : List UInt8 :=
  if read.length ≤ size ∧ 0 < read.length then read else []

/-- A round of the loops, `none` when the node waits for the device. -/
def Node.step (stack : StackBytes) (n : Node) : Option Node :=
  if n.pointer = n.buffer.length then
    match n.reads with
    | [] => none
    | read :: reads =>
      some { n with buffer := parserReadHandler hcProtocolMaxLen read, pointer := 0, reads := reads }
  else do
    let c ← n.buffer[n.pointer]?
    let (decoder, move) := n.decoder.feed stack c
    return { n with decoder := decoder, pointer := n.pointer + move.toNat }

/-- At most so many rounds, each with what then lies on the stack. -/
def Node.run (stack : Nat → StackBytes) : Nat → Node → Node
  | 0, n => n
  | fuel + 1, n =>
    match n.step (stack 0) with
    | none => n
    | some n => n.run (fun round => stack (round + 1)) fuel

end FastLivo.Chcnav
