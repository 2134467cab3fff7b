import HardcodedText.Text.Basic

/-!
UTF-8 decoding. A byte sequence is read as a list of pieces, each a character or the longest
beginning of a character that the next byte, or the end of the input, cuts off. Strict decoding
reports the first bad piece; lenient decoding puts the replacement character in its place.
-/

namespace HardcodedText.Utf8

inductive Fault
  | invalidStart
  | invalidContinuation
  | unexpectedEnd
  deriving DecidableEq, Repr

def Fault.message : Fault → String
  | .invalidStart => "invalid start byte"
  | .invalidContinuation => "invalid continuation byte"
  | .unexpectedEnd => "unexpected end of data"

/-- The bytes from `start` up to `stop` are no character, and `byte` is the first of them. -/
structure DecodeError where
  byte : Nat
  start : Nat
  stop : Nat
  fault : Fault
  deriving DecidableEq, Repr

def DecodeError.message (error : DecodeError) : String :=
  let place :=
    if error.stop = error.start + 1 then
      "byte 0x" ++ (Text.hexadecimal 2 error.byte).string ++ " in position " ++
        toString error.start
    else
      "bytes in position " ++ toString error.start ++ "-" ++ toString (error.stop - 1)
  "'utf-8' codec can't decode " ++ place ++ ": " ++ error.fault.message

inductive Piece
  | char (c : Char)
  | bad (error : DecodeError)
  deriving DecidableEq, Repr

/-- The beginning of a character: `owed` bytes are missing, the next one between `low` and
`high`. -/
structure Begun where
  first : Nat
  start : Nat
  owed : Nat
  low : Nat
  high : Nat
  code : Nat

/-- The first byte of a character: a complete piece, or the beginning of a longer one. The bounds
on the second byte rule out overlong forms, surrogates and codes past U+10FFFF. -/
def openChar (index byte : Nat) : List Piece × Option Begun :=
  if byte < 0x80 then ([.char (Char.ofNat byte)], none)
  else if byte < 0xc2 then ([.bad ⟨byte, index, index + 1, .invalidStart⟩], none)
  else if byte < 0xe0 then ([], some ⟨byte, index, 1, 0x80, 0xbf, byte - 0xc0⟩)
  else if byte < 0xf0 then
    let low := if byte = 0xe0 then 0xa0 else 0x80
    let high := if byte = 0xed then 0x9f else 0xbf
    ([], some ⟨byte, index, 2, low, high, byte - 0xe0⟩)
  else if byte < 0xf5 then
    let low := if byte = 0xf0 then 0x90 else 0x80
    let high := if byte = 0xf4 then 0x8f else 0xbf
    ([], some ⟨byte, index, 3, low, high, byte - 0xf0⟩)
  else ([.bad ⟨byte, index, index + 1, .invalidStart⟩], none)

/-- One more byte, given what has begun. A byte that cannot continue ends the bad piece and is
read again as the first byte of a character. -/
def readByte (index byte : Nat) : Option Begun → List Piece × Option Begun
  | none => openChar index byte
  | some begun =>
      if begun.low ≤ byte && byte ≤ begun.high then
        let code := begun.code * 64 + (byte - 0x80)
        if begun.owed ≤ 1 then ([.char (Char.ofNat code)], none)
        else
          ([], some { begun with owed := begun.owed - 1, low := 0x80, high := 0xbf, code := code })
      else
        let (pieces, next) := openChar index byte
        (.bad ⟨begun.first, begun.start, index, .invalidContinuation⟩ :: pieces, next)

def piecesFrom (index : Nat) (begun : Option Begun) : List UInt8 → List Piece
  | [] =>
      match begun with
      | none => []
      | some begun => [.bad ⟨begun.first, begun.start, index, .unexpectedEnd⟩]
  | byte :: rest =>
      let (pieces, next) := readByte index byte.toNat begun
      pieces ++ piecesFrom (index + 1) next rest

def pieces (bytes : List UInt8) : List Piece :=
  piecesFrom 0 none bytes

def collect : List Piece → Except DecodeError Text
  | [] => .ok []
  | .char c :: rest => (collect rest).map (c :: ·)
  | .bad error :: _ => .error error

def decode (bytes : List UInt8) : Except DecodeError Text :=
  collect (pieces bytes)

/-- Decoding that never fails: each bad piece becomes U+FFFD. -/
def decodeLenient (bytes : List UInt8) : Text :=
  (pieces bytes).map fun
    | .char c => c
    | .bad _ => '\ufffd'

def encode (text : Text) : List UInt8 :=
  text.string.toUTF8.toList

def size (text : Text) : Nat :=
  text.foldl (fun bytes c => bytes + c.utf8Size) 0

/-- Every line end, written as carriage return, line feed or both, as one line feed. -/
def unifyLineEnds : Text → Text
  | '\r' :: '\n' :: rest => '\n' :: unifyLineEnds rest
  | '\r' :: rest => '\n' :: unifyLineEnds rest
  | c :: rest => c :: unifyLineEnds rest
  | [] => []

def readText (bytes : List UInt8) : Except DecodeError Text :=
  (decode bytes).map unifyLineEnds

end HardcodedText.Utf8
