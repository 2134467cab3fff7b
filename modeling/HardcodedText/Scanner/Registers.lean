import HardcodedText.Scanner.Basic

/-!
The scanner as a machine with registers. It keeps the delimiter of the latest literal as text, the
offsets of the latest literal and the latest comment, and counters that may become negative. A step
that reads a character which is not there, of the text or of the delimiter, has no outcome.
-/

namespace HardcodedText

inductive Phase
  | code
  | string
  | interpolation
  | lineComment
  | blockComment
  deriving DecidableEq, Repr

inductive Signal
  | none
  | literalOpen
  | literalClose
  | commentOpen
  | commentClose
  deriving DecidableEq, Repr

structure Registers where
  phase : Phase := .code
  delimiter : Text := []
  literalStart : Option Nat := none
  commentStart : Option Nat := none
  braceDepth : Int := 0
  commentDepth : Int := 0
  backslashes : Nat := 0
  deriving DecidableEq, Repr

structure Landing where
  signal : Signal
  next : Nat
  registers : Registers
  deriving DecidableEq, Repr

def Text.readsAt (text token : Text) (index : Nat) : Bool :=
  token.isPrefixOf (text.drop index)

namespace Registers

variable (registers : Registers) (text : Text) (index : Nat)

def stepCode (c : Char) : Option Landing :=
  if isQuote c then
    let delimiter := if text.readsAt [c, c, c] index then [c, c, c] else [c]
    some ⟨.literalOpen, index + delimiter.length, { registers with
      phase := .string
      delimiter := delimiter
      literalStart := some index
      backslashes := 0 }⟩
  else if c == '/' && index + 1 < text.length then
    match text[index + 1]? with
    | none => none
    | some '/' => some ⟨.commentOpen, index + 2, { registers with
        phase := .lineComment
        commentStart := some index }⟩
    | some '*' => some ⟨.commentOpen, index + 2, { registers with
        phase := .blockComment
        commentStart := some index
        commentDepth := 1 }⟩
    | some _ => some ⟨.none, index + 1, registers⟩
  else some ⟨.none, index + 1, registers⟩

def stepString (c : Char) : Option Landing :=
  let unescaped := { registers with backslashes := 0 }
  if c == '\\' then
    some ⟨.none, index + 1, { registers with backslashes := registers.backslashes + 1 }⟩
  else if registers.backslashes % 2 = 1 then some ⟨.none, index + 1, unescaped⟩
  else if c == '$' && text.readsAt ['\x7b'] (index + 1) then
    some ⟨.none, index + 2, { unescaped with phase := .interpolation, braceDepth := 0 }⟩
  else
    match registers.delimiter[0]? with
    | none => none
    | some quote =>
        if c == quote && text.readsAt registers.delimiter index then
          some ⟨.literalClose, index + registers.delimiter.length,
            { unescaped with phase := .code }⟩
        else some ⟨.none, index + 1, unescaped⟩

def stepInterpolation (c : Char) : Option Landing :=
  if c == '\x7b' then
    some ⟨.none, index + 1, { registers with braceDepth := registers.braceDepth + 1 }⟩
  else if c == '\x7d' then
    if registers.braceDepth = 0 then
      some ⟨.none, index + 1, { registers with phase := .string, backslashes := 0 }⟩
    else some ⟨.none, index + 1, { registers with braceDepth := registers.braceDepth - 1 }⟩
  else some ⟨.none, index + 1, registers⟩

def stepLineComment (c : Char) : Option Landing :=
  if c == '\n' then some ⟨.commentClose, index, { registers with phase := .code }⟩
  else some ⟨.none, index + 1, registers⟩

def stepBlockComment : Option Landing :=
  if text.readsAt ['/', '*'] index then
    some ⟨.none, index + 2, { registers with commentDepth := registers.commentDepth + 1 }⟩
  else if text.readsAt ['*', '/'] index then
    let outer := { registers with commentDepth := registers.commentDepth - 1 }
    if outer.commentDepth = 0 then some ⟨.commentClose, index + 2, { outer with phase := .code }⟩
    else some ⟨.none, index + 2, outer⟩
  else some ⟨.none, index + 1, registers⟩

def step? : Option Landing :=
  match text[index]? with
  | none => none
  | some c =>
      match registers.phase with
      | .code => registers.stepCode text index c
      | .string => registers.stepString text index c
      | .interpolation => registers.stepInterpolation index c
      | .lineComment => registers.stepLineComment index c
      | .blockComment => registers.stepBlockComment text index

end Registers

end HardcodedText
