import HardcodedText.Pattern.Basic
import HardcodedText.Pattern.Fault

/-!
Reading the text of a pattern: the unread part, the tokens in it, and what has been learned so far
about groups and flags.
-/

namespace HardcodedText

inductive PatternFlag
  | ignoreCase
  | locale
  | multiline
  | dotAll
  | verbose
  | ascii
  | unicode
  | template
  deriving DecidableEq, Repr

namespace Pattern

structure GroupEntry where
  number : Nat
  name : Option Text
  width : Option Width
  deriving DecidableEq, Repr

structure Progress where
  length : Nat
  rest : Text
  groups : List GroupEntry := []
  /-- How many groups had been opened where the outermost look-behind began, if one is open. -/
  lookBehindFrom : Option Nat := none
  /-- The group numbers that conditions ask for, each with the first position. -/
  conditions : List (Nat × Nat) := []
  flags : List PatternFlag := []

structure Refusal where
  fault : PatternFault
  position : Option Nat

abbrev Reader := StateT Progress (Except Refusal)

def refuse {α : Type} (fault : PatternFault) (position : Nat) : Reader α :=
  throw ⟨fault, some position⟩

def position : Reader Nat := do
  let progress ← get
  return progress.length - progress.rest.length

def refuseBack {α : Type} (fault : PatternFault) (distance : Nat) : Reader α := do
  refuse fault ((← position) - distance)

/-- Moves on to the given rest. A lone backslash that comes next is refused at once. -/
def moveTo (rest : Text) : Reader Unit := do
  let progress ← get
  if rest == ['\\'] then refuse .danglingEscape (progress.length - 1)
  else set { progress with rest := rest }

inductive Token
  | plain (c : Char)
  | escape (c : Char)
  deriving DecidableEq, Repr

def Token.text : Token → Text
  | plain c => [c]
  | escape c => ['\\', c]

def splitToken : Text → Option (Token × Text)
  | [] => none
  | '\\' :: c :: rest => some (.escape c, rest)
  | c :: rest => some (.plain c, rest)

def peek : Reader (Option Token) := do
  return (splitToken (← get).rest).map Prod.fst

def nextToken : Reader (Option Token) := do
  match splitToken (← get).rest with
  | none => return none
  | some (token, rest) =>
      moveTo rest
      return some token

def accept (c : Char) : Reader Bool := do
  match splitToken (← get).rest with
  | some (token, rest) =>
      if token == .plain c then
        moveTo rest
        return true
      else return false
  | none => return false

def readWhile (test : Char → Bool) (limit : Nat) : Reader Text := do
  let rest := (← get).rest
  let taken := (rest.takeWhile test).take limit
  moveTo (rest.drop taken.length)
  return taken

def readNameFrom (terminator : Char) (kind : NameKind) : Nat → Text → Reader Text
  | 0, read => return read
  | fuel + 1, read => do
      match ← nextToken with
      | none =>
          if read.isEmpty then refuseBack (.missingName kind) 0
          else refuseBack (.unterminatedName terminator) read.length
      | some token =>
          if token == .plain terminator then
            if read.isEmpty then refuseBack (.missingName kind) 1 else return read
          else readNameFrom terminator kind fuel (read ++ token.text)

def readName (terminator : Char) (kind : NameKind) : Reader Text := do
  readNameFrom terminator kind ((← get).rest.length + 1) []

def openGroup (name : Option Text) : Reader Nat := do
  let progress ← get
  let number := progress.groups.length + 1
  match name, name.bind fun name => progress.groups.find? (·.name == some name) with
  | some name, some earlier =>
      refuseBack (.redefinedGroup name number earlier.number) (name.length + 1)
  | _, _ =>
      set { progress with groups := ⟨number, name, none⟩ :: progress.groups }
      return number

def Progress.widthOf (progress : Progress) (number : Nat) : Option Width :=
  (progress.groups.find? (·.number == number)).bind GroupEntry.width

def Progress.measure (progress : Progress) (pattern : Pattern) : Width :=
  pattern.width fun number => (progress.widthOf number).getD .zero

def closeGroup (number : Nat) (body : Pattern) : Reader Unit :=
  modify fun progress =>
    let width := progress.measure body
    { progress with
      groups := progress.groups.map fun entry =>
        if entry.number == number then { entry with width := some width } else entry }

/-- Inside a look-behind only the groups closed before it can be referred to. -/
def checkLookBehind (number : Nat) : Reader Unit := do
  let progress ← get
  match progress.lookBehindFrom with
  | none => return ()
  | some opened =>
      if (progress.widthOf number).isNone then refuseBack .openGroup 0
      else if opened < number then refuseBack .groupOfSameLookBehind 0
      else return ()

end Pattern

end HardcodedText
