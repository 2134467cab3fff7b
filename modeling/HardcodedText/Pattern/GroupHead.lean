import HardcodedText.Pattern.Escape
import HardcodedText.Text.Identifier
import HardcodedText.Text.Number

/-!
What follows the opening parenthesis of a group: its kind, its name, a condition or flags.
-/

namespace HardcodedText

namespace PatternFlag

def ofChar? : Char → Option PatternFlag
  | 'i' => some ignoreCase
  | 'L' => some locale
  | 'm' => some multiline
  | 's' => some dotAll
  | 'x' => some verbose
  | 'a' => some ascii
  | 'u' => some unicode
  | 't' => some template
  | _ => none

def setsReach : PatternFlag → Bool
  | ascii | unicode | locale => true
  | _ => false

end PatternFlag

def Scope.withFlags (scope : Scope) (on off : List PatternFlag) : Scope :=
  let switch (flag : PatternFlag) (current : Bool) :=
    (current || on.contains flag) && !off.contains flag
  { reach :=
      if on.contains .ascii then .ascii else if on.contains .unicode then .unicode else scope.reach
    folded := switch .ignoreCase scope.folded
    multiline := switch .multiline scope.multiline
    dotAll := switch .dotAll scope.dotAll
    verbose := switch .verbose scope.verbose }

namespace Pattern

def Token.flag? : Token → Option PatternFlag
  | .plain c => PatternFlag.ofChar? c
  | .escape _ => none

def refuseFlag {α : Type} (token : Token) (missing : PatternFault) : Reader α :=
  match token with
  | .plain c => refuseBack (if isLetter c then .unknownFlag else missing) 1
  | .escape _ => refuseBack missing 2

def readFlagsOn : Nat → List PatternFlag → PatternFlag → Reader (List PatternFlag × Char)
  | 0, _, _ => refuseBack .missingFlagEnd 0
  | fuel + 1, earlier, flag => do
      if flag == .locale then refuseBack .localeFlag 0
      else if flag.setsReach && earlier.any fun other => other.setsReach && other != flag then
        refuseBack .incompatibleFlags 0
      else
        let flags := flag :: earlier
        match ← nextToken with
        | none => refuseBack .missingFlagEnd 0
        | some token =>
            if token == .plain ')' then return (flags, ')')
            else if token == .plain '-' then return (flags, '-')
            else if token == .plain ':' then return (flags, ':')
            else
              match token.flag? with
              | some next => readFlagsOn fuel flags next
              | none => refuseFlag token .missingFlagEnd

def readFlagsOff : Nat → List PatternFlag → PatternFlag → Reader (List PatternFlag)
  | 0, _, _ => refuseBack .missingColon 0
  | fuel + 1, earlier, flag => do
      if flag.setsReach then refuseBack .reachFlagOff 0
      else
        let flags := flag :: earlier
        match ← nextToken with
        | none => refuseBack .missingColon 0
        | some token =>
            if token == .plain ':' then return flags
            else
              match token.flag? with
              | some next => readFlagsOff fuel flags next
              | none => refuseFlag token .missingColon

def readOff : Reader (List PatternFlag) := do
  match ← nextToken with
  | none => refuseBack .missingFlag 0
  | some token =>
      match token.flag? with
      | some flag => readFlagsOff ((← get).rest.length + 1) [] flag
      | none => refuseFlag token .missingFlag

inductive GroupHead
  | capturing (name : Option Text)
  | plain
  | scoped (on off : List PatternFlag)
  | atomic
  | ahead (present : Bool)
  | behind (present : Bool)
  | condition (number : Nat)
  /-- A group that holds nothing more and stands for an item. -/
  | item (item : Item)
  /-- Flags of the whole pattern. -/
  | flags (on : List PatternFlag)
  | comment

def readScope (on : List PatternFlag) (ending : Char) : Reader GroupHead := do
  if ending == ')' then return .flags on
  else if on.contains .template then refuseBack .globalFlagOn 1
  else
    let off ← if ending == '-' then readOff else pure []
    if off.contains .template then refuseBack .globalFlagOff 1
    else if on.any off.contains then refuseBack .flagOnAndOff 1
    else return .scoped on off

def readGroupName (terminator : Char) : Reader Text := do
  let name ← readName terminator .group
  if name.isIdentifier then return name
  else refuseBack (.badGroupName name) (name.length + 1)

def groupNamed (name : Text) : Reader Nat := do
  match (← get).groups.find? (·.name == some name) with
  | some entry => return entry.number
  | none => refuseBack (.unknownGroup name) (name.length + 1)

def groupLimit : Nat := 1073741823

/-- The group that a condition asks for by its number. Whether there is such a group shows only at
the end of the pattern. -/
def readConditionNumber (name : Text) : Reader Nat := do
  let written := name.length + 1
  match name.integer? with
  | some (.ofNat number) =>
      if number = 0 then refuseBack .badGroupNumber written
      else if groupLimit ≤ number then refuseBack (.invalidGroupReference number) written
      else
        let place := (← position) - written
        modify fun progress =>
          if progress.conditions.any (·.1 == number) then progress
          else { progress with conditions := progress.conditions ++ [(number, place)] }
        return number
  | _ => refuseBack (.badGroupName name) written

def readCondition : Reader GroupHead := do
  let name ← readName ')' .group
  let number ← if name.isIdentifier then groupNamed name else readConditionNumber name
  checkLookBehind number
  return .condition number

def readNamedGroup (scope : Scope) : Reader GroupHead := do
  if ← accept '<' then return .capturing (some (← readGroupName '>'))
  else if ← accept '=' then
    let name ← readGroupName ')'
    return .item (← referTo scope (← groupNamed name) (name.length + 1))
  else
    match ← nextToken with
    | none => refuseBack .unexpectedEnd 0
    | some token =>
        refuseBack (.unknownExtension (['?', 'P'] ++ token.text)) (token.text.length + 2)

def readBehind : Reader GroupHead := do
  match ← nextToken with
  | none => refuseBack .unexpectedEnd 0
  | some token =>
      if token == .plain '=' then return .behind true
      else if token == .plain '!' then return .behind false
      else refuseBack (.unknownExtension (['?', '<'] ++ token.text)) (token.text.length + 2)

def skipComment (opened : Nat) : Nat → Reader GroupHead
  | 0 => refuse .unterminatedComment opened
  | fuel + 1 => do
      match ← nextToken with
      | none => refuse .unterminatedComment opened
      | some token => if token == .plain ')' then return .comment else skipComment opened fuel

def readExtension (scope : Scope) (opened : Nat) : Reader GroupHead := do
  let fuel := (← get).rest.length + 1
  match ← nextToken with
  | none => refuseBack .unexpectedEnd 0
  | some (.plain 'P') => readNamedGroup scope
  | some (.plain ':') => return .plain
  | some (.plain '#') => skipComment opened fuel
  | some (.plain '=') => return .ahead true
  | some (.plain '!') => return .ahead false
  | some (.plain '<') => readBehind
  | some (.plain '(') => readCondition
  | some (.plain '>') => return .atomic
  | some (.plain '-') => readScope [] '-'
  | some token =>
      match token.flag? with
      | some flag =>
          let (on, ending) ← readFlagsOn fuel [] flag
          readScope on ending
      | none => refuseBack (.unknownExtension ('?' :: token.text)) (token.text.length + 1)

def readGroupHead (scope : Scope) (opened : Nat) : Reader GroupHead := do
  if ← accept '?' then readExtension scope opened else return .capturing none

end Pattern

end HardcodedText
