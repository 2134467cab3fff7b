import HardcodedText.Pattern.GroupHead

/-!
The written form of patterns: literals, escapes, sets, anchors, alternatives, repetition, groups
with and without a name, references, conditions, looking ahead and behind, flags and comments. A
text that is no pattern is refused with the fault and the position at which reading stopped.
-/

namespace HardcodedText

namespace Pattern

def repetitionLimit : Nat := 4294967295

def readBound (digits : Text) : Reader (Option Nat) := do
  if digits.isEmpty then return none
  else
    let value := Text.numeral 10 digits
    if repetitionLimit ≤ value then throw ⟨.tooManyRepetitions, none⟩ else return some value

/-- The bounds of a repetition in braces, after the opening brace; `none` if what follows is not one
and the brace stands for itself. -/
def readBounds : Reader (Option (Nat × Option Nat)) := do
  let before ← get
  if (← peek) == some (.plain '\x7d') then return none
  else
    let opened ← position
    let low ← readWhile Char.isDigit before.length
    let high ← if ← accept ',' then readWhile Char.isDigit before.length else pure low
    if ← accept '\x7d' then
      let least := (← readBound low).getD 0
      match ← readBound high with
      | some most =>
          if most < least then refuse .repeatBoundsReversed opened
          else return some (least, some most)
      | none => return some (least, none)
    else
      set before
      return none

def readRepetition (c : Char) : Reader (Option (Nat × Option Nat)) :=
  if c == '?' then return some (0, some 1)
  else if c == '*' then return some (0, none)
  else if c == '+' then return some (1, none)
  else readBounds

/-- A question mark after a repetition makes it lazy, a plus sign possessive. -/
def readGreed : Reader Greed := do
  if ← accept '?' then return .lazy
  else if ← accept '+' then return .possessive
  else return .greedy

def repeatLatest (bounds : Nat × Option Nat) (announced : Nat) :
    List Item → Reader (List Item)
  | [] => refuse .nothingToRepeat announced
  | item :: earlier => do
      match item.kind with
      | .anchor => refuse .nothingToRepeat announced
      | .repetition => refuse .multipleRepeat announced
      | .plain =>
          let greed ← readGreed
          return ⟨.repeated item.pattern bounds.1 bounds.2 greed, .repetition⟩ :: earlier

def ofItems (items : List Item) : Pattern :=
  all (items.reverse.map Item.pattern)

def skipLine : Nat → Reader Unit
  | 0 => return ()
  | fuel + 1 => do
      match ← nextToken with
      | none => return ()
      | some token => if token == .plain '\n' then return () else skipLine fuel

def isLayout (c : Char) : Bool :=
  c == ' ' || ('\t' ≤ c && c ≤ '\r')

def expectClose (opened : Nat) : Reader Unit := do
  if ← accept ')' then return () else refuse .unterminatedGroup opened

def closeItem (opened : Nat) (make : Pattern → Pattern) (body : Pattern) :
    Reader (Option Item) := do
  expectClose opened
  return some ⟨make body, .plain⟩

def simpleItem (scope : Scope) (c : Char) : Item :=
  if c == '.' then
    ⟨if scope.dotAll then noneOf [] else noneOf [.single '\n'], .plain⟩
  else if c == '^' then
    ⟨.landmark (if scope.multiline then .lineStart else .textStart), .anchor⟩
  else if c == '$' then
    ⟨.landmark (if scope.multiline then .lineEnd else .lastLineEnd), .anchor⟩
  else .code scope c.toNat

variable [CharacterNames]

mutual

/-- Reads items up to a bar, a closing parenthesis or the end; the items read so far are given, the
latest first. Flags of the whole pattern can stand only where `first` holds, before every item. The
scope that is returned includes them. -/
def readItems : Nat → Scope → Bool → List Item → Reader (Pattern × Scope)
  | 0, scope, _, items => return (ofItems items, scope)
  | fuel + 1, scope, first, items => do
      let announced ← position
      match ← peek with
      | none | some (.plain '|') | some (.plain ')') => return (ofItems items, scope)
      | some (.escape c) =>
          let _ ← nextToken
          let item ← readEscape scope c
          readItems fuel scope first (item :: items)
      | some (.plain c) =>
          let _ ← nextToken
          if scope.verbose && isLayout c then readItems fuel scope first items
          else if scope.verbose && c == '#' then
            skipLine ((← get).rest.length + 1)
            readItems fuel scope first items
          else if c == '[' then
            let set ← readSet scope
            readItems fuel scope first (⟨set, .plain⟩ :: items)
          else if c == '?' || c == '*' || c == '+' || c == '\x7b' then
            match ← readRepetition c with
            | none => readItems fuel scope first (.code scope c.toNat :: items)
            | some bounds =>
                let items ← repeatLatest bounds announced items
                readItems fuel scope first items
          else if c == '(' then
            match ← readGroupHead scope announced with
            | .comment => readItems fuel scope first items
            | .item item => readItems fuel scope first (item :: items)
            | .flags on =>
                if !first || !items.isEmpty then refuse .lateGlobalFlags announced
                else
                  modify fun progress => { progress with flags := progress.flags ++ on }
                  readItems fuel (scope.withFlags on []) first items
            | head =>
                let item ← readGroup fuel scope announced head
                readItems fuel scope first (item.toList ++ items)
          else readItems fuel scope first (simpleItem scope c :: items)

def readGroup : Nat → Scope → Nat → GroupHead → Reader (Option Item)
  | 0, _, _, _ => return none
  | fuel + 1, scope, opened, head => do
      match head with
      | .capturing name =>
          let number ← openGroup name
          let body ← readAlternatives fuel scope false []
          expectClose opened
          closeGroup number body
          return some ⟨.group number body, .plain⟩
      | .plain => closeItem opened id (← readAlternatives fuel scope false [])
      | .scoped on off =>
          closeItem opened id (← readAlternatives fuel (scope.withFlags on off) false [])
      | .atomic => closeItem opened .atomic (← readAlternatives fuel scope false [])
      | .ahead present =>
          closeItem opened (.ahead present) (← readAlternatives fuel scope false [])
      | .behind present =>
          let outer := (← get).lookBehindFrom
          modify fun progress =>
            { progress with lookBehindFrom := outer.getD progress.groups.length }
          let body ← readAlternatives fuel scope false []
          modify fun progress => { progress with lookBehindFrom := outer }
          let width := (← get).measure body
          closeItem opened (.behind present width.least) body
      | .condition number =>
          let (yes, _) ← readItems fuel scope false []
          let no ← if ← accept '|' then
              let (no, _) ← readItems fuel scope false []
              if (← peek) == some (.plain '|') then refuseBack .tooManyBranches 0 else pure no
            else pure nothing
          closeItem opened (.ifGroup number yes) no
      | .comment | .item _ | .flags _ => return none

def readAlternatives : Nat → Scope → Bool → List Pattern → Reader Pattern
  | 0, _, _, finished => return any finished.reverse
  | fuel + 1, scope, whole, finished => do
      let (items, scope) ← readItems fuel scope (whole && finished.isEmpty) []
      if ← accept '|' then readAlternatives fuel scope whole (items :: finished)
      else return any (items :: finished).reverse

end

def hiddenFault? (template : Bool) (groups : Nat → Width) : Pattern → Option PatternFault
  | nothing | one _ | landmark _ | reference .. => none
  | seq first second | either first second | ifGroup _ first second =>
      (hiddenFault? template groups first).or (hiddenFault? template groups second)
  | repeated body _ _ greed =>
      if template then some (.repetitionInTemplate greed) else hiddenFault? template groups body
  | behind _ _ body =>
      let width := body.width groups
      if width.least > repetitionLimit then some .distantLookBehind
      else if width.least ≠ width.most then some .variableLookBehind
      else hiddenFault? template groups body
  | ahead _ body | group _ body | atomic body => hiddenFault? template groups body

def checkWhole (pattern : Pattern) : Reader Unit := do
  let progress ← get
  if progress.flags.contains .ascii && progress.flags.contains .unicode then
    throw ⟨.contradictoryFlags, none⟩
  if !progress.rest.isEmpty then refuseBack .unbalancedParenthesis 0
  match progress.conditions.find? fun condition => progress.groups.length < condition.1 with
  | some (number, place) => refuse (.invalidGroupReference number) place
  | none => pure ()
  let groups := fun number => (progress.widthOf number).getD .zero
  match hiddenFault? (progress.flags.contains .template) groups pattern with
  | some fault => throw ⟨fault, none⟩
  | none => pure ()

def readAll (source : Text) : Reader Pattern := do
  moveTo source
  let pattern ← readAlternatives (3 * source.length + 3) {} true []
  checkWhole pattern
  return pattern

def parse (source : Text) : Except PatternError SourcePattern :=
  match (readAll source).run { length := source.length, rest := source } with
  | .ok (pattern, _) => .ok ⟨source, pattern⟩
  | .error refusal => .error ⟨refusal.fault, refusal.position, source⟩

end Pattern

end HardcodedText
