import HardcodedText.Pattern.Basic

/-!
Finding patterns in texts. Matching goes on from a place to the places where a pattern can end, in
the order of preference, and gives each of them to a continuation until that succeeds. A round of a
repetition that consumes nothing is the last one, so that two rounds more than the text has
characters are fuel enough for every repetition.
-/

namespace HardcodedText

structure Capture where
  number : Nat
  source : Text
  length : Nat
  deriving DecidableEq, Repr

/-- A place in a text: its offset, the text before it in reverse, the text from it on, and what the
groups have kept on the way to it, the latest first. -/
structure Place where
  offset : Nat
  before : Text
  rest : Text
  captures : List Capture
  deriving DecidableEq, Repr

namespace Place

def step? (accepts : Char → Bool) (place : Place) : Option Place :=
  match place.rest with
  | [] => none
  | c :: rest =>
      if accepts c then
        some { place with offset := place.offset + 1, before := c :: place.before, rest := rest }
      else none

def back? (width : Nat) (place : Place) : Option Place :=
  if width ≤ place.offset then
    some { place with
      offset := place.offset - width
      before := place.before.drop width
      rest := (place.before.take width).reverse ++ place.rest }
  else none

def capture (number : Nat) (first place : Place) : Place :=
  { place with
    captures := ⟨number, first.rest, place.offset - first.offset⟩ :: place.captures }

def captured? (number : Nat) (place : Place) : Option Text :=
  (place.captures.find? (·.number == number)).map fun kept => kept.source.take kept.length

def skip? (form : Char → Char) (place : Place) : Text → Option Place
  | [] => some place
  | c :: later => do skip? form (← place.step? fun next => form next == form c) later

/-- The places reached by up to `room` accepted characters, the farthest first, before the given
ones. The rest of the place is given apart. -/
def reach (accepts : Char → Bool) (room : Option Nat) (place : Place) (nearer : List Place) :
    Text → List Place
  | [] => place :: nearer
  | c :: rest =>
      if room == some 0 || !accepts c then place :: nearer
      else
        let next :=
          { place with offset := place.offset + 1, before := c :: place.before, rest := rest }
        reach accepts (room.map (· - 1)) next (place :: nearer) rest

end Place

/-- Whether a place is as asked. In the empty text there is no word edge and no absence of one. -/
def Landmark.holds (place : Place) : Landmark → Bool
  | textStart => place.before.isEmpty
  | textEnd => place.rest.isEmpty
  | lastLineEnd => place.rest.isEmpty || place.rest == ['\n']
  | lineStart => place.before.head?.all (· == '\n')
  | lineEnd => place.rest.head?.all (· == '\n')
  | wordEdge present reach =>
      !(place.before.isEmpty && place.rest.isEmpty) &&
        (place.before.head?.any reach.isWordChar != place.rest.head?.any reach.isWordChar) ==
          present

/-- Goes on from a place to the end of the whole match, if there is one. -/
abbrev Continuation := Place → Option Place

/-- Tries the places where a pattern can end in order, until the continuation succeeds. -/
abbrev Matcher := Continuation → Continuation

namespace Matcher

def times (body : Matcher) : Nat → Continuation → Place → Option Place
  | 0, goOn, place => goOn place
  | count + 1, goOn, place => body (times body count goOn) place

/-- Matches up to `room` times, more rounds first. `last` is the offset at which the previous round
began: a round that ends there consumed nothing and is the last one. -/
def greedy (body : Matcher) : Nat → Option Nat → Option Nat → Continuation → Place → Option Place
  | 0, _, _, goOn, place => goOn place
  | fuel + 1, room, last, goOn, place =>
      if room == some 0 || last == some place.offset then goOn place
      else
        match body (greedy body fuel (room.map (· - 1)) (some place.offset) goOn) place with
        | some found => some found
        | none => goOn place

def lazy (body : Matcher) : Nat → Option Nat → Option Nat → Continuation → Place → Option Place
  | 0, _, _, goOn, place => goOn place
  | fuel + 1, room, last, goOn, place =>
      match goOn place with
      | some found => some found
      | none =>
          if room == some 0 || last == some place.offset then none
          else body (lazy body fuel (room.map (· - 1)) (some place.offset) goOn) place

def exhaust (body : Matcher) : Nat → Option Nat → Option Nat → Place → Place
  | 0, _, _, place => place
  | fuel + 1, room, last, place =>
      if room == some 0 || last == some place.offset then place
      else
        match body some place with
        | some next => exhaust body fuel (room.map (· - 1)) (some place.offset) next
        | none => place

def exhaustTimes (body : Matcher) : Nat → Place → Option Place
  | 0, place => some place
  | count + 1, place => (body some place).bind (exhaustTimes body count)

def repeated (fuel : Nat) (body : Matcher) (least : Nat) (most : Option Nat) (greed : Greed) :
    Matcher :=
  fun goOn place =>
    let room := most.map (· - least)
    match greed with
    | .greedy => times body least (greedy body fuel room none goOn) place
    | .lazy => times body least (lazy body fuel room none goOn) place
    | .possessive =>
        (exhaustTimes body least place).bind fun next => goOn (exhaust body fuel room none next)

def repeatedOne (allowed : CharClass) (least : Nat) (most : Option Nat) : Matcher :=
  fun goOn place =>
    let body : Matcher := fun goOn place => (place.step? allowed.accepts).bind goOn
    times body least (fun next =>
      (next.reach allowed.accepts (most.map (· - least)) [] next.rest).findSome? goOn) place

end Matcher

namespace Pattern

/-- The meaning of a pattern. The fuel bounds the rounds of each repetition. -/
def run (fuel : Nat) : Pattern → Continuation → Place → Option Place
  | nothing, goOn, place => goOn place
  | one allowed, goOn, place => (place.step? allowed.accepts).bind goOn
  | landmark mark, goOn, place => if mark.holds place then goOn place else none
  | seq first second, goOn, place => run fuel first (run fuel second goOn) place
  | either left right, goOn, place =>
      match run fuel left goOn place with
      | some found => some found
      | none => run fuel right goOn place
  | repeated (one allowed) least most .greedy, goOn, place =>
      Matcher.repeatedOne allowed least most goOn place
  | repeated body least most greed, goOn, place =>
      Matcher.repeated fuel (run fuel body) least most greed goOn place
  | ahead true body, goOn, place =>
      (run fuel body some place).bind fun found => goOn { place with captures := found.captures }
  | ahead false body, goOn, place =>
      if (run fuel body some place).isSome then none else goOn place
  | behind true width body, goOn, place =>
      ((place.back? width).bind (run fuel body some)).bind fun found =>
        goOn { place with captures := found.captures }
  | behind false width body, goOn, place =>
      if ((place.back? width).bind (run fuel body some)).isSome then none else goOn place
  | group number body, goOn, place =>
      run fuel body (fun next => goOn (place.capture number next)) place
  | reference number reach folded, goOn, place =>
      ((place.captured? number).bind (place.skip? (foldedForm reach folded))).bind goOn
  | ifGroup number yes no, goOn, place =>
      if (place.captured? number).isSome then run fuel yes goOn place else run fuel no goOn place
  | atomic body, goOn, place => (run fuel body some place).bind goOn

def foundFrom (pattern : Pattern) (fuel offset : Nat) (before : Text) : Text → Bool
  | [] => (pattern.run fuel some ⟨offset, before, [], []⟩).isSome
  | c :: rest =>
      (pattern.run fuel some ⟨offset, before, c :: rest, []⟩).isSome ||
        foundFrom pattern fuel (offset + 1) (c :: before) rest

def foundIn (pattern : Pattern) (text : Text) : Bool :=
  pattern.foundFrom (text.length + 2) 0 [] text

def matchesFront (pattern : Pattern) (text : Text) : Bool :=
  (pattern.run (text.length + 2) some ⟨0, [], text, []⟩).isSome

end Pattern

end HardcodedText
