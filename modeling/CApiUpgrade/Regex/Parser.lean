import CApiUpgrade.Regex.Bracket
import CApiUpgrade.Regex.Opening
import CApiUpgrade.Regex.Plan

/-!
# Reading regular expressions

A written expression is read once from left to right, with a stack of the groups that are open.

Groups are numbered by their opening parentheses from one, and the number is the name under which
the expression knows a group; `GroupTable` keeps the names that the text gives to groups.  Two
groups may have the same name, which then stands for the later one.  Numbers and names are not
mixed: where a group has a name, back references do not go by number.

A change of flags holds up to the end of the innermost group that may change flags, and beyond the
end of all others.

A brace that opens no well-formed bounds, or follows nothing that they could belong to, stands for
itself.
-/

namespace CApiUpgrade

/-- The groups of an expression, as a template may refer to them. -/
structure GroupTable where
  /-- The groups, by number from one on. -/
  keys : List String
  /-- The groups by name.  The first entry for a name counts. -/
  names : List (String × String)
  deriving DecidableEq

/-- The groups of an expression that knows them by their names. -/
def GroupTable.of (r : Regex) : GroupTable := ⟨r.groups, r.groups.map fun name => (name, name)⟩

namespace RegexParser

/-! ### Groups that are open -/

/-- What becomes of a group once it is complete. -/
inductive GroupKind where
  /-- Groups, and nothing else.  The flags around it are kept. -/
  | plain (outer : RegexFlags)
  /-- Captures. -/
  | capture (key : String)
  /-- Is matched in one way only. -/
  | atomic
  /-- Asserts something about the neighbourhood. -/
  | look (behind negated : Bool)
  /-- Is a condition, in front of its branches. -/
  | condition
  /-- Holds the branches behind a condition. -/
  | branches (condition : Regex)

/-- A group that is still open, or the whole expression. -/
structure Frame where
  /-- What becomes of the group. -/
  kind : GroupKind
  /-- The alternatives that are complete, the latest first. -/
  choices : List Regex := []
  /-- The parts of the alternative that is being read, the latest first. -/
  parts : List Regex := []

namespace Frame

/-- The alternatives of a complete group. -/
def alternatives (f : Frame) : List Regex := (.seq f.parts.reverse :: f.choices).reverse

/-- What a complete group holds. -/
def body (f : Frame) : Regex :=
  match f.alternatives with
  | [r] => r.opened
  | alternatives => .choice alternatives

end Frame

/-- Whether a repetition may follow. -/
inductive Before where
  /-- Nothing stands in front that a repetition could belong to. -/
  | nothing
  /-- Something stands in front that cannot be repeated. -/
  | fixed
  /-- Something stands in front that can be repeated. -/
  | item
  deriving DecidableEq

/-- How far the reading has come. -/
structure State where
  /-- The innermost open group. -/
  top : Frame
  /-- The groups around it, the innermost first. -/
  rest : List Frame := []
  /-- The flags in force. -/
  flags : RegexFlags := {}
  /-- The number of groups opened so far. -/
  groupCount : Nat := 0
  /-- The names of groups, the latest first. -/
  names : List (String × String) := []
  /-- The greatest number of a group that is referred to. -/
  highest : Nat := 0
  /-- Whether a back reference goes by number. -/
  numbered : Bool := false
  /-- Whether a repetition may follow. -/
  before : Before := .nothing

namespace State

/-- Whether the group with the given number is open. -/
def isOpen (s : State) (n : Nat) : Bool :=
  (s.top :: s.rest).any fun f => match f.kind with
    | .capture key => key == toString n
    | _ => false

/-- Whether an expression can be repeated: it must not be empty and no assertion about the
neighbourhood. -/
def isRepeatable : Regex → Bool
  | .empty | .look _ _ _ => false
  | _ => true

/-- Adds a part to the alternative that is being read. -/
def push (s : State) (r : Regex) : State :=
  { s with
    top := { s.top with parts := r :: s.top.parts }
    before := if isRepeatable r then .item else .fixed }

/-- Adds a character that stands for itself, in any case if the flags say so. -/
def pushChar (s : State) (c : Char) : State :=
  match if s.flags.ignoreCase then Text.alikes c.toNat else [] with
  | [] => s.push (.char c)
  | others =>
    let table := Text.RangeTable.ofRanges ((c.toNat :: others).map fun n => (n, n))
    s.push (.oneOf (.ofTable table))

/-- Adds one character of a table. -/
def pushTable (s : State) (ranges : Text.RangeTable) : State := s.push (.oneOf (.ofTable ranges))

/-- Opens a group. -/
def openGroup (s : State) (kind : GroupKind) : State :=
  { s with top := { kind }, rest := s.top :: s.rest, before := .nothing }

/-! ### References -/

/-- The number of the group that is referred to. -/
def resolve (s : State) : GroupReference → Except RegexError Nat
  | .number n => .ok n
  | .named name =>
    match (s.names.lookup name).getD name |> Text.number? with
    | some n => .ok n
    | none => .error (.unknownGroup name)
  | .relative true distance => .ok (s.groupCount + distance)
  | .relative false distance =>
    if s.groupCount + 1 ≤ distance && distance != 0 then .error (.unknownGroup (toString distance))
    else .ok (if distance = 0 then s.groupCount else s.groupCount + 1 - distance)

/-- Takes note of a reference: there must be a group with its number in the end. -/
def refer (s : State) (group : GroupReference) : Except RegexError (Nat × State) := do
  let n ← s.resolve group
  if n = 0 then .error (.unknownGroup "0")
  let numbered := match group with
    | .number _ => true
    | _ => s.numbered
  return (n, { s with highest := max s.highest n, numbered })

/-- Adds a back reference.  Inside of the group itself there is nothing to match once more: there it
only asks whether the group has matched before. -/
def pushReference (s : State) (group : GroupReference) : Except RegexError State := do
  let (n, s) ← s.refer group
  return s.push <|
    if s.isOpen n then .isSet (toString n) else .backReference (toString n) s.flags.ignoreCase

/-- The condition that a group has matched.  It holds inside of the group itself. -/
def condition (s : State) (n : Nat) : Regex :=
  if s.isOpen n then .empty else .isSet (toString n)

/-! ### Ends of groups -/

/-- The innermost open group, once it is complete.  Alternatives are not asked whether they mix
numbers and names. -/
def complete (s : State) : Except RegexError Frame :=
  if s.numbered && !s.names.isEmpty && s.top.choices.isEmpty then .error .numberBesideNames
  else .ok s.top

/-- A condition with its branches: the first alternative, and the others. -/
def branch (condition : Regex) (f : Frame) : Except RegexError Regex :=
  match f.alternatives with
  | [_] =>
    match f.parts, condition with
    | [], .isSet _ | [], .empty => .ok condition
    | [], _ => .error .idleCondition
    | _, _ => .ok (decide condition f.body .empty)
  | yes :: no => .ok (decide condition yes (.choice no))
  | [] => .error .idleCondition
where
  /-- Without anything in its branches, a condition has to hold. -/
  decide (condition yes no : Regex) : Regex :=
    if yes == .empty && no == .empty then condition else .conditional condition yes.opened no.opened

/-- Closes the innermost open group. -/
def close (s : State) : Except RegexError State :=
  match s.rest with
  | [] => .error .unopenedGroup
  | frame :: rest => do
    let f ← s.complete
    let outer : State := { s with top := frame, rest }
    match f.kind with
    | .plain flags =>
      let s : State := { outer with flags }
      return match f.body with
        | .cat a b => s.push (.enclosed (.cat a b))
        | .alt a b => s.push (.enclosed (.alt a b))
        | r => s.push r
    | .capture key => return outer.push (.group key f.body)
    | .atomic => return outer.push (.atomic f.body)
    | .look false negated => return outer.push (.look .ahead negated f.body)
    | .look true negated => return outer.push (.look (.behind f.body.minWidth) negated f.body)
    | .condition =>
      let condition := match f.body with
        | .backReference name _ => .isSet name
        | r => r
      return outer.openGroup (.branches condition)
    | .branches condition => return outer.push (← branch condition f)

/-- Ends an alternative. -/
def bar (s : State) : State :=
  { s with
    top := { s.top with choices := .seq s.top.parts.reverse :: s.top.choices, parts := [] }
    before := .nothing }

/-! ### Openings of groups -/

/-- The number of groups that cannot be open at the same time. -/
def depthLimit : Nat := 64

/-- Opens a group, or does what stands in parentheses without being one. -/
def takeOpening (s : State) : Opening → Except RegexError State
  | .capture name =>
    let n := s.groupCount + 1
    let names := match name with
      | some name => (name, toString n) :: s.names
      | none => s.names
    .ok ({ s with groupCount := n, names }.openGroup (.capture (toString n)))
  | .atomic => .ok (s.openGroup .atomic)
  | .look behind negated => .ok (s.openGroup (.look behind negated))
  | .flagged flags => .ok ({ s with flags }.openGroup (.plain s.flags))
  | .flags flags => .ok { s with flags, before := .fixed }
  | .reference group => s.pushReference group
  | .branches group => do
    let (n, s) ← s.refer group
    return s.openGroup (.branches (s.condition n))
  | .condition => .ok (s.openGroup .condition)

/-! ### Repetitions -/

/-- The number of values that a bound may have. -/
def boundLimit : Nat := 0x10000000000000000

/-- A bound, with spacing behind it, and the rest. -/
def bound? (flags : RegexFlags) (cs : List Char) : Option (Nat × List Char) := do
  let (n, rest) ← Text.leadingNumber? cs
  if boundLimit ≤ n then none else return (n, ← flags.skip? rest)

/-- The bounds behind an opening brace, and the rest behind the closing one. -/
def bounds? (flags : RegexFlags) (cs : List Char) : Option (Nat × Option Nat × List Char) := do
  let cs ← flags.skip? cs
  let (least, rest) ← match cs with
    | ',' :: _ => some (0, cs)
    | _ => bound? flags cs
  match rest with
  | '\x7d' :: rest => return (least, some least, rest)
  | ',' :: rest =>
    let rest ← flags.skip? rest
    let (most, rest) := match bound? flags rest with
      | some (most, rest) => (some most, rest)
      | none => (none, rest)
    match rest with
    | '\x7d' :: rest => return (least, most, rest)
    | _ => none
  | _ => none

/-- A sign that may stand at the start: whether it does, and the rest. -/
def sign (c : Char) : List Char → Bool × List Char
  | d :: rest => if d == c then (true, rest) else (false, d :: rest)
  | [] => (false, [])

/-- Repeats the last part.  A question mark behind the bounds makes the repetition lazy, and a plus
sign keeps the count that is tried first. -/
def repetition (s : State) (least : Nat) (most : Option Nat) (cs : List Char) :
    Except RegexError (State × List Char) := do
  match s.before, s.top.parts with
  | .item, r :: parts =>
    let (swapped, rest) := sign '?' (← s.flags.skip cs)
    let (isAtomic, rest) := sign '+' rest
    let r := Regex.repeated r.opened least most (swapped == s.flags.lazy)
    let r := if isAtomic then Regex.atomic r else r
    return ({ s with top := { s.top with parts := r :: parts }, before := .nothing }, rest)
  | _, _ => .error .nothingToRepeat

/-! ### Escapes -/

/-- What stands behind `\b`: an edge of a word, or, with a name between braces, one kind of edge. -/
def takeWordEdge (s : State) (cs : List Char) : Except RegexError (State × List Char) := do
  match ← s.flags.skip cs with
  | '\x7b' :: c :: rest =>
    if Text.isAsciiLetter c || c == '-' then
      match Escape.cutAt? ['\x7d'] (c :: rest) with
      | some (name, rest) =>
        let anchor ← match String.ofList name with
          | "start" => pure .wordStart
          | "end" => pure .wordEnd
          | "start-half" => pure .noWordBefore
          | "end-half" => pure .noWordAfter
          | _ => .error .badEscape
        return (s.push (.anchor anchor), rest)
      | none => .error .badEscape
    else return (s.push (.anchor .wordEdge), cs)
  | _ => return (s.push (.anchor .wordEdge), cs)

/-- The end of the text, with newlines in front of it left out of account. -/
def endOfContent : Regex := .look .ahead false (.many (.char '\n') ++ .anchor .textEnd)

/-- What stands behind a backslash outside of classes. -/
def takeEscape (s : State) (cs : List Char) : Except RegexError (State × List Char) :=
  let reference (found : Option (GroupReference × List Char)) :
      Except RegexError (State × List Char) :=
    match found with
    | some (group, rest) => do return (← s.pushReference group, rest)
    | none => .error .badEscape
  match cs with
  | 'A' :: rest => .ok (s.push (.anchor .textStart), rest)
  | 'z' :: rest => .ok (s.push (.anchor .textEnd), rest)
  | 'Z' :: rest => .ok (s.push endOfContent, rest)
  | 'b' :: rest => s.takeWordEdge rest
  | 'B' :: rest => match rest with
    | '\x7b' :: c :: _ =>
      if Text.isAsciiLetter c then .error .badEscape
      else .ok (s.push (.anchor .wordInside), rest)
    | _ => .ok (s.push (.anchor .wordInside), rest)
  | '<' :: rest => .ok (s.push (.anchor .wordStart), rest)
  | '>' :: rest => .ok (s.push (.anchor .wordEnd), rest)
  | 'K' :: rest => .ok (s.push .keepOut, rest)
  | 'G' :: rest => .ok (s.push .resume, rest)
  | 'O' :: rest => .ok (s.push (.any true), rest)
  | 'k' :: '<' :: rest => reference (GroupReference.read? '>' rest)
  | 'k' :: '\'' :: rest => reference (GroupReference.read? '\'' rest)
  | _ => match Text.leadingNumber? cs with
    | some (n, rest) => reference (some (.number n, rest))
    | none => do
      let (escape, rest) ← Escape.read s.flags cs
      return match escape with
        | .char c => (s.pushChar c, rest)
        | .category kind negated => (s.push (.category kind negated), rest)
        | .table ranges => (s.pushTable ranges, rest)
        | .hexDigit negated =>
          let digits : Text.RangeTable := #[(0x30, 0x39), (0x41, 0x46), (0x61, 0x66)]
          (s.pushTable (if negated then digits.complement else digits), rest)

/-! ### The whole -/

/-- Takes what starts with the character `c` into account. -/
def take (s : State) (c : Char) (cs : List Char) : Except RegexError (State × List Char) :=
  match c with
  | '|' => .ok (s.bar, cs)
  | ')' => do return (← s.close, cs)
  | '(' => do
    if depthLimit ≤ s.rest.length + 1 then .error .tooDeep
    let (opening, rest) ← Opening.read s.flags (← s.flags.skip cs)
    return (← s.takeOpening opening, rest)
  | '[' => do
    let (ranges, rest) ← Bracket.read s.flags cs
    return (s.pushTable ranges, rest)
  | '\\' => s.takeEscape cs
  | '.' => .ok (s.push (.any s.flags.dotAll), cs)
  | '^' => .ok (s.push (.anchor (if s.flags.lines then .lineStart else .textStart)), cs)
  | '$' => .ok (s.push (.anchor (if s.flags.lines then .lineEnd else .textEnd)), cs)
  | '*' => s.repetition 0 none cs
  | '+' => s.repetition 1 none cs
  | '?' => s.repetition 0 (some 1) cs
  | '\x7b' => match s.before, bounds? s.flags cs with
    | .nothing, _ | _, none => .ok (s.pushChar c, cs)
    | _, some (least, most, rest) => s.repetition least most rest
  | _ => .ok (s.pushChar c, cs)

/-- Reads a text of fewer than `fuel` characters to its end. -/
def readFrom : (fuel : Nat) → State → List Char → Except RegexError State
  | 0, s, _ => .ok s
  | fuel + 1, s, cs => do
    match ← s.flags.skip cs with
    | [] => return s
    | c :: rest =>
      let (s, rest) ← s.take c rest
      readFrom fuel s rest

/-- The expression that was read: every group has to be closed, and every number has to be that of a
group. -/
def finish (s : State) : Except RegexError Regex :=
  if !s.rest.isEmpty then .error .unclosedGroup
  else if s.groupCount < s.highest then .error (.unknownGroup (toString s.highest))
  else Frame.body <$> s.complete

/-- The groups that were read. -/
def groupTable (s : State) : GroupTable :=
  ⟨(List.range s.groupCount).map fun n => toString (n + 1), s.names⟩

end State

end RegexParser

/-- Reads a written expression: the expression, ready to run, and its groups. -/
def Regex.parse (source : String) : Except RegexError (Regex × GroupTable) := do
  let cs := source.toList
  let start : RegexParser.State := { top := { kind := .plain {} } }
  let state ← start.readFrom (cs.length + 1) cs
  return (← (← state.finish).prepared, state.groupTable)

end CApiUpgrade
