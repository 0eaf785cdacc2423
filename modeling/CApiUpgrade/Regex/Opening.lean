import CApiUpgrade.Regex.Flags

/-!
# Reading regular expressions: openings of groups

What stands behind an opening parenthesis decides what becomes of the group: it may capture, assert
something, change the flags or ask a condition.
-/

namespace CApiUpgrade

/-- How an expression refers to a group. -/
inductive GroupReference where
  /-- By number. -/
  | number (n : Nat)
  /-- By name, or by a number in the place of a name. -/
  | named (name : String)
  /-- By distance: back from here, or ahead. -/
  | relative (ahead : Bool) (distance : Nat)
  deriving DecidableEq, Repr

/-- A reference that ends at `stop`, and the rest behind it. -/
def GroupReference.read? (stop : Char) (cs : List Char) : Option (GroupReference × List Char) :=
  let distance (ahead : Bool) (cs : List Char) : Option (GroupReference × List Char) := do
    let (n, rest) ← Text.leadingNumber? cs
    match rest with
    | c :: rest => if c == stop then some (.relative ahead n, rest) else none
    | [] => none
  match cs with
  | '-' :: rest => distance false rest
  | '+' :: rest => distance true rest
  | _ => (nameUpTo? stop cs).map fun (name, rest) => (.named name, rest)

/-- How a group opens. -/
inductive Opening where
  /-- Captures, under the next number and perhaps under a name. -/
  | capture (name : Option String)
  /-- Is matched in one way only. -/
  | atomic
  /-- Asserts something about the neighbourhood. -/
  | look (behind negated : Bool)
  /-- Groups, with the given flags inside. -/
  | flagged (flags : RegexFlags)
  /-- Is no group: changes the flags. -/
  | flags (flags : RegexFlags)
  /-- Is no group: refers to one. -/
  | reference (group : GroupReference)
  /-- Decides between two branches by whether a group has matched. -/
  | branches (group : GroupReference)
  /-- Decides between two branches by whether an expression matches. -/
  | condition

namespace Opening

/-- A change of flags, as behind `(?`: the opening that it is, and the rest.  `count` is the number
of characters that have been read. -/
def readFlags (flags : RegexFlags) (on : Bool) : (fuel count : Nat) → List Char →
    Except RegexError (Opening × List Char)
  | 0, _, _ => .error .unclosedGroup
  | fuel + 1, count, cs => do
    let rest ← flags.skip cs
    let count := count + (cs.length - rest.length)
    -- A lone minus sign changes nothing.
    let idle := !on && count == 1
    match rest with
    | [] => .error .unclosedGroup
    | ':' :: rest => if idle then .error .unknownGroupKind else return (.flagged flags, rest)
    | ')' :: rest =>
      if idle || count == 0 then .error .unknownGroupKind else return (.flags flags, rest)
    | '-' :: rest =>
      if on then readFlags flags false fuel (count + 1) rest else .error .unknownGroupKind
    | c :: rest =>
      match flags.set? c on with
      | some flags => readFlags flags on fuel (count + 1) rest
      | none => .error .unknownGroupKind

/-- The opening of a group that captures under a name, which ends at `stop`. -/
def named (stop : Char) (cs : List Char) : Except RegexError (Opening × List Char) :=
  match nameUpTo? stop cs with
  | some (name, rest) => .ok (.capture (some name), rest)
  | none => .error .unknownGroupKind

/-- What stands in the parentheses of a condition. -/
def readCondition (cs : List Char) : Except RegexError (Opening × List Char) :=
  let group (found : Option (GroupReference × List Char)) :
      Except RegexError (Opening × List Char) :=
    match found with
    | some (group, ')' :: rest) => .ok (.branches group, rest)
    | _ => .error .unknownGroupKind
  match cs with
  | '<' :: rest => group (GroupReference.read? '>' rest)
  | '\'' :: rest => group (GroupReference.read? '\'' rest)
  | _ => match Text.leadingNumber? cs with
    | some (n, rest) => group (some (.number n, rest))
    | none => .ok (.condition, cs)

/-- What stands behind an opening parenthesis and the spacing behind it. -/
def read (flags : RegexFlags) (cs : List Char) : Except RegexError (Opening × List Char) :=
  match cs with
  | '?' :: '=' :: rest => .ok (.look false false, rest)
  | '?' :: '!' :: rest => .ok (.look false true, rest)
  | '?' :: '<' :: '=' :: rest => .ok (.look true false, rest)
  | '?' :: '<' :: '!' :: rest => .ok (.look true true, rest)
  | '?' :: '<' :: rest | '?' :: 'P' :: '<' :: rest => named '>' rest
  | '?' :: '\'' :: rest => named '\'' rest
  | '?' :: 'P' :: '=' :: rest =>
    match nameUpTo? ')' rest with
    | some (name, rest) => .ok (.reference (.named name), rest)
    | none => .error .unknownGroupKind
  | '?' :: '>' :: rest => .ok (.atomic, rest)
  | '?' :: '(' :: rest => readCondition rest
  | '?' :: rest => readFlags flags true (rest.length + 1) 0 rest
  | _ => .ok (.capture none, cs)

end Opening

end CApiUpgrade
