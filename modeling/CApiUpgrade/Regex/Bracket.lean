import CApiUpgrade.Regex.Escape

/-!
# Reading regular expressions: classes

A class between brackets lists characters, ranges and sets of characters.  Classes may stand in
classes, and between two lists may stand `&&` (both), `--` (the first, not the second) or `~~` (one
of them only); these signs bind alike and from left to right.

Reading goes in two steps.  The first finds the closing bracket by counting brackets and replaces
the escapes.  The second gives the brackets, hyphens and signs their meaning and works out the set.

A hyphen at the start of a list stands for itself, and so does a closing bracket that is the first
character behind an opening one.
-/

namespace CApiUpgrade

open Text (RangeTable)

namespace Bracket

/-! ### Tokens -/

/-- A token of a class. -/
inductive Token where
  /-- A character that may have a meaning of its own. -/
  | plain (c : Char)
  /-- A character that stands for itself. -/
  | literal (c : Char)
  /-- A set of characters.  It cannot be an end of a range. -/
  | set (ranges : RangeTable)
  /-- A class inside of the class.  A hyphen behind it joins nothing. -/
  | nested (ranges : RangeTable)
  deriving DecidableEq

/-- The letters that stand for themselves behind a backslash. -/
def literalLetters : List Char := ['k', 'A', 'z', 'B', 'K', 'G']

/-- The tokens for an escape in a class, and the rest. -/
def escapeTokens (flags : RegexFlags) (cs : List Char) :
    Except RegexError (List Token × List Char) :=
  match cs with
  | 'b' :: rest => .ok ([.literal '\x08'], rest)
  | c :: rest =>
    if c ∈ literalLetters then .ok ([.literal c], rest)
    else do
      let (escape, rest) ← Escape.read flags cs
      let tokens : List Token := match escape with
        | .char c => [.literal c]
        | .category kind negated => [.set (if negated then kind.table.complement else kind.table)]
        | .table ranges => [.set ranges]
        -- Such an escape is a class of its own.
        | .hexDigit negated =>
          (if negated then "[^0-9A-Fa-f]" else "[0-9A-Fa-f]").toList.map .plain
      return (tokens, rest)
  | [] => .error .badEscape

/-- The sets of ASCII characters that have a name. -/
def asciiSets : List Text.NamedSet := [
  ⟨["alnum"], "30-39 41-5a 61-7a"⟩, ⟨["alpha"], "41-5a 61-7a"⟩, ⟨["ascii"], "0-7f"⟩,
  ⟨["blank"], "9 20"⟩, ⟨["cntrl"], "0-1f 7f"⟩, ⟨["digit"], "30-39"⟩, ⟨["graph"], "21-7e"⟩,
  ⟨["lower"], "61-7a"⟩, ⟨["print"], "20-7e"⟩, ⟨["punct"], "21-2f 3a-40 5b-60 7b-7e"⟩,
  ⟨["space"], "9-d 20"⟩, ⟨["upper"], "41-5a"⟩, ⟨["word"], "30-39 41-5a 5f 61-7a"⟩,
  ⟨["xdigit"], "30-39 41-46 61-66"⟩]

/-- The set with the name that stands between `[:` and `:]`, and the rest. -/
def asciiSet? (cs : List Char) : Option (RangeTable × List Char) := do
  let (negated, cs) := match cs with
    | '^' :: rest => (true, rest)
    | _ => (false, cs)
  let (name, rest) ← Escape.cutAt? [':'] cs
  match rest with
  | ']' :: rest =>
    let table ← Text.NamedSet.find? asciiSets (String.ofList name)
    return (if negated then table.complement else table, rest)
  | _ => none

/-- The tokens up to the bracket that closes the class, and the rest.  `depth` counts the brackets
that are open. -/
def tokens (flags : RegexFlags) : (fuel depth : Nat) → List Char →
    Except RegexError (List Token × List Char)
  | 0, _, _ | _, _, [] => .error .unclosedClass
  | fuel + 1, depth, '\\' :: cs => do
    let (here, rest) ← escapeTokens flags cs
    let (more, rest) ← tokens flags fuel depth rest
    return (here ++ more, rest)
  | fuel + 1, depth, ']' :: cs =>
    if depth ≤ 1 then .ok ([.plain ']'], cs)
    else do
      let (more, rest) ← tokens flags fuel (depth - 1) cs
      return (.plain ']' :: more, rest)
  | fuel + 1, depth, '[' :: ':' :: cs => do
    match asciiSet? cs with
    | some (ranges, rest) =>
      let (more, rest) ← tokens flags fuel depth rest
      return (.nested ranges :: more, rest)
    | none =>
      let (more, rest) ← tokens flags fuel (depth + 1) (':' :: cs)
      return (.plain '[' :: more, rest)
  | fuel + 1, depth, c :: cs => do
    let (more, rest) ← tokens flags fuel (if c == '[' then depth + 1 else depth) cs
    return (.plain c :: more, rest)

/-- The tokens of a class behind its opening bracket, and the rest.  A closing bracket that comes
first closes nothing. -/
def allTokens (flags : RegexFlags) (cs : List Char) :
    Except RegexError (List Token × List Char) := do
  let opening := match cs with
    | '^' :: ']' :: _ => 2
    | '^' :: _ | ']' :: _ => 1
    | _ => 0
  let (more, rest) ← tokens flags (cs.length + 1) 1 (cs.drop opening)
  return ((cs.take opening).map .plain ++ more, rest)

/-! ### Sets -/

/-- A sign between two lists. -/
inductive Operation where
  /-- The characters of both lists. -/
  | both
  /-- The characters of the first list that are not in the second. -/
  | without
  /-- The characters of one of the lists. -/
  | oneOnly
  deriving DecidableEq

/-- Joins the sets on both sides of a sign. -/
def Operation.apply : Operation → RangeTable → RangeTable → RangeTable
  | both => RangeTable.inter
  | without => RangeTable.diff
  | oneOnly => RangeTable.symmDiff

/-- How much of a list has been read. -/
inductive Stage where
  /-- Nothing, right behind the bracket. -/
  | opened
  /-- Nothing but the sign that turns the class around. -/
  | negated
  /-- Nothing but hyphens. -/
  | hyphens
  /-- Some of its items. -/
  | items
  deriving DecidableEq

/-- A class that is still open. -/
structure Frame where
  /-- How much of the list has been read. -/
  stage : Stage := .opened
  /-- Whether the class is turned around. -/
  isNegated : Bool := false
  /-- The set in front of the list, and the sign between them. -/
  before : Option (RangeTable × Operation) := none
  /-- The sets of the list, the latest first. -/
  listed : List RangeTable := []

namespace Frame

/-- Adds a set to the list. -/
def add (f : Frame) (ranges : RangeTable) : Frame :=
  { f with stage := .items, listed := ranges :: f.listed }

/-- What has been read.  Case is left out of account on both sides of a sign. -/
def value (f : Frame) (anyCase : Bool) : RangeTable :=
  let fold (t : RangeTable) : RangeTable := if anyCase then t.anyCase else t
  let listed := RangeTable.unions f.listed
  match f.before with
  | some (before, operation) => operation.apply (fold before) (fold listed)
  | none => listed

/-- Takes a sign between two lists into account. -/
def operate (f : Frame) (anyCase : Bool) (operation : Operation) : Frame :=
  { f with stage := .items, before := some (f.value anyCase, operation), listed := [] }

/-- The set of a complete class. -/
def close (f : Frame) (anyCase : Bool) : RangeTable :=
  let set := if anyCase then (f.value true).anyCase else f.value false
  if f.isNegated then set.complement else set

end Frame

/-- The character of a token, as an end of a range. -/
def Token.char? : Token → Option Char
  | .plain c | .literal c => some c
  | .set _ | .nested _ => none

/-- The set that a token stands for. -/
def Token.table : Token → RangeTable
  | .plain c | .literal c => #[(c.toNat, c.toNat)]
  | .set ranges | .nested ranges => ranges

/-- The sign that two characters make. -/
def operation? : Token → List Token → Option Operation
  | .plain '&', .plain '&' :: _ => some .both
  | .plain '-', .plain '-' :: _ => some .without
  | .plain '~', .plain '~' :: _ => some .oneOnly
  | _, _ => none

/-- The characters that a token stands for, or a range if a hyphen and another end follow, and the
number of tokens used up behind the first. -/
def item (t : Token) (rest : List Token) : Except RegexError (RangeTable × Nat) :=
  match t, rest with
  -- A hyphen in front of a bracket or of another hyphen joins nothing.
  | _, .plain '-' :: .plain ']' :: _ | _, .plain '-' :: .plain '-' :: _ => .ok (t.table, 0)
  | .nested ranges, _ => .ok (ranges, 0)
  | _, .plain '-' :: u :: _ =>
    match t.char?, u.char? with
    | some lo, some hi => if lo ≤ hi then .ok (#[(lo.toNat, hi.toNat)], 2) else .error .badRange
    | _, _ => .error .badRange
  | _, _ => .ok (t.table, 0)

/-- The set of a class, given the frames of the classes that are open and the number of tokens that
are used up already. -/
def evaluate (anyCase : Bool) :
    List Token → (used : Nat) → Frame → List Frame → Except RegexError RangeTable
  | [], _, _, _ => .error .unclosedClass
  | _ :: rest, used + 1, f, outer => evaluate anyCase rest used f outer
  | t :: rest, 0, f, outer =>
    if t == .plain '^' && f.stage == .opened then
      evaluate anyCase rest 0 { f with stage := .negated, isNegated := true } outer
    else if t == .plain '-' && f.stage != .items then
      evaluate anyCase rest 0 { f.add t.table with stage := .hyphens } outer
    else if t == .plain ']' && (f.stage == .opened || f.stage == .negated) then
      evaluate anyCase rest 0 (f.add t.table) outer
    else if t == .plain ']' then
      match outer with
      | [] => if rest.isEmpty then .ok (f.close anyCase) else .error .unclosedClass
      | g :: outer => evaluate anyCase rest 0 (g.add (f.close anyCase)) outer
    else if t == .plain '[' then evaluate anyCase rest 0 {} (f :: outer)
    else
      match operation? t rest with
      | some operation => evaluate anyCase rest 1 (f.operate anyCase operation) outer
      | none =>
        match item t rest with
        | .ok (ranges, used) => evaluate anyCase rest used (f.add ranges) outer
        | .error e => .error e

/-- The set of a class behind its opening bracket, and the rest. -/
def read (flags : RegexFlags) (cs : List Char) : Except RegexError (RangeTable × List Char) := do
  let (tokens, rest) ← allTokens flags cs
  return (← evaluate flags.ignoreCase tokens 0 {} [], rest)

end Bracket

end CApiUpgrade
