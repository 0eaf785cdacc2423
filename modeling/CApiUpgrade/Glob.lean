/-!
# Glob patterns

A glob pattern matches whole texts.  `?` stands for any one character, `*` for any text, slashes
and leading dots included, and a class in brackets for one of its characters; there are no
escapes.  `**` has to be a whole component of the pattern and stands for any number of whole
components.  Every other use of two or more stars, and a bracket that opens no class, make the
pattern invalid.
-/

namespace CApiUpgrade

/-- An item of a class in a glob pattern. -/
inductive GlobItem where
  /-- The character itself. -/
  | char (c : Char)
  /-- Every character from `lo` to `hi`, both included. -/
  | range (lo hi : Char)
  deriving DecidableEq, Repr

/-- Whether an item stands for a character. -/
def GlobItem.contains : GlobItem → Char → Bool
  | .char d, c => c == d
  | .range lo hi, c => lo ≤ c && c ≤ hi

/-- A token of a glob pattern. -/
inductive GlobToken where
  /-- The character itself. -/
  | char (c : Char)
  /-- Any one character. -/
  | anyChar
  /-- Any text. -/
  | anyText
  /-- Any number of whole components. -/
  | anyComponents
  /-- One character of the items, or one of all others. -/
  | oneOf (negated : Bool) (items : List GlobItem)
  deriving DecidableEq, Repr

/-- A glob pattern. -/
abbrev Glob := List GlobToken

namespace Glob

/-! ### Reading -/

/-- The items of a class, from what stands between its brackets. -/
def items : List Char → List GlobItem
  | lo :: '-' :: hi :: rest => .range lo hi :: items rest
  | c :: rest => .char c :: items rest
  | [] => []

/-- The class behind an opening bracket, and the rest.  It holds at least one character, so a
closing bracket right at its start stands for itself. -/
def charClass? (cs : List Char) : Option (GlobToken × List Char) :=
  let (negated, cs) := match cs with
    | '!' :: rest => (true, rest)
    | _ => (false, cs)
  match cs with
  | [] => none
  | first :: rest =>
    match rest.dropWhile (· != ']') with
    | [] => none
    | _ :: after => some (.oneOf negated (items (first :: rest.takeWhile (· != ']'))), after)

/-- The tokens of a pattern of fewer than `fuel` characters, or `none` if it is invalid.
`component` tells whether a component starts here. -/
def scan : (fuel : Nat) → (component : Bool) → List Char → Option Glob
  | 0, _, _ => none
  | _, _, [] => some []
  | fuel + 1, component, '*' :: '*' :: rest =>
    match component, rest with
    -- Two stars are a component of their own, or the pattern is invalid.
    | true, [] => some [.anyComponents]
    | true, '/' :: rest => (.anyComponents :: ·) <$> scan fuel true rest
    | _, _ => none
  | fuel + 1, _, '*' :: rest => (.anyText :: ·) <$> scan fuel false rest
  | fuel + 1, _, '?' :: rest => (.anyChar :: ·) <$> scan fuel false rest
  | fuel + 1, _, '[' :: rest => do
    let (token, rest) ← charClass? rest
    return token :: (← scan fuel false rest)
  | fuel + 1, _, c :: rest => (.char c :: ·) <$> scan fuel (c == '/') rest

/-- Reads a glob pattern, if it is valid. -/
def parse? (pattern : String) : Option Glob :=
  scan (pattern.toList.length + 1) true pattern.toList

/-! ### Matching -/

/-- Whether `p` holds of the text or of some end of it. -/
def anyEnd (p : List Char → Bool) : List Char → Bool
  | [] => p []
  | c :: rest => p (c :: rest) || anyEnd p rest

/-- Whether `p` holds of what is left after some whole components, or after all of the text.
`component` tells whether a component starts here. -/
def anyComponentEnd (p : List Char → Bool) : (component : Bool) → List Char → Bool
  | _, [] => p []
  | component, c :: rest =>
    (component && p (c :: rest)) || anyComponentEnd p (c == '/') rest

/-- Whether a pattern matches a whole text. -/
def accepts : Glob → List Char → Bool
  | [], cs => cs.isEmpty
  | .anyText :: rest, cs => anyEnd (accepts rest) cs
  | .anyComponents :: rest, cs => anyComponentEnd (accepts rest) true cs
  | .char c :: rest, d :: cs => c == d && accepts rest cs
  | .anyChar :: rest, _ :: cs => accepts rest cs
  | .oneOf negated items :: rest, d :: cs =>
    (items.any (·.contains d) != negated) && accepts rest cs
  | _ :: _, [] => false

end Glob

end CApiUpgrade
