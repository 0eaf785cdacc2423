import CApiUpgrade.Toml.Text

/-!
# Numbers, dates and times in configuration files

An integer is decimal, with an optional sign and without leading zeros, or it is hexadecimal,
octal or binary behind `0x`, `0o` or `0b`; it has to fit into 64 bits with a sign.  A float has a
fraction, an exponent or both.  A single underscore may stand between two digits.  Dates and times
are checked: months have their days, and a minute may have a leap second.

Each function here reads from the start of the given characters and returns the rest.  None of
them looks at what follows.
-/

namespace CApiUpgrade.Toml

open CApiUpgrade.Text (hexValue? isAsciiDigit valueOf)

/-! ### Digits -/

/-- Digits with single underscores between them, of which the first is known to be there.  Returns
the digits without the underscores. -/
def moreDigits (isDigit : Char → Bool) : List Char → Option (List Char × List Char)
  | '_' :: c :: rest =>
    if isDigit c then (moreDigits isDigit rest).map fun (ds, rest) => (c :: ds, rest) else none
  | c :: rest =>
    if isDigit c then (moreDigits isDigit rest).map fun (ds, rest) => (c :: ds, rest)
    else if c == '_' then none
    else some ([], c :: rest)
  | [] => some ([], [])

/-- One or more digits with single underscores between them. -/
def digits? (isDigit : Char → Bool) : List Char → Option (List Char × List Char)
  | c :: rest =>
    if isDigit c then (moreDigits isDigit rest).map fun (ds, rest) => (c :: ds, rest) else none
  | [] => none

/-- The digits of a decimal integer: a zero, or digits that start with another one. -/
def naturalDigits? : List Char → Option (List Char × List Char)
  | '0' :: rest => some (['0'], rest)
  | cs => digits? isAsciiDigit cs

/-- A sign, if there is one: whether it is a minus. -/
def sign : List Char → Bool × List Char
  | '+' :: rest => (false, rest)
  | '-' :: rest => (true, rest)
  | cs => (false, cs)

/-! ### Integers -/

/-- Whether an integer fits into 64 bits with a sign. -/
def fits (n : Int) : Bool := -9223372036854775808 ≤ n && n ≤ 9223372036854775807

/-- An integer in a base of up to sixteen, behind the mark of the base. -/
def integerInBase? (base : Nat) (cs : List Char) : Option (Int × List Char) := do
  let isDigit (c : Char) := (hexValue? c).any (· < base)
  let (ds, rest) ← digits? isDigit cs
  let n := ds.foldl (fun n c => base * n + (hexValue? c).getD 0) 0
  if fits n then some (n, rest) else none

/-- An integer. -/
def integer? : List Char → Option (Int × List Char)
  | '0' :: 'x' :: rest => integerInBase? 16 rest
  | '0' :: 'o' :: rest => integerInBase? 8 rest
  | '0' :: 'b' :: rest => integerInBase? 2 rest
  | cs => do
    let (negative, cs) := sign cs
    let (ds, rest) ← naturalDigits? cs
    let n : Int := if negative then -(valueOf ds : Int) else valueOf ds
    if fits n then some (n, rest) else none

/-! ### Floats -/

/-- The least number that is rounded to infinity: half a unit above the greatest number of 53
binary digits whose exponent is in range. -/
def floatBound : Nat := Nat.pow 2 1024 - Nat.pow 2 970

/-- Whether `mantissa * 10 ^ exponent` is rounded to infinity.  Its order of magnitude settles
this, unless it is near the bound. -/
def isInfinite (mantissa : Nat) (exponent : Int) : Bool :=
  let magnitude : Int := (Nat.toDigits 10 mantissa).length + exponent
  if mantissa = 0 ∨ magnitude < 308 then false
  else if 310 < magnitude then true
  else floatBound * Nat.pow 10 (-exponent).toNat ≤ mantissa * Nat.pow 10 exponent.toNat

/-- The fraction of a float, with its point: its digits. -/
def fraction? : List Char → Option (List Char × List Char)
  | '.' :: rest => digits? isAsciiDigit rest
  | _ => none

/-- The exponent of a float, with its mark. -/
def exponent? : List Char → Option (Int × List Char)
  | c :: rest => do
    if c == 'e' || c == 'E' then
      let (negative, rest) := sign rest
      let (ds, rest) ← digits? isAsciiDigit rest
      return (if negative then -(valueOf ds : Int) else valueOf ds, rest)
    else none
  | [] => none

/-- The rest behind an infinity or no number. -/
def specialFloat? : List Char → Option (List Char)
  | 'i' :: 'n' :: 'f' :: rest => some rest
  | 'n' :: 'a' :: 'n' :: rest => some rest
  | _ => none

/-- The rest behind a float.  A positive one that is rounded to infinity is refused; a negative one
is not. -/
def float? (cs : List Char) : Option (List Char) :=
  let (negative, unsigned) := sign cs
  match naturalDigits? unsigned with
  | none => specialFloat? unsigned
  | some (whole, rest) => do
    let (frac, rest) ← match rest with
      | '.' :: _ => fraction? rest
      | _ => some ([], rest)
    let (exponent, after) ← match rest with
      | 'e' :: _ | 'E' :: _ => exponent? rest
      | _ => if frac.isEmpty then none else some (0, rest)
    if !negative && isInfinite (valueOf (whole ++ frac)) (exponent - frac.length) then none
    else some after

/-! ### Dates and times -/

/-- A number of exactly `count` digits, from `least` to `greatest`. -/
def fixed? (count least greatest : Nat) (cs : List Char) : Option (Nat × List Char) :=
  let ds := cs.take count
  let n := valueOf ds
  if ds.length = count ∧ ds.all isAsciiDigit ∧ least ≤ n ∧ n ≤ greatest then
    some (n, cs.drop count)
  else none

/-- The rest behind a character. -/
def skip? (c : Char) : List Char → Option (List Char)
  | d :: rest => if d == c then some rest else none
  | [] => none

/-- The number of days of a month. -/
def daysOfMonth (year month : Nat) : Nat :=
  if month = 2 then
    if year % 4 = 0 ∧ (year % 100 ≠ 0 ∨ year % 400 = 0) then 29 else 28
  else if month = 4 ∨ month = 6 ∨ month = 9 ∨ month = 11 then 30
  else 31

/-- The rest behind a date. -/
def date? (cs : List Char) : Option (List Char) := do
  let (year, cs) ← fixed? 4 0 9999 cs
  let (month, cs) ← fixed? 2 1 12 (← skip? '-' cs)
  let (_, cs) ← fixed? 2 1 (daysOfMonth year month) (← skip? '-' cs)
  return cs

/-- The rest behind a time of day. -/
def time? (cs : List Char) : Option (List Char) := do
  let (_, cs) ← fixed? 2 0 23 cs
  let (_, cs) ← fixed? 2 0 59 (← skip? ':' cs)
  let (_, cs) ← fixed? 2 0 60 (← skip? ':' cs)
  match cs with
  | '.' :: c :: rest => return if isAsciiDigit c then rest.dropWhile isAsciiDigit else cs
  | _ => return cs

/-- The rest behind the offset of a time, if there is one. -/
def offset? : List Char → Option (List Char)
  | c :: rest =>
    if c == 'Z' || c == 'z' then some rest
    else if c == '+' || c == '-' then do
      let (_, rest) ← fixed? 2 0 23 rest
      let (_, rest) ← fixed? 2 0 59 (← skip? ':' rest)
      return rest
    else some (c :: rest)
  | [] => some []

/-- The rest behind a date, a time or both. -/
def moment? (cs : List Char) : Option (List Char) :=
  match date? cs with
  | none => time? cs
  | some rest =>
    match rest with
    | c :: more =>
      if c == 'T' || c == 't' || c == ' ' then
        match time? more with
        | some rest => offset? rest
        | none => some rest
      else some rest
    | [] => some []

end CApiUpgrade.Toml
