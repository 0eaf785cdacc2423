/-!
# Values of configuration files

A configuration file is a TOML document: a table of keys and values, in which a value may be a
table again.  A table remembers how it came about, because the format lets a table be extended
only in the way in which it was begun: by a header, by a dotted key, or not at all if it was
written in braces.
-/

namespace CApiUpgrade.Toml

/-- How a table came about. -/
inductive Origin where
  /-- By a header of its own, or as the document itself. -/
  | header
  /-- By the header of a table inside it. -/
  | inner
  /-- By a dotted key. -/
  | dotted
  /-- Written in braces. -/
  | braces
  deriving DecidableEq, Repr

/-- A value. -/
inductive Value where
  /-- A text. -/
  | text (content : List Char)
  /-- An integer. -/
  | integer (n : Int)
  /-- A number with a fraction or an exponent, an infinity, or no number; as it is written. -/
  | float (written : List Char)
  /-- A truth value. -/
  | boolean (b : Bool)
  /-- A date, a time or both, as it is written. -/
  | moment (written : List Char)
  /-- A list of values.  If its items are tables with headers of their own, `headed` is set and
  more of them may follow. -/
  | array (headed : Bool) (items : List Value)
  /-- A table. -/
  | table (origin : Origin) (fields : List (List Char × Value))

namespace Value

/-- The field of a key, in a table. -/
def get? (key : List Char) : Value → Option Value
  | table _ fields => fields.lookup key
  | _ => none

/-- Gives a key a value, in place of the one that it may have. -/
def put (fields : List (List Char × Value)) (key : List Char) (value : Value) :
    List (List Char × Value) :=
  match fields with
  | [] => [(key, value)]
  | (k, v) :: rest => if k == key then (key, value) :: rest else (k, v) :: put rest key value

/-- Changes the table that a path of keys leads to.  A table that is missing on the way is made
with the given origin.  Of a list of headed tables the last one is meant.  A dotted key does not
lead into a table that has a header of its own. -/
def within (made : Origin) (change : Value → Option Value) : List (List Char) → Value → Option Value
  | [], value => change value
  | key :: path, table origin fields => do
    let changed ← match (fields.lookup key).getD (table made []) with
      | table .braces _ => none
      | table .header inside =>
        if made = .dotted then none else within made change path (table .header inside)
      | table other inside => within made change path (table other inside)
      | array true items => do
        let last ← within made change path (← items.getLast?)
        some (array true (items.dropLast ++ [last]))
      | _ => none
    return table origin (put fields key changed)
  | _ :: _, _ => none

/-- Adds a field to a table that has none of that key.  A table begun by a dotted key takes fields
of dotted keys only, and no other table does. -/
def define (dotted : Bool) (key : List Char) (value : Value) : Value → Option Value
  | table origin fields =>
    if decide (origin = .dotted) != dotted || (fields.lookup key).isSome then none
    else some (table origin (fields ++ [(key, value)]))
  | _ => none

/-- Adds the field of a dotted key, all but the last of whose parts are `path`. -/
def defineAt (path : List (List Char)) (key : List Char) (value : Value) : Value → Option Value :=
  within .dotted (define (!path.isEmpty) key value) path

/-- Begins the table of a header, in the table above it. -/
def openTable (key : List Char) : Value → Option Value
  | table origin fields =>
    match fields.lookup key with
    | none => some (table origin (fields ++ [(key, table .header [])]))
    | some (table .inner inside) => some (table origin (put fields key (table .header inside)))
    | some _ => none
  | _ => none

/-- Begins one more table of a list of headed tables, in the table above the list. -/
def openItem (key : List Char) : Value → Option Value
  | table origin fields =>
    match (fields.lookup key).getD (array true []) with
    | array true items =>
      some (table origin (put fields key (array true (items ++ [table .header []]))))
    | _ => none
  | _ => none

end Value

end CApiUpgrade.Toml
