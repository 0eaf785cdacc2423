/-!
# Edits

An *edit script* turns one list of lines into another.  It is a list of edits, each of which keeps,
deletes or inserts a run of lines; every edit records where its run stands in both lists.  `Edit`
is the form in which a script is found and tidied up.  `Block` is the form in which it is shown:
the deletions and insertions between two kept runs are one block.
-/

namespace CApiUpgrade.Diff

/-- A line of a text, with its end. -/
abbrev Line := List Char

/-- What an edit does with its lines. -/
inductive EditKind where
  /-- The lines stand in both lists. -/
  | keep
  /-- The lines stand in the old list only. -/
  | delete
  /-- The lines stand in the new list only. -/
  | insert
  deriving DecidableEq, Repr

/-- An edit of a run of lines. -/
structure Edit where
  /-- What is done with the lines. -/
  kind : EditKind
  /-- Where the run starts in the old list. -/
  oldStart : Nat
  /-- Where the run starts in the new list. -/
  newStart : Nat
  /-- The number of lines. -/
  length : Nat
  deriving DecidableEq, Repr

namespace Edit

/-- Where the run ends in the old list. -/
def oldEnd (e : Edit) : Nat := if e.kind = .insert then e.oldStart else e.oldStart + e.length

/-- Where the run ends in the new list. -/
def newEnd (e : Edit) : Nat := if e.kind = .delete then e.newStart else e.newStart + e.length

/-- Moves the run up. -/
def up (e : Edit) (n : Nat) : Edit :=
  { e with oldStart := e.oldStart - n, newStart := e.newStart - n }

/-- Moves the run down. -/
def down (e : Edit) (n : Nat) : Edit :=
  { e with oldStart := e.oldStart + n, newStart := e.newStart + n }

/-- Adds lines at the end of the run. -/
def grow (e : Edit) (n : Nat) : Edit := { e with length := e.length + n }

/-- Takes lines off the end of the run. -/
def shrink (e : Edit) (n : Nat) : Edit := { e with length := e.length - n }

end Edit

/-! ### Blocks -/

/-- A run of kept lines, or all deletions and insertions between two such runs. -/
structure Block where
  /-- Whether the lines are kept. -/
  kept : Bool
  /-- Where the block starts in the old list. -/
  oldStart : Nat
  /-- The number of its lines in the old list. -/
  oldLength : Nat
  /-- Where the block starts in the new list. -/
  newStart : Nat
  /-- The number of its lines in the new list. -/
  newLength : Nat
  deriving DecidableEq, Repr

namespace Block

/-- Where the block ends in the old list. -/
def oldEnd (b : Block) : Nat := b.oldStart + b.oldLength

/-- Where the block ends in the new list. -/
def newEnd (b : Block) : Nat := b.newStart + b.newLength

/-- A block of one edit. -/
def ofEdit (e : Edit) : Block where
  kept := e.kind = .keep
  oldStart := e.oldStart
  oldLength := if e.kind = .insert then 0 else e.length
  newStart := e.newStart
  newLength := if e.kind = .delete then 0 else e.length

/-- Puts an edit into a block that it follows.  The first deletion fixes where the block starts in
the old list and the first insertion where it starts in the new one. -/
def add (b : Block) (e : Edit) : Block :=
  match e.kind with
  | .keep => { b with oldLength := b.oldLength + e.length, newLength := b.newLength + e.length }
  | .delete =>
    { b with
      oldStart := if b.oldLength = 0 then e.oldStart else b.oldStart
      oldLength := b.oldLength + e.length }
  | .insert =>
    { b with
      newStart := if b.newLength = 0 then e.newStart else b.newStart
      newLength := b.newLength + e.length }

/-- The blocks of an edit script. -/
def ofEdits : List Edit → List Block
  | [] => []
  | e :: rest => go (ofEdit e) rest
where
  /-- The blocks of the rest of a script, behind the edits of the block `b`. -/
  go (b : Block) : List Edit → List Block
    | [] => [b]
    | e :: rest =>
      if b.kept == decide (e.kind = .keep) then go (b.add e) rest else b :: go (ofEdit e) rest

end Block

end CApiUpgrade.Diff
