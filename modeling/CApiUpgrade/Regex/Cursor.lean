import CApiUpgrade.Text.CaseFold

/-!
# Positions in a text

A `Cursor` is a position between two characters of a text.  It holds the text on both sides, so
that a matcher can look either way, and the number of characters on its left, so that two
positions of one text can be compared at once.  That the number agrees with the text is part of
the type.  A `Span` is the text between two positions.
-/

namespace CApiUpgrade

/-- A position between two characters of a text. -/
structure Cursor where
  /-- The characters on the left, the nearest first. -/
  before : List Char
  /-- The characters on the right, the nearest first. -/
  after : List Char
  /-- The number of characters on the left. -/
  offset : Nat
  /-- The number on record is the number of characters on the left. -/
  offset_eq : offset = before.length

namespace Cursor

/-- The start of a text. -/
def ofText (text : List Char) : Cursor := ⟨[], text, 0, rfl⟩

/-- The whole text around the position. -/
def text (c : Cursor) : List Char := c.before.reverse ++ c.after

/-- The character on the right, and the position behind it. -/
def next? (c : Cursor) : Option (Char × Cursor) :=
  match c.after with
  | [] => none
  | x :: rest => some (x, ⟨x :: c.before, rest, c.offset + 1, by simp [c.offset_eq]⟩)

/-- The character on the left, and the position in front of it. -/
def previous? (c : Cursor) : Option (Char × Cursor) :=
  match h : c.before with
  | [] => none
  | x :: rest => some (x, ⟨rest, x :: c.after, c.offset - 1, by simp [c.offset_eq, h]⟩)

/-- The position `n` characters to the left. -/
def back? (c : Cursor) : Nat → Option Cursor
  | 0 => some c
  | n + 1 => c.previous? >>= (·.2.back? n)

/-- The position behind the given characters, if they stand on the right. -/
def skip? (c : Cursor) : List Char → Option Cursor
  | [] => some c
  | x :: rest =>
    match c.next? with
    | some (y, d) => if x == y then d.skip? rest else none
    | none => none

/-- The position behind characters that differ from the given ones at most in case and take as many
bytes, if such characters stand on the right. -/
def skipAnyCase? (c : Cursor) (text : List Char) : Option Cursor :=
  let found := c.after.take text.length
  if found.length == text.length && (found.zip text).all (fun (x, y) => Text.isAlike x y) &&
      bytes found == bytes text then
    c.skip? found
  else none
where
  /-- The length of a text in bytes. -/
  bytes (text : List Char) : Nat := text.foldl (fun n c => n + c.utf8Size) 0

/-- The characters from the position `c` up to a later position `d` of the same text. -/
def upTo (c d : Cursor) : List Char := c.after.take (d.offset - c.offset)

/-! ### Moving keeps the text -/

@[simp]
theorem text_ofText (text : List Char) : (ofText text).text = text := rfl

theorem text_of_next? {c d : Cursor} {x : Char} (h : c.next? = some (x, d)) :
    d.text = c.text := by
  unfold next? at h
  split at h
  · simp at h
  · rename_i y rest heq
    simp only [Option.some.injEq, Prod.mk.injEq] at h
    obtain ⟨rfl, rfl⟩ := h
    simp [text, heq]

/-- Two positions with the same text on either side are the same position. -/
@[ext]
theorem ext {c d : Cursor} (hb : c.before = d.before) (ha : c.after = d.after) : c = d := by
  obtain ⟨cb, ca, co, hc⟩ := c
  obtain ⟨db, da, o, hd⟩ := d
  simp only at hb ha
  subst hb ha hc hd
  rfl

end Cursor

/-! ### Spans -/

/-- What a group matched: the text between two positions. -/
structure Span where
  /-- Where the match of the group starts. -/
  start : Cursor
  /-- Where it ends. -/
  stop : Cursor

/-- The characters of a span. -/
def Span.text (s : Span) : List Char := s.start.upTo s.stop

/-- What the groups have matched so far, the latest first. -/
abbrev Captures := List (String × Span)

end CApiUpgrade
