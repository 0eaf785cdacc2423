import CApiUpgrade.Diff.Script

/-!
# Tidying up an edit script

An insertion between kept runs can often be moved: if the kept lines above it end like the
inserted ones, it may as well stand higher.  `compact` moves each deletion and then each insertion
as far up as it goes and back down as far as it goes, and merges it with others of its kind that
it runs into on the way.

A deletion passes insertions but no kept lines, since no line of the new list belongs to it.
-/

namespace CApiUpgrade.Diff

/-- An edit script with one edit in focus. -/
structure Focus where
  /-- The edits above, the nearest first. -/
  above : List Edit
  /-- The edit in focus. -/
  this : Edit
  /-- The edits below, the nearest first. -/
  below : List Edit

namespace Focus

/-- The number of lines and edits in a part of a script, which bounds how often an edit can move
in it. -/
def weight (edits : List Edit) : Nat :=
  edits.foldl (fun n e => n + e.length + 1) 1

/-- Puts kept lines in front of the edits below. -/
def keepBelow (f : Focus) (above : Edit) (n : Nat) : List Edit :=
  match f.below with
  | e :: rest =>
    if e.kind = .keep then (e.up n).grow n :: rest
    else ⟨.keep, above.oldEnd - n, f.this.newEnd - n, n⟩ :: f.below
  | [] => [⟨.keep, above.oldEnd - n, f.this.newEnd - n, n⟩]

/-- Puts kept lines behind the edits above. -/
def keepAbove (f : Focus) (below : Edit) (n : Nat) : List Edit :=
  match f.above with
  | e :: rest =>
    if e.kind = .keep then e.grow n :: rest
    else ⟨.keep, below.oldStart, f.this.newStart, n⟩ :: f.above
  | [] => [⟨.keep, below.oldStart, f.this.newStart, n⟩]

/-- Moves the edit in focus up as far as it goes. -/
def rise (old new : Array Line) : (fuel : Nat) → Focus → Focus
  | 0, f => f
  | fuel + 1, f =>
    match f.above with
    | [] => f
    | prev :: rest =>
      if prev.kind = .keep then
        -- As many kept lines as read like the lines of the edit change places with it.
        let n := commonEnd old new prev.oldStart prev.oldEnd f.this.newStart f.this.newEnd
        if n > 0 then
          let prev' := prev.shrink n
          rise old new fuel
            { above := if prev'.length = 0 then rest else prev' :: rest
              this := f.this.up n
              below := f.keepBelow prev n }
        else if prev.length = 0 then rise old new fuel { f with above := rest }
        else f
      else if prev.kind = f.this.kind then
        -- The two are one edit.
        rise old new fuel { f with above := rest, this := prev.grow f.this.length }
      else
        -- Deletions and insertions pass each other.
        rise old new fuel { f with above := rest, below := prev :: f.below }

/-- Moves the edit in focus down as far as it goes. -/
def sink (old new : Array Line) : (fuel : Nat) → Focus → Focus
  | 0, f => f
  | fuel + 1, f =>
    match f.below with
    | [] => f
    | next :: rest =>
      if next.kind = .keep then
        -- The same downwards.
        let n := commonStart old new next.oldStart next.oldEnd f.this.newStart f.this.newEnd
        if n > 0 then
          let next' := (next.down n).shrink n
          sink old new fuel
            { above := f.keepAbove next n
              this := f.this.down n
              below := if next'.length = 0 then rest else next' :: rest }
        else if next.length = 0 then sink old new fuel { f with below := rest }
        else f
      else if next.kind = f.this.kind then
        sink old new fuel { f with this := f.this.grow next.length, below := rest }
      else
        sink old new fuel { f with above := next :: f.above, below := rest }

/-- Moves the edit in focus up and then down. -/
def settle (old new : Array Line) (f : Focus) : Focus :=
  let f := rise old new (weight f.above) f
  sink old new (weight f.below) f

end Focus

/-- Settles the edits of a kind from the given place on. -/
def settleAll (old new : Array Line) (kind : EditKind) :
    (fuel : Nat) → (above below : List Edit) → List Edit
  | 0, above, below => above.reverse ++ below
  | _, above, [] => above.reverse
  | fuel + 1, above, e :: below =>
    if e.kind = kind then
      let f := Focus.settle old new ⟨above, e, below⟩
      settleAll old new kind fuel (f.this :: f.above) f.below
    else settleAll old new kind fuel (e :: above) below

/-- Moves and merges the deletions, then the insertions of a script. -/
def compact (old new : Array Line) (edits : List Edit) : List Edit :=
  let fuel (edits : List Edit) := 2 * Focus.weight edits
  let edits := settleAll old new .delete (fuel edits) [] edits
  -- The deletions have been merged, so that the insertions meet fewer edits.
  settleAll old new .insert (fuel edits) [] edits

end CApiUpgrade.Diff
