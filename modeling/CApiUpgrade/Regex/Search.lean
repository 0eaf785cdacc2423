import CApiUpgrade.Regex.Matcher

/-!
# Searching a text

`Regex.find` looks for the first match at or behind a position, `Regex.findAll` for all matches
of a text, from left to right and without overlap.  The budget is granted anew for each search:
it pays for the steps back of one match and for the positions given up in front of it.
-/

namespace CApiUpgrade

/-- Why a search gave no answer. -/
inductive SearchError where
  /-- The search took more steps back than its budget allows. -/
  | budgetExhausted
  deriving DecidableEq, Repr

/-- A match of an expression. -/
structure Hit where
  /-- Where the match starts. -/
  start : Cursor
  /-- Where it ends. -/
  stop : Cursor
  /-- What the groups matched, the latest first. -/
  captures : Captures

namespace Hit

/-- A match that was tried from `cur` on.  It starts there unless the expression says otherwise. -/
def ofRun (cur stop : Cursor) (captures : Captures) : Hit :=
  ⟨((captures.lookup wholeMatch).map Span.start).getD cur, stop, captures⟩

/-- Whether the match used up no character. -/
def isEmpty (h : Hit) : Bool := h.start.offset == h.stop.offset

/-- The characters of the match. -/
def text (h : Hit) : List Char := h.start.upTo h.stop

/-- What a group matched, if it took part. -/
def group? (h : Hit) (name : String) : Option (List Char) :=
  (h.captures.lookup name).map Span.text

end Hit

namespace Regex

/-- Tries the positions from `cur` on, one after another.  Giving up a position is a step back. -/
def findFrom (limit : Option Nat) (attempt : Goal) :
    (fuel : Nat) → Cursor → Nat → Except SearchError (Option Hit)
  | 0, _, _ => .ok none
  | fuel + 1, cur, spent =>
    match attempt cur [] spent with
    | .found stop captures _ => .ok (some (.ofRun cur stop captures))
    | .exhausted => .error .budgetExhausted
    | .failed spent =>
      -- The next position is the alternative that was left open here.
      if limit.any (· ≤ spent) then .error .budgetExhausted
      else
        match cur.next? with
        | some (_, cur) => findFrom limit attempt fuel cur (spent + 1)
        | none => .ok none

/-- The first match at or behind `cur`, in a text of at most `bound` characters.  With `resuming`
set, `cur` counts as a position where the search has started. -/
def find (r : Regex) (limit : Option Nat) (bound : Nat) (resuming : Bool) (cur : Cursor) :
    Except SearchError (Option Hit) :=
  let terms : Terms := ⟨limit, bound, if resuming then some cur.offset else none⟩
  findFrom limit (r.run terms Goal.here) (bound + 1) cur 0

/-- The matches from `cur` on.  A match that is empty and stands where the match before it ended,
at `last`, is passed over.  The search is told whether it goes on where the last one ended. -/
def findAllFrom (find : (resuming : Bool) → Cursor → Except SearchError (Option Hit)) :
    (fuel : Nat) → (resuming : Bool) → Cursor → (last : Option Nat) →
      Except SearchError (List Hit)
  | 0, _, _, _ => .ok []
  | fuel + 1, resuming, cur, last => do
    match ← find resuming cur with
    | none => return []
    | some hit =>
      let stop := some hit.stop.offset
      if hit.isEmpty then
        -- The search goes on one character further, or it would find the same match again.
        let rest ← match hit.stop.next? with
          | some (_, cur) => findAllFrom find fuel false cur stop
          | none => pure []
        return if last == stop then rest else hit :: rest
      else
        return hit :: (← findAllFrom find fuel true hit.stop stop)

/-- All matches in a text, from left to right and without overlap.  With `skipping` set, a search
may resume also one character behind an empty match. -/
def findAll (r : Regex) (limit : Option Nat) (skipping : Bool) (text : List Char) :
    Except SearchError (List Hit) :=
  let bound := text.length
  findAllFrom (fun resuming => r.find limit bound (resuming || skipping)) (bound + 2) true
    (Cursor.ofText text) none

end Regex

end CApiUpgrade
