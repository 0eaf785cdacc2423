import CApiUpgrade.Regex.Anchor
import CApiUpgrade.Regex.Class
import Std.Data.HashSet

/-!
# Automata

An automaton matches an expression by following all ways at once, as *threads* in order of
preference, one character at a time.  The number of steps that it takes grows with the length of
the text, whatever the expression: an instruction that two threads reach at the same position is
followed only for the preferred one.

The preferred thread that reaches the end of the code decides.  This is the way that a search by
trial would find first, except for a repetition of something empty: a thread that comes back to
an instruction without having read a character ends there.

An automaton can read a text in either direction.
-/

namespace CApiUpgrade

/-- One instruction of an automaton.  Unless it says otherwise, the next one follows it. -/
inductive Instruction where
  /-- Reads one character of a class. -/
  | read (cls : CharClass)
  /-- Goes on only where the condition holds. -/
  | require (a : Anchor)
  /-- Goes on at two places, of which the first is preferred. -/
  | fork (first second : Nat)
  /-- Goes on at another place. -/
  | goto (target : Nat)
  /-- A group starts here. -/
  | openGroup
  /-- The group that was opened last ends here. -/
  | closeGroup (name : String)
  /-- The match ends here.  What follows has to match, but is not part of it. -/
  | endMatch
  /-- Everything has matched. -/
  | accept
  deriving DecidableEq, Repr

/-- The code of an automaton, and the groups that it knows. -/
structure Automaton where
  /-- The instructions, of which the first is followed first. -/
  code : Array Instruction
  /-- The groups that a match may set. -/
  groups : List String
  deriving DecidableEq, Repr

namespace Automaton

/-- One of the ways that are followed at the same time. -/
structure Thread where
  /-- The instruction that is next. -/
  place : Nat := 0
  /-- Where the open groups started, the innermost first. -/
  opened : List Cursor := []
  /-- What the groups have matched, the latest first. -/
  captures : Captures := []
  /-- Where the match ends, if that is known already. -/
  stop : Option Cursor := none

/-- The threads at a position. -/
structure Frontier where
  /-- The threads that wait for a character or have arrived, the preferred ones last. -/
  threads : List Thread := []
  /-- The instructions that were reached. -/
  seen : Std.HashSet Nat := {}

namespace Frontier

/-- Follows a thread up to the instructions that read a character or accept.  No instruction is
followed twice, so the number of instructions bounds the depth. -/
def follow (code : Array Instruction) (cur : Cursor) : (fuel : Nat) → Thread → Frontier → Frontier
  | 0, _, f => f
  | fuel + 1, t, f =>
    if f.seen.contains t.place then f
    else
      let f := { f with seen := f.seen.insert t.place }
      let next := { t with place := t.place + 1 }
      match code[t.place]? with
      | none => f
      | some (.read _) | some .accept => { f with threads := t :: f.threads }
      | some (.require a) => if a.holds cur then follow code cur fuel next f else f
      | some (.fork first second) =>
        follow code cur fuel { t with place := second }
          (follow code cur fuel { t with place := first } f)
      | some (.goto target) => follow code cur fuel { t with place := target } f
      | some .openGroup => follow code cur fuel { next with opened := cur :: t.opened } f
      | some (.closeGroup name) =>
        match t.opened with
        | [] => f
        | start :: opened =>
          let captures := (name, ⟨start, cur⟩) :: t.captures
          follow code cur fuel { next with opened, captures } f
      | some .endMatch => follow code cur fuel { next with stop := some cur } f

/-- Adds what becomes of a thread when the character `c` is read and `cur` is reached. -/
def read (code : Array Instruction) (c : Char) (cur : Cursor) (f : Frontier) (t : Thread) :
    Frontier :=
  match code[t.place]? with
  | some (.read cls) =>
    if cls.contains c then follow code cur (code.size + 1) { t with place := t.place + 1 } f else f
  | _ => f

end Frontier

/-- Whether a thread has arrived. -/
def isDone (m : Automaton) (t : Thread) : Bool := m.code[t.place]? == some .accept

/-- Reads on with the given threads, the preferred ones first, while there are any.  A thread that
has arrived is better than the best one so far, and ends those behind it. -/
def readOn (m : Automaton) (move : Cursor → Option (Char × Cursor)) :
    (fuel : Nat) → Cursor → List Thread → (best : Option (Cursor × Captures)) →
      Option (Cursor × Captures)
  | 0, _, _, best => best
  | fuel + 1, cur, threads, best =>
    let waiting := threads.takeWhile (!m.isDone ·)
    let best := match threads.drop waiting.length with
      | t :: _ => some (t.stop.getD cur, t.captures)
      | [] => best
    if waiting.isEmpty then best
    else match move cur with
      | none => best
      | some (c, cur) =>
        let f : Frontier := waiting.foldl (Frontier.read m.code c cur) {}
        m.readOn move fuel cur f.threads.reverse best

/-- The match that starts at a position of a text of at most `bound` characters, when the text is
read by the given moves: where it ends, and what the groups matched. -/
def matchBy? (m : Automaton) (move : Cursor → Option (Char × Cursor)) (bound : Nat)
    (cur : Cursor) : Option (Cursor × Captures) :=
  let f : Frontier := Frontier.follow m.code cur (m.code.size + 1) {} {}
  m.readOn move (bound + 1) cur f.threads.reverse none

/-- The match that starts at a position. -/
def matchAt? (m : Automaton) (bound : Nat) (cur : Cursor) : Option (Cursor × Captures) :=
  m.matchBy? Cursor.next? bound cur

/-- What the groups of a match match that starts at `cur` and does not go beyond `stop`. -/
def capturesUpTo (m : Automaton) (bound : Nat) (cur stop : Cursor) : Captures :=
  let move (c : Cursor) := if c.offset < stop.offset then c.next? else none
  ((m.matchBy? move bound cur).map Prod.snd).getD []

/-- Where a match starts that ends at a position, if the automaton reads from right to left. -/
def startBefore? (m : Automaton) (bound : Nat) (cur : Cursor) : Option Cursor :=
  (m.matchBy? Cursor.previous? bound cur).map Prod.fst

/-- The captures after a match: what the automaton's groups matched before is forgotten. -/
def update (m : Automaton) (found before : Captures) : Captures :=
  found ++ before.filter fun (name, _) => !m.groups.contains name

end Automaton

end CApiUpgrade
