import CApiUpgrade.Regex.Basic

/-!
# Matching by backtracking

`Regex.run` tries to match an expression at a position and then to reach a goal from where the
match ends.  The ways to match are tried in a fixed order (first alternative first, more
repetitions before fewer where a repetition is greedy), and a way is given up only when the goal
cannot be reached through it.  The first way through is the match.

**The budget.**  Every return to an alternative that was left open counts as one step back.
With a limit, a run that would take more steps back than the limit allows ends as `exhausted`.
The limit has no other influence: it never decides which way is taken.  How many alternatives may be
open at once is not limited.

**Repetitions.**  A repetition without an upper bound ends with a round that uses up no character,
so the number of rounds is at most one more than the length of the text.  That length is handed
down as `bound`.
-/

namespace CApiUpgrade

/-- How a run ends. -/
inductive Verdict where
  /-- The goal was reached at `stop`, after `spent` steps back. -/
  | found (stop : Cursor) (captures : Captures) (spent : Nat)
  /-- Every way was tried, after `spent` steps back. -/
  | failed (spent : Nat)
  /-- The limit does not allow the next step back. -/
  | exhausted

/-- What is left to do from a position, given the captures and the number of steps back so far. -/
abbrev Goal := Cursor → Captures → Nat → Verdict

/-- What a run is given besides the text. -/
structure Terms where
  /-- The limit on the steps back, if there is one. -/
  limit : Option Nat
  /-- The length of the text, or more. -/
  bound : Nat
  /-- The last position that counts as one where the search has started, if any does. -/
  origin : Option Nat

/-- The name under which captures keep where the whole match starts, if an expression says so. -/
def wholeMatch : String := "0"

namespace Verdict

/-- If the run failed, takes a step back and goes on with `other`. -/
def orElse (limit : Option Nat) (v : Verdict) (other : Nat → Verdict) : Verdict :=
  match v with
  | failed spent =>
    match limit with
    | none => other (spent + 1)
    | some most => if spent < most then other (spent + 1) else exhausted
  | v => v

@[simp]
theorem orElse_found (limit : Option Nat) (stop : Cursor) (caps : Captures) (spent : Nat)
    (other : Nat → Verdict) : (found stop caps spent).orElse limit other = found stop caps spent :=
  rfl

@[simp]
theorem orElse_exhausted (limit : Option Nat) (other : Nat → Verdict) :
    exhausted.orElse limit other = exhausted := rfl

/-- Without a limit, a step back can always be taken. -/
@[simp]
theorem orElse_failed_none (spent : Nat) (other : Nat → Verdict) :
    (failed spent).orElse none other = other (spent + 1) := rfl

/-- Turns success and failure around.  What denies something holds after a step back, like a second
alternative. -/
def deny (limit : Option Nat) (v : Verdict) (goal : Nat → Verdict) : Verdict :=
  match v with
  | found _ _ spent => failed spent
  | v => v.orElse limit goal

end Verdict

namespace Goal

/-- Reached at once. -/
def here : Goal := .found

/-- One character that satisfies `p`, then the goal. -/
def step (p : Char → Bool) (goal : Goal) : Goal := fun cur caps spent =>
  match cur.next? with
  | some (c, cur) => if p c then goal cur caps spent else .failed spent
  | none => .failed spent

/-- The goal, but only from positions and captures that satisfy `p`. -/
def provided (p : Cursor → Captures → Bool) (goal : Goal) : Goal := fun cur caps spent =>
  if p cur caps then goal cur caps spent else .failed spent

/-- Exactly `n` rounds of `body`, then the goal. -/
def exactly (body : Goal → Goal) (goal : Goal) : (n : Nat) → Goal
  | 0 => goal
  | n + 1 => fun cur caps spent => body (exactly body goal n) cur caps spent

/-- Up to `n` rounds of `body`, then the goal.  With `moving` set, a round that uses up no character
is the last one. -/
def rounds (limit : Option Nat) (body : Goal → Goal) (greedy moving : Bool) (goal : Goal) :
    (n : Nat) → Goal
  | 0 => goal
  | n + 1 => fun cur caps spent =>
    let another : Goal :=
      body fun cur' caps spent =>
        -- A round that stays where it is could be repeated without end.
        if moving && cur'.offset == cur.offset then goal cur' caps spent
        else rounds limit body greedy moving goal n cur' caps spent
    if greedy then (another cur caps spent).orElse limit (goal cur caps)
    else (goal cur caps spent).orElse limit (another cur caps)

end Goal

namespace Regex

/-- Matches the expression, then tries to reach the goal from where the match ends. -/
def run (terms : Terms) : Regex → Goal → Goal
  | empty, goal => goal
  | char c, goal => goal.step (· == c)
  | oneOf cls, goal => goal.step cls.contains
  | category kind negated, goal => goal.step fun c => kind.contains c != negated
  | any newline, goal => goal.step fun c => newline || c != '\n'
  | anchor a, goal => goal.provided fun cur _ => a.holds cur
  | cat a b, goal => run terms a (run terms b goal)
  | alt a b, goal => fun cur caps spent =>
    (run terms a goal cur caps spent).orElse terms.limit (run terms b goal cur caps)
  | group name body, goal => fun start caps spent =>
    run terms body (fun stop caps spent => goal stop ((name, ⟨start, stop⟩) :: caps) spent)
      start caps spent
  | repeated body least most greedy, goal =>
    let more := match most with
      | some most =>
        Goal.rounds terms.limit (run terms body) greedy false goal (most - least)
      | none => Goal.rounds terms.limit (run terms body) greedy true goal (terms.bound + 1)
    Goal.exactly (run terms body) more least
  | look direction negated body, goal => fun cur caps spent =>
    let start := match direction with
      | .ahead => some cur
      | .behind width => cur.back? width
    let attempt (goal : Goal) : Verdict := match start with
      | some start => run terms body goal start caps spent
      | none => .failed spent
    -- The goal starts from `cur`: what an assertion has seen is not used up.
    if negated then (attempt Goal.here).deny terms.limit (goal cur caps)
    else attempt fun _ caps spent => goal cur caps spent
  | atomic body, goal => fun cur caps spent =>
    match run terms body Goal.here cur caps spent with
    -- The other ways to match the body are given up here.
    | .found cur caps spent => goal cur caps spent
    | verdict => verdict
  | backReference name anyCase, goal => fun cur caps spent =>
    let place := (caps.lookup name).bind fun span =>
      if anyCase then cur.skipAnyCase? span.text else cur.skip? span.text
    match place with
    | some cur => goal cur caps spent
    | none => .failed spent
  | isSet name, goal => goal.provided fun _ caps => (caps.lookup name).isSome
  | conditional condition yes no, goal => fun cur caps spent =>
    match run terms condition Goal.here cur caps spent with
    | .found cur caps spent => run terms yes goal cur caps spent
    | verdict => verdict.orElse terms.limit (run terms no goal cur caps)
  | keepOut, goal => fun cur caps spent => goal cur ((wholeMatch, ⟨cur, cur⟩) :: caps) spent
  | resume, goal => goal.provided fun cur _ => terms.origin.any (cur.offset ≤ ·)
  | linear _ machine, goal => fun cur caps spent =>
    match machine.matchAt? terms.bound cur with
    | some (stop, found) => goal stop (machine.update found caps) spent
    | none => .failed spent
  | lookBack negated _ back forth, goal => fun cur caps spent =>
    match back.startBefore? terms.bound cur with
    | some start =>
      let found := forth.capturesUpTo terms.bound start cur
      if negated then .failed spent else goal cur (forth.update found caps) spent
    | none =>
      if negated then (Verdict.failed spent).orElse terms.limit (goal cur caps)
      else .failed spent

end Regex

end CApiUpgrade
