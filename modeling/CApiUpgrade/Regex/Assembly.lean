import CApiUpgrade.Regex.Basic

/-!
# Expressions as automata

`Regex.automaton` assembles the code of an automaton that matches an expression, provided that the
expression is not charged: for assertions, back references and the like there are no instructions.

A repetition is laid out round by round.  If it has no upper bound, its last round is a loop.  A
round that may use up no character is closed by a fork at its end instead of one in front of it, so
that a thread may leave the loop behind an empty round.
-/

namespace CApiUpgrade.Regex

/-- The number of instructions for an expression. -/
def codeSize : Regex → Nat
  | char _ | oneOf _ | category _ _ | any _ | anchor _ => 1
  | cat a b => a.codeSize + b.codeSize
  | alt a b => a.codeSize + b.codeSize + 2
  | group _ body => body.codeSize + 2
  | repeated body least none _ =>
    if least = 0 then body.codeSize + 2 else least * body.codeSize + 1
  | repeated body least (some most) _ =>
    least * body.codeSize + (most - least) * (body.codeSize + 1)
  | linear body _ => body.codeSize
  | _ => 0

/-- A fork at the end of a round: into another round at `again`, or out of the repetition. -/
def loopFork (greedy : Bool) (again stop : Nat) : Instruction :=
  if greedy then .fork again stop else .fork stop again

/-- Adds the code of an expression behind the given code. -/
def emit : Regex → Array Instruction → Array Instruction
  | char c, code => code.push (.read (.single c))
  | oneOf cls, code => code.push (.read cls)
  | category kind negated, code => code.push (.read (.ofCategory kind negated))
  | any newline, code => code.push (.read (.any newline))
  | anchor a, code => code.push (.require a)
  | cat a b, code => b.emit (a.emit code)
  | alt a b, code =>
    let second := code.size + a.codeSize + 2
    let code := a.emit (code.push (.fork (code.size + 1) second))
    b.emit (code.push (.goto (second + b.codeSize)))
  | group name body, code => (body.emit (code.push .openGroup)).push (.closeGroup name)
  | repeated body 0 none greedy, code =>
    let start := code.size
    let stop := start + body.codeSize + 2
    let code := body.emit (code.push (loopFork greedy (start + 1) stop))
    code.push (if body.minWidth = 0 then loopFork greedy (start + 1) stop else .goto start)
  | repeated body (n + 1) none greedy, code =>
    let code := Nat.repeat (emit body) n code
    let start := code.size
    let code := body.emit code
    code.push (loopFork greedy start (code.size + 1))
  | repeated body least (some most) greedy, code =>
    let code := Nat.repeat (emit body) least code
    let stop := code.size + (most - least) * (body.codeSize + 1)
    Nat.repeat (fun code => body.emit (code.push (loopFork greedy (code.size + 1) stop)))
      (most - least) code
  | linear body _, code => body.emit code
  | _, code => code

/-- The expression for a text that is read from right to left, without groups. -/
def reversed : Regex → Regex
  | cat a b => cat b.reversed a.reversed
  | alt a b => alt a.reversed b.reversed
  | group _ body | linear body _ => body.reversed
  | repeated body least most greedy => repeated body.reversed least most greedy
  | r => r

/-- The automaton for an expression. -/
def automaton (r : Regex) : Automaton :=
  ⟨(r.emit #[]).push .accept, r.groups⟩

/-- The automaton for an expression in front of something that has to follow. -/
def automatonBefore (r following : Regex) : Automaton :=
  ⟨(following.emit ((r.emit #[]).push .endMatch)).push .accept, r.groups ++ following.groups⟩

end CApiUpgrade.Regex
