import CApiUpgrade.Regex.Assembly
import CApiUpgrade.Regex.Footprint

/-!
# Making an expression ready to run

A written expression is run by backtracking only as far as it has to be.  `Regex.prepared` hands the
other parts over to automata and sees to it that every assertion knows how far to look back.

**Hard and easy.**  An expression is *hard* if it is charged or holds a group that is referred to;
otherwise it is *easy*.  An easy expression goes to an automaton as a whole.  In a sequence, the
easy parts at its end do, if nothing behind the sequence could make them match in another way.

**Looking back.**  An assertion about a text of fixed width steps back by that width.  One with
alternatives of different widths becomes one assertion for each of them, and an easy one without a
fixed width is read from right to left.  A hard one is refused.
-/

namespace CApiUpgrade.Regex

/-! ### What has to be known of the whole expression -/

/-- The groups that are referred to. -/
def references : Regex → List String
  | backReference name _ | isSet name => [name]
  | cat a b | alt a b => a.references ++ b.references
  | group _ body | repeated body _ _ _ | look _ _ body | atomic body => body.references
  | linear body _ | lookBack _ body _ _ => body.references
  | conditional c a b => c.references ++ a.references ++ b.references
  | _ => []

/-- The number of characters that every match uses up, if it is always the same.  A reference is as
wide as its group, if that is known. -/
def fixedWidth? (widths : List (String × Nat)) : Regex → Option Nat
  | char _ | oneOf _ | category _ _ | any _ => some 1
  | cat a b => do return (← a.fixedWidth? widths) + (← b.fixedWidth? widths)
  | alt a b => do
    let width ← a.fixedWidth? widths
    if b.fixedWidth? widths == some width then some width else none
  | group _ body | atomic body | linear body _ => body.fixedWidth? widths
  | repeated body least most _ =>
    if most == some least then (body.fixedWidth? widths).map (least * ·) else none
  | backReference name _ => widths.lookup name
  | conditional c a b => do
    let width ← a.fixedWidth? widths
    if b.fixedWidth? widths == some width then return (← c.fixedWidth? widths) + width else none
  | empty | anchor _ | look _ _ _ | isSet _ | keepOut | resume | lookBack _ _ _ _ => some 0

/-- Adds the widths of the groups of fixed width to those known already. -/
def groupWidths : Regex → List (String × Nat) → List (String × Nat)
  | cat a b, widths | alt a b, widths => b.groupWidths (a.groupWidths widths)
  | group name body, widths =>
    let widths := body.groupWidths widths
    match body.fixedWidth? widths with
    | some width => (name, width) :: widths
    | none => widths
  | repeated body _ _ _, widths | look _ _ body, widths | atomic body, widths
  | linear body _, widths | lookBack _ body _ _, widths => body.groupWidths widths
  | conditional c a b, widths => b.groupWidths (a.groupWidths (c.groupWidths widths))
  | _, widths => widths

/-- What has to be known of a whole expression to prepare its parts. -/
structure Facts where
  /-- The groups that are referred to. -/
  referenced : List String
  /-- The widths of the groups of fixed width. -/
  widths : List (String × Nat)

namespace Facts

/-- The facts about an expression. -/
def of (r : Regex) : Facts := ⟨r.references, r.groupWidths []⟩

/-- Whether an expression can be handed over to an automaton. -/
def isEasy (facts : Facts) (r : Regex) : Bool :=
  !r.isCharged && !r.groups.any facts.referenced.contains

/-- The width of an expression, if it is fixed. -/
def width? (facts : Facts) (r : Regex) : Option Nat := r.fixedWidth? facts.widths

end Facts

/-! ### Enclosed parts -/

/-- A part that stays one part of the sequence or choice in which it stands. -/
def enclosed (r : Regex) : Regex := cat r empty

/-- The expression inside of an enclosed part that stands alone. -/
def opened : Regex → Regex
  | cat r empty => r.opened
  | r => r

/-- The alternatives of an expression. -/
def alternatives : Regex → List Regex
  | alt a b => a :: b.alternatives
  | r => [r]

/-! ### Looking back -/

/-- An assertion about a text that ends here. -/
def lookBehind (facts : Facts) (negated : Bool) (body : Regex) : Except RegexError Regex :=
  match facts.width? body with
  | some width => .ok (look (.behind width) negated body)
  | none =>
    if facts.isEasy body then do
      body.checkSize
      return lookBack negated body body.reversed.automaton body.automaton
    else .error .unfixedLookbehind

/-- An assertion about a text that ends here, one for each alternative if their widths differ. -/
def lookBehindAny (facts : Facts) (negated : Bool) (body : Regex) : Except RegexError Regex :=
  if (facts.width? body).isSome then lookBehind facts negated body
  else do
    let looks ← body.opened.alternatives.mapM (lookBehind facts negated)
    return if negated then seq looks else choice looks

/-- Settles how far the assertions of an expression look back. -/
def settled (facts : Facts) : Regex → Except RegexError Regex
  | cat a b => return cat (← a.settled facts) (← b.settled facts)
  | alt a b => return alt (← a.settled facts) (← b.settled facts)
  | group name body => return group name (← body.settled facts)
  | repeated body least most greedy => return repeated (← body.settled facts) least most greedy
  | look .ahead negated body => return look .ahead negated (← body.settled facts)
  | look (.behind _) negated body => do lookBehindAny facts negated (← body.settled facts)
  | atomic body => return atomic (← body.settled facts)
  | conditional c a b =>
    return conditional (← c.settled facts) (← a.settled facts) (← b.settled facts)
  | r => .ok r

/-! ### Automata for the easy parts -/

/-- Whether an expression is a mere run of characters and conditions.  It can match in one way only,
so an automaton would be no gain. -/
def isPlain : Regex → Bool
  | empty | char _ | oneOf _ | category _ _ | any _ | anchor _ => true
  | cat a b => a.isPlain && b.isPlain
  | _ => false

/-- An easy expression, handed over to an automaton. -/
def toLinear (r : Regex) : Except RegexError Regex := do
  r.checkSize
  return if r.isPlain then r else linear r r.automaton

/-- Where an expression stands. -/
inductive Standing where
  /-- Alone. -/
  | whole
  /-- It is the rest of a sequence.  With `leading` set, only easy parts of fixed width stand in
  front of it. -/
  | rest (leading : Bool)
  deriving DecidableEq

/-- Hands the easy parts of an expression over to automata.  With `followed` set, what stands behind
the expression may make it match in another way than the first. -/
def planned (facts : Facts) : (followed : Bool) → Standing → Regex → Except RegexError Regex
  | followed, place, r =>
    let isFixed := (facts.width? r).isSome
    if facts.isEasy r && (!followed || (place != .whole && isFixed)) then r.toLinear
    else
      -- The last part of a sequence with hard parts in front is tried again with them.
      let inner := followed || place != .whole
      match r with
      | cat a empty => planned facts inner .whole a
      | cat a b =>
        if place != .rest false && facts.isEasy a && (facts.width? a).isSome then
          return cat (← a.toLinear) (← planned facts followed (.rest true) b)
        else
          return cat (← planned facts true .whole a) (← planned facts followed (.rest false) b)
      | alt a b => return alt (← planned facts inner .whole a) (← planned facts inner .whole b)
      | group name body => return group name (← planned facts inner .whole body)
      | repeated body 0 (some 1) greedy =>
        return repeated (← planned facts inner .whole body) 0 (some 1) greedy
      | repeated body least most greedy =>
        -- Bounds in the wrong order leave the upper one.
        let least := (most.map (min least)).getD least
        return repeated (← planned facts true .whole body) least most greedy
      | look direction negated body =>
        return look direction negated (← planned facts false .whole body)
      | atomic body => return atomic (← planned facts false .whole body)
      | conditional c a b =>
        return conditional (← planned facts inner .whole c) (← planned facts inner .whole a)
          (← planned facts inner .whole b)
      | r => .ok r

/-- An expression that ends in an assertion about what follows, and what has to follow. -/
def splitAhead? : Regex → Option (Regex × Regex)
  | cat a (look .ahead false body) => some (a, body)
  | cat a b => do
    let (front, body) ← b.splitAhead?
    return (cat a front, body)
  | _ => none

/-- A written expression, ready to run. -/
def prepared (r : Regex) : Except RegexError Regex := do
  let facts := Facts.of r
  let r ← r.settled facts
  match r.opened.splitAhead? with
  | some (front, following) =>
    if facts.isEasy front && facts.isEasy following then
      (cat front following).checkSize
      return linear r (front.automatonBefore following)
    else r.planned facts false .whole
  | none => r.planned facts false .whole

end CApiUpgrade.Regex
