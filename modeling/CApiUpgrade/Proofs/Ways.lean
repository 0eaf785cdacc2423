import CApiUpgrade.Regex.Matcher
import Mathlib.Tactic.SplitIfs

/-!
# The ways to match an expression

`Regex.run` is written with goals and a budget.  What it computes is simpler: an expression can be
matched at a position in certain *ways*, in order of preference, and the run takes the first way
from which its goal can be reached.  `Regex.ways` lists them.

Main statement: `Regex.run_reaches`.  A run that does not exhaust its budget answers what the list
of ways says, whatever the budget is and however much of it was spent before.
-/

namespace CApiUpgrade

/-- A way to match: where it ends, and what the groups have matched by then. -/
abbrev Way := Cursor × Captures

namespace Way

/-- One character that satisfies `p`. -/
def step (p : Char → Bool) (cur : Cursor) (caps : Captures) : List Way :=
  match cur.next? with
  | some (c, stop) => if p c then [(stop, caps)] else []
  | none => []

/-- No character, where `p` holds. -/
def provided (p : Cursor → Captures → Bool) (cur : Cursor) (caps : Captures) : List Way :=
  if p cur caps then [(cur, caps)] else []

/-- Exactly `n` rounds of `body`, then `more`. -/
def exactly (body more : Cursor → Captures → List Way) :
    (n : Nat) → Cursor → Captures → List Way
  | 0, cur, caps => more cur caps
  | n + 1, cur, caps => (body cur caps).flatMap fun w => exactly body more n w.1 w.2

/-- Up to `n` rounds of `body`.  With `moving` set, a round that uses up no character is the last
one. -/
def rounds (body : Cursor → Captures → List Way) (greedy moving : Bool) :
    (n : Nat) → Cursor → Captures → List Way
  | 0, cur, caps => [(cur, caps)]
  | n + 1, cur, caps =>
    let another := (body cur caps).flatMap fun w =>
      if moving && w.1.offset == cur.offset then [w] else rounds body greedy moving n w.1 w.2
    if greedy then another ++ [(cur, caps)] else (cur, caps) :: another

end Way

namespace Regex

/-- The ways to match an expression from a position on, the preferred ones first. -/
def ways (terms : Terms) : Regex → Cursor → Captures → List Way
  | empty, cur, caps => [(cur, caps)]
  | char c, cur, caps => Way.step (· == c) cur caps
  | oneOf cls, cur, caps => Way.step cls.contains cur caps
  | category kind negated, cur, caps => Way.step (fun c => kind.contains c != negated) cur caps
  | any newline, cur, caps => Way.step (fun c => newline || c != '\n') cur caps
  | anchor a, cur, caps => Way.provided (fun cur _ => a.holds cur) cur caps
  | cat a b, cur, caps => (a.ways terms cur caps).flatMap fun w => b.ways terms w.1 w.2
  | alt a b, cur, caps => a.ways terms cur caps ++ b.ways terms cur caps
  | group name body, cur, caps =>
    (body.ways terms cur caps).map fun w => (w.1, (name, ⟨cur, w.1⟩) :: w.2)
  | repeated body least most greedy, cur, caps =>
    let more := match most with
      | some most => Way.rounds (body.ways terms) greedy false (most - least)
      | none => Way.rounds (body.ways terms) greedy true (terms.bound + 1)
    Way.exactly (body.ways terms) more least cur caps
  | look direction negated body, cur, caps =>
    let start := match direction with
      | .ahead => some cur
      | .behind width => cur.back? width
    let seen := match start with
      | some start => body.ways terms start caps
      | none => []
    if negated then (if seen.isEmpty then [(cur, caps)] else [])
    else seen.map fun w => (cur, w.2)
  | atomic body, cur, caps => (body.ways terms cur caps).head?.toList
  | backReference name anyCase, cur, caps =>
    let place := (caps.lookup name).bind fun span =>
      if anyCase then cur.skipAnyCase? span.text else cur.skip? span.text
    match place with
    | some stop => [(stop, caps)]
    | none => []
  | isSet name, cur, caps => Way.provided (fun _ caps => (caps.lookup name).isSome) cur caps
  | conditional condition yes no, cur, caps =>
    match (condition.ways terms cur caps).head? with
    | some w => yes.ways terms w.1 w.2
    | none => no.ways terms cur caps
  | keepOut, cur, caps => [(cur, (wholeMatch, ⟨cur, cur⟩) :: caps)]
  | resume, cur, caps => Way.provided (fun cur _ => terms.origin.any (cur.offset ≤ ·)) cur caps
  | linear _ machine, cur, caps =>
    match machine.matchAt? terms.bound cur with
    | some (stop, found) => [(stop, machine.update found caps)]
    | none => []
  | lookBack negated _ back forth, cur, caps =>
    match back.startBefore? terms.bound cur with
    | some start =>
      let found := forth.capturesUpTo terms.bound start cur
      if negated then [] else [(cur, forth.update found caps)]
    | none => if negated then [(cur, caps)] else []

end Regex

/-! ### Verdicts and answers -/

/-- A verdict gives an answer: the way that was found, or none.  A run that exhausts its budget
says nothing, so it is compatible with every answer. -/
inductive Verdict.Answers : Verdict → Option Way → Prop where
  | exhausted (o : Option Way) : Answers .exhausted o
  | failed (spent : Nat) : Answers (.failed spent) none
  | found (stop : Cursor) (caps : Captures) (spent : Nat) :
    Answers (.found stop caps spent) (some (stop, caps))

namespace Verdict.Answers

theorem orElse (limit : Option Nat) {v : Verdict} {other : Nat → Verdict} {o o' : Option Way}
    (hv : v.Answers o) (ho : ∀ spent, (other spent).Answers o') :
    (v.orElse limit other).Answers (o.or o') := by
  cases hv with
  | exhausted => exact .exhausted _
  | found stop caps spent => exact .found stop caps spent
  | failed spent =>
    rw [Option.none_or]
    unfold Verdict.orElse
    cases limit with
    | none => exact ho _
    | some most =>
      dsimp only
      split_ifs
      · exact ho _
      · exact .exhausted _

theorem deny (limit : Option Nat) {v : Verdict} {goal : Nat → Verdict} {o o' : Option Way}
    (hv : v.Answers o) (hg : ∀ spent, (goal spent).Answers o') :
    (v.deny limit goal).Answers (if o.isSome then none else o') := by
  cases hv with
  | exhausted => exact .exhausted _
  | found stop caps spent => exact .failed spent
  | failed spent =>
    have h := orElse limit (.failed spent) hg
    simpa [Verdict.deny] using h

end Verdict.Answers

/-- A goal is reached as `g` says: the verdict from any position answers what `g` gives there. -/
def Goal.Reaches (goal : Goal) (g : Cursor → Captures → Option Way) : Prop :=
  ∀ cur caps spent, (goal cur caps spent).Answers (g cur caps)

namespace Way

/-- The first of some ways from which `g` gives an answer. -/
def first (g : Cursor → Captures → Option Way) (ws : List Way) : Option Way :=
  ws.findSome? fun w => g w.1 w.2

@[simp]
theorem first_nil (g : Cursor → Captures → Option Way) : first g [] = none := rfl

@[simp]
theorem first_singleton (g : Cursor → Captures → Option Way) (cur : Cursor) (caps : Captures) :
    first g [(cur, caps)] = g cur caps := by
  simp [first]

theorem first_append (g : Cursor → Captures → Option Way) (ws ws' : List Way) :
    first g (ws ++ ws') = (first g ws).or (first g ws') :=
  List.findSome?_append

theorem first_map (g : Cursor → Captures → Option Way) (f : Way → Way) (ws : List Way) :
    first g (ws.map f) = first (fun cur caps => g (f (cur, caps)).1 (f (cur, caps)).2) ws := by
  simp only [first, List.findSome?_map]
  rfl

theorem first_flatMap (g : Cursor → Captures → Option Way) (f : Way → List Way) (ws : List Way) :
    first g (ws.flatMap f) = first (fun cur caps => first g (f (cur, caps))) ws := by
  induction ws with
  | nil => rfl
  | cons w ws ih =>
    rw [List.flatMap_cons, first_append, ih]
    simp only [first, List.findSome?_cons]
    cases (f w).findSome? fun w => g w.1 w.2 <;> simp

/-- The first way from which nothing is left to do is the first way. -/
theorem first_some (ws : List Way) : first (fun cur caps => some (cur, caps)) ws = ws.head? := by
  cases ws <;> rfl

end Way

/-! ### Goals and ways -/

namespace Goal.Reaches

variable {goal : Goal} {g : Cursor → Captures → Option Way}

theorem here : Goal.here.Reaches fun cur caps => some (cur, caps) :=
  fun cur caps spent => .found cur caps spent

theorem step (hg : goal.Reaches g) (p : Char → Bool) :
    (goal.step p).Reaches fun cur caps => Way.first g (Way.step p cur caps) := by
  intro cur caps spent
  simp only [Goal.step, Way.step]
  cases cur.next? with
  | none => exact .failed spent
  | some move =>
    obtain ⟨c, stop⟩ := move
    dsimp only
    split_ifs
    · rw [Way.first_singleton]
      exact hg stop caps spent
    · exact .failed spent

theorem provided (hg : goal.Reaches g) (p : Cursor → Captures → Bool) :
    (goal.provided p).Reaches fun cur caps => Way.first g (Way.provided p cur caps) := by
  intro cur caps spent
  simp only [Goal.provided, Way.provided]
  split_ifs
  · rw [Way.first_singleton]
    exact hg cur caps spent
  · exact .failed spent

/-- The body of a repetition: what it makes of goals agrees with a list of ways. -/
def Body (body : Goal → Goal) (ways : Cursor → Captures → List Way) : Prop :=
  ∀ (goal : Goal) (g : Cursor → Captures → Option Way),
    goal.Reaches g → (body goal).Reaches fun cur caps => Way.first g (ways cur caps)

theorem exactly {body : Goal → Goal} {ways more : Cursor → Captures → List Way}
    (hb : Body body ways) (hm : goal.Reaches fun cur caps => Way.first g (more cur caps))
    (n : Nat) : (Goal.exactly body goal n).Reaches
      fun cur caps => Way.first g (Way.exactly ways more n cur caps) := by
  induction n with
  | zero => exact hm
  | succ n ih =>
    intro cur caps spent
    have h := hb _ _ ih cur caps spent
    simpa only [Goal.exactly, Way.exactly, Way.first_flatMap] using h

theorem rounds {body : Goal → Goal} {ways : Cursor → Captures → List Way} (limit : Option Nat)
    (hb : Body body ways) (greedy moving : Bool) (hg : goal.Reaches g) (n : Nat) :
    (Goal.rounds limit body greedy moving goal n).Reaches
      fun cur caps => Way.first g (Way.rounds ways greedy moving n cur caps) := by
  induction n with
  | zero =>
    intro cur caps spent
    simpa [Way.rounds, Goal.rounds] using hg cur caps spent
  | succ n ih =>
    intro cur caps spent
    -- What follows one more round: the goal if the round stayed in place, else further rounds.
    have hnext : Goal.Reaches
        (fun cur' caps' spent' =>
          if moving && cur'.offset == cur.offset then goal cur' caps' spent'
          else Goal.rounds limit body greedy moving goal n cur' caps' spent')
        fun cur' caps' => Way.first g
          (if moving && cur'.offset == cur.offset then [(cur', caps')]
            else Way.rounds ways greedy moving n cur' caps') := by
      intro cur' caps' spent'
      dsimp only
      split_ifs
      · rw [Way.first_singleton]
        exact hg cur' caps' spent'
      · exact ih cur' caps' spent'
    have hanother := fun spent => hb _ _ hnext cur caps spent
    simp only [Goal.rounds, Way.rounds]
    cases greedy with
    | true =>
      simp only [↓reduceIte, Way.first_append, Way.first_singleton, Way.first_flatMap]
      exact (hanother spent).orElse limit fun spent => hg cur caps spent
    | false =>
      simp only [Bool.false_eq_true, ↓reduceIte]
      rw [← List.singleton_append, Way.first_append, Way.first_singleton, Way.first_flatMap]
      exact (hg cur caps spent).orElse limit fun spent => hanother spent

end Goal.Reaches

namespace Regex

open Goal.Reaches in
/-- **Runs and ways.**  If a goal is reached as `g` says, then a run towards it answers with the
first way to match from which `g` gives an answer. -/
theorem run_reaches (terms : Terms) (r : Regex) {goal : Goal}
    {g : Cursor → Captures → Option Way} (hg : goal.Reaches g) :
    (r.run terms goal).Reaches fun cur caps => Way.first g (r.ways terms cur caps) := by
  induction r generalizing goal g with
  | empty =>
    intro cur caps spent
    simpa only [run, ways, Way.first_singleton] using hg cur caps spent
  | char c => exact hg.step _
  | oneOf cls => exact hg.step _
  | category kind negated => exact hg.step _
  | any newline => exact hg.step _
  | anchor a => exact hg.provided _
  | isSet name => exact hg.provided _
  | resume => exact hg.provided _
  | cat a b iha ihb =>
    intro cur caps spent
    simp only [run, ways, Way.first_flatMap]
    exact iha (ihb hg) cur caps spent
  | alt a b iha ihb =>
    intro cur caps spent
    simp only [run, ways, Way.first_append]
    exact (iha hg cur caps spent).orElse terms.limit fun spent => ihb hg cur caps spent
  | group name body ih =>
    intro cur caps spent
    simp only [run, ways, Way.first_map]
    -- The goal that the body runs towards remembers the span first.
    have hset : Goal.Reaches (fun stop caps spent => goal stop ((name, ⟨cur, stop⟩) :: caps) spent)
        fun stop caps => g stop ((name, ⟨cur, stop⟩) :: caps) :=
      fun stop caps spent => hg stop _ spent
    exact ih hset cur caps spent
  | repeated body least most greedy ih =>
    have hb : Body (run terms body) (body.ways terms) := fun _ _ hg => ih hg
    cases most with
    | none => exact exactly hb (rounds terms.limit hb greedy true hg _) least
    | some most => exact exactly hb (rounds terms.limit hb greedy false hg _) least
  | look direction negated body ih =>
    intro cur caps spent
    have hahead (start : Cursor) : Verdict.Answers
        (if negated then
          (body.run terms Goal.here start caps spent).deny terms.limit (goal cur caps)
        else body.run terms (fun _ caps spent => goal cur caps spent) start caps spent)
        (Way.first g (if negated then
          (if (body.ways terms start caps).isEmpty then [(cur, caps)] else [])
        else (body.ways terms start caps).map fun w => (cur, w.2))) := by
      cases negated with
      | true =>
        have hseen : (body.run terms Goal.here start caps spent).Answers
            (body.ways terms start caps).head? := by
          rw [← Way.first_some]
          exact ih here start caps spent
        have h := hseen.deny terms.limit fun spent => hg cur caps spent
        cases hw : body.ways terms start caps <;> simpa [hw] using h
      | false =>
        have hback : Goal.Reaches (fun _ caps spent => goal cur caps spent)
            fun _ caps => g cur caps := fun _ caps spent => hg cur caps spent
        simp only [Bool.false_eq_true, ↓reduceIte, Way.first_map]
        exact ih hback start caps spent
    cases direction with
    | ahead => exact hahead cur
    | behind width =>
      cases hstart : cur.back? width with
      | some start => simpa only [run, ways, hstart] using hahead start
      | none =>
        simp only [run, ways, hstart]
        cases negated with
        | true =>
          have h := (Verdict.Answers.failed spent).deny terms.limit
            fun spent => hg cur caps spent
          simpa using h
        | false => exact .failed spent
  | atomic body ih =>
    intro cur caps spent
    have h := ih here cur caps spent
    simp only [Way.first_some] at h
    simp only [run, ways]
    revert h
    generalize body.run terms Goal.here cur caps spent = v
    generalize (body.ways terms cur caps).head? = o
    intro h
    cases h with
    | exhausted => exact .exhausted _
    | failed spent => exact .failed spent
    | found stop caps spent => simpa using hg stop caps spent
  | backReference name anyCase =>
    intro cur caps spent
    simp only [run, ways]
    generalize ((caps.lookup name).bind fun span =>
      if anyCase then cur.skipAnyCase? span.text else cur.skip? span.text) = place
    cases place with
    | none => exact .failed spent
    | some stop => simpa using hg stop caps spent
  | conditional condition yes no ihc ihy ihn =>
    intro cur caps spent
    have h := ihc here cur caps spent
    simp only [Way.first_some] at h
    simp only [run, ways]
    revert h
    generalize condition.run terms Goal.here cur caps spent = v
    generalize (condition.ways terms cur caps).head? = o
    intro h
    cases h with
    | exhausted => exact .exhausted _
    | failed spent =>
      have h := (Verdict.Answers.failed spent).orElse terms.limit
        fun spent => ihn hg cur caps spent
      simpa using h
    | found stop caps spent => exact ihy hg stop caps spent
  | keepOut =>
    intro cur caps spent
    simpa only [run, ways, Way.first_singleton] using hg cur _ spent
  | linear body machine _ =>
    intro cur caps spent
    simp only [run, ways]
    cases machine.matchAt? terms.bound cur with
    | none => exact .failed spent
    | some found => simpa using hg found.1 _ spent
  | lookBack negated body back forth _ =>
    intro cur caps spent
    simp only [run, ways]
    cases back.startBefore? terms.bound cur with
    | none =>
      cases negated with
      | true =>
        have h := (Verdict.Answers.failed spent).orElse terms.limit
          fun spent => hg cur caps spent
        simpa using h
      | false => exact .failed spent
    | some start =>
      cases negated with
      | true => exact .failed spent
      | false => simpa using hg cur _ spent

/-- A run that has no goal but to match answers with the first way to match. -/
theorem run_here_answers (terms : Terms) (r : Regex) (cur : Cursor) (caps : Captures)
    (spent : Nat) :
    (r.run terms Goal.here cur caps spent).Answers (r.ways terms cur caps).head? := by
  rw [← Way.first_some]
  exact r.run_reaches terms Goal.Reaches.here cur caps spent

end Regex

end CApiUpgrade
