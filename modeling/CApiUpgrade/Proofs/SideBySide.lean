import CApiUpgrade.Regex.Matcher
import Mathlib.Tactic.SplitIfs

/-!
# Two runs side by side

A run reads its limit at a single point, where it takes a step back.  So to compare the runs of an
expression under two limits, it is enough to look at three things: how a run ends, how it goes on
from the verdict of another run, and what a step back leads to.  `Verdict.Congruence` asks this of a
relation between verdicts, and `Regex.run_related` carries the relation through whole runs,
constructor by constructor.

The relation may depend on how many steps back the two runs have started with.
-/

namespace CApiUpgrade

/-! ### Verdicts -/

namespace Verdict

/-- Goes on from a verdict, in one way if something was found and in another if nothing was. -/
def goOn (v : Verdict) (yes : Goal) (no : Nat → Verdict) : Verdict :=
  match v with
  | found stop caps spent => yes stop caps spent
  | failed spent => no spent
  | exhausted => exhausted

/-- An alternative goes on from a failure by a step back. -/
theorem orElse_eq_goOn (limit : Option Nat) (v : Verdict) (other : Nat → Verdict) :
    v.orElse limit other = v.goOn .found fun spent => (failed spent).orElse limit other := by
  cases v <;> rfl

/-- So does a denial, and it fails if something was found. -/
theorem deny_eq_goOn (limit : Option Nat) (v : Verdict) (goal : Nat → Verdict) :
    v.deny limit goal =
      v.goOn (fun _ _ spent => .failed spent) fun spent => (failed spent).orElse limit goal := by
  cases v <;> rfl

/-- A relation between the verdicts of two runs, each under its own limit, that is kept by all that
a run does. -/
structure Congruence (limit limit' : Option Nat) (R : Nat → Verdict → Verdict → Prop) : Prop where
  /-- Both runs have found something. -/
  found : ∀ stop caps spent, R spent (.found stop caps spent) (.found stop caps spent)
  /-- Both runs have failed. -/
  failed : ∀ spent, R spent (.failed spent) (.failed spent)
  /-- Both runs go on from related verdicts. -/
  goOn : ∀ {spent v v'} {yes yes' : Goal} {no no' : Nat → Verdict}, R spent v v' →
    (∀ stop caps later, R later (yes stop caps later) (yes' stop caps later)) →
    (∀ later, R later (no later) (no' later)) → R spent (v.goOn yes no) (v'.goOn yes' no')
  /-- Both runs take a step back. -/
  stepBack : ∀ {spent} {other other' : Nat → Verdict},
    R (spent + 1) (other (spent + 1)) (other' (spent + 1)) →
    R spent ((Verdict.failed spent).orElse limit other)
      ((Verdict.failed spent).orElse limit' other')

namespace Congruence

variable {limit limit' : Option Nat} {R : Nat → Verdict → Verdict → Prop} {spent : Nat}
  {v v' : Verdict}

/-- Alternatives of related verdicts are related. -/
theorem orElse (hR : Congruence limit limit' R) {other other' : Nat → Verdict} (h : R spent v v')
    (ho : ∀ later, R later (other later) (other' later)) :
    R spent (v.orElse limit other) (v'.orElse limit' other') := by
  rw [orElse_eq_goOn limit v, orElse_eq_goOn limit' v']
  exact hR.goOn h hR.found fun later => hR.stepBack (ho (later + 1))

theorem deny (hR : Congruence limit limit' R) {goal goal' : Nat → Verdict} (h : R spent v v')
    (hg : ∀ later, R later (goal later) (goal' later)) :
    R spent (v.deny limit goal) (v'.deny limit' goal') := by
  rw [deny_eq_goOn limit v, deny_eq_goOn limit' v']
  exact hR.goOn h (fun _ _ later => hR.failed later) fun later => hR.stepBack (hg (later + 1))

end Congruence

end Verdict

/-! ### Goals -/

/-- From every position, two goals lead to related verdicts. -/
def Goal.Related (R : Nat → Verdict → Verdict → Prop) (goal goal' : Goal) : Prop :=
  ∀ cur caps spent, R spent (goal cur caps spent) (goal' cur caps spent)

namespace Goal.Related

variable {limit limit' : Option Nat} {R : Nat → Verdict → Verdict → Prop} {goal goal' : Goal}

theorem here (hR : Verdict.Congruence limit limit' R) : Goal.Related R Goal.here Goal.here :=
  hR.found

/-- Both goals look at the same next character. -/
theorem step (hR : Verdict.Congruence limit limit' R) (h : Goal.Related R goal goal')
    (p : Char → Bool) : Goal.Related R (goal.step p) (goal'.step p) := by
  intro cur caps spent
  unfold Goal.step
  cases cur.next? with
  | none => exact hR.failed spent
  | some move =>
    dsimp only
    split_ifs
    · exact h move.2 caps spent
    · exact hR.failed spent

theorem provided (hR : Verdict.Congruence limit limit' R) (h : Goal.Related R goal goal')
    (p : Cursor → Captures → Bool) : Goal.Related R (goal.provided p) (goal'.provided p) := by
  intro cur caps spent
  unfold Goal.provided
  split_ifs
  · exact h cur caps spent
  · exact hR.failed spent

section Repetitions

variable {body body' : Goal → Goal}

theorem exactly
    (hb : ∀ goal goal', Goal.Related R goal goal' → Goal.Related R (body goal) (body' goal'))
    (h : Goal.Related R goal goal') (n : Nat) :
    Goal.Related R (Goal.exactly body goal n) (Goal.exactly body' goal' n) := by
  -- By the number of rounds: the goal behind a round is what is left of the rounds.
  induction n with
  | zero => exact h
  | succ n ih => exact hb _ _ ih

/-- Runs of any number of rounds are related if one round takes related goals to related goals. -/
theorem rounds (hR : Verdict.Congruence limit limit' R)
    (hb : ∀ goal goal', Goal.Related R goal goal' → Goal.Related R (body goal) (body' goal'))
    (greedy moving : Bool) (h : Goal.Related R goal goal') (n : Nat) :
    Goal.Related R (Goal.rounds limit body greedy moving goal n)
      (Goal.rounds limit' body' greedy moving goal' n) := by
  induction n with
  | zero => exact h
  | succ n ih =>
    intro cur caps spent
    -- Behind another round stands the goal, if the round has not moved, and further rounds
    -- otherwise.
    have hanother := fun spent => hb
      (fun cur' caps spent =>
        if moving && cur'.offset == cur.offset then goal cur' caps spent
        else Goal.rounds limit body greedy moving goal n cur' caps spent)
      (fun cur' caps spent =>
        if moving && cur'.offset == cur.offset then goal' cur' caps spent
        else Goal.rounds limit' body' greedy moving goal' n cur' caps spent)
      (by
        intro cur' caps spent
        dsimp only
        split_ifs
        · exact h cur' caps spent
        · exact ih cur' caps spent)
      cur caps spent
    unfold Goal.rounds
    cases greedy with
    | true => exact hR.orElse (hanother spent) fun spent => h cur caps spent
    | false => exact hR.orElse (h cur caps spent) fun spent => hanother spent

end Repetitions

end Goal.Related

/-! ### Runs -/

namespace Regex

/-- An atomic group goes on from what its body finds, and takes no step back into it. -/
theorem run_atomic (terms : Terms) (body : Regex) (goal : Goal) (cur : Cursor) (caps : Captures)
    (spent : Nat) : (atomic body).run terms goal cur caps spent =
      (body.run terms Goal.here cur caps spent).goOn goal .failed := by
  simp only [run]
  cases body.run terms Goal.here cur caps spent <;> rfl

/-- A conditional goes on from what its condition finds. -/
theorem run_conditional (terms : Terms) (condition yes no : Regex) (goal : Goal) (cur : Cursor)
    (caps : Captures) (spent : Nat) : (conditional condition yes no).run terms goal cur caps spent =
      (condition.run terms Goal.here cur caps spent).goOn (yes.run terms goal)
        fun spent => (Verdict.failed spent).orElse terms.limit (no.run terms goal cur caps) := by
  simp only [run]
  cases condition.run terms Goal.here cur caps spent <;> rfl

open Goal.Related in
/-- **Two runs side by side.**  What all that a run does keeps is kept by the runs of an
expression. -/
theorem run_related {limit limit' : Option Nat} {R : Nat → Verdict → Verdict → Prop}
    (hR : Verdict.Congruence limit limit' R) (r : Regex) (bound : Nat) (origin : Option Nat)
    {goal goal' : Goal} (h : Goal.Related R goal goal') :
    Goal.Related R (r.run ⟨limit, bound, origin⟩ goal) (r.run ⟨limit', bound, origin⟩ goal') := by
  induction r generalizing goal goal' with
  | empty => exact h
  | char c => exact step hR h _
  | oneOf cls => exact step hR h _
  | category kind negated => exact step hR h _
  | any newline => exact step hR h _
  | anchor a => exact provided hR h _
  | isSet name => exact provided hR h _
  | resume => exact provided hR h _
  | keepOut => exact fun cur caps spent => h cur _ spent
  | cat a b iha ihb => exact iha (ihb h)
  | alt a b iha ihb =>
    exact fun cur caps spent => hR.orElse (iha h cur caps spent) fun spent => ihb h cur caps spent
  | group name body ih =>
    intro cur caps spent
    exact ih (fun stop caps spent => h stop ((name, ⟨cur, stop⟩) :: caps) spent) cur caps spent
  | repeated body least most greedy ih =>
    have hb := fun goal goal' (h : Goal.Related R goal goal') => ih h
    -- Behind the rounds that must be come those that may be.
    cases most with
    | none => exact exactly hb (rounds hR hb greedy true h _) least
    | some most => exact exactly hb (rounds hR hb greedy false h _) least
  | look direction negated body ih =>
    intro cur caps spent
    have hgoal := fun spent => h cur caps spent
    -- An assertion takes up no text: what comes behind it starts again from where the assertion
    -- stands.
    have hback : Goal.Related R (fun _ caps spent => goal cur caps spent) fun _ caps spent =>
        goal' cur caps spent :=
      fun _ caps spent => h cur caps spent
    cases direction with
    | ahead =>
      cases negated with
      | true => exact hR.deny (ih (here hR) cur caps spent) hgoal
      | false => exact ih hback cur caps spent
    | behind width =>
      simp only [run]
      -- An assertion about the text in front fails where that is too short.
      cases cur.back? width with
      | none =>
        cases negated with
        | true => exact hR.deny (hR.failed spent) hgoal
        | false => exact hR.failed spent
      | some start =>
        cases negated with
        | true => exact hR.deny (ih (here hR) start caps spent) hgoal
        | false => exact ih hback start caps spent
  | atomic body ih =>
    intro cur caps spent
    rw [run_atomic, run_atomic]
    exact hR.goOn (ih (here hR) cur caps spent) h hR.failed
  | backReference name anyCase =>
    intro cur caps spent
    simp only [run]
    split
    · exact h _ caps spent
    · exact hR.failed spent
  | conditional condition yes no ihc ihy ihn =>
    intro cur caps spent
    rw [run_conditional, run_conditional]
    exact hR.goOn (ihc (here hR) cur caps spent) (ihy h) fun later =>
      hR.stepBack (ihn h cur caps (later + 1))
  | linear body machine =>
    intro cur caps spent
    simp only [run]
    cases machine.matchAt? bound cur with
    | none => exact hR.failed spent
    | some found => exact h _ _ spent
  | lookBack negated body back forth =>
    intro cur caps spent
    simp only [run]
    cases back.startBefore? bound cur with
    | none =>
      cases negated with
      | true => exact hR.orElse (hR.failed spent) fun spent => h cur caps spent
      | false => exact hR.failed spent
    | some start =>
      cases negated with
      | true => exact hR.failed spent
      | false => exact h cur _ spent

end Regex

end CApiUpgrade
