import CApiUpgrade.Patch
import CApiUpgrade.Proofs.Pass
import CApiUpgrade.Proofs.Tracking

/-!
# Runs for evaluation

What becomes of one text is settled by a run of the matcher, and the kernel carries it out.
`Regex.run` is written to be read: most of what its evaluation takes is spent on recursion through
all parts of an expression at once and on decisions that carry proofs.  `Evaluation.run` is the same
function (`Evaluation.run_eq`), written for the kernel: with the recursors themselves, one named
function for each construct, and Boolean tests.  That takes about a third of the time.

The functions built on the matcher follow, up to `Evaluation.patch` (`Evaluation.patch_eq`).  What
they answer for a text is what the functions of the library answer (`Evaluation.patch_eq_ok`,
`Evaluation.apply_eq_ok`).

Constructs that matter little for the texts of this library keep their own definition.

What is checked of all patterns of the catalog is worked out in the same way: `Evaluation.flow` is
`Regex.flow`, with every set of states brought to its value before it is used, so that what two
patterns have in common is worked out once.
-/

namespace CApiUpgrade

/-- An answer is known by what it holds. -/
theorem eq_ok_of_toOption {ε α : Type} {x : Except ε α} {a : α} (h : x.toOption = some a) :
    x = .ok a := by
  cases x with
  | error e => simp [Except.toOption] at h
  | ok b => simpa [Except.toOption] using h

noncomputable section

namespace Evaluation

/-! ### Verdicts -/

/-- A choice that reduces in one step. -/
def choose {α : Type} (b : Bool) (yes no : α) : α := Bool.rec no yes b

/-- Whether a limit allows the next step back. -/
def allows (limit : Option Nat) (spent : Nat) : Bool :=
  Option.rec true (fun most => Nat.ble (spent + 1) most) limit

/-- Takes a step back and goes on with `other`, if the limit allows it. -/
def back (limit : Option Nat) (spent : Nat) (other : Nat → Verdict) : Verdict :=
  choose (allows limit spent) (other (spent + 1)) .exhausted

/-- What `Verdict.orElse` answers. -/
def orElse (limit : Option Nat) (v : Verdict) (other : Nat → Verdict) : Verdict :=
  Verdict.rec .found (fun spent => back limit spent other) .exhausted v

/-- What `Verdict.deny` answers. -/
def deny (limit : Option Nat) (v : Verdict) (goal : Nat → Verdict) : Verdict :=
  Verdict.rec (fun _ _ spent => .failed spent) (fun spent => back limit spent goal) .exhausted v

theorem choose_eq {α : Type} (b : Bool) (yes no : α) : choose b yes no = if b then yes else no := by
  cases b <;> rfl

/-- A limit allows the next step back unless as many have been taken. -/
theorem allows_eq (limit : Option Nat) (spent : Nat) :
    allows limit spent = !limit.any (· ≤ spent) := by
  cases limit with
  | none => rfl
  | some most =>
    have hble : allows (some most) spent = true ↔ spent < most := iff_of_eq Nat.ble_eq
    rw [Bool.eq_iff_iff, hble]
    simp

/-- A step back from a failure is taken and counted as `Verdict.orElse` takes and counts it. -/
theorem back_eq (limit : Option Nat) (spent : Nat) (other : Nat → Verdict) :
    back limit spent other = (Verdict.failed spent).orElse limit other := by
  rw [back, choose_eq, allows_eq]
  cases limit with
  | none => rfl
  | some most => simp [Verdict.orElse]

theorem orElse_eq (limit : Option Nat) (v : Verdict) (other : Nat → Verdict) :
    orElse limit v other = v.orElse limit other := by
  cases v with
  | failed spent => exact back_eq limit spent other
  | _ => rfl

theorem deny_eq (limit : Option Nat) (v : Verdict) (goal : Nat → Verdict) :
    deny limit v goal = v.deny limit goal := by
  cases v with
  | failed spent => exact back_eq limit spent goal
  | _ => rfl

/-! ### Goals -/

theorem succ_eq_length {x : Char} {before : List Char} {offset : Nat} (h : offset = before.length) :
    offset + 1 = (x :: before).length := by
  rw [h, List.length_cons]

theorem pred_eq_length {x : Char} {before : List Char} {offset : Nat}
    (h : offset = (x :: before).length) : offset - 1 = before.length := by
  rw [h, List.length_cons, Nat.add_sub_cancel]

/-- Goes on with the next character and the position behind it, if there is one. -/
def advance {α : Type} (cur : Cursor) (more : Char → Cursor → α) (atEnd : α) : α :=
  Cursor.rec (fun before after offset h =>
    List.rec atEnd (fun x rest _ => more x ⟨x :: before, rest, offset + 1, succ_eq_length h⟩) after)
      cur

/-- The next character is the one that `Cursor.next?` reads. -/
theorem advance_eq {α : Type} (cur : Cursor) (more : Char → Cursor → α) (atEnd : α) :
    advance cur more atEnd = match cur.next? with
      | some (x, cur) => more x cur
      | none => atEnd := by
  obtain ⟨before, after, offset, h⟩ := cur
  cases after <;> rfl

/-- What `Goal.step` does. -/
def step (p : Char → Bool) (goal : Goal) : Goal := fun cur caps spent =>
  advance cur (fun x cur => choose (p x) (goal cur caps spent) (.failed spent)) (.failed spent)

/-- What `Goal.provided` does for a condition on the position. -/
def provided (p : Cursor → Bool) (goal : Goal) : Goal := fun cur caps spent =>
  choose (p cur) (goal cur caps spent) (.failed spent)

/-- What `Goal.exactly` does. -/
def exactly (body : Goal → Goal) (goal : Goal) (n : Nat) : Goal :=
  Nat.rec goal (fun _ more cur caps spent => body more cur caps spent) n

/-- What `Goal.rounds` does. -/
def rounds (limit : Option Nat) (body : Goal → Goal) (greedy moving : Bool)
    (goal : Goal) (n : Nat) : Goal :=
  Nat.rec goal
    (fun _ more cur caps spent =>
      let another : Goal := body fun cur' caps spent =>
        choose (choose moving (Nat.beq cur'.offset cur.offset) false) (goal cur' caps spent)
          (more cur' caps spent)
      choose greedy (orElse limit (another cur caps spent) (goal cur caps))
        (orElse limit (goal cur caps spent) (another cur caps)))
    n

theorem step_eq (p : Char → Bool) (goal : Goal) : step p goal = goal.step p := by
  funext cur caps spent
  simp only [step, advance_eq, choose_eq]
  rfl

theorem provided_eq (p : Cursor → Bool) (goal : Goal) :
    provided p goal = goal.provided fun cur _ => p cur := by
  funext cur caps spent
  exact choose_eq ..

theorem exactly_eq (body : Goal → Goal) (goal : Goal) (n : Nat) :
    exactly body goal n = Goal.exactly body goal n := by
  induction n with
  | zero => rfl
  | succ n ih =>
    rw [Goal.exactly, ← ih]
    rfl

/-- Both count down the rounds that are left.  The test whether a round has moved compares the same
offsets. -/
theorem rounds_eq (limit : Option Nat) (body : Goal → Goal) (greedy moving : Bool) (goal : Goal)
    (n : Nat) :
    rounds limit body greedy moving goal n = Goal.rounds limit body greedy moving goal n := by
  induction n with
  | zero => rfl
  | succ n ih =>
    funext cur caps spent
    -- The tests are stated in different words: one compares numbers as the kernel does.
    have hstay (cur' : Cursor) : choose moving (Nat.beq cur'.offset cur.offset) false =
        (moving && cur'.offset == cur.offset) := by
      cases moving with
      | false => rfl
      | true => exact Bool.eq_iff_iff.mpr (by rw [Bool.true_and, beq_iff_eq, ← Nat.beq_eq]; rfl)
    simp only [Goal.rounds, ← ih, ← hstay, ← choose_eq, ← orElse_eq]
    rfl

/-! ### Expressions -/

/-- What `Cursor.back?` answers. -/
def back? (cur : Cursor) (n : Nat) : Option Cursor :=
  Nat.rec (motive := fun _ => Cursor → Option Cursor) some
    (fun _ more cur => Cursor.rec (fun before after offset h =>
      List.casesOn (motive := fun before => offset = before.length → Option Cursor) before
        (fun _ => none)
        (fun x rest h => more ⟨rest, x :: after, offset - 1, pred_eq_length h⟩) h) cur)
    n cur

theorem back?_eq (cur : Cursor) (n : Nat) : back? cur n = cur.back? n := by
  induction n generalizing cur with
  | zero => rfl
  | succ n ih =>
    obtain ⟨before, after, offset, h⟩ := cur
    cases before with
    | nil => rfl
    | cons x rest => exact ih _

/-- What `Regex.run` does for a repetition. -/
def repeated (terms : Terms) (body : Goal → Goal) (least : Nat) (most : Option Nat) (greedy : Bool)
    (goal : Goal) : Goal :=
  exactly body
    (Option.rec (rounds terms.limit body greedy true goal (terms.bound + 1))
      (fun most => rounds terms.limit body greedy false goal (most - least)) most)
    least

/-- What `Regex.run` does for an assertion. -/
def look (terms : Terms) (direction : Direction) (negated : Bool) (body : Goal → Goal)
    (goal : Goal) : Goal := fun cur caps spent =>
  let attempt (goal : Goal) : Verdict :=
    Direction.rec (body goal cur caps spent)
      (fun width => Option.rec (.failed spent) (fun start => body goal start caps spent)
        (back? cur width)) direction
  choose negated (deny terms.limit (attempt Goal.here) (goal cur caps))
    (attempt fun _ caps spent => goal cur caps spent)

theorem repeated_eq (terms : Terms) (body : Regex) (least : Nat) (most : Option Nat) (greedy : Bool)
    (goal : Goal) : repeated terms (body.run terms) least most greedy goal =
      (Regex.repeated body least most greedy).run terms goal := by
  rw [repeated, exactly_eq]
  cases most <;> simp only [rounds_eq, Regex.run]

theorem look_eq (terms : Terms) (direction : Direction) (negated : Bool) (body : Regex)
    (goal : Goal) :
    look terms direction negated (body.run terms) goal =
    (Regex.look direction negated body).run terms goal := by
  funext cur caps spent
  rw [look, Regex.run]
  cases direction with
  | ahead => simp only [choose_eq, deny_eq]
  | behind width =>
    simp only [choose_eq, deny_eq, back?_eq]
    cases cur.back? width <;> rfl

/-- What `Regex.run` does. -/
def run (terms : Terms) (r : Regex) : Goal → Goal :=
  Regex.rec (motive := fun _ => Goal → Goal)
    (fun goal => goal)
    (fun c => step fun x => Nat.beq x.toNat c.toNat)
    (fun cls => step cls.contains)
    (fun kind negated => step fun c => kind.contains c != negated)
    (fun newline => step fun c => newline || c != '\n')
    (fun a => provided a.holds)
    (fun _ _ first second goal => first (second goal))
    (fun _ _ first second goal cur caps spent =>
      orElse terms.limit (first goal cur caps spent) (second goal cur caps))
    (fun name _ body goal start caps spent =>
      body (fun stop caps spent => goal stop ((name, ⟨start, stop⟩) :: caps) spent)
        start caps spent)
    (fun _ least most greedy body => repeated terms body least most greedy)
    (fun direction negated _ body => look terms direction negated body)
    (fun body _ => Regex.run terms (.atomic body))
    (fun name anyCase => Regex.run terms (.backReference name anyCase))
    (fun name => Regex.run terms (.isSet name))
    (fun condition yes no _ _ _ => Regex.run terms (.conditional condition yes no))
    (Regex.run terms .keepOut)
    (Regex.run terms .resume)
    (fun body machine _ => Regex.run terms (.linear body machine))
    (fun negated body back forth _ => Regex.run terms (.lookBack negated body back forth))
    r

/-- The constructs with a function of their own agree with `Regex.run` once their parts do.  The
others are `Regex.run` itself. -/
theorem run_eq (terms : Terms) (r : Regex) : run terms r = r.run terms := by
  induction r with
  | empty => rfl
  | char c =>
    funext goal
    -- Characters are compared by their codes, which the kernel does at once.
    have hc : (fun x : Char => Nat.beq x.toNat c.toNat) = (· == c) :=
      funext fun x => by rw [Bool.eq_iff_iff, Nat.beq_eq, beq_iff_eq, Char.toNat_inj]
    rw [Regex.run, ← hc]
    exact step_eq _ goal
  | oneOf cls => exact funext fun goal => step_eq _ goal
  | category kind negated => exact funext fun goal => step_eq _ goal
  | any newline => exact funext fun goal => step_eq _ goal
  | anchor a => exact funext fun goal => provided_eq _ goal
  | cat a b iha ihb =>
    funext goal
    rw [Regex.run, ← iha, ← ihb]
    rfl
  | alt a b iha ihb =>
    funext goal cur caps spent
    simp only [Regex.run, ← iha, ← ihb, ← orElse_eq]
    rfl
  | group name body ih =>
    funext goal
    rw [Regex.run, ← ih]
    rfl
  | repeated body least most greedy ih =>
    funext goal
    rw [← repeated_eq, ← ih]
    rfl
  | look direction negated body ih =>
    funext goal
    rw [← look_eq, ← ih]
    rfl
  | _ => rfl

/-! ### Searches -/

/-- What `Regex.findFrom` answers. -/
def findFrom (limit : Option Nat) (attempt : Goal) (fuel : Nat) (cur : Cursor) (spent : Nat) :
    Except SearchError (Option Hit) :=
  Nat.rec (motive := fun _ => Cursor → Nat → Except SearchError (Option Hit)) (fun _ _ => .ok none)
    (fun _ more cur spent =>
      Verdict.rec (fun stop captures _ => .ok (some (.ofRun cur stop captures)))
        (fun spent =>
          choose (allows limit spent) (advance cur (fun _ cur => more cur (spent + 1)) (.ok none))
            (.error .budgetExhausted))
        (.error .budgetExhausted) (attempt cur [] spent))
    fuel cur spent

/-- What `Regex.find` answers. -/
def find (r : Regex) (limit : Option Nat) (bound : Nat) (resuming : Bool) (cur : Cursor) :
    Except SearchError (Option Hit) :=
  findFrom limit (run ⟨limit, bound, choose resuming (some cur.offset) none⟩ r Goal.here)
    (bound + 1) cur 0

/-- What `Pattern.hits` answers. -/
def hits (p : Pattern) (text : List Char) : Except PatternError (List Hit) :=
  match Regex.findAllFrom
    (fun resuming => find p.regex p.limit text.length (resuming || p.template.hasDollar))
      (text.length + 2) true (Cursor.ofText text) none with
  | .ok hits => .ok hits
  | .error cause => .error (.unmatchable p.source cause)

/-- A search goes on behind the next character in both, with the same steps back spent. -/
theorem findFrom_eq (limit : Option Nat) (attempt : Goal) (fuel : Nat) (cur : Cursor)
    (spent : Nat) :
    findFrom limit attempt fuel cur spent = Regex.findFrom limit attempt fuel cur spent := by
  induction fuel generalizing cur spent with
  | zero => rfl
  | succ fuel ih =>
    -- One step of the search, as the recursors have it.
    have hsettle : findFrom limit attempt (fuel + 1) cur spent =
        Verdict.rec (fun stop captures _ => .ok (some (.ofRun cur stop captures)))
          (fun spent =>
            choose (allows limit spent)
              (advance cur (fun _ cur => findFrom limit attempt fuel cur (spent + 1)) (.ok none))
              (.error .budgetExhausted))
          (.error .budgetExhausted) (attempt cur [] spent) := rfl
    rw [hsettle, Regex.findFrom]
    cases attempt cur [] spent with
    | failed spent =>
      simp only [ih, advance_eq, choose_eq, allows_eq]
      cases limit.any (· ≤ spent) <;> rfl
    | _ => rfl

theorem find_eq : find = Regex.find := by
  funext r limit bound resuming cur
  rw [find, findFrom_eq, run_eq, choose_eq, Regex.find]

theorem hits_eq : hits = Pattern.hits := by
  funext p text
  rw [hits, find_eq]
  rfl

/-! ### Patches -/

/-- What `Pattern.apply` answers. -/
def apply (p : Pattern) (text : List Char) : Except PatternError (Option (List Char)) := do
  match ← hits p text with
  | [] => return none
  | hits => return some (p.splice (Cursor.ofText text) hits)

/-- What `Pattern.applyAll` answers. -/
def applyAll (ps : List Pattern) (text : List Char) : Except PatternError (List Char) :=
  ps.foldlM (fun text p => do return (← apply p text).getD text) text

/-- What `Patch.Session.step` answers. -/
def stepSession (s : Patch.Session) (rule : Rule) : Except RuleError Patch.Session :=
  match applyAll rule.patterns s.text with
  | .error cause => .error (.notApplied rule.name cause)
  | .ok changed => .ok (if changed = s.text then s else s.fire rule changed)

/-- What `patch` answers. -/
def patch (rules : List Rule) (insertHeader : Bool) (text : List Char) :
    Except RuleError PatchOutcome :=
  Patch.Session.outcome <$> rules.foldlM stepSession (.start text insertHeader)

theorem apply_eq : apply = Pattern.apply := by
  funext p text
  rw [apply, hits_eq]
  rfl

theorem applyAll_eq : applyAll = Pattern.applyAll := by
  funext ps text
  rw [applyAll, apply_eq]
  rfl

theorem stepSession_eq : stepSession = Patch.Session.step := by
  funext s rule
  rw [stepSession, applyAll_eq]
  rfl

/-- **Patches for evaluation.**  The outcome is that of `CApiUpgrade.patch`. -/
theorem patch_eq : patch = CApiUpgrade.patch := by
  funext rules insertHeader text
  rw [patch, stepSession_eq]
  rfl

/-! ### Flows -/

/-- What follows from a number, once the number is known. -/
def forced (n : Nat) (more : Nat → Nat) : Nat := Nat.rec (more 0) (fun n _ => more (n + 1)) n

/-- What `Tracker.saturate` answers. -/
def saturate (t : Tracker) (round : Nat → Nat) (fuel s : Nat) : Nat :=
  Nat.rec (motive := fun _ => Nat → Nat) (fun s => s ||| t.all)
    (fun _ again s => forced (s ||| round s) fun more =>
      choose (Nat.beq more s) s (again more)) fuel s

/-- What `Regex.flow` answers. -/
def flow (t : Tracker) (refer : String → Nat → Nat) (r : Regex) (s : Nat) : Nat :=
  Regex.rec (motive := fun _ => Nat → Nat)
    id
    (fun c => t.next (.char c))
    (fun cls => t.next (.oneOf cls))
    (fun kind negated => t.next (.category kind negated))
    (fun newline => t.next (.any newline))
    (fun _ => id)
    (fun _ _ first second s => forced (first s) fun s => choose (Nat.beq s 0) 0 (second s))
    (fun _ _ first second s => first s ||| second s)
    (fun _ _ body => body)
    (fun _ least _ _ body s =>
      choose (Nat.beq s 0) 0
        (choose (Nat.beq least 0) (saturate t body 64 s) (forced (body s) (saturate t body 64))))
    (fun direction _ _ body s =>
      Direction.rec (choose (Nat.beq t.sink 0) s (s ||| body s &&& t.sink)) (fun _ => s) direction)
    (fun body _ => t.next (.atomic body))
    (fun name _ => refer name)
    (fun name => t.next (.isSet name))
    (fun condition yes no _ _ _ => t.next (.conditional condition yes no))
    (t.next .keepOut)
    (t.next .resume)
    (fun body machine _ => t.next (.linear body machine))
    (fun negated body back forth _ => t.next (.lookBack negated body back forth))
    r s

/-- Nothing is changed by working out a number first. -/
theorem forced_eq (n : Nat) (more : Nat → Nat) : forced n more = more n := by
  cases n <;> rfl

theorem choose_beq_eq (m n yes no : Nat) :
    choose (Nat.beq m n) yes no = if m = n then yes else no :=
  (choose_eq ..).trans (if_congr (iff_of_eq Nat.beq_eq) rfl rfl)

/-- The rounds add the same states and stop at the same set. -/
theorem saturate_eq (t : Tracker) (round : Nat → Nat) (fuel s : Nat) :
    saturate t round fuel s = t.saturate round fuel s := by
  induction fuel generalizing s with
  | zero => rfl
  | succ fuel ih =>
    change forced (s ||| round s)
      (fun more => choose (Nat.beq more s) s (saturate t round fuel more)) = _
    rw [forced_eq, choose_beq_eq, ih, Tracker.saturate]

/-- The two differ only in that sets are worked out first. -/
theorem flow_eq : flow = Regex.flow := by
  funext t refer r s
  induction r generalizing s with
  -- Here and below the first part is brought to its value before the second one starts.
  | cat a b iha ihb =>
    change forced (flow t refer a s) (fun s => choose (Nat.beq s 0) 0 (flow t refer b s)) = _
    rw [forced_eq, choose_beq_eq, iha, ihb, Regex.flow]
  | alt a b iha ihb =>
    rw [Regex.flow, ← iha, ← ihb]
    rfl
  | group name body ih => exact ih s
  | repeated body least most greedy ih =>
    change choose (Nat.beq s 0) 0 (choose (Nat.beq least 0) (saturate t (flow t refer body) 64 s)
      (forced (flow t refer body s) (saturate t (flow t refer body) 64))) = _
    rw [forced_eq, choose_beq_eq, choose_beq_eq, saturate_eq, saturate_eq, funext ih, Regex.flow]
  | look direction negated body ih =>
    cases direction with
    | ahead =>
      rw [Regex.flow, ← ih, ← choose_beq_eq]
      rfl
    | behind width => rfl
  | _ => rfl

/-! ### Answers -/

theorem applyAll_eq_ok {ps : List Pattern} {text new : List Char}
    (h : (applyAll ps text).toOption = some new) : Pattern.applyAll ps text = .ok new := by
  rw [← applyAll_eq]
  exact eq_ok_of_toOption h

/-- What a rule leaves can be read off its evaluation. -/
theorem apply_eq_ok {rule : Rule} {text new : List Char}
    (h : (applyAll rule.patterns text).toOption = some new) : rule.apply text = .ok new :=
  applyAll_eq_ok h

/-- The outcome of a patch can be read off its evaluation. -/
theorem patch_eq_ok {rules : List Rule} {insertHeader : Bool} {text : List Char} {o : PatchOutcome}
    (h : (patch rules insertHeader text).toOption = some o) :
    CApiUpgrade.patch rules insertHeader text = .ok o := by
  rw [← patch_eq]
  exact eq_ok_of_toOption h

end Evaluation

end

end CApiUpgrade
