import CApiUpgrade.Proofs.Budget
import CApiUpgrade.Proofs.Evaluation
import Mathlib.Data.Nat.Find

/-!
# All or nothing

A budget decides whether there is an answer and has no say in what the answer is.  Raising it keeps
every verdict that was reached (`Verdict.Stands`): the two runs read the same text in the same way,
and a step back that the lower limit allows is allowed by the higher one.  From the single run this
goes on to the search for one match, to the search for all matches, and to what is made of them.

So a text has a least budget for a pattern.  From there on the answer is the one of a search without
a limit, with every match replaced, and below it there is none (`Pattern.apply_allOrNothing`).  The
same holds of a whole patch (`patch_allOrNothing`).

The budget is the one limit there is here: that an engine may also give up when too many
alternatives are open at once is left out.
-/

namespace CApiUpgrade

/-! ### Raising a limit -/

/-- The second limit allows all the steps back that the first allows. -/
def Raises (limit limit' : Option Nat) : Prop := ∀ spent, Allows limit spent → Allows limit' spent

theorem raises_none (limit : Option Nat) : Raises limit none := fun spent _ => allows_none spent

theorem raises_some {few many : Nat} (h : few ≤ many) : Raises (some few) (some many) :=
  fun _ ha => allows_some.mpr ((allows_some.mp ha).trans h)

/-- A verdict stands if the other run reaches it too.  A run that exhausts its budget has reached
none. -/
inductive Verdict.Stands : Verdict → Verdict → Prop where
  | same (v : Verdict) : Stands v v
  | exhausted (v : Verdict) : Stands .exhausted v

/-- A step back that is not allowed exhausts the budget. -/
theorem Verdict.orElse_failed_of_not_allows {limit : Option Nat} {spent : Nat}
    {other : Nat → Verdict} (ha : ¬Allows limit (spent + 1)) :
    (Verdict.failed spent).orElse limit other = .exhausted := by
  cases limit with
  | none => exact absurd (allows_none _) ha
  | some most => exact if_neg fun hlt => ha (allows_some.mpr hlt)

/-- A run under a limit, beside one under a higher limit. -/
theorem Verdict.Stands.congruence {limit limit' : Option Nat} (h : Raises limit limit') :
    Verdict.Congruence limit limit' fun _ => Verdict.Stands where
  found _ _ _ := .same _
  failed _ := .same _
  goOn {spent v _ yes yes' no no'} hv hyes hno := by
    cases hv with
    | exhausted => exact .exhausted _
    | same =>
      cases v with
      | found stop caps later => exact hyes stop caps later
      | failed later => exact hno later
      | exhausted => exact .exhausted _
  stepBack {spent other other'} hother := by
    by_cases ha : Allows limit (spent + 1)
    · rw [Verdict.orElse_failed_of_allows ha, Verdict.orElse_failed_of_allows (h _ ha)]
      exact hother
    · rw [Verdict.orElse_failed_of_not_allows ha]
      exact .exhausted _

namespace Regex

variable {limit limit' : Option Nat}

/-- What is found under a limit is found under a higher one. -/
theorem findFrom_of_raises (h : Raises limit limit') {attempt attempt' : Goal}
    (hattempt : Goal.Related (fun _ => Verdict.Stands) attempt attempt') {fuel : Nat} {cur : Cursor}
    {spent : Nat} {o : Option Hit} (ho : findFrom limit attempt fuel cur spent = .ok o) :
    findFrom limit' attempt' fuel cur spent = .ok o := by
  induction fuel generalizing cur spent with
  | zero => exact ho
  | succ fuel ih =>
    rw [findFrom] at ho ⊢
    have hv := hattempt cur [] spent
    revert hv ho
    generalize attempt cur [] spent = v
    generalize attempt' cur [] spent = v'
    intro ho hv
    cases hv with
    | exhausted => cases ho
    | same v =>
      cases v with
      | exhausted => cases ho
      | found stop caps later => exact ho
      | failed later =>
        dsimp only at ho ⊢
        -- The limits are compared here once more: to give up a position is a step back as well.
        cases hgoes : limit.any (· ≤ later) with
        | true => simp [hgoes] at ho
        | false =>
          rw [any_le_eq_false_iff.mpr (h _ (any_le_eq_false_iff.mp hgoes))]
          rw [hgoes] at ho
          cases hnext : cur.next? with
          | none => simpa [hnext] using ho
          | some move =>
            simp only [hnext, Bool.false_eq_true, ↓reduceIte] at ho ⊢
            exact ih ho

theorem find_of_raises (h : Raises limit limit') {r : Regex} {bound : Nat} {resuming : Bool}
    {cur : Cursor} {o : Option Hit} (ho : r.find limit bound resuming cur = .ok o) :
    r.find limit' bound resuming cur = .ok o :=
  have hR := Verdict.Stands.congruence h
  findFrom_of_raises h (r.run_related hR bound _ (Goal.Related.here hR)) ho

/-- A search that gives all answers that another gives finds what the other finds. -/
theorem findAllFrom_of_find {find find' : Bool → Cursor → Except SearchError (Option Hit)}
    (h : ∀ {resuming cur o}, find resuming cur = .ok o → find' resuming cur = .ok o) {fuel : Nat}
    {resuming : Bool} {cur : Cursor} {last : Option Nat} {hits : List Hit}
    (hhits : findAllFrom find fuel resuming cur last = .ok hits) :
    findAllFrom find' fuel resuming cur last = .ok hits := by
  induction fuel generalizing resuming cur last hits with
  | zero => exact hhits
  | succ fuel ih =>
    rw [findAllFrom] at hhits ⊢
    obtain ⟨o, ho, hrest⟩ := bind_eq_ok.mp hhits
    refine bind_eq_ok.mpr ⟨o, h ho, ?_⟩
    cases o with
    | none => exact hrest
    | some hit =>
      dsimp only at hrest ⊢
      cases hempty : hit.isEmpty with
      | false =>
        simp only [hempty, Bool.false_eq_true, ↓reduceIte] at hrest ⊢
        obtain ⟨rest, hbehind, hcons⟩ := bind_eq_ok.mp hrest
        exact bind_eq_ok.mpr ⟨rest, ih hbehind, hcons⟩
      | true =>
        -- Behind an empty match the search goes on one character further, if there is one.
        simp only [hempty, ↓reduceIte] at hrest ⊢
        cases hnext : hit.stop.next? with
        | none => simpa only [hnext] using hrest
        | some move =>
          simp only [hnext] at hrest ⊢
          obtain ⟨rest, hbehind, hcons⟩ := bind_eq_ok.mp hrest
          exact bind_eq_ok.mpr ⟨rest, ih hbehind, hcons⟩

theorem findAll_of_raises (h : Raises limit limit') {r : Regex} {skipping : Bool} {text : List Char}
    {hits : List Hit} (hhits : r.findAll limit skipping text = .ok hits) :
    r.findAll limit' skipping text = .ok hits :=
  findAllFrom_of_find (find_of_raises h) hhits

end Regex

/-! ### Least budgets -/

/-- What is answered within some budget, and within every larger one in the same way, has a least
budget. -/
theorem exists_least_budget {ε α : Type} (run : Nat → Except ε α)
    (hmono : ∀ {few many a}, few ≤ many → run few = .ok a → run many = .ok a)
    (hsome : ∃ a budget, run budget = .ok a) :
    ∃ a least, ∀ budget, if least ≤ budget then run budget = .ok a else ∃ e,
    run budget = .error e := by
  classical
  obtain ⟨a, enough, henough⟩ := hsome
  have hanswered : ∃ budget, run budget = .ok a := ⟨enough, henough⟩
  refine ⟨a, Nat.find hanswered, fun budget => ?_⟩
  split_ifs with hbudget
  · exact hmono hbudget (Nat.find_spec hanswered)
  · cases hrun : run budget with
    | error e => exact ⟨e, rfl⟩
    | ok b =>
      -- Both answers are given within the larger of the two budgets.
      have hsame : run (max budget enough) = .ok a := hmono (le_max_right _ _) henough
      rw [hmono (le_max_left _ _) hrun, Except.ok.injEq] at hsame
      exact absurd (hsame ▸ hrun) (Nat.find_min hanswered (not_le.mp hbudget))

namespace Pattern

variable {p : Pattern} {text : List Char} {few many : Nat}

theorem raises_limit (p : Pattern) (h : few ≤ many) :
    Raises (p.withBudget few).limit (p.withBudget many).limit := by
  rw [limit_withBudget, limit_withBudget]
  split_ifs
  · exact raises_some h
  · exact raises_none _

theorem hits_of_le (h : few ≤ many) {hits : List Hit}
    (hhits : (p.withBudget few).hits text = .ok hits) : (p.withBudget many).hits text = .ok hits :=
  hits_eq_ok.mpr (Regex.findAll_of_raises (p.raises_limit h) (hits_eq_ok.mp hhits))

/-- A search that gives no answer has exhausted its budget. -/
theorem eq_of_hits_eq_error {e : PatternError} (h : p.hits text = .error e) :
    e = .unmatchable p.source .budgetExhausted := by
  rw [Pattern.hits] at h
  split at h
  · cases h
  · exact (Except.error.inj h).symm

/-- Nor is there another reason to leave a text without an answer. -/
theorem eq_of_apply_eq_error {e : PatternError} (h : p.apply text = .error e) :
    e = .unmatchable p.source .budgetExhausted := by
  rw [apply_eq_map] at h
  cases hhits : p.hits text with
  | ok hits => rw [hhits] at h; cases h
  | error cause =>
    rw [hhits] at h
    exact Except.error.inj h ▸ eq_of_hits_eq_error hhits

/-- Without an answer, the budget is exhausted. -/
theorem eq_error_of_toOption (h : (p.apply text).toOption = none) :
    p.apply text = .error (.unmatchable p.source .budgetExhausted) := by
  cases happly : p.apply text with
  | ok o => simp [happly, Except.toOption] at h
  | error e => rw [eq_of_apply_eq_error happly]

/-- An answer within a budget is the answer within a larger one. -/
theorem apply_of_le (h : few ≤ many) {o : Option (List Char)}
    (ho : (p.withBudget few).apply text = .ok o) : (p.withBudget many).apply text = .ok o := by
  rw [apply_eq_map] at ho ⊢
  cases hfew : (p.withBudget few).hits text with
  | error e => rw [hfew] at ho; cases ho
  | ok hits =>
    rw [hfew] at ho
    rw [hits_of_le h hfew, ← ho]
    exact congrArg Except.ok
      ((p.replaced_withBudget many text hits).trans (p.replaced_withBudget few text hits).symm)

/-- The budget has no part in how a pattern is read. -/
theorem parse_withBudget {source template : String} (hp : Pattern.parse source template = .ok p)
    (budget : Nat) : Pattern.parse source template budget = .ok (p.withBudget budget) := by
  rw [Pattern.parse] at hp ⊢
  cases hread : Regex.parse source with
  | error cause => simp [hread] at hp
  | ok read =>
    rw [hread] at hp
    exact congrArg (fun p => Except.ok (withBudget budget p)) (Except.ok.inj hp)

/-- A pattern that is read with another budget is applied with that budget. -/
theorem parse_apply {source template : String} (hp : Pattern.parse source template = .ok p)
    (budget : Nat) (text : List Char) :
    (do (← Pattern.parse source template budget).apply text) =
      (p.withBudget budget).apply text := by
  rw [parse_withBudget hp]
  rfl

theorem source_of_parse {source template : String} (hp : Pattern.parse source template = .ok p) :
    p.source = source := by
  rw [Pattern.parse] at hp
  split at hp
  · exact congrArg Pattern.source (Except.ok.inj hp).symm
  · cases hp

/-- From its least budget on, a text has the matches that a search without a limit finds. -/
theorem exists_hits_eq (p : Pattern) (text : List Char) :
    ∃ hits least, p.regex.findAll none p.template.hasDollar text = .ok hits ∧
      ∀ budget, (p.withBudget budget).hits text =
        if least ≤ budget then .ok hits else .error (.unmatchable p.source .budgetExhausted) := by
  obtain ⟨found, enough, henough⟩ := p.exists_hits text
  obtain ⟨hits, least, hleast⟩ :=
    exists_least_budget (fun budget => (p.withBudget budget).hits text)
    (fun h hfew => hits_of_le h hfew) ⟨found, enough, henough enough le_rfl⟩
  refine ⟨hits, least, ?_, fun budget => ?_⟩
  · have hhits := hleast least
    rw [if_pos le_rfl] at hhits
    have hlimited := hits_eq_ok.mp hhits
    exact Regex.findAll_of_raises (raises_none _) hlimited
  · have hhits := hleast budget
    split_ifs at hhits ⊢
    · exact hhits
    · obtain ⟨e, he⟩ := hhits
      rw [he, eq_of_hits_eq_error he]
      rfl

/-- Replaces an x that does not stand behind an a. -/
def notBehind : Pattern :=
  ⟨"(?<!a)x", .cat (.look (.behind 1) true (.char 'a')) (.char 'x'), ⟨[], []⟩, [.plain "y"],
    defaultBudget⟩

theorem parse_notBehind : Pattern.parse "(?<!a)x" "y" = .ok notBehind :=
  eq_ok_of_toOption (by decide +kernel)

/-- **All or nothing.**  An answer that a written pattern gives within one budget, it gives within
every larger one.  A text has a least budget: from there on every match is replaced that a search
without a limit finds, and below it the only answer is that the budget is exhausted. -/
theorem apply_allOrNothing {source template : String} (hp : Pattern.parse source template = .ok p)
    (text : List Char) :
    (∀ few many o, few ≤ many → (do (← Pattern.parse source template few).apply text) = .ok o →
      (do (← Pattern.parse source template many).apply text) = .ok o) ∧
    ∃ hits least, p.regex.findAll none p.template.hasDollar text = .ok hits ∧
      ∀ budget, (do (← Pattern.parse source template budget).apply text) =
        if least ≤ budget then .ok (p.replaced text hits) else .error
          (.unmatchable source .budgetExhausted) := by
  simp only [parse_apply hp]
  refine ⟨fun few many o h ho => apply_of_le h ho, ?_⟩
  obtain ⟨hits, least, hall, hhits⟩ := p.exists_hits_eq text
  refine ⟨hits, least, hall, fun budget => ?_⟩
  rw [apply_eq_map, hhits, source_of_parse hp]
  split_ifs
  · exact congrArg Except.ok (p.replaced_withBudget budget text hits)
  · rfl

/-- Within a budget of seven steps back, the first match is found but not the second. -/
theorem apply_allOrNothing_second :
    Pattern.parse "(?<!a)x" "y" = .ok notBehind ∧
      (do (← Pattern.parse "(?<!a)x" "y" 7).apply "x ax x".toList) =
        .error (.unmatchable "(?<!a)x" .budgetExhausted) ∧
      ∀ many ≥ 8, (do (← Pattern.parse "(?<!a)x" "y" many).apply "x ax x".toList) =
      .ok (some "y ax y".toList) := by
  have hfew : (do (← Pattern.parse "(?<!a)x" "y" 7).apply "x ax x".toList) =
      .error (.unmatchable "(?<!a)x" .budgetExhausted) := by
    rw [parse_apply parse_notBehind]
    exact eq_error_of_toOption (p := notBehind.withBudget 7) (by decide +kernel)
  have hmany : (do (← Pattern.parse "(?<!a)x" "y" 8).apply "x ax x".toList) =
      .ok (some "y ax y".toList) := by
    rw [parse_apply parse_notBehind]
    exact eq_ok_of_toOption (by decide +kernel)
  have hkept := (apply_allOrNothing parse_notBehind "x ax x".toList).1
  exact ⟨parse_notBehind, hfew, fun many h => hkept 8 many _ h hmany⟩

/-! ### Patches -/

/-- What several patterns leave within a budget, they leave within a larger one. -/
theorem applyAll_of_le (h : few ≤ many) {ps : List Pattern} {text out : List Char}
    (hout : applyAll (ps.map (withBudget few)) text = .ok out) :
    applyAll (ps.map (withBudget many)) text = .ok out := by
  induction ps generalizing text with
  | nil => exact hout
  | cons p ps ih =>
    obtain ⟨o, ho, hrest⟩ := applyAll_cons_eq_ok.mp hout
    exact applyAll_cons_eq_ok.mpr ⟨o, apply_of_le h ho, ih hrest⟩

theorem exists_of_applyAll_eq_error {ps : List Pattern} {text : List Char} {e : PatternError}
    (h : applyAll ps text = .error e) : ∃ p ∈ ps, e = .unmatchable p.source .budgetExhausted := by
  induction ps generalizing text with
  | nil => cases h
  | cons p ps ih =>
    rw [applyAll, List.foldlM_cons] at h
    obtain hfirst | ⟨_, -, hrest⟩ := bind_eq_error.mp h
    · obtain happly | ⟨_, -, hnever⟩ := bind_eq_error.mp hfirst
      · exact ⟨p, List.mem_cons_self, eq_of_apply_eq_error happly⟩
      · cases hnever
    · obtain ⟨q, hq, he⟩ := ih hrest
      exact ⟨q, List.mem_cons_of_mem _ hq, he⟩

end Pattern

namespace Patch.Session

variable {rules : List Rule} {s : Session}

/-- What rules leave within a budget, one after the other, they leave within a larger one. -/
theorem foldlM_step_of_le {few many : Nat} (h : few ≤ many) {s' : Session}
    (hs' : (rules.map (Rule.withBudget few)).foldlM step s = .ok s') :
    (rules.map (Rule.withBudget many)).foldlM step s = .ok s' := by
  induction rules generalizing s with
  | nil => exact hs'
  | cons rule rules ih =>
    obtain ⟨s₁, hs₁, hrest⟩ := foldlM_step_cons.mp hs'
    refine foldlM_step_cons.mpr ⟨s₁, ?_, ih hrest⟩
    obtain ⟨changed, hchanged, -⟩ := step_cases hs₁
    have happly : (rule.withBudget many).apply s.text = .ok changed :=
      Pattern.applyAll_of_le h hchanged
    rw [step, hchanged] at hs₁
    rw [step, happly]
    exact hs₁

/-- If rules give no answer, then one of their patterns has exhausted its budget. -/
theorem exists_of_foldlM_step_eq_error {e : RuleError} (h : rules.foldlM step s = .error e) :
    ∃ rule ∈ rules, ∃ p ∈ rule.patterns,
    e = .notApplied rule.name (.unmatchable p.source .budgetExhausted) := by
  induction rules generalizing s with
  | nil => cases h
  | cons rule rules ih =>
    rw [List.foldlM_cons] at h
    obtain hfirst | ⟨_, -, hrest⟩ := bind_eq_error.mp h
    · rw [step] at hfirst
      cases happly : rule.apply s.text with
      | ok changed => simp [happly] at hfirst
      | error cause =>
        obtain ⟨p, hp, rfl⟩ := Pattern.exists_of_applyAll_eq_error happly
        rw [happly] at hfirst
        exact ⟨rule, List.mem_cons_self, p, hp, (Except.error.inj hfirst).symm⟩
    · obtain ⟨later, hlater, he⟩ := ih hrest
      exact ⟨later, List.mem_cons_of_mem _ hlater, he⟩

end Patch.Session

open Patch

/-- **No patch in part.**  A text has a least budget for a list of rules.  From there on they are
all applied, always with the same outcome; below it, one of their patterns runs out of its budget
and nothing is applied. -/
theorem patch_allOrNothing (rules : List Rule) (insertHeader : Bool) (text : List Char) :
    ∃ o least, ∀ budget,
    if least ≤ budget then patch (rules.map (Rule.withBudget budget)) insertHeader text = .ok o
      else ∃ rule ∈ rules, ∃ p ∈ rule.patterns,
      patch (rules.map (Rule.withBudget budget)) insertHeader text =
        .error (.notApplied rule.name (.unmatchable p.source .budgetExhausted)) := by
  obtain ⟨found, enough, henough⟩ := exists_budget rules insertHeader text
  obtain ⟨o, least, hleast⟩ :=
    exists_least_budget (fun budget => patch (rules.map (Rule.withBudget budget)) insertHeader text)
      (fun h hfew => by
        obtain ⟨s, hs, houtcome⟩ := patch_eq_ok.mp hfew
        exact patch_eq_ok.mpr ⟨s, Session.foldlM_step_of_le h hs, houtcome⟩)
      ⟨found, enough, henough enough le_rfl⟩
  refine ⟨o, least, fun budget => ?_⟩
  have hbudget := hleast budget
  split_ifs at hbudget ⊢
  · exact hbudget
  · obtain ⟨e, he⟩ := hbudget
    -- The budget is written into the rules, but it changes neither their names nor what their
    -- patterns are.
    obtain ⟨_, hrule, _, hp, rfl⟩ := Session.exists_of_foldlM_step_eq_error (patch_eq_error.mp he)
    obtain ⟨rule, hmem, rfl⟩ := List.mem_map.mp hrule
    obtain ⟨p, hmem', rfl⟩ := List.mem_map.mp hp
    exact ⟨rule, hmem, p, hmem', he⟩

end CApiUpgrade
