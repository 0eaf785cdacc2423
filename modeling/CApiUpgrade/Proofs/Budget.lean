import CApiUpgrade.Proofs.Patching
import CApiUpgrade.Proofs.SideBySide

/-!
# Searches with enough budget

A search that takes more steps back than its budget allows gives no answer, and then the text is not
patched at all.  From some budget on, every search of a patch ends, and a larger budget changes
nothing any more (`exists_budget`).  The budget is the one limit there is here: that an engine may
also give up when too many alternatives are open at once is left out.

The proof compares a run with a limit and the run without one.  The two go the same way as long as
the limit allows it (`Verdict.Pays`), and no step back is ever taken off the count.
-/

namespace CApiUpgrade

/-- A limit allows a number of steps back. -/
def Allows (limit : Option Nat) (spent : Nat) : Prop := ∀ most, limit = some most → spent ≤ most

theorem allows_none (spent : Nat) : Allows none spent := fun _ hmost => by cases hmost

theorem allows_some {most spent : Nat} : Allows (some most) spent ↔ spent ≤ most :=
  ⟨fun h => h most rfl, fun h _ hmost => Option.some.inj hmost ▸ h⟩

theorem Allows.mono {limit : Option Nat} {m n : Nat} (h : Allows limit n) (hmn : m ≤ n) :
    Allows limit m :=
  fun most hmost => hmn.trans (h most hmost)

/-- A search does not give up a position where the limit does not allow another step back. -/
theorem any_le_eq_false_iff {limit : Option Nat} {spent : Nat} :
    limit.any (· ≤ spent) = false ↔ Allows limit (spent + 1) := by
  cases limit with
  | none => exact ⟨fun _ => allows_none _, fun _ => rfl⟩
  | some most =>
    rw [allows_some, Option.any_some, decide_eq_false_iff_not]
    exact Nat.not_le

/-- A step back that the limit allows leads on to what comes next. -/
theorem Verdict.orElse_failed_of_allows {limit : Option Nat} {spent : Nat} {other : Nat → Verdict}
    (ha : Allows limit (spent + 1)) :
    (Verdict.failed spent).orElse limit other = other (spent + 1) := by
  cases limit with
  | none => rfl
  | some most => exact if_pos (allows_some.mp ha)

/-- A run that started after `spent` steps back ends without a limit, and with a limit that allows
what it spends it ends in the same way. -/
inductive Verdict.Pays (limit : Option Nat) (spent : Nat) : Verdict → Verdict → Prop where
  | found {stop : Cursor} {caps : Captures} {total : Nat} {v : Verdict} : spent ≤ total →
    (Allows limit total → v = .found stop caps total) → Pays limit spent (.found stop caps total) v
  | failed {total : Nat} {v : Verdict} : spent ≤ total → (Allows limit total → v = .failed total) →
    Pays limit spent (.failed total) v

namespace Verdict.Pays

variable {limit : Option Nat} {spent later : Nat} {v v' : Verdict}

/-- What holds of a run from a later count on holds of a run that gets there. -/
theorem of_later {w : Verdict} (h : Pays limit later v v') (hle : spent ≤ later)
    (hw : Allows limit later → w = v') : Pays limit spent v w := by
  cases h with
  | found hlater hv => exact .found (hle.trans hlater) fun ha => (hw (ha.mono hlater)).trans (hv ha)
  | failed hlater hv =>
    exact .failed (hle.trans hlater) fun ha => (hw (ha.mono hlater)).trans (hv ha)

/-- A run without a limit, beside one with a limit. -/
theorem congruence (limit : Option Nat) : Congruence none limit (Pays limit) where
  found _ _ _ := .found le_rfl fun _ => rfl
  failed _ := .failed le_rfl fun _ => rfl
  goOn h hyes hno := by
    cases h with
    | found hle hv => exact (hyes _ _ _).of_later hle fun ha => by rw [hv ha]; rfl
    | failed hle hv => exact (hno _).of_later hle fun ha => by rw [hv ha]; rfl
  stepBack h := h.of_later (Nat.le_succ _) orElse_failed_of_allows

end Verdict.Pays

/-! ### Runs -/

/-- Two goals that are reached alike, one without a limit and one with a limit that allows what is
spent. -/
def Goal.Pays (limit : Option Nat) (goal goal' : Goal) : Prop :=
  ∀ cur caps spent, Verdict.Pays limit spent (goal cur caps spent) (goal' cur caps spent)

theorem Goal.Pays.here (limit : Option Nat) : Goal.Pays limit Goal.here Goal.here :=
  fun _ _ _ => .found le_rfl fun _ => rfl

namespace Regex

/-- **Runs with and without a limit.**  They go the same way as far as the limit allows it. -/
theorem run_pays (r : Regex) (limit : Option Nat) (bound : Nat) (origin : Option Nat)
    {goal goal' : Goal} (h : Goal.Pays limit goal goal') :
    Goal.Pays limit (r.run ⟨none, bound, origin⟩ goal) (r.run ⟨limit, bound, origin⟩ goal') :=
  r.run_related (Verdict.Pays.congruence limit) bound origin h

/-! ### Searches -/

/-- A search ends in the same way with every limit that allows enough. -/
theorem exists_findFrom (r : Regex) (bound : Nat) (origin : Option Nat) (fuel : Nat)
    (cur : Cursor) (spent : Nat) : ∃ o least, ∀ limit, Allows limit least →
      findFrom limit (r.run ⟨limit, bound, origin⟩ Goal.here) fuel cur spent = .ok o := by
  induction fuel generalizing cur spent with
  | zero => exact ⟨none, 0, fun _ _ => rfl⟩
  | succ fuel ih =>
    have hpays := fun limit => r.run_pays limit bound origin (Goal.Pays.here limit) cur [] spent
    generalize r.run ⟨none, bound, origin⟩ Goal.here cur [] spent = v at hpays
    cases v with
    | exhausted => cases hpays none
    | found stop caps total =>
      refine ⟨some (.ofRun cur stop caps), total, fun limit ha => ?_⟩
      cases hpays limit with
      | found _ hv => rw [findFrom, hv ha]
    | failed total =>
      -- Giving up the position is a step back as well.
      cases hnext : cur.next? with
      | none =>
        refine ⟨none, total + 1, fun limit ha => ?_⟩
        cases hpays limit with
        | failed _ hv =>
          rw [findFrom, hv (ha.mono (Nat.le_succ total))]
          simp only [any_le_eq_false_iff.mpr ha, Bool.false_eq_true, ↓reduceIte, hnext]
      | some move =>
        obtain ⟨o, least, hrest⟩ := ih move.2 (total + 1)
        refine ⟨o, max (total + 1) least, fun limit ha => ?_⟩
        have hgiven : Allows limit (total + 1) := ha.mono (le_max_left _ _)
        cases hpays limit with
        | failed _ hv =>
          rw [findFrom, hv (hgiven.mono (Nat.le_succ total))]
          simp only [any_le_eq_false_iff.mpr hgiven, Bool.false_eq_true, ↓reduceIte, hnext]
          exact hrest limit (ha.mono (le_max_right _ _))

theorem exists_findAllFrom (r : Regex) (bound : Nat) (skipping : Bool) (fuel : Nat)
    (resuming : Bool) (cur : Cursor) (last : Option Nat) :
    ∃ hits least, ∀ limit, Allows limit least →
      findAllFrom (fun resuming => r.find limit bound (resuming || skipping)) fuel
        resuming cur last = .ok hits := by
  induction fuel generalizing resuming cur last with
  | zero => exact ⟨[], 0, fun _ _ => rfl⟩
  | succ fuel ih =>
    obtain ⟨o, least, hfind⟩ := r.exists_findFrom bound
      (if resuming || skipping then some cur.offset else none) (bound + 1) cur 0
    cases o with
    | none =>
      refine ⟨[], least, fun limit ha => ?_⟩
      rw [findAllFrom, find, hfind limit ha]
      rfl
    | some hit =>
      -- The search resumes behind the match, one character further if the match is empty.
      cases hempty : hit.isEmpty with
      | false =>
        obtain ⟨rest, least', hrest⟩ := ih true hit.stop (some hit.stop.offset)
        refine ⟨hit :: rest, max least least', fun limit ha => ?_⟩
        rw [findAllFrom, find, hfind limit (ha.mono (le_max_left _ _))]
        simp only [bind, Except.bind, hempty, Bool.false_eq_true, ↓reduceIte,
          hrest limit (ha.mono (le_max_right _ _))]
        rfl
      | true =>
        cases hnext : hit.stop.next? with
        | none =>
          refine ⟨if last == some hit.stop.offset then [] else [hit], least, fun limit ha => ?_⟩
          rw [findAllFrom, find, hfind limit ha]
          simp only [bind, Except.bind, hempty, ↓reduceIte, hnext]
          rfl
        | some move =>
          obtain ⟨rest, least', hrest⟩ := ih false move.2 (some hit.stop.offset)
          refine ⟨if last == some hit.stop.offset then rest else hit :: rest, max least least',
            fun limit ha => ?_⟩
          rw [findAllFrom, find, hfind limit (ha.mono (le_max_left _ _))]
          simp only [bind, Except.bind, hempty, ↓reduceIte, hnext,
            hrest limit (ha.mono (le_max_right _ _))]
          rfl

end Regex

/-! ### Patches -/

/-- The same pattern with another budget. -/
def Pattern.withBudget (budget : Nat) (p : Pattern) : Pattern := { p with budget := budget }

/-- The same rule, each search with another budget. -/
def Rule.withBudget (budget : Nat) (rule : Rule) : Rule :=
  { rule with patterns := rule.patterns.map (Pattern.withBudget budget) }

/-- All patterns of the catalog have the usual budget. -/
theorem Catalog.withBudget_default {rule : Rule} (hr : rule ∈ rules) :
    rule.withBudget Pattern.defaultBudget = rule := by
  have hall : rules.all (fun rule => rule.patterns.all fun p => p.budget == Pattern.defaultBudget) =
      true := by
    decide +kernel
  have hsame : rule.patterns.map (Pattern.withBudget Pattern.defaultBudget) = rule.patterns := by
    refine (List.map_congr_left fun p hp => ?_).trans (List.map_id _)
    have hbudget := Rule.of_all_patterns hall hr hp
    rw [beq_iff_eq] at hbudget
    rw [Pattern.withBudget, ← hbudget]
    rfl
  rw [Rule.withBudget, hsame]

namespace Pattern

theorem Regular.withBudget {p : Pattern} (hp : p.Regular) (budget : Nat) :
    (p.withBudget budget).Regular :=
  ⟨hp.basic, hp.once, hp.wide, hp.whole, hp.groups, hp.named, hp.unnumbered⟩

theorem applyAll_append_eq_ok {ps qs : List Pattern} {text out : List Char} :
    applyAll (ps ++ qs) text = .ok out ↔ ∃ mid, applyAll ps text = .ok mid ∧
    applyAll qs mid = .ok out := by
  rw [applyAll, List.foldlM_append]
  exact bind_eq_ok

/-- The budget has no part in a pass. -/
theorem Pass.withBudget {p : Pattern} {bound : Nat} {cur : Cursor} {hits : List Hit}
    {out : List Char} (h : p.Pass bound cur hits out) (budget : Nat) :
    (p.withBudget budget).Pass bound cur hits out := by
  induction h with
  | done hafter ha => exact .done hafter ha
  | skip ha hn _ ih => exact .skip ha hn ih
  | hit ha _ ih => exact Pass.hit (p := Pattern.withBudget budget _) ha ih

theorem splice_withBudget (p : Pattern) (budget : Nat) (cur : Cursor) (hits : List Hit) :
    (p.withBudget budget).splice cur hits = p.splice cur hits := by
  induction hits generalizing cur with
  | nil => rfl
  | cons hit rest ih =>
    rw [splice, splice, ih]
    rfl

theorem limit_withBudget (p : Pattern) (budget : Nat) :
    (p.withBudget budget).limit = if p.regex.isCharged then some budget else none := rfl

theorem allows_limit (p : Pattern) {budget n : Nat} (h : n ≤ budget) :
    Allows (p.withBudget budget).limit n := by
  rw [limit_withBudget]
  split_ifs
  · rintro most ⟨⟩
    exact h
  · rintro most ⟨⟩

theorem hits_eq_ok {p : Pattern} {text : List Char} {hits : List Hit} :
    p.hits text = .ok hits ↔ p.regex.findAll p.limit p.template.hasDollar text = .ok hits := by
  rw [Pattern.hits]
  cases p.regex.findAll p.limit p.template.hasDollar text <;> simp

theorem exists_hits (p : Pattern) (text : List Char) :
    ∃ hits least, ∀ budget ≥ least, (p.withBudget budget).hits text = .ok hits := by
  obtain ⟨hits, least, hhits⟩ :=
    p.regex.exists_findAllFrom text.length p.template.hasDollar (text.length + 2)
    true (Cursor.ofText text) none
  exact ⟨hits, least, fun budget hbudget => hits_eq_ok.mpr (hhits _ (p.allows_limit hbudget))⟩

/-- The text with the given matches replaced, or `none` if there are none. -/
def replaced (p : Pattern) (text : List Char) (hits : List Hit) : Option (List Char) :=
  if hits = [] then none else some (p.splice (Cursor.ofText text) hits)

theorem replaced_withBudget (p : Pattern) (budget : Nat) (text : List Char) (hits : List Hit) :
    (p.withBudget budget).replaced text hits = p.replaced text hits := by
  rw [replaced, replaced, splice_withBudget]

theorem apply_eq_map (p : Pattern) (text : List Char) :
    p.apply text = (p.hits text).map (p.replaced text) := by
  rw [apply]
  cases p.hits text with
  | error cause => rfl
  | ok hits => cases hits <;> rfl

theorem exists_apply (p : Pattern) (text : List Char) :
    ∃ o least, ∀ budget ≥ least, (p.withBudget budget).apply text = .ok o := by
  obtain ⟨hits, least, hhits⟩ := p.exists_hits text
  refine ⟨p.replaced text hits, least, fun budget hbudget => ?_⟩
  rw [apply_eq_map, hhits budget hbudget]
  exact congrArg Except.ok (p.replaced_withBudget budget text hits)

theorem exists_applyAll (ps : List Pattern) (text : List Char) :
    ∃ out least, ∀ budget ≥ least, applyAll (ps.map (withBudget budget)) text = .ok out := by
  induction ps generalizing text with
  | nil => exact ⟨text, 0, fun _ _ => rfl⟩
  | cons p ps ih =>
    obtain ⟨o, least, ho⟩ := p.exists_apply text
    obtain ⟨out, least', hout⟩ := ih (o.getD text)
    refine ⟨out, max least least', fun budget hbudget => ?_⟩
    exact applyAll_cons_eq_ok.mpr ⟨o, ho budget ((le_max_left _ _).trans hbudget),
      hout budget ((le_max_right _ _).trans hbudget)⟩

end Pattern

open Patch in
/-- **Enough budget.**  Whatever rules are applied to a text, from some budget on they are all
applied, and the outcome is always the same. -/
theorem exists_budget (rules : List Rule) (insertHeader : Bool) (text : List Char) :
    ∃ o least, ∀ budget ≥ least, patch (rules.map (Rule.withBudget budget)) insertHeader text =
    .ok o := by
  suffices hrun : ∀ s : Session, ∃ s' least, ∀ budget ≥ least,
      (rules.map (Rule.withBudget budget)).foldlM Session.step s = .ok s' by
    obtain ⟨s', least, hs'⟩ := hrun (.start text insertHeader)
    exact ⟨s'.outcome, least, fun budget hbudget => patch_eq_ok.mpr ⟨s', hs' budget hbudget, rfl⟩⟩
  induction rules with
  | nil => exact fun s => ⟨s, 0, fun _ _ => rfl⟩
  | cons rule rules ih =>
    intro s
    obtain ⟨changed, least, hchanged⟩ := Pattern.exists_applyAll rule.patterns s.text
    obtain ⟨s', least', hs'⟩ := ih (if changed = s.text then s else s.fire rule changed)
    refine ⟨s', max least least', fun budget hbudget => Session.foldlM_step_cons.mpr ⟨_, ?_,
      hs' budget ((le_max_right _ _).trans hbudget)⟩⟩
    have happly : (rule.withBudget budget).apply s.text = .ok changed :=
      hchanged budget ((le_max_left _ _).trans hbudget)
    rw [Session.step, happly]
    rfl

end CApiUpgrade
