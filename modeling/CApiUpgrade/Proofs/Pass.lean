import CApiUpgrade.Catalog
import CApiUpgrade.Proofs.Spelling

/-!
# A pass of a pattern over a text

`Pattern.apply` searches for one match after another and puts the text together afterwards.  Seen
from the text it is a single *pass*: at each position either a match starts, which is replaced and
jumped over, or one character is copied.  `Pattern.Pass` is this reading, and `Pattern.pass_of_hits`
says that an application which succeeds is such a pass.  The budget has no part in it.

`Pattern.Regular` collects what the patterns of the catalog have in common: they are basic, every
group can match only once, and no match is empty.  `Catalog.regular` checks it.
-/

namespace CApiUpgrade

/-! ### Attempts -/

namespace Regex

/-- The preferred match that starts at a position of a text of at most `bound` characters. -/
def attempt (r : Regex) (bound : Nat) (cur : Cursor) : Option Way :=
  (r.ways ⟨none, bound, none⟩ cur []).head?

/-- Neither the limit nor the start of the search has a part in what a basic expression matches. -/
theorem Basic.ways_eq {r : Regex} (hr : r.Basic) (terms : Terms) :
    r.ways terms = r.ways ⟨none, terms.bound, none⟩ := by
  induction hr with
  | one h => rw [ways_of_takes? h, ways_of_takes? h]
  | cat _ _ iha ihb | alt _ _ iha ihb => funext cur caps; simp only [ways, iha, ihb]
  | group name _ ih => funext cur caps; simp only [ways, ih]
  | repeated least most greedy _ ih => funext cur caps; cases most <;> simp only [ways, ih]
  | look direction _ ih => funext cur caps; cases direction <;> simp only [ways, ih]
  | _ => rfl

theorem Basic.attempt_answers {r : Regex} (hr : r.Basic) (terms : Terms) (cur : Cursor)
    (spent : Nat) :
    (r.run terms Goal.here cur [] spent).Answers (r.attempt terms.bound cur) := by
  rw [attempt, ← hr.ways_eq terms]
  exact r.run_here_answers terms cur [] spent

/-- From one position to another without a match in between. -/
inductive Skips (r : Regex) (bound : Nat) : Cursor → List Char → Cursor → Prop where
  | refl (cur : Cursor) : Skips r bound cur [] cur
  | step {cur next stop : Cursor} {x : Char} {w : List Char} : r.attempt bound cur = none →
    cur.next? = some (x, next) → Skips r bound next w stop → Skips r bound cur (x :: w) stop

theorem Skips.leads {r : Regex} {bound : Nat} {cur stop : Cursor} {w : List Char}
    (h : r.Skips bound cur w stop) : cur.Leads w stop := by
  induction h with
  | refl cur => exact .refl cur
  | step _ hn _ ih => exact (Cursor.leads_of_next? hn).trans ih

/-- A search that gives an answer passes the positions without a match and stops at the first match,
or at the end of the text. -/
theorem Basic.skips_of_findFrom {r : Regex} (hr : r.Basic) {limit : Option Nat} {terms : Terms}
    {fuel : Nat} {cur : Cursor} {spent : Nat} {o : Option Hit} (hfuel : cur.after.length < fuel)
    (h : findFrom limit (r.run terms Goal.here) fuel cur spent = .ok o) :
    ∃ w pos, r.Skips terms.bound cur w pos ∧
      ((o = none ∧ pos.after = [] ∧ r.attempt terms.bound pos = none) ∨
        ∃ stop caps, r.attempt terms.bound pos = some (stop, caps) ∧
          o = some (.ofRun pos stop caps)) := by
  induction fuel generalizing cur spent with
  | zero => omega
  | succ fuel ih =>
    have hanswer := hr.attempt_answers terms cur spent
    rw [findFrom] at h
    revert hanswer h
    generalize r.run terms Goal.here cur [] spent = v
    generalize ha : r.attempt terms.bound cur = a
    intro h hanswer
    cases hanswer with
    | exhausted => simp at h
    | found stop caps spent' =>
      simp only [Except.ok.injEq] at h
      exact ⟨[], cur, .refl cur, .inr ⟨stop, caps, ha, h.symm⟩⟩
    | failed spent' =>
      dsimp only at h
      split_ifs at h
      cases hn : cur.next? with
      | none =>
        simp only [hn, Except.ok.injEq] at h
        exact ⟨[], cur, .refl cur, .inl ⟨h.symm, Cursor.next?_eq_none hn, ha⟩⟩
      | some move =>
        obtain ⟨x, next⟩ := move
        simp only [hn] at h
        have hlen := congrArg List.length (Cursor.leads_of_next? hn).after
        simp only [List.length_append, List.length_cons, List.length_nil] at hlen
        obtain ⟨w, pos, hskips, hrest⟩ := ih (by omega) h
        exact ⟨x :: w, pos, .step ha hn hskips, hrest⟩

end Regex

/-! ### Templates -/

namespace Template

/-- The text of a template when every group stands for one text, or for none. -/
def fill (texts : String → Option (List Char)) (t : Template) : List Char :=
  t.flatMap fun
    | .plain text => text.toList
    | .group name => (texts name).getD []

theorem fill_plain (texts : String → Option (List Char)) (text : String) (t : Template) :
    fill texts (.plain text :: t) = text.toList ++ fill texts t := rfl

theorem fill_group (texts : String → Option (List Char)) (name : String) (t : Template) :
    fill texts (.group name :: t) = (texts name).getD [] ++ fill texts t := rfl

/-- The names of the groups that a template refers to. -/
def references (t : Template) : List String :=
  t.filterMap fun
    | .plain _ => none
    | .group name => some name

/-- A character of what a template leaves stands in one of its plain parts or in the text of one of
its groups. -/
theorem mem_fill {t : Template} {texts : String → Option (List Char)} {c : Char}
    (h : c ∈ t.fill texts) : (∃ text, .plain text ∈ t ∧ c ∈ text.toList) ∨
      ∃ n ∈ t.references, ∃ u, texts n = some u ∧ c ∈ u := by
  obtain ⟨part, hpart, hc⟩ := List.mem_flatMap.mp h
  cases part with
  | plain text => exact .inl ⟨text, hpart, hc⟩
  | group name =>
    refine .inr ⟨name, List.mem_filterMap.mpr ⟨_, hpart, rfl⟩, ?_⟩
    cases hu : texts name with
    | none => simp [hu] at hc
    | some u => exact ⟨u, rfl, by simpa [hu] using hc⟩

end Template

/-! ### Regular patterns -/

/-- What the patterns of the catalog have in common. -/
structure Pattern.Regular (p : Pattern) : Prop where
  /-- The expression uses nothing but basic constructs. -/
  basic : p.regex.Basic
  /-- No group can match twice. -/
  once : p.regex.setsOnce = true
  /-- No match is empty. -/
  wide : 0 < p.regex.minWidth
  /-- The whole match starts where it was tried. -/
  whole : wholeMatch ∉ p.regex.groups
  /-- The groups are known by the names that the expression gives them. -/
  groups : p.groups = .of p.regex
  /-- The template refers to groups that the expression sets. -/
  named : ∀ n ∈ p.template.references, n ∈ p.regex.bodies.map Prod.fst
  /-- It refers to them by name. -/
  unnumbered : ∀ n ∈ p.template.references, Text.number? n = none

namespace Pattern

/-- Whether a pattern is regular. -/
def isRegular (p : Pattern) : Bool :=
  p.regex.isBasic && p.regex.setsOnce && decide (0 < p.regex.minWidth) &&
    decide (wholeMatch ∉ p.regex.groups) && decide (p.groups.keys = p.regex.groups) &&
    decide (p.groups.names = p.regex.groups.map fun name => (name, name)) &&
    p.template.references.all fun n =>
      decide (n ∈ p.regex.bodies.map Prod.fst) && (Text.number? n).isNone

theorem regular_of_isRegular {p : Pattern} (h : p.isRegular = true) : p.Regular := by
  simp only [isRegular, Bool.and_eq_true, decide_eq_true_eq, List.all_eq_true,
    Option.isNone_iff_eq_none] at h
  obtain ⟨⟨⟨⟨⟨⟨hbasic, honce⟩, hwide⟩, hwhole⟩, hkeys⟩, hnames⟩, hrefs⟩ := h
  refine ⟨Regex.basic_of_isBasic hbasic, honce, hwide, hwhole, ?_, fun n hn => (hrefs n hn).1,
    fun n hn => (hrefs n hn).2⟩
  obtain ⟨_, _, groups, _, _⟩ := p
  obtain ⟨_, _⟩ := groups
  simp only at hkeys hnames
  rw [hkeys, hnames]
  rfl

/-- The preferred match of a pattern that starts at a position. -/
def attempt (p : Pattern) (bound : Nat) (cur : Cursor) : Option Way :=
  p.regex.attempt bound cur

namespace Regular

variable {p : Pattern} {bound : Nat} {cur stop : Cursor} {caps : Captures}

/-- A match spells its text with every group standing for what it has captured. -/
theorem reads (hp : p.Regular) (h : p.attempt bound cur = some (stop, caps)) :
    ∃ m, cur.Leads m stop ∧ p.regex.Spells (.of caps.textOf) m := by
  have hmem : (stop, caps) ∈ p.regex.ways ⟨none, bound, none⟩ cur [] := List.mem_of_head? h
  obtain ⟨m, new, hl, -, -, hs⟩ := hp.basic.reads_of_mem_ways hp.once (by simp) hmem
  exact ⟨m, hl, hs caps.textOf (fun _ _ => rfl) (by simp)⟩

theorem ofRun_eq (hp : p.Regular) (h : p.attempt bound cur = some (stop, caps)) :
    Hit.ofRun cur stop caps = ⟨cur, stop, caps⟩ := by
  have hmem : (stop, caps) ∈ p.regex.ways ⟨none, bound, none⟩ cur [] := List.mem_of_head? h
  obtain ⟨m, new, -, hcaps, hnew, -⟩ := hp.basic.reads_of_mem_ways hp.once (by simp) hmem
  have hnone : caps.lookup wholeMatch = none := by
    have hne : ∀ e ∈ new, e.1 ≠ wholeMatch := fun e he heq => hp.whole (heq ▸ hnew e he)
    rw [hcaps, Captures.lookup_append_of_notMem hne]
    rfl
  simp [Hit.ofRun, hnone]

/-- A match is not empty. -/
theorem offset_lt (hp : p.Regular) (h : p.attempt bound cur = some (stop, caps)) :
    cur.offset < stop.offset := by
  obtain ⟨m, hl, hs⟩ := hp.reads h
  have hwide := hp.basic.minWidth_le hs
  have hpos := hp.wide
  rw [hl.offset]
  omega

/-- What replaces a match is the template, filled with the captures. -/
theorem expand_eq_fill (hp : p.Regular) (cur stop : Cursor) (caps : Captures) :
    p.template.expand p.groups ⟨cur, stop, caps⟩ = p.template.fill caps.textOf := by
  -- A reference is to a group that has a name, and the name is looked up as such.
  have hpart : ∀ n ∈ p.template.references,
      Template.resolve p.groups ⟨cur, stop, caps⟩ n = (caps.textOf n).getD [] := by
    intro n hn
    have hmem : n ∈ p.regex.groups := by
      obtain ⟨e, he, rfl⟩ := List.mem_map.mp (hp.named n hn)
      exact Regex.mem_groups_of_mem_bodies he
    have hlookup : (p.regex.groups.map fun name => (name, name)).lookup n = some n := by
      generalize p.regex.groups = names at hmem
      induction names with
      | nil => simp at hmem
      | cons m rest ih =>
        rw [List.map_cons, List.lookup_cons]
        split
        · rename_i heq
          rw [beq_iff_eq.mp heq]
        · rename_i hne
          rcases List.mem_cons.mp hmem with rfl | hmem
          · simp at hne
          · exact ih hmem
    rw [Template.resolve, hp.groups]
    simp only [GroupTable.of, hlookup, hp.unnumbered n hn, Option.bind_some]
    rw [Hit.group?, ← Captures.textOf]
    cases caps.textOf n <;> rfl
  unfold Template.expand Template.fill
  refine List.flatMap_congr fun part hmem => ?_
  cases part with
  | plain text => rfl
  | group name => exact hpart name (List.mem_filterMap.mpr ⟨_, hmem, rfl⟩)

end Regular

end Pattern

/-- A check of all patterns of some rules, for one of them. -/
theorem Rule.of_all_patterns {rules : List Rule} {check : Rule → Pattern → Bool}
    (h : rules.all (fun rule => rule.patterns.all (check rule)) = true) {rule : Rule}
    (hr : rule ∈ rules) {p : Pattern} (hp : p ∈ rule.patterns) : check rule p = true :=
  List.all_eq_true.mp (List.all_eq_true.mp h rule hr) p hp

/-- All patterns of the catalog are regular. -/
theorem Catalog.regular {rule : Rule} (hr : rule ∈ rules) {p : Pattern} (hp : p ∈ rule.patterns) :
    p.Regular := by
  have hall : rules.all (fun rule => rule.patterns.all Pattern.isRegular) = true := by
    decide +kernel
  exact Pattern.regular_of_isRegular (Rule.of_all_patterns hall hr hp)

/-! ### Passes -/

namespace Pattern

/-- A pass of a pattern over the text from a position on: the matches, and the text that they leave
when each is replaced. -/
inductive Pass (p : Pattern) (bound : Nat) : Cursor → List Hit → List Char → Prop where
  | done {cur : Cursor} : cur.after = [] → p.attempt bound cur = none → Pass p bound cur [] []
  | skip {cur next : Cursor} {x : Char} {hits : List Hit} {out : List Char} :
    p.attempt bound cur = none → cur.next? = some (x, next) → Pass p bound next hits out →
    Pass p bound cur hits (x :: out)
  | hit {cur stop : Cursor} {caps : Captures} {hits : List Hit} {out : List Char} :
    p.attempt bound cur = some (stop, caps) → Pass p bound stop hits out →
    Pass p bound cur (⟨cur, stop, caps⟩ :: hits) (p.template.fill caps.textOf ++ out)

variable {p : Pattern} {bound : Nat}

theorem Pass.of_skips {cur pos : Cursor} {w out : List Char} {hits : List Hit}
    (h : p.regex.Skips bound cur w pos) (hpass : p.Pass bound pos hits out) :
    p.Pass bound cur hits (w ++ out) := by
  induction h with
  | refl cur => exact hpass
  | step ha hn _ ih => exact .skip ha hn (ih hpass)

/-- There is only one pass from a position. -/
theorem Pass.unique {cur : Cursor} {hits hits' : List Hit} {out out' : List Char}
    (h : p.Pass bound cur hits out) (h' : p.Pass bound cur hits' out') :
    hits = hits' ∧ out = out' := by
  -- At every position only one of the three steps is possible.
  induction h generalizing hits' out' with
  | done hafter ha =>
    cases h' with
    | done => exact ⟨rfl, rfl⟩
    | skip _ hn _ => simp [(Cursor.leads_of_next? hn).after] at hafter
    | hit ha' _ => simp [ha] at ha'
  | skip ha hn _ ih =>
    cases h' with
    | done hafter _ => simp [(Cursor.leads_of_next? hn).after] at hafter
    | skip _ hn' h' =>
      rw [hn, Option.some.injEq, Prod.mk.injEq] at hn'
      obtain ⟨rfl, rfl⟩ := hn'
      obtain ⟨rfl, rfl⟩ := ih h'
      exact ⟨rfl, rfl⟩
    | hit ha' _ => simp [ha] at ha'
  | hit ha _ ih =>
    cases h' with
    | done _ ha' => simp [ha] at ha'
    | skip ha' _ _ => simp [ha] at ha'
    | hit ha' h' =>
      rw [ha, Option.some.injEq, Prod.mk.injEq] at ha'
      obtain ⟨rfl, rfl⟩ := ha'
      obtain ⟨rfl, rfl⟩ := ih h'
      exact ⟨rfl, rfl⟩

/-- The matches that a search finds one after another make up a pass. -/
theorem Regular.pass_of_findAllFrom (hp : p.Regular) {limit : Option Nat} {skipping : Bool}
    {fuel : Nat} {resuming : Bool} {cur : Cursor} {last : Option Nat} {hits : List Hit}
    (hbound : cur.after.length ≤ bound) (hfuel : cur.after.length < fuel)
    (h : Regex.findAllFrom (fun resuming => p.regex.find limit bound (resuming || skipping)) fuel
      resuming cur last = .ok hits) :
    p.Pass bound cur hits (p.splice cur hits) := by
  induction fuel generalizing resuming cur last hits with
  | zero => omega
  | succ fuel ih =>
    rw [Regex.findAllFrom] at h
    cases hf : p.regex.find limit bound (resuming || skipping) cur with
    | error e => simp [hf, bind, Except.bind] at h
    | ok o =>
      obtain ⟨w, pos, hskips, hcase⟩ := hp.basic.skips_of_findFrom (by omega) hf
      have hw := hskips.leads
      rcases hcase with ⟨rfl, hend, hnone⟩ | ⟨stop, caps, ha, rfl⟩
      · simp only [hf, bind, Except.bind, pure, Except.pure, Except.ok.injEq] at h
        subst h
        have hout : p.splice cur [] = w ++ [] := by rw [splice, hw.after, hend]
        rw [hout]
        exact .of_skips hskips (.done hend hnone)
      -- A match is not empty, so the search goes on where it ends and `last` plays no part.
      · have hlt := hp.offset_lt ha
        obtain ⟨m, hm, -⟩ := hp.reads ha
        have hmlen := hm.offset
        have hlen := congrArg List.length (hw.trans hm).after
        simp only [List.length_append] at hlen
        have hne : (Hit.mk pos stop caps).isEmpty = false := by
          simp only [Hit.isEmpty, beq_eq_false_iff_ne]
          omega
        simp only [hf, bind, Except.bind, hp.ofRun_eq ha, hne, Bool.false_eq_true, ↓reduceIte] at h
        split at h
        · simp at h
        · rename_i rest hrest
          simp only [pure, Except.pure, Except.ok.injEq] at h
          subst h
          have hpass := ih (by omega) (by omega) hrest
          have hout : p.splice cur (⟨pos, stop, caps⟩ :: rest)
              = w ++ (p.template.fill caps.textOf ++ p.splice stop rest) := by
            rw [splice, hw.upTo, hp.expand_eq_fill, List.append_assoc]
          rw [hout]
          exact .of_skips hskips (.hit ha hpass)

/-- **Applications are passes.**  Matches that a search finds in a text make up a pass over it. -/
theorem Regular.pass_of_hits (hp : p.Regular) {text : List Char} {hits : List Hit}
    (h : p.hits text = .ok hits) :
    p.Pass text.length (Cursor.ofText text) hits (p.splice (Cursor.ofText text) hits) := by
  unfold Pattern.hits at h
  split at h
  · rename_i found hfound
    simp only [Except.ok.injEq] at h
    subst h
    exact hp.pass_of_findAllFrom le_rfl (by simp [Cursor.ofText]) hfound
  · simp at h

/-- An application that succeeds: the matches that it found, and the pass that they make up. -/
theorem Regular.pass_of_apply (hp : p.Regular) {text : List Char} {o : Option (List Char)}
    (h : p.apply text = .ok o) :
    ∃ hits, p.hits text = .ok hits ∧ (o = none ↔ hits = []) ∧
      p.Pass text.length (Cursor.ofText text) hits (o.getD text) := by
  unfold apply at h
  cases hh : p.hits text with
  | error e => simp [hh, bind, Except.bind] at h
  | ok hits =>
    have hpass := hp.pass_of_hits hh
    refine ⟨hits, rfl, ?_⟩
    simp only [hh, bind, Except.bind, pure, Except.pure] at h
    cases hits with
    | nil =>
      simp only [Except.ok.injEq] at h
      subst h
      exact ⟨by simp, hpass⟩
    | cons hit rest =>
      simp only [Except.ok.injEq] at h
      subst h
      exact ⟨by simp, hpass⟩

/-- The patterns of a list, applied one after another. -/
def applyAll (ps : List Pattern) (text : List Char) : Except PatternError (List Char) :=
  ps.foldlM (fun text p => do return (← p.apply text).getD text) text

@[simp]
theorem applyAll_nil (text : List Char) : applyAll [] text = .ok text := rfl

theorem applyAll_cons_eq_ok {p : Pattern} {ps : List Pattern} {text out : List Char} :
    applyAll (p :: ps) text = .ok out ↔
      ∃ o, p.apply text = .ok o ∧ applyAll ps (o.getD text) = .ok out := by
  simp only [applyAll, List.foldlM_cons]
  cases p.apply text with
  | error e => simp [bind, Except.bind]
  | ok o => simp [bind, Except.bind, pure, Except.pure]

end Pattern

theorem Rule.apply_eq_applyAll (rule : Rule) (text : List Char) :
    rule.apply text = Pattern.applyAll rule.patterns text := rfl

end CApiUpgrade
