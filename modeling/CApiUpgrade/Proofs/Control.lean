import CApiUpgrade.Proofs.Evaluation
import CApiUpgrade.Proofs.Inclusion
import CApiUpgrade.Proofs.Surroundings
import Mathlib.Data.List.DropRight

/-!
# Control statements at the start of a text

A fold of adjacent statements asks what stands on the line above: nothing is folded behind a line
that ends in `else` or `do`.  The word has to follow a character that is no word character.  So if a
text starts with such a line, its second line is the body of a control statement as soon as anything
is put in front of the text, but not before.  This is the only place where text on the left matters.

No rule makes such a first line, with one exception: when the increment of a count is folded into an
assignment, the assignment moves to the front of the text, and its left side may start with a line
that reads `else` or `do`.  But then no later fold can start on the second line.  What stands there
is neither the start of a statement nor an assignment of a variable: the first semicolon outside of
brackets stands behind a closing parenthesis.

A small automaton reads a text and finds the first lines that would matter.  A text is *calm* if it
finds none.  `Pattern.Pass.calm` says that a pass leaves a calm text calm.
-/

namespace CApiUpgrade

open Text

/-! ### The automaton -/

/-- How far the rules have come: up to the folds into `Py_CLEAR`, at the folds into `Py_NewRef`, at
those into `Py_SETREF`, or at the tests for singletons. -/
inductive Stage where
  /-- No line of a control statement has been made. -/
  | fields
  /-- One may have been made, and assignments are folded. -/
  | newRefs
  /-- One may have been made, and no assignment that starts with a star is folded. -/
  | setRefs
  /-- Nothing is folded. -/
  | tests
  deriving DecidableEq, Repr

/-- What has been read of a text. -/
inductive Scan where
  /-- Nothing. -/
  | start
  /-- A part of `else`. -/
  | e | el | els
  /-- A part of `do`. -/
  | d
  /-- One of these words. -/
  | keyword
  /-- The word and one blank. -/
  | blank
  /-- The word and two blanks. -/
  | blanks
  /-- The word, up to two blanks and a carriage return. -/
  | carriage
  /-- The first line and blanks of the second. -/
  | second
  /-- A part of the second line that starts with a star, outside of brackets. -/
  | outside
  /-- The same, behind a closing parenthesis. -/
  | closed
  /-- The same, inside of brackets. -/
  | inside
  /-- Text inside of brackets that were open before. -/
  | within
  /-- No first line that matters. -/
  | calm
  /-- A first line that matters. -/
  | controlled
  deriving DecidableEq, Repr

namespace Scan

/-- Whether a character is a space or a tab. -/
def isGap (c : Char) : Bool := c == ' ' || c == '\t'

/-- Behind the end of the first line. -/
def opened : Stage → Scan
  | .fields => controlled
  | .newRefs | .setRefs => second
  | .tests => calm

/-- At the end of the first line. -/
def ending (stage : Stage) (c : Char) : Scan :=
  if c = '\r' then .carriage else if c = '\n' then opened stage else calm

/-- Behind one more character. -/
def turn (stage : Stage) : Scan → Char → Scan
  | start, c => if c = 'e' then e else if c = 'd' then d else calm
  | e, c => if c = 'l' then el else calm
  | el, c => if c = 's' then els else calm
  | els, c => if c = 'e' then keyword else calm
  | d, c => if c = 'o' then keyword else calm
  | keyword, c => if isGap c then blank else ending stage c
  | blank, c => if isGap c then blanks else ending stage c
  | blanks, c => ending stage c
  | .carriage, c => if c = '\n' then opened stage else calm
  | second, c =>
    if isGap c then second
    else if isLetter c ∨ c = '\x7b' ∨ c = ';' then controlled
    else if c = '*' ∧ stage = .newRefs then outside
    else calm
  | outside, c =>
    if c = '[' then inside else if c = ')' then closed else if c = ';' then controlled else outside
  | closed, c =>
    if c = '[' then inside else if c = ')' then closed else if c = ';' then calm else outside
  | inside, c => if c = ']' then outside else if c = '\n' then controlled else inside
  | within, c => if c = ']' then outside else if c = '\n' then controlled else within
  | calm, _ => calm
  | controlled, _ => controlled

/-- Behind more text. -/
def past (stage : Stage) (q : Scan) (w : List Char) : Scan := w.foldl (turn stage) q

variable {stage : Stage} {q : Scan}

@[simp]
theorem past_nil (stage : Stage) (q : Scan) : q.past stage [] = q := rfl

@[simp]
theorem past_cons (stage : Stage) (q : Scan) (c : Char) (w : List Char) :
    q.past stage (c :: w) = (q.turn stage c).past stage w := rfl

theorem past_append (stage : Stage) (q : Scan) (u v : List Char) :
    q.past stage (u ++ v) = (q.past stage u).past stage v := List.foldl_append ..

theorem calm_past (stage : Stage) (w : List Char) : calm.past stage w = calm := by
  induction w with
  | nil => rfl
  | cons c w ih => exact ih

theorem controlled_past (stage : Stage) (w : List Char) : controlled.past stage w = controlled := by
  induction w with
  | nil => rfl
  | cons c w ih => exact ih

/-- What has been read of the first line, all of which may still be that of a control statement. -/
def firstLine : List Scan :=
  [start, e, el, els, d, keyword, blank, blanks, .carriage]

/-- Everything that can have been read unless assignments are folded. -/
def isShallow (q : Scan) : Bool :=
  decide (q ∈ firstLine) || q == second || q == calm || q == controlled

theorem isShallow_turn (hstage : stage ≠ .newRefs) (hq : q.isShallow = true) (c : Char) :
    (q.turn stage c).isShallow = true := by
  have hopened : (opened stage).isShallow = true := by cases stage <;> rfl
  have hending : (ending stage c).isShallow = true := by
    unfold ending
    split_ifs
    · rfl
    · exact hopened
    · rfl
  cases q <;> simp only [turn, hstage, and_false, ↓reduceIte] <;> (try split_ifs) <;>
    first | rfl | exact hopened | exact hending | cases hq

/-! ### As a machine -/

/-- All states, in the order of their numbers. -/
def all : List Scan :=
  [start, e, el, els, d, keyword, blank, blanks, .carriage, second, outside, closed, inside, within,
    calm, controlled]

/-- The number of a state. -/
def index (q : Scan) : Nat := q.ctorIdx

theorem all_index (q : Scan) : all[q.index]? = some q := by cases q <;> rfl

theorem index_lt (q : Scan) : q.index < 16 := by cases q <;> decide

/-- The number of the state in front of a text that follows a line end. -/
def ahead : Nat := 16

/-- The states behind a character. -/
def moves (stage : Stage) (i : Nat) (c : Char) : Nat :=
  match all[i]? with
  | some q => 1 <<< (q.turn stage c).index
  | none => if c = '\n' then 1 <<< start.index else 0

/-- The characters that the automaton tells apart. -/
def special : List Char :=
  ['e', 'l', 's', 'd', 'o', ' ', '\t', '\r', '\n', '\x7b', ';', '*', '[', ']', ')']

theorem turn_eq {c c' : Char} (hc : c ∉ special) (hc' : c' ∉ special)
    (hletter : isLetter c = isLetter c') (stage : Stage) (q : Scan) :
    q.turn stage c = q.turn stage c' := by
  simp only [special, List.mem_cons, List.not_mem_nil, or_false, not_or] at hc hc'
  cases q <;> simp [turn, ending, isGap, hc, hc', hletter]

/-- The machine of the automaton. -/
def machine (stage : Stage) : Machine where
  size := 17
  special := special
  moves := moves stage
  letters i := moves stage i 'x'
  others i := moves stage i '0'
  sink := 0
  final := 1 <<< calm.index ||| 1 <<< controlled.index
  moves_letter := by
    intro i c hc hletter
    have hline : c ≠ '\n' := fun h => hc (h ▸ by decide)
    simp only [moves]
    split
    · rw [@turn_eq c 'x' hc (by decide) (hletter.trans (by decide))]
    · simp [hline]
  moves_other := by
    intro i c hc hletter
    have hline : c ≠ '\n' := fun h => hc (h ▸ by decide)
    simp only [moves]
    split
    · rw [@turn_eq c '0' hc (by decide) (hletter.trans (by decide))]
    · simp [hline]
  moves_final := by
    intro i c hi
    rw [Nat.testBit_or, Nat.one_shiftLeft, Nat.one_shiftLeft, Nat.testBit_two_pow,
      Nat.testBit_two_pow, Bool.or_eq_true, decide_eq_true_eq, decide_eq_true_eq] at hi
    rcases hi with rfl | rfl <;> rfl

theorem path_past (stage : Stage) (q : Scan) (w : List Char) :
    (machine stage).tracker.Path q.index w (q.past stage w).index := by
  induction w generalizing q with
  | nil => rfl
  | cons c w ih =>
    refine ⟨(q.turn stage c).index, ⟨(index_lt q).trans (Nat.lt_succ_self 16),
      (index_lt _).trans (Nat.lt_succ_self 16), ?_⟩, ih (q.turn stage c)⟩
    change (moves stage q.index c).testBit _ = true
    simp [moves, all_index]

theorem path_ahead (stage : Stage) (w : List Char) :
    (machine stage).tracker.Path ahead ('\n' :: w) (start.past stage w).index := by
  refine ⟨start.index, ⟨Nat.lt_succ_self 16, (index_lt start).trans (Nat.lt_succ_self 16), ?_⟩,
    path_past stage start w⟩
  have hnone : all[ahead]? = none := rfl
  change (moves stage ahead '\n').testBit start.index = true
  simp only [moves, hnone, ↓reduceIte]
  decide

end Scan


/-! ### Matches and replacements -/

namespace Scan

/-- The set of some states. -/
def set (qs : List Scan) : Nat := qs.foldr (fun q s => s ||| 1 <<< q.index) 0

theorem testBit_set {qs : List Scan} {q : Scan} (h : q ∈ qs) :
    (set qs).testBit q.index = true := by
  induction qs with
  | nil => simp at h
  | cons q' qs ih =>
    rw [set, List.foldr_cons, Nat.testBit_or, Bool.or_eq_true]
    rcases List.mem_cons.mp h with rfl | h
    · exact .inr (by simp)
    · exact .inl (ih h)

end Scan

namespace Regex

/-- Whether every text of an expression leads from a set of states to one of the goals. -/
def leadsInto (stage : Stage) (refer : String → Nat → Nat) (r : Regex) (s : Nat)
    (goals : List Scan) : Bool :=
  let stops := r.flow (Scan.machine stage).tracker refer s
  Scan.all.all fun q => !stops.testBit q.index || decide (q ∈ goals)

variable {stage : Stage} {refer : String → Nat → Nat} {r : Regex} {ρ : Reading}

theorem Basic.mem_of_leadsInto {s : Nat} {goals : List Scan}
    (h : r.leadsInto stage refer s goals = true) (hr : r.Basic)
    (hrefer : ∀ n w, ρ.refers n w → ∀ s i j, s.testBit i = true →
      (Scan.machine stage).tracker.Path i w j → (refer n s).testBit j = true)
    {w : List Char} (hw : r.Spells ρ w) {i : Nat} (hi : s.testBit i = true) {q : Scan}
    (hpath : (Scan.machine stage).tracker.Path i w q.index) : q ∈ goals := by
  have hstop := hr.testBit_flow hrefer hw hi hpath
  have hq := List.all_eq_true.mp h q (List.mem_of_getElem? (Scan.all_index q))
  simpa [hstop] using hq

theorem Basic.past_mem {qs goals : List Scan}
    (h : r.leadsInto stage refer (Scan.set qs) goals = true) (hr : r.Basic)
    (hrefer : ∀ n w, ρ.refers n w → ∀ s i j, s.testBit i = true →
      (Scan.machine stage).tracker.Path i w j → (refer n s).testBit j = true)
    {w : List Char} (hw : r.Spells ρ w) {q : Scan} (hq : q ∈ qs) : q.past stage w ∈ goals :=
  hr.mem_of_leadsInto h hrefer hw (Scan.testBit_set hq) (Scan.path_past stage q w)

/-- The group with which every match starts. -/
def leadingGroup? : Regex → Option String
  | group name _ => some name
  | cat a b => if a.isStill then b.leadingGroup? else a.leadingGroup?
  | _ => none

theorem exists_leading {name : String} (h : r.leadingGroup? = some name)
    {texts : String → Option (List Char)} {m : List Char} (hm : r.Spells (.of texts) m) :
    ∃ lead rest, texts name = some lead ∧ m = lead ++ rest := by
  induction r generalizing m with
  | group n body _ =>
    obtain rfl := Option.some.inj h
    exact ⟨m, [], hm.1, by simp⟩
  | cat a b iha ihb =>
    obtain ⟨u, v, rfl, hu, hv⟩ := hm
    rw [leadingGroup?] at h
    split_ifs at h with hstill
    · rw [spells_of_isStill hstill hu, List.nil_append]
      exact ihb h hv
    · obtain ⟨lead, rest, hlead, rfl⟩ := iha h hu
      exact ⟨lead, rest ++ v, hlead, by rw [List.append_assoc]⟩
  | _ => simp [leadingGroup?] at h

end Regex

/-! ### Inside of brackets -/

namespace Scan

variable {stage : Stage} {q : Scan} {w : List Char}

/-- Text that ends neither a pair of brackets nor a line. -/
def Clean (w : List Char) : Prop := ∀ c ∈ w, c ≠ ']' ∧ c ≠ '\n'

theorem Clean.append {u v : List Char} (hu : Clean u) (hv : Clean v) : Clean (u ++ v) := by
  intro c hc
  exact (List.mem_append.mp hc).elim (hu c) (hv c)

theorem Clean.mono {u v : List Char} (hv : Clean v) (h : u ⊆ v) : Clean u := fun c hc => hv c (h hc)

theorem past_of_clean (hq : q = inside ∨ q = within) (hw : Clean w) : q.past stage w = q := by
  induction w with
  | nil => rfl
  | cons c w ih =>
    obtain ⟨hclose, hline⟩ := hw c List.mem_cons_self
    have hturn : q.turn stage c = q := by
      rcases hq with rfl | rfl <;> simp only [turn, hclose, hline, ↓reduceIte]
    rw [past_cons, hturn]
    exact ih fun d hd => hw d (List.mem_cons_of_mem c hd)

/-- Brackets that were open before are not opened again. -/
theorem past_ne_within (hq : q ≠ within) : q.past stage w ≠ within := by
  induction w generalizing q with
  | nil => exact hq
  | cons c w ih =>
    have hopened : opened stage ≠ within := by cases stage <;> simp [opened]
    have hending : ending stage c ≠ within := by
      unfold ending
      split_ifs
      · simp
      · exact hopened
      · simp
    refine ih ?_
    cases q <;> simp only [turn] <;> (try split_ifs) <;>
      first | exact hopened | exact hending | exact hq | simp

theorem clean_of_within_past (h : within.past stage w = within) : Clean w := by
  induction w with
  | nil => simp [Clean]
  | cons c w ih =>
    rw [past_cons] at h
    have hturn : within.turn stage c = within := by
      by_contra hne
      exact past_ne_within hne h
    have hc : c ≠ ']' ∧ c ≠ '\n' := by
      constructor <;> rintro rfl <;> simp [turn] at hturn
    rw [hturn] at h
    intro d hd
    rcases List.mem_cons.mp hd with rfl | hd
    · exact hc
    · exact ih h d hd

/-- What does not lead from the inside of brackets to a first line that matters is clean. -/
theorem clean_of_leadsInto {refer : String → Nat → Nat} {r : Regex} {ρ : Reading}
    (h : r.leadsInto stage refer (set [within]) [within, controlled] = true) (hr : r.Basic)
    (hrefer : ∀ n w, ρ.refers n w → ∀ s i j, s.testBit i = true →
      (machine stage).tracker.Path i w j → (refer n s).testBit j = true)
    (hw : r.Spells ρ w) (hne : within.past stage w ≠ controlled) : Clean w := by
  have hmem := hr.past_mem h hrefer hw (List.mem_singleton.mpr rfl)
  simp only [List.mem_cons, List.not_mem_nil, or_false] at hmem
  exact clean_of_within_past (hmem.resolve_right hne)

theorem ne_controlled_left {u v : List Char} (h : q.past stage (u ++ v) ≠ controlled) :
    q.past stage u ≠ controlled := by
  intro hbad
  rw [past_append, hbad, controlled_past] at h
  exact h rfl

/-- It does not matter when the brackets were opened. -/
theorem inside_past (stage : Stage) (w : List Char) :
    inside.past stage w = within.past stage w ∨
      inside.past stage w = inside ∧ within.past stage w = within := by
  induction w with
  | nil => exact .inr ⟨rfl, rfl⟩
  | cons c w ih =>
    rw [past_cons, past_cons]
    simp only [turn]
    split_ifs
    · exact .inl rfl
    · exact .inl rfl
    · exact ih

end Scan


/-! ### Patterns -/

namespace Pattern

/-- What is known of the references of a pattern. -/
def references (stage : Stage) (p : Pattern) : String → Nat → Nat :=
  (Scan.machine stage).tracker.reference p.regex.bodies

/-- Whether the replacement of a match outside of brackets ends behind a closing parenthesis and a
semicolon, apart from the group with which the match and the replacement start. -/
def keepsOutside (stage : Stage) (p : Pattern) : Bool :=
  match p.template with
  | .group name :: rest =>
    decide (p.regex.leadingGroup? = some name) &&
      (p.regex.bodies.lookup name).any (fun body => body.leadsInto stage (p.references stage)
        (Scan.set [.outside, .closed]) [.outside, .closed, .calm, .controlled]) &&
      (Template.regex p.regex.bodies rest).leadsInto stage (p.references stage)
        (Scan.set [.outside, .closed, .calm]) [.calm]
  | _ => false

/-- Clean text. -/
def cleanText : Regex := .many (.except [.char ']', .char '\n'])

theorem basic_cleanText : cleanText.Basic := .repeated 0 none true (.one rfl)

theorem spells_cleanText {w : List Char} (hw : Scan.Clean w) :
    cleanText.Spells (.loose fun _ _ => True) w := by
  refine ⟨w.map fun c => [c], ?_, ?_, Nat.zero_le _, by simp,
    fun _ n hn => absurd hn List.not_mem_nil⟩
  · simp [← List.flatMap_def]
  · intro u hu
    obtain ⟨c, hc, rfl⟩ := List.mem_map.mp hu
    obtain ⟨hclose, hline⟩ := hw c hc
    refine ⟨c, ?_, rfl⟩
    simp [CharClass.contains, ClassItem.contains, hclose, hline]

/-- What is known of the references of a pattern if the groups `names` have matched clean text. -/
def cleanReferences (stage : Stage) (p : Pattern) (names : List String) (name : String)
    (s : Nat) : Nat :=
  let t := (Scan.machine stage).tracker
  if name ∈ names then cleanText.flow t t.anything s &&& p.references stage name s
  else p.references stage name s

/-- Whether a match inside of brackets either stays there or makes a first line that matters. -/
def staysInside (stage : Stage) (p : Pattern) : Bool :=
  match p.regex with
  | .cat (.group _ lead) (.cat (.cat first separator) second) =>
    (Regex.cat lead first).leadsInto stage (p.references stage) (Scan.set [.within])
        [.within, .controlled] &&
      separator.leadsInto stage (p.references stage) (Scan.set [.within])
        [.within, .controlled] &&
      second.leadsInto stage (p.cleanReferences stage (first.bodies.map Prod.fst))
        (Scan.set [.within]) [.within, .controlled]
  | r => r.leadsInto stage (p.references stage) (Scan.set [.within]) [.controlled]

/-- Whether the plain parts of the template of a pattern end neither a pair of brackets nor a
line. -/
def isCleanTemplate (p : Pattern) : Bool :=
  p.template.all fun
    | .plain text => text.toList.all fun c => c != ']' && c != '\n'
    | .group _ => true

/-- Whether a pattern leaves a calm text calm, for reasons that can be read off it: nothing that
replaces a match on the first line can be part of such a line, and no match starts on the second
line.  Where the second line may start with a star, the first semicolon stays behind a closing
parenthesis. -/
def keepsCalm (stage : Stage) (p : Pattern) : Bool :=
  (p.template.regex p.regex.bodies).leadsInto stage (p.references stage) (Scan.set Scan.firstLine)
      [.calm] &&
    p.regex.leadsInto stage (p.references stage) (Scan.set [.second]) [.controlled] &&
    (stage != .newRefs ||
      (p.keepsOutside stage && p.staysInside stage && p.isCleanTemplate))

variable {p : Pattern} {stage : Stage} {texts : String → Option (List Char)} {m : List Char}

theorem Regular.testBit_references (hp : p.Regular) (hm : p.regex.Spells (.of texts) m)
    (n : String) (w : List Char) (hw : texts n = some w) (s i j : Nat) (hs : s.testBit i = true)
    (h : (Scan.machine stage).tracker.Path i w j) : (p.references stage n s).testBit j = true :=
  Tracker.testBit_reference hp.basic hm hw hs h

/-- The replacement of a match leads into the goals. -/
theorem Regular.past_fill_mem (hp : p.Regular) (hm : p.regex.Spells (.of texts) m) {t : Template}
    (ht : t.references ⊆ p.template.references) {qs goals : List Scan}
    (h : (t.regex p.regex.bodies).leadsInto stage (p.references stage) (Scan.set qs) goals = true)
    {q : Scan} (hq : q ∈ qs) : q.past stage (t.fill texts) ∈ goals :=
  (Template.basic_regex (fun _ => hp.basic.of_mem_bodies) t).past_mem h (hp.testBit_references hm)
    (Template.spells_fill hp.basic hm fun n hn => hp.named n (ht hn)) hq

/-- A match outside of brackets: what replaces it ends behind a closing parenthesis, unless a first
line that matters is already found. -/
theorem Regular.past_fill_of_keepsOutside (hp : p.Regular) (hm : p.regex.Spells (.of texts) m)
    (h : p.keepsOutside stage = true) {q : Scan} (hq : q ∈ [Scan.outside, .closed])
    (hcalm : q.past stage m ≠ .controlled) : q.past stage (p.template.fill texts) = .calm := by
  unfold keepsOutside at h
  split at h
  · rename_i name rest htemplate
    simp only [Bool.and_eq_true, decide_eq_true_eq, Option.any_eq_true] at h
    obtain ⟨⟨hleading, body, hbody, hlead⟩, hrest⟩ := h
    obtain ⟨lead, m', hu, rfl⟩ := Regex.exists_leading hleading hm
    have hmem := Regex.mem_bodies_of_lookup hbody
    have hmid := (hp.basic.of_mem_bodies hmem).past_mem hlead (hp.testBit_references hm)
      (hp.basic.spells_body hm hmem hu).2 hq
    have hne : q.past stage lead ≠ .controlled := by
      intro hbad
      rw [Scan.past_append, hbad, Scan.controlled_past] at hcalm
      exact hcalm rfl
    have hmid' : q.past stage lead ∈ [Scan.outside, .closed, .calm] := by
      simp only [List.mem_cons, List.not_mem_nil, or_false] at hmid ⊢
      rcases hmid with h | h | h | h
      · exact .inl h
      · exact .inr (.inl h)
      · exact .inr (.inr h)
      · exact absurd h hne
    have hsub : Template.references rest ⊆ p.template.references := by
      rw [htemplate]
      exact List.subset_cons_self name _
    have hend := hp.past_fill_mem hm hsub hrest hmid'
    have hfill : p.template.fill texts = lead ++ Template.fill texts rest := by
      simp [htemplate, Template.fill, hu]
    rw [hfill, Scan.past_append]
    exact List.mem_singleton.mp hend
  · simp at h

/-- A match inside of brackets is clean, unless a first line that matters is found. -/
theorem Regular.clean_of_staysInside (hp : p.Regular) (hm : p.regex.Spells (.of texts) m)
    (h : p.staysInside stage = true) (hcalm : Scan.within.past stage m ≠ .controlled) :
    Scan.Clean m := by
  have hrefer := @Regular.testBit_references p stage texts m hp hm
  have hbasic := hp.basic
  unfold staysInside at h
  split at h
  · rename_i name lead first separator second hregex
    simp only [Bool.and_eq_true] at h
    obtain ⟨⟨hfirst, hsep⟩, hsecond⟩ := h
    rw [hregex] at hm hbasic
    obtain ⟨hblead, hbrest⟩ := hbasic.of_cat
    obtain ⟨hbpair, hbsecond⟩ := hbrest.of_cat
    obtain ⟨hbfirst, hbsep⟩ := hbpair.of_cat
    obtain ⟨l, _, rfl, ⟨-, hl⟩, _, y, rfl, ⟨x, g, rfl, hx, hg⟩, hy⟩ := hm
    have hsplit : l ++ (x ++ g ++ y) = l ++ x ++ (g ++ y) := by simp only [List.append_assoc]
    rw [hsplit] at hcalm ⊢
    -- The first statement is clean, and so is what its groups have matched.
    have hclean₁ : Scan.Clean (l ++ x) := Scan.clean_of_leadsInto hfirst
      (.cat hblead.of_group hbfirst) hrefer ⟨l, x, rfl, hl, hx⟩ (Scan.ne_controlled_left hcalm)
    rw [Scan.past_append, Scan.past_of_clean (.inr rfl) hclean₁] at hcalm
    have hclean₂ : Scan.Clean g :=
      Scan.clean_of_leadsInto hsep hbsep hrefer hg (Scan.ne_controlled_left hcalm)
    rw [Scan.past_append, Scan.past_of_clean (.inr rfl) hclean₂] at hcalm
    have hrefer₂ : ∀ n w, texts n = some w → ∀ s i j, s.testBit i = true →
        (Scan.machine stage).tracker.Path i w j →
        (p.cleanReferences stage (first.bodies.map Prod.fst) n s).testBit j = true := by
      intro n w hw s i j hs hpath
      have hknown := hrefer n w hw s i j hs hpath
      unfold cleanReferences
      dsimp only
      split_ifs with hmem
      · obtain ⟨⟨n, body⟩, he, rfl⟩ := List.mem_map.mp hmem
        have hin : w ⊆ l ++ x := fun c hc =>
          List.mem_append_right l ((hbfirst.spells_body hx he hw).1.subset hc)
        rw [Nat.testBit_and, hknown, Bool.and_true]
        exact basic_cleanText.testBit_flow (fun n _ _ _ _ _ => Tracker.testBit_anything n)
          (spells_cleanText (hclean₁.mono hin)) hs hpath
      · exact hknown
    exact hclean₁.append (hclean₂.append
      (Scan.clean_of_leadsInto hsecond hbsecond hrefer₂ hy hcalm))
  · have hmem := hbasic.past_mem h hrefer hm (List.mem_singleton.mpr rfl)
    exact absurd (List.mem_singleton.mp hmem) hcalm

/-- A match inside of brackets, and what replaces it. -/
theorem Regular.past_fill_of_staysInside (hp : p.Regular) (hm : p.regex.Spells (.of texts) m)
    (h : p.staysInside stage = true) (ht : p.isCleanTemplate = true) {q : Scan}
    (hq : q = .inside ∨ q = .within) (hcalm : q.past stage m ≠ .controlled) :
    q.past stage (p.template.fill texts) = q ∧ q.past stage m = q := by
  have hwithin : Scan.within.past stage m ≠ .controlled := by
    rcases hq with rfl | rfl
    · rcases Scan.inside_past stage m with heq | ⟨-, heq⟩
      · rwa [← heq]
      · simp [heq]
    · exact hcalm
  have hclean := hp.clean_of_staysInside hm h hwithin
  refine ⟨Scan.past_of_clean hq fun c hc => ?_, Scan.past_of_clean hq hclean⟩
  rcases Template.mem_fill hc with ⟨text, hmem, hc⟩ | ⟨n, hn, u, hu, hc⟩
  · have hplain := List.all_eq_true.mp (List.all_eq_true.mp ht _ hmem) c hc
    simpa using hplain
  · obtain ⟨e, he, rfl⟩ := List.mem_map.mp (hp.named n hn)
    exact hclean c ((hp.basic.spells_body hm he hu).1.subset hc)

/-- **A pass leaves a calm text calm**, whatever has been read of it before. -/
theorem Pass.calm {bound : Nat} {cur : Cursor} {hits : List Hit} {out : List Char}
    (h : p.Pass bound cur hits out) (hp : p.Regular) (hkeeps : p.keepsCalm stage = true)
    {q : Scan} (hq : q.isShallow = true ∨ stage = .newRefs)
    (hcalm : q.past stage cur.after ≠ .controlled) : q.past stage out ≠ .controlled := by
  induction h generalizing q with
  | done hafter _ => rwa [hafter] at hcalm
  | @skip cur next x hits out _ hn _ ih =>
    rw [(Cursor.leads_of_next? hn).after] at hcalm
    refine ih ?_ hcalm
    by_cases hstage : stage = .newRefs
    · exact .inr hstage
    · exact .inl (Scan.isShallow_turn hstage (hq.resolve_right hstage) x)
  | @hit cur stop caps hits out ha _ ih =>
    obtain ⟨m, hl, hm⟩ := hp.reads ha
    rw [hl.after, Scan.past_append] at hcalm
    have hmatch : q.past stage m ≠ .controlled := fun hbad => by
      rw [hbad, Scan.controlled_past] at hcalm
      exact hcalm rfl
    simp only [keepsCalm, Bool.and_eq_true, Bool.or_eq_true, bne_iff_ne] at hkeeps
    obtain ⟨⟨hfirst, hsecond⟩, hdeep⟩ := hkeeps
    rw [Scan.past_append]
    -- Behind a replacement that leaves the text calm, nothing matters any more.
    have hdone : q.past stage (p.template.fill caps.textOf) = .calm →
        (q.past stage (p.template.fill caps.textOf)).past stage out ≠ .controlled := by
      intro heq
      rw [heq, Scan.calm_past]
      simp
    by_cases hline : q ∈ Scan.firstLine
    · exact hdone (List.mem_singleton.mp
        (hp.past_fill_mem hm (List.Subset.refl _) hfirst hline))
    cases q with
    | start | e | el | els | d | keyword | blank | blanks | carriage =>
      exact absurd (by decide) hline
    | second =>
      refine absurd (List.mem_singleton.mp ?_) hmatch
      exact hp.basic.past_mem hsecond (hp.testBit_references hm) hm (List.mem_singleton.mpr rfl)
    | outside | closed =>
      have hstage := hq.resolve_left (by decide)
      have hkeeps := (hdeep.resolve_left fun hne => hne hstage).1.1
      exact hdone (hp.past_fill_of_keepsOutside hm hkeeps (by decide) hmatch)
    | inside | within =>
      have hstage := hq.resolve_left (by decide)
      obtain ⟨⟨-, hinside⟩, htemplate⟩ := hdeep.resolve_left fun hne => hne hstage
      obtain ⟨hfill, hstay⟩ := hp.past_fill_of_staysInside hm hinside htemplate (by simp) hmatch
      rw [hstay] at hcalm
      rw [hfill]
      exact ih (.inr hstage) hcalm
    | calm => exact hdone (Scan.calm_past stage _)
    | controlled => exact absurd (Scan.controlled_past stage _) hmatch

end Pattern

/-! ### Stages -/

/-- The stages come one after another. -/
def Stage.rank : Stage → Nat
  | .fields => 0
  | .newRefs => 1
  | .setRefs => 2
  | .tests => 3

/-- A text does not start with a line of a control statement that matters at a stage. -/
def Calm (stage : Stage) (text : List Char) : Prop := Scan.start.past stage text ≠ .controlled

namespace Scan

variable {s s' : Stage} {q : Scan} {c : Char}

/-- One character at two stages: what matters later matters before. -/
theorem turn_later (h : s.rank < s'.rank) (hq : q ∈ firstLine ∨ q = second ∧ s ≠ .fields) :
    (q.turn s c = q.turn s' c ∧ (q.turn s c ∈ firstLine ∨ q.turn s c = second ∧ s ≠ .fields)) ∨
      q.turn s c = controlled ∨ q.turn s' c = calm := by
  have hopened : (opened s = opened s' ∧ (opened s ∈ firstLine ∨ opened s = second ∧ s ≠ .fields)) ∨
      opened s = controlled ∨ opened s' = calm := by
    cases s <;> cases s' <;> simp [Stage.rank, opened] at h ⊢
  have hending : (ending s c = ending s' c ∧
      (ending s c ∈ firstLine ∨ ending s c = second ∧ s ≠ .fields)) ∨
        ending s c = controlled ∨ ending s' c = calm := by
    unfold ending
    split_ifs
    · exact .inl ⟨rfl, .inl (by decide)⟩
    · exact hopened
    · exact .inr (.inr rfl)
  rcases hq with hq | ⟨rfl, hs⟩
  · cases q with
    | start | e | el | els | d =>
      simp only [turn]
      split_ifs <;> simp [firstLine]
    | keyword | blank =>
      simp only [turn]
      split_ifs
      · exact .inl ⟨rfl, .inl (by decide)⟩
      · exact hending
    | blanks => exact hending
    | carriage =>
      simp only [turn]
      split_ifs
      · exact hopened
      · exact .inr (.inr rfl)
    | _ => simp [firstLine] at hq
  · have hlater : s' ≠ .newRefs := by
      rintro rfl
      cases s <;> simp [Stage.rank] at h hs
    simp only [turn, hlater, and_false, ↓reduceIte]
    split_ifs
    · exact .inl ⟨rfl, .inr ⟨rfl, hs⟩⟩
    all_goals simp

end Scan

theorem Calm.later {s s' : Stage} {text : List Char} (h : Calm s text) (hrank : s.rank ≤ s'.rank) :
    Calm s' text := by
  rcases hrank.lt_or_eq with hlt | heq
  · -- State by state, as long as both stages agree.
    suffices hscan : ∀ {q : Scan}, q ∈ Scan.firstLine ∨ q = .second ∧ s ≠ .fields →
        q.past s' text = .controlled → q.past s text = .controlled from
      fun hbad => h (hscan (.inl (by decide)) hbad)
    clear h
    induction text with
    | nil => exact fun _ hbad => hbad
    | cons c text ih =>
      intro q hq hbad
      rw [Scan.past_cons] at hbad ⊢
      rcases Scan.turn_later (c := c) hlt hq with ⟨hsame, hnext⟩ | hdone | hcalm
      · rw [← hsame] at hbad
        exact ih hnext hbad
      · rw [hdone, Scan.controlled_past]
      · rw [hcalm, Scan.calm_past] at hbad
        simp at hbad
  · have hsame : s = s' := by
      cases s <;> cases s' <;> simp [Stage.rank] at heq ⊢
    exact hsame ▸ h

/-- Where nothing is folded, nothing matters. -/
theorem calm_tests (text : List Char) : Calm .tests text := by
  suffices hscan : ∀ q ∈ Scan.calm :: Scan.firstLine, q.past .tests text ≠ .controlled from
    hscan .start (by decide)
  induction text with
  | nil =>
    rintro q hq rfl
    simp [Scan.firstLine] at hq
  | cons c text ih =>
    intro q hq
    have hending : Scan.ending .tests c ∈ Scan.calm :: Scan.firstLine := by
      unfold Scan.ending
      split_ifs <;> decide
    refine ih _ ?_
    cases q with
    | start | e | el | els | d | carriage =>
      simp only [Scan.turn]
      split_ifs <;> decide
    | keyword | blank =>
      simp only [Scan.turn]
      split_ifs
      · decide
      · exact hending
    | blanks => exact hending
    | calm => exact List.mem_cons_self
    | _ => simp [Scan.firstLine] at hq

namespace Catalog

/-- The stage at which a rule of the catalog is applied. -/
def stage (rule : Rule) : Stage :=
  if rule.name = newRef.name then .newRefs
  else if rule.name = setRef.name then .setRefs
  else if rule.name = isSingleton.name then .tests
  else .fields

/-- The rules are in the order of their stages. -/
theorem pairwise_stage : rules.Pairwise fun a b => (stage a).rank ≤ (stage b).rank := by
  decide +kernel

/-- Up to the tests for singletons, the patterns of the catalog leave a calm text calm. -/
theorem keepsCalm {rule : Rule} (hr : rule ∈ rules) (hstage : stage rule ≠ .tests) {p : Pattern}
    (hp : p ∈ rule.patterns) : p.keepsCalm (stage rule) = true := by
  have hall : rules.all (fun rule => stage rule == .tests ||
      rule.patterns.all (·.keepsCalm (stage rule))) = true := by
    delta Pattern.keepsCalm Pattern.keepsOutside Pattern.staysInside Pattern.cleanReferences
      Pattern.references Tracker.reference Tracker.refer Regex.leadsInto
    rw [← Evaluation.flow_eq]
    decide +kernel
  have hrule := List.all_eq_true.mp hall rule hr
  rw [Bool.or_eq_true, beq_iff_eq] at hrule
  exact List.all_eq_true.mp (hrule.resolve_left hstage) p hp

end Catalog

/-- **A rule leaves a calm text calm**, for itself and for the rules behind it. -/
theorem Rule.calm_of_apply {rule later : Rule} (hr : rule ∈ Catalog.rules) {text out : List Char}
    (h : rule.apply text = .ok out) (hcalm : Calm (Catalog.stage rule) text)
    (hrank : (Catalog.stage rule).rank ≤ (Catalog.stage later).rank) :
    Calm (Catalog.stage later) out := by
  by_cases hstage : Catalog.stage rule = .tests
  · have hlater : Catalog.stage later = .tests := by
      rw [hstage] at hrank
      cases hl : Catalog.stage later <;> simp [hl, Stage.rank] at hrank ⊢
    rw [hlater]
    exact calm_tests out
  · refine Calm.later ?_ hrank
    refine Pattern.related_of_applyAll
      (R := fun a b => Calm (Catalog.stage rule) a → Calm (Catalog.stage rule) b)
      (fun _ h => h) (fun hab hbc ha => hbc (hab ha)) (fun p hp => ?_) h hcalm
    have hregular := Catalog.regular hr hp
    exact ⟨hregular, fun text hits out hpass =>
      hpass.calm hregular (Catalog.keepsCalm hr hstage hp) (.inl (by decide))⟩

/-! ### Positions where the text on the left matters -/

namespace Text

/-- Whether no two tests in a row accept line ends. -/
def noEmptyLine : List (Char → Bool) → Bool
  | p :: q :: rest => !(p '\n' && q '\n') && noEmptyLine (q :: rest)
  | _ => true

/-- Tests that accept no empty line cannot tell whether more text follows behind an empty line,
unless the last one takes its first line end. -/
theorem fits_append_emptyLine {ps : List (Char → Bool)} (hps : noEmptyLine ps = true)
    (x rest : List Char) :
    fits ps (x ++ '\n' :: '\n' :: rest) = fits ps x ∨
      ∃ qs p, ps = qs ++ [p] ∧ qs.length = x.length ∧ fits qs x = true ∧ p '\n' = true := by
  induction ps generalizing x with
  | nil => exact .inl rfl
  | cons p ps ih =>
    have hrest : noEmptyLine ps = true := by
      cases ps with
      | nil => rfl
      | cons q ps => exact (Bool.and_eq_true_iff.mp hps).2
    cases x with
    | cons c x =>
      rw [List.cons_append, fits, fits]
      cases hc : p c with
      | false => exact .inl rfl
      | true =>
        rcases ih hrest x with h | ⟨qs, q, rfl, hlen, hfits, hq⟩
        · exact .inl (by rw [h])
        · exact .inr ⟨p :: qs, q, rfl, by simp [hlen], by simp [fits, hc, hfits], hq⟩
    | nil =>
      rw [List.nil_append, fits, fits]
      cases hp : p '\n' with
      | false => exact .inl rfl
      | true =>
        cases ps with
        | nil => exact .inr ⟨[], p, rfl, rfl, rfl, hp⟩
        | cons q ps =>
          rw [noEmptyLine, hp, Bool.true_and, Bool.and_eq_true, Bool.not_eq_true'] at hps
          exact .inl (by simp [fits, hps.1])

end Text

namespace Cursor

theorem offset_of_pass? {c d : Cursor} {ps : List (Char → Bool)} (h : c.pass? ps = some d) :
    d.offset = c.offset + ps.length := by
  induction ps generalizing c with
  | nil => exact (congrArg Cursor.offset (Option.some.inj h)).symm
  | cons p ps ih =>
    obtain ⟨⟨x, next⟩, hn, hrest⟩ := Option.bind_eq_some_iff.mp h
    dsimp only at hrest
    split_ifs at hrest
    rw [ih hrest, (leads_of_next? hn).offset, List.length_cons, List.length_cons, List.length_nil]
    omega

end Cursor

/-- What an expression tests one character after another, it spells. -/
theorem Regex.Basic.spells_of_tests? {r : Regex} (hr : r.Basic) {ps : List (Char → Bool)}
    (h : r.tests? = some ps) {w : List Char} (hlen : w.length = ps.length)
    (hfits : fits ps w = true) : r.Spells (.loose fun _ _ => True) w := by
  have hsome := Cursor.isSome_pass? (Cursor.ofText w) ps
  rw [Cursor.ofText, hfits] at hsome
  obtain ⟨stop, hstop⟩ := Option.isSome_iff_exists.mp hsome
  have hmem : (stop, []) ∈ r.ways ⟨none, 0, none⟩ (Cursor.ofText w) [] := by
    rw [ways_of_tests? h, Cursor.ofText, hstop]
    exact List.mem_singleton.mpr rfl
  obtain ⟨u, hu, hspells, -⟩ := hr.spells_of_mem_ways (fun _ _ _ _ => trivial)
    (Captures.Hold.nil fun _ _ => True) hmem
  have hoffset := hu.offset.symm.trans (Cursor.offset_of_pass? hstop)
  have hafter : w = u ++ stop.after := hu.after
  have hend : stop.after = [] := by
    have := congrArg List.length hafter
    rw [List.length_append] at this
    exact List.length_eq_zero_iff.mp (by simp [Cursor.ofText] at hoffset; omega)
  rw [hafter, hend, List.append_nil]
  exact hspells

/-- An expression with its counted repetitions written out. -/
def Regex.unrolled : Regex → Regex
  | cat a b => cat a.unrolled b.unrolled
  | repeated body n (some m) greedy =>
    if n = m then (List.replicate n body.unrolled).foldr cat empty
    else repeated body n (some m) greedy
  | r => r

theorem Regex.tests?_unrolled {r : Regex} {ps : List (Char → Bool)} (h : r.tests? = some ps) :
    r.unrolled.tests? = some ps := by
  induction r generalizing ps with
  | cat a b iha ihb =>
    simp only [tests?, bind, Option.bind_eq_some_iff, pure, Option.some.injEq] at h
    obtain ⟨qs, hqs, qs', hqs', rfl⟩ := h
    simp [unrolled, tests?, iha hqs, ihb hqs']
  | repeated body n most greedy ih =>
    cases most with
    | none => exact h
    | some m =>
      rw [unrolled]
      split_ifs with hnm
      · rw [tests?, if_pos hnm] at h
        obtain ⟨qs, hqs, rfl⟩ := Option.map_eq_some_iff.mp h
        clear h hnm
        induction n with
        | zero => rfl
        | succ n ihn => simp [List.replicate_succ, tests?, ih hqs, ihn]
      · exact h
  | _ => exact h

namespace Pattern

/-- Whether an assertion of a pattern can look across the start of a text, behind an empty line,
only where a first line ends that matters. -/
def looksBehind (stage : Stage) (p : Pattern) : Bool :=
  p.regex.frontLooks.all fun body =>
    body.unrolled.isBasic && body.tests?.all (fun ps => noEmptyLine ps.reverse) &&
      body.unrolled.leadsInto stage (Scan.machine stage).tracker.anything (1 <<< Scan.ahead)
        (if stage = .tests then [] else [.second, .controlled])

variable {p : Pattern} {stage : Stage} {left : List Char}

/-- Behind an empty line, a position has the same answers as at the start of the text, or a first
line that matters ends there. -/
theorem fronts_or_past (h : p.looksBehind stage = true) (hleft : ['\n', '\n'] <+: left)
    (cur : Cursor) : p.regex.Fronts left cur ∨
      stage ≠ .tests ∧ Scan.start.past stage cur.before.reverse ∈ [Scan.second, .controlled] := by
  rw [or_iff_not_imp_left]
  intro hno
  obtain ⟨rest, rfl⟩ := hleft
  simp only [Regex.Fronts, not_forall] at hno
  obtain ⟨body, hbody, ps, hps, hne⟩ := hno
  have hcheck := List.all_eq_true.mp h body hbody
  simp only [Bool.and_eq_true, hps, Option.all_some] at hcheck
  obtain ⟨⟨hbasic, hempty⟩, hleads⟩ := hcheck
  have hbasic := Regex.basic_of_isBasic hbasic
  rcases fits_append_emptyLine hempty cur.before rest with heq | ⟨qs, q, hqs, hlen, hfits, hq⟩
  · exact absurd heq hne
  -- The assertion spells the line end and the text in front of the position.
  have hpq : ps = q :: qs.reverse := by
    rw [← List.reverse_reverse ps, hqs, List.reverse_append, List.reverse_singleton,
      List.singleton_append]
  have hspells : body.unrolled.Spells (.loose fun _ _ => True) ('\n' :: cur.before.reverse) := by
    refine hbasic.spells_of_tests? (Regex.tests?_unrolled hps) (by simp [hpq, hlen]) ?_
    rw [hpq, fits, hq, fits_reverse hlen, hfits, Bool.true_and]
  have hgoal := hbasic.mem_of_leadsInto hleads (fun n _ _ _ _ _ => Tracker.testBit_anything n)
    hspells (by decide) (Scan.path_ahead stage cur.before.reverse)
  split_ifs at hgoal with hstage
  · simp at hgoal
  · exact ⟨hstage, hgoal⟩

/-- Where a first line ends that matters, no match starts in a calm text. -/
theorem Regular.attempt_eq_none_of_past (hp : p.Regular) (hkeeps : p.keepsCalm stage = true)
    {before after : List Char} (hcalm : Calm stage (before.reverse ++ after))
    (hq : Scan.start.past stage before.reverse ∈ [Scan.second, .controlled]) {bound : Nat}
    {cur : Cursor} (hafter : cur.after = after) : p.attempt bound cur = none := by
  rw [Option.eq_none_iff_forall_not_mem]
  rintro ⟨stop, caps⟩ ha
  obtain ⟨m, hl, hm⟩ := hp.reads ha
  refine hcalm ?_
  rw [Scan.past_append, ← hafter, hl.after, Scan.past_append]
  simp only [List.mem_cons, List.not_mem_nil, or_false] at hq
  rcases hq with hq | hq
  · simp only [keepsCalm, Bool.and_eq_true] at hkeeps
    have hmem := hp.basic.past_mem hkeeps.1.2 (hp.testBit_references hm) hm
      (List.mem_singleton.mpr rfl)
    rw [hq, List.mem_singleton.mp hmem, Scan.controlled_past]
  · rw [hq, Scan.controlled_past, Scan.controlled_past]

end Pattern

theorem Catalog.looksBehind {rule : Rule} (hr : rule ∈ rules) {p : Pattern}
    (hp : p ∈ rule.patterns) : p.looksBehind (stage rule) = true := by
  have hall : rules.all (fun rule => rule.patterns.all (·.looksBehind (stage rule))) = true := by
    delta Pattern.looksBehind Regex.leadsInto
    rw [← Evaluation.flow_eq]
    decide +kernel
  exact Rule.of_all_patterns hall hr hp

/-! ### First lines -/

namespace Text

/-- The first line of a text, without its end. -/
def firstLine (text : List Char) : List Char := text.takeWhile (· != '\n')

/-- Whether a character is a space, a tab or a carriage return. -/
def isMargin (c : Char) : Bool := c == ' ' || c == '\t' || c == '\r'

/-- A line without the spaces, tabs and carriage returns at its ends. -/
def trimmed (line : List Char) : List Char := (line.dropWhile isMargin).rdropWhile isMargin

end Text

namespace Scan

/-- Behind the word, only the rest of the line can matter. -/
theorem exists_margin {q : Scan} (hq : q ∈ [keyword, blank, blanks, .carriage]) {text : List Char}
    (h : q.past .fields text = controlled) :
    ∃ margin rest, text = margin ++ '\n' :: rest ∧ ∀ c ∈ margin, isMargin c = true := by
  induction text generalizing q with
  | nil =>
    rw [past_nil] at h
    simp [h] at hq
  | cons c text ih =>
    by_cases hline : c = '\n'
    · exact ⟨[], text, by rw [hline]; rfl, by simp⟩
    have hcases : isMargin c = true ∧ q.turn .fields c ∈ [keyword, blank, blanks, .carriage] ∨
        q.turn .fields c = calm := by
      simp only [List.mem_cons, List.not_mem_nil, or_false] at hq
      rcases hq with rfl | rfl | rfl | rfl <;>
        simp only [turn, ending, hline, ↓reduceIte] <;> (try split_ifs) <;>
        simp_all [isMargin, isGap]
    rcases hcases with ⟨hc, hnext⟩ | hcalm
    · obtain ⟨margin, rest, rfl, hmargin⟩ := ih hnext h
      refine ⟨c :: margin, rest, rfl, fun x hx => ?_⟩
      rcases List.mem_cons.mp hx with rfl | hx
      · exact hc
      · exact hmargin x hx
    · rw [past_cons, hcalm, calm_past] at h
      simp at h

theorem exists_cons {q next : Scan} {x : Char}
    (hturn : ∀ c, q.turn .fields c = if c = x then next else calm) (hq : q ≠ controlled)
    {text : List Char} (h : q.past .fields text = controlled) :
    ∃ rest, text = x :: rest ∧ next.past .fields rest = controlled := by
  cases text with
  | nil => exact absurd h hq
  | cons c text =>
    rw [past_cons, hturn] at h
    split_ifs at h with hc
    · exact ⟨text, by rw [hc], h⟩
    · rw [calm_past] at h
      simp at h

end Scan

/-- A text is calm at first unless its first line reads `else` or `do`. -/
theorem calm_of_trimmed_firstLine {text : List Char}
    (h : trimmed (firstLine text) ∉ ["else".toList, "do".toList]) : Calm .fields text := by
  intro hbad
  obtain ⟨word, hword, rest, rfl, hrest⟩ : ∃ word ∈ ["else".toList, "do".toList], ∃ rest,
      text = word ++ rest ∧ Scan.keyword.past .fields rest = .controlled := by
    cases text with
    | nil => exact absurd hbad (by decide)
    | cons c text =>
      rw [Scan.past_cons, Scan.turn] at hbad
      split_ifs at hbad with he hd
      · obtain ⟨_, rfl, hl⟩ := Scan.exists_cons (fun _ => rfl) (by simp) hbad
        obtain ⟨_, rfl, hs⟩ := Scan.exists_cons (fun _ => rfl) (by simp) hl
        obtain ⟨rest, rfl, hrest⟩ := Scan.exists_cons (fun _ => rfl) (by simp) hs
        exact ⟨_, List.mem_cons_self, rest, by rw [he]; rfl, hrest⟩
      · obtain ⟨rest, rfl, hrest⟩ := Scan.exists_cons (fun _ => rfl) (by simp) hbad
        exact ⟨_, List.mem_cons_of_mem _ List.mem_cons_self, rest, by rw [hd]; rfl, hrest⟩
      · rw [Scan.calm_past] at hbad
        simp at hbad
  obtain ⟨margin, rest, rfl, hmargin⟩ := Scan.exists_margin (by decide) hrest
  refine h ?_
  have hword' : (∀ c ∈ word, (c != '\n') = true) ∧ word.dropWhile isMargin = word ∧
      word.rdropWhile isMargin = word ∧ word ≠ [] := by
    rw [← List.all_eq_true]
    rcases List.mem_pair.mp hword with rfl | rfl <;> exact ⟨rfl, rfl, rfl, by decide⟩
  obtain ⟨hnoLine, hfront, hback, hne⟩ := hword'
  have hmarginLine : ∀ c ∈ margin, (c != '\n') = true := by
    intro c hc
    rw [bne_iff_ne]
    rintro rfl
    exact absurd (hmargin '\n' hc) (by decide)
  have hline : firstLine (word ++ (margin ++ '\n' :: rest)) = word ++ margin := by
    rw [firstLine, List.takeWhile_append_of_pos hnoLine, List.takeWhile_append_of_pos hmarginLine]
    simp
  have hdrop : (word ++ margin).dropWhile isMargin = word ++ margin := by
    rw [List.dropWhile_append, hfront]
    simp [hne]
  have hrdrop : (word ++ margin).rdropWhile isMargin = word := by
    rw [List.rdropWhile, List.reverse_append, List.dropWhile_append_of_pos]
    · exact hback
    · exact fun c hc => hmargin c (List.mem_reverse.mp hc)
  rw [hline, trimmed, hdrop, hrdrop]
  exact hword
end CApiUpgrade
