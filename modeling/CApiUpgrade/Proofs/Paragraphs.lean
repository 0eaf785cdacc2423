import CApiUpgrade.Proofs.Statements
import CApiUpgrade.Proofs.Budget
import Mathlib.Data.List.Forall2

/-!
# Folds of paragraphs

A `Fold` looks for statements on consecutive lines under one indentation and writes one statement in
their place.  Here is what it does to paragraphs with empty lines between them.

* What a part of the pattern matches *closes*: it ends in the one semicolon of its line (`Closes`).
  So a match at the start of a line takes one statement for each part, and none of them stands
  behind the end of the paragraph (`Fold.reads_of_attempt`): two paragraphs are never joined.
* A pass over a paragraph is a run of steps.  Each step folds the statements at the front, or keeps
  the first of them where the fold does not read those that follow it (`Fold.Step`, `Fold.FoldsTo`).
* The pattern for statements on one line finds nothing in a listing, where each semicolon ends a
  line (`not_spells_onOneLine`).
* A rule is a list of folds, and they act one after another (`Chain.applyAll`).  A fold that does
  not read the kinds of statements that are there leaves them (`Fold.Idle`).
-/

namespace CApiUpgrade.Ownership

open Text Catalog Regex

/-! ### Lines -/

/-- Statements, each behind a line end and the indentation. -/
def rows (indent : List Char) (ss : List Statement) : List Char :=
  ss.flatMap fun s => '\n' :: (indent ++ s.text)

/-- The text of a paragraph up to its last statement, without the first indentation. -/
def block (indent : List Char) : List Statement → List Char
  | [] => []
  | s :: ss => s.text ++ rows indent ss

theorem rows_cons (indent : List Char) (s : Statement) (ss : List Statement) :
    rows indent (s :: ss) = '\n' :: (indent ++ block indent (s :: ss)) := by
  simp [rows, block]

theorem rows_of_ne_nil (indent : List Char) {ss : List Statement} (hne : ss ≠ []) :
    rows indent ss = '\n' :: (indent ++ block indent ss) := by
  obtain ⟨s, ss, rfl⟩ := List.exists_cons_of_ne_nil hne
  exact rows_cons indent s ss

theorem rows_append (indent : List Char) (ss ss' : List Statement) :
    rows indent (ss ++ ss') = rows indent ss ++ rows indent ss' := List.flatMap_append

theorem block_append {indent : List Char} {ss : List Statement} (hne : ss ≠ [])
    (ss' : List Statement) : block indent (ss ++ ss') = block indent ss ++ rows indent ss' := by
  obtain ⟨s, ss, rfl⟩ := List.exists_cons_of_ne_nil hne
  rw [List.cons_append, block, block, rows_append, List.append_assoc]

theorem Paragraph.text_eq {p : Paragraph} (hne : p.statements ≠ []) :
    p.text = p.indent.1 ++ block p.indent.1 p.statements := by
  obtain ⟨indent, ss⟩ := p
  obtain ⟨s, ss, rfl⟩ := List.exists_cons_of_ne_nil hne
  simp only [Paragraph.text, block]
  induction ss generalizing s with
  | nil => simp [rows]
  | cons s' ss ih =>
    have hrest := ih s' (by simp)
    rw [List.map_cons] at hrest ⊢
    rw [List.map_cons, List.intercalate_cons_cons, hrest, rows_cons, block]
    simp

theorem listing_cons (p : Paragraph) (ps : List Paragraph) :
    listing (p :: ps) = p.text ++ if ps = [] then [] else '\n' :: '\n' :: listing ps := by
  cases ps with
  | nil => simp [listing]
  | cons p' ps => simp [listing, List.intercalate_cons_cons]

/-- A paragraph has statements, and they are sound. -/
structure Paragraph.Sound (p : Paragraph) : Prop where
  /-- There is a statement. -/
  ne_nil : p.statements ≠ []
  /-- All are sound. -/
  sound : ∀ s ∈ p.statements, s.Sound

/-! ### Where a statement ends -/

/-- What has been read of a statement. -/
inductive Progress where
  /-- Nothing. -/
  | start
  /-- Some text. -/
  | inside
  /-- Some text that ends in a semicolon. -/
  | closed
  /-- A space, a tab or a line end in front of the statement, or a line end behind a semicolon. -/
  | torn
  deriving DecidableEq, Repr

namespace Progress

/-- Behind one more character. -/
def turn : Progress → Char → Progress
  | start, c => if Scan.isGap c ∨ c = '\n' then torn else if c = ';' then closed else inside
  | inside, c => if c = ';' then closed else inside
  | closed, c => if c = '\n' then torn else if c = ';' then closed else inside
  | torn, _ => torn

/-- Behind more text. -/
def past (q : Progress) (w : List Char) : Progress := w.foldl turn q

theorem past_append (q : Progress) (u v : List Char) : q.past (u ++ v) = (q.past u).past v :=
  List.foldl_append ..

theorem torn_past (w : List Char) : torn.past w = torn := by
  induction w with
  | nil => rfl
  | cons c w ih => exact ih

/-! #### As a machine -/

/-- All states, in the order of their numbers. -/
def all : List Progress := [start, inside, closed, torn]

/-- The number of a state. -/
def index (q : Progress) : Nat := q.ctorIdx

theorem all_index (q : Progress) : all[q.index]? = some q := by cases q <;> rfl

theorem index_lt (q : Progress) : q.index < 4 := by cases q <;> decide

/-- The states behind a character. -/
def moves (i : Nat) (c : Char) : Nat := (all[i]?.map fun q => 1 <<< (q.turn c).index).getD 0

/-- The characters that are told apart. -/
def special : List Char := [' ', '\t', '\n', ';']

theorem turn_eq {c c' : Char} (hc : c ∉ special) (hc' : c' ∉ special) (q : Progress) :
    q.turn c = q.turn c' := by
  simp only [special, List.mem_cons, List.not_mem_nil, or_false, not_or] at hc hc'
  cases q <;> simp [turn, Scan.isGap, hc, hc']

/-- The machine of the automaton. -/
def machine : Machine where
  size := 4
  special := special
  moves := moves
  letters i := moves i 'x'
  others i := moves i '0'
  sink := 0
  final := 0
  moves_letter hc _ := by simp only [moves, @turn_eq _ 'x' hc (by decide)]
  moves_other hc _ := by simp only [moves, @turn_eq _ '0' hc (by decide)]
  moves_final hi := by simp at hi

theorem path_past (q : Progress) (w : List Char) :
    machine.tracker.Path q.index w (q.past w).index := by
  induction w generalizing q with
  | nil => rfl
  | cons c w ih =>
    refine ⟨(q.turn c).index, ⟨index_lt q, index_lt _, ?_⟩, ih (q.turn c)⟩
    change (moves q.index c).testBit _ = true
    simp [moves, all_index]

end Progress

/-- A text that starts with neither a space nor a tab nor a line end, that ends in a semicolon, and
in which no line end stands behind a semicolon. -/
def Closes (w : List Char) : Prop := Progress.start.past w = .closed

theorem Closes.first {w : List Char} (h : Closes w) :
    ∃ c u, w = c :: u ∧ Scan.isGap c = false ∧ c ≠ '\n' := by
  cases w with
  | nil => cases h
  | cons c u =>
    by_contra hno
    have htorn : Progress.start.turn c = .torn := by
      rw [Progress.turn, if_pos]
      by_contra hc
      rw [not_or, Bool.not_eq_true] at hc
      exact hno ⟨c, u, rfl, hc⟩
    rw [Closes, Progress.past, List.foldl_cons, htorn, ← Progress.past, Progress.torn_past] at h
    cases h

theorem Closes.last {w : List Char} (h : Closes w) : ∃ u, w = u ++ [';'] := by
  rcases List.eq_nil_or_concat w with rfl | ⟨u, c, rfl⟩
  · cases h
  · rw [List.concat_eq_append] at h ⊢
    refine ⟨u, ?_⟩
    rw [Closes, Progress.past_append] at h
    generalize Progress.start.past u = q at h
    by_cases hc : c = ';'
    · rw [hc]
    · cases q <;> simp [Progress.past, Progress.turn, hc] at h <;> split_ifs at h

/-- The start of a line that closes is the statement on it. -/
theorem Closes.eq_of_append {u v body rest : List Char} (hu : Closes u)
    (h : u ++ v = body ++ ';' :: rest) (hbody : ';' ∉ body)
    (hrest : rest.head?.all (· == '\n') = true) : u = body ++ [';'] ∧ v = rest := by
  obtain ⟨front, rfl⟩ := hu.last
  rw [List.append_assoc, List.singleton_append] at h
  rcases List.append_eq_append_iff.mp h with ⟨w, rfl, hw⟩ | ⟨w, rfl, hw⟩
  · cases w with
    | nil =>
      rw [List.nil_append, List.cons.injEq] at hw
      exact ⟨by rw [List.append_nil], hw.2⟩
    | cons c w =>
      obtain ⟨rfl, -⟩ := List.cons.inj hw
      exact absurd (by simp) hbody
  · cases w with
    | nil =>
      rw [List.nil_append, List.cons.injEq] at hw
      exact ⟨by rw [List.append_nil], hw.2.symm⟩
    | cons c w =>
      -- The statement would go on behind the line end.
      obtain ⟨rfl, rfl⟩ := List.cons.inj hw
      cases w with
      | nil => simp at hrest
      | cons d w =>
        obtain rfl : d = '\n' := by simpa using hrest
        have htorn : ∀ q : Progress, (q.turn ';').turn '\n' = .torn := by intro q; cases q <;> rfl
        rw [Closes, List.append_assoc, Progress.past_append, List.cons_append, List.cons_append,
          Progress.past,
          List.foldl_cons, List.foldl_cons, htorn, ← Progress.past, Progress.torn_past] at hu
        cases hu

/-! ### Folds -/

/-- What a statement of a run matches, all groups having captured what is known of them. -/
abbrev Reads (texts : String → Option (List Char)) : List Regex → List Statement → Prop :=
  List.Forall₂ fun r s => r.Spells (.of texts) s.text

/-- What each statement of a run can match closes. -/
def closing (statements : List Regex) : Bool :=
  statements.all fun r => r.isBasic && r.flow Progress.machine.tracker
    (Progress.machine.tracker.reference (statements.flatMap bodies)) (1 <<< Progress.start.index) ==
      1 <<< Progress.closed.index

theorem bodies_joined {separator : Regex} (hsep : separator.bodies = []) (rs : List Regex) :
    (joined separator rs).bodies = rs.flatMap bodies := by
  induction rs with
  | nil => rfl
  | cons r rs ih =>
    cases rs with
    | nil => simp [joined]
    | cons r' rs =>
      have hcat : (joined separator (r :: r' :: rs)).bodies =
          r.bodies ++ separator.bodies ++ (joined separator (r' :: rs)).bodies := rfl
      rw [hcat, hsep, ih, List.append_nil]
      rfl

/-- A fold of adjacent statements. -/
structure Fold where
  /-- The statements. -/
  statements : List Regex
  /-- What takes their place. -/
  replacement : Template
  /-- There are at least two. -/
  two_le_length : 2 ≤ statements.length
  /-- Both patterns are regular. -/
  regular : ∀ p ∈ adjacent statements replacement, p.Regular
  /-- The statements end where lines end. -/
  closing_statements : closing statements = true
  /-- The kinds of the statements. -/
  shapes : List Shape
  /-- Other statements are not matched. -/
  asks : ∀ {texts ss}, (∀ s ∈ ss, s.Sound) → Reads texts statements ss →
    ss.map Statement.shape = shapes

namespace Fold

variable (F : Fold) {texts : String → Option (List Char)} {indent m w : List Char}

/-- The patterns of a fold. -/
def patterns : List Pattern := adjacent F.statements F.replacement

/-- The pattern that looks for statements on consecutive lines. -/
def onLines : Pattern := .ofRegex (Catalog.onLines F.statements) (.group "indent" :: F.replacement)

theorem statements_ne_nil : F.statements ≠ [] :=
  List.ne_nil_of_length_pos (Nat.zero_lt_two.trans_le F.two_le_length)

variable {F}

/-- What a statement of a run matches closes. -/
theorem closes_of_spells {separator : Regex} (hsep : separator.bodies = [])
    (hbasic : (joined separator F.statements).Basic)
    (hm : (joined separator F.statements).Spells (.of texts) m) {r : Regex} (hr : r ∈ F.statements)
    (hw : r.Spells (.of texts) w) : Closes w := by
  have hall := List.all_eq_true.mp F.closing_statements r hr
  rw [Bool.and_eq_true, beq_iff_eq, ← bodies_joined hsep] at hall
  have hend :
      (r.flow Progress.machine.tracker
        (Progress.machine.tracker.reference (joined separator F.statements).bodies)
      (1 <<< Progress.start.index)).testBit (Progress.start.past w).index = true :=
    (basic_of_isBasic hall.1).testBit_flow (fun _ _ hu _ _ _ =>
      Tracker.testBit_reference hbasic hm hu) hw (by decide) (Progress.path_past .start w)
  rw [hall.2, Nat.one_shiftLeft, Nat.testBit_two_pow, decide_eq_true_eq] at hend
  have heq := Progress.all_index (Progress.start.past w)
  rw [← hend, Progress.all_index] at heq
  exact (Option.some.inj heq).symm

/-! #### Matches at the start of a line -/

/-- What follows a paragraph: the end of the text, perhaps behind a line end, or an empty line. -/
def Stops (behind : List Char) : Prop :=
  behind.head?.all (· == '\n') = true ∧ behind.tail.head?.all (· == '\n') = true

/-- The end of a line and the indentation of the next one. -/
abbrev lineBreak : Regex := many gap ++ optional (char '\r') ++ char '\n' ++ backReference "indent"

/-- A line end is found at once, or not at all. -/
theorem eq_of_spells_lineBreak {u : List Char} (hindent : texts "indent" = some indent)
    (hw : lineBreak.Spells (.of texts) w) (h : (w ++ u).head?.all (· == '\n') = true) :
    w = '\n' :: indent := by
  obtain ⟨_, again, rfl, ⟨_, _, rfl, ⟨gaps, ret, rfl, hgaps, hret⟩, rfl⟩, hagain⟩ := hw
  obtain rfl : again = indent := Option.some.inj (Eq.trans (Eq.symm hagain) hindent)
  cases gaps with
  | cons c gaps =>
    obtain rfl : c = '\n' := by simpa using h
    exact absurd (gaps_of_spells hgaps '\n' List.mem_cons_self) (by decide)
  | nil =>
    rcases (spells_optional rfl).mp hret with rfl | rfl
    · rfl
    · simp at h

/-- A run of statements starts with neither a gap nor a line end. -/
theorem first_of_spells_joined {separator r : Regex} {rs : List Regex}
    (hclose : ∀ u, r.Spells (.of texts) u → Closes u)
    (h : (joined separator (r :: rs)).Spells (.of texts) m) :
    ∃ c u, m = c :: u ∧ Scan.isGap c = false ∧ c ≠ '\n' := by
  cases rs with
  | nil => exact (hclose m h).first
  | cons r' rs =>
    obtain ⟨_, m', rfl, ⟨u, w, rfl, hu, -⟩, -⟩ := h
    obtain ⟨c, v, rfl, hc⟩ := (hclose u hu).first
    exact ⟨c, v ++ w ++ m', by simp, hc⟩

/-- Statements that are matched one to a line are the first ones of a paragraph. -/
theorem reads_of_spells_joined (hgaps : ∀ c ∈ indent, Scan.isGap c = true)
    (hindent : texts "indent" = some indent) {rest behind : List Char} (hbehind : Stops behind)
    {rs : List Regex} (hne : rs ≠ []) (hclose : ∀ r ∈ rs, ∀ u, r.Spells (.of texts) u → Closes u)
    {s : Statement} {ss : List Statement} (hsound : ∀ t ∈ s :: ss, t.Sound)
    (h : (joined lineBreak rs).Spells (.of texts) m)
    (htext : m ++ rest = block indent (s :: ss) ++ behind) :
    ∃ matched left, s :: ss = matched ++ left ∧ Reads texts rs matched ∧ m = block indent matched ∧
      rest = rows indent left ++ behind := by
  induction rs generalizing s ss m with
  | nil => exact absurd rfl hne
  | cons r rs ih =>
    rw [List.forall_mem_cons] at hclose hsound
    have hrows : (rows indent ss ++ behind).head?.all (· == '\n') = true := by
      cases ss with
      | nil => exact hbehind.1
      | cons s' ss => rw [rows_cons]; rfl
    -- The first statement ends where the first line ends.
    have hline : ∀ {u v : List Char}, r.Spells (.of texts) u →
        u ++ v = block indent (s :: ss) ++ behind → u = s.text ∧ v = rows indent ss ++ behind := by
      intro u v hu huv
      have hsplit : u ++ v = s.body ++ ';' :: (rows indent ss ++ behind) := by
        rw [huv, block, Statement.text]
        simp
      exact (hclose.1 u hu).eq_of_append hsplit hsound.1.body_line.2.1 hrows
    cases rs with
    | nil =>
      obtain ⟨rfl, rfl⟩ := hline h htext
      exact ⟨[s], ss, rfl, .cons h .nil, by simp [block, rows], rfl⟩
    | cons r' rs =>
      obtain ⟨_, m', rfl, ⟨u, w, rfl, hu, hw⟩, hm'⟩ := h
      rw [List.append_assoc, List.append_assoc] at htext
      obtain ⟨rfl, hrest⟩ := hline hu htext
      obtain rfl := eq_of_spells_lineBreak hindent hw (hrest ▸ hrows)
      cases ss with
      | nil =>
        -- There is no other line, and no statement starts on an empty one.
        obtain ⟨c, v, rfl, hgap, hc⟩ := first_of_spells_joined (hclose.2 r' List.mem_cons_self) hm'
        have hempty := hbehind.2
        rw [← List.nil_append behind, ← show rows indent [] = [] from rfl, ← hrest] at hempty
        cases indent with
        | nil => simp [hc] at hempty
        | cons d indent =>
          obtain rfl : d = '\n' := by simpa using hempty
          exact absurd (hgaps '\n' List.mem_cons_self) (by decide)
      | cons s' ss =>
        rw [rows_cons, List.cons_append, List.cons_append, List.cons.injEq, List.append_assoc,
          List.append_cancel_left_eq] at hrest
        obtain ⟨matched, left, hss, hreads, rfl, rfl⟩ :=
          ih (List.cons_ne_nil r' rs) hclose.2 hsound.2 hm' hrest.2
        obtain ⟨s'', matched, rfl⟩ : ∃ t ts, matched = t :: ts := by
          cases hreads
          exact ⟨_, _, rfl⟩
        refine ⟨s :: s'' :: matched, left, congrArg (s :: ·) hss, .cons hu hreads, ?_, rfl⟩
        rw [block.eq_2 indent s, rows_cons, List.append_assoc, List.cons_append]

variable {bound : Nat} {c d : Cursor} {caps : Captures} {s : Statement} {ss left : List Statement}
  {behind out : List Char}

/-- What is read by a match: the indentation and a run of statements. -/
theorem indent_of_spells (hm : F.onLines.regex.Spells (.of texts) m) : ∃ lead run, m = lead ++ run ∧
    texts "indent" = some lead ∧ (∀ c ∈ lead, Scan.isGap c = true) ∧
      (joined lineBreak F.statements).Spells (.of texts) run ∧
        (∀ r ∈ F.statements, ∀ u, r.Spells (.of texts) u → Closes u) ∧
          ∃ c u, run = c :: u ∧ Scan.isGap c = false ∧ c ≠ '\n' := by
  have hbasic := (F.regular F.onLines List.mem_cons_self).basic.of_cat.2
  obtain ⟨_, run, rfl, ⟨start, lead, rfl, hstart, hset, hlead⟩, hrun⟩ := hm
  obtain rfl := spells_of_isStill rfl hstart
  have hclose : ∀ r ∈ F.statements, ∀ u, r.Spells (.of texts) u → Closes u :=
    fun r hr u => F.closes_of_spells rfl hbasic hrun hr
  refine ⟨lead, run, rfl, hset, gaps_of_spells hlead, hrun, hclose, ?_⟩
  obtain ⟨r, rs, hrs⟩ := List.exists_cons_of_ne_nil F.statements_ne_nil
  rw [hrs] at hclose hrun
  exact first_of_spells_joined (hclose r List.mem_cons_self) hrun

/-- Matches start at the start of a line. -/
theorem attempt_of_not_lineStart (h : Anchor.lineStart.holds c = false) :
    F.onLines.attempt bound c = none := by
  refine List.head?_eq_none_iff.mpr (List.eq_nil_iff_forall_not_mem.mpr fun w hw => ?_)
  obtain ⟨w₁, hw₁, -⟩ := List.mem_flatMap.mp hw
  obtain ⟨w₂, hw₂, -⟩ := List.mem_flatMap.mp hw₁
  obtain ⟨w₃, hw₃, -⟩ := List.mem_flatMap.mp hw₂
  simp [ways, Way.provided, h] at hw₃

/-- None starts on an empty line or at the end of the text. -/
theorem attempt_of_head? (h : c.after.head?.all (· == '\n') = true) :
    F.onLines.attempt bound c = none := by
  refine (F.regular F.onLines List.mem_cons_self).attempt_eq_none fun m d caps _ hl hm => ?_
  obtain ⟨lead, run, rfl, -, hlead, -, -, x, u, rfl, -, hx⟩ := indent_of_spells hm
  rw [hl.after] at h
  cases lead with
  | nil => simp [hx] at h
  | cons y lead =>
    obtain rfl : y = '\n' := by simpa using h
    exact absurd (hlead '\n' List.mem_cons_self) (by decide)

/-- A match at the start of a line is a match of the statements there. -/
theorem reads_of_attempt (hgaps : ∀ c ∈ indent, Scan.isGap c = true) (hbehind : Stops behind)
    (hsound : ∀ t ∈ s :: ss, t.Sound)
    (hafter : c.after = indent ++ (block indent (s :: ss) ++ behind))
    (ha : F.onLines.attempt bound c = some (d, caps)) :
    ∃ matched left, s :: ss = matched ++ left ∧ Reads caps.textOf F.statements matched ∧
      c.Leads (indent ++ block indent matched) d ∧ caps.textOf "indent" = some indent := by
  obtain ⟨m, hl, hm⟩ := (F.regular F.onLines List.mem_cons_self).reads ha
  obtain ⟨lead, run, rfl, hindent, hlead, hrun, hclose, x, u, rfl, hx, -⟩ := indent_of_spells hm
  have htext := hl.after
  rw [hafter, List.append_assoc] at htext
  obtain ⟨y, hy, hblank⟩ := (hsound s List.mem_cons_self).body_line.1
  obtain ⟨w, hw⟩ := List.head?_eq_some_iff.mp hy
  have hyap : Scan.isGap y = false := by
    by_contra hgap
    rw [(blank_of_isGap (by simpa using hgap)).1] at hblank
    cases hblank
  obtain rfl : lead = indent := by
    rw [block, Statement.text, hw, List.cons_append, List.cons_append, List.cons_append,
      List.cons_append] at htext
    exact (append_cons_inj (p := fun z => !Scan.isGap z) (fun z hz => by simp [hgaps z hz])
      (fun z hz => by simp [hlead z hz]) (by simp [hyap]) (by simp [hx]) htext).1.symm
  rw [List.append_cancel_left_eq] at htext
  obtain ⟨matched, left, hss, hreads, hblock, -⟩ :=
    reads_of_spells_joined hgaps hindent hbehind F.statements_ne_nil hclose hsound hrun htext.symm
  exact ⟨matched, left, hss, hreads, hblock ▸ hl, hindent⟩

/-! #### Matches that exist -/

/-- Each statement of a run can be matched where it stands, one after another. -/
inductive Finds (texts : String → Option (List Char)) :
    List Regex → List Statement → List String → Prop where
  | one {r : Regex} {s : Statement} {names names' : List String} :
    (∀ {bound before behind}, Apart before → r.Goes bound texts before s.text behind names names') →
      Finds texts [r] [s] names
  | next {r : Regex} {rs : List Regex} {s : Statement} {ss : List Statement}
    {names names' : List String} :
    (∀ {bound before behind}, Apart before → r.Goes bound texts before s.text behind names names') →
      "indent" ∈ names' → Finds texts rs ss names' → Finds texts (r :: rs) (s :: ss) names

/-- What a fold has to match, and what takes its place. -/
structure Folds (F : Fold) (ss : List Statement) (new : Statement) : Prop where
  /-- There is a match. -/
  found : ∀ indent, ∃ texts, texts "indent" = some indent ∧ Finds texts F.statements ss ["indent"]
  /-- Every match is replaced in the same way. -/
  filled : ∀ texts, Reads texts F.statements ss → F.replacement.fill texts = new.text
  /-- By a sound statement. -/
  sound : new.Sound

/-- A position in front of which no header of a control statement stands: the start of the text, or
behind a line that is empty or ends in a semicolon. -/
def Fresh (before : List Char) : Prop :=
  before = [] ∨ ∃ x rest, before = '\n' :: x :: rest ∧ (x = ';' ∨ x = '\n')

/-- Whether the second test takes neither a semicolon nor a line end. -/
def secondRefuses : List (Char → Bool) → Bool
  | _ :: p :: _ => !p ';' && !p '\n'
  | _ => false

/-- The guard of the folds holds there. -/
theorem fits_controlEnds_of_fresh {before : List Char} (h : Fresh before) {body : Regex}
    (hbody : body ∈ controlEnds) :
    body.tests?.any (fun ps => fits ps.reverse before) = false := by
  have hall : controlEnds.all (fun body => body.tests?.all fun ps => secondRefuses ps.reverse) =
      true := rfl
  have hbody := List.all_eq_true.mp hall body hbody
  cases htests : body.tests? with
  | none => rfl
  | some ps =>
    rw [htests, Option.all_some] at hbody
    rw [Option.any_some]
    obtain ⟨q, p, qs, hps⟩ : ∃ q p qs, ps.reverse = q :: p :: qs := by
      cases hps : ps.reverse with
      | nil => simp [hps, secondRefuses] at hbody
      | cons q qs =>
        cases qs with
        | nil => simp [hps, secondRefuses] at hbody
        | cons p qs => exact ⟨q, p, qs, rfl⟩
    rw [hps, secondRefuses, Bool.and_eq_true, Bool.not_eq_true', Bool.not_eq_true'] at hbody
    rw [hps]
    rcases h with rfl | ⟨x, rest, rfl, rfl | rfl⟩
    · rfl
    · simp [fits, hbody.1]
    · simp [fits, hbody.2]

theorem goes_lineStart {names : List String} {before : List Char} (h : Fresh before) :
    (anchor .lineStart ++ notControlled).Goes bound texts before [] behind names names := by
  intro c d caps hbefore hl _ _ hcaps
  obtain rfl := hl.eq_of_nil
  refine ⟨caps, List.mem_flatMap.mpr ⟨(d, caps), ?_, ?_⟩, hcaps⟩
  · have hstart : d.before.head?.all (· == '\n') = true := by
      rw [hbefore]
      rcases h with rfl | ⟨x, rest, rfl, -⟩ <;> rfl
    simp [ways, Way.provided, Anchor.holds, hstart]
  · rw [notControlled, ways_seq_notAfter fun _ => minWidth_controlEnds, if_neg]
    · exact List.mem_singleton_self _
    · rw [Bool.not_eq_true, List.any_eq_false, hbefore]
      exact fun body hbody => by rw [fits_controlEnds_of_fresh h hbody]; decide

theorem goes_lineBreak {names : List String} (hmem : "indent" ∈ names)
    (hindent : texts "indent" = some indent) {before : List Char} :
    lineBreak.Goes bound texts before ('\n' :: indent) behind names names := by
  have hgaps : (many gap).Goes bound texts before [] ('\n' :: (indent ++ behind)) names names :=
    .text rfl (ρ := .of texts) ((spells_repeated_one rfl).mpr ⟨le_rfl, by simp⟩)
  exact .append (.nil_then (.nil_then hgaps .optional_nil) (.char '\n'))
    (.backReference hmem hindent)

/-- No word stands in front of the first statement of a line. -/
theorem apart_of_indent (hgaps : ∀ c ∈ indent, Scan.isGap c = true) {before : List Char}
    (h : before.head?.all (· == '\n') = true) : Apart (indent.reverse ++ before) := by
  rw [Apart, List.head?_append, List.head?_reverse]
  cases hlast : indent.getLast? with
  | some x =>
    have hx := hgaps x (List.mem_of_getLast? hlast)
    rw [Option.some_or, Option.any_some]
    exact isWord_of_isBlank (blank_of_isGap hx).1
  | none =>
    cases before with
    | nil => rfl
    | cons x before =>
      obtain rfl : x = '\n' := by simpa using h
      have hline : isWord '\n' = false := by decide
      simpa using hline

theorem Finds.goes {rs : List Regex} {names : List String} (h : Finds texts rs ss names)
    (hindent : texts "indent" = some indent) (hgaps : ∀ c ∈ indent, Scan.isGap c = true)
    {before : List Char} (hbefore : Apart before) :
    ∃ names',
      (joined lineBreak rs).Goes bound texts before (block indent ss) behind names names' := by
  induction h generalizing before with
  | @one r s names names' h =>
    have hgoes : r.Goes bound texts before s.text behind names names' := h hbefore
    exact ⟨names', by rwa [block, rows, List.flatMap_nil, List.append_nil]⟩
  | @next r rs s ss names names' h hmem hrest ih =>
    have hbreak : Apart (('\n' :: indent).reverse ++ (s.text.reverse ++ before)) := by
      rw [List.reverse_cons, List.append_assoc]
      exact apart_of_indent hgaps rfl
    obtain ⟨names'', hrun⟩ := ih hbreak
    have hline : (r ++ lineBreak).Goes bound texts before (s.text ++ ('\n' :: indent))
        (block indent ss ++ behind) names names' :=
      .append (h hbefore) (goes_lineBreak hmem hindent)
    refine ⟨names'', ?_⟩
    cases hrest <;>
    · rw [block, rows_cons, ← List.cons_append, ← List.append_assoc]
      exact .append hline (by simpa using hrun)

/-- There is a match. -/
theorem exists_attempt (hfresh : Fresh c.before) {new : Statement} (h : F.Folds ss new)
    (hgaps : ∀ c ∈ indent, Scan.isGap c = true) (hroom : c.after.length ≤ bound)
    (hafter : c.after = indent ++ (block indent ss ++ out)) :
    ∃ d caps, F.onLines.attempt bound c = some (d, caps) := by
  obtain ⟨texts, hindent, hfinds⟩ := h.found indent
  have hstart : c.before.head?.all (· == '\n') = true := by
    rcases hfresh with h | ⟨x, rest, h, -⟩ <;> rw [h] <;> rfl
  obtain ⟨names, hrun⟩ :
      ∃ names, (joined lineBreak F.statements).Goes bound texts (indent.reverse ++ c.before)
      (block indent ss) out ["indent"] names :=
    hfinds.goes hindent hgaps (apart_of_indent hgaps hstart)
  have hlead : (group "indent" (many gap)).Goes bound texts c.before indent
      (block indent ss ++ out) [] ["indent"] := by
    have htake : gap.takes? = some (CharClass.contains ⟨false, [.char ' ', .char '\t']⟩) := rfl
    refine .group
      (.text rfl (ρ := .of texts) ((spells_repeated_one htake).mpr ⟨Nat.zero_le _, fun x hx => ?_⟩))
        hindent
    simpa [CharClass.contains, ClassItem.contains, Scan.isGap] using hgaps x hx
  have hall : (Catalog.onLines F.statements).Goes bound texts c.before
      (indent ++ block indent ss) out [] names :=
    .append (.nil_then (goes_lineStart hfresh) hlead) hrun
  obtain ⟨d, hl, hd⟩ := Cursor.exists_leads (hafter.trans (List.append_assoc _ _ _).symm)
  obtain ⟨caps, hmem, -⟩ := hall rfl hl hd hroom (List.forall_mem_nil _)
  obtain ⟨w, hw⟩ := Option.isSome_iff_exists.mp (List.isSome_head?.mpr (List.ne_nil_of_mem hmem))
  exact ⟨w.1, w.2, hw⟩

/-! #### Passes over a paragraph -/

theorem Finds.length_eq {rs : List Regex} {names : List String} (h : Finds texts rs ss names) :
    rs.length = ss.length := by
  induction h with
  | one => rfl
  | next _ _ _ ih => rw [List.length_cons, List.length_cons, ih]

theorem Folds.length_eq {new : Statement} (h : F.Folds ss new) :
    F.statements.length = ss.length := by
  obtain ⟨texts, -, hfinds⟩ := h.found []
  exact hfinds.length_eq

theorem Folds.ne_nil {new : Statement} (h : F.Folds ss new) : ss ≠ [] := by
  have hlen := h.length_eq
  have htwo := F.two_le_length
  rintro rfl
  rw [List.length_nil] at hlen
  omega

/-- What a fold leaves of the first statements of a paragraph, others being left behind them. -/
inductive Step (F : Fold) : List Statement → List Statement → Statement → Prop where
  /-- A statement where no match starts. -/
  | keep {s : Statement} {left : List Statement} :
    (∀ texts matched, matched <+: s :: left → ¬ Reads texts F.statements matched) →
      Step F [s] left s
  /-- Statements that are matched. -/
  | fold {front left : List Statement} {new : Statement} : F.Folds front new → Step F front left new

/-- What a fold makes of the statements of a paragraph. -/
inductive FoldsTo (F : Fold) : List Statement → List Statement → Prop where
  | done : FoldsTo F [] []
  | step {front left left' : List Statement} {new : Statement} : F.Step front left new →
    FoldsTo F left left' → FoldsTo F (front ++ left) (new :: left')

variable {front left' : List Statement} {new : Statement}

theorem Step.ne_nil (h : F.Step front left new) : front ≠ [] := by
  cases h with
  | keep => simp
  | fold h => exact h.ne_nil

theorem FoldsTo.eq_nil_iff {ss' : List Statement} (h : F.FoldsTo ss ss') : ss = [] ↔ ss' = [] := by
  cases h with
  | done => exact Iff.rfl
  | step h _ => simp [h.ne_nil]

/-- A text without a line end in front of its last character is skipped if no match starts in front
of it. -/
theorem skips_of_line (hl : c.Leads w d) (hnone : F.onLines.attempt bound c = none)
    (hline : ∀ u v, w = u ++ v → v ≠ [] → '\n' ∉ u) : F.onLines.regex.Skips bound c w d := by
  refine .of_attempts hl fun u v e hw hv hu => ?_
  rcases List.eq_nil_or_concat u with rfl | ⟨init, x, rfl⟩
  · rw [hu.eq_of_nil]
    exact hnone
  · rw [List.concat_eq_append] at hw hu
    have hx : x ≠ '\n' := fun h => hline _ v hw hv (by simp [h])
    refine F.attempt_of_not_lineStart ?_
    rw [Anchor.holds, hu.before]
    simpa using hx

section
variable (hgaps : ∀ c ∈ indent, Scan.isGap c = true) (hbehind : Stops behind)
include hgaps hbehind

/-- **One step.**  From the start of a line on, a pass goes over the first statements of a
paragraph. -/
theorem Step.pass (h : F.Step front left new) (hsound : ∀ t ∈ front ++ left, t.Sound)
    (hfresh : Fresh c.before)
    (hroom : c.after.length ≤ bound)
    (hafter : c.after = indent ++ (block indent (front ++ left) ++ behind))
    (hpass : ∀ d, c.Leads (indent ++ block indent front) d →
      ∃ hits, F.onLines.Pass bound d hits out) :
    ∃ hits, F.onLines.Pass bound c hits (indent ++ (new.text ++ out)) := by
  have hfront : c.after = indent ++ (block indent front ++ (rows indent left ++ behind)) := by
    rw [hafter, block_append h.ne_nil, List.append_assoc]
  cases h with
  | keep hkeep =>
    have hnone : F.onLines.attempt bound c = none := by
      rw [Option.eq_none_iff_forall_ne_some]
      rintro ⟨d, caps⟩ ha
      obtain ⟨matched, left, hss, hreads, -⟩ := reads_of_attempt hgaps hbehind hsound hafter ha
      exact hkeep _ matched ⟨left, hss.symm⟩ hreads
    obtain ⟨d, hl, -⟩ := Cursor.exists_leads (hfront.trans (List.append_assoc _ _ _).symm)
    obtain ⟨hits, hrest⟩ := hpass d hl
    have hblock : block indent [new] = new.text := by
      rw [block, rows, List.flatMap_nil, List.append_nil]
    have hline : '\n' ∉ indent ++ new.text := by
      have hs := (hsound new List.mem_cons_self).body_line.2.2
      rw [Statement.text]
      simp only [List.mem_append, List.mem_singleton, not_or]
      exact ⟨fun hin => absurd (hgaps _ hin) (by decide), hs, by decide⟩
    rw [hblock] at hl
    have hskips := skips_of_line hl hnone fun u v huv _ hin =>
      hline (huv ▸ List.mem_append_left v hin)
    refine ⟨hits, ?_⟩
    rw [← List.append_assoc]
    exact .of_skips hskips hrest
  | fold hfold =>
    obtain ⟨d, caps, ha⟩ := exists_attempt hfresh hfold hgaps hroom hfront
    obtain ⟨s, rest, hrest⟩ := List.exists_cons_of_ne_nil hfold.ne_nil
    rw [hrest, List.cons_append] at hsound hafter
    obtain ⟨matched, left', hss, hreads, hl, hindent⟩ :=
      reads_of_attempt hgaps hbehind hsound hafter ha
    rw [← List.cons_append, ← hrest] at hss
    -- As many statements are matched as the fold has.
    obtain ⟨rfl, -⟩ := List.append_inj hss (hfold.length_eq.symm.trans hreads.length_eq)
    obtain ⟨hits, hpass⟩ := hpass d hl
    have hfill : F.onLines.template.fill caps.textOf = indent ++ new.text := by
      have hcons : F.onLines.template.fill caps.textOf =
          (caps.textOf "indent").getD [] ++ F.replacement.fill caps.textOf := rfl
      rw [hcons, hindent, Option.getD_some, hfold.filled _ hreads]
    refine ⟨⟨c, d, caps⟩ :: hits, ?_⟩
    rw [← List.append_assoc, ← hfill]
    exact .hit ha hpass

end

/-! #### Ends of lines -/

theorem getLast?_block (indent : List Char) (hne : ss ≠ []) :
    (block indent ss).getLast? = some ';' := by
  obtain ⟨s, ss, rfl⟩ := List.exists_cons_of_ne_nil hne
  induction ss generalizing s with
  | nil => simp [block, rows, Statement.text]
  | cons s' ss ih =>
    have hrest := ih s' (by simp)
    rw [block, rows_cons, List.getLast?_append, List.getLast?_cons, List.getLast?_append, hrest]
    rfl

/-- The position behind a statement. -/
def Ended (d : Cursor) : Prop := d.before.head? = some ';'

theorem after_of_leads {indent behind : List Char} {front left : List Statement} (hne : front ≠ [])
    (hafter : c.after = indent ++ (block indent (front ++ left) ++ behind))
    (hl : c.Leads (indent ++ block indent front) d) : d.after = rows indent left ++ behind := by
  have h := hl.after
  rw [hafter, block_append hne, ← List.append_assoc, ← List.append_assoc,
    List.append_assoc (indent ++ _), List.append_cancel_left_eq] at h
  exact h.symm

theorem ended_of_leads (hne : ss ≠ []) (hl : c.Leads (w ++ block indent ss) d) : Ended d := by
  rw [Ended, hl.before, List.reverse_append, List.append_assoc, List.head?_append,
    List.head?_reverse, getLast?_block indent hne]
  rfl

/-- No match starts there, and behind the line end the next line starts. -/
theorem Ended.pass {e : Cursor} {hits : List Hit} (hd : Ended d) (hl : d.Leads ['\n'] e)
    (hpass : F.onLines.Pass bound e hits out) : F.onLines.Pass bound d hits ('\n' :: out) :=
  .skip (attempt_of_not_lineStart (by rw [Anchor.holds, hd]; rfl)) hl.next? hpass

theorem Ended.fresh {e : Cursor} (hd : Ended d) (hl : d.Leads ['\n'] e) : Fresh e.before := by
  obtain ⟨rest, hrest⟩ := List.head?_eq_some_iff.mp hd
  exact .inr ⟨';', rest, by rw [hl.before, hrest]; rfl, .inl rfl⟩

section
variable (hgaps : ∀ c ∈ indent, Scan.isGap c = true) (hbehind : Stops behind)
include hgaps hbehind

/-- What is left behind a statement is folded line by line. -/
theorem FoldsTo.pass_rows {ss' : List Statement} (h : F.FoldsTo ss ss') (hsound : ∀ t ∈ ss, t.Sound)
    (hd : Ended d) (hroom : d.after.length ≤ bound) (hafter : d.after = rows indent ss ++ behind)
    (hpass : ∀ e, Ended e → d.Leads (rows indent ss) e → ∃ hits, F.onLines.Pass bound e hits out) :
    ∃ hits, F.onLines.Pass bound d hits (rows indent ss' ++ out) := by
  induction h generalizing d with
  | done => exact hpass d hd (.refl d)
  | @step front left left' new h _ ih =>
    have hrows : rows indent (front ++ left) = ['\n'] ++
        ((indent ++ block indent front) ++ rows indent left) := by
      rw [rows_append, rows_of_ne_nil indent h.ne_nil]
      simp
    obtain ⟨e, he, heafter⟩ := Cursor.exists_leads (u := ['\n'])
      (v := indent ++ (block indent (front ++ left) ++ behind)) (c := d) (by
        rw [hafter, hrows, block_append h.ne_nil]
        simp)
    obtain ⟨hits, hrest⟩ :=
      h.pass hgaps hbehind hsound (hd.fresh he) (he.length_le.trans hroom) heafter
      fun d' hl =>
        ih (fun t ht => hsound t (List.mem_append_right front ht)) (ended_of_leads h.ne_nil hl)
        ((he.trans hl).length_le.trans hroom) (after_of_leads h.ne_nil heafter hl)
          fun e' hended hl' =>
          hpass e' hended (hrows ▸ he.trans (hl.trans hl'))
    refine ⟨hits, ?_⟩
    rw [rows_cons, block]
    simpa using hd.pass he hrest

/-- **A paragraph** is folded from its first line on. -/
theorem FoldsTo.pass_block {ss' : List Statement} (h : F.FoldsTo ss ss') (hne : ss ≠ [])
    (hsound : ∀ t ∈ ss, t.Sound)
    (hfresh : Fresh c.before) (hroom : c.after.length ≤ bound)
    (hafter : c.after = indent ++ (block indent ss ++ behind))
    (hpass : ∀ e, Ended e → c.Leads (indent ++ block indent ss) e →
      ∃ hits, F.onLines.Pass bound e hits out) :
    ∃ hits, F.onLines.Pass bound c hits (indent ++ (block indent ss' ++ out)) := by
  cases h with
  | done => exact absurd rfl hne
  | @step front left left' new h hrest =>
    rw [block, List.append_assoc]
    refine h.pass hgaps hbehind hsound hfresh hroom hafter fun d hl => hrest.pass_rows hgaps hbehind
      (fun t ht => hsound t (List.mem_append_right front ht)) (ended_of_leads h.ne_nil hl)
        (hl.length_le.trans hroom)
        (after_of_leads h.ne_nil hafter hl) fun e hended hl' => hpass e hended ?_
    have hall := hl.trans hl'
    rwa [List.append_assoc, ← block_append h.ne_nil] at hall

end

/-! #### Passes over a listing -/

/-- A fold makes one paragraph of another. -/
structure On (F : Fold) (p p' : Paragraph) : Prop where
  /-- The indentation stays. -/
  indent : p.indent = p'.indent
  /-- The statements are folded. -/
  folds : F.FoldsTo p.statements p'.statements

/-- At the end of the text, perhaps behind a line end, no match starts any more. -/
theorem pass_ending {ending : List Char} (hending : ending = [] ∨ ending = ['\n'])
    (hafter : c.after = ending) (hnone : F.onLines.attempt bound c = none) :
    ∃ hits, F.onLines.Pass bound c hits ending := by
  rcases hending with rfl | rfl
  · exact ⟨[], .done hafter hnone⟩
  · obtain ⟨e, he, hend⟩ := Cursor.exists_leads (u := ['\n']) (v := []) hafter
    exact ⟨[], .skip hnone he.next? (.done hend (attempt_of_head? (by rw [hend]; rfl)))⟩

/-- **A listing** is folded paragraph by paragraph. -/
theorem pass_listing {ps ps' : List Paragraph} (h : List.Forall₂ F.On ps ps')
    (hsound : ∀ p ∈ ps, p.Sound) {ending : List Char} (hending : ending = [] ∨ ending = ['\n'])
    (hfresh : Fresh c.before) (hroom : c.after.length ≤ bound)
    (hafter : c.after = listing ps ++ ending) :
    ∃ hits, F.onLines.Pass bound c hits (listing ps' ++ ending) := by
  induction h generalizing c with
  | nil =>
    exact pass_ending hending hafter
      (attempt_of_head? (by rcases hending with rfl | rfl <;> rw [hafter] <;> rfl))
  | @cons p p' ps ps' hp hps ih =>
    rw [List.forall_mem_cons] at hsound
    have hne : p'.statements ≠ [] := fun h => hsound.1.ne_nil (hp.folds.eq_nil_iff.mpr h)
    rw [listing_cons, Paragraph.text_eq hsound.1.ne_nil, List.append_assoc,
      List.append_assoc] at hafter
    rw [listing_cons, Paragraph.text_eq hne, ← hp.indent, List.append_assoc, List.append_assoc]
    have hstops : Stops ((if ps = [] then [] else '\n' :: '\n' :: listing ps) ++ ending) := by
      split_ifs
      · rcases hending with rfl | rfl <;> exact ⟨rfl, rfl⟩
      · exact ⟨rfl, rfl⟩
    refine hp.folds.pass_block p.indent.2 hstops hsound.1.ne_nil hsound.1.sound hfresh hroom hafter
      fun e hended hl => ?_
    have hrest := hl.after
    rw [hafter, ← List.append_assoc, List.append_cancel_left_eq] at hrest
    have hroom' : e.after.length ≤ bound := hl.length_le.trans hroom
    cases hps with
    | nil =>
      exact pass_ending hending hrest.symm
        (attempt_of_not_lineStart (by rw [Anchor.holds, hended]; rfl))
    | @cons q q' ps ps' _ _ =>
      -- Behind the line end there is an empty line, and then the next paragraph.
      obtain ⟨e₁, he₁, hafter₁⟩ :=
        Cursor.exists_leads (u := ['\n']) (v := '\n' :: (listing (q :: ps) ++ ending)) hrest.symm
      obtain ⟨e₂, he₂, hafter₂⟩ :=
        Cursor.exists_leads (u := ['\n']) (v := listing (q :: ps) ++ ending) hafter₁
      have hfresh₂ : Fresh e₂.before :=
        .inr ⟨'\n', e.before, by rw [he₂.before, he₁.before]; rfl, .inr rfl⟩
      obtain ⟨hits, hpass⟩ := ih hsound.2 hfresh₂ ((he₁.trans he₂).length_le.trans hroom') hafter₂
      exact ⟨hits,
        hended.pass he₁ (.skip (attempt_of_head? (by rw [hafter₁]; rfl)) he₂.next? hpass)⟩

/-! #### Semicolons inside of a line -/

/-- Every semicolon stands at the end of a line. -/
def Ruled (text : List Char) : Prop := ∀ u v, text = u ++ ';' :: v → v.head?.all (· == '\n') = true

theorem Ruled.of_notMem (h : ';' ∉ w) : Ruled w := by
  rintro u v rfl
  exact absurd (by simp) h

theorem Ruled.concat (h : ';' ∉ w) : Ruled (w ++ [';']) := by
  intro u v huv
  have hnil : ';' ∉ ([] : List Char) := by simp
  obtain ⟨-, -, rfl⟩ := (List.append_cons_inj_of_notMem h hnil).mp huv
  rfl

theorem Ruled.cons {x : Char} (h : Ruled w) (hx : x ≠ ';') : Ruled (x :: w) := by
  intro u v huv
  cases u with
  | nil => exact absurd (List.cons.inj huv).1 hx
  | cons y u => exact h u v (List.cons.inj huv).2

theorem Ruled.append {u v : List Char} (hu : Ruled u) (hv : Ruled v)
    (h : v.head?.all (· == '\n') = true) : Ruled (u ++ v) := by
  intro a b hab
  rcases List.append_eq_append_iff.mp hab with ⟨w, rfl, hw⟩ | ⟨w, rfl, hw⟩
  · exact hv w b hw
  · cases w with
    | nil =>
      rw [List.nil_append] at hw
      simp [← hw] at h
    | cons x w =>
      obtain ⟨rfl, rfl⟩ := List.cons.inj hw
      have hline := hu a w rfl
      cases w with
      | nil => exact h
      | cons y w => exact hline

theorem head?_rows (indent : List Char) (ss : List Statement) :
    (rows indent ss).head?.all (· == '\n') = true := by
  cases ss with
  | nil => rfl
  | cons s ss => rw [rows_cons]; rfl

theorem ruled_rows (hgaps : ∀ c ∈ indent, Scan.isGap c = true) (hsound : ∀ s ∈ ss, s.Sound) :
    Ruled (rows indent ss) := by
  induction ss with
  | nil => exact .of_notMem (by simp [rows])
  | cons s ss ih =>
    rw [List.forall_mem_cons] at hsound
    have hline : ';' ∉ '\n' :: (indent ++ s.body) := by
      simp only [List.mem_cons, List.mem_append, not_or]
      exact ⟨by decide, fun hin => absurd (hgaps _ hin) (by decide), hsound.1.body_line.2.1⟩
    have hrows : rows indent (s :: ss) = '\n' :: (indent ++ s.body) ++ [';'] ++ rows indent ss := by
      rw [rows_cons, block, Statement.text]
      simp
    rw [hrows]
    exact (Ruled.concat hline).append (ih hsound.2) (head?_rows indent ss)

theorem ruled_paragraph {p : Paragraph} (h : p.Sound) : Ruled p.text := by
  rw [Paragraph.text_eq h.ne_nil]
  have hrows := ruled_rows p.indent.2 h.sound
  rw [rows_of_ne_nil _ h.ne_nil] at hrows
  rintro u v huv
  exact hrows ('\n' :: u) v (by rw [huv, List.cons_append])

theorem ruled_listing {ps : List Paragraph} (hsound : ∀ p ∈ ps, p.Sound) {ending : List Char}
    (hending : ending = [] ∨ ending = ['\n']) : Ruled (listing ps ++ ending) := by
  induction ps with
  | nil => exact .of_notMem (by rcases hending with rfl | rfl <;> simp [listing])
  | cons p ps ih =>
    rw [List.forall_mem_cons] at hsound
    rw [listing_cons, List.append_assoc]
    refine (ruled_paragraph hsound.1).append ?_ ?_
    · split_ifs
      · exact .of_notMem (by rcases hending with rfl | rfl <;> simp)
      · exact ((ih hsound.2).cons (by decide)).cons (by decide)
    · split_ifs
      · rcases hending with rfl | rfl <;> rfl
      · rfl

/-- Where every semicolon stands at the end of a line, no two statements share one. -/
theorem not_spells_onOneLine {text : List Char} (hruled : Ruled text) (hm : m <:+: text) :
    ¬ (onOneLine F.statements).Spells (.of texts) m := by
  rintro ⟨lead, run, rfl, -, hrun⟩
  have hbasic : (joined (many gap) F.statements).Basic :=
    (F.regular (.ofRegex (onOneLine F.statements) (.group "lead" :: F.replacement))
      (List.mem_cons_of_mem _ List.mem_cons_self)).basic.of_cat.2
  have hclose : ∀ r ∈ F.statements, ∀ u, r.Spells (.of texts) u → Closes u :=
    fun r hr u => F.closes_of_spells rfl hbasic hrun hr
  obtain ⟨r, r', rs, hrs⟩ : ∃ r r' rs, F.statements = r :: r' :: rs := by
    have hlen := F.two_le_length
    match F.statements, hlen with
    | r :: r' :: rs, _ => exact ⟨r, r', rs, rfl⟩
  rw [hrs] at hrun hclose
  obtain ⟨_, run', rfl, ⟨u, gaps, rfl, hu, hgaps⟩, hrun'⟩ := hrun
  obtain ⟨w, rfl⟩ := (hclose r (by simp) u hu).last
  obtain ⟨c, v, rfl, hgap, hc⟩ := first_of_spells_joined (hclose r' (by simp)) hrun'
  obtain ⟨x, y, htext⟩ := hm
  have hend := hruled (x ++ lead ++ w) (gaps ++ (c :: v) ++ y) (by rw [← htext]; simp)
  cases gaps with
  | nil => simp [hc] at hend
  | cons d gaps =>
    obtain rfl : d = '\n' := by simpa using hend
    exact absurd (gaps_of_spells hgaps '\n' List.mem_cons_self) (by decide)

end Fold

/-! ### Folds one after another -/

open Fold

/-- What folds that are applied one after another make of the statements of a paragraph. -/
inductive Chain : List Fold → List Statement → List Statement → Prop where
  | done {ss : List Statement} : Chain [] ss ss
  | fold {F : Fold} {Fs : List Fold} {ss ss' ss'' : List Statement} : F.FoldsTo ss ss' →
    Chain Fs ss' ss'' → Chain (F :: Fs) ss ss''

/-- They make one paragraph of another. -/
structure Chain.On (Fs : List Fold) (p p' : Paragraph) : Prop where
  /-- The indentation stays. -/
  indent : p.indent = p'.indent
  /-- The statements are folded. -/
  folds : Chain Fs p.statements p'.statements

/-- What is left of a sound paragraph is sound. -/
theorem Fold.On.sound {F : Fold} {p p' : Paragraph} (h : F.On p p') (hp : p.Sound) : p'.Sound := by
  have hsound : ∀ {ss ss' : List Statement}, F.FoldsTo ss ss' → (∀ s ∈ ss, s.Sound) →
      ∀ s ∈ ss', s.Sound := by
    intro ss ss' h hss
    induction h with
    | done => exact hss
    | step hstep _ ih =>
      rw [List.forall_mem_append] at hss
      refine List.forall_mem_cons.mpr ⟨?_, ih hss.2⟩
      cases hstep with
      | keep _ => exact hss.1 _ (List.mem_singleton_self _)
      | fold hfold => exact hfold.sound
  exact ⟨fun hnil => hp.ne_nil (h.folds.eq_nil_iff.mpr hnil), hsound h.folds hp.sound⟩

theorem Fold.On.sound_of_forall₂ {F : Fold} {ps ps' : List Paragraph} (h : List.Forall₂ F.On ps ps')
    (hsound : ∀ p ∈ ps, p.Sound) : ∀ p ∈ ps', p.Sound := by
  induction h with
  | nil => exact hsound
  | cons hp _ ih =>
    rw [List.forall_mem_cons] at hsound ⊢
    exact ⟨hp.sound hsound.1, ih hsound.2⟩

/-- There are no statements that a fold matches. -/
def Fold.Idle (F : Fold) (ss : List Statement) : Prop :=
  ∀ texts matched, matched <:+: ss → ¬ Reads texts F.statements matched

/-- Then it does nothing. -/
theorem Fold.Idle.foldsTo {F : Fold} {ss : List Statement} (h : F.Idle ss) : F.FoldsTo ss ss := by
  induction ss with
  | nil => exact .done
  | cons s ss ih =>
    exact .step (.keep fun texts matched hm => h texts matched hm.isInfix)
      (ih fun texts matched hm => h texts matched (hm.trans (List.suffix_cons s ss).isInfix))

/-- The statements are too few. -/
theorem Fold.Idle.of_length {F : Fold} {ss : List Statement} (h : ss.length < F.statements.length) :
    F.Idle ss :=
  fun _ _ hm hreads => absurd (hreads.length_eq.trans_le hm.length_le) (Nat.not_le.mpr h)

/-- The statements are of other kinds. -/
theorem Fold.Idle.of_shapes {F : Fold} {ss : List Statement} (hsound : ∀ s ∈ ss, s.Sound)
    (h : ¬ F.shapes <:+: ss.map Statement.shape) : F.Idle ss := fun _ _ hm hreads =>
  h (F.asks (fun s hs => hsound s (hm.subset hs)) hreads ▸ hm.map Statement.shape)

theorem Chain.append {Fs Gs : List Fold} {ss ss' ss'' : List Statement} (h : Chain Fs ss ss')
    (h' : Chain Gs ss' ss'') : Chain (Fs ++ Gs) ss ss'' := by
  induction h with
  | done => exact h'
  | fold hfold _ ih => exact .fold hfold (ih h')

theorem Chain.idle {Fs : List Fold} {ss : List Statement} (h : ∀ F ∈ Fs, F.Idle ss) :
    Chain Fs ss ss := by
  induction Fs with
  | nil => exact .done
  | cons F Fs ih =>
    rw [List.forall_mem_cons] at h
    exact .fold h.1.foldsTo (ih h.2)

/-- The kinds that one fold looks for are neither those of another one nor a part of them. -/
structure Separate (Fs : List Fold) : Prop where
  /-- No two look for the same kinds. -/
  nodup : (Fs.map Fold.shapes).Nodup
  /-- None looks for a part of what another one looks for. -/
  eq_of_infix : ∀ F ∈ Fs, ∀ G ∈ Fs, G.shapes <:+: F.shapes → G.shapes = F.shapes

/-- **One fold of many.**  If the others match nothing, neither before it nor behind it, one fold of
a list does all. -/
theorem Chain.of_mem {Fs : List Fold} {F : Fold} {ss ss' : List Statement} (hF : F ∈ Fs)
    (hnodup : (Fs.map Fold.shapes).Nodup) (hidle : ∀ G ∈ Fs, G.shapes = F.shapes ∨ G.Idle ss)
    (hfold : F.FoldsTo ss ss') (hdone : ∀ G ∈ Fs, G.Idle ss') : Chain Fs ss ss' := by
  induction Fs with
  | nil => cases hF
  | cons G Fs ih =>
    rw [List.forall_mem_cons] at hidle hdone
    rw [List.map_cons, List.nodup_cons] at hnodup
    rcases List.mem_cons.mp hF with rfl | hF
    · exact .fold hfold (.idle hdone.2)
    · have hne : G.shapes ≠ F.shapes := fun h => hnodup.1 (h ▸ List.mem_map_of_mem hF)
      exact .fold (hidle.1.resolve_left hne).foldsTo (ih hF hnodup.2 hidle.2 hdone.2)

/-- A single statement is left alone. -/
theorem Fold.idle_singleton (F : Fold) (s : Statement) : F.Idle [s] := .of_length F.two_le_length

/-- One of many folds makes one statement of all. -/
theorem Chain.of_folds {Fs : List Fold} {F : Fold} {ss : List Statement} {new : Statement}
    (hF : F ∈ Fs) (hFs : Separate Fs) (hsound : ∀ s ∈ ss, s.Sound)
    (hshapes : ss.map Statement.shape = F.shapes) (h : F.Folds ss new) : Chain Fs ss [new] := by
  refine .of_mem hF hFs.nodup (fun G hG => ?_) ?_ fun G _ => G.idle_singleton new
  · by_cases hinfix : G.shapes <:+: F.shapes
    · exact .inl (hFs.eq_of_infix F hF G hG hinfix)
    · exact .inr (.of_shapes hsound (hshapes ▸ hinfix))
  · have hall : F.FoldsTo (ss ++ []) [new] := .step (.fold h) .done
    rwa [List.append_nil] at hall

theorem Chain.split {F : Fold} {Fs : List Fold} {ps ps' : List Paragraph}
    (h : List.Forall₂ (Chain.On (F :: Fs)) ps ps') :
    ∃ qs, List.Forall₂ F.On ps qs ∧ List.Forall₂ (Chain.On Fs) qs ps' := by
  induction h with
  | nil => exact ⟨[], .nil, .nil⟩
  | @cons p p' _ _ hp _ ih =>
    obtain ⟨qs, hfirst, hrest⟩ := ih
    obtain ⟨hindent, hfolds⟩ := hp
    cases hfolds with
    | @fold _ _ _ ss' _ hstep hchain =>
      exact ⟨⟨p.indent, ss'⟩ :: qs, .cons ⟨rfl, hstep⟩ hfirst, .cons ⟨hindent, hchain⟩ hrest⟩

/-- **A fold of a listing.**  Its patterns fold each paragraph, whatever the budget is. -/
theorem Fold.applyAll_patterns (F : Fold) {ps ps' : List Paragraph} (h : List.Forall₂ F.On ps ps')
    (hsound : ∀ p ∈ ps, p.Sound) {ending : List Char} (hending : ending = [] ∨ ending = ['\n'])
    {budget : Nat} {out : List Char}
    (hout : Pattern.applyAll (F.patterns.map (Pattern.withBudget budget))
      (listing ps ++ ending) = .ok out) :
    out = listing ps' ++ ending := by
  have hsound' := Fold.On.sound_of_forall₂ h hsound
  obtain ⟨o, ho, hrest⟩ := Pattern.applyAll_cons_eq_ok.mp hout
  obtain ⟨o', ho', hrest'⟩ := Pattern.applyAll_cons_eq_ok.mp hrest
  obtain ⟨hits, hpass⟩ :=
    pass_listing (c := .ofText (listing ps ++ ending)) h hsound hending (.inl rfl) le_rfl rfl
  have hlines : o.getD (listing ps ++ ending) = listing ps' ++ ending :=
    ((F.regular F.onLines List.mem_cons_self).withBudget budget).getD_of_pass
      (hpass.withBudget budget) ho
  rw [hlines] at ho' hrest'
  have hone := ((F.regular (.ofRegex (onOneLine F.statements) (.group "lead" :: F.replacement))
    (List.mem_cons_of_mem _ List.mem_cons_self)).withBudget budget).getD_of_idle
      (fun m texts hm => not_spells_onOneLine (ruled_listing hsound' hending) hm) ho'
  rw [hone] at hrest'
  exact (Except.ok.inj hrest').symm

/-- Folds one after another. -/
theorem Chain.applyAll {Fs : List Fold} {ps ps' : List Paragraph}
    (h : List.Forall₂ (Chain.On Fs) ps ps')
    (hsound : ∀ p ∈ ps, p.Sound) {ending : List Char} (hending : ending = [] ∨ ending = ['\n'])
    {budget : Nat} {out : List Char}
    (hout : Pattern.applyAll ((Fs.flatMap Fold.patterns).map (Pattern.withBudget budget))
      (listing ps ++ ending) = .ok out) : out = listing ps' ++ ending := by
  induction Fs generalizing ps with
  | nil =>
    have heq : ps = ps' := by
      have hone : ∀ {p p' : Paragraph}, Chain.On [] p p' → p = p' := by
        rintro ⟨indent, ss⟩ ⟨indent', ss'⟩ ⟨rfl, hfolds⟩
        cases hfolds
        rfl
      exact List.forall₂_eq_eq_eq ▸ h.imp fun _ _ => hone
    rw [← heq]
    exact (Except.ok.inj hout).symm
  | cons F Fs ih =>
    obtain ⟨qs, hfirst, hrest⟩ := Chain.split h
    rw [List.flatMap_cons, List.map_append] at hout
    obtain ⟨mid, hmid, hlast⟩ := Pattern.applyAll_append_eq_ok.mp hout
    rw [F.applyAll_patterns hfirst hsound hending hmid] at hlast
    exact ih hrest (Fold.On.sound_of_forall₂ hfirst hsound) hlast

end CApiUpgrade.Ownership
