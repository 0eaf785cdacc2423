import CApiUpgrade.Proofs.Control
import CApiUpgrade.Proofs.Repetition

/-!
# Folds and the bodies of control statements

The first statement behind the header of a control statement is its body if there are no braces.
Folding it with the next statement would change what is conditional, so a fold looks back at the
line above: a run that starts a line is not folded behind `)`, `else` or `do`, up to two trailing
blanks and either kind of line end (`fold_not_controlled`).

The guard does not see every header.  With three trailing blanks it sees none, and an `else` or `do`
at the very start of the text has no character in front of it, which the guard asks for
(`fold_captures_unbraced_body`).
-/

namespace CApiUpgrade

open Text

/-! ### Looking back -/

namespace Regex

/-- An expression of fixed width takes a text, character by character. -/
def Takes (r : Regex) (w : List Char) : Prop :=
  ∃ ps, r.tests? = some ps ∧ ps.length = w.length ∧ fits ps w = true

theorem Takes.append {a b : Regex} {u v : List Char} (ha : a.Takes u) (hb : b.Takes v) :
    (a ++ b).Takes (u ++ v) := by
  obtain ⟨ps, hps, hlen, hfits⟩ := ha
  obtain ⟨qs, hqs, hlen', hfits'⟩ := hb
  refine ⟨ps ++ qs, ?_, by simp [hlen, hlen'], ?_⟩
  · show (cat a b).tests? = _
    simp [tests?, hps, hqs]
  · rw [fits_append hlen, hfits, hfits', Bool.and_self]

variable {terms : Terms} {cur : Cursor} {caps : Captures} {w : Way}

theorem eq_of_mem_ways_notAfter {body : Regex} (h : w ∈ (notAfter body).ways terms cur caps) :
    w = (cur, caps) := by
  unfold notAfter ways at h
  simp only [↓reduceIte] at h
  split_ifs at h
  · exact List.mem_singleton.mp h
  · simp at h

/-- Assertions that hold together hold one by one. -/
theorem ways_ne_nil_of_mem_seq {bodies : List Regex}
    (h : w ∈ (seq (bodies.map notAfter)).ways terms cur caps) {body : Regex}
    (hbody : body ∈ bodies) : (notAfter body).ways terms cur caps ≠ [] := by
  induction bodies generalizing w with
  | nil => simp at hbody
  | cons first bodies ih =>
    cases bodies with
    | nil =>
      rw [List.mem_singleton.mp hbody]
      exact List.ne_nil_of_mem h
    | cons second bodies =>
      obtain ⟨v, hv, hw⟩ := List.mem_flatMap.mp h
      obtain rfl := eq_of_mem_ways_notAfter hv
      rcases List.mem_cons.mp hbody with rfl | hbody
      · exact List.ne_nil_of_mem hv
      · exact ih hw hbody

/-- Where an assertion holds, no text ends that its expression takes. -/
theorem not_takes_of_ways_ne_nil {body : Regex} {ps : List (Char → Bool)}
    (hps : body.tests? = some ps) (hwidth : body.minWidth = ps.length)
    (h : (notAfter body).ways terms cur caps ≠ []) {u rest : List Char}
    (hbefore : cur.before = u.reverse ++ rest) : ¬ body.Takes u := by
  rintro ⟨qs, hqs, hlen, hfits⟩
  obtain rfl : ps = qs := Option.some.inj (hps.symm.trans hqs)
  have hbehind : fits ps.reverse cur.before = true := by
    have hwhole := @fits_append ps.reverse [] u.reverse (by simp [hlen]) rest
    rw [List.append_nil, fits_reverse hlen, hfits] at hwhole
    rw [hbefore, hwhole]
    rfl
  rw [notAfter, hwidth, ways_notAfter hps, hbehind] at h
  exact h rfl

end Regex

namespace Catalog

open Regex

/-- Whether a character belongs to an identifier: a letter of the English alphabet, a digit or an
underscore. -/
def isIdentifierChar (c : Char) : Bool := Chain.wordItems.any (·.contains c)

/-- The end of a control statement's header, as the guard looks for it. -/
inductive HeaderEnd : List Char → Prop where
  /-- The parenthesis behind a condition. -/
  | paren : HeaderEnd [')']
  /-- A word that stands alone, and the character in front of it. -/
  | word {c : Char} {word : String} : isIdentifierChar c = false → word ∈ ["else", "do"] →
    HeaderEnd (c :: word.toList)

theorem HeaderEnd.takes {header : List Char} (h : HeaderEnd header) :
    ∃ r ∈ [char ')', except Chain.wordItems ++ literal "else",
      except Chain.wordItems ++ literal "do"], r.Takes header := by
  cases h with
  | paren => exact ⟨char ')', by simp, _, rfl, rfl, rfl⟩
  | @word c word hc hword =>
    have hother : (Regex.except Chain.wordItems).Takes [c] :=
      ⟨_, rfl, rfl, by simpa [fits, CharClass.contains, isIdentifierChar] using hc⟩
    have hletters : (literal word).Takes word.toList := by
      rcases List.mem_pair.mp hword with rfl | rfl
      · exact ⟨_, rfl, rfl, by decide⟩
      · exact ⟨_, rfl, rfl, by decide⟩
    refine ⟨except Chain.wordItems ++ literal word, ?_, hother.append hletters⟩
    rcases List.mem_pair.mp hword with rfl | rfl <;> simp

theorem takes_gap {c : Char} (h : Scan.isGap c = true) : gap.Takes [c] :=
  ⟨_, rfl, rfl, by simpa [fits, CharClass.contains, ClassItem.contains, Scan.isGap] using h⟩

/-- The blanks at the end of a line that the guard passes by. -/
theorem exists_takes_trailing {trailing : List Char} (hlen : trailing.length ≤ 2)
    (hgaps : ∀ c ∈ trailing, Scan.isGap c = true) :
    ∃ rs ∈ [[], [gap], [times 2 gap]], ∀ r u, r.Takes u →
      (seq (rs ++ [r])).Takes (trailing ++ u) := by
  match trailing, hlen with
  | [], _ => exact ⟨[], by simp, fun r u hu => hu⟩
  | [c], _ =>
    exact ⟨[gap], by simp, fun r u hu => (takes_gap (hgaps c (by simp))).append hu⟩
  | [c, d], _ =>
    have htwo : (times 2 gap).Takes [c, d] := by
      obtain ⟨ps, hps, hlen, hfits⟩ := (takes_gap (hgaps c (by simp))).append
        (takes_gap (hgaps d (by simp)))
      exact ⟨ps, hps, hlen, hfits⟩
    exact ⟨[times 2 gap], by simp, fun r u hu => htwo.append hu⟩

/-- What the guard looks for: the end of a header, up to two blanks and the end of the line. -/
theorem takes_controlEnds {header trailing lineEnd : List Char} (hheader : HeaderEnd header)
    (hlen : trailing.length ≤ 2) (hgaps : ∀ c ∈ trailing, Scan.isGap c = true)
    (hend : lineEnd ∈ ["\n".toList, "\r\n".toList]) :
    ∃ body ∈ controlEnds, body.Takes (header ++ (trailing ++ lineEnd)) := by
  obtain ⟨first, hfirst, htakes⟩ := hheader.takes
  obtain ⟨between, hbetween, htakes'⟩ := exists_takes_trailing hlen hgaps
  obtain ⟨last, hlast, htakes''⟩ : ∃ r ∈ [literal "\n", literal "\r\n"], r.Takes lineEnd := by
    rcases List.mem_pair.mp hend with rfl | rfl
    · exact ⟨literal "\n", by simp, _, rfl, rfl, by decide⟩
    · exact ⟨literal "\r\n", by simp, _, rfl, rfl, by decide⟩
  refine ⟨seq (first :: (between ++ [last])), ?_, ?_⟩
  · simp only [controlEnds, List.mem_flatMap, List.mem_map]
    exact ⟨first, hfirst, between, hbetween, last, hlast, rfl⟩
  · have hseq : seq (first :: (between ++ [last])) = first ++ seq (between ++ [last]) := by
      cases between <;> rfl
    rw [hseq]
    exact htakes.append (htakes' last lineEnd htakes'')

/-- The expressions of the guard have a fixed width each. -/
theorem minWidth_controlEnds {body : Regex} (h : body ∈ controlEnds) :
    ∃ ps, body.tests? = some ps ∧ body.minWidth = ps.length := by
  have hall : controlEnds.all (fun body => body.tests?.any (body.minWidth == ·.length)) = true :=
    rfl
  have hbody := List.all_eq_true.mp hall body h
  rw [Option.any_eq_true] at hbody
  obtain ⟨ps, hps, hwidth⟩ := hbody
  exact ⟨ps, hps, beq_iff_eq.mp hwidth⟩

/-- **The guard.**  Where it holds, the line above does not end in the header of a control
statement. -/
theorem not_headerEnd_of_mem_ways {terms : Terms} {cur : Cursor} {caps : Captures} {w : Way}
    (h : w ∈ notControlled.ways terms cur caps) {header trailing lineEnd rest : List Char}
    (hbefore : cur.before.reverse = rest ++ (header ++ (trailing ++ lineEnd)))
    (hlen : trailing.length ≤ 2) (hgaps : ∀ c ∈ trailing, Scan.isGap c = true)
    (hend : lineEnd ∈ ["\n".toList, "\r\n".toList]) : ¬ HeaderEnd header := by
  intro hheader
  obtain ⟨body, hbody, htakes⟩ := takes_controlEnds hheader hlen hgaps hend
  obtain ⟨ps, hps, hwidth⟩ := minWidth_controlEnds hbody
  have hbehind : cur.before = (header ++ (trailing ++ lineEnd)).reverse ++ rest.reverse := by
    rw [← List.reverse_append, ← hbefore, List.reverse_reverse]
  exact not_takes_of_ways_ne_nil hps hwidth (ways_ne_nil_of_mem_seq h hbody) hbehind htakes

/-! ### What stands in front of a run -/

/-- The patterns of the folds look for runs of statements, on consecutive lines or on one. -/
theorem exists_statements {rule : Rule} (hr : rule ∈ [clear, newRef, setRef]) {p : Pattern}
    (hp : p ∈ rule.patterns) :
    ∃ statements, p.regex = onLines statements ∨ p.regex = onOneLine statements := by
  have hadjacent : ∀ {statements : List Regex} {t : Template}, p ∈ adjacent statements t →
      ∃ statements, p.regex = onLines statements ∨ p.regex = onOneLine statements := by
    intro statements t h
    rcases List.mem_pair.mp h with rfl | rfl
    · exact ⟨statements, .inl rfl⟩
    · exact ⟨statements, .inr rfl⟩
  simp only [List.mem_cons, List.not_mem_nil, or_false] at hr
  rcases hr with rfl | rfl | rfl
  · exact hadjacent hp
  · obtain ⟨⟨increment, newRef⟩, -, hp⟩ := List.mem_flatMap.mp hp
    simp only [newRefFolds, List.mem_append] at hp
    rcases hp with (hp | hp) | hp <;> exact hadjacent hp
  · simp only [setRef, List.mem_append, List.mem_flatMap] at hp
    rcases hp with (⟨⟨decrement, setRef⟩, -, ⟨increment, newRef⟩, -, hp⟩ | ⟨e, -, hp⟩) | ⟨e, -, hp⟩
    · simp only [setNewRefFolds, List.mem_append] at hp
      rcases hp with hp | hp <;> exact hadjacent hp
    · exact hadjacent hp
    · exact hadjacent hp

end Catalog

/-- What the group at the front of an expression has matched.  For a fold, it is what stands in
front of the run: its indentation, or the character that it follows on its line and the blanks
between them. -/
def Pattern.lead (p : Pattern) (hit : Hit) : List Char :=
  (p.regex.leadingGroup?.bind hit.group?).getD []

/-- What a group of the first of two expressions has captured is kept to the end. -/
theorem Regex.Basic.exists_first_of_cat {a b : Regex} (hr : (a ++ b).Basic)
    (honce : (a ++ b).setsOnce = true) {terms : Terms} {cur stop : Cursor} {caps : Captures}
    (h : (stop, caps) ∈ (a ++ b).ways terms cur []) :
    ∃ mid caps₁, (mid, caps₁) ∈ a.ways terms cur [] ∧
      ∀ n ∈ a.groups, caps.textOf n = caps₁.textOf n := by
  change (Regex.cat a b).setsOnce = true at honce
  simp only [setsOnce, Bool.and_eq_true, List.all_eq_true, decide_eq_true_eq] at honce
  obtain ⟨⟨honcea, honceb⟩, hdisj⟩ := honce
  obtain ⟨⟨mid, caps₁⟩, hmid, hstop⟩ := List.mem_flatMap.mp h
  obtain ⟨-, new₁, -, rfl, hnew₁, -⟩ := hr.of_cat.1.reads_of_mem_ways honcea (by simp) hmid
  have hfresh : ∀ n ∈ b.groups, (new₁ ++ []).lookup n = none := by
    intro n hn
    rw [Captures.lookup_append_of_notMem fun e he heq => hdisj e.1 (hnew₁ e he) (heq ▸ hn)]
    rfl
  obtain ⟨-, new₂, -, rfl, hnew₂, -⟩ := hr.of_cat.2.reads_of_mem_ways honceb hfresh hstop
  refine ⟨mid, _, hmid, fun n hn => ?_⟩
  have hkept : ∀ e ∈ new₂, e.1 ≠ n := fun e he heq => hdisj n hn (heq ▸ hnew₂ e he)
  rw [Captures.textOf, Captures.textOf, Captures.lookup_append_of_notMem hkept]

namespace Catalog

open Regex

/-- Blanks at the start of a line, where the guard holds. -/
def StartsLine (terms : Terms) (cur : Cursor) (lead : List Char) : Prop :=
  (∀ c ∈ lead, Scan.isGap c = true) ∧ Anchor.lineStart.holds cur = true ∧
    ∃ w, w ∈ notControlled.ways terms cur []

/-- An opening brace or a semicolon, then blanks. -/
def FollowsMark (lead : List Char) : Prop :=
  ∃ c gaps, lead = c :: gaps ∧ (c = '\x7b' ∨ c = ';') ∧ ∀ d ∈ gaps, Scan.isGap d = true

variable {terms : Terms} {cur stop : Cursor} {caps caps' : Captures}

theorem gaps_of_spells {ρ : Reading} {w : List Char} (h : (many gap).Spells ρ w) :
    ∀ c ∈ w, Scan.isGap c = true := by
  obtain ⟨ws, rfl, hws, -⟩ := h
  intro c hc
  obtain ⟨u, hu, hcu⟩ := List.mem_flatten.mp hc
  obtain ⟨d, hd, rfl⟩ := hws u hu
  rw [List.mem_singleton.mp hcu]
  simpa [CharClass.contains, ClassItem.contains, Scan.isGap] using hd

theorem startsLine_of_mem_ways
    (h : (stop, caps) ∈ (anchor .lineStart ++ notControlled ++ many gap).ways terms cur []) :
    ∃ u, cur.Leads u stop ∧ StartsLine terms cur u := by
  obtain ⟨u, -, hl, -, -, hspells⟩ :=
    Basic.reads_of_mem_ways (basic_of_isBasic rfl) rfl (by simp) h
  obtain ⟨w, hw, -⟩ := List.mem_flatMap.mp h
  obtain ⟨v, hv, hguard⟩ := List.mem_flatMap.mp hw
  obtain ⟨hstart, hheld⟩ : Anchor.lineStart.holds cur = true ∧ v = (cur, []) := by
    rw [ways, Way.provided] at hv
    split_ifs at hv with hstart
    · exact ⟨hstart, List.mem_singleton.mp hv⟩
    · simp at hv
  rw [hheld] at hguard
  refine ⟨u, hl, ?_, hstart, w, hguard⟩
  have hnone : (anchor .lineStart ++ notControlled ++ many gap).groups = [] := rfl
  obtain ⟨x, y, rfl, ⟨x₁, y₁, rfl, hx₁, hy₁⟩, hy⟩ := hspells (fun _ => none) (by simp [hnone])
    (by simp)
  rw [hx₁, spells_of_isStill rfl hy₁]
  exact gaps_of_spells hy

theorem followsMark_of_mem_ways
    (h : (stop, caps) ∈ (among [.char '\x7b', .char ';'] ++ many gap).ways terms cur []) :
    ∃ u, cur.Leads u stop ∧ FollowsMark u := by
  obtain ⟨u, -, hl, -, -, hspells⟩ :=
    Basic.reads_of_mem_ways (basic_of_isBasic rfl) rfl (by simp) h
  have hnone : (among [.char '\x7b', .char ';'] ++ many gap).groups = [] := rfl
  obtain ⟨x, y, rfl, ⟨c, hc, rfl⟩, hy⟩ := hspells (fun _ => none) (by simp [hnone]) (by simp)
  refine ⟨_, hl, c, y, rfl, ?_, gaps_of_spells hy⟩
  simpa [CharClass.contains, ClassItem.contains] using hc

/-- In front of a run stand blanks at the start of a line where the guard holds, or an opening brace
or a semicolon. -/
theorem lead_of_attempt {p : Pattern} (hp : p.Regular) {statements : List Regex}
    (hregex : p.regex = onLines statements ∨ p.regex = onOneLine statements) {bound : Nat}
    {cur stop : Cursor} {caps : Captures} (h : p.attempt bound cur = some (stop, caps)) :
    StartsLine ⟨none, bound, none⟩ cur (p.lead ⟨cur, stop, caps⟩) ∨
      FollowsMark (p.lead ⟨cur, stop, caps⟩) := by
  have hmem : (stop, caps) ∈ p.regex.ways ⟨none, bound, none⟩ cur [] := List.mem_of_head? h
  have hbasic := hp.basic
  have honce := hp.once
  -- The group at the front has captured what was matched first.
  have hlead : ∀ {name : String} {mid : Cursor} {caps₀ : Captures} {u : List Char},
      p.regex.leadingGroup? = some name → caps.textOf name =
        Captures.textOf ((name, ⟨cur, mid⟩) :: caps₀) name → cur.Leads u mid →
      p.lead ⟨cur, stop, caps⟩ = u := by
    intro name mid caps₀ u hname htext hl
    have hspan : Span.text ⟨cur, mid⟩ = u := hl.upTo
    have hgroup : Hit.group? ⟨cur, stop, caps⟩ name = some u := by
      rw [← hspan]
      refine Eq.trans htext ?_
      rw [Captures.textOf, List.lookup_cons_self, Option.map_some]
    rw [Pattern.lead, hname, Option.bind_some, hgroup, Option.getD_some]
  rcases hregex with hregex | hregex
  · have hname : p.regex.leadingGroup? = some "indent" := by rw [hregex]; rfl
    rw [hregex] at hmem hbasic honce
    obtain ⟨mid, caps₁, hmid, hkept⟩ := hbasic.exists_first_of_cat honce hmem
    obtain ⟨⟨c, caps₀⟩, hfront, hgroup⟩ := List.mem_flatMap.mp hmid
    obtain rfl : c = cur := stop_eq_of_isStill rfl hfront
    obtain ⟨⟨d, caps₂⟩, hgaps, heq⟩ := List.mem_map.mp hgroup
    obtain ⟨rfl, rfl⟩ := Prod.mk.inj heq
    obtain ⟨u, hl, hstarts⟩ := startsLine_of_mem_ways (List.mem_flatMap.mpr ⟨_, hfront, hgaps⟩)
    have hgroups : (anchor .lineStart ++ notControlled ++ group "indent" (many gap)).groups =
        ["indent"] := rfl
    rw [hlead hname (hkept "indent" (by rw [hgroups]; exact List.mem_cons_self)) hl]
    exact .inl hstarts
  · have hname : p.regex.leadingGroup? = some "lead" := by rw [hregex]; rfl
    rw [hregex] at hmem hbasic honce
    obtain ⟨mid, caps₁, hmid, hkept⟩ := hbasic.exists_first_of_cat honce hmem
    obtain ⟨⟨d, caps₂⟩, hbody, heq⟩ := List.mem_map.mp hmid
    obtain ⟨rfl, rfl⟩ := Prod.mk.inj heq
    rcases List.mem_append.mp hbody with hbody | hbody
    · obtain ⟨u, hl, hstarts⟩ := startsLine_of_mem_ways hbody
      rw [hlead hname (hkept "lead" List.mem_cons_self) hl]
      exact .inl hstarts
    · obtain ⟨u, hl, hfollows⟩ := followsMark_of_mem_ways hbody
      rw [hlead hname (hkept "lead" List.mem_cons_self) hl]
      exact .inr hfollows

/-- If a run is the first thing on its line, the guard holds at the start of the line. -/
theorem exists_guard_of_attempt {p : Pattern} (hp : p.Regular) {statements : List Regex}
    (hregex : p.regex = onLines statements ∨ p.regex = onOneLine statements) {bound : Nat}
    {cur stop : Cursor} {caps : Captures} (h : p.attempt bound cur = some (stop, caps))
    {above margin : List Char}
    (habove : cur.before.reverse ++ p.lead ⟨cur, stop, caps⟩ = above ++ '\n' :: margin)
    (hmargin : ∀ c ∈ margin, isBlank c = true ∧ c ≠ '\n') :
    cur.before.reverse = above ++ ['\n'] ∧
      ∃ w, w ∈ notControlled.ways ⟨none, bound, none⟩ cur [] := by
  have hgap : ∀ {gaps : List Char}, (∀ c ∈ gaps, Scan.isGap c = true) → '\n' ∉ gaps :=
    fun hgaps hmem => absurd (hgaps '\n' hmem) (by decide)
  rcases lead_of_attempt hp hregex h with ⟨hgaps, hstart, hguard⟩ | ⟨c, gaps, hlead, hc, hgaps⟩
  · refine ⟨?_, hguard⟩
    rcases append_eq_append_cons habove with ⟨z, hbefore, hz⟩ | ⟨z, -, hz⟩
    · -- The line starts where the match does, so nothing stands between them.
      rcases List.eq_nil_or_concat z with rfl | ⟨z, d, rfl⟩
      · exact hbefore
      · have hd : d ≠ '\n' := (hmargin d (by simp [hz])).2
        have hhead : cur.before.head? = some d := by
          rw [← List.reverse_reverse cur.before, hbefore]
          simp
        simp [Anchor.holds, hhead, hd] at hstart
    · exact absurd (hz ▸ List.mem_append_right z List.mem_cons_self) (hgap hgaps)
  · rw [hlead] at habove
    have hblank : isBlank c = false ∧ c ≠ '\n' := by
      rcases hc with rfl | rfl <;> decide
    rcases append_eq_append_cons habove with ⟨z, -, hz⟩ | ⟨z, -, hz⟩
    · have hin := (hmargin c (by simp [hz])).1
      rw [hblank.1] at hin
      cases hin
    · have hin : '\n' ∈ c :: gaps := hz ▸ List.mem_append_right z List.mem_cons_self
      rcases List.mem_cons.mp hin with heq | hin
      · exact absurd heq.symm hblank.2
      · exact absurd hin (hgap hgaps)

end Catalog

theorem Pattern.Pass.attempt_of_mem {p : Pattern} {bound : Nat} {cur : Cursor} {hits : List Hit}
    {out : List Char} (h : p.Pass bound cur hits out) {hit : Hit} (hhit : hit ∈ hits) :
    p.attempt bound hit.start = some (hit.stop, hit.captures) := by
  induction h with
  | done => simp at hhit
  | skip _ _ _ ih => exact ih hhit
  | hit ha _ ih =>
    rcases List.mem_cons.mp hhit with rfl | hhit
    · exact ha
    · exact ih hhit

open Catalog in
/-- **No fold behind a header.**  Let a match of a fold be the first thing on its line.  Then the
line above, without up to two trailing blanks, does not end in a closing parenthesis, and it ends
in `else` or `do` as a whole word only if it is the first line of the text and no more than that
word. -/
theorem fold_not_controlled {rule : Rule} (hr : rule ∈ [clear, newRef, setRef]) {p : Pattern}
    (hp : p ∈ rule.patterns) {text : List Char} {hits : List Hit} (h : p.hits text = .ok hits)
    {hit : Hit} (hhit : hit ∈ hits) {front line trailing lineEnd margin : List Char}
    (habove : hit.start.before.reverse ++ p.lead hit =
      front ++ line ++ trailing ++ lineEnd ++ margin)
    (hfront : front = [] ∨ front.getLast? = some '\n')
    (htrailing : trailing.length ≤ 2 ∧ ∀ c ∈ trailing, c = ' ' ∨ c = '\t')
    (hend : lineEnd ∈ ["\n".toList, "\r\n".toList])
    (hmargin : ∀ c ∈ margin, isBlank c = true ∧ c ≠ '\n') :
    ¬ [')'] <:+ line ∧
      ∀ word ∈ ["else", "do"], ∀ first, line = first ++ word.toList →
        (∀ c, first.getLast? = some c → isIdentifierChar c = false) → front = [] ∧ first = [] := by
  have hrule : rule ∈ Catalog.rules := by
    simp only [List.mem_cons, List.not_mem_nil, or_false] at hr
    rcases hr with rfl | rfl | rfl <;> simp [Catalog.rules]
  have hregular := Catalog.regular hrule hp
  have ha := (hregular.pass_of_hits h).attempt_of_mem hhit
  obtain ⟨statements, hregex⟩ := exists_statements hr hp
  have hgaps : ∀ c ∈ trailing, Scan.isGap c = true := by
    intro c hc
    rcases htrailing.2 c hc with rfl | rfl <;> rfl
  obtain ⟨before, hbefore⟩ : ∃ before, lineEnd = before ++ ['\n'] := by
    rcases List.mem_pair.mp hend with rfl | rfl
    · exact ⟨[], rfl⟩
    · exact ⟨['\r'], rfl⟩
  have hsplit : hit.start.before.reverse ++ p.lead hit =
      (front ++ line ++ trailing ++ before) ++ '\n' :: margin := by
    rw [habove, hbefore]
    simp
  obtain ⟨hstart, w, hguard⟩ := exists_guard_of_attempt hregular hregex ha hsplit hmargin
  -- No end of the line above is the end of a header.
  have hnone : ∀ rest header : List Char, front ++ line = rest ++ header →
      ¬ HeaderEnd header := by
    intro rest header heq
    have hbehind : hit.start.before.reverse = rest ++ (header ++ (trailing ++ lineEnd)) := by
      rw [hstart, hbefore, heq]
      simp
    exact not_headerEnd_of_mem_ways hguard hbehind htrailing.1 hgaps hend
  constructor
  · rintro ⟨first, rfl⟩
    exact hnone (front ++ first) [')'] (by simp) .paren
  · rintro word hword first rfl hfirst
    rcases List.eq_nil_or_concat first with rfl | ⟨first, c, rfl⟩
    · refine ⟨hfront.resolve_right fun hlast => ?_, rfl⟩
      obtain ⟨before, rfl⟩ := List.getLast?_eq_some_iff.mp hlast
      exact hnone before ('\n' :: word.toList) (by simp) (.word (by decide) hword)
    · exact absurd (.word (hfirst c (by simp)) hword)
        (hnone (front ++ first) (c :: word.toList) (by simp))

open Catalog in
/-- A run behind a line that ends in `else`, but not as a whole word, and a run behind an `else` at
the start of the text. -/
theorem fold_not_controlled_statement :
    (∃ p ∈ Catalog.newRef.patterns, ∃ hits,
      p.hits "f(x);\n x_else  \n    Py_INCREF(x);\n    return x;\n".toList = .ok hits ∧
        ∃ hit ∈ hits, hit.start.before.reverse ++ p.lead hit =
          "f(x);\n x_else  \n    ".toList ∧ ¬ [')'] <:+ " x_else".toList ∧
          ∀ word ∈ ["else", "do"], ∀ first, " x_else".toList = first ++ word.toList →
            (∀ c, first.getLast? = some c → isIdentifierChar c = false) →
              "f(x);\n".toList = [] ∧ first = []) ∧
    ∃ p ∈ Catalog.newRef.patterns, ∃ hits,
      p.hits "else\n    Py_INCREF(x);\n    return x;\n".toList = .ok hits ∧
        ∃ hit ∈ hits, hit.start.before.reverse ++ p.lead hit = "else\n    ".toList ∧
          ¬ [')'] <:+ "else".toList ∧
          ∀ word ∈ ["else", "do"], ∀ first, "else".toList = first ++ word.toList →
            (∀ c, first.getLast? = some c → isIdentifierChar c = false) → first = [] := by
  -- What is found in the two texts.
  have hfound : ∀ text start : List Char,
      (Catalog.newRef.patterns.any fun p => (Evaluation.hits p text).toOption.any fun hits =>
        hits.any fun hit => decide (hit.start.before.reverse ++ p.lead hit = start)) = true →
      ∃ p ∈ Catalog.newRef.patterns, ∃ hits, p.hits text = .ok hits ∧
        ∃ hit ∈ hits, hit.start.before.reverse ++ p.lead hit = start := by
    intro text start hany
    simp only [List.any_eq_true, Option.any_eq_true, decide_eq_true_eq, Evaluation.hits_eq] at hany
    obtain ⟨p, hp, hits, hok, hit, hhit, hbefore⟩ := hany
    exact ⟨p, hp, hits, eq_ok_of_toOption hok, hit, hhit, hbefore⟩
  have hmargin : ∀ c ∈ "    ".toList, isBlank c = true ∧ c ≠ '\n' := by
    intro c hc
    obtain rfl : c = ' ' := by simpa using hc
    decide
  constructor
  · obtain ⟨p, hp, hits, hhits, hit, hhit, hbefore⟩ := hfound
      "f(x);\n x_else  \n    Py_INCREF(x);\n    return x;\n".toList
      "f(x);\n x_else  \n    ".toList (by decide +kernel)
    have htrailing : "  ".toList.length ≤ 2 ∧ ∀ c ∈ "  ".toList, c = ' ' ∨ c = '\t' :=
      ⟨by decide, fun c hc => .inl (by simpa using hc)⟩
    exact ⟨p, hp, hits, hhits, hit, hhit, hbefore,
      @fold_not_controlled Catalog.newRef (by simp) p hp _ hits hhits hit hhit "f(x);\n".toList
        " x_else".toList "  ".toList "\n".toList "    ".toList (hbefore.trans (by decide))
        (.inr (by decide)) htrailing (by decide) hmargin⟩
  · obtain ⟨p, hp, hits, hhits, hit, hhit, hbefore⟩ := hfound
      "else\n    Py_INCREF(x);\n    return x;\n".toList "else\n    ".toList (by decide +kernel)
    obtain ⟨hparen, hword⟩ := @fold_not_controlled Catalog.newRef (by simp) p hp _ hits hhits hit
      hhit [] "else".toList [] "\n".toList "    ".toList (hbefore.trans (by decide)) (.inl rfl)
      ⟨by decide, by simp⟩ (by decide) hmargin
    exact ⟨p, hp, hits, hhits, hit, hhit, hbefore, hparen,
      fun word hmem first heq hfirst => (hword word hmem first heq hfirst).2⟩

/-- **Headers that the guard does not see.**  Three trailing blanks hide the parenthesis of a
condition, and an `else` at the start of the text has nothing in front of it.  In both texts the
first statement is the body of the header, and it is folded with the next one. -/
theorem fold_captures_unbraced_body :
    Catalog.newRef.apply "if (c)   \n Py_INCREF(x);\n return x;".toList =
        .ok "if (c)   \n return Py_NewRef(x);".toList ∧
      Catalog.newRef.apply "else\n Py_INCREF(x);\n return x;".toList =
        .ok "else\n return Py_NewRef(x);".toList :=
  ⟨Evaluation.apply_eq_ok (by decide +kernel), Evaluation.apply_eq_ok (by decide +kernel)⟩

end CApiUpgrade
