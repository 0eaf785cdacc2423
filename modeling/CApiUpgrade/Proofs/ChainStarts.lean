import CApiUpgrade.Proofs.Preference
import CApiUpgrade.Proofs.Reads
import CApiUpgrade.Proofs.Stores

/-!
# Where a chain may start

A chain is only a part of an expression if something hangs in front of it: in `f()->a->ob_type` the
chain `a` belongs to the call, and in `!x == Py_None` the operand `x` to the negation.  The rules
look at the characters right in front of a chain to tell (`Catalog.mem_ways_startGuard`).

* The base of a member access starts behind no character of an identifier and behind no joint of a
  chain (`base_not_cut`).
* The left operand of a comparison starts behind no cast, index or negation either.  Where it starts
  right behind a star, the star could not start it (`operand_not_cut`).

The guard sees no further than that.  A blank hides what stands in front of it, letters beyond ASCII
are no characters of identifiers to it, and an operand that may not start with its star starts
behind the star (`base_cut`, `operand_cut`).
-/

namespace CApiUpgrade

open Text

/-! ### What an expression without groups captures -/

namespace Regex

theorem setsOnce_of_groups_eq_nil {r : Regex} (h : r.groups = []) : r.setsOnce = true := by
  induction r with
  | cat a b iha ihb | alt a b iha ihb =>
    rw [groups, List.append_eq_nil_iff] at h
    rw [setsOnce, iha h.1, ihb h.2, h.1]
    rfl
  | repeated body least most greedy ih =>
    rw [setsOnce, ih h, show body.groups = [] from h]
    rfl
  | group name body _ => simp [groups] at h
  | _ => rfl

variable {terms : Terms} {c d : Cursor} {caps : Captures} {w : Way}

theorem Basic.captures_eq {r : Regex} (hr : r.Basic) (h : r.groups = [])
    (hw : w ∈ r.ways terms c caps) : w.2 = caps := by
  obtain ⟨-, new, -, hcaps, hnew, -⟩ :=
    hr.reads_of_mem_ways (setsOnce_of_groups_eq_nil h) (by simp [h]) hw
  have hnil : new = [] :=
    List.eq_nil_iff_forall_not_mem.mpr fun e he => by simpa [h] using hnew e he
  rw [hcaps, hnil, List.nil_append]

theorem groups_literal (text : String) : (literal text).groups = [] := by
  have hseq : ∀ cs : List Char, (seq (cs.map char)).groups = [] := by
    intro cs
    induction cs with
    | nil => rfl
    | cons c cs ih =>
      cases cs with
      | nil => rfl
      | cons d cs => exact ih
  exact hseq _

/-- Looking behind at one character. -/
theorem mem_ways_notAfter_one {r : Regex} {p : Char → Bool} (h : r.takes? = some p) :
    w ∈ (notAfter r).ways terms c caps ↔
      w = (c, caps) ∧ ∀ x, c.before.head? = some x → p x = false := by
  have htests : r.tests? = some [p] ∧ r.minWidth = [p].length := by
    cases r <;> simp_all [takes?, tests?, minWidth]
  rw [notAfter, htests.2, ways_notAfter htests.1]
  cases c.before with
  | nil => simp [fits]
  | cons y rest => by_cases hy : p y = true <;> simp [fits, hy]

theorem isClosed_literal (text : String) : (literal text).isClosed = true := by
  have hseq : ∀ cs : List Char, (seq (cs.map char)).isClosed = true := by
    intro cs
    induction cs with
    | nil => rfl
    | cons c cs ih =>
      cases cs with
      | nil => rfl
      | cons d cs => exact ih
  exact hseq _

end Regex

namespace Catalog

open Regex

/-! ### The guard in front of a chain -/

/-- A chain may start behind a text: the text does not end in a character of an identifier, nor in
one of the given marks. -/
def StartsBehind (marks : List String) (front : List Char) : Prop :=
  (∀ c, front.getLast? = some c → isIdentifierChar c = false) ∧
    ∀ mark ∈ marks, ¬ mark.toList <:+ front

/-- The expression that looks for single characters and for an arrow. -/
def startGuard (marks : List Char) : Regex :=
  notAfter (among (Chain.wordItems ++ marks.map .char)) ++ notAfter (literal "->")

/-- The marks that join the parts of a chain. -/
def joints : List String := [".", "->"]

/-- The marks behind which no operand of a comparison starts. -/
def operandMarks : List String := [".", ")", "]", "!", "->"]

variable {terms : Terms} {c d : Cursor} {caps : Captures} {w : Way}

theorem mem_ways_startGuard {marks : List Char} :
    w ∈ (startGuard marks).ways terms c caps ↔
      w = (c, caps) ∧ StartsBehind (marks.map (·.toString) ++ ["->"]) c.before.reverse := by
  have hclass : ∀ x, CharClass.contains ⟨false, Chain.wordItems ++ marks.map .char⟩ x = true ↔
      isIdentifierChar x = true ∨ x ∈ marks := by
    intro x
    simp only [CharClass.contains, isIdentifierChar, List.any_append, List.any_map, Bool.bne_false,
      Bool.or_eq_true]
    refine or_congr_right ?_
    simp [ClassItem.contains]
  -- The first assertion is about one character, the second one about the arrow.
  have hchars : ∀ {v : Way},
      v ∈ (notAfter (among (Chain.wordItems ++ marks.map .char))).ways terms c caps ↔
      v = (c, caps) ∧ ∀ x, c.before.head? = some x → isIdentifierChar x = false ∧ x ∉ marks := by
    intro v
    rw [mem_ways_notAfter_one rfl]
    simp only [← Bool.not_eq_true, hclass, not_or]
  have hmark : ∀ x, x.toString.toList <:+ c.before.reverse ↔ c.before.head? = some x := by
    intro x
    rw [← List.reverse_prefix]
    cases c.before <;> simp [eq_comm]
  have harrow : "->".toList <:+ c.before.reverse ↔ "->".toList.reverse <+: c.before := by
    rw [← List.reverse_prefix, List.reverse_reverse]
  -- A mark of one character is asked for like a character of an identifier.
  have hbehind : StartsBehind (marks.map (·.toString) ++ ["->"]) c.before.reverse ↔
      (∀ x, c.before.head? = some x → isIdentifierChar x = false ∧ x ∉ marks) ∧
        ¬ "->".toList.reverse <+: c.before := by
    simp only [StartsBehind, List.getLast?_reverse, List.mem_append, List.mem_map,
      List.mem_singleton]
    constructor
    · rintro ⟨hword, hmarks⟩
      refine ⟨fun x hx => ⟨hword x hx, fun hin => ?_⟩,
        fun h => hmarks "->" (.inr rfl) (harrow.mpr h)⟩
      exact hmarks x.toString (.inl ⟨x, hin, rfl⟩) ((hmark x).mpr hx)
    · rintro ⟨hchar, hnone⟩
      refine ⟨fun x hx => (hchar x hx).1, ?_⟩
      rintro _ (⟨x, hin, rfl⟩ | rfl) hsuffix
      · exact (hchar x ((hmark x).mp hsuffix)).2 hin
      · exact hnone (harrow.mp hsuffix)
  rw [hbehind, startGuard, ways_append, List.mem_flatMap]
  constructor
  · rintro ⟨v, hv, hw⟩
    obtain ⟨rfl, hfirst⟩ := hchars.mp hv
    obtain ⟨rfl, hsecond⟩ := mem_ways_notAfter_literal.mp hw
    exact ⟨rfl, hfirst, hsecond⟩
  · rintro ⟨rfl, hfirst, hsecond⟩
    exact ⟨_, hchars.mpr ⟨rfl, hfirst⟩, mem_ways_notAfter_literal.mpr ⟨rfl, hsecond⟩⟩

/-! ### The base of a member access -/

/-- The patterns that match an access to a member: the reads, and the stores to the member
itself. -/
def accessPatterns : List Pattern :=
  readRules.flatMap Rule.patterns ++ storeRules.flatMap fun e => e.1.patterns.drop 1

theorem exists_access {p : Pattern} (hp : p ∈ accessPatterns) :
    p.Regular ∧ ∃ member, p.regex = memberRead member ∨ p.regex = memberStore member := by
  rcases List.mem_append.mp hp with hp | hp
  · obtain ⟨rule, hr, hp⟩ := List.mem_flatMap.mp hp
    obtain ⟨member, hmember⟩ := exists_memberRead hr hp
    exact ⟨Catalog.regular (mem_rules_of_mem_readRules hr) hp, member, .inl hmember⟩
  · obtain ⟨⟨rule, getter, member⟩, hr, hp⟩ := List.mem_flatMap.mp hp
    obtain ⟨hrule, -, -, hpatterns⟩ := of_mem_storeRules hr
    refine ⟨Catalog.regular hrule (List.mem_of_mem_drop hp), member, .inr ?_⟩
    rw [hpatterns] at hp
    exact congrArg Pattern.regex (List.mem_singleton.mp hp)

/-- An access starts with its base. -/
theorem base_of_mem_ways {member : String} (h : w ∈ (Chain.memberAccess member).ways terms c []) :
    StartsBehind joints c.before.reverse ∧ ∃ d, w.2 = [("expr", ⟨c, d⟩)] := by
  obtain ⟨v₁, h, hedge⟩ := List.mem_flatMap.mp h
  obtain ⟨v₂, h, hmember⟩ := List.mem_flatMap.mp h
  obtain ⟨v₃, h, hgap'⟩ := List.mem_flatMap.mp h
  obtain ⟨v₄, h, harrow⟩ := List.mem_flatMap.mp h
  obtain ⟨v₅, h, hgap⟩ := List.mem_flatMap.mp h
  obtain ⟨v₆, hstart, hgroup⟩ := List.mem_flatMap.mp h
  have hguard : v₆ ∈ (startGuard ['.']).ways terms c [] := hstart
  obtain ⟨rfl, hbehind⟩ := mem_ways_startGuard.mp hguard
  obtain ⟨v, hchain, rfl⟩ := List.mem_map.mp hgroup
  have hnone : v.2 = [] := Basic.captures_eq (basic_of_isBasic rfl) rfl hchain
  refine ⟨hbehind, v.1, ?_⟩
  rw [Basic.captures_eq (.anchor _) rfl hedge,
    Basic.captures_eq (basic_literal member) (groups_literal member) hmember,
    Basic.captures_eq (basic_of_isBasic rfl) rfl hgap',
    Basic.captures_eq (basic_of_isBasic rfl) rfl harrow,
    Basic.captures_eq (basic_of_isBasic rfl) rfl hgap, hnone]

theorem base_of_access {member : String} {r : Regex}
    (hr : r = memberRead member ∨ r = memberStore member) (h : w ∈ r.ways terms c [])
    (hroom : c.after.length ≤ terms.bound) :
    StartsBehind joints c.before.reverse ∧ ∃ d, w.2.lookup "expr" = some ⟨c, d⟩ := by
  rcases hr with rfl | rfl
  · obtain ⟨hbehind, d, hcaps⟩ := base_of_mem_ways ((mem_ways_memberRead hroom).mp h).1
    exact ⟨hbehind, d, by rw [hcaps]; rfl⟩
  · obtain ⟨⟨mid, caps⟩, hmid, hstored⟩ := List.mem_flatMap.mp h
    obtain ⟨hbehind, d, rfl⟩ := base_of_mem_ways hmid
    have hgroups : storedValue.groups = ["value"] := rfl
    obtain ⟨-, new, -, hcaps, hnew, -⟩ :=
      Basic.reads_of_mem_ways (basic_of_isBasic rfl) rfl (by simp [hgroups]) hstored
    refine ⟨hbehind, d, ?_⟩
    have hother : ∀ e ∈ new, e.1 ≠ "expr" := fun e he heq => by
      have hvalue := hnew e he
      simp [hgroups, heq] at hvalue
    rw [hcaps, Captures.lookup_append_of_notMem hother]
    rfl

/-! ### The operand of a comparison -/

/-- What stands behind the operand. -/
def comparedWith (operator singleton : String) : Regex :=
  blanks ++ (literal operator ++ (blanks ++ (literal singleton ++ wordEdge)))

theorem ways_comparison (operator singleton : String) (terms : Terms) (c : Cursor)
    (caps : Captures) : (comparison operator singleton).ways terms c caps =
      (startGuard ['.', ')', ']', '!'] ++ (group "expr" Chain.dereferenced ++
        comparedWith operator singleton)).ways terms c caps := by
  simp only [comparison, comparedWith, ways_append, List.flatMap_assoc]
  rfl

theorem exists_comparison {p : Pattern} (hp : p ∈ isSingleton.patterns) :
    p.Regular ∧ ∃ operator, ∃ e ∈ singletons, p.regex = comparison operator e.1 := by
  refine ⟨Catalog.regular (by simp [rules]) hp, ?_⟩
  obtain ⟨⟨singleton, test⟩, he, hp⟩ := List.mem_flatMap.mp hp
  rcases List.mem_pair.mp hp with rfl | rfl <;> exact ⟨_, _, he, rfl⟩

/-- A comparison starts with its operand. -/
theorem operand_of_comparison {operator singleton : String}
    (h : w ∈ (comparison operator singleton).ways terms c []) :
    StartsBehind operandMarks c.before.reverse ∧ ∃ v ∈ Chain.dereferenced.ways terms c [],
      w ∈ (comparedWith operator singleton).ways terms v.1 [("expr", ⟨c, v.1⟩)] := by
  rw [ways_comparison] at h
  obtain ⟨u, hstart, h⟩ := List.mem_flatMap.mp h
  obtain ⟨rfl, hbehind⟩ := mem_ways_startGuard.mp hstart
  obtain ⟨u, hgroup, hw⟩ := List.mem_flatMap.mp h
  obtain ⟨v, hchain, rfl⟩ := List.mem_map.mp hgroup
  have hnone : v.2 = [] := Basic.captures_eq (basic_of_isBasic rfl) rfl hchain
  exact ⟨hbehind, v, hchain, hnone ▸ hw⟩

theorem basic_comparedWith (operator singleton : String) :
    (comparedWith operator singleton).Basic :=
  .cat (basic_of_isBasic rfl) (.cat (basic_literal _) (.cat (basic_of_isBasic rfl)
    (.cat (basic_literal _) (.anchor _))))

theorem isClosed_comparedWith (operator singleton : String) :
    (comparedWith operator singleton).isClosed = true := by
  change (_ && ((literal operator).isClosed && (_ && ((literal singleton).isClosed && _)))) = true
  rw [isClosed_literal, isClosed_literal]
  rfl

theorem groups_comparedWith (operator singleton : String) :
    (comparedWith operator singleton).groups = [] := by
  change _ ++ ((literal operator).groups ++ (_ ++ ((literal singleton).groups ++ _))) = []
  rw [groups_literal, groups_literal]
  rfl

/-- Where an operand may start at a star, the comparison that starts behind the star starts there,
too. -/
theorem ways_ne_nil_of_star {operator singleton : String} {star : Cursor}
    (hstar : star.next? = some ('*', c)) (hroom : star.after.length ≤ terms.bound)
    (hbehind : StartsBehind operandMarks star.before.reverse)
    (h : w ∈ (comparison operator singleton).ways terms c []) :
    (comparison operator singleton).ways terms star [] ≠ [] := by
  obtain ⟨-, v, hv, hw⟩ := operand_of_comparison h
  have hchain : v ∈ Chain.dereferenced.ways terms star [] := by
    obtain ⟨u, hu, hv⟩ := List.mem_flatMap.mp hv
    refine List.mem_flatMap.mpr ⟨u, ?_, hv⟩
    rw [ways_many rfl hroom]
    exact List.mem_append_left _ (List.mem_flatMap.mpr
      ⟨(c, []), Way.mem_step.mpr ⟨'*', hstar, by decide, rfl⟩, hu⟩)
  have htail :
      (comparedWith operator singleton).ways terms v.1 (("expr", ⟨star, v.1⟩) :: v.2) ≠ [] :=
    fun hnil =>
      List.ne_nil_of_mem hw ((basic_comparedWith operator singleton).ways_eq_nil_of_isClosed
      (isClosed_comparedWith operator singleton) hnil _)
  obtain ⟨w', hw'⟩ := List.exists_mem_of_ne_nil _ htail
  rw [ways_comparison]
  exact List.ne_nil_of_mem (List.mem_flatMap.mpr ⟨_, mem_ways_startGuard.mpr ⟨rfl, hbehind⟩,
    List.mem_flatMap.mpr ⟨_, List.mem_map.mpr ⟨v, hchain, rfl⟩, hw'⟩⟩)

/-- A comparison ends in the last letter of a singleton. -/
theorem getLast?_of_spells_comparison {operator : String} {e : String × String}
    (he : e ∈ singletons) {ρ : Reading} {m : List Char}
    (hm : (comparison operator e.1).Spells ρ m) : m.getLast? = some 'e' := by
  obtain ⟨_, edge, rfl, ⟨front, name, rfl, -, hname⟩, hedge⟩ := hm
  obtain rfl := spells_of_isStill rfl hedge
  obtain rfl := spells_literal.mp hname
  have hlast : ∀ e ∈ singletons, e.1.toList.getLast? = some 'e' := by decide
  rw [List.append_nil, List.getLast?_append, hlast e he]
  rfl

end Catalog

/-! ### Where a match is found -/

/-- In front of a match is the start of the pass, a character that no match starts at, or the match
before. -/
theorem Pattern.Pass.previous_of_mem {p : Pattern} {bound : Nat} {cur : Cursor} {hits : List Hit}
    {out : List Char} (h : p.Pass bound cur hits out) {hit : Hit} (hhit : hit ∈ hits) :
    hit.start = cur ∨ (∃ c x, c.next? = some (x, hit.start) ∧ p.attempt bound c = none) ∨
      ∃ before ∈ hits, before.stop = hit.start := by
  induction h with
  | done => simp at hhit
  | @skip c _ x _ _ ha hn _ ih =>
    rcases ih hhit with rfl | hskipped | hfound
    · exact .inr (.inl ⟨c, x, hn, ha⟩)
    · exact .inr (.inl hskipped)
    · exact .inr (.inr hfound)
  | @hit c stop caps _ _ ha _ ih =>
    rcases List.mem_cons.mp hhit with rfl | hhit
    · exact .inl rfl
    rcases ih hhit with hstart | hskipped | ⟨before, hbefore, hstop⟩
    · exact .inr (.inr ⟨⟨c, stop, caps⟩, List.mem_cons_self, hstart.symm⟩)
    · exact .inr (.inl hskipped)
    · exact .inr (.inr ⟨before, List.mem_cons_of_mem _ hbefore, hstop⟩)

open Catalog

/-! ### Main results -/

/-- **No base is cut out** right behind a character of an identifier or a joint: every match of an
access starts with its base, and what stands in front of it ends in neither. -/
theorem base_not_cut {p : Pattern} (hp : p ∈ accessPatterns) {text : List Char} {hits : List Hit}
    (h : p.hits text = .ok hits) {hit : Hit} (hhit : hit ∈ hits) :
    ∃ span, hit.captures.lookup "expr" = some span ∧ span.start = hit.start ∧
      StartsBehind joints hit.start.before.reverse := by
  obtain ⟨hregular, member, hmember⟩ := exists_access hp
  obtain ⟨hway, u, hl⟩ := hregular.way_of_hits h hhit
  obtain ⟨hbehind, d, hexpr⟩ := base_of_access hmember hway hl.length_le
  exact ⟨_, hexpr, rfl, hbehind⟩

/-- A chain behind the result of a call, and a blank. -/
theorem base_not_cut_call :
    ∃ p ∈ accessPatterns, ∃ hits, p.hits "f() -> a->ob_type".toList = .ok hits ∧ ∃ hit ∈ hits,
      hit.start.before.reverse = "f() -> ".toList ∧ ∃ span, hit.captures.lookup "expr" = some span ∧
        span.start = hit.start ∧ StartsBehind joints hit.start.before.reverse := by
  have hany : accessPatterns.any (fun p =>
      (p.hits "f() -> a->ob_type".toList).toOption.any fun hits =>
        hits.any fun hit => decide (hit.start.before.reverse = "f() -> ".toList)) = true := by
    rw [← Evaluation.hits_eq]
    decide +kernel
  simp only [List.any_eq_true, Option.any_eq_true, decide_eq_true_eq] at hany
  obtain ⟨p, hp, hits, hok, hit, hhit, hbefore⟩ := hany
  have hhits := eq_ok_of_toOption hok
  exact ⟨p, hp, hits, hhits, hit, hhit, hbefore, base_not_cut hp hhits hhit⟩

/-- **A base that is cut out**: behind a joint and a blank, and behind a letter that is not one of
the English alphabet. -/
theorem base_cut :
    readType.apply "f() -> a->ob_type".toList = .ok "f() -> Py_TYPE(a)".toList ∧
      setType.apply "f() -> a->ob_type = t;".toList = .ok "f() -> Py_SET_TYPE(a, t);".toList ∧
        readType.apply "éa->ob_type".toList = .ok "éPy_TYPE(a)".toList :=
  ⟨Evaluation.apply_eq_ok (by decide +kernel), Evaluation.apply_eq_ok (by decide +kernel),
    Evaluation.apply_eq_ok (by decide +kernel)⟩

/-- **No operand is cut out** right behind a character of an identifier, a joint, a cast, an index
or a negation: every match of a comparison starts with its operand, and what stands in front of it
ends in none of them.  If it ends in a star, the operand could not start with that star. -/
theorem operand_not_cut {p : Pattern} (hp : p ∈ isSingleton.patterns) {text : List Char}
    {hits : List Hit} (h : p.hits text = .ok hits) {hit : Hit} (hhit : hit ∈ hits) :
    ∃ span, hit.captures.lookup "expr" = some span ∧ span.start = hit.start ∧
      StartsBehind operandMarks hit.start.before.reverse ∧
        ∀ front, hit.start.before.reverse = front ++ ['*'] → ¬ StartsBehind operandMarks front := by
  obtain ⟨hregular, operator, e, he, hregex⟩ := exists_comparison hp
  have hpass := hregular.pass_of_hits h
  obtain ⟨hway, u, hl⟩ := hregular.way_of_hits h hhit
  rw [hregex] at hway
  obtain ⟨hbehind, v, -, hrest⟩ := operand_of_comparison hway
  have hcaps : hit.captures = _ := (basic_comparedWith operator e.1).captures_eq
    (groups_comparedWith operator e.1) hrest
  refine ⟨⟨hit.start, v.1⟩, by rw [hcaps]; rfl, rfl, hbehind, fun front hfront hstar => ?_⟩
  have hbefore : hit.start.before = '*' :: front.reverse := by
    rw [← List.reverse_reverse hit.start.before, hfront]
    simp
  rcases hpass.previous_of_mem hhit with hstart | ⟨c, x, hn, hnone⟩ | ⟨before, hmem, hstop⟩
  · rw [hstart] at hbefore
    cases hbefore
  · -- The search has tried the star before.
    have hleads := (Cursor.leads_of_next? hn).before
    rw [hbefore] at hleads
    obtain ⟨rfl, hfront⟩ : '*' = x ∧ front.reverse = c.before := by simpa using hleads
    have hroom : c.after.length ≤ text.length := by
      have htext := (Cursor.leads_of_next? hn).text_eq.symm.trans hl.text_eq
      have hlen := congrArg List.length htext
      simp [Cursor.text, Cursor.ofText] at hlen
      omega
    rw [← List.reverse_reverse front, hfront] at hstar
    refine ways_ne_nil_of_star hn hroom hstar hway ?_
    rw [← hregex]
    exact List.head?_eq_none_iff.mp hnone
  · -- The match before does not end in a star.
    obtain ⟨m, hm, hspells⟩ := hregular.reads (hpass.attempt_of_mem hmem)
    rw [hregex] at hspells
    have hlast := getLast?_of_spells_comparison he hspells
    have hends := hm.before
    rw [hstop, hbefore] at hends
    obtain ⟨init, rfl⟩ : ∃ init, m = init ++ ['e'] := ⟨m.dropLast, by
      rw [List.dropLast_append_getLast? _ hlast]⟩
    simp at hends

/-- An operand behind a star that stands behind a negation. -/
theorem operand_not_cut_star :
    ∃ p ∈ isSingleton.patterns, ∃ hits, p.hits "if (!*x == Py_None) f();".toList = .ok hits ∧
      ∃ hit ∈ hits, hit.start.before.reverse = "if (!".toList ++ ['*'] ∧
        ∃ span, hit.captures.lookup "expr" = some span ∧ span.start = hit.start ∧
          ¬ StartsBehind operandMarks "if (!".toList := by
  have hany : isSingleton.patterns.any (fun p =>
      (p.hits "if (!*x == Py_None) f();".toList).toOption.any fun hits =>
        hits.any fun hit => decide (hit.start.before.reverse = "if (!".toList ++ ['*'])) =
        true := by
    rw [← Evaluation.hits_eq]
    decide +kernel
  simp only [List.any_eq_true, Option.any_eq_true, decide_eq_true_eq] at hany
  obtain ⟨p, hp, hits, hok, hit, hhit, hbefore⟩ := hany
  have hhits := eq_ok_of_toOption hok
  obtain ⟨span, hexpr, hstart, -, hstar⟩ := operand_not_cut hp hhits hhit
  exact ⟨p, hp, hits, hhits, hit, hhit, hbefore, span, hexpr, hstart, hstar _ hbefore⟩

/-- **An operand that is cut out**: behind its star, where a negation stands in front of the star,
and behind a cast and a blank. -/
theorem operand_cut :
    isSingleton.apply "if (!*x == Py_None) f();".toList = .ok "if (!*Py_IsNone(x)) f();".toList ∧
      isSingleton.apply "if ((PyObject *) x == Py_None) f();".toList =
        .ok "if ((PyObject *) Py_IsNone(x)) f();".toList :=
  ⟨Evaluation.apply_eq_ok (by decide +kernel), Evaluation.apply_eq_ok (by decide +kernel)⟩

end CApiUpgrade
