import CApiUpgrade.Proofs.Parentheses

/-!
# The catalog across line ends

The patterns of the catalog match alike whether lines end in newlines or in carriage returns and
newlines.  For most of them `Regex.alignment` says so.  What is left is done by hand:

* The guard of the folds looks back at the line above, once for either kind of line end.  Between
  the two, it finds the same headers (`Catalog.aligned_notControlled`).
* A stored value is taken by a lazy group (`Catalog.firstAligned_storedValue`).
* The argument of a store is taken by a lazy group as well, behind blanks.  There the match is only
  the same if no parentheses hold nothing but blanks (`Catalog.firstAlignedAt_callStore`).
-/

namespace CApiUpgrade

open Text Captures

/-! ### Looking back at the line above -/

namespace Text

/-- Behind a line end, the same texts are found in front of it, if both kinds of line ends are
looked for. -/
theorem fits_lineEnd {ps : List (Char → Bool)} {q : Char → Bool} (hlast : ps.getLast? = some q)
    (hq : q '\r' = false) (hps : ∀ p ∈ ps.tail, p '\n' = false) {before : List Char}
    (hclean : '\r' ∉ before) :
    (fits (ps ++ [(· == '\n')]).reverse (crlfLeft before) ||
        fits (ps ++ [(· == '\r'), (· == '\n')]).reverse (crlfLeft before)) =
      (fits (ps ++ [(· == '\n')]).reverse before ||
        fits (ps ++ [(· == '\r'), (· == '\n')]).reverse before) := by
  obtain ⟨qs, rfl⟩ := List.getLast?_eq_some_iff.mp hlast
  have htests : ∀ p ∈ (q :: qs.reverse).dropLast, p '\n' = false := by
    intro p hp
    refine hps p ?_
    rwa [← List.reverse_concat, List.dropLast_reverse, List.mem_reverse] at hp
  simp only [List.reverse_append, List.reverse_cons, List.reverse_nil, List.nil_append,
    List.cons_append]
  cases before with
  | nil => rfl
  | cons c before =>
    rw [List.mem_cons, not_or] at hclean
    by_cases hc : c = '\n'
    · -- Without carriage returns only the first text can be found, and with them only the second.
      subst hc
      have hreturn : fits ((· == '\r') :: q :: qs.reverse) before = false := by
        cases before with
        | nil => rfl
        | cons d before =>
          rw [List.mem_cons, not_or] at hclean
          rw [fits, beq_false_of_ne (Ne.symm hclean.2.1), Bool.false_and]
      have hsame := fits_crlfLeft htests before
      rw [crlfLeft_newline]
      simp only [fits, hq, hreturn, hsame, beq_self_eq_true, Bool.true_and, Bool.false_and,
        Bool.false_or, Bool.or_false]
    · rw [crlfLeft_cons_of_ne hc]
      simp only [fits, beq_false_of_ne hc, Bool.false_and]

end Text

namespace Regex

/-- Assertions about the text in front, one after another. -/
theorem ways_seq_notAfter {bodies : List Regex} {terms : Terms} {c : Cursor} {caps : Captures}
    (hbodies : ∀ body ∈ bodies, ∃ ps, body.tests? = some ps ∧ body.minWidth = ps.length) :
    (seq (bodies.map notAfter)).ways terms c caps =
      if bodies.any (fun body => body.tests?.any fun ps => fits ps.reverse c.before) then []
      else [(c, caps)] := by
  have hone : ∀ body ∈ bodies, (notAfter body).ways terms c caps =
      if body.tests?.any fun ps => fits ps.reverse c.before then [] else [(c, caps)] := by
    intro body hbody
    obtain ⟨ps, hps, hwidth⟩ := hbodies body hbody
    rw [notAfter, hwidth, ways_notAfter hps, hps, Option.any_some]
  induction bodies with
  | nil => rfl
  | cons first bodies ih =>
    have hfirst := hone first List.mem_cons_self
    cases bodies with
    | nil => simpa [seq] using hfirst
    | cons second bodies =>
      have hrest := ih (fun body h => hbodies body (List.mem_cons_of_mem _ h))
        fun body h => hone body (List.mem_cons_of_mem _ h)
      change ((notAfter first).ways terms c caps).flatMap _ = _
      rw [hfirst, List.any_cons]
      cases first.tests?.any fun ps => fits ps.reverse c.before with
      | true => simp
      | false => simpa using hrest

end Regex

namespace Catalog

open Regex

/-- What the guard looks for, once with either kind of line end. -/
theorem tests?_controlEnds {header : Regex}
    (hheader : header ∈ [char ')', except Chain.wordItems ++ literal "else",
      except Chain.wordItems ++ literal "do"])
    {trailing : List Regex} (htrailing : trailing ∈ [[], [gap], [times 2 gap]]) :
    ∃ ps q, ps.getLast? = some q ∧ q '\r' = false ∧ (∀ p ∈ ps.tail, p '\n' = false) ∧
      (seq (header :: trailing ++ [literal "\n"])).tests? = some (ps ++ [(· == '\n')]) ∧
        (seq (header :: trailing ++ [literal "\r\n"])).tests? =
          some (ps ++ [(· == '\r'), (· == '\n')]) := by
  have hall : ∀ {ps : List (Char → Bool)}, (ps.all fun p => !p '\n') = true →
      ∀ p ∈ ps, p '\n' = false := by
    intro ps h p hp
    simpa using List.all_eq_true.mp h p hp
  refine ⟨(seq (header :: trailing)).tests?.getD [], ?_⟩
  simp only [List.mem_cons, List.not_mem_nil, or_false] at hheader htrailing
  rcases hheader with rfl | rfl | rfl <;> rcases htrailing with rfl | rfl | rfl <;>
    exact ⟨_, rfl, rfl, hall rfl, rfl, rfl⟩

/-- **The guard of the folds** holds alike in front of either kind of line ends. -/
theorem aligned_notControlled : notControlled.Aligned ⟨false, .stays⟩ where
  follows {names} hnames terms terms' c caps caps' hc hcaps := by
    have hsame :
        (controlEnds.any fun body => body.tests?.any fun ps => fits ps.reverse c.crlf.before) =
        controlEnds.any fun body => body.tests?.any fun ps => fits ps.reverse c.before := by
      rw [controlEnds, List.any_flatMap, List.any_flatMap, Bool.eq_iff_iff, List.any_eq_true,
        List.any_eq_true]
      refine exists_congr fun header => and_congr_right fun hheader => ?_
      rw [List.any_flatMap, List.any_flatMap, List.any_eq_true, List.any_eq_true]
      refine exists_congr fun trailing => and_congr_right fun htrailing => ?_
      obtain ⟨ps, q, hlast, hq, hps, hends, hends'⟩ := tests?_controlEnds hheader htrailing
      simp only [List.map_cons, List.map_nil, List.any_cons, List.any_nil, Bool.or_false,
        hends, hends', Option.any_some]
      rw [Cursor.crlf, fits_lineEnd hlast hq hps hc.before]
    rw [notControlled, ways_seq_notAfter fun _ => minWidth_controlEnds,
      ways_seq_notAfter fun _ => minWidth_controlEnds, hsame]
    split_ifs
    · exact .nil
    · exact .singleton ⟨⟨[], .refl c⟩, rfl, hcaps⟩
  allows _ _ _ w hw := by
    rw [notControlled, ways_seq_notAfter fun _ => minWidth_controlEnds] at hw
    split_ifs at hw
    · simp at hw
    · exact List.mem_singleton.mp hw

/-! ### Stored values -/

/-- A value that is stored ends where it ends in the text with newlines. -/
theorem firstAligned_storedValue : storedValue.FirstAligned := by
  have hfirst : (except [.char '=', .char ';', .category .blank false]).Aligned ⟨false, .bars⟩ :=
    aligned_of_alignment rfl
  have hend : (blanks ++ char ';').Aligned ⟨false, .free⟩ := aligned_of_alignment rfl
  have hequals : (blanks ++ char '=' ++ blanks).Aligned ⟨true, .free⟩ := aligned_of_alignment rfl
  -- The blanks behind the equals sign may end in a torn line end.  The value does not start in one.
  refine .of_ways (.behind ?_ hequals fun _ => ?_) ways_storedValue
  · exact .group_lazy rfl rfl rfl (by decide) hfirst rfl (hend.first rfl)
  · exact (((hfirst.barred rfl).append _).group _).append _

theorem firstAligned_memberStore {member : String}
    (h : (Chain.memberAccess member).alignment = some ⟨false, .bars⟩) :
    (memberStore member).FirstAligned :=
  firstAligned_storedValue.behind (aligned_of_alignment h) (by simp)

theorem ways_callStore (getter : String) (terms : Terms) (c : Cursor) (caps : Captures) :
    (callStore getter).ways terms c caps =
      ((wordEdge ++ literal getter ++ blanks) ++ (char '(' ++ (blanks ++
        (group "expr" (many1Lazy (except [.char ';', .char '='])) ++
          (blanks ++ (char ')' ++ storedValue)))))).ways terms c caps := by
  simp only [callStore, ways_append, List.flatMap_assoc]

/-- A store through the macro that reads the field.  If the parentheses hold something that is not
blank, then so does the argument. -/
theorem firstAlignedAt_callStore {getter : String}
    (h : (wordEdge ++ literal getter ++ blanks).alignment = some ⟨true, .bars⟩)
    {terms terms' : Terms} {c : Cursor} (hc : c.Lf terms terms') (htight : Tight c.text) :
    (callStore getter).FirstAlignedAt terms terms' c := by
  have hopen : (char '(').Aligned ⟨false, .bars⟩ := aligned_of_alignment rfl
  have hclose : (blanks ++ char ')').Aligned ⟨false, .free⟩ := aligned_of_alignment rfl
  have htail : (blanks ++ (char ')' ++ storedValue)).FirstAligned :=
    .of_ways (firstAligned_storedValue.behind hclose (by simp)) fun terms c caps =>
      (ways_cat_assoc _ _ _ terms c caps).symm
  refine .of_ways (.behind (aligned_of_alignment h) hc (fun hw hl => ?_) fun _ =>
    (hopen.barred rfl).append _) (ways_callStore getter)
  obtain ⟨u, hl⟩ := hl
  -- Only of the position behind the opening parenthesis the text tells what may follow.
  refine .behind hopen (hc.leads hl) (fun hw hl' => ?_) (by simp)
  obtain ⟨v, hl'⟩ := hl'
  refine .argument rfl rfl rfl (by decide) ?_ rfl htail
    ((hc.leads hl).leads hl') fun gap rest hafter hgap => ?_
  · exact basic_of_isBasic rfl
  · rw [ways_of_takes? rfl] at hw
    obtain ⟨x, hn, hx, -⟩ := Way.mem_step.mp hw
    obtain rfl : x = '(' := beq_iff_eq.mp hx
    rw [← hl.text_eq, Cursor.text, (Cursor.leads_of_next? hn).after, hafter] at htight
    exact htight _ gap rest rfl hgap

/-! ### Runs of statements -/

/-- What can be put in front of other expressions. -/
structure Joins (r : Regex) : Prop where
  /-- The preferred way stays the preferred way. -/
  append : ∀ {s : Regex}, s.FirstAligned → (r ++ s).FirstAligned

theorem Joins.firstAligned {r : Regex} (h : Joins r) : r.FirstAligned :=
  .of_ways (h.append (Aligned.empty.first rfl)) fun _ _ _ => (List.flatMap_singleton' _).symm

theorem Joins.of_aligned {r : Regex} {a : Alignment} (h : r.Aligned a) (htears : a.tears = false) :
    Joins r :=
  ⟨fun hs => hs.behind h (by simp [htears])⟩

theorem Joins.of_alignment {r : Regex} (h : r.alignment.any (fun a => !a.tears) = true) :
    Joins r := by
  obtain ⟨a, ha, htears⟩ := (Option.any_eq_true _ _).mp h
  exact .of_aligned (aligned_of_alignment ha) (by simpa using htears)

/-- The store of a slot, whose value is taken by a lazy group. -/
theorem joins_slotStore : Joins slotStore where
  append {s} hs := by
    have hslot : slotEquals.Aligned ⟨true, .bars⟩ := aligned_of_alignment rfl
    have hend : (char ';').Aligned ⟨false, .bars⟩ := aligned_of_alignment rfl
    have hfront : (notBefore (literal "NULL" ++ blanks ++ char ';') ++
        except [.char '=', .char ';', .category .blank false]).Aligned ⟨false, .bars⟩ :=
      aligned_of_alignment rfl
    have hblanks : (blanks ++ (char ';' ++ s)).FirstAligned :=
      .behind (.behind hs hend (by simp)) (aligned_of_alignment rfl) fun _ =>
        (hend.barred rfl).append _
    have hbody : ∀ (terms : Terms) (c : Cursor) (caps : Captures), (group "value"
        (notBefore (literal "NULL" ++ blanks ++ char ';') ++ assignedValue)).ways terms c caps =
          (group "value" ((notBefore (literal "NULL" ++ blanks ++ char ';') ++
            except [.char '=', .char ';', .category .blank false]) ++
              manyLazy (except [.char ';']))).ways terms c caps := fun terms c caps =>
      congrArg (List.map _) (ways_cat_assoc _ _ _ terms c caps).symm
    have hways : ∀ (terms : Terms) (c : Cursor) (caps : Captures),
        (slotStore ++ s).ways terms c caps = (slotEquals ++ (group "value"
          ((notBefore (literal "NULL" ++ blanks ++ char ';') ++
              except [.char '=', .char ';', .category .blank false]) ++
              manyLazy (except [.char ';'])) ++
            (blanks ++ (char ';' ++ s)))).ways terms c caps := by
      intro terms c caps
      simp only [slotStore, endOfStatement, ways_append, hbody, List.flatMap_assoc]
    refine .of_ways (.behind ?_ hslot fun _ => ?_) hways
    · exact .group_lazy rfl rfl rfl (by decide) hfront rfl hblanks
    · exact ((hfront.barred rfl).append _ |>.group _).append _

/-- Statements with separators between them. -/
theorem firstAligned_joined {separator : Regex} (hsep : Joins separator) {statements : List Regex}
    (h : ∀ r ∈ statements, Joins r) : (joined separator statements).FirstAligned := by
  induction statements with
  | nil => exact Aligned.empty.first rfl
  | cons r rest ih =>
    rw [List.forall_mem_cons] at h
    cases rest with
    | nil => exact h.1.firstAligned
    | cons r' rest =>
      exact .of_ways (h.1.append (hsep.append (ih h.2))) fun _ _ _ => ways_cat_assoc _ _ _ _ _ _

/-- The end of a line and the indentation of the next one. -/
theorem joins_lineEnd :
    Joins (many gap ++ optional (char '\r') ++ char '\n' ++ backReference "indent") := by
  have hgaps : (many gap).Aligned ⟨false, .stays⟩ := aligned_of_alignment rfl
  have hindent : (backReference "indent").Aligned ⟨false, .free⟩ := aligned_of_alignment rfl
  exact .of_aligned ((Aligned.assoc (hgaps.cat .lineBreak (by simp))).cat hindent (by simp)) rfl

variable {statements : List Regex}

/-- Runs on consecutive lines. -/
theorem firstAligned_onLines (h : ∀ r ∈ statements, Joins r) :
    (onLines statements).FirstAligned ∧ (onLines statements).Barred := by
  have hindent : (group "indent" (many gap)).Aligned ⟨false, .free⟩ := aligned_of_alignment rfl
  have hhead : (anchor .lineStart ++ notControlled ++ group "indent" (many gap)).Aligned
      ⟨false, .bars⟩ :=
    ((Aligned.lineStart.cat aligned_notControlled (by simp)).cat hindent (by simp))
  exact ⟨(firstAligned_joined joins_lineEnd h).behind hhead (by simp), (hhead.barred rfl).append _⟩

/-- Runs on one line. -/
theorem firstAligned_onOneLine (h : ∀ r ∈ statements, Joins r) :
    (onOneLine statements).FirstAligned ∧ (onOneLine statements).Barred := by
  have hgaps : (many gap).Aligned ⟨false, .stays⟩ := aligned_of_alignment rfl
  have hmark : (among [.char '\x7b', .char ';'] ++ many gap).Aligned ⟨false, .bars⟩ :=
    aligned_of_alignment rfl
  have hstart : (anchor .lineStart ++ notControlled ++ many gap).Aligned ⟨false, .bars⟩ :=
    (Aligned.lineStart.cat aligned_notControlled (by simp)).cat hgaps (by simp)
  have hlead : (group "lead" (alt (anchor .lineStart ++ notControlled ++ many gap)
      (among [.char '\x7b', .char ';'] ++ many gap))).Aligned ⟨false, .bars⟩ :=
    (hstart.alt hmark).group (by simp) fun h => absurd h (by decide)
  exact ⟨(firstAligned_joined (.of_aligned hgaps rfl) h).behind hlead (by simp),
    (hlead.barred rfl).append _⟩

/-- Whether a statement can be put in front of others. -/
def isJoining (r : Regex) : Bool := decide (r = slotStore) || r.alignment.any fun a => !a.tears

theorem joins_of_isJoining {statements : List Regex} (h : statements.all isJoining = true) :
    ∀ r ∈ statements, Joins r := by
  intro r hr
  rcases Bool.or_eq_true_iff.mp (List.all_eq_true.mp h r hr) with heq | ha
  · exact of_decide_eq_true heq ▸ joins_slotStore
  · exact .of_alignment ha

/-- The folds look for runs of such statements. -/
theorem exists_joins {rule : Rule} (hr : rule ∈ [clear, newRef, setRef]) {p : Pattern}
    (hp : p ∈ rule.patterns) : ∃ statements,
      (∀ r ∈ statements, Joins r) ∧
      (p.regex = onLines statements ∨ p.regex = onOneLine statements) := by
  have hadjacent : ∀ {statements : List Regex} {t : Template}, statements.all isJoining = true →
      p ∈ adjacent statements t → ∃ statements, (∀ r ∈ statements, Joins r) ∧
        (p.regex = onLines statements ∨ p.regex = onOneLine statements) := by
    intro statements t hjoins h
    rcases List.mem_pair.mp h with rfl | rfl
    · exact ⟨statements, joins_of_isJoining hjoins, .inl rfl⟩
    · exact ⟨statements, joins_of_isJoining hjoins, .inr rfl⟩
  simp only [List.mem_cons, List.not_mem_nil, or_false] at hr
  rcases hr with rfl | rfl | rfl
  · refine hadjacent ?_ hp
    decide +kernel
  · obtain ⟨e, he, hp⟩ := List.mem_flatMap.mp hp
    simp only [newRefFolds, List.mem_append] at hp
    rcases hp with (hp | hp) | hp <;> refine hadjacent ?_ hp <;> clear hp <;> revert e
      <;> decide +kernel
  · simp only [setRef, List.mem_append, List.mem_flatMap] at hp
    rcases hp with (⟨d, hd, e, he, hp⟩ | ⟨e, he, hp⟩) | ⟨e, he, hp⟩
    · simp only [setNewRefFolds, List.mem_append] at hp
      rcases hp with hp | hp <;> refine hadjacent ?_ hp <;> clear hp <;> revert e d
        <;> decide +kernel
    · refine hadjacent ?_ hp
      clear hp
      revert e
      decide +kernel
    · refine hadjacent ?_ hp
      clear hp
      revert e
      decide +kernel

/-! ### All patterns -/

/-- The rules whose patterns have no lazy groups and look at one line end at most. -/
def plainRules : List Rule :=
  [readType, readSize, readRefCount, objectNew, memoryFamily, objectFamily, readFrameBack,
    readFrameCode, readInterpreter, readThreadFrame, isSingleton]

theorem alignment_of_mem_plainRules {rule : Rule} (hr : rule ∈ plainRules) {p : Pattern}
    (hp : p ∈ rule.patterns) : ∃ a, p.regex.Aligned a ∧ a.tears = false ∧ a.grip = .bars := by
  have hall : plainRules.all (fun rule => rule.patterns.all fun p =>
      p.regex.alignment.any fun a => !a.tears && a.grip == .bars) = true := by
    decide +kernel
  have h := Rule.of_all_patterns hall hr hp
  obtain ⟨a, ha, hboth⟩ := (Option.any_eq_true _ _).mp h
  rw [Bool.and_eq_true, Bool.not_eq_true', beq_iff_eq] at hboth
  exact ⟨a, aligned_of_alignment ha, hboth⟩

theorem alignment_of_mem_storeRules {rule : Rule} {getter member : String}
    (hr : (rule, getter, member) ∈ storeRules) :
    (wordEdge ++ literal getter ++ blanks).alignment = some ⟨true, .bars⟩ ∧
      (Chain.memberAccess member).alignment = some ⟨false, .bars⟩ := by
  have hall : storeRules.all (fun e =>
      decide ((wordEdge ++ literal e.2.1 ++ blanks).alignment = some ⟨true, .bars⟩) &&
        decide ((Chain.memberAccess e.2.2).alignment = some ⟨false, .bars⟩)) = true := by
    decide +kernel
  simpa using List.all_eq_true.mp hall _ hr

/-- A pattern of a store does not match from a torn line end on.  At any other position of a tight
text it prefers the same match. -/
theorem firstAlignedAt_of_store {rule : Rule} {getter member : String}
    (hr : (rule, getter, member) ∈ storeRules) {p : Pattern} (hp : p ∈ rule.patterns) :
    p.regex.Barred ∧ ∀ {terms terms' : Terms} {c : Cursor}, c.Lf terms terms' → Tight c.text →
      p.regex.FirstAlignedAt terms terms' c := by
  obtain ⟨hcall, hmember⟩ := alignment_of_mem_storeRules hr
  rw [(of_mem_storeRules hr).2.2.2] at hp
  rcases List.mem_pair.mp hp with rfl | rfl
  · exact ⟨.of_ways (((aligned_of_alignment hcall).barred rfl).append _) (ways_callStore getter),
      firstAlignedAt_callStore hcall⟩
  · exact ⟨((aligned_of_alignment hmember).barred rfl).append _,
      fun hc _ => (firstAligned_memberStore hmember).everywhere hc⟩

/-- The other patterns do so in any text. -/
theorem firstAligned_of_mem_drop {rule : Rule} (hr : rule ∈ rules.drop storeRules.length)
    {p : Pattern} (hp : p ∈ rule.patterns) : p.regex.FirstAligned ∧ p.regex.Barred := by
  have hkinds : rule ∈ [clear, newRef, setRef] ∨ rule ∈ plainRules := by
    simp only [rules, storeRules, plainRules, List.length_cons, List.length_nil,
      List.drop_succ_cons, List.drop_zero, List.mem_cons, List.not_mem_nil, or_false] at hr ⊢
    grind
  rcases hkinds with hr | hr
  · obtain ⟨statements, hjoins, hregex | hregex⟩ := exists_joins hr hp
    · exact hregex ▸ firstAligned_onLines hjoins
    · exact hregex ▸ firstAligned_onOneLine hjoins
  · obtain ⟨a, ha, htears, hgrip⟩ := alignment_of_mem_plainRules hr hp
    exact ⟨ha.first htears, ha.barred hgrip⟩

end Catalog

end CApiUpgrade
