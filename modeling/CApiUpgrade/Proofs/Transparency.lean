import CApiUpgrade.Proofs.Locality

/-!
# The header in front of a text

The line that includes the compatibility header is put in front of a text in the middle of a run, so
that later rules see another text than without it.  They do the same to both (`patch_header`): the
run that includes the header fires the same rules and leaves the same text behind the line.

No match starts in the line or in the empty line behind it: there, no expression of the catalog
agrees with what follows (`Catalog.advance_header`).  From the end of the empty line on, a pass goes
as it goes at the start of a text, as long as the text is calm (`Pattern.Pass.within_left`).
-/

namespace CApiUpgrade

open Text

/-! ### Patterns -/

namespace Regex

/-- Where no match agrees with a text from any of its positions on, a search skips the text. -/
theorem Basic.skips_of_advance {r : Regex} (hr : r.Basic) {mark : List Char}
    (hnone : r.advance mark (2 ^ mark.length - 1) = 0) {bound : Nat} {cur : Cursor}
    {w rest : List Char} (hw : w <:+ mark) (hafter : cur.after = w ++ rest) :
    ∃ stop, r.Skips bound cur w stop := by
  induction w generalizing cur with
  | nil => exact ⟨cur, .refl cur⟩
  | cons x w ih =>
    obtain ⟨front, rfl⟩ := hw
    -- A match from here would agree with the rest of the mark, and no state that starts inside of
    -- the mark gets through the expression.
    have hfail : r.attempt bound cur = none := by
      rw [attempt, List.head?_eq_none_iff, List.eq_nil_iff_forall_not_mem]
      rintro ⟨stop, caps⟩ hmem
      obtain ⟨m, hl, hm, -⟩ := hr.spells_of_mem_ways (fun _ _ _ _ => trivial)
        (Captures.Hold.nil fun _ _ => True) hmem
      have hagree : Agree m ((front ++ x :: w).drop front.length) := by
        rw [List.drop_left]
        refine agree_of_startsWith (v := stop.after) ?_
        rw [← hl.after, hafter]
        exact List.prefix_append _ _
      have hall : (2 ^ (front ++ x :: w).length - 1).testBit front.length = true := by
        simp [Nat.testBit_two_pow_sub_one]
      have hbit := hr.testBit_advance hm (by simp) hall hagree
      rw [hnone, Nat.zero_testBit] at hbit
      cases hbit
    obtain ⟨next, hn⟩ : ∃ next, cur.next? = some (x, next) := by
      rw [Cursor.next?, hafter]
      exact ⟨_, rfl⟩
    have hlater : next.after = w ++ rest := by
      have hx := (Cursor.leads_of_next? hn).after
      rw [hafter] at hx
      exact (List.cons.inj hx).2.symm
    obtain ⟨stop, hskips⟩ := ih ⟨front ++ [x], by simp⟩ hlater
    exact ⟨stop, .step hfail hn hskips⟩

end Regex

/-- No match starts in the lines that include the header. -/
theorem Catalog.advance_header {rule : Rule} (hr : rule ∈ rules) {p : Pattern}
    (hp : p ∈ rule.patterns) :
    p.regex.advance Header.lines (2 ^ Header.lines.length - 1) = 0 := by
  have hall : rules.all (fun rule => rule.patterns.all fun p =>
      p.regex.advance Header.lines (2 ^ Header.lines.length - 1) == 0) = true := by
    decide +kernel
  exact beq_iff_eq.mp (Rule.of_all_patterns hall hr hp)

/-- **A pattern behind the header** passes as it does at the start of the text. -/
theorem Pattern.Regular.pass_header {p : Pattern} (hp : p.Regular) {stage : Stage}
    (hnone : p.regex.advance Header.lines (2 ^ Header.lines.length - 1) = 0)
    (hsteady : p.regex.isSteady true = true) (hlooks : p.looksBehind stage = true)
    (hkeeps : stage ≠ .tests → p.keepsCalm stage = true) {text out : List Char} {hits : List Hit}
    (hcalm : Calm stage text) (h : p.Pass text.length (Cursor.ofText text) hits out) :
    ∃ hits', p.Pass (Header.insert text).length (Cursor.ofText (Header.insert text)) hits'
      (Header.insert out) := by
  have hleft : ['\n', '\n'] <+: Header.lines.reverse :=
    ⟨Header.quotedInclude.toList.reverse, by decide⟩
  have hbound' : text.length ≤ (Header.insert text).length := by simp [Header.insert]
  obtain ⟨hits', hpass, -⟩ := h.within_left hp hsteady hlooks hkeeps hcalm hleft le_rfl hbound'
  have hstart : (Cursor.ofText (Header.insert text)).after = Header.lines ++ text := rfl
  obtain ⟨stop, hskips⟩ := @Regex.Basic.skips_of_advance _ hp.basic _ hnone
    (Header.insert text).length _ _ _ List.suffix_rfl hstart
  -- Having tried all positions of the header, the search stands at the start of the text below it.
  have hstop : stop = (Cursor.ofText text).within Header.lines.reverse [] := by
    have hl := hskips.leads
    refine Cursor.ext ?_ ?_
    · rw [hl.before]
      simp [Cursor.ofText, Cursor.within]
    · have hafter := hl.after
      simpa [Cursor.ofText, Cursor.within, Header.insert] using hafter.symm
  rw [← hstop] at hpass
  exact ⟨hits', hpass.of_skips hskips⟩

/-! ### Rules -/

/-- Patterns that are applied one after another behind the header. -/
theorem Pattern.applyAll_header {stage : Stage} {ps : List Pattern}
    (hps : ∀ p ∈ ps, p.Regular ∧ p.regex.isSteady true = true ∧
      p.regex.advance Header.lines (2 ^ Header.lines.length - 1) = 0 ∧
      p.looksBehind stage = true ∧ (stage ≠ .tests → p.keepsCalm stage = true))
    {text out out' : List Char} (hcalm : Calm stage text) (h : applyAll ps text = .ok out)
    (h' : applyAll ps (Header.insert text) = .ok out') : out' = Header.insert out := by
  induction ps generalizing text with
  | nil =>
    rw [applyAll_nil, Except.ok.injEq] at h h'
    rw [← h, ← h']
  | cons p ps ih =>
    obtain ⟨hp, hsteady, hnone, hlooks, hkeeps⟩ := hps p List.mem_cons_self
    obtain ⟨o, ho, hrest⟩ := applyAll_cons_eq_ok.mp h
    obtain ⟨o', ho', hrest'⟩ := applyAll_cons_eq_ok.mp h'
    obtain ⟨hits, -, -, hpass⟩ := hp.pass_of_apply ho
    obtain ⟨hits', -, -, hpass'⟩ := hp.pass_of_apply ho'
    obtain ⟨hits'', hpass''⟩ := hp.pass_header hnone hsteady hlooks hkeeps hcalm hpass
    rw [(hpass'.unique hpass'').2] at hrest'
    have hcalm' : Calm stage (o.getD text) := by
      by_cases hstage : stage = .tests
      · exact hstage ▸ calm_tests _
      · exact hpass.calm hp (hkeeps hstage) (.inl (by decide)) hcalm
    exact ih (fun q hq => hps q (List.mem_cons_of_mem p hq)) hcalm' hrest hrest'

/-- **A rule behind the header** leaves what it leaves without it. -/
theorem Rule.apply_header {rule : Rule} (hr : rule ∈ Catalog.rules) {text out out' : List Char}
    (hcalm : Calm (Catalog.stage rule) text) (h : rule.apply text = .ok out)
    (h' : rule.apply (Header.insert text) = .ok out') : out' = Header.insert out :=
  Pattern.applyAll_header
    (fun _ hp => ⟨Catalog.regular hr hp,
      (Pattern.stops_of_staysBefore (Catalog.staysBefore hr hp)).1, Catalog.advance_header hr hp,
      Catalog.looksBehind hr hp, fun hstage => Catalog.keepsCalm hr hstage hp⟩) hcalm h h'

/-! ### Patches -/

/-- Whether the rule of a name needs the header. -/
def Catalog.needsHeader (name : String) : Bool := (all.find? name).any Rule.needsHeader

theorem Catalog.needsHeader_name {rule : Rule} (hr : rule ∈ rules) :
    needsHeader rule.name = rule.needsHeader := by
  have hall : rules.all (fun rule => needsHeader rule.name == rule.needsHeader) = true := by
    decide
  exact beq_iff_eq.mp (List.all_eq_true.mp hall rule hr)

namespace Patch.Session

/-- A text with the header on top, if one of the named rules needs it. -/
def headed (applied : List String) (text : List Char) : List Char :=
  if applied.any Catalog.needsHeader then Header.insert text else text

/-- A session that includes the header beside one that does not: they have fired the same rules, and
the header is there as soon as one of these needs it. -/
structure Beside (s s' : Session) : Prop where
  /-- The second session includes no header. -/
  plain : s'.headerMissing = false
  /-- The same rules have fired. -/
  applied : s.applied = s'.applied
  /-- The header is missing as long as no rule has needed it. -/
  missing : s.headerMissing = !s'.applied.any Catalog.needsHeader
  /-- The texts differ by the header. -/
  text : s.text = headed s'.applied s'.text

variable {s s₁ s' s₁' : Session} {rule : Rule}

/-- A rule that fires in both sessions. -/
theorem Beside.fire (h : Beside s s') (hr : rule ∈ Catalog.rules) {changed changed' : List Char}
    (hchanged : changed = headed s'.applied changed') :
    Beside (s.fire rule changed) (s'.fire rule changed') := by
  have hfire' : s'.fire rule changed' =
      { s' with text := changed', applied := s'.applied ++ [rule.name] } := by
    simp [Session.fire, h.plain]
  have hany : (s'.applied ++ [rule.name]).any Catalog.needsHeader =
      (s'.applied.any Catalog.needsHeader || rule.needsHeader) := by
    rw [List.any_append, List.any_cons, List.any_nil, Catalog.needsHeader_name hr, Bool.or_false]
  have hmissing := h.missing
  rw [hfire']
  unfold headed at hchanged
  unfold Session.fire
  dsimp only
  split_ifs with hinsert
  · rw [Bool.and_eq_true] at hinsert
    rw [hinsert.2, eq_comm, Bool.not_eq_true'] at hmissing
    refine ⟨h.plain, congrArg (· ++ _) h.applied, ?_, ?_⟩
    · simp [hany, hinsert.1]
    · simp [headed, hany, hinsert.1, hchanged, hmissing]
  · -- The header is on top already, or still not needed.
    have hkept : (s'.applied.any Catalog.needsHeader || rule.needsHeader) =
        s'.applied.any Catalog.needsHeader := by
      rw [hmissing] at hinsert
      cases hn : rule.needsHeader <;> cases ha : s'.applied.any Catalog.needsHeader <;> simp_all
    refine ⟨h.plain, congrArg (· ++ _) h.applied, ?_, ?_⟩
    · rw [hany, hkept, hmissing]
    · rw [headed, hany, hkept, hchanged]

/-- **One step.**  A rule does the same in both sessions. -/
theorem Beside.step (h : Beside s s') (hr : rule ∈ Catalog.rules)
    (hcalm : Calm (Catalog.stage rule) s'.text) (hs : s.step rule = .ok s₁)
    (hs' : s'.step rule = .ok s₁') : Beside s₁ s₁' := by
  obtain ⟨changed, ha, hcases⟩ := step_cases hs
  obtain ⟨changed', ha', hcases'⟩ := step_cases hs'
  have hchanged : changed = headed s'.applied changed' := by
    rw [h.text] at ha
    unfold headed at ha ⊢
    split_ifs at ha ⊢
    · exact Rule.apply_header hr hcalm ha' ha
    · rw [ha', Except.ok.injEq] at ha
      exact ha.symm
  -- The header is on top of both texts or of neither, so a rule changes both or neither.
  have hsame : changed = s.text ↔ changed' = s'.text := by
    rw [hchanged, h.text]
    unfold headed
    split_ifs
    · exact List.append_right_inj _
    · rfl
  rcases hcases' with ⟨hkept, rfl⟩ | ⟨hnew, rfl⟩
  · rcases hcases with ⟨-, rfl⟩ | ⟨hne, -⟩
    · exact h
    · exact absurd (hsame.mpr hkept) hne
  · rcases hcases with ⟨heq, -⟩ | ⟨-, rfl⟩
    · exact absurd (hsame.mp heq) hnew
    · exact h.fire hr hchanged

/-- **All steps.** -/
theorem Beside.foldlM {rules : List Rule} (hrules : ∀ rule ∈ rules, rule ∈ Catalog.rules)
    (hstages : rules.Pairwise fun r r' => (Catalog.stage r).rank ≤ (Catalog.stage r').rank)
    (h : Beside s s') (hcalm : ∀ rule ∈ rules, Calm (Catalog.stage rule) s'.text)
    (hs : rules.foldlM Session.step s = .ok s₁) (hs' : rules.foldlM Session.step s' = .ok s₁') :
    Beside s₁ s₁' := by
  induction rules generalizing s s' with
  | nil =>
    rw [List.foldlM_nil] at hs hs'
    obtain rfl := Except.ok.inj hs
    obtain rfl := Except.ok.inj hs'
    exact h
  | cons rule rules ih =>
    obtain ⟨s₂, hstep, hrest⟩ := foldlM_step_cons.mp hs
    obtain ⟨s₂', hstep', hrest'⟩ := foldlM_step_cons.mp hs'
    have hr := hrules rule List.mem_cons_self
    have hnow := hcalm rule List.mem_cons_self
    rw [List.pairwise_cons] at hstages
    have hlater : ∀ r ∈ rules, Calm (Catalog.stage r) s₂'.text := fun r hmem =>
      Rule.calm_of_apply hr (step_plain h.plain hstep').1 hnow (hstages.1 r hmem)
    exact ih (fun r hmem => hrules r (List.mem_cons_of_mem rule hmem)) hstages.2
      (h.step hr hnow hstep hstep') hlater hrest hrest'

end Patch.Session

open Patch in
/-- **The header is transparent.**  Patching a text with and without the header fires the same
rules, and the texts differ by the header, which is on top as soon as a rule has fired that needs
it.  The text does not include the header already, and its first line does not read `else` or
`do`. -/
theorem patch_header {selection : String} {selected : List Rule}
    (hs : Catalog.all.select selection = .ok selected) {text : List Char}
    (hmissing : Header.isIncluded text = false)
    (hfirst : trimmed (firstLine text) ∉ ["else".toList, "do".toList]) {o o' : PatchOutcome}
    (ho : patch selected true text = .ok o) (ho' : patch selected false text = .ok o') :
    o.applied = o'.applied ∧
      o.text = if o'.applied.any Catalog.needsHeader then Header.lines ++ o'.text else o'.text := by
  obtain ⟨s, hfold, rfl⟩ := patch_eq_ok.mp ho
  obtain ⟨s', hfold', rfl⟩ := patch_eq_ok.mp ho'
  have hsub := Catalog.sublist_of_select hs
  have hstart : Session.Beside (.start text true) (.start text false) :=
    ⟨rfl, rfl, by simp [Session.start, hmissing], rfl⟩
  have hcalm : ∀ rule ∈ selected, Calm (Catalog.stage rule) text := fun rule _ =>
    (calm_of_trimmed_firstLine hfirst).later (Nat.zero_le _)
  have hend := hstart.foldlM (fun rule hr => hsub.subset hr) (Catalog.pairwise_stage.sublist hsub)
    hcalm hfold hfold'
  exact ⟨hend.applied, hend.text⟩

/-- A field that is read behind the header, and one that was read before the header was there. -/
theorem patch_header_fields :
    let text := "g->f_back;g->f_code;".toList
    let new := "_PyFrame_GetBackBorrow(g);_PyFrame_GetCodeBorrow(g);".toList
    let rules := [Catalog.readFrameBack, Catalog.readFrameCode]
    let names := ["PyFrame_GetBack", "PyFrame_GetCode"]
    patch rules true text = .ok ⟨Header.lines ++ new, names, true⟩ ∧
      patch rules false text = .ok ⟨new, names, false⟩ ∧
      Header.lines ++ new =
        if names.any Catalog.needsHeader then Header.lines ++ new else new := by
  intro text new rules names
  have hselect : Catalog.all.select "PyFrame_GetCode,PyFrame_GetBack" = .ok rules := rfl
  have hwith : patch rules true text = .ok ⟨Header.lines ++ new, names, true⟩ :=
    Evaluation.patch_eq_ok (by decide +kernel)
  have hwithout : patch rules false text = .ok ⟨new, names, false⟩ :=
    Evaluation.patch_eq_ok (by decide +kernel)
  exact ⟨hwith, hwithout, (patch_header hselect (by decide +kernel) (by decide) hwith hwithout).2⟩

end CApiUpgrade
