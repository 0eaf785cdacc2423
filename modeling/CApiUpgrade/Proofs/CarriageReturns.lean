import CApiUpgrade.Proofs.LinePatterns
import CApiUpgrade.Proofs.Locality

/-!
# Patching across line ends

A text whose lines end in carriage returns and newlines is patched like the text whose lines end in
newlines alone, if the latter has no carriage return and none of its parentheses hold blank
characters and nothing else (`patch_crlf`).

A pass over the one text is followed in the other.  At every position the same match is preferred,
and at torn line ends none starts (`Pattern.Pass.crlf`).  The stores come first.  They need a tight
text and leave one; all other patterns take any text without carriage returns.
-/

namespace CApiUpgrade

open Text

/-! ### Templates -/

namespace Template

/-- Whether no plain part of a template has a part of a line end. -/
def isInLine (t : Template) : Bool :=
  t.all fun
    | .plain text => text.toList.all fun c => c != '\n' && c != '\r'
    | .group _ => true

variable {t : Template} {texts texts' : String → Option (List Char)}

theorem ne_of_isInLine (h : t.isInLine = true) {text : String} (htext : .plain text ∈ t) {c : Char}
    (hc : c ∈ text.toList) : c ≠ '\n' ∧ c ≠ '\r' := by
  have hall := List.all_eq_true.mp h _ htext
  simpa using List.all_eq_true.mp hall c hc

theorem fill_crlf (h : t.isInLine = true) (htexts : ∀ n, texts' n = (texts n).map crlf) :
    t.fill texts' = crlf (t.fill texts) := by
  rw [fill, fill, crlf, List.flatMap_assoc]
  refine List.flatMap_congr fun part hpart => ?_
  cases part with
  | plain text => exact (crlf_eq_self fun hmem => (ne_of_isInLine h hpart hmem).1 rfl).symm
  | group name =>
    dsimp only
    rw [htexts]
    cases texts name <;> rfl

end Template

/-! ### Passes -/

namespace Pattern

/-- A pattern treats both kinds of line ends alike in texts of some kind, and leaves such a text. -/
structure Agrees (kind : List Char → Prop) (p : Pattern) : Prop where
  /-- The pattern is one like those of the catalog. -/
  regular : p.Regular
  /-- The template has no line ends. -/
  inLine : p.template.isInLine = true
  /-- No match starts in a torn line end. -/
  barred : p.regex.Barred
  /-- At all other positions, the same match is preferred. -/
  first : ∀ {terms terms' : Terms} {c : Cursor}, c.Lf terms terms' → kind c.text →
    p.regex.FirstAlignedAt terms terms' c
  /-- What a pass leaves is of the same kind. -/
  keeps : ∀ {text out : List Char} {hits : List Hit},
    p.Pass text.length (Cursor.ofText text) hits out → kind text → kind out

variable {kind : List Char → Prop} {p : Pattern} {bound bound' : Nat} {cur : Cursor}

/-- A pass brings no carriage return into the text. -/
theorem Pass.clean {hits : List Hit} {out : List Char} (h : p.Pass bound cur hits out)
    (hp : p.Regular) (ht : p.template.isInLine = true) (hcur : '\r' ∉ cur.after) : '\r' ∉ out := by
  induction h with
  | done => simp
  | skip _ hn _ ih =>
    rw [(Cursor.leads_of_next? hn).after, List.singleton_append, List.mem_cons, not_or] at hcur
    rw [List.mem_cons, not_or]
    exact ⟨hcur.1, ih hcur.2⟩
  | hit ha _ ih =>
    obtain ⟨m, hl, hm⟩ := hp.reads ha
    rw [hl.after, List.mem_append, not_or] at hcur
    rw [List.mem_append, not_or]
    refine ⟨fun hmem => ?_, ih hcur.2⟩
    rcases Template.mem_fill hmem with ⟨text, htext, hc⟩ | ⟨n, hn, u, hu, hc⟩
    · exact (Template.ne_of_isInLine ht htext hc).2 rfl
    · obtain ⟨e, he, rfl⟩ := List.mem_map.mp (hp.named n hn)
      exact hcur.1 ((hp.basic.spells_body hm he hu).1.subset hc)

namespace Agrees

theorem attempt_crlf_of_none (hp : p.Agrees kind)
    (hc : cur.Lf ⟨none, bound, none⟩ ⟨none, bound', none⟩) (hkind : kind cur.text)
    (ha : p.attempt bound cur = none) : p.attempt bound' cur.crlf = none := by
  have hfirst := (hp.first hc hkind).first (fun _ _ => trivial) (.nil fun _ => True)
  change Option.Rel _ (p.attempt bound cur) (p.attempt bound' cur.crlf) at hfirst
  rw [ha] at hfirst
  cases ha' : p.attempt bound' cur.crlf with
  | none => rfl
  | some w' =>
    rw [ha'] at hfirst
    cases hfirst

theorem attempt_crlf_of_some (hp : p.Agrees kind)
    (hc : cur.Lf ⟨none, bound, none⟩ ⟨none, bound', none⟩) (hkind : kind cur.text) {stop : Cursor}
    {caps : Captures} (ha : p.attempt bound cur = some (stop, caps)) :
    ∃ caps', p.attempt bound' cur.crlf = some (stop.crlf, caps') ∧
      ∀ n, caps'.textOf n = (caps.textOf n).map crlf := by
  have hfirst := (hp.first hc hkind).first (fun _ _ => trivial) (.nil fun _ => True)
  change Option.Rel _ (p.attempt bound cur) (p.attempt bound' cur.crlf) at hfirst
  rw [ha] at hfirst
  cases ha' : p.attempt bound' cur.crlf with
  | none =>
    rw [ha'] at hfirst
    cases hfirst
  | some w' =>
    rw [ha'] at hfirst
    cases hfirst with
    | some hw => exact ⟨w'.2, by rw [← hw.stop], fun n => hw.captures.text n trivial⟩

theorem attempt_torn (hp : p.Agrees kind) {next : Cursor}
    (hc : cur.Lf ⟨none, bound, none⟩ ⟨none, bound', none⟩) (hn : cur.next? = some ('\n', next)) :
    p.attempt bound' cur.torn = none := by
  rw [Pattern.attempt, Regex.attempt, hp.barred.ways_eq_nil hc hn (.nil _)]
  rfl

/-- **A pass over a text with newlines** is a pass over the text with carriage returns. -/
theorem pass_crlf (hp : p.Agrees kind) {hits : List Hit} {out : List Char}
    (h : p.Pass bound cur hits out) (hc : cur.Lf ⟨none, bound, none⟩ ⟨none, bound', none⟩)
    (hkind : kind cur.text) : ∃ hits', p.Pass bound' cur.crlf hits' (crlf out) := by
  induction h with
  | @done cur hafter ha =>
    have hend : cur.crlf.after = [] := by rw [Cursor.crlf, hafter, crlf_nil]
    exact ⟨[], .done hend (hp.attempt_crlf_of_none hc hkind ha)⟩
  | @skip cur next x _ _ ha hn _ ih =>
    have hnone := hp.attempt_crlf_of_none hc hkind ha
    obtain ⟨hits', hpass⟩ := ih (hc.next hn) (Cursor.text_of_next? hn ▸ hkind)
    by_cases hx : x = '\n'
    · -- Both halves of the line end are copied.
      subst hx
      rw [crlf_newline]
      exact ⟨hits', .skip hnone (Cursor.next?_crlf_of_newline hn)
        (.skip (hp.attempt_torn hc hn) (Cursor.next?_torn hn) hpass)⟩
    · rw [crlf_cons_of_ne hx]
      exact ⟨hits', .skip hnone (Cursor.next?_crlf_of_ne hn hx) hpass⟩
  | hit ha _ ih =>
    obtain ⟨m, hl, -⟩ := hp.regular.reads ha
    obtain ⟨caps', ha', htexts⟩ := hp.attempt_crlf_of_some hc hkind ha
    obtain ⟨hits', hpass⟩ := ih (hc.leads hl) (hl.text_eq ▸ hkind)
    rw [crlf_append, ← Template.fill_crlf hp.inLine htexts]
    exact ⟨_, .hit ha' hpass⟩

/-- An application to either text. -/
theorem apply_crlf (hp : p.Agrees kind) {text : List Char} {o o' : Option (List Char)}
    (hclean : '\r' ∉ text) (hkind : kind text) (h : p.apply text = .ok o)
    (h' : p.apply (crlf text) = .ok o') : o'.getD (crlf text) = crlf (o.getD text) ∧
      '\r' ∉ o.getD text ∧ kind (o.getD text) := by
  obtain ⟨hits, -, -, hpass⟩ := hp.regular.pass_of_apply h
  obtain ⟨hits', -, -, hpass'⟩ := hp.regular.pass_of_apply h'
  have hstart :
      (Cursor.ofText text).Lf ⟨none, text.length, none⟩ ⟨none, (crlf text).length, none⟩ :=
    ⟨hclean, le_rfl, le_rfl⟩
  obtain ⟨hits'', hcrlf⟩ := hp.pass_crlf hpass hstart hkind
  rw [Cursor.crlf_ofText] at hcrlf
  exact ⟨(hpass'.unique hcrlf).2, hpass.clean hp.regular hp.inLine hclean, hp.keeps hpass hkind⟩

end Agrees

/-- Patterns one after another. -/
theorem applyAll_crlf {ps : List Pattern} (hps : ∀ p ∈ ps, p.Agrees kind)
    {text out out' : List Char} (hclean : '\r' ∉ text) (hkind : kind text)
    (h : applyAll ps text = .ok out) (h' : applyAll ps (crlf text) = .ok out') :
    out' = crlf out ∧ '\r' ∉ out ∧ kind out := by
  induction ps generalizing text with
  | nil =>
    obtain rfl := Except.ok.inj h
    obtain rfl := Except.ok.inj h'
    exact ⟨rfl, hclean, hkind⟩
  | cons p ps ih =>
    rw [List.forall_mem_cons] at hps
    obtain ⟨o, ho, hrest⟩ := applyAll_cons_eq_ok.mp h
    obtain ⟨o', ho', hrest'⟩ := applyAll_cons_eq_ok.mp h'
    obtain ⟨htext, hclean, hkind⟩ := hps.1.apply_crlf hclean hkind ho ho'
    rw [htext] at hrest'
    exact ih hps.2 hclean hkind hrest hrest'

end Pattern

/-! ### The catalog -/

namespace Catalog

theorem isInLine_template {rule : Rule} (hr : rule ∈ rules) {p : Pattern} (hp : p ∈ rule.patterns) :
    p.template.isInLine = true := by
  have hall : rules.all (fun rule => rule.patterns.all (·.template.isInLine)) = true := by
    decide +kernel
  exact Rule.of_all_patterns hall hr hp

/-- The patterns of the stores, in tight texts. -/
theorem agrees_of_store {rule : Rule} {getter member : String}
    (hr : (rule, getter, member) ∈ storeRules) {p : Pattern} (hp : p ∈ rule.patterns) :
    p.Agrees Tight where
  regular := regular (of_mem_storeRules hr).1 hp
  inLine := isInLine_template (of_mem_storeRules hr).1 hp
  barred := (firstAlignedAt_of_store hr hp).1
  first := (firstAlignedAt_of_store hr hp).2
  keeps hpass htight := hpass.tight_of_store hr hp htight

/-- All other patterns, in any text. -/
theorem agrees_of_mem_drop {rule : Rule} (hr : rule ∈ rules.drop storeRules.length) {p : Pattern}
    (hp : p ∈ rule.patterns) : p.Agrees fun _ => True where
  regular := regular (List.mem_of_mem_drop hr) hp
  inLine := isInLine_template (List.mem_of_mem_drop hr) hp
  barred := (firstAligned_of_mem_drop hr hp).2
  first hc _ := (firstAligned_of_mem_drop hr hp).1.everywhere hc
  keeps _ _ := trivial

end Catalog

/-! ### Patches -/

namespace Patch.Session

/-- Two sessions, the second on the text with carriage returns.  Neither includes the header. -/
structure Twins (kind : List Char → Prop) (s s' : Session) : Prop where
  /-- The first text has no carriage return. -/
  clean : '\r' ∉ s.text
  /-- It is of some kind. -/
  kind : kind s.text
  /-- The second text has a carriage return in front of every newline. -/
  text : s'.text = crlf s.text
  /-- The same rules have fired. -/
  applied : s'.applied = s.applied
  /-- No header is missing. -/
  plain : s.headerMissing = false
  /-- No header is missing. -/
  plain' : s'.headerMissing = false

variable {kind : List Char → Prop} {s s' t t' : Session}

theorem Twins.forget (h : Twins kind s s') : Twins (fun _ => True) s s' :=
  { h with kind := trivial }

theorem Twins.step (hs : Twins kind s s') {rule : Rule} (hrule : ∀ p ∈ rule.patterns, p.Agrees kind)
    (h : s.step rule = .ok t) (h' : s'.step rule = .ok t') : Twins kind t t' := by
  obtain ⟨happly, hplain, happlied⟩ := step_plain hs.plain h
  obtain ⟨happly', hplain', happlied'⟩ := step_plain hs.plain' h'
  rw [hs.text] at happly' happlied'
  obtain ⟨htext, hclean, hkind⟩ := Pattern.applyAll_crlf hrule hs.clean hs.kind happly happly'
  refine ⟨hclean, hkind, htext, ?_, hplain, hplain'⟩
  -- The rule fires on both texts or on none, since different texts stay different.
  rw [happlied, happlied', hs.applied, htext]
  simp only [fired, crlf_injective.eq_iff]

theorem Twins.foldlM (hs : Twins kind s s') {rules : List Rule}
    (hrules : ∀ rule ∈ rules, ∀ p ∈ rule.patterns, p.Agrees kind)
    (h : rules.foldlM Session.step s = .ok t) (h' : rules.foldlM Session.step s' = .ok t') :
    Twins kind t t' := by
  induction rules generalizing s s' with
  | nil =>
    obtain rfl := Except.ok.inj h
    obtain rfl := Except.ok.inj h'
    exact hs
  | cons rule rules ih =>
    rw [List.forall_mem_cons] at hrules
    obtain ⟨s₁, hstep, hrest⟩ := foldlM_step_cons.mp h
    obtain ⟨s₁', hstep', hrest'⟩ := foldlM_step_cons.mp h'
    exact ih (hs.step hrules.1 hstep hstep') hrules.2 hrest hrest'

end Patch.Session

open Patch in
/-- **Line ends of either kind.**  A text without carriage returns, in which no opening parenthesis
is followed by blank characters and then a closing one, is patched alike with carriage returns in
front of all its newlines.  The same rules fire. -/
theorem patch_crlf {selection : String} {selected : List Rule}
    (hs : Catalog.all.select selection = .ok selected) {text : List Char} (hclean : '\r' ∉ text)
    (htight : Tight text) {o o' : PatchOutcome} (h : patch selected false text = .ok o)
    (h' : patch selected false (crlf text) = .ok o') :
    o'.text = crlf o.text ∧ o'.applied = o.applied := by
  obtain ⟨t, hfold, rfl⟩ := patch_eq_ok.mp h
  obtain ⟨t', hfold', rfl⟩ := patch_eq_ok.mp h'
  obtain ⟨wanted, rfl⟩ := Catalog.eq_filter_of_select hs
  have hstores : Catalog.rules =
      Catalog.storeRules.map Prod.fst ++ Catalog.rules.drop Catalog.storeRules.length := rfl
  rw [hstores, List.filter_append, List.foldlM_append, bind_eq_ok] at hfold hfold'
  obtain ⟨s, hfirst, hrest⟩ := hfold
  obtain ⟨s', hfirst', hrest'⟩ := hfold'
  -- The stores come first and leave a tight text.  The rules behind them do not need one.
  have hstart : Session.Twins Tight (.start text false) (.start (crlf text) false) :=
    ⟨hclean, htight, rfl, rfl, rfl, rfl⟩
  have hmiddle := hstart.foldlM (fun rule hr p hp => by
    obtain ⟨e, he, rfl⟩ := List.mem_map.mp (List.mem_of_mem_filter hr)
    exact Catalog.agrees_of_store he hp) hfirst hfirst'
  have hend := hmiddle.forget.foldlM
    (fun rule hr p hp => Catalog.agrees_of_mem_drop (List.mem_of_mem_filter hr) hp) hrest hrest'
  exact ⟨hend.text, hend.applied⟩

/-- A store on two lines, and a reference that is folded over a line end. -/
theorem patch_crlf_lines :
    let text := "Py_TYPE(a) =\n b;\nPy_XDECREF(x);\nx = NULL;\n".toList
    let o : PatchOutcome :=
      ⟨"Py_SET_TYPE(a, b);\nPy_CLEAR(x);\n".toList, ["Py_SET_TYPE", "Py_CLEAR"], false⟩
    let o' : PatchOutcome :=
      ⟨"Py_SET_TYPE(a, b);\r\nPy_CLEAR(x);\r\n".toList, ["Py_SET_TYPE", "Py_CLEAR"], false⟩
    '\r' ∉ text ∧ Tight text ∧ patch [Catalog.setType, Catalog.clear] false text = .ok o ∧
      patch [Catalog.setType, Catalog.clear] false (crlf text) = .ok o' ∧
        o'.text = crlf o.text ∧ o'.applied = o.applied := by
  intro text o o'
  have hselect : Catalog.all.select "Py_SET_TYPE,Py_CLEAR" =
      .ok [Catalog.setType, Catalog.clear] := rfl
  have hclean : '\r' ∉ text := by decide
  have htight : Tight text := tight_iff.mpr ⟨.no, by decide⟩
  have h : patch [Catalog.setType, Catalog.clear] false text = .ok o :=
    Evaluation.patch_eq_ok (by decide +kernel)
  have h' : patch [Catalog.setType, Catalog.clear] false (crlf text) = .ok o' :=
    Evaluation.patch_eq_ok (by decide +kernel)
  exact ⟨hclean, htight, h, h', patch_crlf hselect hclean htight h h'⟩

-- Parentheses around a line end and nothing else: half of the line end is taken for the argument.
example : Catalog.setType.apply "Py_TYPE(\n) = b;".toList = .ok "Py_SET_TYPE(\n, b);".toList ∧
    Catalog.setType.apply "Py_TYPE(\r\n) = b;".toList = .ok "Py_SET_TYPE(\n, b);".toList :=
  ⟨Evaluation.apply_eq_ok (by decide +kernel), Evaluation.apply_eq_ok (by decide +kernel)⟩

end CApiUpgrade
