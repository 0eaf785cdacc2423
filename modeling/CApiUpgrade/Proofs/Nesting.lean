import CApiUpgrade.Proofs.Characters

/-!
# Braces and parentheses

Patching keeps the block structure of a text: the braces stay as they are, and so does the number of
parentheses that are opened and not closed (`nesting_of_patch`).

Pattern by pattern this is read off the expression and the template.  An `Outline` says what braces
and parentheses a text has in terms of what the groups have matched: which groups contribute their
own, in which order, and how many parentheses come on top.  If a match and its replacement have the
same outline, they have the same braces and as many open parentheses, whatever the groups matched.

Behind an opening bracket a chain may hold anything.  A fold drops the second of two equal chains
and with it whatever stands between its brackets, so the outlines of a fold agree on texts without
an opening bracket only.
-/

namespace CApiUpgrade

/-! ### Braces and open parentheses of a text -/

namespace Text

/-- The braces of a text, in their order. -/
def braces (text : List Char) : List Char := text.filter fun c => c == '\x7b' || c == '\x7d'

/-- How many more parentheses a text opens than it closes. -/
def openParens (text : List Char) : ℤ := text.count '(' - text.count ')'

@[simp]
theorem braces_nil : braces [] = [] := rfl

@[simp]
theorem openParens_nil : openParens [] = 0 := rfl

@[simp]
theorem braces_append (u v : List Char) : braces (u ++ v) = braces u ++ braces v :=
  List.filter_append ..

@[simp]
theorem openParens_append (u v : List Char) :
    openParens (u ++ v) = openParens u + openParens v := by
  simp only [openParens, List.count_append]
  omega

/-- The characters that matter for the nesting of blocks and parentheses. -/
def nestingMarks : List Char := ['\x7b', '\x7d', '(', ')']

/-- A character that does not matter has no braces and no parentheses. -/
theorem flat_of_notMem_nestingMarks {c : Char} (h : c ∉ nestingMarks) :
    braces [c] = [] ∧ openParens [c] = 0 := by
  simp only [nestingMarks, List.mem_cons, List.not_mem_nil, or_false, not_or] at h
  obtain ⟨h₁, h₂, h₃, h₄⟩ := h
  simp [braces, openParens, h₁, h₂, h₃, h₄]

end Text

open Text

/-! ### Outlines -/

/-- What is known of the braces and parentheses of a text, given what the groups have matched. -/
inductive Outline where
  /-- There is no such text. -/
  | never
  /-- The braces are those of the given groups, one after another.  The parentheses are those of the
  groups, and `opened` more are opened than closed. -/
  | known (parts : List String) (opened : ℤ)
  /-- Nothing is known. -/
  | unknown
  deriving DecidableEq

/-- What groups have matched, one after another.  A group that took no part leaves nothing. -/
def gather (texts : String → Option (List Char)) (names : List String) : List Char :=
  names.flatMap fun name => (texts name).getD []

namespace Outline

/-- Whether an outline is right about a text. -/
def Describes (texts : String → Option (List Char)) : Outline → List Char → Prop
  | never, _ => False
  | known parts opened, w =>
    braces w = braces (gather texts parts) ∧ openParens w = opened + openParens (gather texts parts)
  | unknown, _ => True

/-- The outline of a text without braces and parentheses. -/
def flat : Outline := known [] 0

/-- The outline of one text behind another. -/
def append : Outline → Outline → Outline
  | never, _ | _, never => never
  | known parts opened, known parts' opened' => known (parts ++ parts') (opened + opened')
  | _, _ => unknown

/-- The outline of a text that has one of two outlines. -/
def either (o o' : Outline) : Outline :=
  if o = never then o' else if o' = never ∨ o = o' then o else unknown

/-- The outline of any number of texts with the same outline, at least `least`. -/
def repeated (least : Nat) : Outline → Outline
  | never => if least = 0 then flat else never
  | known [] 0 => flat
  | _ => unknown

/-- The outline of what a group has matched: its own contribution unless that is always the same. -/
def named (name : String) : Outline → Outline
  | never => never
  | known [] opened => known [] opened
  | _ => known [name] 0

variable {texts : String → Option (List Char)} {o o' : Outline} {u v w : List Char}

theorem describes_known_nil {opened : ℤ} :
    (known [] opened).Describes texts w ↔ braces w = [] ∧ openParens w = opened := by
  simp [Describes, gather]

theorem describes_flat : flat.Describes texts w ↔ braces w = [] ∧ openParens w = 0 :=
  describes_known_nil

theorem describes_part {name : String} (h : texts name = some w) :
    (known [name] 0).Describes texts w := by
  simp [Describes, gather, h]

theorem Describes.append (hu : o.Describes texts u) (hv : o'.Describes texts v) :
    (o.append o').Describes texts (u ++ v) := by
  cases o <;> cases o' <;> simp only [Describes, Outline.append] at hu hv ⊢
  obtain ⟨hbu, hou⟩ := hu
  obtain ⟨hbv, hov⟩ := hv
  simp only [gather] at hbu hou hbv hov ⊢
  simp only [List.flatMap_append, braces_append, openParens_append, hbu, hou, hbv, hov, true_and]
  omega

theorem Describes.either_left (h : o.Describes texts w) (o' : Outline) :
    (o.either o').Describes texts w := by
  unfold either
  split_ifs with ho
  · simp [ho, Describes] at h
  · exact h
  · trivial

theorem Describes.either_right (h : o'.Describes texts w) (o : Outline) :
    (o.either o').Describes texts w := by
  unfold either
  split_ifs with ho ho'
  · exact h
  · rcases ho' with rfl | rfl
    · exact h.elim
    · exact h
  · trivial

theorem Describes.repeated {least : Nat} {ws : List (List Char)} (h : ∀ u ∈ ws, o.Describes texts u)
    (hleast : least ≤ ws.length) : (o.repeated least).Describes texts ws.flatten := by
  unfold Outline.repeated
  split
  · -- Without any text there is no round.
    have hnil : ws = [] := List.eq_nil_iff_forall_not_mem.mpr h
    subst hnil
    rw [if_pos (by simpa using hleast)]
    exact describes_flat.mpr ⟨rfl, rfl⟩
  · clear hleast
    induction ws with
    | nil => exact describes_flat.mpr ⟨rfl, rfl⟩
    | cons u rest ih =>
      obtain ⟨hbu, hou⟩ := describes_flat.mp (h u List.mem_cons_self)
      obtain ⟨hbr, hor⟩ := describes_flat.mp (ih fun v hv => h v (List.mem_cons_of_mem u hv))
      refine describes_flat.mpr ?_
      rw [List.flatten_cons, braces_append, openParens_append, hbu, hou, hbr, hor]
      exact ⟨rfl, rfl⟩
  · trivial

theorem Describes.named {name : String} (h : o.Describes texts w) (hw : texts name = some w) :
    (o.named name).Describes texts w := by
  unfold Outline.named
  split
  · exact h
  · exact h
  · exact describes_part hw

end Outline

/-! ### The outline of an expression -/

namespace Regex

/-- The outline of one character out of some. -/
def outlineOfOne (takes : Char → Bool) : Outline :=
  if nestingMarks.any takes then .unknown else .flat

/-- The outline of a given character. -/
def outlineOfChar (bracketless : Bool) (c : Char) : Outline :=
  if c = '(' then .known [] 1
  else if c = ')' then .known [] (-1)
  else if bracketless ∧ c = '[' then .never
  else outlineOfOne (· == c)

/-- The outline of what an expression matches, in a text without opening brackets if `bracketless`
is set.  Of some groups it is known that all that they match has no braces and opens the same number
of parentheses. -/
def outline (bracketless : Bool) (fixed : String → Option ℤ) : Regex → Outline
  | char c => outlineOfChar bracketless c
  | oneOf cls => outlineOfOne cls.contains
  | category kind negated => outlineOfOne fun c => kind.contains c != negated
  | empty | anchor _ | look _ _ _ => .flat
  | cat a b => (a.outline bracketless fixed).append (b.outline bracketless fixed)
  | alt a b => (a.outline bracketless fixed).either (b.outline bracketless fixed)
  | group name body => (body.outline bracketless fixed).named name
  | repeated body least _ _ => (body.outline bracketless fixed).repeated least
  | backReference name _ => (fixed name).elim (.known [name] 0) (.known [])
  | _ => .unknown

/-- The groups of an expression of which all matches open the same number of parentheses and have no
braces, with that number. -/
def fixedGroups (bracketless : Bool) (r : Regex) (name : String) : Option ℤ :=
  (r.bodies.lookup name).bind fun body =>
    match body.outline bracketless fun _ => none with
    | .known [] opened => some opened
    | _ => none

theorem describes_outlineOfOne {takes : Char → Bool} {c : Char} (h : takes c = true)
    (texts : String → Option (List Char)) : (outlineOfOne takes).Describes texts [c] := by
  unfold outlineOfOne
  split_ifs with hany
  · trivial
  · refine Outline.describes_flat.mpr (flat_of_notMem_nestingMarks fun hc => hany ?_)
    exact List.any_eq_true.mpr ⟨c, hc, h⟩

variable {bracketless : Bool} {fixed : String → Option ℤ} {texts : String → Option (List Char)}

theorem describes_outlineOfChar {c : Char} (hfree : bracketless = true → '[' ∉ [c])
    (texts : String → Option (List Char)) :
    (outlineOfChar bracketless c).Describes texts [c] := by
  unfold outlineOfChar
  split_ifs with hopen hclose hbracket
  · exact Outline.describes_known_nil.mpr (by rw [hopen]; decide)
  · exact Outline.describes_known_nil.mpr (by rw [hclose]; decide)
  · exact absurd (List.mem_singleton.mpr hbracket.2.symm) (hfree hbracket.1)
  · refine describes_outlineOfOne ?_ texts
    exact beq_self_eq_true c

/-- **Outlines are right** about all that an expression matches. -/
theorem Basic.describes_outline {r : Regex} (hr : r.Basic)
    (hfixed : ∀ name opened, fixed name = some opened →
      ∀ u, texts name = some u → (Outline.known [] opened).Describes texts u)
    {w : List Char} (hw : r.Spells (.of texts) w) (hfree : bracketless = true → '[' ∉ w) :
    (r.outline bracketless fixed).Describes texts w := by
  induction hr generalizing w with
  | empty | anchor _ | look _ _ _ =>
    obtain rfl : w = [] := hw
    exact Outline.describes_flat.mpr ⟨rfl, rfl⟩
  | @one r p hp =>
    obtain ⟨c, hc, rfl⟩ := (spells_of_takes? hp).mp hw
    cases r <;> simp only [takes?, Option.some.injEq, reduceCtorEq] at hp <;> subst hp
    case char d =>
      obtain rfl := beq_iff_eq.mp hc
      exact describes_outlineOfChar hfree texts
    case oneOf cls => exact describes_outlineOfOne hc texts
    case category kind negated => exact describes_outlineOfOne hc texts
    case any newline => trivial
  | @cat a b _ _ iha ihb =>
    obtain ⟨u, v, rfl, hu, hv⟩ := hw
    exact (iha hu fun h hmem => hfree h (List.mem_append_left v hmem)).append
      (ihb hv fun h hmem => hfree h (List.mem_append_right u hmem))
  | @alt a b _ _ iha ihb =>
    rcases hw with ⟨hw, -⟩ | ⟨hw, -⟩
    · exact (iha hw hfree).either_left _
    · exact (ihb hw hfree).either_right _
  | group name _ ih => exact (ih hw.2 hfree).named hw.1
  | @repeated body least most greedy _ ih =>
    obtain ⟨ws, rfl, hws, hleast, -⟩ := hw
    refine Outline.Describes.repeated (fun u hu => ih (hws u hu) fun h hmem => ?_) hleast
    exact hfree h (List.mem_flatten.mpr ⟨u, hu, hmem⟩)
  -- A group that stands for itself is known by its name, unless its parentheses are known as well.
  | backReference name =>
    change ((fixed name).elim (Outline.known [name] 0) (Outline.known [])).Describes texts w
    cases hname : fixed name with
    | none => exact Outline.describes_part hw
    | some opened => exact hfixed name opened hname w hw

/-- The outline of a fixed group is right about what the group has matched. -/
theorem Basic.describes_fixedGroups {r : Regex} (hr : r.Basic) {m : List Char}
    (hm : r.Spells (.of texts) m) (hfree : bracketless = true → '[' ∉ m) {name : String}
    {opened : ℤ} (h : r.fixedGroups bracketless name = some opened) {u : List Char}
    (hu : texts name = some u) : (Outline.known [] opened).Describes texts u := by
  obtain ⟨body, hlookup, hbody⟩ := Option.bind_eq_some_iff.mp h
  have hmem := mem_bodies_of_lookup hlookup
  obtain ⟨hin, hs⟩ := hr.spells_body hm hmem hu
  split at hbody
  · rename_i known heq
    rw [← Option.some.inj hbody, ← heq]
    exact (hr.of_mem_bodies hmem).describes_outline (by simp) hs fun h hc => hfree h (hin.subset hc)
  · simp at hbody

end Regex

/-! ### The outline of a template -/

namespace Template

/-- The outline of what a template leaves.  The groups `sure` take part in every match. -/
def outline (fixed : String → Option ℤ) (sure : List String) : Template → Outline
  | [] => .flat
  | .plain text :: rest =>
    if braces text.toList = [] then
      .append (.known [] (openParens text.toList)) (outline fixed sure rest)
    else .unknown
  | .group name :: rest =>
    match fixed name with
    | some opened =>
      if opened = 0 ∨ name ∈ sure then .append (.known [] opened) (outline fixed sure rest)
      else .unknown
    | none => .append (.known [name] 0) (outline fixed sure rest)

theorem describes_outline {fixed : String → Option ℤ} {sure : List String}
    {texts : String → Option (List Char)}
    (hfixed : ∀ name opened, fixed name = some opened →
      ∀ u, texts name = some u → (Outline.known [] opened).Describes texts u)
    (hsure : ∀ name ∈ sure, ∃ u, texts name = some u) (t : Template) :
    (t.outline fixed sure).Describes texts (t.fill texts) := by
  induction t with
  | nil => exact Outline.describes_flat.mpr ⟨rfl, rfl⟩
  | cons part rest ih =>
    cases part with
    | plain text =>
      unfold outline
      split_ifs with hplain
      · exact Outline.Describes.append (Outline.describes_known_nil.mpr ⟨hplain, rfl⟩) ih
      · trivial
    | group name =>
      unfold outline
      cases hname : fixed name with
      | none =>
        refine Outline.Describes.append (u := (texts name).getD []) ?_ ih
        simp [Outline.Describes, gather]
      -- A group without a text leaves nothing, so that its parentheses are known only if it must
      -- have one or opens none.
      | some opened =>
        dsimp only
        split_ifs with h
        · refine Outline.Describes.append (u := (texts name).getD []) ?_ ih
          cases htext : texts name with
          | some u => exact hfixed name opened hname u htext
          | none =>
            rcases h with rfl | h
            · exact Outline.describes_flat.mpr ⟨rfl, rfl⟩
            · obtain ⟨u, hu⟩ := hsure name h
              simp [htext] at hu
        · trivial

end Template

/-! ### Patterns -/

namespace Pattern

/-- Whether matches and replacements of a pattern have the same outline, in texts without opening
brackets if `bracketless` is set.  The replacement then brings no opening bracket. -/
def keepsNesting (bracketless : Bool) (p : Pattern) : Bool :=
  let fixed := p.regex.fixedGroups bracketless
  let before := p.regex.outline bracketless fixed
  decide (before ≠ .unknown) && decide (p.template.outline fixed p.regex.sureGroups = before) &&
    p.template.all fun
      | .plain text => !text.toList.contains '['
      | .group _ => true

variable {p : Pattern} {bracketless : Bool}

/-- A replacement has the braces of the match and opens as many parentheses. -/
theorem Regular.nesting_fill (hp : p.Regular) (hkeeps : p.keepsNesting bracketless = true)
    {texts : String → Option (List Char)} {m : List Char} (hm : p.regex.Spells (.of texts) m)
    (hfree : bracketless = true → '[' ∉ m) :
    (bracketless = true → '[' ∉ p.template.fill texts) ∧
      braces (p.template.fill texts) = braces m ∧
      openParens (p.template.fill texts) = openParens m := by
  simp only [keepsNesting, Bool.and_eq_true, decide_eq_true_eq, List.all_eq_true] at hkeeps
  obtain ⟨⟨hknown, hsame⟩, hplain⟩ := hkeeps
  have hfixed : ∀ name opened, p.regex.fixedGroups bracketless name = some opened →
      ∀ u, texts name = some u → (Outline.known [] opened).Describes texts u :=
    fun _ _ hname _ hu => hp.basic.describes_fixedGroups hm hfree hname hu
  have hbefore := hp.basic.describes_outline hfixed hm hfree
  have hafter := Template.describes_outline hfixed
    (fun name hn => Regex.texts_of_mem_sureGroups hm hn) p.template
  refine ⟨fun h hc => ?_, ?_⟩
  · rcases Template.mem_fill hc with ⟨text, hmem, hc⟩ | ⟨n, hn, u, hu, hc⟩
    · simpa [hc] using hplain _ hmem
    · obtain ⟨e, he, rfl⟩ := List.mem_map.mp (hp.named n hn)
      exact hfree h ((hp.basic.spells_body hm he hu).1.subset hc)
  · rw [hsame] at hafter
    revert hknown hbefore hafter
    generalize p.regex.outline bracketless (p.regex.fixedGroups bracketless) = o
    intro hknown hbefore hafter
    cases o with
    | never => exact hbefore.elim
    | unknown => exact absurd rfl hknown
    | known parts opened => exact ⟨hafter.1.trans hbefore.1.symm, hafter.2.trans hbefore.2.symm⟩

theorem Pass.nesting {bound : Nat} {cur : Cursor} {hits : List Hit} {out : List Char}
    (h : p.Pass bound cur hits out) (hp : p.Regular) (hkeeps : p.keepsNesting bracketless = true)
    (hfree : bracketless = true → '[' ∉ cur.after) :
    (bracketless = true → '[' ∉ out) ∧ braces out = braces cur.after ∧
      openParens out = openParens cur.after := by
  induction h with
  | done hafter _ => rw [hafter]; exact ⟨fun _ => List.not_mem_nil, rfl, rfl⟩
  | @skip cur next x _ out _ hn _ ih =>
    have hl := (Cursor.leads_of_next? hn).after
    rw [hl] at hfree ⊢
    obtain ⟨hno, hb, ho⟩ := ih fun h hmem => hfree h (List.mem_append_right _ hmem)
    rw [← List.singleton_append, braces_append, braces_append, openParens_append,
      openParens_append, hb, ho]
    refine ⟨fun h hmem => ?_, rfl, rfl⟩
    rcases List.mem_append.mp hmem with hmem | hmem
    · exact hfree h (List.mem_append_left _ hmem)
    · exact hno h hmem
  | @hit cur stop caps _ out ha _ ih =>
    obtain ⟨m, hl, hm⟩ := hp.reads ha
    rw [hl.after] at hfree ⊢
    obtain ⟨hno, hb, ho⟩ := ih fun h hmem => hfree h (List.mem_append_right _ hmem)
    obtain ⟨hno', hb', ho'⟩ :=
      hp.nesting_fill hkeeps hm fun h hmem => hfree h (List.mem_append_left _ hmem)
    rw [braces_append, braces_append, openParens_append, openParens_append, hb, ho, hb', ho']
    refine ⟨fun h hmem => ?_, rfl, rfl⟩
    rcases List.mem_append.mp hmem with hmem | hmem
    · exact hno' h hmem
    · exact hno h hmem

end Pattern

/-! ### The catalog -/

namespace Catalog

/-- The names of the rules that drop the second of two equal chains. -/
def foldNames : List String := ["Py_CLEAR", "Py_NewRef", "Py_SETREF"]

/-- Without opening brackets every rule keeps the nesting; a rule that is no fold keeps it
anyway. -/
theorem keepsNesting {bracketless : Bool} {rule : Rule} (hr : rule ∈ rules)
    (hfold : bracketless = true ∨ rule.name ∉ foldNames) {p : Pattern} (hp : p ∈ rule.patterns) :
    p.keepsNesting bracketless = true := by
  have hall : rules.all (fun rule => rule.patterns.all fun p =>
      p.keepsNesting true && (decide (rule.name ∈ foldNames) || p.keepsNesting false)) = true := by
    decide +kernel
  have hcheck := Rule.of_all_patterns hall hr hp
  rw [Bool.and_eq_true, Bool.or_eq_true, decide_eq_true_eq] at hcheck
  cases bracketless with
  | true => exact hcheck.1
  | false => exact hcheck.2.resolve_left (hfold.resolve_left Bool.false_ne_true)

end Catalog

/-- **Nesting is kept.**  In a text without opening brackets, or without a fold, patching keeps all
braces in their order and the number of parentheses that are opened and not closed. -/
theorem nesting_of_patch {selection : String} {selected : List Rule} {insertHeader : Bool}
    {text : List Char} {o : PatchOutcome} (hs : Catalog.all.select selection = .ok selected)
    (hflat : '[' ∉ text ∨ ∀ rule ∈ selected, rule.name ∉ ["Py_CLEAR", "Py_NewRef", "Py_SETREF"])
    (h : patch selected insertHeader text = .ok o) :
    braces o.text = braces text ∧ openParens o.text = openParens text := by
  have hsub : ∀ rule ∈ selected, rule ∈ Catalog.rules := fun _ hr =>
    (Catalog.sublist_of_select hs).subset hr
  obtain ⟨bracketless, hfree, hfold⟩ : ∃ bracketless : Bool, (bracketless = true → '[' ∉ text) ∧
      ∀ rule ∈ selected, bracketless = true ∨ rule.name ∉ Catalog.foldNames := by
    rcases hflat with hflat | hflat
    · exact ⟨true, fun _ => hflat, fun _ _ => .inl rfl⟩
    · exact ⟨false, by simp, fun rule hr => .inr (hflat rule hr)⟩
  refine (related_of_patch (R := fun text out => (bracketless = true → '[' ∉ text) →
    (bracketless = true → '[' ∉ out) ∧ braces out = braces text ∧
      openParens out = openParens text) ?_ ?_ hsub ?_ ?_ h hfree).2
  · exact fun text hfree => ⟨hfree, rfl, rfl⟩
  · intro a b c hab hbc hfree
    obtain ⟨hb, hbraces, hopen⟩ := hab hfree
    obtain ⟨hc, hbraces', hopen'⟩ := hbc hb
    exact ⟨hc, hbraces'.trans hbraces, hopen'.trans hopen⟩
  · intro rule hr p hp text hits out hpass hfree
    exact hpass.nesting (Catalog.regular (hsub rule hr) hp)
      (Catalog.keepsNesting (hsub rule hr) (hfold rule hr) hp) hfree
  · intro text hfree
    have hlines : '[' ∉ Header.lines ∧ braces Header.lines = [] ∧
        openParens Header.lines = 0 := by decide +kernel
    rw [Header.insert, braces_append, openParens_append, hlines.2.1, hlines.2.2]
    refine ⟨fun h hmem => ?_, rfl, by omega⟩
    rcases List.mem_append.mp hmem with hmem | hmem
    · exact hlines.1 hmem
    · exact hfree h hmem

/-- A fold that drops a cast, in a text with an opening brace and a parenthesis too many, and a read
behind a bracket, in a text that ends in the middle of a block. -/
theorem nesting_of_patch_fold :
    let text := "\x7b Py_INCREF(a); b = (PyObject *) a; )".toList
    let o : PatchOutcome := ⟨"\x7b b = Py_NewRef(a); )".toList, ["Py_NewRef"], false⟩
    let text' := "\x7d f(a[0]->ob_type \x7b".toList
    let o' : PatchOutcome := ⟨"\x7d f(Py_TYPE(a[0]) \x7b".toList, ["Py_TYPE"], false⟩
    ('[' ∉ text ∧ patch [Catalog.newRef] false text = .ok o ∧
      braces o.text = braces text ∧ openParens o.text = openParens text) ∧
    '[' ∈ text' ∧ patch [Catalog.readType] false text' = .ok o' ∧
      braces o'.text = braces text' ∧ openParens o'.text = openParens text' := by
  intro text o text' o'
  have hflat : '[' ∉ text := by decide
  have hpatch : patch [Catalog.newRef] false text = .ok o :=
    Evaluation.patch_eq_ok (by decide +kernel)
  have hnoFold : ∀ rule ∈ [Catalog.readType],
      rule.name ∉ ["Py_CLEAR", "Py_NewRef", "Py_SETREF"] := by decide
  have hpatch' : patch [Catalog.readType] false text' = .ok o' :=
    Evaluation.patch_eq_ok (by decide +kernel)
  exact ⟨⟨hflat, hpatch, @nesting_of_patch "Py_NewRef" _ false _ _ rfl (.inl hflat) hpatch⟩,
    by decide, hpatch', @nesting_of_patch "Py_TYPE" _ false _ _ rfl (.inr hnoFold) hpatch'⟩

end CApiUpgrade
