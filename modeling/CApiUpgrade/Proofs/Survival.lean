import CApiUpgrade.Proofs.Characters
import CApiUpgrade.Proofs.Nesting
import Mathlib.Data.List.Destutter
import Mathlib.Logic.Relation

/-!
# Bytes that are no ASCII

A file that is not valid UTF-8 is read one byte for each character, and the bytes above 0x7f may
mean anything.  They survive patching, in their order, up to two things.

* A fold writes a slot once that the text has twice, and with it the bytes in the index of the slot.
  So a run of bytes that stands there twice in a row may be left once (`Collapses`).  Without a fold
  or without an opening bracket in the text, no byte is dropped (`highBytes_of_patch`).
* The bytes 0x85 and 0xa0 are blank characters in Latin-1.  Blanks inside of a match may be dropped,
  so nothing is said about these two.

The argument is about *parts*: which groups hold the characters in question of a match, one group
after another.  `Regex.parts` reads them off an expression, and `Pattern.keepsExtended` compares
them with those of the template.
-/

namespace CApiUpgrade

open Text

/-! ### Repeated runs -/

/-- One of two equal runs, one right behind the other, is dropped. -/
def Collapse {α : Type} (xs ys : List α) : Prop :=
  ∃ u s v, xs = u ++ s ++ s ++ v ∧ ys = u ++ s ++ v

/-- Repeated runs are dropped, any number of times. -/
def Collapses {α : Type} : List α → List α → Prop := Relation.ReflTransGen Collapse

namespace Collapses

variable {α β : Type} {xs ys xs' ys' : List α}

theorem refl (xs : List α) : Collapses xs xs := Relation.ReflTransGen.refl

theorem within (h : Collapses xs ys) (front back : List α) :
    Collapses (front ++ xs ++ back) (front ++ ys ++ back) := by
  refine Relation.ReflTransGen.lift (fun zs => front ++ zs ++ back) ?_ _ _ h
  rintro _ _ ⟨u, s, v, rfl, rfl⟩
  exact ⟨front ++ u, s, v ++ back, by simp, by simp⟩

theorem append (h : Collapses xs xs') (h' : Collapses ys ys') :
    Collapses (xs ++ ys) (xs' ++ ys') := by
  have hleft := h.within [] ys
  have hright := h'.within xs' []
  rw [List.append_nil, List.append_nil] at hright
  exact Relation.ReflTransGen.trans hleft hright

theorem map (h : Collapses xs ys) (f : α → β) : Collapses (xs.map f) (ys.map f) := by
  refine Relation.ReflTransGen.lift (List.map f) ?_ _ _ h
  rintro _ _ ⟨u, s, v, rfl, rfl⟩
  exact ⟨u.map f, s.map f, v.map f, by simp, by simp⟩

/-- A name that follows itself stands for a repeated run. -/
theorem destutter' (f : String → List α) (names : List String) (name : String) :
    Collapses (f name ++ names.flatMap f) ((names.destutter' (· ≠ ·) name).flatMap f) := by
  induction names generalizing name with
  | nil => simpa using refl _
  | cons next names ih =>
    rw [List.destutter'_cons, List.flatMap_cons]
    split_ifs with h
    · rw [List.flatMap_cons]
      exact (refl _).append (ih next)
    · rw [not_not] at h
      subst h
      refine Relation.ReflTransGen.head ⟨[], f name, names.flatMap f, by simp, ?_⟩ (ih name)
      rfl

theorem destutter (f : String → List α) (names : List String) :
    Collapses (names.flatMap f) ((names.destutter (· ≠ ·)).flatMap f) := by
  cases names with
  | nil => exact refl _
  | cons name names => exact destutter' f names name

end Collapses

/-! ### Characters that are no ASCII -/

namespace Text

/-- Whether a character is neither ASCII nor blank. -/
def isExtended (c : Char) : Bool := decide (128 ≤ c.toNat) && !isBlank c

/-- The characters of a text that are neither ASCII nor blank. -/
def extended (text : List Char) : List Char := text.filter isExtended

@[simp]
theorem extended_append (u v : List Char) : extended (u ++ v) = extended u ++ extended v :=
  List.filter_append ..

theorem extended_eq_nil {text : List Char} (h : ∀ c ∈ text, c.toNat < 128) :
    extended text = [] := by
  rw [extended, List.filter_eq_nil_iff]
  intro c hc
  have hlt := h c hc
  simp [isExtended, hlt]

theorem extended_singleton {c : Char} (h : isExtended c = false) : extended [c] = [] := by
  simp [extended, h]

end Text

/-! ### Parts -/

/-- The groups that hold the extended characters of a text, one after another, in each of the cases
that are possible.  With no list of cases, nothing is known. -/
abbrev Parts := Option (List (List String))

namespace Parts

/-- Whether one of the cases is right about a text. -/
def Describes (texts : String → Option (List Char)) (o : Parts) (w : List Char) : Prop :=
  ∀ cases, o = some cases → ∃ names ∈ cases, extended w = extended (gather texts names)

/-- No group is needed. -/
def flat : Parts := some [[]]

/-- The parts of one text behind another. -/
def append : Parts → Parts → Parts
  | some [], _ | _, some [] => some []
  | some cases, some cases' => some (cases.flatMap fun names => cases'.map (names ++ ·))
  | _, _ => none

/-- The parts of one of two texts. -/
def either : Parts → Parts → Parts
  | some cases, some cases' => some (cases ++ cases').dedup
  | _, _ => none

/-- The parts of any number of texts, at least `least`. -/
def repeated (least : Nat) : Parts → Parts
  | some [] => if least = 0 then flat else some []
  | some cases => if cases.all List.isEmpty then flat else none
  | none => none

/-- The parts of what a group has matched: those of its inner groups, if these hold all. -/
def named (name : String) (o : Parts) : Parts := some (o.getD [[name]])

variable {texts : String → Option (List Char)} {o o' : Parts} {u v w : List Char}

theorem describes_none : Describes texts none w := by
  rintro cases ⟨⟩

theorem describes_flat : flat.Describes texts w ↔ extended w = [] := by
  have hnil : extended (gather texts []) = [] := rfl
  simp [Describes, flat, hnil]

theorem not_describes_nil : ¬ Describes texts (some []) w := by
  intro h
  obtain ⟨names, hnames, -⟩ := h [] rfl
  exact absurd hnames List.not_mem_nil

theorem Describes.append (hu : o.Describes texts u) (hv : o'.Describes texts v) :
    (o.append o').Describes texts (u ++ v) := by
  unfold Parts.append
  split
  · exact absurd hu not_describes_nil
  · exact absurd hv not_describes_nil
  · rintro _ ⟨⟩
    obtain ⟨names, hnames, hu⟩ := hu _ rfl
    obtain ⟨names', hnames', hv⟩ := hv _ rfl
    refine ⟨names ++ names', ?_, ?_⟩
    · exact List.mem_flatMap.mpr ⟨names, hnames, List.mem_map_of_mem hnames'⟩
    · rw [extended_append, hu, hv, ← extended_append]
      simp [gather]
  · exact describes_none

theorem Describes.either_left (h : o.Describes texts w) (o' : Parts) :
    (o.either o').Describes texts w := by
  unfold Parts.either
  split
  · rintro _ ⟨⟩
    obtain ⟨names, hnames, hw⟩ := h _ rfl
    exact ⟨names, List.mem_dedup.mpr (List.mem_append_left _ hnames), hw⟩
  · exact describes_none

theorem Describes.either_right (h : o'.Describes texts w) (o : Parts) :
    (o.either o').Describes texts w := by
  unfold Parts.either
  split
  · rintro _ ⟨⟩
    obtain ⟨names, hnames, hw⟩ := h _ rfl
    exact ⟨names, List.mem_dedup.mpr (List.mem_append_right _ hnames), hw⟩
  · exact describes_none

theorem Describes.repeated {least : Nat} {ws : List (List Char)}
    (h : ∀ u ∈ ws, o.Describes texts u) (hleast : least ≤ ws.length) :
    (o.repeated least).Describes texts ws.flatten := by
  unfold Parts.repeated
  split
  · -- Without any text there is no round.
    have hnil : ws = [] :=
      List.eq_nil_iff_forall_not_mem.mpr fun u hu => not_describes_nil (h u hu)
    subst hnil
    rw [if_pos (by simpa using hleast)]
    exact describes_flat.mpr rfl
  · rename_i cases _
    split_ifs with hall
    · clear hleast
      induction ws with
      | nil => exact describes_flat.mpr rfl
      | cons u rest ih =>
        obtain ⟨names, hnames, hu⟩ := h u List.mem_cons_self _ rfl
        have hempty := List.isEmpty_iff.mp (List.all_eq_true.mp hall names hnames)
        have hrest := describes_flat.mp (ih fun v hv => h v (List.mem_cons_of_mem u hv))
        refine describes_flat.mpr ?_
        rw [List.flatten_cons, extended_append, hu, hempty, hrest]
        rfl
    · exact describes_none
  · exact describes_none

theorem Describes.named {name : String} (h : o.Describes texts w) (hw : texts name = some w) :
    (o.named name).Describes texts w := by
  rintro _ ⟨⟩
  cases o with
  | none => exact ⟨[name], List.mem_cons_self, by simp [gather, hw]⟩
  | some cases => exact h cases rfl

end Parts

/-! ### The parts of an expression -/

/-- Whether an item of a class stands for no extended character. -/
def ClassItem.isPlain : ClassItem → Bool
  | char c => decide (c.toNat < 128)
  | range _ hi => decide (hi.toNat < 128)
  | category kind negated => kind == .blank && !negated
  | table _ => false

theorem ClassItem.isExtended_of_isPlain {item : ClassItem} (h : item.isPlain = true) {c : Char}
    (hc : item.contains c = true) : isExtended c = false := by
  cases item with
  | char d =>
    have hlt : d.toNat < 128 := by simpa [isPlain] using h
    obtain rfl : c = d := by simpa [contains] using hc
    simp [isExtended, hlt]
  | range lo hi =>
    have hlt : hi.toNat < 128 := by simpa [isPlain] using h
    have hle : c ≤ hi := by
      simp only [contains, Bool.and_eq_true, decide_eq_true_eq] at hc
      exact hc.2
    have hlt' : c.toNat < 128 := lt_of_le_of_lt hle hlt
    simp [isExtended, hlt']
  | category kind negated =>
    simp only [isPlain, Bool.and_eq_true, beq_iff_eq, Bool.not_eq_true'] at h
    obtain ⟨rfl, rfl⟩ := h
    have hblank : isBlank c = true := by simpa [contains, Category.contains] using hc
    simp [isExtended, hblank]
  | table ranges => simp [isPlain] at h

namespace Regex

/-- The parts of a given character. -/
def partsOfChar (bracketless : Bool) (c : Char) : Parts :=
  if bracketless ∧ c = '[' then some [] else if isExtended c then none else .flat

/-- The parts of one character, which may not be extended if `plain` is set. -/
def partsOfOne (plain : Bool) : Parts := if plain then .flat else none

/-- The parts of what an expression matches, in a text without opening brackets if `bracketless` is
set.  A reference to a group has the parts of the group. -/
def parts (bracketless : Bool) (refer : String → List String) : Regex → Parts
  | char c => partsOfChar bracketless c
  | oneOf cls => partsOfOne (!cls.negated && cls.items.all ClassItem.isPlain)
  | category kind negated => partsOfOne (ClassItem.category kind negated).isPlain
  | empty | anchor _ | look _ _ _ => .flat
  | cat a b => (a.parts bracketless refer).append (b.parts bracketless refer)
  | alt a b => (a.parts bracketless refer).either (b.parts bracketless refer)
  | group name body => (body.parts bracketless refer).named name
  | repeated body least _ _ => (body.parts bracketless refer).repeated least
  | backReference name _ => some [refer name]
  | _ => none

/-- The parts of what a group has matched: its inner groups, if these hold all in every case, or
else the group itself. -/
def partsOf (bracketless : Bool) (r : Regex) (name : String) : List String :=
  match (r.bodies.lookup name).bind (·.parts bracketless fun n => [n]) with
  | some [names] => names
  | _ => [name]

variable {bracketless : Bool} {refer : String → List String}
  {texts : String → Option (List Char)}

theorem describes_partsOfChar {c : Char} (hfree : bracketless = true → '[' ∉ [c]) :
    (partsOfChar bracketless c).Describes texts [c] := by
  unfold partsOfChar
  split_ifs with hbracket hextended
  · exact absurd (List.mem_singleton.mpr hbracket.2.symm) (hfree hbracket.1)
  · exact Parts.describes_none
  · exact Parts.describes_flat.mpr (extended_singleton (Bool.eq_false_iff.mpr hextended))

theorem describes_partsOfOne {plain : Bool} {c : Char} (h : plain = true → isExtended c = false) :
    (partsOfOne plain).Describes texts [c] := by
  unfold partsOfOne
  split_ifs with hplain
  · exact Parts.describes_flat.mpr (extended_singleton (h hplain))
  · exact Parts.describes_none

/-- **Parts are right** about all that an expression matches. -/
theorem Basic.describes_parts {r : Regex} (hr : r.Basic)
    (hrefer : ∀ name u, texts name = some u →
      extended u = extended (gather texts (refer name)))
    {w : List Char} (hw : r.Spells (.of texts) w) (hfree : bracketless = true → '[' ∉ w) :
    (r.parts bracketless refer).Describes texts w := by
  induction hr generalizing w with
  | empty | anchor _ | look _ _ _ =>
    obtain rfl : w = [] := hw
    exact Parts.describes_flat.mpr rfl
  | @one r p hp =>
    obtain ⟨c, hc, rfl⟩ := (spells_of_takes? hp).mp hw
    cases r <;> simp only [takes?, Option.some.injEq, reduceCtorEq] at hp <;> subst hp
    case char d =>
      obtain rfl := beq_iff_eq.mp hc
      exact describes_partsOfChar hfree
    case oneOf cls =>
      refine describes_partsOfOne fun hplain => ?_
      rw [Bool.and_eq_true, Bool.not_eq_true', List.all_eq_true] at hplain
      have hitem : ∃ item ∈ cls.items, item.contains c = true := by
        simpa [CharClass.contains, hplain.1] using hc
      obtain ⟨item, hmem, hitem⟩ := hitem
      exact ClassItem.isExtended_of_isPlain (hplain.2 item hmem) hitem
    case category kind negated =>
      exact describes_partsOfOne fun hplain => ClassItem.isExtended_of_isPlain hplain hc
    case any newline => exact Parts.describes_none
  | @cat a b _ _ iha ihb =>
    obtain ⟨u, v, rfl, hu, hv⟩ := hw
    exact (iha hu fun h hmem => hfree h (List.mem_append_left v hmem)).append
      (ihb hv fun h hmem => hfree h (List.mem_append_right u hmem))
  | @alt a b _ _ iha ihb =>
    rcases hw with ⟨hw, -⟩ | ⟨hw, -⟩
    · exact (iha hw hfree).either_left _
    · exact (ihb hw hfree).either_right _
  | group name _ ih => exact (ih hw.2 hfree).named hw.1
  | @repeated body least most greedy _ ih =>
    obtain ⟨ws, rfl, hws, hleast, -⟩ := hw
    refine Parts.Describes.repeated (fun u hu => ih (hws u hu) fun h hmem => ?_) hleast
    exact hfree h (List.mem_flatten.mpr ⟨u, hu, hmem⟩)
  | backReference name =>
    rintro _ ⟨⟩
    exact ⟨refer name, List.mem_cons_self, hrefer name w hw⟩

/-- The parts of a group are right about what the group has matched. -/
theorem Basic.extended_eq_partsOf {r : Regex} (hr : r.Basic) {m : List Char}
    (hm : r.Spells (.of texts) m) (hfree : bracketless = true → '[' ∉ m) {name : String}
    {u : List Char} (hu : texts name = some u) :
    extended u = extended (gather texts (r.partsOf bracketless name)) := by
  have hself : ∀ n v, texts n = some v → extended v = extended (gather texts [n]) := by
    intro n v hv
    simp [gather, hv]
  unfold partsOf
  split
  · rename_i names heq
    obtain ⟨body, hlookup, hbody⟩ := Option.bind_eq_some_iff.mp heq
    have hmem := mem_bodies_of_lookup hlookup
    obtain ⟨hin, hs⟩ := hr.spells_body hm hmem hu
    have hdescribes := (hr.of_mem_bodies hmem).describes_parts hself hs
      fun h hc => hfree h (hin.subset hc)
    obtain ⟨names', hnames', hu'⟩ := hdescribes _ hbody
    rw [List.mem_singleton.mp hnames'] at hu'
    exact hu'
  · exact hself name u hu

end Regex

/-! ### Replacements -/

theorem extended_gather (texts : String → Option (List Char)) (names : List String) :
    extended (gather texts names) = names.flatMap fun name => extended ((texts name).getD []) := by
  induction names with
  | nil => rfl
  | cons name names ih =>
    rw [List.flatMap_cons, ← ih, ← extended_append]
    rfl

/-- What a template leaves, if it writes nothing but ASCII characters and groups. -/
theorem Template.extended_fill {t : Template} (ht : t.isAscii = true)
    {refer : String → List String} {texts : String → Option (List Char)}
    (hrefer : ∀ name u, texts name = some u → extended u = extended (gather texts (refer name)))
    (hunset : ∀ name ∈ t.references, texts name = none → refer name = [name] ∨ refer name = []) :
    extended (t.fill texts) = extended (gather texts (t.references.flatMap refer)) := by
  induction t with
  | nil => rfl
  | cons part rest ih =>
    rw [isAscii, List.all_cons, Bool.and_eq_true] at ht
    cases part with
    | plain text =>
      have hnone : extended text.toList = [] := by
        refine extended_eq_nil fun c hc => ?_
        exact of_decide_eq_true (List.all_eq_true.mp ht.1 c hc)
      have hrest := ih ht.2 hunset
      change extended (text.toList ++ fill texts rest) = _
      rw [extended_append, hnone, hrest]
      rfl
    | group name =>
      have hrest := ih ht.2 fun n hn => hunset n (List.mem_cons_of_mem name hn)
      have hname : extended ((texts name).getD []) = extended (gather texts (refer name)) := by
        cases htext : texts name with
        | some u => exact hrefer name u htext
        | none =>
          rcases hunset name List.mem_cons_self htext with heq | heq
          · simp [heq, gather, htext]
          · rw [heq]
            rfl
      change extended ((texts name).getD [] ++ fill texts rest) = _
      rw [extended_append, hname, hrest, ← extended_append]
      simp [gather, references]

namespace Pattern

/-- The groups that hold the extended characters of a replacement. -/
def leaves (bracketless : Bool) (p : Pattern) : List String :=
  p.template.references.flatMap (p.regex.partsOf bracketless)

/-- Whether a replacement holds the parts of the match, tidied up, in every possible case. -/
def keepsExtended (bracketless : Bool) (tidy : List String → List String) (p : Pattern) : Bool :=
  let refer := p.regex.partsOf bracketless
  p.template.references.all (fun name =>
      refer name == [name] || refer name == [] || decide (name ∈ p.regex.sureGroups)) &&
    (p.regex.parts bracketless refer).any (·.all fun names => tidy names == p.leaves bracketless)

variable {p : Pattern} {bracketless : Bool} {tidy : List String → List String}

theorem Regular.extended_fill (hp : p.Regular) (hascii : p.template.isAscii = true)
    (hkeeps : p.keepsExtended bracketless tidy = true)
    {texts : String → Option (List Char)} {m : List Char} (hm : p.regex.Spells (.of texts) m)
    (hfree : bracketless = true → '[' ∉ m) :
    ∃ names, extended m = extended (gather texts names) ∧
      extended (p.template.fill texts) = extended (gather texts (tidy names)) := by
  simp only [keepsExtended, Bool.and_eq_true, Bool.or_eq_true, List.all_eq_true,
    decide_eq_true_eq, beq_iff_eq, Option.any_eq_true] at hkeeps
  obtain ⟨hsure, cases, hparts, hall⟩ := hkeeps
  have hrefer : ∀ name u, texts name = some u →
      extended u = extended (gather texts (p.regex.partsOf bracketless name)) :=
    fun _ _ hu => hp.basic.extended_eq_partsOf hm hfree hu
  have hunset : ∀ name ∈ p.template.references, texts name = none →
      p.regex.partsOf bracketless name = [name] ∨ p.regex.partsOf bracketless name = [] := by
    intro name hname hnone
    rcases hsure name hname with hself | hs
    · exact hself
    · obtain ⟨u, hu⟩ := Regex.texts_of_mem_sureGroups hm hs
      simp [hnone] at hu
  obtain ⟨names, hnames, hmatch⟩ := hp.basic.describes_parts hrefer hm hfree cases hparts
  refine ⟨names, hmatch, ?_⟩
  rw [hall names hnames, leaves]
  exact Template.extended_fill hascii hrefer hunset

/-- A relation that holds between each match and its replacement, and part by part of the rest,
holds between a text and what a pass leaves of it. -/
theorem Pass.relates {R : List Char → List Char → Prop} (hnil : R [] [])
    (hone : ∀ c, R [c] [c])
    (happend : ∀ {u u' v v'}, R u u' → R v v' → R (u ++ v) (u' ++ v')) {bound : Nat}
    {cur : Cursor} {hits : List Hit} {out : List Char} (h : p.Pass bound cur hits out)
    (hp : p.Regular) (hfill : ∀ (texts : String → Option (List Char)) (m : List Char),
      p.regex.Spells (.of texts) m → m <:+: cur.after → R m (p.template.fill texts)) :
    R cur.after out := by
  induction h with
  | done hafter _ => rwa [hafter]
  | @skip cur next x _ out _ hn _ ih =>
    have hl : cur.after = x :: next.after := (Cursor.leads_of_next? hn).after
    rw [hl]
    exact happend (hone x) (ih fun texts m hm hin => hfill texts m hm (hl ▸ List.infix_cons hin))
  | @hit cur stop caps _ out ha _ ih =>
    obtain ⟨m, hl, hm⟩ := hp.reads ha
    rw [hl.after]
    refine happend (hfill _ m hm ?_) (ih fun texts m' hm' hin => hfill texts m' hm' ?_)
    · exact hl.after ▸ (List.prefix_append m stop.after).isInfix
    · exact hl.after ▸ hin.trans (List.suffix_append m stop.after).isInfix

end Pattern

/-! ### The catalog -/

namespace Catalog

/-- A rule that is no fold keeps the extended characters.  A fold keeps them in a text without
opening brackets, and otherwise drops a group that follows itself. -/
theorem keepsExtended {rule : Rule} (hr : rule ∈ rules) {p : Pattern} (hp : p ∈ rule.patterns) :
    p.keepsExtended false id = true ∨ rule.name ∈ foldNames ∧
      p.keepsExtended true id = true ∧ p.keepsExtended false (·.destutter (· ≠ ·)) = true := by
  have hall : rules.all (fun rule => rule.patterns.all fun p =>
      if rule.name ∈ foldNames then
        p.keepsExtended true id && p.keepsExtended false (·.destutter (· ≠ ·))
      else p.keepsExtended false id) = true := by
    decide +kernel
  have hcheck := Rule.of_all_patterns hall hr hp
  split_ifs at hcheck with hfold
  · exact .inr ⟨hfold, Bool.and_eq_true_iff.mp hcheck⟩
  · exact .inl hcheck

end Catalog

section Selection

variable {selection : String} {selected : List Rule} {insertHeader : Bool} {text : List Char}
  {o : PatchOutcome}

/-- **What is dropped** of the extended characters are repeated runs. -/
theorem collapses_of_patch (hs : Catalog.all.select selection = .ok selected)
    (h : patch selected insertHeader text = .ok o) :
    Collapses (extended text) (extended o.text) := by
  have hsub : ∀ rule ∈ selected, rule ∈ Catalog.rules := fun _ hr =>
    (Catalog.sublist_of_select hs).subset hr
  refine related_of_patch (R := fun text out => Collapses (extended text) (extended out))
    (fun text => .refl _) (fun h h' => Relation.ReflTransGen.trans h h') hsub ?_ ?_ h
  · intro rule hr p hp text hits out hpass
    have hregular := Catalog.regular (hsub rule hr) hp
    refine @Pattern.Pass.relates p (fun u v => Collapses (extended u) (extended v)) (.refl _) ?_ ?_
      _ _ _ _ hpass hregular ?_
    · exact fun c => .refl _
    · intro u u' v v' hu hv
      rw [extended_append, extended_append]
      exact hu.append hv
    · intro texts m hm _
      have hascii := Catalog.isAscii_template (hsub rule hr) hp
      rcases Catalog.keepsExtended (hsub rule hr) hp with hkeeps | ⟨-, -, hkeeps⟩
      · obtain ⟨names, hmatch, hfill⟩ := hregular.extended_fill hascii hkeeps hm (by simp)
        rw [hmatch, hfill, id]
        exact .refl _
      · obtain ⟨names, hmatch, hfill⟩ := hregular.extended_fill hascii hkeeps hm (by simp)
        rw [hmatch, hfill, extended_gather, extended_gather]
        exact Collapses.destutter _ names
  · intro text
    have hlines : extended Header.lines = [] := extended_eq_nil fun _ => Header.ascii_of_mem_lines
    rw [Header.insert, extended_append, hlines]
    exact .refl _

/-- **What is kept** in a text without opening brackets, or without a fold, are all of them. -/
theorem extended_of_patch (hs : Catalog.all.select selection = .ok selected)
    (hflat : '[' ∉ text ∨ ∀ rule ∈ selected, rule.name ∉ Catalog.foldNames)
    (h : patch selected insertHeader text = .ok o) : extended o.text = extended text := by
  have hsub : ∀ rule ∈ selected, rule ∈ Catalog.rules := fun _ hr =>
    (Catalog.sublist_of_select hs).subset hr
  obtain ⟨bracketless, hfree, hfold⟩ : ∃ bracketless : Bool, (bracketless = true → '[' ∉ text) ∧
      ∀ rule ∈ selected, bracketless = true ∨ rule.name ∉ Catalog.foldNames := by
    rcases hflat with hflat | hflat
    · exact ⟨true, fun _ => hflat, fun _ _ => .inl rfl⟩
    · exact ⟨false, by simp, fun rule hr => .inr (hflat rule hr)⟩
  refine (related_of_patch (R := fun text out => (bracketless = true → '[' ∉ text) →
    (bracketless = true → '[' ∉ out) ∧ extended out = extended text) ?_ ?_ hsub ?_ ?_ h hfree).2
  · exact fun text hfree => ⟨hfree, rfl⟩
  · intro a b c hab hbc hfree
    obtain ⟨hb, hsame⟩ := hab hfree
    obtain ⟨hc, hsame'⟩ := hbc hb
    exact ⟨hc, hsame'.trans hsame⟩
  · intro rule hr p hp text hits out hpass hfree
    have hregular := Catalog.regular (hsub rule hr) hp
    have hnesting := hpass.nesting hregular
      (Catalog.keepsNesting (hsub rule hr) (hfold rule hr) hp) hfree
    refine ⟨hnesting.1, ?_⟩
    refine @Pattern.Pass.relates p (fun u v => extended v = extended u) rfl ?_ ?_ _ _ _ _ hpass
      hregular ?_
    · exact fun c => rfl
    · intro u u' v v' hu hv
      rw [extended_append, extended_append, hu, hv]
    · intro texts m hm hin
      have hascii := Catalog.isAscii_template (hsub rule hr) hp
      rcases Catalog.keepsExtended (hsub rule hr) hp with hkeeps | ⟨hname, hkeeps, -⟩
      · obtain ⟨names, hmatch, hfill⟩ := hregular.extended_fill hascii hkeeps hm (by simp)
        rw [hmatch, hfill, id]
      · have hbracketless := (hfold rule hr).resolve_right (not_not_intro hname)
        obtain ⟨names, hmatch, hfill⟩ := hregular.extended_fill hascii hkeeps hm
          fun _ hmem => hfree hbracketless (hin.subset hmem)
        rw [hmatch, hfill, id]
  · intro text hfree
    have hlines : '[' ∉ Header.lines := by decide
    have hnone : extended Header.lines = [] := extended_eq_nil fun _ => Header.ascii_of_mem_lines
    rw [Header.insert, extended_append, hnone]
    refine ⟨fun hb hmem => ?_, rfl⟩
    exact (List.mem_append.mp hmem).elim hlines (hfree hb)

end Selection

/-! ### Bytes -/

/-- The bytes of a file that are no ASCII, up to the two that are blank characters in Latin-1. -/
def highBytes (bytes : ByteArray) : List UInt8 :=
  bytes.data.toList.filter fun b => 0x80 ≤ b && b != 0x85 && b != 0xa0

theorem Encoding.isExtended_ofNat (b : UInt8) :
    isExtended (Char.ofNat b.toNat) = (0x80 ≤ b && b != 0x85 && b != 0xa0) := by
  have hlt : b.toNat < 256 := b.toNat_lt
  have hle : 0x80 ≤ b ↔ 128 ≤ b.toNat := UInt8.le_iff_toNat_le
  have hnel : b ≠ 0x85 ↔ b.toNat ≠ 133 := not_congr UInt8.toNat_inj.symm
  have hnbs : b ≠ 0xa0 ↔ b.toNat ≠ 160 := not_congr UInt8.toNat_inj.symm
  rw [Bool.eq_iff_iff]
  simp only [isExtended, isBlank, toNat_ofNat_byte, Bool.and_eq_true,
    Bool.not_eq_true', Bool.or_eq_false_iff, Bool.and_eq_false_iff, decide_eq_true_eq,
    decide_eq_false_iff_not, beq_eq_false_iff_ne, bne_iff_ne, hle, hnel, hnbs]
  omega

/-- The characters of a Latin-1 file stand for its bytes. -/
theorem Encoding.highBytes_eq {text : List Char} {bytes : ByteArray}
    (h : encode text latin1 = .ok bytes) :
    highBytes bytes = (extended text).map fun c => c.toNat.toUInt8 := by
  have hback : ∀ bs : List UInt8,
      (bs.map fun b => Char.ofNat b.toNat).map (fun c => c.toNat.toUInt8) = bs := by
    intro bs
    rw [List.map_map]
    refine List.map_id'' (fun b => ?_) bs
    simp [toNat_ofNat_byte]
  rw [eq_map_of_encode_latin1 h, extended, List.filter_map, hback, highBytes]
  refine List.filter_congr fun b _ => ?_
  exact (isExtended_ofNat b).symm

/-- **Bytes survive.**  Let a file be no valid UTF-8.  Of its bytes that are no ASCII, but for 0x85
and 0xa0, patching keeps all in their order, except that a run that stands twice in a row may be
left once.  Without an opening bracket in the text, or without a fold, all are kept. -/
theorem highBytes_of_patch {selection : String} {selected : List Rule} {insertHeader : Bool}
    (hs : Catalog.all.select selection = .ok selected) {bytes : ByteArray}
    (hlatin1 : (Encoding.decode bytes).2 = .latin1) {path : String} {file : PatchedFile}
    (h : SourceFile.patch selected insertHeader
      ⟨path, (Encoding.decode bytes).1, (Encoding.decode bytes).2⟩ = .ok file) :
    ∃ new, file.newBytes = .ok new ∧ Collapses (highBytes bytes) (highBytes new) ∧
      (('[' ∉ (Encoding.decode bytes).1 ∨
          ∀ rule ∈ selected, rule.name ∉ ["Py_CLEAR", "Py_NewRef", "Py_SETREF"]) →
        highBytes new = highBytes bytes) := by
  obtain ⟨hpatch, hfile⟩ := SourceFile.patch_eq_ok h
  have hencoding : file.encoding = .latin1 :=
    (congrArg SourceFile.encoding hfile).trans hlatin1
  obtain ⟨new, hnew, -⟩ := exists_encode_of_patch hs hpatch
  have hold := Encoding.encode_decode bytes
  rw [hlatin1] at hnew hold
  refine ⟨new, by rw [PatchedFile.newBytes, hencoding, hnew], ?_, fun hflat => ?_⟩
  · rw [Encoding.highBytes_eq hold, Encoding.highBytes_eq hnew]
    exact (collapses_of_patch hs hpatch).map _
  · rw [Encoding.highBytes_eq hold, Encoding.highBytes_eq hnew, extended_of_patch hs hflat hpatch]

/-- An index that is no ASCII stays, and so does a name in front of it. -/
theorem highBytes_of_patch_index :
    let bytes : ByteArray :=
      ⟨#[0xe9, 0x3d, 0x61, 0x5b, 0xe8, 0x5d, 0x2d, 0x3e, 0x6f, 0x62, 0x5f, 0x74, 0x79, 0x70,
         0x65, 0x3b]⟩
    let file : PatchedFile := ⟨⟨"a.c", (Encoding.decode bytes).1, .latin1⟩,
      ⟨Char.ofNat 0xe9 :: "=Py_TYPE(a[".toList ++ Char.ofNat 0xe8 :: "]);".toList,
        ["Py_TYPE"], false⟩⟩
    SourceFile.patch [Catalog.readType] false
        ⟨"a.c", (Encoding.decode bytes).1, (Encoding.decode bytes).2⟩ = .ok file ∧
      ∃ new, file.newBytes = .ok new ∧ highBytes new = [0xe9, 0xe8] := by
  intro bytes file
  have hlatin1 : (Encoding.decode bytes).2 = .latin1 := by decide +kernel
  have hpatch : SourceFile.patch [Catalog.readType] false
      ⟨"a.c", (Encoding.decode bytes).1, (Encoding.decode bytes).2⟩ = .ok file := by
    have houtcome : patch [Catalog.readType] false (Encoding.decode bytes).1 = .ok file.outcome :=
      Evaluation.patch_eq_ok (by decide +kernel)
    rw [SourceFile.patch, houtcome, hlatin1]
  obtain ⟨new, hnew, -, hsame⟩ := @highBytes_of_patch "Py_TYPE" _ false rfl bytes hlatin1 _ _ hpatch
  refine ⟨hpatch, new, hnew, ?_⟩
  rw [hsame (.inr (by decide))]
  decide +kernel

/-- **Bytes that do not survive.**  The second copy of a slot goes, with the byte in its index, and
so does a no-break space in front of an arrow. -/
theorem highBytes_dropped :
    let slot : ByteArray :=
      ⟨#[0x50, 0x79, 0x5f, 0x58, 0x44, 0x45, 0x43, 0x52, 0x45, 0x46, 0x28, 0x61, 0x5b, 0xe9,
         0x5d, 0x29, 0x3b, 0x61, 0x5b, 0xe9, 0x5d, 0x3d, 0x4e, 0x55, 0x4c, 0x4c, 0x3b]⟩
    let arrow : ByteArray :=
      ⟨#[0x61, 0xa0, 0x2d, 0x3e, 0x6f, 0x62, 0x5f, 0x74, 0x79, 0x70, 0x65]⟩
    let nonAscii (bytes : ByteArray) := bytes.data.toList.filter fun b => 0x80 ≤ b
    (Encoding.decode slot).2 = .latin1 ∧ (Encoding.decode arrow).2 = .latin1 ∧
      (∃ o new, patch [Catalog.clear] false (Encoding.decode slot).1 = .ok o ∧
        Encoding.encode o.text .latin1 = .ok new ∧ nonAscii slot = [0xe9, 0xe9] ∧
          nonAscii new = [0xe9]) ∧
      ∃ o new, patch [Catalog.readType] false (Encoding.decode arrow).1 = .ok o ∧
        Encoding.encode o.text .latin1 = .ok new ∧ nonAscii arrow = [0xa0] ∧
          nonAscii new = [] := by
  intro slot arrow nonAscii
  have hslot : patch [Catalog.clear] false (Encoding.decode slot).1 =
      .ok ⟨"Py_CLEAR(a[".toList ++ Char.ofNat 0xe9 :: "]);".toList, ["Py_CLEAR"], false⟩ :=
    Evaluation.patch_eq_ok (by decide +kernel)
  have harrow : patch [Catalog.readType] false (Encoding.decode arrow).1 =
      .ok ⟨"Py_TYPE(a)".toList, ["Py_TYPE"], false⟩ :=
    Evaluation.patch_eq_ok (by decide +kernel)
  refine ⟨?_, ?_, ⟨_, _, hslot, rfl, ?_, ?_⟩, _, _, harrow, rfl, ?_, ?_⟩ <;> decide +kernel

end CApiUpgrade
