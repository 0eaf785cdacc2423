import CApiUpgrade.Proofs.Agreement
import CApiUpgrade.Proofs.Patching

/-!
# Lines that include the header

No rule of the catalog makes or breaks a line that includes the compatibility header
(`Rule.isIncluded_of_apply`), although some patterns match across lines.

The argument is about any text that starts with a hash sign, the *mark*.  A hash sign can only be
matched inside of a group that the template keeps, or in a copy of one; nothing else matches it.
And what follows such a group, in the match as in the replacement, agrees with no part of the mark.
So a mark that starts inside of a match ends inside of the same group and is kept as a whole, and so
is one that starts inside of a replacement (`Regex.Basic.mark_of_isGuarded`).  A mark that starts in
front of a match ends there: neither a match nor a replacement starts like a part of the mark.
-/

namespace CApiUpgrade

open Text

/-! ### Marks -/

namespace Text

/-- A text that occurs in two parts starts in the first one or occurs in the second. -/
theorem infix_append_cases {c : Char} {tail u v : List Char} (h : c :: tail <:+: u ++ v) :
    c :: tail <:+: v ∨ ∃ u₁ u₂, u = u₁ ++ c :: u₂ ∧ c :: tail <+: c :: u₂ ++ v := by
  induction u with
  | nil => exact .inl h
  | cons d u ih =>
    rw [List.cons_append, List.infix_cons_iff] at h
    rcases h with h | h
    · obtain ⟨rfl, -⟩ := List.cons_prefix_cons.mp h
      exact .inr ⟨[], u, rfl, h⟩
    · rcases ih h with hin | ⟨u₁, u₂, rfl, hstart⟩
      · exact .inl hin
      · exact .inr ⟨d :: u₁, u₂, rfl, hstart⟩

/-- The positions inside of a mark: neither in front of it nor behind it. -/
def inside (mark : List Char) : Nat := (2 ^ (mark.length - 1) - 1) <<< 1

theorem testBit_inside {mark : List Char} {i : Nat} :
    (inside mark).testBit i = true ↔ 0 < i ∧ i < mark.length := by
  rw [inside, Nat.testBit_shiftLeft, Nat.testBit_two_pow_sub_one, Bool.and_eq_true,
    decide_eq_true_eq, decide_eq_true_eq]
  omega

end Text

namespace Regex

/-- Whether no match holds a hash sign. -/
def avoidsHash : Regex → Bool
  | empty | anchor _ | look _ _ _ => true
  | char c => c != '#'
  | oneOf cls => !cls.contains '#'
  | category kind negated => kind.contains '#' == negated
  | cat a b | alt a b => a.avoidsHash && b.avoidsHash
  | group _ body | repeated body _ _ _ => body.avoidsHash
  | _ => false

theorem Basic.hash_notMem {r : Regex} (hr : r.Basic) (h : r.avoidsHash = true) {ρ : Reading}
    {w : List Char} (hw : r.Spells ρ w) : '#' ∉ w := by
  induction hr generalizing w with
  | @one r p hp =>
    obtain ⟨c, hc, rfl⟩ := (spells_of_takes? hp).mp hw
    rw [List.mem_singleton]
    rintro rfl
    cases r with
    | char d =>
      simp only [takes?, Option.some.injEq] at hp
      subst hp
      rw [beq_iff_eq] at hc
      simp [avoidsHash, ← hc] at h
    | oneOf | category | any =>
      simp only [takes?, Option.some.injEq] at hp
      subst hp
      simp_all [avoidsHash]
    | _ => simp [takes?] at hp
  | cat _ _ iha ihb =>
    obtain ⟨u, v, rfl, hu, hv⟩ := hw
    rw [avoidsHash, Bool.and_eq_true] at h
    rw [List.mem_append, not_or]
    exact ⟨iha h.1 hu, ihb h.2 hv⟩
  | alt _ _ iha ihb =>
    rw [avoidsHash, Bool.and_eq_true] at h
    exact hw.elim (fun hw => iha h.1 hw.1) fun hw => ihb h.2 hw.1
  | group name _ ih => exact ih h hw.2
  | repeated _ _ _ _ ih =>
    obtain ⟨ws, rfl, hws, -⟩ := hw
    intro hmem
    obtain ⟨u, hu, hin⟩ := List.mem_flatten.mp hmem
    exact ih h (hws u hu) hin
  | backReference name => simp [avoidsHash] at h
  | _ =>
    rw [Spells] at hw
    simp [hw]

/-- Which groups hold what an expression matches of hash signs. -/
structure Guards where
  /-- What these groups have matched is kept. -/
  keeps : String → Bool
  /-- What these groups have matched holds no hash sign. -/
  avoids : String → Bool

/-- Whether hash signs are matched only by groups that are kept, or by references to such groups. -/
def isGuarded (g : Guards) : Regex → Bool
  | cat a b | alt a b => a.isGuarded g && b.isGuarded g
  | group name body => body.avoidsHash || g.keeps name
  | backReference name _ => g.avoids name || g.keeps name
  | r => r.avoidsHash

/-- The positions of a mark behind matches that start at some of its positions, and those behind
marks that start in a kept group of the match and go on behind the group. -/
def track (mark : List Char) (g : Guards) : Regex → (s : Nat) → Nat
  | cat a b, s => b.track mark g (a.track mark g s)
  | alt a b, s => a.track mark g s ||| b.track mark g s
  | group _ body, s =>
    if body.avoidsHash then body.advance mark s else body.advance mark s ||| inside mark
  | backReference name anyCase, s =>
    if g.avoids name then (backReference name anyCase).advance mark s
    else (backReference name anyCase).advance mark s ||| inside mark
  | r, s => r.advance mark s

variable {mark : List Char} {g : Guards} {s i : Nat}

theorem Basic.testBit_track {r : Regex} (hr : r.Basic) (g : Guards) {ρ : Reading} {w : List Char}
    (hw : r.Spells ρ w) (hi : i ≤ mark.length) (hs : s.testBit i = true)
    (h : Agree w (mark.drop i)) : (r.track mark g s).testBit (landing mark i w) = true := by
  induction hr generalizing w s i with
  | cat _ _ iha ihb =>
    obtain ⟨u, v, rfl, hu, hv⟩ := hw
    obtain ⟨hfirst, hrest⟩ := h.append
    rw [landing_append]
    exact ihb hv (landing_le mark i u) (iha hu hi hs hfirst) hrest
  | alt _ _ iha ihb =>
    rw [track, Nat.testBit_or, Bool.or_eq_true]
    exact hw.imp (fun hw => iha hw.1 hi hs h) fun hw => ihb hw.1 hi hs h
  -- What a guarded group holds is tracked as `advance` does it.
  | @group body name hbody _ =>
    have := hbody.testBit_advance hw.2 hi hs h
    rw [track]
    split_ifs
    · exact this
    · rw [Nat.testBit_or, this, Bool.true_or]
  | backReference name =>
    have := Basic.testBit_advance (.backReference name) hw hi hs h
    rw [track]
    split_ifs
    · exact this
    · rw [Nat.testBit_or, this, Bool.true_or]
  | @one r p hp =>
    have := Basic.testBit_advance (.one hp) hw hi hs h
    cases r <;> simp [takes?] at hp <;> exact this
  | @repeated body least most greedy hbody _ =>
    exact Basic.testBit_advance (.repeated least most greedy hbody) hw hi hs h
  | empty => exact Basic.testBit_advance .empty hw hi hs h
  | anchor a => exact Basic.testBit_advance (.anchor a) hw hi hs h
  | look direction hbody _ => exact Basic.testBit_advance (.look direction hbody) hw hi hs h

/-- A mark that starts in a text ends in it, or the text ends inside of the mark. -/
theorem infix_or_testBit_inside {c : Char} {w₁ w₂ v : List Char} (h : mark <+: c :: w₂ ++ v) :
    mark <:+: w₁ ++ c :: w₂ ∨ (inside mark).testBit (landing mark 0 (c :: w₂)) = true := by
  by_cases hlen : mark.length ≤ (c :: w₂).length
  · left
    have hprefix : mark <+: c :: w₂ :=
      List.prefix_of_prefix_length_le h (List.prefix_append _ v) hlen
    exact hprefix.isInfix.trans (List.suffix_append w₁ _).isInfix
  · right
    rw [testBit_inside, landing]
    simp only [List.length_cons] at hlen ⊢
    omega

/-- **Marks in a match.**  A mark that starts in a match occurs in what a kept group has matched, or
the position of the mark behind the match is tracked. -/
theorem Basic.mark_of_isGuarded {r : Regex} (hr : r.Basic) {ρ : Reading}
    (havoid : ∀ name u, g.avoids name = true → ρ.refers name u → '#' ∉ u)
    (hg : r.isGuarded g = true) {w₁ w₂ v : List Char} (hw : r.Spells ρ (w₁ ++ '#' :: w₂))
    (h : mark <+: '#' :: w₂ ++ v) :
    (∃ name u, g.keeps name = true ∧ (ρ.sets name u ∨ ρ.refers name u) ∧ mark <:+: u) ∨
      (r.track mark g s).testBit (landing mark 0 ('#' :: w₂)) = true := by
  have hhash : '#' ∈ w₁ ++ '#' :: w₂ := by simp
  induction hr generalizing w₁ w₂ v s with
  | @cat a b ha hb iha ihb =>
    rw [isGuarded, Bool.and_eq_true] at hg
    obtain ⟨x, y, heq, hx, hy⟩ := hw
    rcases append_eq_append_cons heq.symm with ⟨z, rfl, rfl⟩ | ⟨z, rfl, rfl⟩
    · -- In the first part: the position behind it is tracked through the second.
      rw [← List.cons_append, List.append_assoc] at h
      refine (@iha s hg.1 _ _ _ hx h (by simp)).imp_right fun htrack => ?_
      have hagree : Agree ('#' :: z ++ y) (mark.drop 0) := agree_of_startsWith (by simpa using h)
      rw [← List.cons_append, landing_append]
      exact hb.testBit_track g hy (landing_le _ _ _) htrack hagree.append.2
    · exact ihb hg.2 hy h (by simp)
  | @alt a b ha hb iha ihb =>
    rw [isGuarded, Bool.and_eq_true] at hg
    rw [track, Nat.testBit_or, Bool.or_eq_true]
    rcases hw with ⟨hw, -⟩ | ⟨hw, -⟩
    · exact (iha hg.1 hw h hhash).imp_right .inl
    · exact (ihb hg.2 hw h hhash).imp_right .inr
  | @group body name hbody _ =>
    have hno : ¬ body.avoidsHash = true := fun h => hbody.hash_notMem h hw.2 hhash
    rw [isGuarded, Bool.or_eq_true] at hg
    rw [track, if_neg hno, Nat.testBit_or, Bool.or_eq_true]
    exact (infix_or_testBit_inside h).imp
      (fun hin => ⟨name, _, hg.resolve_left hno, .inl hw.1, hin⟩) .inr
  | backReference name =>
    have hno : ¬ g.avoids name = true := fun h => havoid name _ h hw hhash
    rw [isGuarded, Bool.or_eq_true] at hg
    rw [track, if_neg hno, Nat.testBit_or, Bool.or_eq_true]
    exact (infix_or_testBit_inside h).imp
      (fun hin => ⟨name, _, hg.resolve_left hno, .inr hw, hin⟩) .inr
  | @one r p hp =>
    refine absurd hhash (Basic.hash_notMem (.one hp) ?_ hw)
    cases r <;> simp [takes?] at hp <;> exact hg
  | @repeated body least most greedy hbody _ =>
    exact absurd hhash (Basic.hash_notMem (.repeated least most greedy hbody) hg hw)
  | empty | anchor _ | look _ _ _ =>
    rw [Spells] at hw
    simp at hw

end Regex

/-! ### Templates as expressions -/

/-- The reading in which every group stands for one text or none, and any may be passed by. -/
def Reading.free (texts : String → Option (List Char)) : Reading :=
  { Reading.of texts with skips := fun _ => True }

theorem Regex.Spells.free {r : Regex} {texts : String → Option (List Char)} {w : List Char}
    (h : r.Spells (.of texts) w) : r.Spells (.free texts) w :=
  @Spells.mono r (.of texts) (.free texts) (fun _ _ h => h) (fun _ _ h => h)
    (fun _ _ => trivial) w h

namespace Template

/-- The expression of what a template can leave, given what its groups match. -/
def regex (bodies : List (String × Regex)) : Template → Regex
  | [] => .empty
  | .plain text :: rest => .cat (.literal text) (regex bodies rest)
  | .group name :: rest =>
    .cat (.alt (.group name ((bodies.lookup name).getD .empty)) .empty) (regex bodies rest)

theorem basic_regex {bodies : List (String × Regex)} (h : ∀ e ∈ bodies, e.2.Basic)
    (t : Template) : (t.regex bodies).Basic := by
  induction t with
  | nil => exact .empty
  | cons part rest ih =>
    cases part with
    | plain text => exact .cat (Regex.basic_literal text) ih
    | group name =>
      refine .cat (.alt (.group name ?_) .empty) ih
      cases hlookup : bodies.lookup name with
      | none => exact .empty
      | some body =>
        obtain ⟨left, right, rfl, -⟩ := List.lookup_eq_some_iff.mp hlookup
        exact h (name, body) (by simp)

/-- What a template leaves is a text of its expression. -/
theorem spells_fill {r : Regex} (hr : r.Basic) {texts : String → Option (List Char)}
    {m : List Char} (hm : r.Spells (.of texts) m) {t : Template}
    (ht : ∀ n ∈ t.references, n ∈ r.bodies.map Prod.fst) :
    (t.regex r.bodies).Spells (.free texts) (t.fill texts) := by
  induction t with
  | nil => rfl
  | cons part rest ih =>
    cases part with
    | plain text => exact ⟨text.toList, fill texts rest, rfl, Regex.spells_literal.mpr rfl, ih ht⟩
    | group name =>
      have hrest := ih fun n hn => ht n (List.mem_cons_of_mem name hn)
      refine ⟨(texts name).getD [], fill texts rest, rfl, ?_, hrest⟩
      cases hu : texts name with
      | none => exact .inr ⟨rfl, fun _ _ => trivial⟩
      | some u =>
        refine .inl ⟨⟨hu, ?_⟩, fun _ _ => trivial⟩
        -- A group may stand in an expression twice; either of its bodies will do.
        cases hlookup : r.bodies.lookup name with
        | none =>
          obtain ⟨e, he, rfl⟩ := List.mem_map.mp (ht name List.mem_cons_self)
          have hne := List.lookup_eq_none_iff.mp hlookup e he
          simp at hne
        | some body =>
          have hbody := (hr.spells_body hm (Regex.mem_bodies_of_lookup hlookup) hu).2
          exact Regex.Spells.free hbody

theorem infix_fill {t : Template} {name : String} (h : name ∈ t.references)
    {texts : String → Option (List Char)} {u : List Char} (hu : texts name = some u) :
    u <:+: t.fill texts := by
  induction t with
  | nil => simp [references] at h
  | cons part rest ih =>
    have hfill : fill texts (part :: rest) = fill texts [part] ++ fill texts rest := by
      simp [fill]
    rw [hfill]
    cases part with
    | plain text => exact (ih h).trans (List.suffix_append _ _).isInfix
    | group n =>
      rcases List.mem_cons.mp h with rfl | h
      · simpa [fill, hu] using (List.prefix_append u (fill texts rest)).isInfix
      · exact (ih h).trans (List.suffix_append _ _).isInfix

end Template

/-! ### Patterns -/

namespace Pattern

/-- Whether a template keeps what a group has matched, as it is or within another group. -/
def keeps (p : Pattern) (name : String) : Bool :=
  decide (name ∈ p.template.references) ||
    p.template.references.any fun outer =>
      decide (outer ∈ p.regex.sureGroups) &&
        (p.regex.bodies.lookup outer).any fun body => decide (name ∈ body.bodies.map Prod.fst)

/-- What guards hash signs in a match. -/
def matchGuards (p : Pattern) : Regex.Guards :=
  ⟨p.keeps, fun name => (p.regex.bodies.lookup name).any Regex.avoidsHash⟩

/-- What guards hash signs in a replacement: all groups of the expression. -/
def fillGuards (p : Pattern) : Regex.Guards :=
  ⟨fun name => decide (name ∈ p.regex.bodies.map Prod.fst), fun _ => false⟩

/-- Whether a pattern neither makes nor breaks a mark, for reasons that can be read off it: in the
expression and in the template, hash signs are guarded, and no match agrees with the mark from a
position inside of it on, neither from the start nor from behind a guard. -/
def sparesMark (mark : List Char) (p : Pattern) : Bool :=
  let replacement := p.template.regex p.regex.bodies
  p.regex.isGuarded p.matchGuards && replacement.isGuarded p.fillGuards &&
    p.regex.track mark p.matchGuards (inside mark) == 0 &&
    replacement.track mark p.fillGuards (inside mark) == 0

variable {p : Pattern} {texts : String → Option (List Char)} {m : List Char}

theorem Regular.infix_of_keeps (hp : p.Regular) (hm : p.regex.Spells (.of texts) m) {name : String}
    (h : p.keeps name = true) {u : List Char} (hu : texts name = some u) :
    u <:+: p.template.fill texts := by
  simp only [keeps, Bool.or_eq_true, decide_eq_true_eq, List.any_eq_true, Bool.and_eq_true,
    Option.any_eq_true] at h
  rcases h with h | ⟨outer, houter, hsure, body, hlookup, hin⟩
  · exact Template.infix_fill h hu
  · obtain ⟨w, hw⟩ := Regex.texts_of_mem_sureGroups hm hsure
    have hmem := Regex.mem_bodies_of_lookup hlookup
    obtain ⟨-, hbody⟩ := hp.basic.spells_body hm hmem hw
    obtain ⟨e, he, rfl⟩ := List.mem_map.mp hin
    obtain ⟨hin, -⟩ := (hp.basic.of_mem_bodies hmem).spells_body hbody he hu
    exact hin.trans (Template.infix_fill houter hw)

/-- No match goes on with a mark that has started in front of it, and a mark that starts in a match
is kept by its replacement. -/
theorem Regular.spares_match (hp : p.Regular) {tail : List Char}
    (h : p.sparesMark ('#' :: tail) = true) (hm : p.regex.Spells (.of texts) m) (v : List Char) :
    (∀ i, 0 < i → i < ('#' :: tail).length → ¬ ('#' :: tail).drop i <+: m ++ v) ∧
      ('#' :: tail <:+: m ++ v → '#' :: tail <:+: v ∨ '#' :: tail <:+: p.template.fill texts) := by
  simp only [sparesMark, Bool.and_eq_true, beq_iff_eq] at h
  obtain ⟨⟨⟨hguarded, -⟩, hnowhere⟩, -⟩ := h
  constructor
  · intro i hpos hlt hprefix
    -- A mark that starts in front of the match would put the tracker into a state inside of the
    -- mark.
    have := hp.basic.testBit_track p.matchGuards hm hlt.le (testBit_inside.mpr ⟨hpos, hlt⟩)
      (agree_of_startsWith hprefix)
    rw [hnowhere] at this
    simp at this
  · intro hmark
    refine (infix_append_cases hmark).imp_right ?_
    rintro ⟨w₁, w₂, rfl, hprefix⟩
    have havoid : ∀ name u, (p.regex.bodies.lookup name).any Regex.avoidsHash = true →
        texts name = some u → '#' ∉ u := by
      intro name u havoids hu
      obtain ⟨body, hlookup, hbody⟩ := (Option.any_eq_true _ _).mp havoids
      have hmem := Regex.mem_bodies_of_lookup hlookup
      exact (hp.basic.of_mem_bodies hmem).hash_notMem hbody (hp.basic.spells_body hm hmem hu).2
    rcases hp.basic.mark_of_isGuarded havoid hguarded hm hprefix with
      ⟨name, u, hkeeps, hu, hin⟩ | htrack
    · exact hin.trans (hp.infix_of_keeps hm hkeeps (hu.elim id id))
    · rw [hnowhere] at htrack
      simp at htrack

/-- No replacement goes on with a mark that has started in front of it, and a mark that starts in a
replacement was there in the match. -/
theorem Regular.spares_fill (hp : p.Regular) {tail : List Char}
    (h : p.sparesMark ('#' :: tail) = true) (hm : p.regex.Spells (.of texts) m) (v : List Char) :
    (∀ i, 0 < i → i < ('#' :: tail).length →
      ¬ ('#' :: tail).drop i <+: p.template.fill texts ++ v) ∧
      ('#' :: tail <:+: p.template.fill texts ++ v → '#' :: tail <:+: v ∨ '#' :: tail <:+: m) := by
  simp only [sparesMark, Bool.and_eq_true, beq_iff_eq] at h
  obtain ⟨⟨⟨-, hguarded⟩, -⟩, hnowhere⟩ := h
  have hbasic : (p.template.regex p.regex.bodies).Basic :=
    Template.basic_regex (fun _ => hp.basic.of_mem_bodies) _
  have hfill := Template.spells_fill hp.basic hm hp.named
  constructor
  · intro i hpos hlt hprefix
    -- The replacement is tracked like a match, with its groups for what they have matched.
    have := hbasic.testBit_track p.fillGuards hfill hlt.le (testBit_inside.mpr ⟨hpos, hlt⟩)
      (agree_of_startsWith hprefix)
    rw [hnowhere] at this
    simp at this
  · intro hmark
    refine (infix_append_cases hmark).imp_right ?_
    rintro ⟨w₁, w₂, heq, hprefix⟩
    rw [heq] at hfill
    rcases hbasic.mark_of_isGuarded (by simp [fillGuards]) hguarded hfill hprefix with
      ⟨name, u, hknown, hu, hin⟩ | htrack
    · obtain ⟨e, he, rfl⟩ := List.mem_map.mp (of_decide_eq_true hknown)
      exact hin.trans (hp.basic.spells_body hm he (hu.elim id id)).1
    · rw [hnowhere] at htrack
      simp at htrack

/-- **Marks in a pass.**  A pass leaves a mark where there was one, and makes none.  What goes on
with a mark at the start of the text goes on with it before and after. -/
theorem Pass.mark_iff {tail : List Char} {bound : Nat} {cur : Cursor} {hits : List Hit}
    {out : List Char} (h : p.Pass bound cur hits out) (hp : p.Regular)
    (hspares : p.sparesMark ('#' :: tail) = true) :
    (∀ i, 0 < i → i < ('#' :: tail).length →
      (('#' :: tail).drop i <+: out ↔ ('#' :: tail).drop i <+: cur.after)) ∧
      ('#' :: tail <:+: out ↔ '#' :: tail <:+: cur.after) := by
  induction h with
  | done hafter _ => simp [hafter]
  | @skip cur next x hits out _ hn _ ih =>
    obtain ⟨hgoes, hmark⟩ := ih
    have hafter : cur.after = x :: next.after := (Cursor.leads_of_next? hn).after
    -- One character further, the mark goes on or is at its end.
    have hrest : ∀ i, 0 < i →
        (('#' :: tail).drop i <+: out ↔ ('#' :: tail).drop i <+: next.after) := by
      intro i hpos
      by_cases hlt : i < ('#' :: tail).length
      · exact hgoes i hpos hlt
      · simp [List.drop_eq_nil_of_le (Nat.le_of_not_lt hlt)]
    rw [hafter]
    constructor
    · intro i hpos hlt
      rw [List.drop_eq_getElem_cons hlt, List.cons_prefix_cons, List.cons_prefix_cons,
        hrest (i + 1) (Nat.succ_pos i)]
    · have htail := hrest 1 Nat.one_pos
      rw [List.drop_one, List.tail_cons] at htail
      rw [List.infix_cons_iff, List.infix_cons_iff, List.cons_prefix_cons, List.cons_prefix_cons,
        htail, hmark]
  | @hit cur stop caps hits out ha _ ih =>
    obtain ⟨m, hl, hm⟩ := hp.reads ha
    obtain ⟨hmgoes, hmkeep⟩ := hp.spares_match hspares hm stop.after
    obtain ⟨hfgoes, hfkeep⟩ := hp.spares_fill hspares hm out
    rw [hl.after]
    refine ⟨fun i hpos hlt => iff_of_false (hfgoes i hpos hlt) (hmgoes i hpos hlt), fun h => ?_,
      fun h => ?_⟩
    · rcases hfkeep h with h | h
      · exact (ih.2.mp h).trans (List.suffix_append _ _).isInfix
      · exact h.trans (List.prefix_append _ _).isInfix
    · rcases hmkeep h with h | h
      · exact (ih.2.mpr h).trans (List.suffix_append _ _).isInfix
      · exact h.trans (List.prefix_append _ _).isInfix

end Pattern

/-! ### Rules -/

/-- The two spellings of the line that includes the header. -/
def Header.spellings : List (List Char) :=
  [Header.quotedInclude.toList, Header.angledInclude.toList]

/-- No pattern of the catalog makes or breaks a line that includes the header. -/
theorem Catalog.sparesMark {rule : Rule} (hr : rule ∈ rules) {p : Pattern} (hp : p ∈ rule.patterns)
    {line : List Char} (hl : line ∈ Header.spellings) : p.sparesMark line = true := by
  have hquoted : rules.all (fun rule =>
      rule.patterns.all (·.sparesMark Header.quotedInclude.toList)) = true := by decide +kernel
  have hangled : rules.all (fun rule =>
      rule.patterns.all (·.sparesMark Header.angledInclude.toList)) = true := by decide +kernel
  rcases List.mem_pair.mp hl with rfl | rfl
  · exact Rule.of_all_patterns hquoted hr hp
  · exact Rule.of_all_patterns hangled hr hp

/-- Patterns that are applied one after another neither make nor break a mark. -/
theorem Pattern.mark_iff_of_applyAll {tail : List Char} {ps : List Pattern}
    (hps : ∀ p ∈ ps, p.Regular ∧ p.sparesMark ('#' :: tail) = true) {text out : List Char}
    (h : applyAll ps text = .ok out) : '#' :: tail <:+: out ↔ '#' :: tail <:+: text := by
  induction ps generalizing text with
  | nil =>
    rw [applyAll_nil, Except.ok.injEq] at h
    rw [h]
  | cons p ps ih =>
    obtain ⟨o, ho, hrest⟩ := applyAll_cons_eq_ok.mp h
    obtain ⟨hp, hspares⟩ := hps p List.mem_cons_self
    obtain ⟨hits, -, -, hpass⟩ := hp.pass_of_apply ho
    rw [ih (fun q hq => hps q (List.mem_cons_of_mem _ hq)) hrest]
    exact (hpass.mark_iff hp hspares).2

theorem Header.isIncluded_iff {text : List Char} :
    isIncluded text = true ↔ ∃ line ∈ spellings, line <:+: text := by
  simp only [isIncluded, Bool.or_eq_true, Text.occursIn_iff, spellings, List.mem_pair,
    exists_eq_or_imp, exists_eq_left]
  exact or_congr ⟨fun ⟨u, v, h⟩ => ⟨u, v, h.symm⟩, fun ⟨u, v, h⟩ => ⟨u, v, h.symm⟩⟩
    ⟨fun ⟨u, v, h⟩ => ⟨u, v, h.symm⟩, fun ⟨u, v, h⟩ => ⟨u, v, h.symm⟩⟩

/-- A rule of the catalog neither adds nor removes the header. -/
theorem Rule.isIncluded_of_apply {rule : Rule} (hr : rule ∈ Catalog.rules) {text out : List Char}
    (h : rule.apply text = .ok out) : Header.isIncluded out = Header.isIncluded text := by
  have hline : ∀ line ∈ Header.spellings, line <:+: out ↔ line <:+: text := by
    intro line hl
    obtain ⟨tail, rfl⟩ : ∃ tail, line = '#' :: tail := by
      rcases List.mem_pair.mp hl with rfl | rfl <;> exact ⟨_, rfl⟩
    exact Pattern.mark_iff_of_applyAll
      (fun p hp => ⟨Catalog.regular hr hp, Catalog.sparesMark hr hp hl⟩) h
  rw [Bool.eq_iff_iff, Header.isIncluded_iff, Header.isIncluded_iff]
  exact exists_congr fun line => and_congr_right fun hl => hline line hl

end CApiUpgrade
