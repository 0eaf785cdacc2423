import CApiUpgrade.Proofs.Edge
import CApiUpgrade.Proofs.Pass

/-!
# Replacements pay off debt

Every replacement of the catalog lowers the debt of the text, whatever stands around the match
(`Catalog.pays`).  A fold, a store or a comparison gives up an equals sign or a semicolon that the
template does not put back, a read gives up an arrow, and a renamed function is no old one.

What remains is that nothing new comes to count.  The groups that a template puts into another place
count there at most as much as in the match: either the text in front of them is shut in the
replacement and does not end in a word character in the match, or the group is bracketed and what
stands in front has no influence.  And what follows the match counts as before, since the
replacement is shut and a match never ends within a word.

Main statements: `Pattern.Pass.debt_le` for a pass, `Rule.debt_lt_of_apply` for a rule.  So a rule
that leaves a text as it is has found no match in it (`Rule.apply_eq_self_iff`).
-/

namespace CApiUpgrade

open Text

/-! ### What a match owes -/

/-- The debt of the texts of some groups, each by itself. -/
def groupDebt (texts : String → Option (List Char)) (names : List String) : Nat :=
  (names.map fun n => due [] ((texts n).getD [])).sum

@[simp]
theorem groupDebt_append (texts : String → Option (List Char)) (names names' : List String) :
    groupDebt texts (names ++ names') = groupDebt texts names + groupDebt texts names' := by
  simp [groupDebt]

theorem groupDebt_eq_zero {texts : String → Option (List Char)} {names : List String}
    (h : ∀ n ∈ names, texts n = none) : groupDebt texts names = 0 := by
  induction names with
  | nil => rfl
  | cons n rest ih =>
    have hrest := ih fun m hm => h m (List.mem_cons_of_mem _ hm)
    simp only [groupDebt, List.map_cons, List.sum_cons, h n List.mem_cons_self] at hrest ⊢
    simpa using hrest

/-- Distinct groups owe at most as much as any list of groups that holds them. -/
theorem groupDebt_le (texts : String → Option (List Char)) {names names' : List String}
    (hnodup : names.Nodup) (hsub : names ⊆ names') :
    groupDebt texts names ≤ groupDebt texts names' := by
  induction names generalizing names' with
  | nil => exact Nat.zero_le _
  | cons n rest ih =>
    obtain ⟨hn, hrest⟩ := List.nodup_cons.mp hnodup
    have hperm : names'.Perm (n :: names'.erase n) :=
      List.perm_cons_erase (hsub List.mem_cons_self)
    have herase : rest ⊆ names'.erase n := by
      intro m hm
      have hne : m ≠ n := fun h => hn (h ▸ hm)
      exact (List.mem_erase_of_ne hne).mpr (hsub (List.mem_cons_of_mem _ hm))
    have hsum : groupDebt texts names' = groupDebt texts (n :: names'.erase n) :=
      (hperm.map _).sum_nat
    have := ih hrest herase
    rw [hsum]
    simp only [groupDebt, List.map_cons, List.sum_cons] at this ⊢
    omega

theorem Text.shut_nil : Shut [] := ⟨rfl, by simp, by decide +kernel⟩

/-- The debt of a text by itself is the least it can owe behind anything that does not end in a word
character. -/
theorem Text.due_nil_le {before : List Char} (h : before.head?.any isWord = false)
    (text : List Char) : due [] text ≤ due before text :=
  (shut_nil.eases h text).due_le

namespace Regex

/-- The groups that are in no other group. -/
def outerGroups : Regex → List String
  | cat a b | alt a b => a.outerGroups ++ b.outerGroups
  | group name _ => [name]
  | repeated body _ _ _ => body.outerGroups
  | _ => []

theorem outerGroups_subset (r : Regex) : r.outerGroups ⊆ r.groups := by
  induction r with
  | cat a b iha ihb | alt a b iha ihb =>
    intro n hn
    rw [outerGroups, List.mem_append] at hn
    rw [groups, List.mem_append]
    exact hn.imp (fun h => iha h) fun h => ihb h
  | group name body _ => simp [outerGroups, groups]
  | repeated body _ _ _ ih => exact ih
  | _ => simp [outerGroups]

/-- What a match owes at least, apart from the outermost groups. -/
def floor : (e : Edge) → Regex → Nat
  | e, char c => if c = '=' ∨ c = ';' ∨ (c = '>' ∧ e = .dash) then 1 else 0
  | e, cat a b => floor e a + floor (edge e a) b
  | e, alt a b => min (floor e a) (floor e b)
  | _, _ => 0

/-- Whether each of the outermost groups is bracketed or stands behind something that does not end
in a word character. -/
def isSpaced : (e : Edge) → Regex → Bool
  | e, cat a b => isSpaced e a && isSpaced (edge e a) b
  | e, alt a b => isSpaced e a && isSpaced e b
  | e, group _ body => e != .any || body.isBracketed
  | e, repeated body _ _ _ => body.groups.isEmpty || isSpaced e body
  | _, _ => true

/-- A match owes at least as much as its expression says and its groups do. -/
theorem Basic.floor_le {r : Regex} (hr : r.Basic) (honce : r.setsOnce = true) {e : Edge}
    (hspaced : r.isSpaced e = true) {before : List Char} (he : e.Holds before)
    {texts : String → Option (List Char)} {m : List Char} (hm : r.Spells (.of texts) m) :
    r.floor e + groupDebt texts r.outerGroups ≤ due before m := by
  induction hr generalizing e before m with
  | @one r p h =>
    cases r with
    | char c =>
      rw [Spells] at hm
      subst hm
      simp only [floor, outerGroups, groupDebt, due_cons, due_nil, List.map_nil, List.sum_nil]
      split_ifs with hc
      · have hdue : isDue before c = true := by
          rcases hc with rfl | rfl | ⟨rfl, rfl⟩
          · simp [isDue]
          · simp [isDue]
          · have hdash : before.head? = some '-' := he
            simp [isDue, hdash]
        simp [hdue]
      · exact Nat.zero_le _
    | oneOf _ | category _ _ | any _ => exact Nat.zero_le _
    | _ => simp [takes?] at h
  | @cat a b ha _ iha ihb =>
    simp only [setsOnce, Bool.and_eq_true] at honce
    rw [isSpaced, Bool.and_eq_true] at hspaced
    obtain ⟨u, v, rfl, hu, hv⟩ := hm
    have hua := iha honce.1.1 hspaced.1 he hu
    have hvb := ihb honce.1.2 hspaced.2 (ha.holds_edge hu he) hv
    rw [floor, outerGroups, groupDebt_append, due_append]
    omega
  | @alt a b _ _ iha ihb =>
    simp only [setsOnce, Bool.and_eq_true] at honce
    rw [isSpaced, Bool.and_eq_true] at hspaced
    rw [floor, outerGroups, groupDebt_append]
    rcases hm with ⟨hm, hb⟩ | ⟨hm, ha⟩
    · have hma := iha honce.1.1 hspaced.1 he hm
      rw [groupDebt_eq_zero fun n hn => hb n (b.outerGroups_subset hn)]
      omega
    · have hmb := ihb honce.1.2 hspaced.2 he hm
      rw [groupDebt_eq_zero fun n hn => ha n (a.outerGroups_subset hn)]
      omega
  | @group body name hbody _ =>
    have hset : texts name = some m := hm.1
    have hle : due [] m ≤ due before m := by
      rw [isSpaced, Bool.or_eq_true, bne_iff_ne] at hspaced
      rcases hspaced with hany | hbracketed
      · exact due_nil_le (he.apart hany) m
      · exact ((hbody.bracketed hbracketed hm.2).eases _ _).due_le
    simpa [floor, outerGroups, groupDebt, hset] using hle
  | @repeated body least most greedy _ ih =>
    simp only [setsOnce, Bool.and_eq_true, Bool.or_eq_true, List.isEmpty_iff,
      decide_eq_true_eq, beq_iff_eq] at honce
    rw [isSpaced, Bool.or_eq_true, List.isEmpty_iff] at hspaced
    obtain ⟨hob, hcase⟩ := honce
    obtain ⟨ws, rfl, hws, hleast, hmost, hnil⟩ := hm
    have hfloor : floor e (Regex.repeated body least most greedy) = 0 := rfl
    rw [hfloor, outerGroups, Nat.zero_add]
    by_cases hgroups : body.groups = []
    · rw [groupDebt_eq_zero fun n hn => by simpa [hgroups] using body.outerGroups_subset hn]
      exact Nat.zero_le _
    · -- With groups, there is one round at most.
      obtain ⟨hle, rfl⟩ := hcase.resolve_left hgroups
      have hlen : ws.length ≤ max least 1 := hmost 1 rfl
      cases ws with
      | nil =>
        rw [groupDebt_eq_zero fun n hn => hnil rfl n (body.outerGroups_subset hn)]
        exact Nat.zero_le _
      | cons u rest =>
        have hu := ih hob (hspaced.resolve_left hgroups) he (hws u List.mem_cons_self)
        obtain rfl : rest = [] := by
          apply List.length_eq_zero_iff.mp
          simp only [List.length_cons] at hlen
          omega
        simp only [List.flatten_cons, List.flatten_nil, List.append_nil]
        omega
  | _ => exact Nat.zero_le _

end Regex

/-! ### What a replacement owes -/

namespace Text

/-- Whether no text ends in an old name that ends in `x`, the nearest character first. -/
def isForeign (x : List Char) : Bool :=
  Catalog.oldNames.all fun name =>
    let name := name.toList.reverse
    let rest := x.dropWhile isGap
    !name.isPrefixOf rest && !rest.isPrefixOf name

theorem endsInOldName_of_isForeign {x : List Char} (h : isForeign x = true) (before : List Char) :
    endsInOldName (x ++ before) = false := by
  rw [← Bool.not_eq_true, endsInOldName_iff]
  rintro ⟨name, hmem, rest, heq, -⟩
  have hname := List.all_eq_true.mp h name hmem
  simp only [Bool.and_eq_true, Bool.not_eq_true', ← Bool.not_eq_true,
    List.isPrefixOf_iff_prefix] at hname
  obtain ⟨hlong, hshort⟩ := hname
  have hne : x.dropWhile isGap ≠ [] := fun hnil => hshort (hnil ▸ List.nil_prefix)
  rw [List.dropWhile_append, if_neg (by simpa using hne)] at heq
  rcases List.append_eq_append_iff.mp heq with ⟨z, hz, -⟩ | ⟨z, hz, -⟩
  · exact hshort (hz ▸ List.prefix_append _ z)
  · exact hlong (hz ▸ List.prefix_append _ z)

/-- Whether nothing but equals signs and semicolons of a text counts, whatever stands in front of it
and of `x`, the text right in front. -/
def isQuiet (x : List Char) : List Char → Bool
  | [] => true
  | c :: rest => c != '>' && (c != '(' || isForeign x) && isQuiet (c :: x) rest

/-- The number of equals signs and semicolons. -/
def signs (text : List Char) : Nat := text.count '=' + text.count ';'

theorem due_le_signs {x text : List Char} (h : isQuiet x text = true) (before : List Char) :
    due (x ++ before) text ≤ signs text := by
  induction text generalizing x with
  | nil => exact Nat.zero_le _
  | cons c rest ih =>
    simp only [isQuiet, Bool.and_eq_true, bne_iff_ne, Bool.or_eq_true] at h
    obtain ⟨⟨harrow, hparen⟩, hrest⟩ := h
    have hrest := ih hrest
    have hfirst : (isDue (x ++ before) c).toNat ≤ (c == '=').toNat + (c == ';').toNat := by
      rw [toNat_isDue, beq_false_of_ne harrow]
      by_cases hc : c = '('
      · have := endsInOldName_of_isForeign (hparen.resolve_left fun h => h hc) before
        simp [this]
      · simp [beq_false_of_ne hc]
    rw [due_cons, signs, count_cons_eq_add, count_cons_eq_add]
    rw [List.cons_append, signs] at hrest
    omega

/-- Whether every text that ends in `x`, the nearest character first, is shut. -/
def isShutBehind (x : List Char) : Bool :=
  x.head?.any (fun c => !isWord c && c != '-') && isForeign x

theorem shut_of_isShutBehind {x : List Char} (h : isShutBehind x = true) (before : List Char) :
    Shut (x ++ before) := by
  rw [isShutBehind, Bool.and_eq_true] at h
  cases x with
  | nil => simp at h
  | cons c x =>
    simp only [List.head?_cons, Option.any_some, Bool.and_eq_true, Bool.not_eq_true',
      bne_iff_ne] at h
    refine ⟨by simpa using h.1.1, by simpa using h.1.2, endsInOldName_of_isForeign h.2 before⟩

end Text

namespace Pattern

/-- The equals signs and semicolons in the plain parts of a template. -/
def plainSigns (t : Template) : Nat :=
  (t.map fun
    | .plain text => signs text.toList
    | .group _ => 0).sum

/-- What is known behind a plain part of a template. -/
def edgeBehind (e : Edge) (text : List Char) : Edge :=
  if text = [] then e else if isShutBehind text.reverse then .shut else .any

/-- Whether each group of a template is bracketed or stands behind something shut, the plain parts
are quiet, and what the template leaves is shut. -/
def isSettled (r : Regex) : (e : Edge) → Template → Bool
  | e, [] => e == .shut
  | e, .plain text :: rest =>
    isQuiet [] text.toList && isSettled r (edgeBehind e text.toList) rest
  | e, .group name :: rest =>
    match r.bodies.lookup name with
    | none => false
    | some body =>
      (e == .shut || body.isBracketed) &&
        isSettled r (if name ∈ r.sureGroups then body.edge e else e.join (body.edge e)) rest

/-- What a template leaves owes at most its plain signs and what its groups owe, and it is shut. -/
theorem due_fill_le {r : Regex} (hr : r.Basic) {texts : String → Option (List Char)}
    {m : List Char} (hm : r.Spells (.of texts) m) {t : Template} {e : Edge}
    (ht : isSettled r e t = true) {before : List Char} (he : e.Holds before) :
    due before (t.fill texts) ≤ plainSigns t + groupDebt texts t.references ∧
      Shut ((t.fill texts).reverse ++ before) := by
  induction t generalizing e before with
  | nil =>
    rw [isSettled, beq_iff_eq] at ht
    subst ht
    exact ⟨Nat.zero_le _, he⟩
  | cons part rest ih =>
    cases part with
    | plain text =>
      rw [isSettled, Bool.and_eq_true] at ht
      have hedge : (edgeBehind e text.toList).Holds (text.toList.reverse ++ before) := by
        unfold edgeBehind
        split_ifs with hnil hshut
        · simpa [hnil] using he
        · exact shut_of_isShutBehind hshut before
        · trivial
      have hplain := due_le_signs ht.1 before
      obtain ⟨hrest, hshut⟩ := ih ht.2 hedge
      have hfill : Template.fill texts (.plain text :: rest)
          = text.toList ++ Template.fill texts rest := rfl
      rw [hfill, due_append, List.reverse_append, List.append_assoc]
      refine ⟨?_, hshut⟩
      simp only [plainSigns, Template.references, List.map_cons, List.sum_cons,
        List.filterMap_cons, List.nil_append] at hrest hplain ⊢
      omega
    | group name =>
      rw [isSettled] at ht
      cases hlookup : r.bodies.lookup name with
      | none => simp [hlookup] at ht
      | some body =>
        simp only [hlookup, Bool.and_eq_true, Bool.or_eq_true, beq_iff_eq] at ht
        have hmem := Regex.mem_bodies_of_lookup hlookup
        have hbasic : body.Basic := hr.of_mem_bodies hmem
        obtain ⟨hhere, hrest⟩ := ht
        have hfill : Template.fill texts (.group name :: rest)
            = (texts name).getD [] ++ Template.fill texts rest := rfl
        -- What the group leaves, and what is known behind it.
        have hgroup : due before ((texts name).getD []) ≤ due [] ((texts name).getD []) ∧
            (if name ∈ r.sureGroups then body.edge e else e.join (body.edge e)).Holds
              (((texts name).getD []).reverse ++ before) := by
          cases hu : texts name with
          | none =>
            have hsure : name ∉ r.sureGroups := by
              intro h
              obtain ⟨u, hu'⟩ := Regex.texts_of_mem_sureGroups hm h
              simp [hu] at hu'
            rw [if_neg hsure]
            exact ⟨by simp, he.join_left _⟩
          | some u =>
            have hbody := (hr.spells_body hm hmem hu).2
            constructor
            · rcases hhere with rfl | hbracketed
              · exact (Shut.eases he rfl u).due_le
              · exact ((hbasic.bracketed hbracketed hbody).eases _ _).due_le
            · have hedge := hbasic.holds_edge hbody he
              split_ifs
              · exact hedge
              · exact hedge.join_right _
        obtain ⟨hle, hshut⟩ := ih hrest hgroup.2
        rw [hfill, due_append, List.reverse_append, List.append_assoc]
        refine ⟨?_, hshut⟩
        have hdebt := hgroup.1
        simp only [plainSigns, groupDebt, Template.references, List.map_cons, List.sum_cons,
          List.filterMap_cons, Nat.zero_add] at hle ⊢
        omega

end Pattern

/-! ### Where matches end -/

namespace Regex

/-- Whether no match ends within a word. -/
def endsApart : Regex → Bool
  | anchor .wordEdge => true
  | char c => !isWord c
  | cat a b => b.endsApart || (b.isStill && a.endsApart)
  | group _ body => body.endsApart
  | _ => false

variable {terms : Terms} {cur stop : Cursor} {caps caps' : Captures}

/-- Next to the end of a match there is a character that is no word character, on one side or the
other, or an end of the text. -/
theorem apart_of_endsApart {r : Regex} (h : r.endsApart = true)
    (hw : (stop, caps') ∈ r.ways terms cur caps) :
    stop.before.head?.any isWord = false ∨ stop.after.head?.any isWord = false := by
  induction r generalizing cur caps caps' with
  | char c =>
    rw [ways, Way.step] at hw
    cases hn : cur.next? with
    | none => simp [hn] at hw
    | some move =>
      obtain ⟨d, next⟩ := move
      simp only [hn] at hw
      split_ifs at hw with hd
      · obtain ⟨rfl, -⟩ := Prod.mk.injEq .. ▸ List.mem_singleton.mp hw
        left
        rw [(Cursor.leads_of_next? hn).before, beq_iff_eq.mp hd]
        simpa [endsApart] using h
      · simp at hw
  | anchor a =>
    rw [ways, Way.provided] at hw
    split_ifs at hw with ha
    · obtain ⟨rfl, -⟩ := Prod.mk.injEq .. ▸ List.mem_singleton.mp hw
      cases a with
      | wordEdge =>
        simp only [Anchor.holds, bne_iff_ne, ne_eq] at ha
        revert ha
        cases stop.before.head?.any isWord <;> simp
      | _ => simp [endsApart] at h
    · simp at hw
  | cat a b iha ihb =>
    rw [endsApart, Bool.or_eq_true, Bool.and_eq_true] at h
    rw [ways, List.mem_flatMap] at hw
    obtain ⟨⟨mid, caps₁⟩, hmid, hw⟩ := hw
    rcases h with h | ⟨hstill, h⟩
    · exact ihb h hw
    · obtain rfl := stop_eq_of_isStill hstill hw
      exact iha h hmid
  | group name body ih =>
    rw [ways, List.mem_map] at hw
    obtain ⟨⟨d, caps₁⟩, hd, heq⟩ := hw
    obtain ⟨rfl, -⟩ := Prod.mk.injEq .. ▸ heq
    exact ih h hd
  | _ => simp [endsApart] at h

end Regex

/-! ### Patterns -/

/-- A replacement pays: wherever the pattern matches, what it leaves owes less than the match, in
any place, and it is shut.  A match does not end within a word. -/
structure Pattern.Pays (p : Pattern) : Prop where
  /-- The replacement owes less than the match. -/
  due_lt {bound : Nat} {cur stop : Cursor} {caps : Captures} {m : List Char} :
    p.attempt bound cur = some (stop, caps) → cur.Leads m stop →
      ∀ before, due before (p.template.fill caps.textOf) < due cur.before m
  /-- The replacement is shut. -/
  shut {bound : Nat} {cur stop : Cursor} {caps : Captures} :
    p.attempt bound cur = some (stop, caps) →
      ∀ before, Shut ((p.template.fill caps.textOf).reverse ++ before)
  /-- The match does not end within a word. -/
  apart {bound : Nat} {cur stop : Cursor} {caps : Captures} :
    p.attempt bound cur = some (stop, caps) →
      stop.before.head?.any isWord = false ∨ stop.after.head?.any isWord = false

namespace Pattern

/-- Whether a replacement pays for reasons that can be read off the pattern: the template uses no
group twice and only outermost ones, these can be moved, and the expression has more signs than the
template. -/
def isPaying (p : Pattern) : Bool :=
  decide p.template.references.Nodup &&
    p.template.references.all (fun n => decide (n ∈ p.regex.outerGroups)) &&
    p.regex.isSpaced .any && isSettled p.regex .any p.template && p.regex.endsApart &&
    decide (plainSigns p.template < p.regex.floor .any)

theorem Regular.pays {p : Pattern} (hp : p.Regular) (h : p.isPaying = true) : p.Pays := by
  simp only [isPaying, Bool.and_eq_true, decide_eq_true_eq, List.all_eq_true] at h
  obtain ⟨⟨⟨⟨⟨hnodup, hsub⟩, hspaced⟩, hsettled⟩, hapart⟩, hplain⟩ := h
  have hany (before : List Char) : Edge.any.Holds before := trivial
  constructor
  · intro bound cur stop caps m ha hl before
    obtain ⟨m', hl', hm⟩ := hp.reads ha
    obtain rfl : m = m' := by rw [← hl.upTo, hl'.upTo]
    have hmatch := hp.basic.floor_le hp.once hspaced (hany cur.before) hm
    have hfill := (due_fill_le hp.basic hm hsettled (hany before)).1
    have hgroups := groupDebt_le caps.textOf hnodup hsub
    omega
  · intro bound cur stop caps ha before
    obtain ⟨m, -, hm⟩ := hp.reads ha
    exact (due_fill_le hp.basic hm hsettled (hany before)).2
  · intro bound cur stop caps ha
    exact Regex.apart_of_endsApart hapart (List.mem_of_head? ha)

end Pattern

/-! ### Renamed functions

The pattern that renames a function has no sign to give up.  What counts in its match is the call,
and that only because the old name is a whole word there. -/

theorem Text.isForeign_append_of_isGap {gaps : List Char} (h : ∀ c ∈ gaps, isGap c = true)
    (x : List Char) : isForeign (gaps ++ x) = isForeign x := by
  simp only [isForeign, List.dropWhile_append_of_pos h]

namespace Catalog

theorem isGap_of_spells_gaps {ρ : Reading} {w : List Char} (h : (Regex.many gap).Spells ρ w) :
    ∀ c ∈ w, isGap c = true := by
  obtain ⟨ws, rfl, hws, -⟩ := h
  intro c hc
  obtain ⟨u, hu, hcu⟩ := List.mem_flatten.mp hc
  obtain ⟨d, hd, rfl⟩ := hws u hu
  rw [List.mem_singleton.mp hcu]
  simpa [CharClass.contains, ClassItem.contains, isGap] using hd

/-- What a renamed function leaves owes nothing. -/
theorem due_renamed {new : List Char} (hquiet : isQuiet [] new = true) (hsigns : signs new = 0)
    (hforeign : isForeign new.reverse = true) {gaps : List Char}
    (hgaps : ∀ c ∈ gaps, isGap c = true) (before : List Char) :
    due before (new ++ (gaps ++ ['('])) = 0 := by
  have hname : due before new = 0 := by
    have := due_le_signs hquiet before
    rw [List.nil_append] at this
    omega
  have hblank : ∀ b, due b gaps = 0 := by
    induction gaps with
    | nil => exact fun _ => rfl
    | cons c gaps ih =>
      intro b
      have hc := hgaps c List.mem_cons_self
      simp only [isGap, Bool.or_eq_true, beq_iff_eq] at hc
      rw [due_cons, ih fun d hd => hgaps d (List.mem_cons_of_mem _ hd)]
      rcases hc with rfl | rfl <;> simp [isDue]
  have hcall : isDue (gaps.reverse ++ (new.reverse ++ before)) '(' = false := by
    have hrev : ∀ c ∈ gaps.reverse, isGap c = true := fun c hc => hgaps c (List.mem_reverse.mp hc)
    have := endsInOldName_of_isForeign
      ((isForeign_append_of_isGap hrev new.reverse).trans hforeign) before
    rw [List.append_assoc] at this
    simp [isDue, this]
  rw [due_append, due_append, due_cons, hname, hblank, hcall]
  rfl

/-- A call of an old function counts. -/
theorem due_call_pos {old : String} (hold : old ∈ oldNames) {gaps : List Char}
    (hgaps : ∀ c ∈ gaps, isGap c = true) {before : List Char}
    (hbefore : before.head?.any isWord = false) :
    0 < due before (old.toList ++ (gaps ++ ['('])) := by
  have hrev : ∀ c ∈ gaps.reverse, isGap c = true := fun c hc => hgaps c (List.mem_reverse.mp hc)
  have hname : endsInOldName (gaps.reverse ++ (old.toList.reverse ++ before)) = true := by
    refine endsInOldName_iff.mpr ⟨old, hold, before, ?_, hbefore⟩
    rw [List.dropWhile_append_of_pos hrev]
    have hall : oldNames.all (fun name => name.toList.reverse.head?.any (!isGap ·)) = true := by
      decide +kernel
    have hhead := List.all_eq_true.mp hall old hold
    revert hhead
    cases old.toList.reverse with
    | nil => simp
    | cons c rest =>
      intro hc
      exact List.dropWhile_cons_of_neg (by simpa using hc)
  have hcall : isDue (gaps.reverse ++ (old.toList.reverse ++ before)) '(' = true := by
    simp [isDue, hname]
  rw [due_append, due_append, due_cons, hcall, Bool.toNat_true]
  omega

section RenameCall

variable {old new : String} {bound : Nat} {cur stop : Cursor} {caps : Captures}

/-- A match of a renaming is the old name, gaps and a parenthesis; the last two are kept. -/
theorem leads_of_attempt_renameCall (hregular : (renameCall old new).Regular)
    (ha : (renameCall old new).attempt bound cur = some (stop, caps)) :
    ∃ gaps, (∀ c ∈ gaps, isGap c = true) ∧ cur.Leads (old.toList ++ (gaps ++ ['('])) stop ∧
      (renameCall old new).template.fill caps.textOf = new.toList ++ (gaps ++ ['(']) := by
  obtain ⟨m, hl, hm⟩ := hregular.reads ha
  obtain ⟨u, v, rfl, hu, hset, x, y, rfl, hx, rfl⟩ := hm
  obtain ⟨u₁, u₂, rfl, ⟨u₃, u₄, rfl, rfl, hname⟩, rfl⟩ := hu
  obtain rfl := Regex.spells_literal.mp hname
  refine ⟨x, isGap_of_spells_gaps hx, by simpa using hl, ?_⟩
  have hcall : caps.textOf "call" = some (x ++ ['(']) := hset
  simp [renameCall, Pattern.ofRegex, Template.fill, hcall]

/-- A match of a renaming starts at the edge of a word. -/
theorem wordEdge_of_attempt_renameCall
    (ha : (renameCall old new).attempt bound cur = some (stop, caps)) :
    Anchor.wordEdge.holds cur = true := by
  have hmem : (stop, caps) ∈ (renameCall old new).regex.ways ⟨none, bound, none⟩ cur [] :=
    List.mem_of_head? ha
  simp only [renameCall, Pattern.ofRegex, HAppend.hAppend, Append.append, Regex.ways,
    Regex.wordEdge, List.mem_flatMap, Way.provided] at hmem
  obtain ⟨_, ⟨_, ⟨_, h, _⟩, _⟩, _⟩ := hmem
  by_contra hno
  simp [hno] at h

end RenameCall

/-- A renamed function pays. -/
theorem renameCall_pays {old new : String} (hregular : (renameCall old new).Regular)
    (hold : old ∈ oldNames) (hquiet : isQuiet [] new.toList = true)
    (hsigns : signs new.toList = 0) (hforeign : isForeign new.toList.reverse = true) :
    (renameCall old new).Pays := by
  constructor
  · intro bound cur stop caps m ha hl before
    obtain ⟨gaps, hgaps, hl', hfill⟩ := leads_of_attempt_renameCall hregular ha
    obtain rfl : m = old.toList ++ (gaps ++ ['(']) := by rw [← hl.upTo, hl'.upTo]
    rw [hfill, due_renamed hquiet hsigns hforeign hgaps]
    refine due_call_pos hold hgaps ?_
    -- The match starts at the edge of a word, with a character of the old name.
    have hedge := wordEdge_of_attempt_renameCall ha
    have hhead : cur.after.head?.any isWord = true := by
      have hall : oldNames.all (fun name => name.toList.head?.any isWord) = true := by
        decide +kernel
      have hfirst := List.all_eq_true.mp hall old hold
      rw [hl.after]
      revert hfirst
      cases old.toList <;> simp
    simpa [Anchor.holds, hhead] using hedge
  · intro bound cur stop caps ha before
    obtain ⟨gaps, -, -, hfill⟩ := leads_of_attempt_renameCall hregular ha
    rw [hfill]
    have hparen : isShutBehind ['('] = true := by decide +kernel
    simpa using shut_of_isShutBehind hparen (gaps.reverse ++ (new.toList.reverse ++ before))
  · intro bound cur stop caps ha
    exact Regex.apart_of_endsApart rfl (List.mem_of_head? ha)

/-- The rules that rename functions. -/
def renamings : List Rule := [objectNew, memoryFamily, objectFamily]

theorem exists_renameCall {rule : Rule} (hr : rule ∈ renamings) {p : Pattern}
    (hp : p ∈ rule.patterns) : ∃ old new, p = renameCall old new ∧ old ∈ oldNames ∧
      isQuiet [] new.toList = true ∧ signs new.toList = 0 ∧
        isForeign new.toList.reverse = true := by
  have hclean : ["PyMem", "PyObject"].all (fun family => familyNames.all fun names =>
      decide (family ++ "_" ++ names.1 ∈ oldNames) &&
        isQuiet [] (family ++ "_" ++ names.2).toList &&
        decide (signs (family ++ "_" ++ names.2).toList = 0) &&
        isForeign (family ++ "_" ++ names.2).toList.reverse) = true := by decide +kernel
  simp only [List.all_eq_true, Bool.and_eq_true, decide_eq_true_eq] at hclean
  have hfamily : ∀ family ∈ ["PyMem", "PyObject"], p ∈ renameFamily family →
      ∃ old new, p = renameCall old new ∧ old ∈ oldNames ∧ isQuiet [] new.toList = true ∧
        signs new.toList = 0 ∧ isForeign new.toList.reverse = true := by
    intro family hmem hp
    obtain ⟨names, hnames, rfl⟩ := List.mem_map.mp hp
    obtain ⟨⟨⟨hold, hquiet⟩, hsigns⟩, hforeign⟩ := hclean family hmem names hnames
    exact ⟨_, _, rfl, hold, hquiet, hsigns, hforeign⟩
  simp only [renamings, List.mem_cons, List.not_mem_nil, or_false] at hr
  rcases hr with rfl | rfl | rfl
  · rcases List.mem_pair.mp hp with rfl | rfl
    · exact ⟨"PyObject_NEW", "PyObject_New", rfl, by decide +kernel⟩
    · exact ⟨"PyObject_NEW_VAR", "PyObject_NewVar", rfl, by decide +kernel⟩
  · exact hfamily "PyMem" (by simp) hp
  · exact hfamily "PyObject" (by simp) hp

/-- **Every replacement of the catalog pays.** -/
theorem pays {rule : Rule} (hr : rule ∈ rules) {p : Pattern} (hp : p ∈ rule.patterns) :
    p.Pays := by
  have hregular := regular hr hp
  have hsplit : rules = rules.take 6 ++ (renamings ++ rules.drop 9) := rfl
  have hothers : (rules.take 6 ++ rules.drop 9).all (fun rule =>
      rule.patterns.all Pattern.isPaying) = true := by decide +kernel
  rw [List.all_eq_true] at hothers
  by_cases hrename : rule ∈ renamings
  · obtain ⟨old, new, rfl, hold, hquiet, hsigns, hforeign⟩ := exists_renameCall hrename hp
    exact renameCall_pays hregular hold hquiet hsigns hforeign
  · have hmem : rule ∈ rules.take 6 ++ rules.drop 9 := by
      rw [hsplit] at hr
      simp only [List.mem_append, hrename, false_or] at hr ⊢
      exact hr
    exact hregular.pays (List.all_eq_true.mp (hothers rule hmem) p hp)

end Catalog

/-! ### Passes -/

/-- Every match of a pass pays, and so does the pass as a whole. -/
theorem Pattern.Pass.due_le {p : Pattern} {bound : Nat} {cur : Cursor} {hits : List Hit}
    {out : List Char} (h : p.Pass bound cur hits out) (hp : p.Regular) (hpays : p.Pays)
    {before : List Char} (hbefore : Eases before cur.before cur.after) :
    due before out + hits.length ≤ due cur.before cur.after := by
  induction h generalizing before with
  | done => simp
  | @skip cur next x hits out _ hn _ ih =>
    have hl := Cursor.leads_of_next? hn
    have hbehind : next.before = x :: cur.before := hl.before
    rw [hl.after, List.singleton_append] at hbefore ⊢
    have hfirst : (isDue before x).toNat ≤ (isDue cur.before x).toNat :=
      Bool.toNat_le_toNat (hbefore [] x next.after rfl)
    have hrest := ih (hbehind ▸ hbefore.cons)
    rw [hbehind] at hrest
    rw [due_cons, due_cons]
    omega
  | @hit cur stop caps hits out ha _ ih =>
    obtain ⟨m, hl, -⟩ := hp.reads ha
    have hlt := hpays.due_lt ha hl before
    have hshut := hpays.shut ha before
    have hnext :
        Eases ((p.template.fill caps.textOf).reverse ++ before) stop.before stop.after := by
      rcases hpays.apart ha with h | h
      · exact hshut.eases h stop.after
      · exact hshut.eases_of_head stop.before h
    have hrest := ih hnext
    rw [hl.before] at hrest
    rw [hl.after, due_append, due_append, List.length_cons]
    omega

/-- **Every match of a pass over a text takes something off its debt.** -/
theorem Pattern.Pass.debt_le {p : Pattern} {bound : Nat} {text : List Char} {hits : List Hit}
    {out : List Char} (h : p.Pass bound (Cursor.ofText text) hits out) (hp : p.Regular)
    (hpays : p.Pays) : debt out + hits.length ≤ debt text := by
  rw [debt_eq_due, debt_eq_due]
  exact h.due_le hp hpays (Eases.refl _ _)

/-! ### Rules -/

/-- Patterns that are applied one after another lower the debt, unless none matches. -/
theorem Pattern.debt_le_of_applyAll {ps : List Pattern} (hps : ∀ p ∈ ps, p.Regular ∧ p.Pays)
    {text out : List Char} (h : applyAll ps text = .ok out) :
    debt out ≤ debt text ∧ (debt out = debt text → ∀ p ∈ ps, p.hits text = .ok []) := by
  induction ps generalizing text with
  | nil =>
    rw [applyAll_nil, Except.ok.injEq] at h
    simp [h]
  | cons p ps ih =>
    obtain ⟨o, ho, hrest⟩ := applyAll_cons_eq_ok.mp h
    obtain ⟨hp, hpays⟩ := hps p List.mem_cons_self
    obtain ⟨hits, hhits, hnone, hpass⟩ := hp.pass_of_apply ho
    have hfirst := hpass.debt_le hp hpays
    obtain ⟨hle, hnil⟩ := ih (fun q hq => hps q (List.mem_cons_of_mem _ hq)) hrest
    refine ⟨by omega, fun heq => ?_⟩
    have hempty : hits = [] := List.length_eq_zero_iff.mp (by omega)
    rw [hnone.mpr hempty, Option.getD_none] at hnil
    intro q hq
    rcases List.mem_cons.mp hq with rfl | hq
    · rw [hhits, hempty]
    · exact hnil heq q hq

theorem Pattern.applyAll_eq_self {ps : List Pattern} {text : List Char}
    (h : ∀ p ∈ ps, p.hits text = .ok []) : applyAll ps text = .ok text := by
  induction ps with
  | nil => rfl
  | cons p ps ih =>
    have hp : p.apply text = .ok none := by
      rw [Pattern.apply, h p List.mem_cons_self]
      rfl
    exact applyAll_cons_eq_ok.mpr ⟨none, hp, ih fun q hq => h q (List.mem_cons_of_mem _ hq)⟩

namespace Rule

variable {rule : Rule} {text out : List Char}

/-- A rule of the catalog raises no debt. -/
theorem debt_le_of_apply (hr : rule ∈ Catalog.rules) (h : rule.apply text = .ok out) :
    debt out ≤ debt text :=
  (Pattern.debt_le_of_applyAll (fun _ hp => ⟨Catalog.regular hr hp, Catalog.pays hr hp⟩) h).1

/-- **No silent match.**  A rule of the catalog leaves a text as it is iff no pattern of the rule
matches anywhere in it. -/
theorem apply_eq_self_iff (hr : rule ∈ Catalog.rules) :
    rule.apply text = .ok text ↔ ∀ p ∈ rule.patterns, p.hits text = .ok [] := by
  constructor
  · intro h
    exact (Pattern.debt_le_of_applyAll
      (fun p hp => ⟨Catalog.regular hr hp, Catalog.pays hr hp⟩) h).2 rfl
  · exact Pattern.applyAll_eq_self

/-- A rule of the catalog that changes a text lowers its debt. -/
theorem debt_lt_of_apply (hr : rule ∈ Catalog.rules) (h : rule.apply text = .ok out)
    (hne : out ≠ text) : debt out < debt text := by
  refine lt_of_le_of_ne (debt_le_of_apply hr h) fun heq => hne ?_
  have hnone := (Pattern.debt_le_of_applyAll
    (fun p hp => ⟨Catalog.regular hr hp, Catalog.pays hr hp⟩) h).2 heq
  rw [(apply_eq_self_iff hr).mpr hnone, Except.ok.injEq] at h
  exact h.symm

end Rule

end CApiUpgrade
