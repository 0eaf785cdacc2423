import CApiUpgrade.Proofs.Agreement
import CApiUpgrade.Proofs.Debt

/-!
# What stands in front of a part of a match

Whether a part of a text counts towards its debt depends on the text in front of it.  `Regex.edge`
follows what is known of that text through an expression, and `Regex.isBracketed` finds the
expressions whose matches count the same wherever they stand.
-/

namespace CApiUpgrade

open Text

/-- Blanks are no word characters. -/
theorem Text.isWord_of_isBlank {c : Char} (h : isBlank c = true) : isWord c = false := by
  let codes := List.range' 0x9 5 ++ List.range' 0x2000 11 ++
    [0x20, 0x85, 0xa0, 0x1680, 0x2028, 0x2029, 0x202f, 0x205f, 0x3000]
  have hmem : c.toNat ∈ codes := by
    simp only [isBlank, Bool.or_eq_true, Bool.and_eq_true, decide_eq_true_eq, beq_iff_eq] at h
    simp only [codes, List.mem_append, List.mem_range'_1, List.mem_cons, List.not_mem_nil]
    omega
  -- There are few blanks: they are listed by their codes and looked at one by one.
  have hall : codes.all (fun n => !isWord (Char.ofNat n)) = true := by decide +kernel
  have := List.all_eq_true.mp hall _ hmem
  simpa [Char.ofNat_toNat] using this

/-! ### What stands in front -/

/-- What is known of the text in front of a position. -/
inductive Edge where
  /-- Nothing. -/
  | any
  /-- It does not end in a word character. -/
  | apart
  /-- It ends in a dash. -/
  | dash
  /-- It is shut. -/
  | shut
  deriving DecidableEq

namespace Edge

/-- What is known holds of a text in front. -/
def Holds : Edge → List Char → Prop
  | any, _ => True
  | apart, before => before.head?.any isWord = false
  | dash, before => before.head? = some '-'
  | shut, before => Shut before

/-- Everything but `any` says that no word character stands in front. -/
theorem Holds.apart {e : Edge} {before : List Char} (h : e.Holds before) (he : e ≠ any) :
    before.head?.any isWord = false := by
  cases e with
  | any => exact absurd rfl he
  | apart => exact h
  | dash =>
    have hdash : before.head? = some '-' := h
    rw [hdash]
    decide
  | shut => exact Shut.apart h

/-- What is known if one of two things is. -/
def join (e e' : Edge) : Edge :=
  if e = e' then e else if e = any ∨ e' = any then any else apart

/-- What is known of one of two texts holds of the first one. -/
theorem Holds.join_left {e : Edge} {before : List Char} (h : e.Holds before) (e' : Edge) :
    (e.join e').Holds before := by
  unfold join
  split_ifs with heq hany
  · exact h
  · trivial
  · exact h.apart fun he => hany (.inl he)

theorem Holds.join_right {e' : Edge} {before : List Char} (h : e'.Holds before) (e : Edge) :
    (e.join e').Holds before := by
  unfold join
  split_ifs with heq hany
  · exact heq ▸ h
  · trivial
  · exact h.apart fun he => hany (.inr he)

/-- What is known between rounds that each take what is known in front of them to `f`: what another
round does not change. -/
def between (f : Edge → Edge) (e : Edge) : Edge :=
  let once := e.join (f e)
  if once.join (f once) = once then once else any

/-- What is known between rounds is known in front of the first one. -/
theorem Holds.between {e : Edge} {before : List Char} (h : e.Holds before) (f : Edge → Edge) :
    (e.between f).Holds before := by
  simp only [Edge.between]
  split_ifs
  · exact h.join_left _
  · trivial

/-- Another round keeps what is known between the rounds. -/
theorem Holds.between_step {e : Edge} {f : Edge → Edge} {before : List Char}
    (h : (f (e.between f)).Holds before) : (e.between f).Holds before := by
  simp only [Edge.between] at h ⊢
  split_ifs at h ⊢ with hstable
  · rw [← hstable]
    exact h.join_right _
  · trivial

/-- What is known behind a blank character. -/
def blank (e : Edge) : Edge := if e = shut then shut else apart

/-- A blank character leaves a text shut if it was shut before, and sets it apart in any case. -/
theorem Holds.blank {e : Edge} {before : List Char} (h : e.Holds before) {c : Char}
    (hc : isBlank c = true) : e.blank.Holds (c :: before) := by
  have hword := isWord_of_isBlank hc
  have hapart : (c :: before).head?.any isWord = false := by simpa using hword
  unfold Edge.blank
  split_ifs with he
  · subst he
    refine ⟨hapart, ?_, ?_⟩
    · rintro ⟨⟩
      simp [isBlank] at hc
    -- A gap does not end a name that stands in front of it, and any other blank ends all names.
    · by_cases hgap : isGap c = true
      · rw [endsInOldName_cons_of_isGap hgap]
        exact Shut.noName h
      · exact endsInOldName_cons_of_apart (by simpa using hgap) hword before
  · exact hapart

/-- What is known behind a given character. -/
def next (e : Edge) (c : Char) : Edge :=
  if isGap c then e.blank else if isWord c then any else if c = '-' then dash else shut

theorem Holds.next {e : Edge} {before : List Char} (h : e.Holds before) (c : Char) :
    (e.next c).Holds (c :: before) := by
  unfold Edge.next
  split_ifs with hgap hword hdash
  · refine h.blank ?_
    simp only [isGap, Bool.or_eq_true, beq_iff_eq] at hgap
    rcases hgap with rfl | rfl <;> decide
  · trivial
  · subst hdash
    rfl
  · have hgap : isGap c = false := by simpa using hgap
    have hword : isWord c = false := by simpa using hword
    refine ⟨by simpa using hword, ?_, endsInOldName_cons_of_apart hgap hword before⟩
    rintro ⟨⟩
    exact hdash rfl

/-- What is known behind a character of an item of a class. -/
def nextItem (e : Edge) : ClassItem → Edge
  | .category .blank false => e.blank
  | .char c => e.next c
  | _ => any

theorem Holds.nextItem {e : Edge} {before : List Char} (h : e.Holds before) {item : ClassItem}
    {c : Char} (hc : item.contains c = true) : (e.nextItem item).Holds (c :: before) := by
  unfold Edge.nextItem
  split
  · simp only [ClassItem.contains, Category.contains, bne_iff_ne, ne_eq, Bool.not_eq_false] at hc
    exact h.blank hc
  · rw [ClassItem.contains, beq_iff_eq] at hc
    exact hc ▸ h.next c
  · trivial

/-- What is known behind a character of some items of a class. -/
def nextItems (e : Edge) : List ClassItem → Edge
  | [] => any
  | [item] => e.nextItem item
  | item :: rest => (e.nextItem item).join (e.nextItems rest)

/-- What is known behind a character of a class is what is known behind each of its items. -/
theorem Holds.nextItems {e : Edge} {before : List Char} (h : e.Holds before)
    {items : List ClassItem} {c : Char} (hc : items.any (·.contains c) = true) :
    (e.nextItems items).Holds (c :: before) := by
  fun_induction Edge.nextItems e items with
  | case1 => trivial
  | case2 item => exact h.nextItem (by simpa using hc)
  | case3 item rest _ ih =>
    rw [List.any_cons, Bool.or_eq_true] at hc
    rcases hc with hc | hc
    · exact (h.nextItem hc).join_left _
    · exact (ih hc).join_right _

end Edge

namespace Regex

/-- What is known behind a match, given what is known in front of it. -/
def edge : (e : Edge) → Regex → Edge
  | e, empty | e, anchor _ | e, look _ _ _ => e
  | e, char c => e.next c
  | e, oneOf cls => if cls.negated then .any else e.nextItems cls.items
  | e, category kind negated => e.nextItem (.category kind negated)
  | e, cat a b => edge (edge e a) b
  | e, alt a b => (edge e a).join (edge e b)
  | e, group _ body => edge e body
  | e, repeated body least _ _ =>
    let between := e.between fun e => edge e body
    if least = 0 then between else edge between body
  | _, _ => .any

/-- What is known behind a match holds there, if what is known in front of it does. -/
theorem Basic.holds_edge {r : Regex} (hr : r.Basic) {ρ : Reading} {w before : List Char} {e : Edge}
    (hw : r.Spells ρ w) (h : e.Holds before) : (r.edge e).Holds (w.reverse ++ before) := by
  induction hr generalizing e w before with
  | @one r p hp =>
    obtain ⟨c, hc, rfl⟩ := (spells_of_takes? hp).mp hw
    cases r with
    | char d =>
      simp only [takes?, Option.some.injEq] at hp
      subst hp
      rw [beq_iff_eq.mp hc]
      exact h.next d
    | oneOf cls =>
      obtain ⟨negated, items⟩ := cls
      simp only [takes?, Option.some.injEq] at hp
      subst hp
      cases negated with
      | true => trivial
      | false => exact h.nextItems (by simpa [CharClass.contains] using hc)
    | category kind negated =>
      simp only [takes?, Option.some.injEq] at hp
      subst hp
      exact h.nextItem hc
    | any newline => trivial
    | _ => simp [takes?] at hp
  | cat _ _ iha ihb =>
    obtain ⟨u, v, rfl, hu, hv⟩ := hw
    rw [List.reverse_append, List.append_assoc]
    exact ihb hv (iha hu h)
  | alt _ _ iha ihb =>
    rcases hw with ⟨hw, -⟩ | ⟨hw, -⟩
    · exact (iha hw h).join_left _
    · exact (ihb hw h).join_right _
  | group name _ ih => exact ih hw.2 h
  | @repeated body least most greedy _ ih =>
    obtain ⟨ws, rfl, hws, hleast, -⟩ := hw
    -- Round by round, from the last one back to the first.
    have hbetween : ∀ ws : List (List Char), (∀ u ∈ ws, body.Spells ρ u) →
        (e.between fun e => edge e body).Holds (ws.flatten.reverse ++ before) := by
      intro ws
      induction ws using List.reverseRecOn with
      | nil => exact fun _ => h.between _
      | append_singleton ws u ihr =>
        intro hws
        have hround := ih (hws u (by simp)) (ihr fun v hv => hws v (by simp [hv]))
        rw [List.flatten_append, List.reverse_append, List.append_assoc]
        exact Edge.Holds.between_step (by simpa using hround)
    rw [edge]
    split_ifs with h0
    · exact hbetween ws hws
    · rcases List.eq_nil_or_concat ws with rfl | ⟨ws, u, rfl⟩
      · exact absurd (Nat.le_zero.mp hleast) h0
      · have := ih (hws u (by simp)) (hbetween ws fun v hv => hws v (by simp [hv]))
        simpa using this
  | backReference name => trivial
  | _ =>
    rw [Spells] at hw
    subst hw
    exact h

/-! ### Bracketed expressions -/

/-- Whether every match holds an opening bracket. -/
def opens : Regex → Bool
  | char c => c == '['
  | cat a b => a.opens || b.opens
  | _ => false

/-- Whether no match holds an opening parenthesis, except behind an opening bracket.  With `opened`
set, there is a bracket in front of the match. -/
def parensInside : (opened : Bool) → Regex → Bool
  | _, empty | _, anchor _ | _, look _ _ _ => true
  | opened, char c => opened || c != '('
  | opened, oneOf cls => opened || !cls.contains '('
  | opened, category kind negated => opened || kind.contains '(' == negated
  | opened, cat a b => a.parensInside opened && b.parensInside (opened || a.opens)
  | opened, alt a b => a.parensInside opened && b.parensInside opened
  | opened, group _ body | opened, repeated body _ _ _ => body.parensInside opened
  | _, _ => false

/-- Whether every match is bracketed. -/
def isBracketed (r : Regex) : Bool :=
  r.parensInside false && !(r.advance ['>'] 1).testBit 1

theorem mem_of_opens {r : Regex} (hr : r.Basic) (hopens : r.opens = true) {ρ : Reading}
    {w : List Char} (hw : r.Spells ρ w) : '[' ∈ w := by
  induction hr generalizing w with
  | @one r p hp =>
    obtain ⟨c, hc, rfl⟩ := (spells_of_takes? hp).mp hw
    cases r with
    | char d =>
      simp only [takes?, Option.some.injEq] at hp
      simp only [opens, beq_iff_eq] at hopens
      subst hp hopens
      simp [beq_iff_eq.mp hc]
    | _ => simp_all [opens, takes?]
  | cat _ _ iha ihb =>
    -- The bracket may be in either part.
    obtain ⟨u, v, rfl, hu, hv⟩ := hw
    rw [opens, Bool.or_eq_true] at hopens
    rw [List.mem_append]
    exact hopens.imp (fun h => iha h hu) fun h => ihb h hv
  | _ => simp [opens] at hopens

/-- In front of an opening parenthesis in a match stands an opening bracket, in the match or before
it. -/
theorem Basic.mem_of_parensInside {r : Regex} (hr : r.Basic) {opened : Bool}
    (hin : r.parensInside opened = true) {ρ : Reading} {w : List Char} (hw : r.Spells ρ w)
    {u v : List Char} (heq : w = u ++ '(' :: v) : opened = true ∨ '[' ∈ u := by
  induction hr generalizing opened w u v with
  | @one r p hp =>
    obtain ⟨c, hc, rfl⟩ := (spells_of_takes? hp).mp hw
    obtain ⟨rfl, rfl, rfl⟩ : u = [] ∧ c = '(' ∧ v = [] := by
      cases u <;> simp_all
    cases r with
    | char d =>
      simp only [takes?, Option.some.injEq] at hp
      subst hp
      rw [beq_iff_eq] at hc
      subst hc
      simpa [parensInside] using hin
    | oneOf | category | any =>
      simp only [takes?, Option.some.injEq] at hp
      subst hp
      simp_all [parensInside]
    | _ => simp [takes?] at hp
  | @cat a b ha hb iha ihb =>
    obtain ⟨x, y, rfl, hx, hy⟩ := hw
    rw [parensInside, Bool.and_eq_true] at hin
    -- The parenthesis is in the first part, or in the second one behind all of the first.
    rcases append_eq_append_cons heq with ⟨z, rfl, -⟩ | ⟨z, rfl, hz⟩
    · exact iha hin.1 hx rfl
    · rcases ihb hin.2 hy hz with h | h
      · refine (Bool.or_eq_true _ _ ▸ h).imp_right fun h => ?_
        exact List.mem_append_left z (mem_of_opens ha h hx)
      · exact .inr (List.mem_append_right x h)
  | alt _ _ iha ihb =>
    rw [parensInside, Bool.and_eq_true] at hin
    rcases hw with ⟨hw, -⟩ | ⟨hw, -⟩
    · exact iha hin.1 hw heq
    · exact ihb hin.2 hw heq
  | group name _ ih => exact ih hin hw.2 heq
  | @repeated body least most greedy _ ih =>
    obtain ⟨ws, rfl, hws, -⟩ := hw
    rw [parensInside] at hin
    -- In the round with the parenthesis.
    clear * - ih hin hws heq
    induction ws generalizing u with
    | nil => simp at heq
    | cons x ws ihr =>
      rw [List.flatten_cons] at heq
      rcases append_eq_append_cons heq with ⟨z, hz, -⟩ | ⟨z, rfl, hz⟩
      · exact ih hin (hws x List.mem_cons_self) hz
      · refine (ihr hz fun v hv => hws v (List.mem_cons_of_mem _ hv)).imp_right fun h => ?_
        exact List.mem_append_right x h
  | backReference name => simp [parensInside] at hin
  | _ =>
    rw [Spells] at hw
    simp [hw] at heq

/-- The matches of bracketed expressions are bracketed. -/
theorem Basic.bracketed {r : Regex} (hr : r.Basic) (h : r.isBracketed = true) {ρ : Reading}
    {w : List Char} (hw : r.Spells ρ w) : Bracketed w := by
  rw [isBracketed, Bool.and_eq_true, Bool.not_eq_true'] at h
  constructor
  · intro hhead
    obtain ⟨rest, rfl⟩ := List.head?_eq_some_iff.mp hhead
    have hstart : Agree ('>' :: rest) (['>'].drop 0) := .inl (List.prefix_append ['>'] rest)
    have hend := hr.testBit_advance hw (Nat.zero_le _) (Nat.testBit_one_zero) hstart
    simp [landing, h.2] at hend
  · intro u v heq
    simpa using hr.mem_of_parensInside h.1 hw heq

end Regex

end CApiUpgrade
