import CApiUpgrade.Proofs.FirstWays
import CApiUpgrade.Proofs.Stores

/-!
# Parentheses around blanks

A text is *tight* if no pair of parentheses holds blank characters and nothing else.  Whether a text
is tight can be seen from left to right: `Text.Opened` remembers what there is since the last
opening parenthesis.

Stores leave a tight text tight (`Pattern.Pass.tight_of_store`).  The object and the value of a
store come between new parentheses, and the value does not end in a blank, because its group takes
as little as possible and blanks may follow it.
-/

namespace CApiUpgrade

/-! ### Tight texts -/

namespace Text

/-- No opening parenthesis is followed by blank characters and then a closing one. -/
def Tight (text : List Char) : Prop :=
  ∀ u gap v, text = u ++ '(' :: (gap ++ ')' :: v) → (∀ c ∈ gap, isBlank c = true) → gap = []

/-- What stands in front of a position. -/
inductive Opened where
  /-- No opening parenthesis, or something in it. -/
  | no
  /-- An opening parenthesis. -/
  | bare
  /-- An opening parenthesis and blanks. -/
  | padded
  deriving DecidableEq

namespace Opened

/-- What stands in front of the next position.  There is no answer behind a closing parenthesis if
nothing but blanks stands between it and the opening one. -/
def next (s : Opened) (c : Char) : Option Opened :=
  if c = '(' then some bare
  else if isBlank c then some (if s = no then no else padded)
  else if c = ')' ∧ s = padded then none
  else some no

/-- What stands in front of a position further on. -/
def scan (s : Opened) (text : List Char) : Option Opened := text.foldlM next s

variable {s t : Opened} {c : Char} {u v w gap : List Char}

@[simp]
theorem scan_nil (s : Opened) : s.scan [] = some s := rfl

@[simp]
theorem scan_cons (s : Opened) (c : Char) (w : List Char) :
    s.scan (c :: w) = (s.next c).bind fun t => t.scan w := rfl

theorem scan_append (s : Opened) (u v : List Char) :
    s.scan (u ++ v) = (s.scan u).bind fun t => t.scan v := by
  rw [scan, List.foldlM_append]
  rfl

/-- A text that can be read in two parts. -/
theorem scan_append_eq_some :
    s.scan (u ++ v) = some t ↔ ∃ r, s.scan u = some r ∧ r.scan v = some t := by
  rw [scan_append, Option.bind_eq_some_iff]

@[simp]
theorem next_open (s : Opened) : s.next '(' = some bare := rfl

/-- All that a character can do. -/
theorem next_eq_some : s.next c = some t ↔
    (c = '(' ∧ t = bare) ∨ (isBlank c = true ∧ t = if s = no then no else padded) ∨
      (c ≠ '(' ∧ isBlank c = false ∧ (c = ')' → s ≠ padded) ∧ t = no) := by
  have hparen : isBlank '(' = false := by decide
  rw [next]
  by_cases hopen : c = '('
  · subst hopen
    simp [hparen, @eq_comm _ bare]
  · by_cases hblank : isBlank c = true
    · simp [hopen, hblank, @eq_comm _ _ t]
    · by_cases hclose : c = ')' ∧ s = padded
      · rw [hclose.1] at hblank
        simp [hclose, hblank]
      · have hfills : c = ')' → s ≠ padded := fun h h' => hclose ⟨h, h'⟩
        simp only [hopen, hblank, hclose, not_false_eq_true, true_and, false_and,
          false_or, if_false, Option.some.injEq, @eq_comm _ no, ne_eq, Bool.false_eq_true]
        exact ⟨fun h => ⟨hfills, h⟩, And.right⟩

theorem next_of_isBlank (hc : isBlank c = true) :
    s.next c = some (if s = no then no else padded) :=
  next_eq_some.mpr (.inr (.inl ⟨hc, rfl⟩))

/-- Any other character fills the parentheses. -/
theorem next_of_other (hopen : c ≠ '(') (hc : isBlank c = false) (hclose : c ≠ ')') :
    s.next c = some no :=
  next_eq_some.mpr (.inr (.inr ⟨hopen, hc, fun h => absurd h hclose, rfl⟩))

theorem next_close (hs : s ≠ padded) : s.next ')' = some no :=
  next_eq_some.mpr (.inr (.inr ⟨by decide, by decide, fun _ => hs, rfl⟩))

theorem scan_no_blanks (hgap : ∀ c ∈ gap, isBlank c = true) : no.scan gap = some no := by
  induction gap with
  | nil => rfl
  | cons c gap ih =>
    rw [scan_cons, next_of_isBlank (hgap c List.mem_cons_self)]
    exact ih fun d hd => hgap d (List.mem_cons_of_mem c hd)

theorem scan_padded_blanks (hgap : ∀ c ∈ gap, isBlank c = true) :
    padded.scan gap = some padded := by
  induction gap with
  | nil => rfl
  | cons c gap ih =>
    rw [scan_cons, next_of_isBlank (hgap c List.mem_cons_self)]
    exact ih fun d hd => hgap d (List.mem_cons_of_mem c hd)

/-- Blanks can be read anywhere. -/
theorem exists_scan_blanks (s : Opened) (hgap : ∀ c ∈ gap, isBlank c = true) :
    ∃ t, s.scan gap = some t ∧ (s = no → t = no) ∧ (gap ≠ [] → s ≠ no → t = padded) := by
  cases gap with
  | nil => exact ⟨s, rfl, id, fun h => absurd rfl h⟩
  | cons c gap =>
    rw [List.forall_mem_cons] at hgap
    by_cases hs : s = no
    · exact ⟨no, by rw [hs]; exact scan_no_blanks (List.forall_mem_cons.mpr hgap), fun _ => rfl,
        fun _ h => absurd hs h⟩
    · refine ⟨padded, ?_, fun h => absurd h hs, fun _ _ => rfl⟩
      rw [scan_cons, next_of_isBlank hgap.1, if_neg hs]
      exact scan_padded_blanks hgap.2

theorem next_of_isIdentifierChar (hc : Catalog.isIdentifierChar c = true) : s.next c = some no := by
  refine next_of_other ?_ (Catalog.isBlank_of_isIdentifierChar hc) ?_ <;>
  · rintro rfl
    exact absurd hc (by decide)

/-- A word fills the parentheses. -/
theorem scan_word (s : Opened) (hne : w ≠ [])
    (hw : ∀ c ∈ w, Catalog.isIdentifierChar c = true) : s.scan w = some no := by
  induction w generalizing s with
  | nil => exact absurd rfl hne
  | cons c w ih =>
    rw [List.forall_mem_cons] at hw
    rw [scan_cons, next_of_isIdentifierChar hw.1, Option.bind_some]
    cases w with
    | nil => rfl
    | cons d w => exact ih no (by simp) hw.2

/-- What can be read behind an opening parenthesis and blanks can be read anywhere. -/
theorem exists_scan_of_padded (h : padded.scan w = some t) (s : Opened) :
    ∃ t', s.scan w = some t' := by
  induction w generalizing s with
  | nil => exact ⟨s, rfl⟩
  | cons c w ih =>
    obtain ⟨r, hr, hw⟩ := Option.bind_eq_some_iff.mp h
    -- A parenthesis or a plain character leads to one state from everywhere, a blank keeps the
    -- relation.
    rcases next_eq_some.mp hr with ⟨rfl, rfl⟩ | ⟨hc, rfl⟩ | ⟨hopen, hc, hclose, rfl⟩
    · exact ⟨t, hw⟩
    · rw [scan_cons, next_of_isBlank hc, Option.bind_some]
      exact ih hw _
    · rw [scan_cons, next_of_other hopen hc fun h => hclose h rfl]
      exact ⟨t, hw⟩

/-- No parenthesis is padded behind a text that does not end in a blank. -/
theorem ne_padded_of_scan (hne : w ≠ []) (hlast : ∀ c, w.getLast? = some c → isBlank c = false)
    (h : s.scan w = some t) : t ≠ padded := by
  obtain ⟨u, c, rfl⟩ := (List.eq_nil_or_concat' w).resolve_left hne
  obtain ⟨r, -, hr⟩ := scan_append_eq_some.mp h
  obtain ⟨r', hr', hend⟩ := Option.bind_eq_some_iff.mp hr
  obtain rfl : r' = t := Option.some.inj hend
  have hc := hlast c (by simp)
  rcases next_eq_some.mp hr' with ⟨-, rfl⟩ | ⟨hblank, -⟩ | ⟨-, -, -, rfl⟩
  · decide
  · simp [hc] at hblank
  · decide

/-- What a state says of the text in front. -/
def Holds : Opened → List Char → Prop
  | no, _ => True
  | bare, u => ∃ v, u = v ++ ['(']
  | padded, u => ∃ v gap, u = v ++ '(' :: gap ∧ gap ≠ [] ∧ ∀ c ∈ gap, isBlank c = true

end Opened

theorem Tight.of_append {u v : List Char} (h : Tight (u ++ v)) : Tight u :=
  fun w gap x hu => h w gap (x ++ v) (by rw [hu]; simp)

/-- A tight text can be read from left to right. -/
theorem Tight.exists_scan {text : List Char} (h : Tight text) :
    ∃ s, Opened.no.scan text = some s ∧ s.Holds text := by
  induction text using List.reverseRecOn with
  | nil => exact ⟨.no, rfl, trivial⟩
  | append_singleton text c ih =>
    obtain ⟨s, hscan, hholds⟩ := ih h.of_append
    have hread : ∀ {t : Opened}, s.next c = some t → Opened.no.scan (text ++ [c]) = some t :=
      fun hn => Opened.scan_append_eq_some.mpr ⟨s, hscan, by rw [Opened.scan_cons, hn]; rfl⟩
    by_cases hblank : isBlank c = true
    · refine ⟨_, hread (Opened.next_of_isBlank hblank), ?_⟩
      cases s with
      | no => trivial
      | bare =>
        obtain ⟨v, rfl⟩ := hholds
        exact ⟨v, [c], by simp, by simp, by simpa using hblank⟩
      | padded =>
        obtain ⟨v, gap, rfl, -, hgap⟩ := hholds
        refine ⟨v, gap ++ [c], by simp, by simp, ?_⟩
        rw [List.forall_mem_append, List.forall_mem_singleton]
        exact ⟨hgap, hblank⟩
    · by_cases hopen : c = '('
      · subst hopen
        exact ⟨_, hread (Opened.next_open s), text, rfl⟩
      · -- A closing parenthesis behind blanks would show that the text is not tight.
        have hs : c = ')' → s ≠ .padded := by
          rintro rfl rfl
          obtain ⟨v, gap, rfl, hne, hgap⟩ := hholds
          exact hne (h v gap [] (by simp) hgap)
        exact ⟨_,
          hread (Opened.next_eq_some.mpr (.inr (.inr ⟨hopen, by simpa using hblank, hs, rfl⟩))),
          trivial⟩

/-- A text is tight exactly if it can be read from left to right. -/
theorem tight_iff {text : List Char} : Tight text ↔ ∃ s, Opened.no.scan text = some s := by
  constructor
  · intro h
    obtain ⟨s, hs, -⟩ := h.exists_scan
    exact ⟨s, hs⟩
  · rintro ⟨s, hs⟩ u gap v rfl hgap
    by_contra hne
    obtain ⟨r, -, hrest⟩ := Opened.scan_append_eq_some.mp hs
    rw [Opened.scan_cons, Opened.next_open, Option.bind_some] at hrest
    obtain ⟨r', hr', hclose⟩ := Opened.scan_append_eq_some.mp hrest
    obtain ⟨t, ht, -, hpadded⟩ := Opened.exists_scan_blanks .bare hgap
    obtain rfl : t = r' := Option.some.inj (ht.symm.trans hr')
    obtain rfl := hpadded hne (by decide)
    rw [Opened.scan_cons, show Opened.padded.next ')' = none from rfl] at hclose
    simp at hclose

end Text

open Text

/-! ### The value of a store -/

namespace Catalog

open Regex

theorem ways_storedValue (terms : Terms) (c : Cursor) (caps : Captures) :
    storedValue.ways terms c caps =
      ((blanks ++ char '=' ++ blanks) ++ (group "value" assignedValue ++ (blanks ++ char ';'))).ways
        terms c caps := by
  simp only [storedValue, ways_append, List.flatMap_assoc]

/-- **The value of a store** is not empty, and it does not end in a blank. -/
theorem exists_value_of_head? {R : Regex} (hR : R.Basic) {terms : Terms} {c : Cursor} {w : Way}
    (hroom : c.after.length ≤ terms.bound) (h : w ∈ ((R ++ storedValue).ways terms c []).head?) :
    ∃ value, w.2.textOf "value" = some value ∧ value ≠ [] ∧
      ∀ x, value.getLast? = some x → isBlank x = false := by
  -- Part by part: what stands in front of the value, its first character, and the rest of it.
  rw [ways_append] at h
  obtain ⟨v, hv, hw⟩ := exists_of_head?_flatMap h
  obtain ⟨u, hu⟩ := hR.leads_of_mem_ways hv
  rw [ways_storedValue, ways_append] at hw
  obtain ⟨⟨d, caps⟩, hd, hw⟩ := exists_of_head?_flatMap hw
  have hroom := hu.length_le.trans hroom
  obtain ⟨-, z, hz, -⟩ := (mem_ways_iff_spells rfl (.of fun _ => none) hroom).mp hd
  have hroom := hz.length_le.trans hroom
  rw [assignedValue, ways_group_manyLazy] at hw
  obtain ⟨⟨e, caps'⟩, he, hw⟩ := exists_of_head?_flatMap hw
  rw [ways_of_takes? rfl] at he
  obtain ⟨x, hn, hx, hcaps⟩ := Way.mem_step.mp he
  have hl := Cursor.leads_of_next? hn
  have hroom' := hl.length_le.trans hroom
  have hback : ∀ {c d : Cursor} {x : Char} {caps : Captures}, c.next? = some (x, d) →
      isBlank x = true → c.after.length ≤ terms.bound →
        (blanks ++ char ';').ways terms c caps = [] →
          ∀ caps', (blanks ++ char ';').ways terms d caps' = [] := fun hn hblank hroom hnil caps' =>
    Basic.ways_eq_nil_of_isClosed (basic_of_isText rfl) rfl
      (ways_blanks_eq_nil hn hblank hroom hnil) caps'
  obtain ⟨y, f, hy, hmem, hlast⟩ := exists_end_of_lazyWays rfl hback hroom' hw
  have hspan : (Span.mk d f).text = x :: y := (hl.trans hy).upTo
  obtain ⟨hcaps', -⟩ := (mem_ways_iff_spells rfl (.of fun _ => none)
    (hy.length_le.trans hroom')).mp hmem
  refine ⟨x :: y, ?_, by simp, fun x' hx' => ?_⟩
  · rw [hcaps', Captures.textOf_cons, if_pos rfl, hspan]
  · cases y with
    | nil =>
      obtain rfl : x = x' := by simpa using hx'
      have hother : ¬ x = '=' ∧ ¬ x = ';' ∧ isBlank x = false := by
        simpa [CharClass.contains, ClassItem.contains, Category.contains] using hx
      exact hother.2.2
    | cons y ys => exact hlast x' (by simpa using hx')

/-! ### Stores in a tight text -/

/-- Where a store can be read up to its equals sign, its object can be read behind a new
parenthesis. -/
def Reads (Target : List Char → List Char → Prop) : Prop :=
  ∀ {front inner object : List Char} {s t : Opened}, Target front inner → Trims inner object →
    s.scan front = some t → t = .no ∧ ∃ r, Opened.bare.scan object = some r

theorem reads_callTarget (getter : String) : Reads (CallTarget getter) := by
  rintro _ _ object s t ⟨gap, gap', hgaps, -, rfl⟩ ⟨fore, aft, hblanks, rfl⟩ h
  rw [List.forall_mem_append] at hgaps hblanks
  obtain ⟨r, hr, hclose⟩ := Opened.scan_append_eq_some.mp h
  obtain ⟨_, -, hopen⟩ := Opened.scan_append_eq_some.mp hr
  rw [Opened.scan_cons, Opened.next_open, Option.bind_some, List.append_assoc] at hopen
  obtain ⟨q, hq, hrest⟩ := Opened.scan_append_eq_some.mp hopen
  obtain ⟨q', hobject, -⟩ := Opened.scan_append_eq_some.mp hrest
  constructor
  · rw [Opened.scan_cons, Option.bind_eq_some_iff] at hclose
    obtain ⟨r', hr', hgap⟩ := hclose
    rcases Opened.next_eq_some.mp hr' with ⟨h, -⟩ | ⟨h, -⟩ | ⟨-, -, -, rfl⟩
    · exact absurd h (by decide)
    · exact absurd h (by decide)
    · exact Option.some.inj (hgap.symm.trans (Opened.scan_no_blanks hgaps.2))
  · -- The object is read behind the parenthesis or behind blanks.
    cases fore with
    | nil =>
      obtain rfl : Opened.bare = q := Option.some.inj hq
      exact ⟨q', hobject⟩
    | cons c fore =>
      obtain ⟨q'', hq'', -, hpadded⟩ := Opened.exists_scan_blanks .bare hblanks.1
      obtain rfl : q'' = q := Option.some.inj (hq''.symm.trans hq)
      obtain rfl := hpadded (by simp) (by decide)
      exact Opened.exists_scan_of_padded hobject .bare

theorem reads_memberTarget {member : String} (hne : member.toList ≠ [])
    (hchars : ∀ c ∈ member.toList, isIdentifierChar c = true) : Reads (MemberTarget member) := by
  rintro _ inner object s t ⟨gap, gap', gap'', hgaps, hinner, rfl⟩ ⟨fore, aft, hblanks, rfl⟩ h
  rw [List.forall_mem_append] at hgaps hblanks
  obtain ⟨q, hq, hend⟩ := Opened.scan_append_eq_some.mp h
  obtain ⟨q', -, hmember⟩ := Opened.scan_append_eq_some.mp hq
  constructor
  · obtain rfl : q = .no := Option.some.inj (hmember.symm.trans (Opened.scan_word q' hne hchars))
    exact Option.some.inj (hend.symm.trans (Opened.scan_no_blanks hgaps.2))
  · -- The chain starts with a letter, and behind a letter nothing of what was before it matters.
    obtain ⟨_, hops, heq, ⟨name, indices, rfl, hname, -⟩, -⟩ := hinner
    obtain ⟨hnonempty, hword⟩ := word_of_spells_identifier hname
    obtain ⟨c, name, rfl⟩ := List.exists_cons_of_ne_nil hnonempty
    have hc := hword c List.mem_cons_self
    have hblank : ∀ {gap : List Char}, (∀ d ∈ gap, isBlank d = true) → ∀ z, gap ≠ c :: z := by
      rintro _ hgap z rfl
      have hfirst := hgap c List.mem_cons_self
      rw [isBlank_of_isIdentifierChar hc] at hfirst
      exact absurd hfirst (by simp)
    cases fore with
    | cons d fore =>
      obtain ⟨rfl, -⟩ := List.cons.inj heq
      exact absurd rfl (hblank hblanks.1 fore)
    | nil =>
      cases object with
      | nil => exact absurd heq (hblank hblanks.2 _)
      | cons d object =>
        obtain ⟨rfl, -⟩ := List.cons.inj heq
        simp only [List.nil_append, List.append_assoc] at hmember h
        obtain ⟨r, hr, -⟩ := Opened.scan_append_eq_some.mp h
        rw [Opened.scan_cons, Opened.next_of_isIdentifierChar hc] at hr ⊢
        exact ⟨r, hr⟩

/-- The names that a store starts with, in front of the fold and behind it, are words. -/
theorem words_of_mem_storeRules {rule : Rule} {getter member : String}
    (hr : (rule, getter, member) ∈ storeRules) {name : String}
    (hname : name ∈ [rule.name, getter, member]) :
    name.toList ≠ [] ∧ ∀ c ∈ name.toList, isIdentifierChar c = true := by
  have hall : storeRules.all (fun e => [e.1.name, e.2.1, e.2.2].all fun name =>
      !name.toList.isEmpty && name.toList.all isIdentifierChar) = true := by
    decide +kernel
  have hword := List.all_eq_true.mp (List.all_eq_true.mp hall _ hr) name hname
  simpa using hword

theorem reads_of_mem_zip {rule : Rule} {getter member : String}
    (hr : (rule, getter, member) ∈ storeRules) {p : Pattern} {Target : List Char → List Char → Prop}
    (hp : (p, Target) ∈ rule.patterns.zip (storeTargets getter member)) : Reads Target := by
  obtain ⟨-, hne, hchars, hpatterns⟩ := of_mem_storeRules hr
  rw [hpatterns] at hp
  rcases List.mem_pair.mp hp with heq | heq <;> obtain ⟨rfl, rfl⟩ := Prod.mk.inj heq
  · exact reads_callTarget getter
  · exact reads_memberTarget hne hchars

/-- **One store.**  The call that takes its place can be read wherever the store can be read. -/
theorem scan_fill_of_store {rule : Rule} {getter member : String}
    (hr : (rule, getter, member) ∈ storeRules) {p : Pattern} {Target : List Char → List Char → Prop}
    (hp : (p, Target) ∈ rule.patterns.zip (storeTargets getter member))
    {texts : String → Option (List Char)} {m value : List Char} (hm : p.regex.Spells (.of texts) m)
    (hvalue : texts "value" = some value) (hne : value ≠ [])
    (hlast : ∀ c, value.getLast? = some c → isBlank c = false) {s t : Opened}
    (h : s.scan m = some t) : s.scan (p.template.fill texts) = some t := by
  obtain ⟨front, inner, object, stored, value', htarget, htrims, hobject,
      ⟨gap, gap', hgaps, rfl⟩, -,
    hvalue', rfl⟩ := exists_store_of_spells hr hp hm
  obtain rfl : value = value' := Option.some.inj (hvalue.symm.trans hvalue')
  rw [List.forall_mem_append] at hgaps
  obtain ⟨q, hfront, hrest⟩ := Opened.scan_append_eq_some.mp h
  obtain ⟨rfl, r, hr'⟩ := reads_of_mem_zip hr hp htarget htrims hfront
  have hequals : Opened.no.next '=' = some .no := rfl
  rw [Opened.scan_cons, hequals, Option.bind_some] at hrest
  obtain ⟨q, hstored, hend⟩ := Opened.scan_append_eq_some.mp hrest
  obtain ⟨q', hfore, -⟩ := Opened.scan_append_eq_some.mp hstored
  obtain ⟨q'', hgap, hread⟩ := Opened.scan_append_eq_some.mp hfore
  obtain rfl : q'' = .no := Option.some.inj (hgap.symm.trans (Opened.scan_no_blanks hgaps.1))
  have hother : ∀ (q : Opened) {c : Char}, c ∈ [',', ';'] → q.next c = some .no := by
    intro q c hc
    rcases List.mem_pair.mp hc with rfl | rfl <;>
      exact Opened.next_of_other (by decide) (by decide) (by decide)
  have hclose := Opened.next_close (Opened.ne_padded_of_scan hne hlast hread)
  have hspace : Opened.no.next ' ' = some .no := rfl
  obtain rfl : t = .no := by
    rw [Opened.scan_cons, hother q (by simp)] at hend
    exact (Option.some.inj hend).symm
  have hfill : p.template.fill texts =
      rule.name.toList ++ '(' :: (object ++ ',' :: ' ' :: (value ++ [')', ';'])) := by
    rw [(decides_of_mem_zip hr hp).2.2]
    simp [storeCall, Template.fill, hobject, hvalue]
  obtain ⟨hname, hword⟩ := words_of_mem_storeRules hr List.mem_cons_self
  -- The new name, its parenthesis, the object, the comma, the value and the end of the statement.
  simp only [hfill, Opened.scan_append, Opened.scan_word s hname hword, Opened.scan_cons,
    Opened.next_open, Option.bind_some, hr', hother _ (show ',' ∈ [',', ';'] by simp),
    hspace, hread, hclose, hother _ (show ';' ∈ [',', ';'] by simp), Opened.scan_nil]

end Catalog

open Catalog

theorem Catalog.exists_target_of_mem {rule : Rule} {getter member : String}
    (hr : (rule, getter, member) ∈ storeRules) {p : Pattern} (hp : p ∈ rule.patterns) :
    ∃ R Target, p.regex = R ++ storedValue ∧
      (p, Target) ∈ rule.patterns.zip (storeTargets getter member) := by
  rw [(of_mem_storeRules hr).2.2.2] at hp ⊢
  rcases List.mem_pair.mp hp with rfl | rfl
  · exact ⟨_, CallTarget getter, rfl, List.mem_cons_self⟩
  · exact ⟨_, MemberTarget member, rfl, List.mem_cons_of_mem _ List.mem_cons_self⟩

/-- Stores one after another. -/
theorem Pattern.Pass.scan_of_store {rule : Rule} {getter member : String}
    (hr : (rule, getter, member) ∈ storeRules) {p : Pattern} (hp : p ∈ rule.patterns) {bound : Nat}
    {cur : Cursor} {hits : List Hit} {out : List Char} (h : p.Pass bound cur hits out)
    (hbound : cur.after.length ≤ bound) {s t : Opened} (hs : s.scan cur.after = some t) :
    s.scan out = some t := by
  have hregular := Catalog.regular (of_mem_storeRules hr).1 hp
  obtain ⟨R, Target, hR, hzip⟩ := exists_target_of_mem hr hp
  have hbasic : R.Basic := (hR ▸ hregular.basic).of_cat.1
  induction h generalizing s with
  | done hafter _ => rwa [hafter] at hs
  | skip _ hn _ ih =>
    have hl := Cursor.leads_of_next? hn
    rw [hl.after, List.singleton_append, Opened.scan_cons, Option.bind_eq_some_iff] at hs
    obtain ⟨r, hr, hs⟩ := hs
    rw [Opened.scan_cons, hr, Option.bind_some]
    exact ih (hl.length_le.trans hbound) hs
  | @hit cur stop caps _ _ ha _ ih =>
    obtain ⟨m, hl, hm⟩ := hregular.reads ha
    have hfirst : (stop, caps) ∈ ((R ++ storedValue).ways ⟨none, bound, none⟩ cur []).head? :=
      hR ▸ ha
    obtain ⟨value, hvalue, hne, hlast⟩ := exists_value_of_head? hbasic hbound hfirst
    rw [hl.after] at hs
    obtain ⟨r, hm', hs⟩ := Opened.scan_append_eq_some.mp hs
    rw [Opened.scan_append_eq_some]
    exact ⟨r, scan_fill_of_store hr hzip hm hvalue hne hlast hm', ih (hl.length_le.trans hbound) hs⟩

/-- **Stores leave a tight text tight.** -/
theorem Pattern.Pass.tight_of_store {rule : Rule} {getter member : String}
    (hr : (rule, getter, member) ∈ storeRules) {p : Pattern} (hp : p ∈ rule.patterns)
    {text : List Char} {hits : List Hit} {out : List Char}
    (h : p.Pass text.length (Cursor.ofText text) hits out) (htext : Tight text) : Tight out := by
  obtain ⟨s, hs⟩ := tight_iff.mp htext
  exact tight_iff.mpr ⟨s, h.scan_of_store hr hp le_rfl hs⟩

end CApiUpgrade
