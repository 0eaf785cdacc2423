import CApiUpgrade.Proofs.Nesting
import CApiUpgrade.Proofs.Spelled

/-!
# Stores to fields

A store such as `Py_TYPE(obj) = type;` or `obj->ob_type = type;` is folded into one call.  The
patterns take what stands in front of the first equals sign for the object and what stands between
it and the first semicolon for the value.  They do not count parentheses.

`store_balanced_iff` says when object and value are balanced all the same: exactly if a whole store
stands where the match starts, one with a balanced object and a balanced value.  A match may also
start in the middle of another statement, and then it takes more than the store
(`store_unbalanced`).
-/

namespace CApiUpgrade

/-! ### Balanced texts -/

namespace Text

/-- A text is balanced if every parenthesis that it closes has been opened before, and every one
that it opens is closed. -/
def Balanced (w : List Char) : Prop := openParens w = 0 ∧ ∀ u ∈ w.inits, 0 ≤ openParens u

instance (w : List Char) : Decidable (Balanced w) :=
  inferInstanceAs (Decidable (_ ∧ _))

/-- The condition on the parts of a text, without their list. -/
theorem balanced_iff {w : List Char} :
    Balanced w ↔ openParens w = 0 ∧ ∀ u v, w = u ++ v → 0 ≤ openParens u := by
  refine and_congr_right fun _ => ⟨fun h u v hw => ?_, fun h u hu => ?_⟩
  · exact h u ((List.mem_inits u w).mpr ⟨v, hw.symm⟩)
  · obtain ⟨v, hv⟩ := (List.mem_inits u w).mp hu
    exact h u v hv.symm

theorem openParens_of_notMem {w : List Char} (h : ∀ c ∈ w, c ≠ '(' ∧ c ≠ ')') :
    openParens w = 0 := by
  have hopen : w.count '(' = 0 := List.count_eq_zero.mpr fun hin => (h _ hin).1 rfl
  have hclose : w.count ')' = 0 := List.count_eq_zero.mpr fun hin => (h _ hin).2 rfl
  rw [openParens, hopen, hclose]
  rfl

theorem openParens_blanks {gap : List Char} (h : ∀ c ∈ gap, isBlank c = true) :
    openParens gap = 0 := by
  refine openParens_of_notMem fun c hc => ⟨?_, ?_⟩ <;>
  · rintro rfl
    exact absurd (h _ hc) (by decide)

/-- Blanks in front of a text make no difference to whether it is balanced. -/
theorem balanced_blanks_append {gap w : List Char} (h : ∀ c ∈ gap, isBlank c = true) :
    Balanced (gap ++ w) ↔ Balanced w := by
  have hgap := openParens_blanks h
  simp only [balanced_iff, openParens_append, hgap, zero_add]
  refine and_congr_right fun _ => ⟨fun hw u v huv => ?_, fun hw u v huv => ?_⟩
  · have hu := hw (gap ++ u) v (by rw [huv, List.append_assoc])
    rwa [openParens_append, hgap, zero_add] at hu
  -- A part of the whole text ends in the blanks or behind them.
  · rcases List.append_eq_append_iff.mp huv with ⟨z, rfl, hz⟩ | ⟨z, hz, -⟩
    · rw [openParens_append, hgap, zero_add]
      exact hw z v hz
    · have hu := openParens_blanks fun c hc => h c (hz ▸ List.mem_append_left z hc)
      omega

theorem balanced_append_blanks {gap w : List Char} (h : ∀ c ∈ gap, isBlank c = true) :
    Balanced (w ++ gap) ↔ Balanced w := by
  have hgap := openParens_blanks h
  simp only [balanced_iff, openParens_append, hgap, add_zero]
  refine and_congr_right fun htotal => ⟨fun hw u v huv => ?_, fun hw u v huv => ?_⟩
  · exact hw u (v ++ gap) (by rw [huv, List.append_assoc])
  · rcases List.append_eq_append_iff.mp huv with ⟨z, rfl, hz⟩ | ⟨z, hz, -⟩
    · have hz' := openParens_blanks fun c hc => h c (hz ▸ List.mem_append_left v hc)
      rw [openParens_append]
      omega
    · exact hw u z hz

/-- The last character that is no blank splits a text in one way only. -/
theorem append_blanks_inj {u u' gap gap' : List Char} {c c' : Char}
    (hgap : ∀ d ∈ gap, isBlank d = true) (hgap' : ∀ d ∈ gap', isBlank d = true)
    (hc : isBlank c = false) (hc' : isBlank c' = false)
    (h : u ++ c :: gap = u' ++ c' :: gap') : u = u' ∧ c = c' := by
  have hback : gap.reverse ++ c :: u.reverse = gap'.reverse ++ c' :: u'.reverse := by
    simpa using congrArg List.reverse h
  obtain ⟨-, hcc, huu⟩ := append_cons_inj (p := fun d => !isBlank d)
    (fun d hd => by rw [hgap d (List.mem_reverse.mp hd)]; rfl)
    (fun d hd => by rw [hgap' d (List.mem_reverse.mp hd)]; rfl) (by rw [hc]; rfl) (by rw [hc']; rfl)
    hback
  exact ⟨List.reverse_inj.mp huu, hcc⟩

end Text

open Text

namespace Catalog

open Regex

/-! ### Whole stores -/

/-- What stands in front of the equals sign of a store through the macro that reads the field, and
what stands between its parentheses. -/
def CallTarget (getter : String) (front object : List Char) : Prop :=
  ∃ gap gap', (∀ c ∈ gap ++ gap', isBlank c = true) ∧ '=' ∉ object ∧
    front = getter.toList ++ gap ++ '(' :: object ++ ')' :: gap'

/-- What stands in front of the equals sign of a store to the field itself, and the chain in front
of the arrow. -/
def MemberTarget (member : String) (front object : List Char) : Prop :=
  ∃ gap gap' gap'', (∀ c ∈ gap ++ gap' ++ gap'', isBlank c = true) ∧
    (Chain.indexed ++ many Chain.hop).Spells (.of fun _ => none) object ∧
    front = object ++ gap ++ "->".toList ++ gap' ++ member.toList ++ gap''

/-- A text starts with a whole store, up to its semicolon. -/
def StartsWithStore (Target : List Char → List Char → Prop) (text : List Char) : Prop :=
  ∃ front object value rest, Target front object ∧ ';' ∉ value ∧ Balanced object ∧ Balanced value ∧
    text = front ++ '=' :: (value ++ ';' :: rest)

/-- The equals sign of a store can be told from its text, and so can what the store says of the
object. -/
def Decides (Target : List Char → List Char → Prop) : Prop :=
  ∀ {front object front' object' x x' : List Char}, Target front object → Target front' object' →
    front ++ '=' :: x = front' ++ '=' :: x' → x = x' ∧ (Balanced object ↔ Balanced object')

/-- If the equals sign can be told from the text, then a text starts with a whole store exactly if
the object and the value that are read off it are balanced. -/
theorem startsWithStore_iff {Target : List Char → List Char → Prop} (hdecides : Decides Target)
    {front object value rest text : List Char} (htarget : Target front object)
    (hvalue : ';' ∉ value) (htext : text = front ++ '=' :: (value ++ ';' :: rest)) :
    StartsWithStore Target text ↔ Balanced object ∧ Balanced value := by
  constructor
  -- Another store at the start of the text has the same equals sign, and so the same value.
  · rintro ⟨front', object', value', rest', htarget', hvalue', hobject, hbalanced, htext'⟩
    obtain ⟨hrest, hiff⟩ := hdecides htarget htarget' (htext.symm.trans htext')
    obtain ⟨rfl, -⟩ := append_cons_inj (p := (· == ';'))
      (fun d hd => beq_false_of_ne fun h => hvalue (h ▸ hd))
      (fun d hd => beq_false_of_ne fun h => hvalue' (h ▸ hd)) rfl rfl hrest
    exact ⟨hiff.mpr hobject, hbalanced⟩
  · rintro ⟨hobject, hbalanced⟩
    exact ⟨front, object, value, rest, htarget, hvalue, hobject, hbalanced, htext⟩

/-- The equals sign of a store through a macro is the first one behind the first opening
parenthesis, and the last closing one in front of it ends the object. -/
theorem decides_callTarget (getter : String) : Decides (CallTarget getter) := by
  rintro _ object _ object' x x' ⟨gap, gap', hgaps, hobject, rfl⟩ ⟨fap, fap', hfaps,
    hobject', rfl⟩ h
  rw [List.forall_mem_append] at hgaps hfaps
  have hblank : ∀ {c : Char} {gap : List Char}, isBlank c = false → (∀ d ∈ gap, isBlank d = true) →
      ∀ d ∈ gap, (d == c) = false := by
    rintro c gap hc hgap d hd
    refine beq_false_of_ne ?_
    rintro rfl
    simp [hgap d hd] at hc
  simp only [List.append_assoc, List.cons_append, List.append_cancel_left_eq] at h
  -- The opening parenthesis is the first one, and the equals sign is the first one behind it.
  obtain ⟨-, -, hinner⟩ := append_cons_inj (p := (· == '(')) (hblank (by decide) hgaps.1)
    (hblank (by decide) hfaps.1) rfl rfl h
  have hfree : ∀ {object gap : List Char}, '=' ∉ object → (∀ d ∈ gap, isBlank d = true) →
      ∀ d ∈ object ++ ')' :: gap, (d == '=') = false := by
    intro object gap hobject hgap d hd
    rcases List.mem_append.mp hd with hd | hd
    · exact beq_false_of_ne fun h => hobject (h ▸ hd)
    · rcases List.mem_cons.mp hd with rfl | hd
      · rfl
      · exact hblank (by decide) hgap d hd
  have hsplit : (object ++ ')' :: gap') ++ '=' :: x = (object' ++ ')' :: fap') ++ '=' :: x' := by
    simpa using hinner
  obtain ⟨hfront, -, rfl⟩ :=
    append_cons_inj (hfree hobject hgaps.2) (hfree hobject' hfaps.2) rfl rfl hsplit
  obtain ⟨rfl, -⟩ := append_blanks_inj hgaps.2 hfaps.2 (by decide) (by decide) hfront
  exact ⟨rfl, Iff.rfl⟩

/-- Whether a text leads into brackets from the outside or, if `inside`, from the inside.  There is
no answer if an equals sign stands outside of brackets. -/
def leadsInside : (inside : Bool) → List Char → Option Bool
  | inside, [] => some inside
  | true, c :: w => leadsInside (c != ']') w
  | false, c :: w => if c = '=' then none else leadsInside (c == '[') w

/-- A text leads on from where the one in front of it has led to. -/
theorem leadsInside_append (inside : Bool) (u v : List Char) :
    leadsInside inside (u ++ v) = (leadsInside inside u).bind fun inside =>
      leadsInside inside v := by
  induction u generalizing inside with
  | nil => rfl
  | cons c u ih =>
    cases inside with
    | true => exact ih _
    | false =>
      rw [List.cons_append, leadsInside, leadsInside]
      split_ifs
      · rfl
      · exact ih _

/-- The text stays outside of brackets in the end, and every equals sign in it stands in
brackets. -/
def Sealed (w : List Char) : Prop := leadsInside false w = some false

theorem Sealed.append {u v : List Char} (hu : Sealed u) (hv : Sealed v) : Sealed (u ++ v) := by
  rw [Sealed, leadsInside_append, hu]
  exact hv

theorem Sealed.flatten {ws : List (List Char)} (h : ∀ u ∈ ws, Sealed u) : Sealed ws.flatten := by
  induction ws with
  | nil => rfl
  | cons u ws ih =>
    exact (h u List.mem_cons_self).append (ih fun v hv => h v (List.mem_cons_of_mem u hv))

/-- A text without equals signs and brackets is sealed. -/
theorem sealed_of_notMem {w : List Char} (h : ∀ c ∈ w, c ≠ '=' ∧ c ≠ '[') : Sealed w := by
  induction w with
  | nil => rfl
  | cons c w ih =>
    have hc := h c List.mem_cons_self
    rw [Sealed, leadsInside, if_neg hc.1, beq_false_of_ne hc.2]
    exact ih fun d hd => h d (List.mem_cons_of_mem c hd)

theorem sealed_of_identifierChars {w : List Char} (h : ∀ c ∈ w, isIdentifierChar c = true) :
    Sealed w := by
  refine sealed_of_notMem fun c hc => ⟨?_, ?_⟩ <;>
  · rintro rfl
    exact absurd (h _ hc) (by decide)

theorem sealed_of_blanks {gap : List Char} (h : ∀ c ∈ gap, isBlank c = true) : Sealed gap := by
  refine sealed_of_notMem fun c hc => ⟨?_, ?_⟩ <;>
  · rintro rfl
    exact absurd (h _ hc) (by decide)

/-- Without a closing bracket a text stays inside of brackets. -/
theorem leadsInside_of_notMem {w : List Char} (h : ']' ∉ w) : leadsInside true w = some true := by
  induction w with
  | nil => rfl
  | cons c w ih =>
    rw [List.mem_cons, not_or] at h
    rw [leadsInside, bne_iff_ne.mpr (Ne.symm h.1)]
    exact ih h.2

/-- An equals sign behind texts that are sealed can be told from the text. -/
theorem Sealed.append_cons_inj {u u' v v' : List Char} (hu : Sealed u) (hu' : Sealed u')
    (h : u ++ '=' :: v = u' ++ '=' :: v') : u = u' ∧ v = v' := by
  -- A text that goes on with an equals sign behind a sealed part is not sealed, so neither of the
  -- two can be longer.
  have hopen : ∀ {u z : List Char}, Sealed u → ¬ Sealed (u ++ '=' :: z) := by
    intro u z hu hz
    rw [Sealed, leadsInside_append, hu] at hz
    simp [leadsInside] at hz
  rcases append_eq_append_cons h with ⟨z, rfl, -⟩ | ⟨z, rfl, hz⟩
  · exact absurd hu (hopen hu')
  · cases z with
    | nil => exact ⟨by simp, (List.cons.inj hz).2⟩
    | cons c z =>
      obtain ⟨rfl, -⟩ := List.cons.inj hz
      exact absurd hu' (hopen hu)

section
variable {ρ : Reading} {w : List Char}

theorem sealed_of_spells_many {r : Regex} (h : ∀ u, r.Spells ρ u → Sealed u)
    (hw : (many r).Spells ρ w) : Sealed w := by
  obtain ⟨ws, rfl, hws, -⟩ := hw
  exact .flatten fun u hu => h u (hws u hu)

/-- A name with its indices is sealed: an equals sign may stand in an index only. -/
theorem sealed_of_spells_indexed (h : Chain.indexed.Spells ρ w) : Sealed w := by
  obtain ⟨name, indices, rfl, hname, hindices⟩ := h
  refine (sealed_of_identifierChars (word_of_spells_identifier hname).2).append
    (sealed_of_spells_many ?_ hindices)
  rintro _ ⟨_, _, rfl, ⟨_, inner, rfl, rfl, hinner⟩, rfl⟩
  have hfree : ']' ∉ inner := fun hin => by
    simpa [CharClass.contains, ClassItem.contains] using ((spells_repeated_one rfl).mp hinner).2
      _ hin
  have hin := leadsInside_of_notMem hfree
  simp [Sealed, leadsInside, leadsInside_append, hin]

theorem sealed_of_spells_chain (h : (Chain.indexed ++ many Chain.hop).Spells ρ w) : Sealed w := by
  obtain ⟨first, hops, rfl, hfirst, hhops⟩ := h
  refine (sealed_of_spells_indexed hfirst).append (sealed_of_spells_many ?_ hhops)
  rintro _ ⟨_, next, rfl, ⟨_, gap', rfl, ⟨gap, arrow, rfl, hgap, harrow⟩, hgap'⟩, hnext⟩
  have harrow : Sealed arrow := by
    rcases harrow with ⟨h, -⟩ | ⟨rfl, -⟩
    · obtain rfl := spells_literal.mp h
      rfl
    · rfl
  exact ((sealed_of_blanks (spells_blanks.mp hgap)).append harrow |>.append
    (sealed_of_blanks (spells_blanks.mp hgap'))).append (sealed_of_spells_indexed hnext)

end

theorem isBlank_of_isIdentifierChar {c : Char} (h : isIdentifierChar c = true) :
    isBlank c = false := by
  -- All blanks have codes below the digits or above the letters.
  have hrange : 0x30 ≤ c.toNat ∧ c.toNat ≤ 0x7a := by
    simp only [isIdentifierChar, Chain.wordItems, List.any_cons, List.any_nil, ClassItem.contains,
      Bool.or_eq_true, Bool.and_eq_true, decide_eq_true_eq, Bool.or_false, beq_iff_eq, Char.le_def,
      UInt32.le_iff_toNat_le] at h
    rcases h with ⟨hlo, hhi⟩ | ⟨hlo, hhi⟩ | ⟨hlo, hhi⟩ | rfl
    · exact ⟨Nat.le_trans (by decide) hlo, Nat.le_trans hhi (by decide)⟩
    · exact ⟨Nat.le_trans (by decide) hlo, Nat.le_trans hhi (by decide)⟩
    · exact ⟨Nat.le_trans (by decide) hlo, Nat.le_trans hhi (by decide)⟩
    · decide
  simp only [isBlank, Bool.or_eq_false_iff, Bool.and_eq_false_iff, decide_eq_false_iff_not,
    beq_eq_false_iff_ne]
  omega

/-- The equals sign of a store to a field is the first one that stands outside of brackets, and the
last arrow in front of it ends the chain. -/
theorem decides_memberTarget {member : String} (hne : member.toList ≠ [])
    (hchars : ∀ c ∈ member.toList, isIdentifierChar c = true) : Decides (MemberTarget member) := by
  rintro front object front' object' x x' ⟨gap, gap', gap'', hgaps, hobject, rfl⟩
    ⟨fap, fap', fap'', hfaps, hobject', rfl⟩ h
  simp only [List.forall_mem_append] at hgaps hfaps
  have harrow : Sealed "->".toList := rfl
  have hsealed : ∀ {object gap gap' gap'' : List Char},
      ((∀ c ∈ gap, isBlank c = true) ∧ ∀ c ∈ gap', isBlank c = true) ∧
        (∀ c ∈ gap'', isBlank c = true) →
      (Chain.indexed ++ many Chain.hop).Spells (.of fun _ => none) object →
      Sealed (object ++ gap ++ "->".toList ++ gap' ++ member.toList ++ gap'') :=
    fun hgaps hobject => ((((sealed_of_spells_chain hobject).append
      (sealed_of_blanks hgaps.1.1)).append harrow).append (sealed_of_blanks hgaps.1.2)
      |>.append (sealed_of_identifierChars hchars)).append (sealed_of_blanks hgaps.2)
  obtain ⟨hfront, rfl⟩ := (hsealed hgaps hobject).append_cons_inj (hsealed hfaps hobject') h
  refine ⟨rfl, ?_⟩
  -- The member and the arrow are cut off at the end, each with the blanks behind it.
  obtain ⟨name, last, hname⟩ : ∃ name last, member.toList = name ++ [last] :=
    (List.eq_nil_or_concat' member.toList).resolve_left hne
  have hlast := isBlank_of_isIdentifierChar (hchars last (by simp [hname]))
  simp only [hname, List.append_assoc, List.singleton_append] at hfront
  have hmember : object ++ (gap ++ ("->".toList ++ (gap' ++ name))) =
      object' ++ (fap ++ ("->".toList ++ (fap' ++ name))) :=
    (append_blanks_inj hgaps.2 hfaps.2 hlast hlast (by simpa using hfront)).1
  have hcut : (object ++ gap ++ ['-'] ++ '>' :: gap') ++ name =
      (object' ++ fap ++ ['-'] ++ '>' :: fap') ++ name := by simpa using hmember
  obtain ⟨hchain, -⟩ := append_blanks_inj hgaps.1.2 hfaps.1.2 (by decide) (by decide)
    (List.append_cancel_right hcut)
  rw [← balanced_append_blanks hgaps.1.1, List.append_cancel_right hchain,
    balanced_append_blanks hfaps.1.1]

/-! ### Stores in a text -/

/-- The rules that fold stores, each with the macro that reads its field and with the field. -/
def storeRules : List (Rule × String × String) :=
  [(setType, "Py_TYPE", "ob_type"), (setSize, "Py_SIZE", "ob_size"),
    (setRefCount, "Py_REFCNT", "ob_refcnt")]

/-- What the two patterns of a rule take for a store. -/
def storeTargets (getter member : String) : List (List Char → List Char → Prop) :=
  [CallTarget getter, MemberTarget member]

/-- A text without the blanks around it. -/
def Trims (w inner : List Char) : Prop :=
  ∃ gap gap', (∀ c ∈ gap ++ gap', isBlank c = true) ∧ w = gap ++ inner ++ gap'

/-- A text is balanced if it is without the blanks around it. -/
theorem Trims.balanced_iff {w inner : List Char} (h : Trims w inner) :
    Balanced w ↔ Balanced inner := by
  obtain ⟨gap, gap', hgaps, rfl⟩ := h
  rw [List.forall_mem_append] at hgaps
  rw [balanced_append_blanks hgaps.2, balanced_blanks_append hgaps.1]

section
variable {texts : String → Option (List Char)} {w : List Char}

/-- What a store has from its equals sign on: a value, with blanks around it, and a semicolon. -/
theorem exists_value_of_spells (h : storedValue.Spells (.of texts) w) :
    ∃ gap stored value, (∀ c ∈ gap, isBlank c = true) ∧ texts "value" = some value ∧
      Trims stored value ∧ ';' ∉ stored ∧ w = gap ++ '=' :: (stored ++ [';']) := by
  -- The parts of the expression from the outside in: it is joined to the left.
  obtain ⟨_, _, rfl, ⟨_, gap'', rfl, ⟨_, _, rfl, ⟨_, gap', rfl, ⟨gap, _, rfl, hgap, rfl⟩, hgap'⟩,
    ⟨hset, _, rest, rfl, ⟨c, hc, rfl⟩, hrest⟩⟩, hgap''⟩, rfl⟩ := h
  rw [spells_blanks] at hgap hgap' hgap''
  have hblank : isBlank ';' = false := by decide
  refine ⟨gap, gap' ++ (c :: rest) ++ gap'', c :: rest, hgap, hset,
    ⟨gap', gap'', List.forall_mem_append.mpr ⟨hgap', hgap''⟩, rfl⟩, ?_, by simp⟩
  have hfirst : ';' ≠ c := by
    rintro rfl
    exact absurd hc (by decide)
  have hlater : ';' ∉ rest := fun hin => by
    simpa [CharClass.contains, ClassItem.contains] using ((spells_repeated_one rfl).mp hrest).2
      _ hin
  have hfree : ∀ {gap : List Char}, (∀ c ∈ gap, isBlank c = true) → ';' ∉ gap := fun h hin =>
    absurd (h _ hin) (by decide)
  simp only [List.mem_append, List.mem_cons, not_or]
  exact ⟨⟨hfree hgap', hfirst, hlater⟩, hfree hgap''⟩

/-- What a store through a macro consists of. -/
theorem exists_call_of_spells {getter : String} (h : (callStore getter).Spells (.of texts) w) :
    ∃ front inner object stored value, CallTarget getter front inner ∧ Trims inner object ∧
      texts "expr" = some object ∧ Trims stored value ∧ ';' ∉ stored ∧ texts "value" = some value ∧
      w = front ++ '=' :: (stored ++ [';']) := by
  obtain ⟨_, _, rfl,
      ⟨_, _, rfl, ⟨_, gap₃, rfl, ⟨_, object, rfl, ⟨_, gap₂, rfl, ⟨_, _, rfl, ⟨_, gap₁,
    rfl, ⟨edge, name, rfl, hedge, hname⟩, hgap₁⟩, rfl⟩, hgap₂⟩, ⟨hset, hobject⟩⟩, hgap₃⟩, rfl⟩,
    hstored⟩ := h
  obtain ⟨gap₄, stored, value, hgap₄, hvalue, htrims, hfree, rfl⟩ := exists_value_of_spells hstored
  obtain rfl := spells_of_isStill rfl hedge
  obtain rfl := spells_literal.mp hname
  rw [spells_blanks] at hgap₁ hgap₂ hgap₃
  have hplain : '=' ∉ object := fun hin => by
    simpa [CharClass.contains, ClassItem.contains] using
      ((spells_repeated_one rfl).mp hobject).2 _ hin
  have hblank : ∀ {gap : List Char}, (∀ c ∈ gap, isBlank c = true) → '=' ∉ gap := fun h hin =>
    absurd (h _ hin) (by decide)
  refine ⟨_, gap₂ ++ object ++ gap₃, object, stored, value,
    ⟨gap₁, gap₄, List.forall_mem_append.mpr ⟨hgap₁, hgap₄⟩, ?_, rfl⟩,
    ⟨gap₂, gap₃, List.forall_mem_append.mpr ⟨hgap₂, hgap₃⟩, rfl⟩, hset, htrims, hfree,
    hvalue, by simp⟩
  simp only [List.mem_append, not_or]
  exact ⟨⟨hblank hgap₂, hplain⟩, hblank hgap₃⟩

/-- What a store to a field consists of. -/
theorem exists_member_of_spells {member : String} (h : (memberStore member).Spells (.of texts) w) :
    ∃ front inner object stored value, MemberTarget member front inner ∧ Trims inner object ∧
      texts "expr" = some object ∧ Trims stored value ∧ ';' ∉ stored ∧ texts "value" = some value ∧
      w = front ++ '=' :: (stored ++ [';']) := by
  obtain ⟨_, _, rfl, ⟨_, edge, rfl, ⟨_, name, rfl, ⟨_, gap₂, rfl, ⟨_, arrow, rfl, ⟨_, gap₁, rfl,
    ⟨start, object, rfl, hstart, ⟨hset, hobject⟩⟩, hgap₁⟩, harrow⟩, hgap₂⟩, hname⟩, hedge⟩,
    hstored⟩ := h
  obtain ⟨gap₃, stored, value, hgap₃, hvalue, htrims, hfree, rfl⟩ := exists_value_of_spells hstored
  obtain rfl := spells_of_isStill rfl hstart
  obtain rfl := spells_of_isStill rfl hedge
  obtain rfl := spells_literal.mp harrow
  obtain rfl := spells_literal.mp hname
  rw [spells_blanks] at hgap₁ hgap₂
  obtain ⟨object, look, rfl, hobject, hlook⟩ := hobject
  obtain rfl := spells_of_isStill rfl hlook
  rw [List.append_nil] at hset
  refine ⟨_, object, object, stored, value, ⟨gap₁, gap₂, gap₃, ?_, hobject.of_isText rfl, rfl⟩,
    ⟨[], [], by simp, by simp⟩, hset, htrims, hfree, hvalue, by simp⟩
  simp only [List.forall_mem_append]
  exact ⟨⟨hgap₁, hgap₂⟩, hgap₃⟩

end

/-- What replaces a store. -/
def storeCall (name : String) : Template :=
  [.plain (name ++ "("), .group "expr", .plain ", ", .group "value", .plain ");"]

/-- A rule that folds stores has two patterns: one for stores through a macro and one for stores to
the field. -/
theorem of_mem_storeRules {rule : Rule} {getter member : String}
    (hr : (rule, getter, member) ∈ storeRules) :
    rule ∈ rules ∧ member.toList ≠ [] ∧ (∀ c ∈ member.toList, isIdentifierChar c = true) ∧
      rule.patterns = [.ofRegex (callStore getter) (storeCall rule.name),
        .ofRegex (memberStore member) (storeCall rule.name)] := by
  simp only [storeRules, List.mem_cons, Prod.mk.injEq, List.not_mem_nil, or_false] at hr
  rcases hr with ⟨rfl, rfl, rfl⟩ | ⟨rfl, rfl, rfl⟩ | ⟨rfl, rfl, rfl⟩ <;>
    exact ⟨by simp [rules], by decide, List.all_eq_true.mp (by decide), rfl⟩

/-- What a store of one of the rules consists of. -/
theorem exists_store_of_spells {rule : Rule} {getter member : String}
    (hr : (rule, getter, member) ∈ storeRules) {p : Pattern} {Target : List Char → List Char → Prop}
    (hp : (p, Target) ∈ rule.patterns.zip (storeTargets getter member))
    {texts : String → Option (List Char)} {w : List Char} (hw : p.regex.Spells (.of texts) w) :
    ∃ front inner object stored value, Target front inner ∧ Trims inner object ∧
      texts "expr" = some object ∧ Trims stored value ∧ ';' ∉ stored ∧ texts "value" = some value ∧
      w = front ++ '=' :: (stored ++ [';']) := by
  obtain ⟨-, -, -, hpatterns⟩ := of_mem_storeRules hr
  rw [hpatterns] at hp
  rcases List.mem_pair.mp hp with heq | heq <;> obtain ⟨rfl, rfl⟩ := Prod.mk.inj heq
  · exact exists_call_of_spells hw
  · exact exists_member_of_spells hw

/-- Both patterns take stores whose equals sign can be told from the text. -/
theorem decides_of_mem_zip {rule : Rule} {getter member : String}
    (hr : (rule, getter, member) ∈ storeRules) {p : Pattern} {Target : List Char → List Char → Prop}
    (hp : (p, Target) ∈ rule.patterns.zip (storeTargets getter member)) :
    Decides Target ∧ p ∈ rule.patterns ∧ p.template = storeCall rule.name := by
  obtain ⟨-, hne, hchars, hpatterns⟩ := of_mem_storeRules hr
  rw [hpatterns] at hp ⊢
  rcases List.mem_pair.mp hp with heq | heq <;> obtain ⟨rfl, rfl⟩ := Prod.mk.inj heq
  · exact ⟨decides_callTarget getter, by simp, rfl⟩
  · exact ⟨decides_memberTarget hne hchars, by simp, rfl⟩

end Catalog

open Catalog

/-- **What a store takes.**  A match reads an object and a value off the text between its start and
the first semicolon behind the first equals sign, and it leaves a call on the two.  Both are
balanced exactly if the text starts with a whole store there. -/
theorem store_balanced_iff {rule : Rule} {getter member : String}
    (hr : (rule, getter, member) ∈ storeRules) {p : Pattern} {Target : List Char → List Char → Prop}
    (hp : (p, Target) ∈ rule.patterns.zip (storeTargets getter member)) {text : List Char}
    {hits : List Hit} (h : p.hits text = .ok hits) {hit : Hit} (hhit : hit ∈ hits) :
    ∃ front inner object stored value, Target front inner ∧ Trims inner object ∧
      hit.group? "expr" = some object ∧ Trims stored value ∧ ';' ∉ stored ∧
      hit.group? "value" = some value ∧ hit.text = front ++ '=' :: (stored ++ [';']) ∧
      p.template.expand p.groups hit =
        (rule.name ++ "(").toList ++ object ++ ", ".toList ++ value ++ ");".toList ∧
      (Balanced object ∧ Balanced value ↔ StartsWithStore Target hit.start.after) := by
  obtain ⟨hdecides, hmem, htemplate⟩ := decides_of_mem_zip hr hp
  have hregular := Catalog.regular (of_mem_storeRules hr).1 hmem
  have ha := (hregular.pass_of_hits h).attempt_of_mem hhit
  -- The match is read part by part; what stands behind it does not matter.
  obtain ⟨m, hl, hm⟩ := hregular.reads ha
  obtain ⟨front, inner, object, stored, value, htarget, hinner, hobject, hstored, hfree,
      hvalue, rfl⟩ :=
    exists_store_of_spells hr hp hm
  have hafter : hit.start.after = front ++ '=' :: (stored ++ ';' :: hit.stop.after) := by
    rw [hl.after]
    simp
  refine ⟨front, inner, object, stored, value, htarget, hinner, hobject, hstored, hfree, hvalue,
    hl.upTo, ?_, ?_⟩
  · refine (hregular.expand_eq_fill hit.start hit.stop hit.captures).trans ?_
    simp [htemplate, storeCall, Template.fill, hobject, hvalue]
  · rw [startsWithStore_iff hdecides htarget hfree hafter, hinner.balanced_iff,
      hstored.balanced_iff]

/-- A store with calls for its object and its value. -/
theorem store_balanced_iff_calls :
    ∃ p ∈ setType.patterns.zip (storeTargets "Py_TYPE" "ob_type"), ∃ hits,
      p.1.hits "f(x); Py_TYPE(g(a)) = h(b);".toList = .ok hits ∧ ∃ hit ∈ hits,
        hit.group? "expr" = some "g(a)".toList ∧ hit.group? "value" = some "h(b)".toList ∧
          StartsWithStore p.2 hit.start.after := by
  have hany : (setType.patterns.zip (storeTargets "Py_TYPE" "ob_type")).any (fun p =>
      (p.1.hits "f(x); Py_TYPE(g(a)) = h(b);".toList).toOption.any fun hits =>
        hits.any fun hit => decide (hit.group? "expr" = some "g(a)".toList ∧
          hit.group? "value" = some "h(b)".toList)) = true := by
    rw [← Evaluation.hits_eq]
    decide +kernel
  simp only [List.any_eq_true, Option.any_eq_true, decide_eq_true_eq] at hany
  obtain ⟨p, hp, hits, hok, hit, hhit, hexpr, hvalue⟩ := hany
  have hhits := eq_ok_of_toOption hok
  have hrule : (setType, "Py_TYPE", "ob_type") ∈ storeRules := by simp [storeRules]
  obtain ⟨-, -, object, -, value, -, -, hobject, -, -, hvalue', -, -, hiff⟩ :=
    store_balanced_iff hrule hp hhits hhit
  obtain rfl : "g(a)".toList = object := Option.some.inj (hexpr.symm.trans hobject)
  obtain rfl : "h(b)".toList = value := Option.some.inj (hvalue.symm.trans hvalue')
  exact ⟨p, hp, hits, hhits, hit, hhit, hexpr, hvalue, hiff.mp (by decide)⟩

/-- **Stores inside of other statements.**  A match that starts behind an opening parenthesis takes
the closing one for part of the value, and a match in front of a further argument takes that for
part of the object.  Both texts are balanced. -/
theorem store_unbalanced :
    (Balanced "while ((o->ob_refcnt = n) > 0) f();".toList ∧
      setRefCount.apply "while ((o->ob_refcnt = n) > 0) f();".toList =
        .ok "while ((Py_SET_REFCNT(o, n) > 0) f());".toList ∧ ¬ Balanced "n) > 0) f()".toList) ∧
      Balanced "f(Py_TYPE(a), b) = c;".toList ∧
        setType.apply "f(Py_TYPE(a), b) = c;".toList = .ok "f(Py_SET_TYPE(a), b, c);".toList ∧
          ¬ Balanced "a), b".toList :=
  ⟨⟨by decide, Evaluation.apply_eq_ok (by decide +kernel), by decide⟩, by decide,
    Evaluation.apply_eq_ok (by decide +kernel), by decide⟩

end CApiUpgrade
