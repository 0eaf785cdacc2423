import CApiUpgrade.Catalog
import Mathlib.Data.Bool.Basic
import Mathlib.Data.List.Infix
import Mathlib.Data.List.TakeWhile

/-!
# The debt of a text

The *debt* of a text is the number of its equals signs, semicolons and arrows and of its calls of
old allocation functions.  Every replacement of the catalog pays off a part of it
(`CApiUpgrade.Proofs.Payment`), so the debt bounds the number of replacements.

Whether a character counts depends on what stands in front of it: the head of an arrow counts behind
a dash, and an opening parenthesis behind an old name.  So the count is taken from left to right
with the text in front at hand, the nearest character first (`Text.countBehind`).  Two facts make it
manageable: a text in front that is *shut* lends nothing to what follows (`Text.Shut`), and in a
*bracketed* text nothing is borrowed from what stands in front (`Text.Bracketed`).
-/

namespace CApiUpgrade

/-- The names of allocation functions that the catalog replaces. -/
def Catalog.oldNames : List String :=
  ["PyObject_NEW", "PyObject_NEW_VAR"] ++
    ["PyMem", "PyObject"].flatMap fun family =>
      familyNames.map fun names => family ++ "_" ++ names.1

namespace Text

/-! ### Counting -/

/-- A space or a tab. -/
def isGap (c : Char) : Bool := c == ' ' || c == '\t'

/-- Whether the text in front of a position, the nearest character first, ends in an old name that
is a whole word, perhaps followed by spaces and tabs. -/
def endsInOldName (before : List Char) : Bool :=
  let rest := before.dropWhile isGap
  Catalog.oldNames.any fun name =>
    name.toList.reverse.isPrefixOf rest && !(rest.drop name.toList.length).head?.any isWord

/-- The number of characters of a text that satisfy `p` together with the text in front of them. -/
def countBehind (p : List Char → Char → Bool) : (before : List Char) → List Char → Nat
  | _, [] => 0
  | before, c :: rest => (p before c).toNat + countBehind p (c :: before) rest

/-- The number of arrows, each counted at its head. -/
def arrows (text : List Char) : Nat :=
  countBehind (fun before c => c == '>' && before.head? == some '-') [] text

/-- The number of calls of old allocation functions, each counted at its opening parenthesis. -/
def oldCalls (text : List Char) : Nat :=
  countBehind (fun before c => c == '(' && endsInOldName before) [] text

/-- The debt of a text: its equals signs, semicolons, arrows and calls of old functions. -/
def debt (text : List Char) : Nat :=
  text.count '=' + text.count ';' + arrows text + oldCalls text

/-- Whether a character counts behind a text. -/
def isDue (before : List Char) (c : Char) : Bool :=
  c == '=' || c == ';' || (c == '>' && before.head? == some '-') ||
    (c == '(' && endsInOldName before)

/-- The number of characters of a text that count behind the text in front. -/
def due (before text : List Char) : Nat := countBehind isDue before text

@[simp]
theorem due_nil (before : List Char) : due before [] = 0 := rfl

theorem due_cons (before : List Char) (c : Char) (rest : List Char) :
    due before (c :: rest) = (isDue before c).toNat + due (c :: before) rest := rfl

theorem due_append (before u v : List Char) :
    due before (u ++ v) = due before u + due (u.reverse ++ before) v := by
  induction u generalizing before with
  | nil => simp
  | cons c u ih =>
    rw [List.cons_append, due_cons, due_cons, ih, List.reverse_cons, List.append_assoc,
      List.singleton_append, Nat.add_assoc]

theorem toNat_isDue (before : List Char) (c : Char) :
    (isDue before c).toNat = (c == '=').toNat + (c == ';').toNat +
      (c == '>' && before.head? == some '-').toNat +
      (c == '(' && endsInOldName before).toNat := by
  unfold isDue
  by_cases h₁ : c = '='
  · simp [h₁]
  by_cases h₂ : c = ';'
  · simp [h₂]
  by_cases h₃ : c = '>'
  · simp [h₃]
  simp [beq_false_of_ne h₁, beq_false_of_ne h₂, beq_false_of_ne h₃]

/-- What counts behind one text counts behind another, if arrows and names end alike. -/
theorem isDue_imp {before before' : List Char} {c : Char}
    (hdash : c = '>' → before.head? = some '-' → before'.head? = some '-')
    (hname : c = '(' → endsInOldName before = true → endsInOldName before' = true)
    (h : isDue before c = true) : isDue before' c = true := by
  simp only [isDue, Bool.or_eq_true, Bool.and_eq_true, beq_iff_eq] at h ⊢
  rcases h with (h | ⟨hc, h⟩) | ⟨hc, h⟩
  · exact .inl (.inl h)
  · exact .inl (.inr ⟨hc, hdash hc h⟩)
  · exact .inr ⟨hc, hname hc h⟩

theorem count_cons_eq_add (c d : Char) (rest : List Char) :
    (c :: rest).count d = (c == d).toNat + rest.count d := by
  rw [List.count_cons, Nat.add_comm]
  cases c == d <;> rfl

/-- The four kinds of signs can be counted at once. -/
theorem debt_eq_due (text : List Char) : debt text = due [] text := by
  have hall (before : List Char) : due before text =
      text.count '=' + text.count ';' +
        countBehind (fun before c => c == '>' && before.head? == some '-') before text +
        countBehind (fun before c => c == '(' && endsInOldName before) before text := by
    induction text generalizing before with
    | nil => rfl
    | cons c rest ih =>
      rw [due_cons, ih, toNat_isDue]
      simp only [count_cons_eq_add, countBehind]
      omega
  exact (hall []).symm

/-! ### Shut texts -/

/-- A text in front of a position is shut if nothing of it can become a part of an arrow, of a word
or of a call behind the position. -/
structure Shut (before : List Char) : Prop where
  /-- It does not end in a word character. -/
  apart : before.head?.any isWord = false
  /-- It does not end in a dash. -/
  noDash : before.head? ≠ some '-'
  /-- It does not end in an old name. -/
  noName : endsInOldName before = false

theorem isWord_of_mem_oldName {name : String} (h : name ∈ Catalog.oldNames) {c : Char}
    (hc : c ∈ name.toList) : isWord c = true := by
  have hall : Catalog.oldNames.all (fun name => name.toList.all isWord) = true := by decide +kernel
  exact List.all_eq_true.mp (List.all_eq_true.mp hall name h) c hc

theorem endsInOldName_iff {before : List Char} :
    endsInOldName before = true ↔ ∃ name ∈ Catalog.oldNames, ∃ rest,
      before.dropWhile isGap = name.toList.reverse ++ rest ∧ rest.head?.any isWord = false := by
  simp only [endsInOldName, List.any_eq_true, Bool.and_eq_true, List.isPrefixOf_iff_prefix,
    Bool.not_eq_true']
  constructor
  · rintro ⟨name, hmem, ⟨rest, hrest⟩, hhead⟩
    refine ⟨name, hmem, rest, hrest.symm, ?_⟩
    rw [← hrest, List.drop_left' (by simp)] at hhead
    exact hhead
  · rintro ⟨name, hmem, rest, heq, hhead⟩
    refine ⟨name, hmem, ⟨rest, heq.symm⟩, ?_⟩
    rw [heq, List.drop_left' (by simp)]
    exact hhead

theorem endsInOldName_cons_of_isGap {c : Char} (h : isGap c = true) (before : List Char) :
    endsInOldName (c :: before) = endsInOldName before := by
  simp [endsInOldName, h]

theorem endsInOldName_cons_of_apart {c : Char} (hgap : isGap c = false) (hword : isWord c = false)
    (before : List Char) : endsInOldName (c :: before) = false := by
  rw [← Bool.not_eq_true, endsInOldName_iff]
  rintro ⟨name, hmem, rest, heq, -⟩
  rw [List.dropWhile_cons_of_neg (by simp [hgap])] at heq
  have hc : c ∈ name.toList := by
    have hne : name.toList.reverse ≠ [] := by
      have hall : Catalog.oldNames.all (fun name => !name.toList.isEmpty) = true := by
        decide +kernel
      simpa using List.all_eq_true.mp hall name hmem
    obtain ⟨d, tail, hd⟩ := List.exists_cons_of_ne_nil hne
    rw [hd, List.cons_append, List.cons.injEq] at heq
    rw [← List.mem_reverse, hd, heq.1]
    exact List.mem_cons_self
  simp [isWord_of_mem_oldName hmem hc] at hword

/-- Gaps apart, what ends in an old name behind `before` does so behind every text that does not end
in a word character, provided that `before` does neither. -/
theorem endsInOldName_append {x before before' : List Char}
    (hapart : before.head?.any isWord = false) (hname : endsInOldName before = false)
    (hapart' : before'.head?.any isWord = false) (h : endsInOldName (x ++ before) = true) :
    endsInOldName (x ++ before') = true := by
  by_cases hgaps : ∀ d ∈ x, isGap d = true
  · -- Nothing but gaps in between: `before` itself would have to end in a name.
    rw [endsInOldName, List.dropWhile_append_of_pos hgaps, ← endsInOldName] at h
    simp [hname] at h
  · obtain ⟨name, hmem, rest, heq, hhead⟩ := endsInOldName_iff.mp h
    have hdrop (b : List Char) : (x ++ b).dropWhile isGap = x.dropWhile isGap ++ b := by
      rw [List.dropWhile_append, if_neg]
      intro hnil
      exact hgaps (List.dropWhile_eq_nil_iff.mp (List.isEmpty_iff.mp hnil))
    rw [hdrop] at heq
    refine endsInOldName_iff.mpr ⟨name, hmem, ?_⟩
    rcases List.append_eq_append_iff.mp heq with ⟨z, hz, hbefore⟩ | ⟨z, hz, hrest⟩
    · -- The name would reach into `before`, unless nothing of it is left.
      cases z with
      | nil => exact ⟨before', by rw [hdrop, hz, List.append_nil], hapart'⟩
      | cons d z =>
        have hword : isWord d = true :=
          isWord_of_mem_oldName hmem (List.mem_reverse.mp (hz ▸ by simp))
        simp [hbefore, hword] at hapart
    · refine ⟨z ++ before', by rw [hdrop, hz, List.append_assoc], ?_⟩
      cases z with
      | nil => exact hapart'
      | cons d z => simpa [hrest] using hhead

/-! ### Changing the text in front -/

/-- To put `new` in the place of `old`, in front of a text, lets nothing count in the text that did
not count before. -/
def Eases (new old text : List Char) : Prop :=
  ∀ u c v, text = u ++ c :: v → isDue (u.reverse ++ new) c = true →
    isDue (u.reverse ++ old) c = true

theorem Eases.refl (before text : List Char) : Eases before before text :=
  fun _ _ _ _ h => h

theorem Eases.cons {new old text : List Char} {c : Char} (h : Eases new old (c :: text)) :
    Eases (c :: new) (c :: old) text := by
  intro u d v heq hdue
  have := h (c :: u) d v (by rw [heq, List.cons_append]) (by simpa using hdue)
  simpa using this

theorem Eases.due_le {new old text : List Char} (h : Eases new old text) :
    due new text ≤ due old text := by
  induction text generalizing new old with
  | nil => exact le_rfl
  | cons c rest ih =>
    have hfirst : (isDue new c).toNat ≤ (isDue old c).toNat :=
      Bool.toNat_le_toNat (h [] c rest rfl)
    have hrest := ih h.cons
    rw [due_cons, due_cons]
    omega

/-- A dash in front of the head of an arrow stands in the text itself, if not in front of it. -/
theorem head?_append_of_dash {u new : List Char} (hnew : u = [] → new.head? ≠ some '-')
    (old : List Char) (h : (u.reverse ++ new).head? = some '-') :
    (u.reverse ++ old).head? = some '-' := by
  rcases List.eq_nil_or_concat u with rfl | ⟨u, d, rfl⟩
  · exact absurd h (hnew rfl)
  · simpa using h

/-- What counts behind a shut text counts behind every text that does not end in a word
character. -/
theorem Shut.eases {new old : List Char} (h : Shut new) (hold : old.head?.any isWord = false)
    (text : List Char) : Eases new old text :=
  fun _ _ _ _ => isDue_imp (fun _ => head?_append_of_dash (fun _ => h.noDash) old)
    fun _ => endsInOldName_append h.apart h.noName hold

/-- In a text that does not start with a word character, what counts behind a shut text counts
behind every text. -/
theorem Shut.eases_of_head {new text : List Char} (h : Shut new) (old : List Char)
    (htext : text.head?.any isWord = false) : Eases new old text := by
  intro u c v heq
  refine isDue_imp (fun _ => head?_append_of_dash (fun _ => h.noDash) old) fun _ hname => ?_
  cases u with
  | nil => simp [h.noName] at hname
  | cons d u =>
    -- The first character keeps the text in front apart from what follows.
    have hd : isWord d = false := by simpa [heq] using htext
    have hcut : endsInOldName (d :: new) = false := by
      by_cases hgap : isGap d = true
      · rw [endsInOldName_cons_of_isGap hgap, h.noName]
      · exact endsInOldName_cons_of_apart (by simpa using hgap) hd new
    rw [List.reverse_cons, List.append_assoc, List.singleton_append] at hname ⊢
    exact endsInOldName_append (by simpa using hd) hcut (by simpa using hd) hname

/-! ### Bracketed texts -/

/-- A text is bracketed if all its opening parentheses stand behind an opening bracket and it does
not start with the head of an arrow. -/
structure Bracketed (text : List Char) : Prop where
  /-- The text does not start with the head of an arrow. -/
  noHead : text.head? ≠ some '>'
  /-- A bracket stands in front of every opening parenthesis. -/
  inside : ∀ u v, text = u ++ '(' :: v → '[' ∈ u

/-- An opening bracket hides all that stands in front of it. -/
theorem endsInOldName_of_mem {x before before' : List Char} (h : '[' ∈ x)
    (hname : endsInOldName (x ++ before) = true) : endsInOldName (x ++ before') = true := by
  have hdrop (b : List Char) : (x ++ b).dropWhile isGap = x.dropWhile isGap ++ b := by
    rw [List.dropWhile_append, if_neg]
    intro hnil
    have := List.dropWhile_eq_nil_iff.mp (List.isEmpty_iff.mp hnil) '[' h
    simp [isGap] at this
  -- A bracket is no gap, so it stays in what the name is looked for in; and no name has one.
  have hbracket : '[' ∈ x.dropWhile isGap := by
    rw [← List.takeWhile_append_dropWhile (p := isGap) (l := x), List.mem_append] at h
    rcases h with h | h
    · simpa [isGap] using List.mem_takeWhile_imp h
    · exact h
  obtain ⟨name, hmem, rest, heq, hhead⟩ := endsInOldName_iff.mp hname
  rw [hdrop] at heq
  refine endsInOldName_iff.mpr ⟨name, hmem, ?_⟩
  rcases List.append_eq_append_iff.mp heq with ⟨z, hz, -⟩ | ⟨z, hz, hrest⟩
  · have hmem' : '[' ∈ name.toList := List.mem_reverse.mp (hz ▸ List.mem_append_left z hbracket)
    exact absurd (isWord_of_mem_oldName hmem hmem') (by decide)
  · refine ⟨z ++ before', by rw [hdrop, hz, List.append_assoc], ?_⟩
    cases z with
    | nil =>
      rw [List.append_nil] at hz
      exact absurd (isWord_of_mem_oldName hmem (List.mem_reverse.mp (hz ▸ hbracket))) (by decide)
    | cons d z => simpa [hrest] using hhead

/-- What counts in a bracketed text does not depend on the text in front. -/
theorem Bracketed.eases {text : List Char} (h : Bracketed text) (new old : List Char) :
    Eases new old text := by
  intro u c v heq
  refine isDue_imp ?_ ?_
  · rintro rfl
    refine head?_append_of_dash (fun hu => ?_) old
    exact absurd (by simp [heq, hu]) h.noHead
  · rintro rfl
    exact endsInOldName_of_mem (List.mem_reverse.mpr (h.inside u v heq))

end Text

end CApiUpgrade
