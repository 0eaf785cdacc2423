import CApiUpgrade.Proofs.ChainReads
import Mathlib.Data.Bool.AllAny

/-!
# Idioms of reference counting

Before a call existed that does it at once, an object was returned, stored or replaced in two or
three statements, some of which maintain reference counts.  An `Idiom` is such a run of statements,
written one to a line, and `Idiom.folded` is the one statement that takes its place.

The types carry the conditions on their texts: a variable is not the null pointer, a slot is a chain
of members without blanks, and a stored value neither starts nor ends with a blank.  A `Block` is an
idiom under some indentation, and a *listing* is a list of blocks with an empty line between them.
-/

namespace CApiUpgrade.Ownership

open Text Catalog

/-! ### Operands -/

/-- An identifier. -/
abbrev Identifier := { w : List Char // isIdentifier w = true }

/-- A variable: an identifier, but not the null pointer. -/
structure Variable where
  /-- The identifier. -/
  name : Identifier
  /-- It is not the null pointer. -/
  name_ne_null : name.1 ≠ "NULL".toList

/-- What stands between the brackets of an index: letters of the English alphabet, digits and
underscores. -/
abbrev Index := { w : List Char // w ≠ [] ∧ ∀ c ∈ w, isIdentifierChar c = true }

/-- A part of a slot: an identifier and its indices. -/
structure Part where
  /-- The identifier. -/
  name : Identifier
  /-- The indices. -/
  indices : List Index

/-- How a part is written. -/
def Part.text (p : Part) : List Char := p.name.1 ++ p.indices.flatMap fun i => '[' :: i.1 ++ [']']

/-- What joins a part to the one in front of it. -/
inductive Joint where
  | arrow | dot

/-- How a joint is written. -/
def Joint.text : Joint → List Char
  | arrow => "->".toList
  | dot => ['.']

/-- A place that holds a reference: a chain of members, dereferenced any number of times. -/
structure Slot where
  /-- The number of dereferences. -/
  stars : Nat
  /-- The first part. -/
  first : Part
  /-- The other parts, each with what joins it to the one in front of it. -/
  rest : List (Joint × Part)

/-- How a slot is written. -/
def Slot.text (s : Slot) : List Char :=
  List.replicate s.stars '*' ++ (s.first.text ++ s.rest.flatMap fun (joint, p) =>
    joint.text ++ p.text)

/-- A variable as a slot. -/
def Slot.ofIdentifier (name : Identifier) : Slot := ⟨0, ⟨name, []⟩, []⟩

/-- The left side of an assignment. -/
inductive Target where
  /-- A slot. -/
  | slot (s : Slot)
  /-- The declaration of a pointer to values of a type. -/
  | declared (type name : Identifier)

/-- How the left side of an assignment is written. -/
def Target.text : Target → List Char
  | slot s => s.text
  | declared type name => type.1 ++ (" *".toList ++ name.1)

/-- A text with neither a blank at its start nor one at its end. -/
structure Trimmed (w : List Char) : Prop where
  /-- The first character is not blank. -/
  first : ∃ c, w.head? = some c ∧ isBlank c = false
  /-- Nor is the last one. -/
  last : ∃ c, w.getLast? = some c ∧ isBlank c = false

/-- A text on one line without the characters that end or split a statement. -/
def Calm (w : List Char) : Prop := ∀ c ∈ w, c ∉ ";\n\x7b=".toList

/-- A value that is stored in a slot. -/
structure Value where
  /-- How it is written. -/
  text : List Char
  /-- No blank stands at either end. -/
  trimmed : Trimmed text
  /-- It is on one line, and no statement ends in it. -/
  calm : Calm text
  /-- It is not the null pointer. -/
  text_ne_null : text ≠ "NULL".toList

/-! ### Statements -/

/-- A statement of an idiom. -/
inductive Statement where
  /-- `function(argument);` -/
  | call (function : String) (argument : List Char)
  /-- `return value;` -/
  | giveBack (value : List Char)
  /-- `target = value;` -/
  | assign (target value : List Char)

namespace Statement

/-- How a statement is written, up to its semicolon. -/
def body : Statement → List Char
  | call function argument => function.toList ++ '(' :: (argument ++ [')'])
  | giveBack value => "return ".toList ++ value
  | assign target value => target ++ (" = ".toList ++ value)

/-- How a statement is written. -/
def text (s : Statement) : List Char := s.body ++ [';']

theorem body_call (function : String) (argument : List Char) :
    (call function argument).body = function.toList ++ '(' :: (argument ++ [')']) := rfl

theorem body_giveBack (value : List Char) : (giveBack value).body = "return ".toList ++ value := rfl

theorem body_assign (target value : List Char) :
    (assign target value).body = target ++ (" = ".toList ++ value) := rfl

end Statement

/-! ### Idioms -/

/-- A macro that adds a reference, and the function that returns a new one. -/
abbrev Increment := { e : String × String // e ∈ increments }

/-- A macro that drops a reference, and the macro that replaces the value of a slot. -/
abbrev Decrement := { e : String × String // e ∈ decrements }

/-- Statements that maintain reference counts.  In `INC(v);` the macro is an increment, and in
`DEC(slot);` a decrement. -/
inductive Idiom where
  /-- `INC(v); return v;` -/
  | returned (add : Increment) (v : Variable)
  /-- `INC(v); target = v;` -/
  | added (add : Increment) (target : Target) (v : Variable)
  /-- `target = v; INC(v);` -/
  | stored (add : Increment) (target : Target) (v : Variable)
  /-- `slot = v; INC(slot);` -/
  | kept (add : Increment) (slot : Slot) (v : Variable)
  /-- `Py_XDECREF(slot); slot = NULL;` -/
  | cleared (slot : Slot)
  /-- `DEC(slot); slot = value;` -/
  | replaced (drop : Decrement) (slot : Slot) (value : Value)
  /-- `INC(v); DEC(slot); slot = v;` -/
  | addedFirst (drop : Decrement) (add : Increment) (slot : Slot) (v : Variable)
  /-- `DEC(slot); INC(v); slot = v;` -/
  | droppedFirst (drop : Decrement) (add : Increment) (slot : Slot) (v : Variable)

namespace Idiom

/-- A call that returns a new reference to the object of a variable. -/
def newRef (add : Increment) (v : Variable) : List Char := (Statement.call add.1.2 v.name.1).body

/-- A call that replaces the value of a slot. -/
def setRef (drop : Decrement) (slot : Slot) (value : List Char) : Statement :=
  .call drop.1.2 (slot.text ++ (", ".toList ++ value))

/-- The statements of an idiom. -/
def statements : Idiom → List Statement
  | returned add v => [.call add.1.1 v.name.1, .giveBack v.name.1]
  | added add target v => [.call add.1.1 v.name.1, .assign target.text v.name.1]
  | stored add target v => [.assign target.text v.name.1, .call add.1.1 v.name.1]
  | kept add slot v => [.assign slot.text v.name.1, .call add.1.1 slot.text]
  | cleared slot => [.call "Py_XDECREF" slot.text, .assign slot.text "NULL".toList]
  | replaced drop slot value => [.call drop.1.1 slot.text, .assign slot.text value.text]
  | addedFirst drop add slot v =>
    [.call add.1.1 v.name.1, .call drop.1.1 slot.text, .assign slot.text v.name.1]
  | droppedFirst drop add slot v =>
    [.call drop.1.1 slot.text, .call add.1.1 v.name.1, .assign slot.text v.name.1]

/-- The statement that takes the place of an idiom. -/
def folded : Idiom → Statement
  | returned add v => .giveBack (newRef add v)
  | added add target v | stored add target v => .assign target.text (newRef add v)
  | kept add slot v => .assign slot.text (newRef add v)
  | cleared slot => .call "Py_CLEAR" slot.text
  | replaced drop slot value => setRef drop slot value.text
  | addedFirst drop add slot v | droppedFirst drop add slot v => setRef drop slot (newRef add v)

end Idiom

/-! ### Listings -/

/-- Spaces and tabs. -/
abbrev Indent := { w : List Char // ∀ c ∈ w, Scan.isGap c = true }

/-- Statements on consecutive lines, under one indentation. -/
structure Paragraph where
  /-- The indentation. -/
  indent : Indent
  /-- The statements. -/
  statements : List Statement

/-- How a paragraph is written: one statement to a line. -/
def Paragraph.text (p : Paragraph) : List Char :=
  "\n".toList.intercalate (p.statements.map fun s => p.indent.1 ++ s.text)

/-- How paragraphs are written: with an empty line between them. -/
def listing (ps : List Paragraph) : List Char := "\n\n".toList.intercalate (ps.map Paragraph.text)

/-- An idiom under some indentation. -/
structure Block where
  /-- The indentation. -/
  indent : Indent
  /-- The idiom. -/
  idiom : Idiom

/-- The statements of a block. -/
def Block.paragraph (b : Block) : Paragraph := ⟨b.indent, b.idiom.statements⟩

/-- What is left of a block: one statement under the same indentation. -/
def Block.folded (b : Block) : Paragraph := ⟨b.indent, [b.idiom.folded]⟩

/-! ### Characters -/

/-- Whether a character can occur in a variable or a slot. -/
def isOperandChar (c : Char) : Bool := isIdentifierChar c || decide (c ∈ "*[]->.".toList)

/-- Such a character is not blank, and it neither ends nor splits a statement. -/
theorem of_isOperandChar {c : Char} (h : isOperandChar c = true) :
    isBlank c = false ∧ c ∉ ";\n\x7b=(".toList := by
  rw [isOperandChar, Bool.or_eq_true, decide_eq_true_eq] at h
  rcases h with h | h
  · have hnone : ∀ d ∈ ";\n\x7b=(".toList, isIdentifierChar d = false :=
      List.all_iff_forall_prop.mp (by decide)
    refine ⟨isBlank_of_isIdentifierChar h, fun hin => ?_⟩
    rw [hnone c hin] at h
    cases h
  · have hmarks : ∀ d ∈ "*[]->.".toList, isBlank d = false ∧ d ∉ ";\n\x7b=(".toList :=
      List.all_iff_forall_prop.mp (by decide)
    exact hmarks c h

/-- A text of such characters. -/
def IsOperand (w : List Char) : Prop := w ≠ [] ∧ ∀ c ∈ w, isOperandChar c = true

variable {u v w : List Char}

theorem Calm.append (hu : Calm u) (hv : Calm v) : Calm (u ++ v) :=
  List.forall_mem_append.mpr ⟨hu, hv⟩

/-- What stands between trimmed texts may be anything. -/
theorem Trimmed.append (hu : Trimmed u) (hv : Trimmed v) (w : List Char) :
    Trimmed (u ++ (w ++ v)) := by
  obtain ⟨c, hc, hblank⟩ := hu.first
  obtain ⟨d, hd, hblank'⟩ := hv.last
  refine ⟨⟨c, by rw [List.head?_append, hc]; rfl, hblank⟩, d, ?_, hblank'⟩
  rw [List.getLast?_append, List.getLast?_append, hd]
  rfl

/-- No blanks stand at the start of a trimmed text. -/
theorem Trimmed.eq_nil_of_blanks_append (h : Trimmed (u ++ v)) (hu : ∀ c ∈ u, isBlank c = true) :
    u = [] := by
  obtain ⟨c, hc, hblank⟩ := h.first
  cases u with
  | nil => rfl
  | cons d u =>
    obtain rfl : d = c := Option.some.inj hc
    simp [hu d List.mem_cons_self] at hblank

/-- Nor do they stand at its end. -/
theorem Trimmed.eq_nil_of_append_blanks (h : Trimmed (u ++ v)) (hv : ∀ c ∈ v, isBlank c = true) :
    v = [] := by
  obtain ⟨c, hc, hblank⟩ := h.last
  refine List.eq_nil_iff_forall_not_mem.mpr fun d hd => ?_
  -- Otherwise the last character of the whole would be one of the blanks.
  have hne : v ≠ [] := List.ne_nil_of_mem hd
  rw [List.getLast?_append, List.getLast?_eq_some_getLast hne, Option.some_or,
    Option.some.injEq] at hc
  have hlast := hv c (hc ▸ List.getLast_mem hne)
  simp [hblank] at hlast

namespace IsOperand

/-- A text of such characters has no blanks at its ends, since it has none at all. -/
theorem trimmed (h : IsOperand w) : Trimmed w := by
  obtain ⟨hne, hchars⟩ := h
  have hblank : ∀ c ∈ w, isBlank c = false := fun c hc => (of_isOperandChar (hchars c hc)).1
  exact ⟨⟨w.head hne, List.head?_eq_some_head hne, hblank _ (List.head_mem hne)⟩,
    w.getLast hne, List.getLast?_eq_some_getLast hne, hblank _ (List.getLast_mem hne)⟩

/-- It holds none of the characters that tell statements apart. -/
theorem notMem (h : IsOperand w) {c : Char} (hc : c ∈ ";\n\x7b=(".toList) : c ∉ w :=
  fun hin => (of_isOperandChar (h.2 c hin)).2 hc

theorem calm (h : IsOperand w) : Calm w := by
  have hsub : ∀ c ∈ ";\n\x7b=".toList, c ∈ ";\n\x7b=(".toList :=
    List.all_iff_forall_prop.mp (by decide)
  exact fun c hc hin => h.notMem (hsub c hin) hc

end IsOperand

theorem isOperand_of_isIdentifier (h : isIdentifier w = true) : IsOperand w := by
  refine ⟨?_, fun c hc => ?_⟩
  · rintro rfl
    simp [isIdentifier] at h
  · rw [isOperandChar, identifierChars_of_isIdentifier h c hc, Bool.true_or]

theorem Variable.isOperand (v : Variable) : IsOperand v.name.1 := isOperand_of_isIdentifier v.name.2

theorem Part.isOperand (p : Part) : IsOperand p.text := by
  obtain ⟨hne, hname⟩ := isOperand_of_isIdentifier p.name.2
  refine ⟨by simp [Part.text, hne], List.forall_mem_append.mpr ⟨hname, fun c hc => ?_⟩⟩
  -- In an index stand brackets and what is between them.
  obtain ⟨i, -, hc⟩ := List.mem_flatMap.mp hc
  simp only [List.mem_cons, List.mem_append, List.not_mem_nil, or_false] at hc
  rcases hc with (rfl | hc) | rfl
  · decide
  · rw [isOperandChar, i.2.2 c hc, Bool.true_or]
  · decide

/-- A slot is an operand, as its parts are: it has no blanks and no parentheses. -/
theorem Slot.isOperand (s : Slot) : IsOperand s.text := by
  obtain ⟨hne, hfirst⟩ := s.first.isOperand
  refine ⟨by simp [Slot.text, hne], ?_⟩
  simp only [Slot.text, List.forall_mem_append, List.mem_flatMap]
  refine ⟨fun c hc => ?_, hfirst, ?_⟩
  · rw [List.eq_of_mem_replicate hc]
    decide
  · rintro c ⟨⟨joint, p⟩, -, hc⟩
    rcases List.mem_append.mp hc with hc | hc
    · cases joint with
      | arrow =>
        have harrow : ∀ d ∈ "->".toList, isOperandChar d = true :=
          List.all_iff_forall_prop.mp (by decide)
        exact harrow c hc
      | dot =>
        rw [List.mem_singleton.mp hc]
        decide
    · exact p.isOperand.2 c hc

/-- The left side of an assignment is trimmed.  Only a declaration has a blank, and it is inside. -/
theorem Target.trimmed (t : Target) : Trimmed t.text := by
  cases t with
  | slot s => exact s.isOperand.trimmed
  | declared type name =>
    exact (isOperand_of_isIdentifier type.2).trimmed.append
      (isOperand_of_isIdentifier name.2).trimmed _

/-- Nothing in it ends or splits a statement or opens a parenthesis. -/
theorem Target.notMem (t : Target) {c : Char} (hc : c ∈ ";\n\x7b=(".toList) : c ∉ t.text := by
  cases t with
  | slot s => exact s.isOperand.notMem hc
  | declared type name =>
    have hstar : ∀ d ∈ ";\n\x7b=(".toList, d ∉ " *".toList :=
      List.all_iff_forall_prop.mp (by decide)
    simp only [Target.text, List.mem_append, not_or]
    exact ⟨(isOperand_of_isIdentifier type.2).notMem hc, hstar c hc,
      (isOperand_of_isIdentifier name.2).notMem hc⟩

/-! ### Sound statements -/

/-- What the texts of a statement have to be like, so that they can be told apart. -/
def Statement.Sound : Statement → Prop
  | call function argument => isIdentifier function.toList = true ∧ Trimmed argument ∧ Calm argument
  | giveBack value => Trimmed value ∧ Calm value
  | assign target value => (Trimmed target ∧ Calm target ∧ '(' ∉ target) ∧
    Trimmed value ∧ Calm value

/-- The body of a sound statement starts with a character that is not blank, and it is on one
line. -/
theorem Statement.Sound.body_line {s : Statement} (h : s.Sound) :
    (∃ c, s.body.head? = some c ∧ isBlank c = false) ∧ ';' ∉ s.body ∧ '\n' ∉ s.body := by
  -- The texts are calm, and of the rest the semicolon alone is missing from the body.
  have hcalm : ∀ {w : List Char}, Calm w → ';' ∉ w ∧ '\n' ∉ w := fun hw =>
    ⟨fun hin => hw _ hin (by decide), fun hin => hw _ hin (by decide)⟩
  cases s with
  | call function argument =>
    obtain ⟨hfunction, -, hargument⟩ := h
    have hoperand := isOperand_of_isIdentifier hfunction
    obtain ⟨c, hc, hblank⟩ := hoperand.trimmed.first
    rw [Statement.body_call]
    refine ⟨⟨c, by rw [List.head?_append, hc]; rfl, hblank⟩, ?_⟩
    simp [hcalm hoperand.calm, hcalm hargument]
  | giveBack value =>
    rw [Statement.body_giveBack]
    refine ⟨⟨'r', by simp, by decide⟩, ?_⟩
    simp [hcalm h.2]
  | assign target value =>
    obtain ⟨⟨htrimmed, htarget, -⟩, -, hvalue⟩ := h
    obtain ⟨c, hc, hblank⟩ := htrimmed.first
    rw [Statement.body_assign]
    refine ⟨⟨c, by rw [List.head?_append, hc]; rfl, hblank⟩, ?_⟩
    simp [hcalm htarget, hcalm hvalue]

/-- The names in the table of increments are identifiers, and so are those in the other table. -/
theorem isIdentifier_of_mem_increments {e : String × String} (h : e ∈ increments) :
    isIdentifier e.1.toList = true ∧ isIdentifier e.2.toList = true := by
  have hall :
      increments.all (fun e => isIdentifier e.1.toList && isIdentifier e.2.toList) = true := by
    decide +kernel
  simpa using List.all_eq_true.mp hall e h

theorem isIdentifier_of_mem_decrements {e : String × String} (h : e ∈ decrements) :
    isIdentifier e.1.toList = true ∧ isIdentifier e.2.toList = true := by
  have hall :
      decrements.all (fun e => isIdentifier e.1.toList && isIdentifier e.2.toList) = true := by
    decide +kernel
  simpa using List.all_eq_true.mp hall e h

namespace Idiom

theorem trimmed_newRef (add : Increment) (v : Variable) : Trimmed (newRef add v) := by
  obtain ⟨c, hc, hblank⟩ :=
    (isOperand_of_isIdentifier (isIdentifier_of_mem_increments add.2).2).trimmed.first
  refine ⟨⟨c, by rw [newRef, Statement.body_call, List.head?_append, hc]; rfl, hblank⟩, ')',
    ?_, by decide⟩
  rw [newRef, Statement.body_call, List.getLast?_append, List.getLast?_cons, List.getLast?_append]
  rfl

theorem calm_newRef (add : Increment) (v : Variable) : Calm (newRef add v) := by
  have hfunction := (isOperand_of_isIdentifier (isIdentifier_of_mem_increments add.2).2).calm
  have hopen : Calm ['('] := List.all_iff_forall_prop.mp (by decide)
  have hclose : Calm [')'] := List.all_iff_forall_prop.mp (by decide)
  exact hfunction.append (hopen.append (v.isOperand.calm.append hclose))

theorem sound_add (add : Increment) (v : Variable) : (Statement.call add.1.1 v.name.1).Sound :=
  ⟨(isIdentifier_of_mem_increments add.2).1, v.isOperand.trimmed, v.isOperand.calm⟩

theorem sound_drop (drop : Decrement) (slot : Slot) : (Statement.call drop.1.1 slot.text).Sound :=
  ⟨(isIdentifier_of_mem_decrements drop.2).1, slot.isOperand.trimmed, slot.isOperand.calm⟩

/-- An assignment is sound if its value is trimmed and calm. -/
theorem sound_assign (target : Target) {value : List Char} (htrimmed : Trimmed value)
    (hcalm : Calm value) : (Statement.assign target.text value).Sound := by
  have hsub : ∀ c ∈ ";\n\x7b=".toList, c ∈ ";\n\x7b=(".toList :=
    List.all_iff_forall_prop.mp (by decide)
  exact ⟨⟨target.trimmed, fun c hc hin => target.notMem (hsub c hin) hc, target.notMem (by decide)⟩,
    htrimmed, hcalm⟩

theorem sound_setRef (drop : Decrement) (slot : Slot) {value : List Char} (htrimmed : Trimmed value)
    (hcalm : Calm value) : (setRef drop slot value).Sound := by
  have hcomma : Calm ", ".toList := List.all_iff_forall_prop.mp (by decide)
  exact ⟨(isIdentifier_of_mem_decrements drop.2).2, slot.isOperand.trimmed.append htrimmed _,
    slot.isOperand.calm.append (hcomma.append hcalm)⟩

/-- The statements of an idiom are sound. -/
theorem sound_of_mem_statements {i : Idiom} {s : Statement} (h : s ∈ i.statements) : s.Sound := by
  -- Three kinds of idioms end in such an assignment.
  have hassign : ∀ (slot : Slot) (v : Variable), (Statement.assign slot.text v.name.1).Sound :=
    fun slot v => sound_assign (.slot slot) v.isOperand.trimmed v.isOperand.calm
  cases i with
  | returned add v =>
    rcases List.mem_pair.mp h with rfl | rfl
    · exact sound_add add v
    · exact ⟨v.isOperand.trimmed, v.isOperand.calm⟩
  | added add target v =>
    rcases List.mem_pair.mp h with rfl | rfl
    · exact sound_add add v
    · exact sound_assign target v.isOperand.trimmed v.isOperand.calm
  | stored add target v =>
    rcases List.mem_pair.mp h with rfl | rfl
    · exact sound_assign target v.isOperand.trimmed v.isOperand.calm
    · exact sound_add add v
  | kept add slot v =>
    rcases List.mem_pair.mp h with rfl | rfl
    · exact hassign slot v
    · exact ⟨(isIdentifier_of_mem_increments add.2).1, slot.isOperand.trimmed, slot.isOperand.calm⟩
  | cleared slot =>
    have hnull : Trimmed "NULL".toList ∧ Calm "NULL".toList :=
      ⟨⟨⟨'N', by simp, by decide⟩, 'L', by simp, by decide⟩,
        List.all_iff_forall_prop.mp (by decide)⟩
    rcases List.mem_pair.mp h with rfl | rfl
    · exact ⟨by decide, slot.isOperand.trimmed, slot.isOperand.calm⟩
    · exact sound_assign (.slot slot) hnull.1 hnull.2
  | replaced drop slot value =>
    rcases List.mem_pair.mp h with rfl | rfl
    · exact sound_drop drop slot
    · exact sound_assign (.slot slot) value.trimmed value.calm
  | addedFirst drop add slot v =>
    simp only [statements, List.mem_cons, List.not_mem_nil, or_false] at h
    rcases h with rfl | rfl | rfl
    · exact sound_add add v
    · exact sound_drop drop slot
    · exact hassign slot v
  | droppedFirst drop add slot v =>
    simp only [statements, List.mem_cons, List.not_mem_nil, or_false] at h
    rcases h with rfl | rfl | rfl
    · exact sound_drop drop slot
    · exact sound_add add v
    · exact hassign slot v

/-- So is the statement that takes their place. -/
theorem sound_folded (i : Idiom) : i.folded.Sound := by
  cases i with
  | returned add v => exact ⟨trimmed_newRef add v, calm_newRef add v⟩
  | added add target v | stored add target v =>
    exact sound_assign target (trimmed_newRef add v) (calm_newRef add v)
  | kept add slot v => exact sound_assign (.slot slot) (trimmed_newRef add v) (calm_newRef add v)
  | cleared slot => exact ⟨by decide, slot.isOperand.trimmed, slot.isOperand.calm⟩
  | replaced drop slot value => exact sound_setRef drop slot value.trimmed value.calm
  | addedFirst drop add slot v | droppedFirst drop add slot v =>
    exact sound_setRef drop slot (trimmed_newRef add v) (calm_newRef add v)

end Idiom

end CApiUpgrade.Ownership
