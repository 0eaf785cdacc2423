import CApiUpgrade.Proofs.Spelled

/-!
# Reads of fields

A read of a field such as `obj->ob_type` is replaced by a call.  Where the field is written, or
taken over by a macro that needs a place to store to, it has to stay.  The rules look at both sides
of an access to tell.  `Catalog.mem_ways_memberRead` says exactly what they look for:

* behind the access, an increment, a decrement or an assignment, whatever blanks stand in between
  (`read_not_written`);
* in front of it, the name of a macro that takes over a slot and its opening parenthesis, without
  any blank (`slot_not_wrapped`).

So they miss an increment or a decrement in front of the access (`prefix_increment_wrapped`), and a
slot behind a blank (`spaced_slot_wrapped`).
-/

namespace CApiUpgrade

open Text

/-! ### Looking behind for a text -/

namespace Regex

theorem tests?_literal (text : String) :
    (literal text).tests? = some (text.toList.map fun c => (· == c)) ∧
      (literal text).minWidth = text.toList.length := by
  have hseq : ∀ cs : List Char, (seq (cs.map char)).tests? = some (cs.map fun c => (· == c)) ∧
      (seq (cs.map char)).minWidth = cs.length := by
    intro cs
    induction cs with
    | nil => exact ⟨rfl, rfl⟩
    | cons c cs ih =>
      cases cs with
      | nil => exact ⟨rfl, rfl⟩
      | cons d cs =>
        change (cat (char c) (seq ((d :: cs).map char))).tests? = _ ∧
          (cat (char c) (seq ((d :: cs).map char))).minWidth = _
        rw [tests?, minWidth, ih.1, ih.2]
        exact ⟨rfl, Nat.add_comm 1 (d :: cs).length⟩
  exact hseq _

theorem fits_map_beq {cs x : List Char} :
    fits (cs.map fun c => (· == c)) x = true ↔ cs <+: x := by
  induction cs generalizing x with
  | nil => simp [fits]
  | cons c cs ih =>
    cases x with
    | nil => simp [fits]
    | cons y x =>
      rw [List.map_cons, fits, Bool.and_eq_true, ih, List.cons_prefix_cons, beq_iff_eq]
      exact and_congr_left fun _ => eq_comm

/-- Looking behind for a text. -/
theorem mem_ways_notAfter_literal {text : String} {terms : Terms} {c : Cursor} {caps : Captures}
    {w : Way} : w ∈ (notAfter (literal text)).ways terms c caps ↔
      w = (c, caps) ∧ ¬ text.toList.reverse <+: c.before := by
  obtain ⟨htests, hwidth⟩ := tests?_literal text
  have hlen : (literal text).minWidth = (text.toList.map fun c => (· == c)).length := by
    rw [hwidth, List.length_map]
  rw [notAfter, hlen, ways_notAfter htests, ← fits_map_beq, ← List.map_reverse]
  split_ifs with h
  · simp only [h, List.not_mem_nil, not_true_eq_false, and_false]
  · simp only [h, List.mem_singleton, Bool.false_eq_true, not_false_eq_true, and_true]

/-- Looking ahead. -/
theorem mem_ways_notBefore {r : Regex} {terms : Terms} {c : Cursor} {caps : Captures} {w : Way} :
    w ∈ (notBefore r).ways terms c caps ↔ w = (c, caps) ∧ r.ways terms c caps = [] := by
  simp only [notBefore, ways, ↓reduceIte, List.isEmpty_iff]
  split_ifs with h <;> simp [h]

theorem mem_ways_notBefore_char {x : Char} {terms : Terms} {c : Cursor} {caps : Captures}
    {w : Way} : w ∈ (notBefore (char x)).ways terms c caps ↔
      w = (c, caps) ∧ c.after.head? ≠ some x := by
  rw [mem_ways_notBefore, ways_of_takes? rfl, Way.step, Cursor.next?]
  cases c.after with
  | nil => simp
  | cons y rest => by_cases h : y = x <;> simp [h]

end Regex

namespace Catalog

open Regex

/-! ### What stands behind an access -/

/-- What stands in front of the equals sign of an assignment, if it is a compound one. -/
def combiners : List String := ["+", "-", "*", "/", "%", "&", "|", "^", "<<", ">>"]

/-- What stands behind an access writes to it: an increment, a decrement or an assignment, behind
any blanks.  An equals sign with another one behind it is taken for a comparison. -/
def IsWritten (after : List Char) : Prop :=
  ∃ gap rest, after = gap ++ rest ∧ (∀ c ∈ gap, isBlank c = true) ∧
    ((∃ op ∈ "" :: combiners, ∃ tail, rest = op.toList ++ '=' :: tail ∧ tail.head? ≠ some '=') ∨
      ∃ op ∈ ["++", "--"], op.toList <+: rest)

/-- The expression for what may stand in front of the equals sign. -/
def combiner : Regex :=
  optional (choice [among ("-+*/%&|^".toList.map .char), literal "<<", literal ">>"])

theorem spells_combiner {ρ : Reading} {w : List Char} :
    combiner.Spells ρ w ↔ ∃ op ∈ "" :: combiners, w = op.toList := by
  have hamong : ∀ {w : List Char}, (among ("-+*/%&|^".toList.map .char)).Spells ρ w ↔
      ∃ x ∈ "-+*/%&|^".toList, w = [x] := by
    simp [among, Spells, CharClass.contains, ClassItem.contains]
  have hgroups : (literal "<<").groups = [] ∧ (literal ">>").groups = [] ∧
      (among ("-+*/%&|^".toList.map .char)).groups = [] := ⟨rfl, rfl, rfl⟩
  rw [combiner, spells_optional rfl]
  simp only [choice, Spells, hamong, spells_literal, groups, hgroups]
  simp [combiners]
  grind

/-- The expressions for what writes: an assignment, and an increment or a decrement. -/
theorem notWritten_eq : notWritten =
    notBefore (blanks ++ combiner ++ char '=' ++ notBefore (char '=')) ++
      notBefore (blanks ++ alt (literal "++") (literal "--")) := rfl

variable {terms : Terms} {c : Cursor} {caps : Captures} {w : Way}

theorem ways_assignment_ne_nil (caps : Captures) (hroom : c.after.length ≤ terms.bound) :
    (blanks ++ combiner ++ char '=' ++ notBefore (char '=')).ways terms c caps ≠ [] ↔
      ∃ gap rest, c.after = gap ++ rest ∧ (∀ c ∈ gap, isBlank c = true) ∧
        ∃ op ∈ "" :: combiners, ∃ tail, rest = op.toList ++ '=' :: tail ∧
        tail.head? ≠ some '=' := by
  -- Up to the equals sign the expression is plain: blanks and an operator or none.  Only the last
  -- part looks ahead.
  have hfront : ∀ {w : List Char},
      (blanks ++ combiner ++ char '=').Spells (.of fun _ => none) w ↔
        ∃ gap, (∀ c ∈ gap, isBlank c = true) ∧
          ∃ op ∈ "" :: combiners, w = gap ++ op.toList ++ ['='] := by
    intro w
    constructor
    · rintro ⟨_, _, rfl, ⟨gap, x, rfl, hgap, hx⟩, rfl⟩
      obtain ⟨op, hop, rfl⟩ := spells_combiner.mp hx
      exact ⟨gap, spells_blanks.mp hgap, op, hop, rfl⟩
    · rintro ⟨gap, hgap, op, hop, rfl⟩
      exact ⟨_, _, rfl, ⟨_, _, rfl, spells_blanks.mpr hgap, spells_combiner.mpr ⟨op, hop, rfl⟩⟩,
        rfl⟩
  constructor
  · intro hne
    obtain ⟨w, hw⟩ := List.exists_mem_of_ne_nil _ hne
    obtain ⟨⟨d, k⟩, hd, hw⟩ := List.mem_flatMap.mp hw
    obtain ⟨-, hhead⟩ := mem_ways_notBefore_char.mp hw
    obtain ⟨-, u, hl, hu⟩ := (mem_ways_iff_spells rfl (.of fun _ => none) hroom).mp hd
    obtain ⟨gap, hgap, op, hop, rfl⟩ := hfront.mp hu
    refine ⟨gap, _, ?_, hgap, op, hop, d.after, rfl, hhead⟩
    rw [hl.after]
    simp
  · rintro ⟨gap, _, hafter, hgap, op, hop, tail, rfl, hhead⟩
    have hsplit : c.after = (gap ++ op.toList ++ ['=']) ++ tail := by rw [hafter]; simp
    obtain ⟨d, hl, htail⟩ := Cursor.exists_leads hsplit
    have hd := mem_ways_of_spells rfl (hfront.mpr ⟨gap, hgap, op, hop, rfl⟩) caps hl hroom
    exact List.ne_nil_of_mem (List.mem_flatMap.mpr
      ⟨_, hd, mem_ways_notBefore_char.mpr ⟨rfl, htail ▸ hhead⟩⟩)

theorem ways_step_ne_nil (caps : Captures) (hroom : c.after.length ≤ terms.bound) :
    (blanks ++ alt (literal "++") (literal "--")).ways terms c caps ≠ [] ↔
      ∃ gap rest, c.after = gap ++ rest ∧ (∀ c ∈ gap, isBlank c = true) ∧
        ∃ op ∈ ["++", "--"], op.toList <+: rest := by
  -- The matches are blanks and one of the two operators.
  have hspells : ∀ {w : List Char},
      (blanks ++ alt (literal "++") (literal "--")).Spells (.of fun _ => none) w ↔
        ∃ gap, (∀ c ∈ gap, isBlank c = true) ∧ ∃ op ∈ ["++", "--"], w = gap ++ op.toList := by
    have halt :
        ∀ {w : List Char}, (alt (literal "++") (literal "--")).Spells (.of fun _ => none) w ↔
        ∃ op ∈ ["++", "--"], w = op.toList := by
      have hgroups : (literal "++").groups = [] ∧ (literal "--").groups = [] := ⟨rfl, rfl⟩
      simp [Spells, spells_literal, hgroups]
    intro w
    constructor
    · rintro ⟨gap, x, rfl, hgap, hx⟩
      obtain ⟨op, hop, rfl⟩ := halt.mp hx
      exact ⟨gap, spells_blanks.mp hgap, op, hop, rfl⟩
    · rintro ⟨gap, hgap, op, hop, rfl⟩
      exact ⟨_, _, rfl, spells_blanks.mpr hgap, halt.mpr ⟨op, hop, rfl⟩⟩
  constructor
  · intro hne
    obtain ⟨⟨d, k⟩, hw⟩ := List.exists_mem_of_ne_nil _ hne
    obtain ⟨-, u, hl, hu⟩ := (mem_ways_iff_spells rfl (.of fun _ => none) hroom).mp hw
    obtain ⟨gap, hgap, op, hop, rfl⟩ := hspells.mp hu
    refine ⟨gap, _, ?_, hgap, op, hop, List.prefix_append op.toList d.after⟩
    rw [hl.after, List.append_assoc]
  · rintro ⟨gap, _, hafter, hgap, op, hop, tail, rfl⟩
    rw [← List.append_assoc] at hafter
    obtain ⟨d, hl, -⟩ := Cursor.exists_leads hafter
    exact List.ne_nil_of_mem
      (mem_ways_of_spells rfl (hspells.mpr ⟨gap, hgap, op, hop, rfl⟩) caps hl hroom)

/-- **Looking ahead of an access**: what stands behind it does not write to it. -/
theorem mem_ways_notWritten (hroom : c.after.length ≤ terms.bound) :
    w ∈ notWritten.ways terms c caps ↔ w = (c, caps) ∧ ¬ IsWritten c.after := by
  have hassignment := ways_assignment_ne_nil caps hroom
  have hstep := ways_step_ne_nil caps hroom
  have hwritten : IsWritten c.after ↔
      (blanks ++ combiner ++ char '=' ++ notBefore (char '=')).ways terms c caps ≠ [] ∨
        (blanks ++ alt (literal "++") (literal "--")).ways terms c caps ≠ [] := by
    rw [hassignment, hstep]
    simp only [IsWritten, and_or_left, exists_or]
  rw [hwritten, not_or, not_not, not_not, notWritten_eq]
  constructor
  · intro h
    obtain ⟨v, hv, hw⟩ := List.mem_flatMap.mp h
    obtain ⟨rfl, hfirst⟩ := mem_ways_notBefore.mp hv
    obtain ⟨rfl, hsecond⟩ := mem_ways_notBefore.mp hw
    exact ⟨rfl, hfirst, hsecond⟩
  · rintro ⟨rfl, hfirst, hsecond⟩
    exact List.mem_flatMap.mpr
      ⟨_, mem_ways_notBefore.mpr ⟨rfl, hfirst⟩, mem_ways_notBefore.mpr ⟨rfl, hsecond⟩⟩

/-! ### What stands in front of an access -/

/-- The macros that take over what a slot refers to, and store to the slot. -/
def slotMacros : List String := ["Py_CLEAR", "Py_SETREF", "Py_XSETREF"]

/-- A position right behind a macro that takes over a slot and its opening parenthesis. -/
def IsSlot (c : Cursor) : Prop :=
  ∃ macroName ∈ slotMacros, (macroName ++ "(").toList <:+ c.before.reverse

theorem mem_ways_notSlot : w ∈ notSlot.ways terms c caps ↔ w = (c, caps) ∧ ¬ IsSlot c := by
  have hslot : IsSlot c ↔ ∃ text ∈ ["Py_CLEAR(", "Py_SETREF(", "Py_XSETREF("],
      text.toList.reverse <+: c.before := by
    simp [IsSlot, slotMacros, ← List.reverse_prefix]
  rw [hslot]
  constructor
  · intro h
    obtain ⟨v, hv, hw⟩ := List.mem_flatMap.mp h
    obtain ⟨u, hu, hv⟩ := List.mem_flatMap.mp hv
    obtain ⟨rfl, hclear⟩ := mem_ways_notAfter_literal.mp hu
    obtain ⟨rfl, hset⟩ := mem_ways_notAfter_literal.mp hv
    obtain ⟨rfl, hxset⟩ := mem_ways_notAfter_literal.mp hw
    exact ⟨rfl, by simpa using ⟨hclear, hset, hxset⟩⟩
  · rintro ⟨rfl, h⟩
    have hnone : ∀ text ∈ ["Py_CLEAR(", "Py_SETREF(", "Py_XSETREF("],
        (c, caps) ∈ (notAfter (literal text)).ways terms c caps := fun text htext =>
      mem_ways_notAfter_literal.mpr ⟨rfl, fun hbehind => h ⟨text, htext, hbehind⟩⟩
    exact List.mem_flatMap.mpr ⟨_, List.mem_flatMap.mpr
      ⟨_, hnone _ (by simp), hnone _ (by simp)⟩, hnone _ (by simp)⟩

theorem basic_memberAccess (member : String) : (Chain.memberAccess member).Basic :=
  .cat (.cat (basic_of_isBasic rfl) (basic_literal member)) (basic_of_isBasic rfl)

/-- **Reads.**  A read is an access that is not found to be a slot or to be written. -/
theorem mem_ways_memberRead {member : String} (hroom : c.after.length ≤ terms.bound) :
    w ∈ (memberRead member).ways terms c [] ↔
      w ∈ (Chain.memberAccess member).ways terms c [] ∧ ¬ IsSlot c ∧ ¬ IsWritten w.1.after := by
  have hbehind : ∀ {v : Way}, v ∈ (Chain.memberAccess member).ways terms c [] →
      v.1.after.length ≤ terms.bound := fun hv => by
    obtain ⟨u, hl⟩ := (basic_memberAccess member).leads_of_mem_ways hv
    exact hl.length_le.trans hroom
  constructor
  · intro h
    obtain ⟨v, hv, hw⟩ := List.mem_flatMap.mp h
    obtain ⟨u, hu, hv⟩ := List.mem_flatMap.mp hv
    obtain ⟨rfl, hslot⟩ := mem_ways_notSlot.mp hu
    obtain ⟨rfl, hwritten⟩ := (mem_ways_notWritten (hbehind hv)).mp hw
    exact ⟨hv, hslot, hwritten⟩
  · rintro ⟨hv, hslot, hwritten⟩
    exact List.mem_flatMap.mpr ⟨w, List.mem_flatMap.mpr ⟨_, mem_ways_notSlot.mpr ⟨rfl, hslot⟩, hv⟩,
      (mem_ways_notWritten (hbehind hv)).mpr ⟨rfl, hwritten⟩⟩

/-! ### Reads in a text -/

/-- The rules that replace the reads of a field. -/
def readRules : List Rule :=
  [readType, readSize, readRefCount, readFrameBack, readFrameCode, readInterpreter, readThreadFrame]

theorem mem_rules_of_mem_readRules {rule : Rule} (hr : rule ∈ readRules) : rule ∈ rules := by
  simp only [readRules, List.mem_cons, List.not_mem_nil, or_false] at hr
  rcases hr with rfl | rfl | rfl | rfl | rfl | rfl | rfl <;> simp [rules]

theorem exists_memberRead {rule : Rule} (hr : rule ∈ readRules) {p : Pattern}
    (hp : p ∈ rule.patterns) : ∃ member, p.regex = memberRead member := by
  simp only [readRules, List.mem_cons, List.not_mem_nil, or_false] at hr
  rcases hr with rfl | rfl | rfl | rfl | rfl | rfl | rfl <;>
    exact ⟨_, congrArg Pattern.regex (List.mem_singleton.mp hp)⟩

/-- What is replaced is an access that is not found to be a slot or to be written. -/
theorem read_of_hits {rule : Rule} (hr : rule ∈ readRules) {p : Pattern} (hp : p ∈ rule.patterns)
    {text : List Char} {hits : List Hit} (h : p.hits text = .ok hits) {hit : Hit}
    (hhit : hit ∈ hits) : ¬ IsSlot hit.start ∧ ¬ IsWritten hit.stop.after := by
  obtain ⟨hmem, u, hl⟩ :=
    (Catalog.regular (mem_rules_of_mem_readRules hr) hp).way_of_hits h hhit
  obtain ⟨member, hmember⟩ := exists_memberRead hr hp
  rw [hmember] at hmem
  exact ((mem_ways_memberRead hl.length_le).mp hmem).2

end Catalog

open Catalog

/-- **What is read is not written** from behind: no increment, no decrement and no assignment
follows what a read rule replaces, whatever blanks stand in between. -/
theorem read_not_written {rule : Rule} (hr : rule ∈ readRules) {p : Pattern}
    (hp : p ∈ rule.patterns) {text : List Char} {hits : List Hit} (h : p.hits text = .ok hits)
    {hit : Hit} (hhit : hit ∈ hits) : ¬ IsWritten hit.stop.after :=
  (read_of_hits hr hp h hhit).2

/-- A comparison is a read. -/
theorem read_not_written_comparison :
    ∃ p ∈ readRefCount.patterns, ∃ hits, p.hits "if (o->ob_refcnt == 1) f();".toList = .ok hits ∧
      ∃ hit ∈ hits, hit.stop.after = " == 1) f();".toList ∧ ¬ IsWritten hit.stop.after := by
  have hany : readRefCount.patterns.any (fun p =>
      (p.hits "if (o->ob_refcnt == 1) f();".toList).toOption.any fun hits =>
        hits.any fun hit => decide (hit.stop.after = " == 1) f();".toList)) = true := by
    rw [← Evaluation.hits_eq]
    decide +kernel
  simp only [List.any_eq_true, Option.any_eq_true, decide_eq_true_eq] at hany
  obtain ⟨p, hp, hits, hok, hit, hhit, hafter⟩ := hany
  have hhits := eq_ok_of_toOption hok
  have hrule : readRefCount ∈ readRules := by simp [readRules]
  exact ⟨p, hp, hits, hhits, hit, hhit, hafter, read_not_written hrule hp hhits hhit⟩

/-- **An increment in front** of an access writes to it as well, and it is not seen. -/
theorem prefix_increment_wrapped :
    readRefCount.apply "++o->ob_refcnt;".toList = .ok "++Py_REFCNT(o);".toList :=
  Evaluation.apply_eq_ok (by decide +kernel)

/-- **No slot is wrapped** right behind the macro that takes it over: where a match of a read rule
stands behind such a macro and its parenthesis, a blank stands on either side of the parenthesis. -/
theorem slot_not_wrapped {rule : Rule} (hr : rule ∈ readRules) {p : Pattern}
    (hp : p ∈ rule.patterns) {text : List Char} {hits : List Hit} (h : p.hits text = .ok hits)
    {hit : Hit} (hhit : hit ∈ hits) {macroName : String} (hslot : macroName ∈ slotMacros)
    {front gap gap' : List Char}
    (hbefore : hit.start.before.reverse = front ++ macroName.toList ++ gap ++ '(' :: gap') :
    gap ≠ [] ∨ gap' ≠ [] := by
  by_contra hnone
  rw [not_or, not_not, not_not] at hnone
  obtain ⟨rfl, rfl⟩ := hnone
  refine (read_of_hits hr hp h hhit).1 ⟨macroName, hslot, front, ?_⟩
  rw [hbefore, String.toList_append]
  simp

/-- A slot behind a blank. -/
theorem slot_not_wrapped_spaced :
    ∃ p ∈ readFrameCode.patterns, ∃ hits, p.hits "Py_CLEAR( frame->f_code);".toList = .ok hits ∧
      ∃ hit ∈ hits, hit.start.before.reverse = "Py_CLEAR( ".toList ∧
        ("".toList ≠ [] ∨ " ".toList ≠ []) := by
  have hany : readFrameCode.patterns.any (fun p =>
      (p.hits "Py_CLEAR( frame->f_code);".toList).toOption.any fun hits =>
        hits.any fun hit => decide (hit.start.before.reverse = "Py_CLEAR( ".toList)) = true := by
    rw [← Evaluation.hits_eq]
    decide +kernel
  simp only [List.any_eq_true, Option.any_eq_true, decide_eq_true_eq] at hany
  obtain ⟨p, hp, hits, hok, hit, hhit, hbefore⟩ := hany
  have hhits := eq_ok_of_toOption hok
  refine ⟨p, hp, hits, hhits, hit, hhit, hbefore, ?_⟩
  exact @slot_not_wrapped readFrameCode (by simp [readRules]) p hp _ hits hhits hit hhit "Py_CLEAR"
    (by simp [slotMacros]) [] "".toList " ".toList (hbefore.trans (by decide))

/-- **A slot behind a blank** is wrapped, on either side of the parenthesis. -/
theorem spaced_slot_wrapped :
    readFrameCode.apply "Py_CLEAR( frame->f_code);".toList =
        .ok "Py_CLEAR( _PyFrame_GetCodeBorrow(frame));".toList ∧
      readFrameCode.apply "Py_CLEAR (frame->f_code);".toList =
        .ok "Py_CLEAR (_PyFrame_GetCodeBorrow(frame));".toList :=
  ⟨Evaluation.apply_eq_ok (by decide +kernel), Evaluation.apply_eq_ok (by decide +kernel)⟩

end CApiUpgrade
