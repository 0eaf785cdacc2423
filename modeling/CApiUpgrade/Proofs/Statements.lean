import CApiUpgrade.Proofs.Finding
import CApiUpgrade.Proofs.Idioms
import CApiUpgrade.Proofs.KeptValues
import CApiUpgrade.Proofs.LinePatterns

/-!
# Statements that the folds look for

A fold looks for statements, and each part of its pattern is to match one of them.

* `Regex.Goes` says that an expression goes along a text: from whatever cursor in front of it, with
  the groups that it refers to, one of its ways ends behind the text and has captured what a table
  of groups says.  It is composed part by part, up to the statements of the idioms (`goes_callOf`,
  `goes_return`, `goes_assign`, `goes_store`).
* In the other direction, a part that matches a sound statement tells its kind (`Shape`) and what it
  captures there: a variable, a slot or a value is all of what stands in its place, as no blank
  stands at its ends and neither an equals sign nor a semicolon inside.
-/

namespace CApiUpgrade

open Text

/-! ### Ways that exist -/

theorem Cursor.skip?_of_leads {c d : Cursor} {w : List Char} (h : c.Leads w d) :
    c.skip? w = some d := by
  induction w generalizing c with
  | nil => rw [h.eq_of_nil]; rfl
  | cons x w ih =>
    rw [← List.singleton_append] at h
    obtain ⟨e, hx, hrest⟩ := h.split
    simp only [Cursor.skip?, hx.next?, beq_self_eq_true, ↓reduceIte]
    exact ih hrest

/-- What some groups have captured is known. -/
def Captures.Agrees (caps : Captures) (texts : String → Option (List Char)) (names : List String) :
    Prop :=
  ∀ n ∈ names, caps.textOf n = texts n

namespace Regex

variable {bound : Nat} {texts : String → Option (List Char)} {a b body r : Regex}
  {before behind u v w : List Char} {names names₁ names₂ : List String}

theorem isText_literal (word : String) : (literal word).isText = true := by
  have hseq : ∀ cs : List Char, (seq (cs.map char)).isText = true := by
    intro cs
    induction cs with
    | nil => rfl
    | cons c cs ih =>
      cases cs with
      | nil => rfl
      | cons d cs => exact ih
  exact hseq _

/-- There is a way to match `w` between two texts, whatever was captured before, if the groups
`names₁` have captured what is known of them.  Behind it, so have the groups `names₂`. -/
def Goes (bound : Nat) (texts : String → Option (List Char)) (r : Regex)
    (before w behind : List Char) (names₁ names₂ : List String) : Prop :=
  ∀ ⦃c d : Cursor⦄ ⦃caps : Captures⦄, c.before = before → c.Leads w d → d.after = behind →
    c.after.length ≤ bound → caps.Agrees texts names₁ →
      ∃ caps', (d, caps') ∈ r.ways ⟨none, bound, none⟩ c caps ∧ caps'.Agrees texts names₂

namespace Goes

theorem text (hr : r.isText = true) {ρ : Reading} (hw : r.Spells ρ w) :
    r.Goes bound texts before w behind names names :=
  fun _ _ _ _ hl _ hroom hcaps => ⟨_, mem_ways_of_spells hr hw _ hl hroom, hcaps⟩

theorem append (ha : a.Goes bound texts before u (v ++ behind) names names₁)
    (hb : b.Goes bound texts (u.reverse ++ before) v behind names₁ names₂) :
    (a ++ b).Goes bound texts before (u ++ v) behind names names₂ := by
  intro c d caps hbefore hl hbehind hroom hcaps
  obtain ⟨e, hu, hv⟩ := hl.split
  obtain ⟨caps₁, hmem₁, hcaps₁⟩ := ha hbefore hu (by rw [hv.after, hbehind]) hroom hcaps
  obtain ⟨caps₂, hmem₂, hcaps₂⟩ :=
    hb (by rw [hu.before, hbefore]) hv hbehind (hu.length_le.trans hroom) hcaps₁
  exact ⟨caps₂, List.mem_flatMap.mpr ⟨_, hmem₁, hmem₂⟩, hcaps₂⟩

theorem group {name : String} (h : body.Goes bound texts before w behind names names₁)
    (ht : texts name = some w) :
    (Regex.group name body).Goes bound texts before w behind names (name :: names₁) := by
  intro c d caps hbefore hl hbehind hroom hcaps
  obtain ⟨caps', hmem, hcaps'⟩ := h hbefore hl hbehind hroom hcaps
  refine ⟨_, List.mem_map.mpr ⟨_, hmem, rfl⟩, fun n hn => ?_⟩
  by_cases hname : n = name
  · have htext : Span.text ⟨c, d⟩ = w := hl.upTo
    rw [hname, Captures.textOf, List.lookup_cons_self, Option.map_some, htext, ht]
  · rw [Captures.textOf, List.lookup_cons, beq_false_of_ne hname]
    exact hcaps' n ((List.mem_cons.mp hn).resolve_left hname)

theorem backReference {name : String} (hname : name ∈ names) (ht : texts name = some w) :
    (Regex.backReference name).Goes bound texts before w behind names names := by
  intro c d caps _ hl _ _ hcaps
  refine ⟨caps, ?_, hcaps⟩
  have htext : (caps.lookup name).map Span.text = some w := (hcaps name hname).trans ht
  obtain ⟨span, hspan, rfl⟩ := Option.map_eq_some_iff.mp htext
  simp [ways, hspan, Cursor.skip?_of_leads hl]

theorem notBefore (h : ∀ {c : Cursor} {caps : Captures}, c.after = behind → c.after.length ≤ bound →
    body.ways ⟨none, bound, none⟩ c caps = []) :
    (Regex.notBefore body).Goes bound texts before [] behind names names := by
  intro c d caps _ hl hbehind hroom hcaps
  obtain rfl := hl.eq_of_nil
  refine ⟨caps, ?_, hcaps⟩
  simp [Regex.notBefore, ways, h hbehind hroom]

theorem wordEdge (hleft : before.head?.any isWord = false)
    (hright : behind.head?.any isWord = true) :
    Regex.wordEdge.Goes bound texts before [] behind names names := by
  intro c d caps hbefore hl hbehind _ hcaps
  obtain rfl := hl.eq_of_nil
  refine ⟨caps, ?_, hcaps⟩
  simp [Regex.wordEdge, ways, Way.provided, Anchor.holds, hbefore, hbehind, hleft, hright]

theorem optional_nil : (Regex.optional body).Goes bound texts before [] behind names names := by
  intro c d caps _ hl _ _ hcaps
  obtain rfl := hl.eq_of_nil
  exact ⟨caps, Way.self_mem_rounds true false 1, hcaps⟩

theorem alt_left (h : a.Goes bound texts before w behind names names₁) :
    (alt a b).Goes bound texts before w behind names names₁ := by
  intro c d caps hbefore hl hbehind hroom hcaps
  obtain ⟨caps', hmem, hcaps'⟩ := h hbefore hl hbehind hroom hcaps
  exact ⟨caps', List.mem_append_left _ hmem, hcaps'⟩

theorem alt_right (h : b.Goes bound texts before w behind names names₁) :
    (alt a b).Goes bound texts before w behind names names₁ := by
  intro c d caps hbefore hl hbehind hroom hcaps
  obtain ⟨caps', hmem, hcaps'⟩ := h hbefore hl hbehind hroom hcaps
  exact ⟨caps', List.mem_append_right _ hmem, hcaps'⟩

/-- In front of what uses up no character. -/
theorem then_nil (ha : a.Goes bound texts before w behind names names₁)
    (hb : b.Goes bound texts (w.reverse ++ before) [] behind names₁ names₂) :
    (a ++ b).Goes bound texts before w behind names names₂ := by
  have h := append (v := []) ha hb
  rwa [List.append_nil] at h

/-- Behind what uses up no character. -/
theorem nil_then (ha : a.Goes bound texts before [] (w ++ behind) names names₁)
    (hb : b.Goes bound texts before w behind names₁ names₂) :
    (a ++ b).Goes bound texts before w behind names names₂ :=
  append (u := []) ha hb

theorem char (x : Char) : (Regex.char x).Goes bound texts before [x] behind names names :=
  text rfl (ρ := .of texts) rfl

theorem literal (word : String) :
    (Regex.literal word).Goes bound texts before word.toList behind names names :=
  text (isText_literal word) (ρ := .of texts) (spells_literal.mpr rfl)

theorem blanks (h : ∀ c ∈ w, isBlank c = true) :
    Regex.blanks.Goes bound texts before w behind names names :=
  text rfl (ρ := .of texts) (spells_blanks.mpr h)

end Goes

end Regex

namespace Ownership

open Catalog Regex

variable {bound : Nat} {texts : String → Option (List Char)} {before behind a v w x : List Char}
  {names names₁ : List String}

/-! ### Parts of statements -/

/-- `INC(var);` -/
abbrev addVariable (add : Increment) : Regex := callOf add.1.1 (group "var" Chain.identifier)

/-- `INC(var);` or `INC(lvalue);`, behind an assignment of the one to the other. -/
abbrev addEither (add : Increment) : Regex :=
  callOf add.1.1 (alt (backReference "var") (backReference "lvalue"))

/-- `DEC(slot);` -/
abbrev dropSlot (drop : Decrement) : Regex := callOf drop.1.1 (group "slot" Chain.dereferenced)

/-- `return var;` -/
abbrev returnVariable : Regex :=
  literal "return" ++ blanks1 ++ valueCast ++ backReference "var" ++ endOfStatement

/-- `target = var;`, the variable being known. -/
abbrev assignVariable : Regex :=
  assignTarget ++ equals ++ valueCast ++ backReference "var" ++ endOfStatement

/-- `target = var;`, the variable being any but the null pointer. -/
abbrev storeVariable : Regex :=
  assignTarget ++ equals ++ valueCast ++
  group "var" (notBefore (literal "NULL" ++ wordEdge) ++ Chain.identifier) ++
    endOfStatement

/-- `slot = NULL;` -/
abbrev nullStore : Regex := slotEquals ++ literal "NULL" ++ endOfStatement

/-- `slot = var;` -/
abbrev variableStore : Regex :=
  slotEquals ++ optional objectCast ++ backReference "var" ++ endOfStatement

/-- What follows is no list of arguments: its first character that is not blank is no
parenthesis. -/
def Uncalled (behind : List Char) : Prop :=
  ∃ gap c rest, behind = gap ++ c :: rest ∧ (∀ d ∈ gap, isBlank d = true) ∧
  isBlank c = false ∧ c ≠ '('

theorem spells_part {ρ : Reading} (p : Part) : Chain.indexed.Spells ρ p.text := by
  refine ⟨_, _, rfl, spells_identifier.mpr p.name.2, p.indices.map fun i => '[' :: i.1 ++ [']'], ?_,
    ?_, Nat.zero_le _, by simp, by simp [groups_of_isText (r := Chain.index) rfl]⟩
  · rw [List.flatMap_def]
  · intro u hu
    obtain ⟨i, -, rfl⟩ := List.mem_map.mp hu
    refine ⟨'[' :: i.1, _, rfl,
      ⟨['['], i.1, rfl, rfl, (spells_repeated_one rfl).mpr ⟨?_, fun c hc => ?_⟩⟩, rfl⟩
    · exact List.length_pos_iff.mpr i.2.1
    · have hnone : ∀ d ∈ "]\n".toList, isIdentifierChar d = false :=
        List.all_iff_forall_prop.mp (by decide)
      have hword := i.2.2 c hc
      have hne : c ≠ ']' ∧ c ≠ '\n' :=
        ⟨fun h => by simp [h, hnone ']' (by decide)] at hword,
          fun h => by simp [h, hnone '\n' (by decide)] at hword⟩
      simpa [CharClass.contains, ClassItem.contains] using hne

theorem goes_slot (s : Slot) (hbehind : Uncalled behind) :
    Chain.dereferenced.Goes bound texts before s.text behind names names := by
  have hstars : (many (char '*')).Spells (.of texts) (List.replicate s.stars '*') :=
    (spells_repeated_one rfl).mpr ⟨Nat.zero_le _, fun c hc => by simp [List.eq_of_mem_replicate hc]⟩
  have hhops : (many Chain.hop).Spells (.of texts) (s.rest.flatMap fun step =>
      step.1.text ++ step.2.text) := by
    refine ⟨s.rest.map fun step => step.1.text ++ step.2.text, by rw [List.flatMap_def],
      fun u hu => ?_, Nat.zero_le _, by simp, by simp [groups_of_isText (r := Chain.hop) rfl]⟩
    obtain ⟨⟨joint, p⟩, -, rfl⟩ := List.mem_map.mp hu
    refine ⟨joint.text, p.text, rfl,
      ⟨joint.text, [], by simp, ⟨[], joint.text, rfl, spells_blanks.mpr (by simp), ?_⟩,
      spells_blanks.mpr (by simp)⟩, spells_part p⟩
    cases joint with
    | arrow => exact .inl ⟨spells_literal.mpr rfl, by simp [groups]⟩
    | dot => exact .inr ⟨rfl, by simp [groups_literal]⟩
  obtain ⟨gap, c, rest, rfl, hgap, hblank, hparen⟩ := hbehind
  refine Goes.append (.text rfl hstars) (.then_nil (.text (r := Chain.indexed ++ many Chain.hop) rfl
    ⟨_, _, rfl, spells_part s.first, hhops⟩) (.notBefore fun {d caps} hafter hroom => ?_))
  -- A parenthesis would have to stand behind blanks only.
  refine List.eq_nil_iff_forall_not_mem.mpr fun way hway => hparen ?_
  obtain ⟨-, u, hl, gap', _, rfl, hgap', rfl⟩ :=
    (mem_ways_iff_spells (r := blanks ++ char '(') rfl (.of fun _ => none) hroom).mp hway
  have htext := hl.after
  rw [hafter, List.append_assoc] at htext
  exact (append_cons_inj (p := fun d => !isBlank d) (fun d hd => by simp [hgap d hd])
    (fun d hd => by simp [spells_blanks.mp hgap' d hd]) (by simp [hblank]) (by decide) htext).2.1

/-! ### Statements that exist -/

theorem isWord_of_isIdentifierChar {c : Char} (h : isIdentifierChar c = true) :
    isWord c = true := by
  simp only [isIdentifierChar, Chain.wordItems, List.any_cons, List.any_nil, ClassItem.contains,
    Bool.or_false, Bool.or_eq_true, Bool.and_eq_true, decide_eq_true_eq, beq_iff_eq] at h
  have hsmall : c.toNat < 128 := by
    have hz : 'Z'.toNat = 90 ∧ 'z'.toNat = 122 ∧ '9'.toNat = 57 ∧ '_'.toNat = 95 := by decide
    have hle : ∀ {d : Char}, c ≤ d → c.toNat ≤ d.toNat := fun h => h
    rcases h with h | h | h | rfl
    · have := hle h.2
      omega
    · have := hle h.2
      omega
    · have := hle h.2
      omega
    · decide
  simp only [isWord, hsmall, ↓reduceIte, isAsciiLetter, isAsciiDigit, Bool.or_eq_true,
    Bool.and_eq_true, decide_eq_true_eq, beq_iff_eq]
  tauto

/-- What stands in front of a statement is no part of a word. -/
abbrev Apart (before : List Char) : Prop := before.head?.any isWord = false

/-- The call of a function with one argument. -/
theorem goes_callOf {function : String} {argument : Regex}
    (hfunction : isIdentifier function.toList = true)
    (hargument : ∀ before, argument.Goes bound texts before a (");".toList ++ behind) names names₁)
    (hbefore : Apart before) :
    (callOf function argument).Goes bound texts before (Statement.call function a).text behind
      names names₁ := by
  -- A word edge stands in front of the function: its name starts with a word character.
  have hright : (function.toList ++ (['('] ++ (a ++ (");".toList ++ behind)))).head?.any isWord =
      true := by
    cases hname : function.toList with
    | nil => simp [hname, isIdentifier] at hfunction
    | cons c rest =>
      have hc := identifierChars_of_isIdentifier hfunction c (by simp [hname])
      simpa using isWord_of_isIdentifierChar hc
  have hopen : (wordEdge ++ literal function ++ char '(' ++ blanks).Goes bound texts before
      (function.toList ++ ['(']) (a ++ (");".toList ++ behind)) names names :=
    .then_nil (.append (.nil_then (.wordEdge hbefore hright) (.literal function)) (.char '('))
      (.blanks (by simp))
  have hclose : (callOf function argument).Goes bound texts before
      (function.toList ++ ['('] ++ a ++ ");".toList) behind names names₁ :=
    .append (.then_nil (.append hopen (hargument _)) (.blanks (by simp))) (.literal ");")
  have htext : (Statement.call function a).text = function.toList ++ ['('] ++ a ++ ");".toList := by
    rw [Statement.text, Statement.body_call]
    simp
  rwa [htext]

theorem goes_identifier (hname : isIdentifier w = true) :
    Chain.identifier.Goes bound texts before w behind names names :=
  .text rfl (ρ := .of texts) (spells_identifier.mpr hname)

/-- Behind a statement's keyword or an equals sign there is one blank. -/
theorem goes_blank : blanks.Goes bound texts before " ".toList behind names names :=
  .blanks (List.all_iff_forall_prop.mp (by decide))

theorem goes_end : endOfStatement.Goes bound texts before [';'] behind names names :=
  .nil_then (.blanks (by simp)) (.char ';')

/-- The return of a variable. -/
theorem goes_return (hvar : "var" ∈ names) (hv : texts "var" = some v) :
    returnVariable.Goes bound texts before (Statement.giveBack v).text behind names names := by
  have hgap : blanks1.Goes bound texts ("return".toList.reverse ++ before) " ".toList
      (v ++ ([';'] ++ behind)) names names :=
    .text rfl (ρ := .of texts)
      ((spells_repeated_one rfl).mpr ⟨by decide, List.all_iff_forall_prop.mp (by decide)⟩)
  have h : returnVariable.Goes bound texts before
      ("return".toList ++ " ".toList ++ v ++ [';']) behind names names :=
    .append (.append (.then_nil (.append (.literal "return") hgap) .optional_nil)
      (.backReference hvar hv)) goes_end
  exact h

/-- An equals sign between two blanks. -/
theorem goes_equals (heq : texts "eq" = some " = ".toList) :
    equals.Goes bound texts before " = ".toList behind names ("eq" :: names) :=
  .group (w := " ".toList ++ ['='] ++ " ".toList)
    (.append (.append goes_blank (.char '=')) goes_blank) heq

/-- What a target stands for behind the type that it may declare. -/
def Target.lvalue : Target → Slot
  | slot s => s
  | declared _ name => .ofIdentifier name

/-- The target of an assignment. -/
theorem goes_assignTarget {t : Target} (ht : texts "target" = some t.text)
    (hlvalue : texts "lvalue" = some t.lvalue.text) (hbehind : Uncalled behind) :
    assignTarget.Goes bound texts before t.text behind names ("target" :: "lvalue" :: names) := by
  refine .group ?_ ht
  cases t with
  | slot s => exact .nil_then .optional_nil (.group (goes_slot s hbehind) hlvalue)
  | declared type name =>
    have htype : declaredPointer.Spells (.of texts) (type.1 ++ " ".toList ++ "*".toList ++ []) := by
      have hone : (many1 (Regex.char '*')).Spells (.of texts) "*".toList :=
        (spells_repeated_one rfl).mpr ⟨by decide, List.all_iff_forall_prop.mp (by decide)⟩
      refine (spells_optional rfl).mpr
        (.inr ⟨_, _, rfl, ⟨_, _, rfl, ⟨_, _, rfl, spells_identifier.mpr type.2,
        spells_blanks.mpr (List.all_iff_forall_prop.mp (by decide))⟩, hone⟩,
        spells_blanks.mpr (by simp)⟩)
    have hname : name.1 = (Slot.ofIdentifier name).text := by
      simp [Slot.ofIdentifier, Slot.text, Part.text]
    have htext : (Target.declared type name).text =
        type.1 ++ " ".toList ++ "*".toList ++ [] ++ (Slot.ofIdentifier name).text := by
      rw [← hname]
      simp [Target.text]
    rw [htext]
    exact .append (.text rfl htype) (.group (goes_slot _ hbehind) hlvalue)

theorem text_call (function : String) (argument : List Char) :
    (Statement.call function argument).text = function.toList ++ '(' ::
    (argument ++ ");".toList) := by
  rw [Statement.text, Statement.body_call]
  simp

theorem text_assign (target value : List Char) :
    (Statement.assign target value).text = target ++ " = ".toList ++ value ++ [';'] := by
  rw [Statement.text, Statement.body_assign, ← List.append_assoc target]

theorem text_assign_eq (target value : List Char) :
    (Statement.assign target value).text = (target ++ [' ']) ++ '=' ::
    (' ' :: (value ++ [';'])) := by
  rw [text_assign]
  simp

/-- What stands in front of the variable that is assigned. -/
theorem goes_assignFront {t : Target} (ht : texts "target" = some t.text)
    (hlvalue : texts "lvalue" = some t.lvalue.text) (heq : texts "eq" = some " = ".toList) :
    (assignTarget ++ equals ++ valueCast).Goes bound texts before
      (t.text ++ " = ".toList) behind names ("eq" :: "target" :: "lvalue" :: names) :=
  .then_nil
    (.append
      (goes_assignTarget ht hlvalue ⟨[' '], '=', ' ' :: behind, rfl, by simp [isBlank], by decide,
    by decide⟩) (goes_equals heq)) .optional_nil

/-- The assignment of a variable that is known. -/
theorem goes_assign {t : Target} (ht : texts "target" = some t.text)
    (hlvalue : texts "lvalue" = some t.lvalue.text) (heq : texts "eq" = some " = ".toList)
    (hvar : "var" ∈ names) (hv : texts "var" = some v) :
    assignVariable.Goes bound texts before (Statement.assign t.text v).text behind names
      ("eq" :: "target" :: "lvalue" :: names) := by
  rw [text_assign]
  exact .append (.append (goes_assignFront ht hlvalue heq) (.backReference (by simp [hvar]) hv))
    goes_end

/-- No variable is taken for the null pointer. -/
theorem goes_variable (v : Variable) :
    (notBefore (literal "NULL" ++ wordEdge) ++ Chain.identifier).Goes bound texts before v.name.1
      (';' :: behind) names names := by
  refine .nil_then (.notBefore fun {c caps} hafter hroom =>
    List.eq_nil_iff_forall_not_mem.mpr fun w hw => ?_) (goes_identifier v.name.2)
  obtain ⟨mid, hmid, hedge⟩ := List.mem_flatMap.mp hw
  obtain ⟨-, u, hl, hu⟩ := (mem_ways_iff_spells (isText_literal "NULL") (.of texts) hroom).mp hmid
  obtain rfl := spells_literal.mp hu
  have htext := hl.after
  rw [hafter] at htext
  have hnull : ∀ d ∈ "NULL".toList, isIdentifierChar d = true :=
    List.all_iff_forall_prop.mp (by decide)
  obtain ⟨rest, hrest⟩ := prefix_of_identifierChars htext hnull ⟨";", by simp, ⟨_, rfl⟩⟩
  cases rest with
  | nil => exact v.name_ne_null (by rw [← hrest, List.append_nil])
  | cons d rest =>
    -- The word goes on behind the name of the null pointer.
    rw [← hrest, List.append_assoc, List.append_cancel_left_eq] at htext
    have hd : isWord d = true :=
      isWord_of_isIdentifierChar (identifierChars_of_isIdentifier v.name.2 d (by simp [← hrest]))
    have hleft : mid.1.before.head?.any isWord = true := by
      rw [hl.before]
      rfl
    simp [Regex.wordEdge, ways, Way.provided, Anchor.holds, hleft, ← htext, hd] at hedge

/-- The assignment of a variable. -/
theorem goes_store {t : Target} (v : Variable) (ht : texts "target" = some t.text)
    (hlvalue : texts "lvalue" = some t.lvalue.text) (heq : texts "eq" = some " = ".toList)
    (hv : texts "var" = some v.name.1) :
    storeVariable.Goes bound texts before (Statement.assign t.text v.name.1).text behind names
      ("var" :: "eq" :: "target" :: "lvalue" :: names) := by
  rw [text_assign]
  exact .append (.append (goes_assignFront ht hlvalue heq) (.group (goes_variable v) hv)) goes_end

/-- The slot that is known and an equals sign. -/
theorem goes_slotEquals (hslot : "slot" ∈ names) (hs : texts "slot" = some w) :
    slotEquals.Goes bound texts before (w ++ " = ".toList) behind names names := by
  have h : slotEquals.Goes bound texts before (w ++ " ".toList ++ ['='] ++ " ".toList) behind
      names names :=
    .append (.append (.append (.backReference hslot hs) goes_blank) (.char '=')) goes_blank
  simpa using h

theorem goes_slotNull (hslot : "slot" ∈ names) (hs : texts "slot" = some w) :
    nullStore.Goes bound texts before
      (Statement.assign w "NULL".toList).text behind names names := by
  rw [text_assign]
  exact .append (.append (goes_slotEquals hslot hs) (.literal "NULL")) goes_end

theorem goes_slotVariable (hslot : "slot" ∈ names) (hs : texts "slot" = some w)
    (hvar : "var" ∈ names) (hv : texts "var" = some v) :
    variableStore.Goes bound texts before
      (Statement.assign w v).text behind names names := by
  rw [text_assign]
  exact .append
    (.append (.then_nil (goes_slotEquals hslot hs) .optional_nil) (.backReference hvar hv)) goes_end

/-- A value that is not the null pointer is stored in the slot that is known. -/
theorem goes_slotStore (x : Value) (hslot : "slot" ∈ names) (hs : texts "slot" = some w)
    (hx : texts "value" = some x.text) :
    slotStore.Goes bound texts before (Statement.assign w x.text).text behind names
      ("value" :: names) := by
  rw [text_assign]
  have hnone : ∀ {d : Char}, d ∈ ";\n\x7b=".toList → d ∉ x.text := fun hd hin => x.calm _ hin hd
  refine .append
    (.append (goes_slotEquals hslot hs) (.group (.nil_then (.notBefore fun {c caps} hafter hroom =>
    List.eq_nil_iff_forall_not_mem.mpr fun way hway => x.text_ne_null ?_)
      (.text rfl (ρ := .of texts) ?_)) hx)) goes_end
  -- The value is not the null pointer: a match of the guard would end at the semicolon of the
  -- statement.
  · obtain ⟨-, _, hl, _, _, rfl, ⟨_, gap, rfl, hnull, hgap⟩, rfl⟩ :=
      (mem_ways_iff_spells (r := literal "NULL" ++ blanks ++ char ';') rfl (.of texts) hroom).mp
        hway
    obtain rfl := spells_literal.mp hnull
    have hblank := spells_blanks.mp hgap
    have htext := hl.after
    have hfree : ∀ {u : List Char}, ';' ∉ u → ∀ d ∈ u, (d == ';') = false := fun hu d hd =>
      beq_false_of_ne fun h => hu (h ▸ hd)
    have hsemicolon : ';' ∉ "NULL".toList ++ gap := by
      simp only [List.mem_append, not_or]
      exact ⟨by decide, fun hin => by simpa [isBlank] using hblank _ hin⟩
    rw [hafter, List.append_assoc _ [';']] at htext
    obtain ⟨heq, -⟩ :=
      append_cons_inj (p := (· == ';')) (hfree (hnone (by decide))) (hfree hsemicolon) rfl rfl htext
    have hnil : gap = [] := (heq ▸ x.trimmed).eq_nil_of_append_blanks hblank
    rw [heq, hnil, List.append_nil]
  -- The value starts with a character that is neither blank nor an equals sign, and no semicolon is
  -- in it.
  · obtain ⟨d, hd, hblank⟩ := x.trimmed.first
    cases htext : x.text with
    | nil => simp [htext] at hd
    | cons e rest =>
      obtain rfl : e = d := by simpa [htext] using hd
      rw [htext] at hnone
      have heq : e ≠ '=' ∧ e ≠ ';' := ⟨fun h => hnone (d := '=') (by decide) (by simp [h]),
        fun h => hnone (d := ';') (by decide) (by simp [h])⟩
      refine ⟨[e], rest, rfl, ⟨e, ?_, rfl⟩,
        (spells_repeated_one rfl).mpr ⟨Nat.zero_le _, fun c hc => ?_⟩⟩
      · simp [CharClass.contains, ClassItem.contains, Category.contains, heq, hblank]
      · have hne : c ≠ ';' :=
          fun h => hnone (d := ';') (by decide) (List.mem_cons_of_mem e (h ▸ hc))
        simp [CharClass.contains, ClassItem.contains, hne]

/-! ### Statements that are read -/

/-- The kind of a statement. -/
inductive Shape where
  | call (function : String) | giveBack | assign
  deriving DecidableEq

/-- The kind of a statement. -/
def Statement.shape : Statement → Shape
  | .call function _ => .call function
  | .giveBack _ => .giveBack
  | .assign _ _ => .assign

theorem Calm.notMem {w : List Char} (h : Calm w) {c : Char} (hc : c ∈ ";\n\x7b=".toList) : c ∉ w :=
  fun hin => h c hin hc

/-- Two texts that agree up to the first of some marks agree in front of it. -/
theorem append_mark_inj {marks u u' w w' : List Char} {c c' : Char} (hu : ∀ d ∈ marks, d ∉ u)
    (hu' : ∀ d ∈ marks, d ∉ u') (hc : c ∈ marks) (hc' : c' ∈ marks)
    (h : u ++ c :: w = u' ++ c' :: w') : u = u' ∧ c = c' ∧ w = w' :=
  append_cons_inj (p := fun d => decide (d ∈ marks))
    (fun d hd => decide_eq_false fun hin => hu d hin hd)
    (fun d hd => decide_eq_false fun hin => hu' d hin hd) (decide_eq_true hc) (decide_eq_true hc') h

/-- What stands behind blanks is known, up to the end of the statement. -/
theorem Trimmed.eq_of_blanks {gap gap' gap'' value : List Char} (hvalue : Trimmed value)
    (hgap : ∀ c ∈ gap, isBlank c = true) (hgap' : ∀ c ∈ gap', isBlank c = true)
    (hgap'' : ∀ c ∈ gap'', isBlank c = true) (hx : ∃ c, x.head? = some c ∧ isBlank c = false)
    (h : gap ++ value ++ [';'] = gap' ++ x ++ gap'' ++ [';']) : gap' = gap ∧ x = value := by
  rw [List.append_cancel_right_eq] at h
  obtain ⟨c, hc, hblank⟩ := hvalue.first
  obtain ⟨d, hd, hblank'⟩ := hx
  obtain ⟨rest, rfl⟩ := List.head?_eq_some_iff.mp hc
  obtain ⟨rest', rfl⟩ := List.head?_eq_some_iff.mp hd
  rw [List.append_assoc, List.cons_append] at h
  obtain ⟨rfl, rfl, rfl⟩ :=
    append_cons_inj (p := fun c => !isBlank c) (fun c hc => by simp [hgap c hc])
    (fun c hc => by simp [hgap' c hc]) (by simp [hblank]) (by simp [hblank']) h
  rw [← List.cons_append] at hvalue
  rw [hvalue.eq_nil_of_append_blanks hgap'', List.append_nil]
  exact ⟨rfl, rfl⟩

namespace Statement.Sound

variable {s : Statement} {function : String} {target value : List Char}

/-- In front of the equals sign of an assignment, there is no other and no parenthesis. -/
theorem notMem_front (hs : (Statement.assign target value).Sound) :
    ∀ c ∈ "=(".toList, c ∉ target ++ [' '] := by
  obtain ⟨⟨-, hcalm, htarget⟩, -⟩ := hs
  have hmarks : ∀ c ∈ "=(".toList, (c = '=' ∨ c = '(') ∧ c ≠ ' ' :=
    List.all_iff_forall_prop.mp (by decide)
  intro c hc hin
  obtain ⟨hmark, hne⟩ := hmarks c hc
  rcases List.mem_append.mp hin with hin | hin
  · rcases hmark with rfl | rfl
    · exact hcalm.notMem (by decide) hin
    · exact htarget hin
  · exact hne (List.mem_singleton.mp hin)

/-- Only a call is read as a call, with the argument that it has. -/
theorem eq_call (hs : s.Sound) (hfunction : isIdentifier function.toList = true)
    (h : Calls function.toList a s.text) : s = .call function a := by
  obtain ⟨gap, gap', hgaps, htext⟩ := h
  rw [List.forall_mem_append] at hgaps
  have hopen : s.text = function.toList ++ '(' :: (gap ++ a ++ gap' ++ ");".toList) := by
    rw [htext]
    simp
  have hfree : ∀ {w : List Char}, isIdentifier w = true → ∀ c ∈ " =(".toList, c ∉ w := by
    have hmarks : ∀ c ∈ " =(".toList, isOperandChar c = false :=
      List.all_iff_forall_prop.mp (by decide)
    intro w hw c hc hin
    have hoperand := (isOperand_of_isIdentifier hw).2 c hin
    rw [hmarks c hc] at hoperand
    cases hoperand
  clear htext
  cases s with
  | call name b =>
    obtain ⟨hname, htrimmed, -⟩ := hs
    obtain ⟨heq, -, hrest⟩ :=
      append_mark_inj (hfree hname) (hfree hfunction) (by decide) (by decide)
      ((text_call name b).symm.trans hopen)
    rw [List.append_cancel_right_eq] at hrest
    subst hrest
    obtain rfl : gap = [] :=
      Trimmed.eq_nil_of_blanks_append (by rwa [List.append_assoc] at htrimmed) hgaps.1
    obtain rfl : gap' = [] := htrimmed.eq_nil_of_append_blanks hgaps.2
    rw [String.toList_inj.mp heq, List.nil_append, List.append_nil]
  | giveBack x =>
    have hreturn : ∀ c ∈ " =(".toList, c ∉ "return".toList :=
      List.all_iff_forall_prop.mp (by decide)
    have htext : (Statement.giveBack x).text = "return".toList ++ ' ' :: (x ++ [';']) := rfl
    obtain ⟨-, heq, -⟩ :=
      append_mark_inj hreturn (hfree hfunction) (by decide) (by decide) (htext.symm.trans hopen)
    cases heq
  | assign t x =>
    have hsub : ∀ c ∈ "=(".toList, c ∈ " =(".toList := List.all_iff_forall_prop.mp (by decide)
    obtain ⟨-, heq, -⟩ :=
      append_mark_inj hs.notMem_front (fun c hc => hfree hfunction c (hsub c hc)) (by decide)
      (by decide) ((text_assign_eq t x).symm.trans hopen)
    cases heq

/-- Only an assignment has an equals sign. -/
theorem exists_assign (hs : s.Sound) (h : '=' ∈ s.text) : ∃ t x, s = .assign t x := by
  cases s with
  | call name b =>
    obtain ⟨hname, -, hcalm⟩ := hs
    refine absurd h ?_
    rw [Statement.text, Statement.body_call]
    simp [(isOperand_of_isIdentifier hname).notMem (c := '=') (by decide),
      hcalm.notMem (c := '=') (by decide)]
  | giveBack x =>
    refine absurd h ?_
    rw [Statement.text, Statement.body_giveBack]
    simp [hs.2.notMem (c := '=') (by decide)]
  | assign t x => exact ⟨t, x, rfl⟩

/-- An assignment is read in one way. -/
theorem eq_of_assigns {gap gap' gap'' : List Char} (hs : (Statement.assign target value).Sound)
    (hgap' : ∀ c ∈ gap', isBlank c = true) (hgap'' : ∀ c ∈ gap'', isBlank c = true)
    (hx : ∃ c, x.head? = some c ∧ isBlank c = false)
    (h : (Statement.assign target value).text = a ++ gap ++ '=' :: (gap' ++ x ++ gap'' ++ [';'])) :
    a ++ gap = target ++ [' '] ∧ gap' = [' '] ∧ x = value := by
  have hfront : '=' ∉ target ++ [' '] := hs.notMem_front '=' (by decide)
  obtain ⟨-, htrimmed, hvalue⟩ := hs
  have hback : '=' ∉ ' ' :: (value ++ [';']) := by simp [hvalue.notMem (c := '=') (by decide)]
  obtain ⟨heq, -, hrest⟩ :=
    (List.append_cons_inj_of_notMem hfront hback).mp ((text_assign_eq target value).symm.trans h)
  have hone : ∀ c ∈ [' '], isBlank c = true := by simp [isBlank]
  obtain ⟨rfl, rfl⟩ := htrimmed.eq_of_blanks hone hgap' hgap'' hx hrest
  exact ⟨heq.symm, rfl, rfl⟩

/-- So is a return. -/
theorem eq_of_returns {gap gap' : List Char} (hs : (Statement.giveBack value).Sound)
    (hgap : ∀ c ∈ gap, isBlank c = true) (hgap' : ∀ c ∈ gap', isBlank c = true)
    (hx : ∃ c, x.head? = some c ∧ isBlank c = false)
    (h : (Statement.giveBack value).text = "return".toList ++ (gap ++ x ++ gap' ++ [';'])) :
    x = value := by
  have htext : (Statement.giveBack value).text = "return".toList ++ ([' '] ++ value ++ [';']) := rfl
  rw [htext, List.append_cancel_left_eq] at h
  exact (hs.1.eq_of_blanks (by simp [isBlank]) hgap hgap' hx h).2

end Statement.Sound

variable {s : Statement} {t : List Char}

/-! #### Shapes -/

/-- What is read as a call is one. -/
theorem shape_of_spells_callOf {ρ : Reading} {function : String} {argument : Regex} (hs : s.Sound)
    (hfunction : isIdentifier function.toList = true)
    (h : (callOf function argument).Spells ρ s.text) : s.shape = .call function := by
  obtain ⟨u, -, hcalls⟩ := calls_of_spells_callOf h
  rw [hs.eq_call hfunction hcalls]
  rfl

/-- What has to have an equals sign is an assignment. -/
theorem shape_of_spells_assignment {ρ : Reading} {r : Regex} (hs : s.Sound) (hr : 0 < r.least '=')
    (h : r.Spells ρ s.text) : s.shape = .assign := by
  obtain ⟨t, x, rfl⟩ :=
    hs.exists_assign (List.count_pos_iff.mp (hr.trans_le (least_le_count '=' h)))
  rfl

/-- All that an expression spells starts with one character. -/
def Opens (ρ : Reading) (x : Char) (r : Regex) : Prop := ∀ w, r.Spells ρ w → ∃ rest, w = x :: rest

theorem opens_char (ρ : Reading) (x : Char) : Opens ρ x (Regex.char x) := by
  rintro _ rfl
  exact ⟨[], rfl⟩

theorem Opens.append {ρ : Reading} {x : Char} {a b : Regex} (h : Opens ρ x a) :
    Opens ρ x (a ++ b) := by
  rintro _ ⟨u, v, rfl, hu, -⟩
  obtain ⟨rest, rfl⟩ := h u hu
  exact ⟨rest ++ v, rfl⟩

theorem opens_objectCast (ρ : Reading) : Opens ρ '(' objectCast :=
  (opens_char ρ '(').append.append.append.append.append.append.append

theorem opens_pointerCast (ρ : Reading) : Opens ρ '(' pointerCast :=
  (opens_char ρ '(').append.append.append.append.append.append.append.append

/-- A cast is either not there, or it starts with a parenthesis. -/
theorem of_spells_valueCast {w : List Char} (h : valueCast.Spells (.of texts) w) :
    (w = [] ∧ texts "cast" = none) ∨ ∃ rest, w = '(' :: rest := by
  obtain ⟨ws, rfl, hws, -, hmost, hnil⟩ := h
  have hlen : ws.length ≤ 1 := hmost 1 rfl
  match ws, hlen with
  | [], _ => exact .inl ⟨rfl, hnil rfl "cast" (by decide)⟩
  | [u], _ =>
    rw [List.flatten_singleton]
    refine .inr ?_
    rcases hws u (List.mem_singleton_self u) with ⟨hobject, -⟩ | ⟨⟨-, hpointer⟩, -⟩
    · exact opens_objectCast _ u hobject
    · exact opens_pointerCast _ u hpointer

/-- No cast stands in front of a variable that is an identifier as a whole. -/
theorem eq_of_cast_append {cast u : List Char} (hcast : valueCast.Spells (.of texts) cast)
    (hv : isIdentifier (cast ++ u) = true) : cast = [] ∧ texts "cast" = none := by
  rcases of_spells_valueCast hcast with h | ⟨rest, rfl⟩
  · exact h
  · exact absurd (by simp) ((isOperand_of_isIdentifier hv).notMem (c := '(') (by decide))

/-- What starts with a cast or an identifier does not start with a blank. -/
theorem head?_of_cast_append {cast u : List Char} (hcast : valueCast.Spells (.of texts) cast)
    (hu : isIdentifier u = true) : ∃ c, (cast ++ u).head? = some c ∧ isBlank c = false := by
  rcases of_spells_valueCast hcast with ⟨rfl, -⟩ | ⟨rest, rfl⟩
  · exact (isOperand_of_isIdentifier hu).trimmed.first
  · exact ⟨'(', rfl, by decide⟩

theorem of_spells_return {w : List Char} (h : returnVariable.Spells (.of texts) w) :
    ∃ gap cast u gap',
    w = "return".toList ++ (gap ++ (cast ++ u) ++ gap' ++ [';']) ∧ texts "var" = some u ∧
      valueCast.Spells (.of texts) cast ∧ gap ≠ [] ∧ ∀ c ∈ gap ++ gap', isBlank c = true := by
  obtain ⟨_, _, rfl, ⟨_, u, rfl, ⟨_, cast, rfl, ⟨name, gap, rfl, hname, hgap⟩, hcast⟩, hu⟩,
    gap', _, rfl, hgap', rfl⟩ := h
  obtain rfl := spells_literal.mp hname
  obtain ⟨hlen, hblank⟩ := (spells_repeated_one rfl).mp hgap
  refine ⟨gap, cast, u, gap', by simp, hu, hcast, List.length_pos_iff.mp hlen,
    List.forall_mem_append.mpr ⟨fun c hc => ?_, spells_blanks.mp hgap'⟩⟩
  simpa [Category.contains] using hblank c hc

/-- A call is not read as a return: the name of a function goes on up to a parenthesis, without a
blank. -/
theorem not_spells_return_of_call {name : String} {b : List Char}
    (hs : (Statement.call name b).Sound) :
    ¬ returnVariable.Spells (.of texts) (Statement.call name b).text := by
  intro h
  obtain ⟨gap, cast, u, gap', htext, -, -, hgap, hblank⟩ := of_spells_return h
  obtain ⟨d, gap, rfl⟩ := List.exists_cons_of_ne_nil hgap
  have hd : isBlank d = true := hblank d List.mem_cons_self
  have hname : ∀ c ∈ name.toList, (isBlank c || c == '(') = false := fun c hc => by
    have hoperand := of_isOperandChar ((isOperand_of_isIdentifier hs.1).2 c hc)
    rw [hoperand.1, Bool.false_or, beq_eq_false_iff_ne]
    rintro rfl
    exact hoperand.2 (by decide)
  have hreturn : ∀ c ∈ "return".toList, (isBlank c || c == '(') = false :=
    List.all_iff_forall_prop.mp (by decide)
  obtain ⟨-, rfl, -⟩ :=
    append_cons_inj (p := fun c => isBlank c || c == '(') hname hreturn (by decide)
    (by rw [hd, Bool.true_or]) ((text_call name b).symm.trans htext)
  cases hd

/-- Nor is an assignment: where a return has an equals sign or a parenthesis, it is the parenthesis
of a cast. -/
theorem not_spells_return_of_assign (hs : (Statement.assign t v).Sound)
    (hvar : ∀ u, texts "var" = some u → isIdentifier u = true) :
    ¬ returnVariable.Spells (.of texts) (Statement.assign t v).text := by
  intro h
  obtain ⟨gap, cast, u, gap', htext, hu, hcast, -, hblank⟩ := of_spells_return h
  rw [text_assign_eq] at htext
  rw [List.forall_mem_append] at hblank
  have hgapfree : ∀ {w : List Char}, (∀ c ∈ w, isBlank c = true) → ∀ c ∈ "=(".toList, c ∉ w := by
    have hmarks : ∀ c ∈ "=(".toList, isBlank c = false := List.all_iff_forall_prop.mp (by decide)
    intro w hw c hc hin
    simpa [hmarks c hc] using hw c hin
  rcases of_spells_valueCast hcast with ⟨rfl, -⟩ | ⟨rest, rfl⟩
  · -- Without a cast, there is no equals sign.
    have hin : '=' ∈ (t ++ [' ']) ++ '=' :: (' ' :: (v ++ [';'])) := by simp
    have hu := (isOperand_of_isIdentifier (hvar u hu)).notMem (c := '=') (by decide)
    have h1 := hgapfree hblank.1 '=' (by decide)
    have h2 := hgapfree hblank.2 '=' (by decide)
    rw [htext] at hin
    simp [hu, h1, h2] at hin
  · have hreturn : ∀ c ∈ "=(".toList, c ∉ "return".toList := List.all_iff_forall_prop.mp (by decide)
    have hopen : (t ++ [' ']) ++ '=' :: (' ' :: (v ++ [';'])) =
        ("return".toList ++ gap) ++ '(' :: (rest ++ u ++ gap' ++ [';']) := by
      rw [htext]
      simp
    have hfront : ∀ c ∈ "=(".toList, c ∉ "return".toList ++ gap := fun c hc => by
      rw [List.mem_append, not_or]
      exact ⟨hreturn c hc, hgapfree hblank.1 c hc⟩
    obtain ⟨-, heq, -⟩ := append_mark_inj hs.notMem_front hfront (by decide) (by decide) hopen
    cases heq

/-- What is read as the return of a variable is a return. -/
theorem shape_of_spells_return (hs : s.Sound)
    (hvar : ∀ u, texts "var" = some u → isIdentifier u = true)
    (h : returnVariable.Spells (.of texts) s.text) : s.shape = .giveBack := by
  cases s with
  | giveBack x => rfl
  | call name b => exact absurd h (not_spells_return_of_call hs)
  | assign t x => exact absurd h (not_spells_return_of_assign hs hvar)

/-! #### Contents -/

/-- The argument that is captured. -/
theorem captured_of_spells {function name : String} {argument : Regex}
    (hs : (Statement.call function a).Sound)
    (h : (callOf function (group name argument)).Spells (.of texts)
      (Statement.call function a).text) :
    texts name = some a ∧ argument.Spells (.of texts) a := by
  obtain ⟨u, hu, hcalls⟩ := calls_of_spells_callOf h
  cases hs.eq_call hs.1 hcalls
  exact hu

/-- The variable that is returned. -/
theorem returned_of_spells (hs : (Statement.giveBack v).Sound) (hv : isIdentifier v = true)
    (hvar : ∀ u, texts "var" = some u → isIdentifier u = true)
    (h : returnVariable.Spells (.of texts) (Statement.giveBack v).text) :
    texts "cast" = none ∧ texts "var" = some v := by
  obtain ⟨gap, cast, u, gap', htext, hu, hcast, -, hblank⟩ := of_spells_return h
  rw [List.forall_mem_append] at hblank
  obtain rfl := hs.eq_of_returns hblank.1 hblank.2 (head?_of_cast_append hcast (hvar u hu)) htext
  obtain ⟨rfl, hnone⟩ := eq_of_cast_append hcast hv
  exact ⟨hnone, hu⟩

/-- The variable that is assigned. -/
theorem assigned_of_spells {value : Regex} (hs : (Statement.assign t v).Sound)
    (hv : isIdentifier v = true) (hvalue : ∀ u, value.Spells (.of texts) u → isIdentifier u = true)
    (h : (assignTarget ++ equals ++ valueCast ++ value ++ endOfStatement).Spells (.of texts)
      (Statement.assign t v).text) :
    ∃ target eq, texts "target" = some target ∧ texts "eq" = some eq ∧
    target ++ eq = t ++ " = ".toList ∧
      texts "cast" = none ∧ value.Spells (.of texts) v := by
  obtain ⟨_, _, htext, ⟨_, u, rfl, ⟨_, cast, rfl, ⟨target, _, rfl, ⟨htarget, -⟩, heq, _, gap', rfl,
    ⟨gap, _, rfl, hgap, rfl⟩, hgap'⟩, hcast⟩, hu⟩, gap'', _, rfl, hgap'', rfl⟩ := h
  have hequals : (Statement.assign t v).text = target ++ gap ++ '=' ::
      (gap' ++ (cast ++ u) ++ gap'' ++ [';']) := by
    rw [htext]
    simp
  obtain ⟨hfront, rfl, rfl⟩ := hs.eq_of_assigns (spells_blanks.mp hgap') (spells_blanks.mp hgap'')
    (head?_of_cast_append hcast (hvalue u hu)) hequals
  obtain ⟨rfl, hnone⟩ := eq_of_cast_append hcast hv
  refine ⟨target, _, htarget, heq, ?_, hnone, hu⟩
  rw [List.append_assoc, ← List.append_assoc, hfront]
  simp

/-- The null pointer is read where the null pointer is assigned. -/
theorem eq_null_of_spells (hs : (Statement.assign t v).Sound)
    (h : nullStore.Spells (.of texts) (Statement.assign t v).text) :
    v = "NULL".toList := by
  obtain ⟨_, _, htext,
      ⟨_, _, rfl, ⟨_, gap', rfl, ⟨_, _, rfl, ⟨slot, gap, rfl, -, hgap⟩, rfl⟩, hgap'⟩, hnull⟩,
    gap'', _, rfl, hgap'', rfl⟩ := h
  obtain rfl := spells_literal.mp hnull
  have hequals : (Statement.assign t v).text =
      slot ++ gap ++ '=' :: (gap' ++ "NULL".toList ++ gap'' ++ [';']) := by
    rw [htext]
    simp
  exact (hs.eq_of_assigns (spells_blanks.mp hgap') (spells_blanks.mp hgap'')
    ⟨'N', by simp, by decide⟩ hequals).2.2.symm

/-- The value that is stored. -/
theorem stored_of_spells (hs : (Statement.assign t v).Sound)
    (h : slotStore.Spells (.of texts) (Statement.assign t v).text) : texts "value" = some v := by
  obtain ⟨_, _, htext,
      ⟨_, value, rfl, ⟨_, gap', rfl, ⟨_, _, rfl, ⟨slot, gap, rfl, -, hgap⟩, rfl⟩, hgap'⟩, hvalue,
    _, w, rfl, hlook, _, rest, rfl, ⟨d, hd, rfl⟩, -⟩, gap'', _, rfl, hgap'', rfl⟩ := h
  obtain rfl := spells_of_isStill rfl hlook
  have hequals : (Statement.assign t v).text =
      slot ++ gap ++ '=' :: (gap' ++ ([] ++ ([d] ++ rest)) ++ gap'' ++ [';']) := by
    rw [htext]
    simp
  have hblank : isBlank d = false := by
    simp only [CharClass.contains, List.any_cons, List.any_nil, ClassItem.contains,
      Category.contains] at hd
    by_contra h
    simp [h] at hd
  obtain ⟨-, -, rfl⟩ :=
    hs.eq_of_assigns (spells_blanks.mp hgap') (spells_blanks.mp hgap'') ⟨d, rfl, hblank⟩ hequals
  exact hvalue

end Ownership

end CApiUpgrade
