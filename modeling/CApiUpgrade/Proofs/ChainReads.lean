import CApiUpgrade.Proofs.ChainStarts
import CApiUpgrade.Proofs.Finding

/-!
# What a read takes off a chain

In `x->f_back->f_code->f_back` the rule for `f_back` could read the first hop or the last one.  The
base of a read is greedy: it takes as many members as it can, so the last hop to the member is read
(`Catalog.head?_ways_memberRead`).

The members are those that the catalog has a rule for.  The chain consists of a variable and of such
members, without blanks and indices.
-/

namespace CApiUpgrade

open Text

namespace Regex

variable {terms : Terms} {c : Cursor} {caps : Captures}

/-- An expression without groups that never matches the empty text uses up some text. -/
theorem Basic.advances {r : Regex} (hr : r.Basic) (hgroups : r.groups = []) (hwide : 0 < r.minWidth)
    (terms : Terms) : Way.Advances (r.ways terms) := by
  intro c caps w hw
  obtain ⟨u, new, hl, hcaps, -, hspells⟩ :=
    hr.reads_of_mem_ways (setsOnce_of_groups_eq_nil hgroups) (by simp [hgroups]) hw
  refine ⟨u, ?_, hl⟩
  rintro rfl
  have hwidth := hr.minWidth_le (hspells caps.textOf (by simp [hgroups]) fun n s hs => by
    rw [Captures.textOf, hs, Option.map_some])
  exact absurd hwidth (Nat.not_le.mpr hwide)

/-- An expression that uses up no character matches in one way at most, and captures nothing. -/
theorem ways_of_isStill {r : Regex} (h : r.isStill = true) :
    r.ways terms c caps = [] ∨ r.ways terms c caps = [(c, caps)] := by
  induction r with
  | empty => exact .inr rfl
  | anchor a =>
    rw [ways, Way.provided]
    split_ifs <;> simp
  | look direction negated body _ =>
    cases negated with
    | false => simp [isStill] at h
    | true =>
      unfold ways
      simp only [↓reduceIte]
      split_ifs <;> simp
  | cat a b iha ihb =>
    rw [isStill, Bool.and_eq_true] at h
    rw [ways]
    rcases iha h.1 with ha | ha <;> simp [ha, ihb h.2]
  | _ => simp [isStill] at h

end Regex

/-- Parts that are all the same or nothing: the first entry is the one of such a part. -/
theorem head?_flatMap_of_eq_or_nil {α β : Type} {xs : List α} {f : α → List β} {ys : List β}
    (h : ∀ x ∈ xs, f x = ys ∨ f x = []) (hex : ∃ x ∈ xs, f x = ys) :
    (xs.flatMap f).head? = ys.head? := by
  induction xs with
  | nil => simp at hex
  | cons x xs ih =>
    rw [List.flatMap_cons, List.head?_append]
    rw [List.forall_mem_cons] at h
    rcases h.1 with hx | hx
    · cases ys with
      | nil =>
        have hnil : xs.flatMap f = [] := by
          refine List.flatMap_eq_nil_iff.mpr fun x' hx' => ?_
          exact (h.2 x' hx').elim id id
        simp [hx, hnil]
      | cons y ys => simp [hx]
    · obtain ⟨x', hx', hy⟩ := hex
      rcases List.mem_cons.mp hx' with rfl | hx'
      · rw [hx] at hy
        subst hy
        simp only [hx, List.head?_nil, Option.none_or]
        have hnil : xs.flatMap f = [] :=
          List.flatMap_eq_nil_iff.mpr fun x' hx' => (h.2 x' hx').elim id id
        rw [hnil, List.head?_nil]
      · rw [hx, List.head?_nil, Option.none_or]
        exact ih h.2 ⟨x', hx', hy⟩

namespace Catalog

open Regex

/-! ### Members -/

/-- The members that the catalog has a rule for. -/
inductive Member where
  | type | size | refCount | frameBack | frameCode | interpreter | threadFrame
  deriving DecidableEq

namespace Member

/-- All of them, in the order in which their rules are applied. -/
def all : List Member := [type, size, refCount, frameBack, frameCode, interpreter, threadFrame]

/-- The name of the member. -/
def field : Member → String
  | type => "ob_type"
  | size => "ob_size"
  | refCount => "ob_refcnt"
  | frameBack => "f_back"
  | frameCode => "f_code"
  | interpreter => "interp"
  | threadFrame => "frame"

/-- The function that reads the member. -/
def reader : Member → String
  | type => "Py_TYPE"
  | size => "Py_SIZE"
  | refCount => "Py_REFCNT"
  | frameBack => "_PyFrame_GetBackBorrow"
  | frameCode => "_PyFrame_GetCodeBorrow"
  | interpreter => "PyThreadState_GetInterpreter"
  | threadFrame => "_PyThreadState_GetFrameBorrow"

/-- The rule for the reads of the member. -/
def rule : Member → Rule
  | type => readType
  | size => readSize
  | refCount => readRefCount
  | frameBack => readFrameBack
  | frameCode => readFrameCode
  | interpreter => readInterpreter
  | threadFrame => readThreadFrame

/-- The pattern for the reads of the member. -/
def pattern (m : Member) : Pattern :=
  .ofRegex (memberRead m.field) [.plain (m.reader ++ "("), .group "expr", .plain ")"]

theorem rule_patterns (m : Member) : m.rule.patterns = [m.pattern] := by cases m <;> rfl

theorem map_rule_all : all.map rule = readRules := rfl

theorem mem_all (m : Member) : m ∈ all := by cases m <;> decide

theorem nodup_all : all.Nodup := by decide

theorem regular_pattern (m : Member) : m.pattern.Regular :=
  Catalog.regular (mem_rules_of_mem_readRules (map_rule_all ▸ List.mem_map_of_mem m.mem_all))
    (by rw [rule_patterns]; exact List.mem_singleton.mpr rfl)

theorem isIdentifier_field (m : Member) : isIdentifier m.field.toList = true := by
  cases m <;> decide

/-- No name is the start of another one. -/
theorem eq_of_field_prefix {m n : Member} (h : m.field.toList <+: n.field.toList) : m = n := by
  revert h
  cases m <;> cases n <;> decide

end Member

/-- The hops to some members, one after another. -/
def hops (ms : List Member) : List Char := ms.flatMap fun m => "->".toList ++ m.field.toList

@[simp]
theorem hops_nil : hops [] = [] := rfl

theorem hops_cons (m : Member) (ms : List Member) :
    hops (m :: ms) = "->".toList ++ m.field.toList ++ hops ms := rfl

theorem hops_append (ms ns : List Member) : hops (ms ++ ns) = hops ms ++ hops ns :=
  List.flatMap_append

/-- A list up to the last occurrence of a member, and behind it. -/
def splitLast? (m : Member) : List Member → Option (List Member × List Member)
  | [] => none
  | n :: rest =>
    match splitLast? m rest with
    | some (front, back) => some (n :: front, back)
    | none => if n = m then some ([], rest) else none

theorem splitLast?_eq_none {m : Member} {ms : List Member} : splitLast? m ms = none ↔ m ∉ ms := by
  induction ms with
  | nil => simp [splitLast?]
  | cons n rest ih =>
    rw [splitLast?]
    cases hrest : splitLast? m rest with
    | none =>
      rw [hrest, eq_self, true_iff] at ih
      by_cases hn : n = m
      · simp [hn]
      · simp [hn, ih, Ne.symm hn]
    | some _ => simpa [hrest] using fun _ => ih

theorem of_splitLast? {m : Member} {ms front back : List Member}
    (h : splitLast? m ms = some (front, back)) : ms = front ++ m :: back ∧ m ∉ back := by
  induction ms generalizing front with
  | nil => simp [splitLast?] at h
  | cons n rest ih =>
    rw [splitLast?] at h
    cases hrest : splitLast? m rest with
    | none =>
      simp only [hrest] at h
      split_ifs at h with hn
      obtain ⟨rfl, rfl⟩ := Prod.mk.inj (Option.some.inj h)
      exact ⟨by rw [hn]; rfl, splitLast?_eq_none.mp hrest⟩
    | some halves =>
      obtain ⟨front', back'⟩ := halves
      simp only [hrest, Option.some.injEq, Prod.mk.injEq] at h
      obtain ⟨rfl, rfl⟩ := h
      obtain ⟨hms, hback⟩ := ih hrest
      exact ⟨by rw [hms]; rfl, hback⟩

/-! ### Names in front of other characters -/

/-- What may stand behind a chain or a hop: another hop, a parenthesis or the end of the
statement. -/
def Ends (rest : List Char) : Prop := ∃ mark ∈ ["->", ")", ";"], mark.toList <+: rest

/-- What no hop, no index and no arrow starts with. -/
def Halts (rest : List Char) : Prop :=
  ∀ x ∈ rest.head?, isBlank x = false ∧ x ∉ ['-', '.', '[']

theorem Ends.head? {rest : List Char} (h : Ends rest) :
    ∃ x, rest.head? = some x ∧ isIdentifierChar x = false ∧ isBlank x = false ∧
      isWord x = false ∧ x ∉ ['(', '[', '='] := by
  obtain ⟨mark, hmark, tail, rfl⟩ := h
  simp only [List.mem_cons, List.not_mem_nil, or_false] at hmark
  rcases hmark with rfl | rfl | rfl <;> exact ⟨_, rfl, by decide +kernel⟩

theorem Ends.not_isWritten {rest : List Char} (h : Ends rest) : ¬ IsWritten rest := by
  rintro ⟨gap, tail, rfl, hgap, hwrites⟩
  obtain ⟨x, hx, -, hblank, -⟩ := h.head?
  obtain rfl : gap = [] := by
    cases gap with
    | nil => rfl
    | cons y gap =>
      obtain rfl : y = x := Option.some.inj hx
      simp [hgap y List.mem_cons_self] at hblank
  obtain ⟨writes, hmem, hwrites⟩ : ∃ writes ∈ ("" :: combiners).map (·.toList ++ ['=']) ++
      ["++".toList, "--".toList], writes <+: tail := by
    rcases hwrites with ⟨op, hop, rest, rfl, -⟩ | ⟨op, hop, hwithin⟩
    · exact ⟨_, List.mem_append_left _ (List.mem_map_of_mem hop), rest, by simp⟩
    · exact ⟨_, List.mem_append_right _ (List.mem_map_of_mem (f := String.toList) hop), hwithin⟩
  obtain ⟨mark, hmark, hends⟩ := h
  have hapart : ∀ mark ∈ ["->", ")", ";"], ∀ writes ∈ ("" :: combiners).map (·.toList ++ ['=']) ++
      ["++".toList, "--".toList], ¬ mark.toList <+: writes ∧ ¬ writes <+: mark.toList := by decide
  obtain ⟨hlong, hshort⟩ := hapart mark hmark writes hmem
  exact (List.prefix_or_prefix_of_prefix hends hwrites).elim hlong hshort

/-- A word at the start of a text is a part of the name that the text starts with. -/
theorem prefix_of_identifierChars {name word u v : List Char} (h : name ++ u = word ++ v)
    (hword : ∀ c ∈ word, isIdentifierChar c = true) (hu : Ends u) : word <+: name := by
  rcases List.append_eq_append_iff.mp h with ⟨rest, hrest, hv⟩ | ⟨rest, rfl, -⟩
  · obtain ⟨x, hx, hother, -⟩ := hu.head?
    cases rest with
    | nil => exact ⟨[], by rw [hrest, List.append_nil, List.append_nil]⟩
    | cons y rest =>
      rw [hv, List.cons_append, List.head?_cons, Option.some.injEq] at hx
      rw [← hx, hword y (by simp [hrest])] at hother
      cases hother
  · exact List.prefix_append word rest

theorem halts_of_isIdentifierChar {x : Char} {rest : List Char} (hx : isIdentifierChar x = true) :
    Halts (x :: rest) := by
  rintro y hy
  obtain rfl : x = y := Option.some.inj hy
  refine ⟨isBlank_of_isIdentifierChar hx, fun hin => ?_⟩
  simp only [List.mem_cons, List.not_mem_nil, or_false] at hin
  rcases hin with rfl | rfl | rfl <;> exact absurd hx (by decide)

section

variable {terms : Terms} {c : Cursor} {caps : Captures} {w : Way} {name rest : List Char}

/-- A name is taken as a whole, or what is left of it fits nothing that may follow. -/
theorem of_mem_ways_indexed (hw : w ∈ Chain.indexed.ways terms c caps)
    (hroom : c.after.length ≤ terms.bound) (hafter : c.after = name ++ rest)
    (hname : ∀ x ∈ name, isIdentifierChar x = true) (hrest : Ends rest) :
    w.2 = caps ∧ (c.Leads name w.1 ∨ Halts w.1.after) := by
  obtain ⟨hcaps, u, hl, word, indices, rfl, hword, ws, rfl, hws, -⟩ :=
    (mem_ways_iff_spells (r := Chain.indexed) rfl (.of fun _ => none) hroom).mp hw
  have hchars := (word_of_spells_identifier hword).2
  have htext : name ++ rest = word ++ (ws.flatten ++ w.1.after) := by
    rw [← hafter, hl.after, List.append_assoc]
  obtain ⟨left, rfl⟩ := prefix_of_identifierChars htext hchars hrest
  rw [List.append_assoc, List.append_cancel_left_eq] at htext
  obtain ⟨x, hx, -, -, -, hother⟩ := hrest.head?
  -- There is no index: neither the rest of the name nor what follows it starts with a bracket.
  obtain rfl : ws = [] := by
    cases ws with
    | nil => rfl
    | cons index ws =>
      obtain ⟨_, _, rfl, ⟨_, _, rfl, rfl, -⟩, -⟩ := hws index List.mem_cons_self
      cases left with
      | nil =>
        rw [List.nil_append] at htext
        rw [htext] at hx
        exact absurd (Option.some.inj hx).symm (by rintro rfl; simp at hother)
      | cons y left =>
        have hy := hname y (by simp)
        rw [List.cons_append] at htext
        have hbracket : y = '[' := (List.cons.inj htext).1
        exact absurd hy (by rw [hbracket]; decide)
  simp only [List.flatten_nil, List.append_nil, List.nil_append] at hl htext
  refine ⟨hcaps, ?_⟩
  cases left with
  | nil => exact .inl (by rwa [List.append_nil])
  | cons y left =>
    refine .inr ?_
    rw [← htext, List.cons_append]
    exact halts_of_isIdentifierChar (hname y (by simp))

theorem mem_ways_indexed {d : Cursor} (hname : isIdentifier name = true) (hl : c.Leads name d)
    (hroom : c.after.length ≤ terms.bound) : (d, caps) ∈ Chain.indexed.ways terms c caps :=
  mem_ways_of_spells (r := Chain.indexed) (ρ := .of fun _ => none) rfl ⟨name, [], by simp,
    spells_identifier.mpr hname, [], rfl, by simp, Nat.zero_le _, by simp,
    by simp [groups_of_isText (r := Chain.index) rfl]⟩ caps hl hroom

theorem identifierChars_of_isIdentifier (h : isIdentifier name = true) :
    ∀ x ∈ name, isIdentifierChar x = true := by
  rw [isIdentifier, Bool.and_eq_true] at h
  exact List.all_eq_true.mp h.2

/-- What a hop has in front of the name. -/
def joint : Regex := blanks ++ alt (literal "->") (char '.') ++ blanks

theorem blanks_eq_nil_of_head? {gap u : List Char} {x : Char} (hgap : ∀ c ∈ gap, isBlank c = true)
    (hx : (gap ++ u).head? = some x) (hblank : isBlank x = false) : gap = [] := by
  cases gap with
  | nil => rfl
  | cons y gap =>
    obtain rfl : y = x := Option.some.inj hx
    simp [hgap y List.mem_cons_self] at hblank

/-- No hop starts where it would have to start with another character. -/
theorem ways_hop_of_halts (hc : Halts c.after) (hroom : c.after.length ≤ terms.bound) :
    Chain.hop.ways terms c caps = [] := by
  refine List.eq_nil_iff_forall_not_mem.mpr fun w hw => ?_
  obtain ⟨-, u, hl, _, _, rfl, ⟨_, _, rfl, ⟨gap, mark, rfl, hgap, hmark⟩, -⟩, -⟩ :=
    (mem_ways_iff_spells (r := Chain.hop) rfl (.of fun _ => none) hroom).mp hw
  have hfirst : ∃ x ∈ c.after.head?, isBlank x = true ∨ x ∈ ['-', '.', '['] := by
    rw [hl.after]
    cases gap with
    | cons y gap => exact ⟨y, rfl, .inl (spells_blanks.mp hgap y List.mem_cons_self)⟩
    | nil =>
      rcases hmark with ⟨hmark, -⟩ | ⟨rfl, -⟩
      · obtain rfl := spells_literal.mp hmark
        exact ⟨'-', rfl, .inr (by simp)⟩
      · exact ⟨'.', rfl, .inr (by simp)⟩
  obtain ⟨x, hx, hstarts⟩ := hfirst
  obtain ⟨hblank, hother⟩ := hc x hx
  rw [hblank] at hstarts
  exact hstarts.elim Bool.false_ne_true hother

/-- A hop takes its member as a whole, or what is left of it fits nothing that may follow. -/
theorem of_mem_ways_hop {m : Member} (hw : w ∈ Chain.hop.ways terms c caps)
    (hroom : c.after.length ≤ terms.bound)
    (hafter : c.after = "->".toList ++ (m.field.toList ++ rest)) (hrest : Ends rest) :
    w.2 = caps ∧ (c.Leads ("->".toList ++ m.field.toList) w.1 ∨ Halts w.1.after) := by
  obtain ⟨⟨d, caps'⟩, hd, hword⟩ := List.mem_flatMap.mp hw
  obtain ⟨rfl, u, hl, _, gap', rfl, ⟨gap, mark, rfl, hgap, hmark⟩, hgap'⟩ :=
    (mem_ways_iff_spells (r := joint) rfl (.of fun _ => none) hroom).mp hd
  rw [spells_blanks] at hgap hgap'
  have hchars := identifierChars_of_isIdentifier m.isIdentifier_field
  have htext := hl.after
  rw [hafter] at htext
  obtain rfl : gap = [] := blanks_eq_nil_of_head? hgap
    (u := mark ++ gap' ++ d.after) (x := '-') (by simp only [← List.append_assoc, ← htext]; rfl)
      (by decide)
  obtain rfl : mark = "->".toList := by
    rcases hmark with ⟨hmark, -⟩ | ⟨rfl, -⟩
    · exact spells_literal.mp hmark
    · simp at htext
  obtain rfl : gap' = [] := by
    rw [List.nil_append, List.append_assoc, List.append_cancel_left_eq] at htext
    cases hfield : m.field.toList with
    | nil => exact absurd hfield (by cases m <;> decide)
    | cons x field =>
      refine blanks_eq_nil_of_head? hgap' (u := d.after) (x := x) (by rw [← htext, hfield]; rfl) ?_
      exact isBlank_of_isIdentifierChar (hchars x (by simp [hfield]))
  rw [List.nil_append, List.append_nil] at hl
  obtain ⟨hcaps, hcases⟩ := of_mem_ways_indexed hword (hl.length_le.trans hroom)
    (List.append_cancel_left (hl.after.symm.trans hafter)) hchars hrest
  exact ⟨hcaps, hcases.imp_left hl.trans⟩

theorem mem_ways_hop {m : Member} {d : Cursor} (hl : c.Leads ("->".toList ++ m.field.toList) d)
    (hroom : c.after.length ≤ terms.bound) : (d, caps) ∈ Chain.hop.ways terms c caps := by
  obtain ⟨e, harrow, hfield⟩ := hl.split
  refine List.mem_flatMap.mpr ⟨(e, caps), ?_,
    mem_ways_indexed m.isIdentifier_field hfield (harrow.length_le.trans hroom)⟩
  refine mem_ways_of_spells (r := joint) (ρ := .of fun _ => none) rfl ⟨_, [], by simp, ⟨[], _, rfl,
    spells_blanks.mpr (by simp), .inl ⟨spells_literal.mpr rfl, ?_⟩⟩, spells_blanks.mpr (by simp)⟩
      caps harrow hroom
  exact fun n hn => absurd hn (by simp [groups])

theorem advances_hop (terms : Terms) : Way.Advances (Chain.hop.ways terms) :=
  (basic_of_isBasic rfl).advances rfl (by decide) terms

/-! ### Behind the base -/

/-- What a read has behind its base. -/
def toMember (field : String) : Regex :=
  (blanks ++ (literal "->" ++ (blanks ++ literal field))) ++ (wordEdge ++ notWritten)

/-- The ways to match the rest of a read whose base started somewhere, from the end of the base
on. -/
def memberWays (terms : Terms) (field : String) (start : Cursor) (w : Way) : List Way :=
  ((notBefore (blanks ++ char '(')).ways terms w.1 w.2).flatMap fun v =>
    (toMember field).ways terms v.1 (("expr", ⟨start, v.1⟩) :: v.2)

/-- The ways to match the rest of a read from the end of the variable on. -/
def hopWays (terms : Terms) (field : String) (start : Cursor) (w : Way) : List Way :=
  ((many Chain.hop).ways terms w.1 w.2).flatMap (memberWays terms field start)

theorem ways_memberRead (field : String) (terms : Terms) (c : Cursor) :
    (memberRead field).ways terms c [] =
      ((notSlot ++ Chain.chainStart).ways terms c []).flatMap fun v =>
        (Chain.indexed.ways terms v.1 v.2).flatMap (hopWays terms field v.1) := by
  have hgroup : ∀ c caps, (group "expr" Chain.chain).ways terms c caps =
      ((Chain.indexed ++ many Chain.hop ++ notBefore (blanks ++ char '(')).ways terms c caps).map
        fun w => (w.1, ("expr", ⟨c, w.1⟩) :: w.2) := fun _ _ => rfl
  have hhops :
      ∀ start w, hopWays terms field start w = ((many Chain.hop).ways terms w.1 w.2).flatMap
      fun w => memberWays terms field start w := fun _ _ => rfl
  have htail : ∀ start, hopWays terms field start = fun w => hopWays terms field start w :=
    fun _ => rfl
  simp only [memberRead, Chain.memberAccess, Chain.memberArrow, hgroup, ways_append,
    List.flatMap_assoc, List.flatMap_map]
  refine List.flatMap_congr fun u _ => List.flatMap_congr fun v _ =>
    List.flatMap_congr fun w _ => ?_
  simp only [hhops, memberWays, toMember, ways_append, List.flatMap_assoc]

/-- The rest of a read is blanks, an arrow and the member. -/
theorem of_mem_memberWays {m : Member} {start : Cursor} {v : Way}
    (hv : v ∈ memberWays terms m.field start w) (hroom : w.1.after.length ≤ terms.bound) :
    v.2 = ("expr", ⟨start, w.1⟩) :: w.2 ∧ ∃ gap gap', (∀ x ∈ gap, isBlank x = true) ∧
      (∀ x ∈ gap', isBlank x = true) ∧
        w.1.Leads (gap ++ ("->".toList ++ (gap' ++ m.field.toList))) v.1 := by
  obtain ⟨u, hu, hv⟩ := List.mem_flatMap.mp hv
  obtain ⟨rfl, -⟩ := mem_ways_notBefore.mp hu
  obtain ⟨⟨d, caps'⟩, hd, hv⟩ := List.mem_flatMap.mp hv
  obtain ⟨⟨e, caps''⟩, he, hv⟩ := List.mem_flatMap.mp hv
  obtain ⟨rfl, u, hl, gap, _, rfl, hgap, _, _, rfl, harrow, gap', _, rfl, hgap', hfield⟩ :=
    (mem_ways_iff_spells (r := blanks ++ (literal "->" ++ (blanks ++ literal m.field)))
      (by cases m <;> rfl) (.of fun _ => none) hroom).mp hd
  obtain rfl := spells_literal.mp harrow
  obtain rfl := spells_literal.mp hfield
  obtain ⟨rfl, rfl⟩ : d = e ∧ caps'' = ("expr", ⟨start, w.1⟩) :: w.2 := by
    have h := (ways_of_isStill (r := wordEdge) rfl).resolve_left (List.ne_nil_of_mem he)
    rw [h, List.mem_singleton, Prod.mk.injEq] at he
    exact ⟨he.1.symm, he.2⟩
  obtain ⟨rfl, -⟩ := (mem_ways_notWritten (hl.length_le.trans hroom)).mp hv
  exact ⟨rfl, gap, gap', spells_blanks.mp hgap, spells_blanks.mp hgap', hl⟩

theorem memberWays_of_halts {m : Member} {start : Cursor} (hw : Halts w.1.after)
    (hroom : w.1.after.length ≤ terms.bound) : memberWays terms m.field start w = [] := by
  refine List.eq_nil_iff_forall_not_mem.mpr fun v hv => ?_
  obtain ⟨-, gap, gap', hgap, -, hl⟩ := of_mem_memberWays hv hroom
  rw [hl.after] at hw
  cases gap with
  | nil => exact absurd (hw '-' rfl).2 (by simp)
  | cons x gap =>
    have hblank := (hw x rfl).1
    simp [hgap x List.mem_cons_self] at hblank

/-- In front of a hop to another member no read ends. -/
theorem memberWays_of_ne {m n : Member} {start : Cursor} (hmn : n ≠ m)
    (hafter : w.1.after = "->".toList ++ (n.field.toList ++ rest)) (hrest : Ends rest)
    (hroom : w.1.after.length ≤ terms.bound) : memberWays terms m.field start w = [] := by
  refine List.eq_nil_iff_forall_not_mem.mpr fun v hv => ?_
  obtain ⟨-, gap, gap', hgap, hgap', hl⟩ := of_mem_memberWays hv hroom
  have htext := hl.after
  rw [hafter] at htext
  obtain rfl : gap = [] := blanks_eq_nil_of_head? hgap (x := '-')
    (u := "->".toList ++ (gap' ++ m.field.toList) ++ v.1.after)
    (by rw [← List.append_assoc, ← htext]; rfl) (by decide)
  rw [List.nil_append, List.append_assoc, List.append_cancel_left_eq, List.append_assoc] at htext
  obtain rfl : gap' = [] := by
    cases hfield : n.field.toList with
    | nil => exact absurd hfield (by cases n <;> decide)
    | cons x field =>
      refine blanks_eq_nil_of_head? hgap' (x := x) (by rw [← htext, hfield]; rfl) ?_
      have hchars := identifierChars_of_isIdentifier n.isIdentifier_field
      exact isBlank_of_isIdentifierChar (hchars x (by simp [hfield]))
  rw [List.nil_append] at htext
  have hwithin := prefix_of_identifierChars htext
    (identifierChars_of_isIdentifier m.isIdentifier_field) hrest
  exact hmn (Member.eq_of_field_prefix hwithin).symm

/-- In front of a hop to the member a read ends. -/
theorem memberWays_ne_nil {m : Member} {start : Cursor}
    (hafter : w.1.after = "->".toList ++ (m.field.toList ++ rest)) (hrest : Ends rest)
    (hroom : w.1.after.length ≤ terms.bound) : memberWays terms m.field start w ≠ [] := by
  have hopen : (blanks ++ char '(').ways terms w.1 w.2 = [] := by
    refine List.eq_nil_iff_forall_not_mem.mpr fun v hv => ?_
    obtain ⟨-, u, hl, gap, _, rfl, hgap, rfl⟩ :=
      (mem_ways_iff_spells (r := blanks ++ char '(') rfl (.of fun _ => none) hroom).mp hv
    have htext := hl.after
    rw [hafter, List.append_assoc] at htext
    obtain rfl := blanks_eq_nil_of_head? (spells_blanks.mp hgap) (x := '-')
      (by rw [← htext]; rfl) (by decide)
    simp at htext
  have hsplit : w.1.after = ("->".toList ++ m.field.toList) ++ rest := by
    rw [hafter, List.append_assoc]
  obtain ⟨d, hl, hd⟩ := Cursor.exists_leads hsplit
  have hfront : (d, ("expr", ⟨start, w.1⟩) :: w.2) ∈
      (blanks ++ (literal "->" ++ (blanks ++ literal m.field))).ways terms w.1
        (("expr", ⟨start, w.1⟩) :: w.2) :=
    mem_ways_of_spells (r := blanks ++ (literal "->" ++ (blanks ++ literal m.field)))
      (ρ := .of fun _ => none) (by cases m <;> rfl) ⟨[], _, rfl,
      spells_blanks.mpr (by simp), _, _, rfl, spells_literal.mpr rfl, [], _, rfl,
        spells_blanks.mpr (by simp), spells_literal.mpr rfl⟩ _ hl hroom
  have hedge : (d, ("expr", ⟨start, w.1⟩) :: w.2) ∈
      wordEdge.ways terms d (("expr", ⟨start, w.1⟩) :: w.2) := by
    obtain ⟨x, hx, -, -, hword, -⟩ := hrest.head?
    have hlast : (m.field.toList.reverse).head?.any isWord = true := by cases m <;> decide +kernel
    have hbefore : d.before.head?.any isWord = true := by
      rw [hl.before, List.reverse_append, List.append_assoc, List.head?_append]
      cases hhead : m.field.toList.reverse.head? with
      | none => simp [hhead] at hlast
      | some y => simpa [hhead] using hlast
    have hholds : Anchor.wordEdge.holds d = true := by
      simp [Anchor.holds, hbefore, hd, hx, hword]
    rw [wordEdge, ways, Way.provided, if_pos hholds]
    exact List.mem_singleton.mpr rfl
  have hread : (d, ("expr", ⟨start, w.1⟩) :: w.2) ∈
      notWritten.ways terms d (("expr", ⟨start, w.1⟩) :: w.2) :=
    (mem_ways_notWritten (hl.length_le.trans hroom)).mpr ⟨rfl, hd ▸ hrest.not_isWritten⟩
  exact List.ne_nil_of_mem (List.mem_flatMap.mpr ⟨w, mem_ways_notBefore.mpr ⟨rfl, hopen⟩,
    List.mem_flatMap.mpr ⟨_, hfront, List.mem_flatMap.mpr ⟨_, hedge, hread⟩⟩⟩)

/-! ### The last hop to the member -/

theorem hopWays_of_halts {m : Member} {start : Cursor} (hw : Halts w.1.after)
    (hroom : w.1.after.length ≤ terms.bound) : hopWays terms m.field start w = [] := by
  rw [hopWays, ways_many_of_advances (advances_hop terms) hroom, ways_hop_of_halts hw hroom]
  simp [memberWays_of_halts hw hroom]

theorem ends_hops (ms : List Member) (hrest : Ends rest) : Ends (hops ms ++ rest) := by
  cases ms with
  | nil => exact hrest
  | cons m ms => exact ⟨"->", by simp, m.field.toList ++ hops ms ++ rest, by simp [hops_cons]⟩

/-- **The last hop to the member** is the one that is read, if there is one. -/
theorem head?_hopWays {m : Member} {ms : List Member} {start : Cursor} (hrest : Ends rest)
    (hhalt : Halts rest) (hroom : c.after.length ≤ terms.bound)
    (hafter : c.after = hops ms ++ rest) :
    match splitLast? m ms with
    | none => hopWays terms m.field start (c, caps) = []
    | some (front, _) => ∃ d, c.Leads (hops front) d ∧
      memberWays terms m.field start (d, caps) ≠ [] ∧
        (hopWays terms m.field start (c, caps)).head? =
        (memberWays terms m.field start (d, caps)).head? := by
  induction ms generalizing c with
  | nil => exact hopWays_of_halts (by rw [hafter]; exact hhalt) hroom
  | cons n ms ih =>
    rw [hops_cons, List.append_assoc, List.append_assoc] at hafter
    obtain ⟨e, hl, he⟩ := Cursor.exists_leads (c := c) (u := "->".toList ++ n.field.toList)
      (v := hops ms ++ rest) (by rw [hafter, List.append_assoc])
    have hroom' := hl.length_le.trans hroom
    have ih := ih hroom' he
    -- All ways to match the hop lead to the next one, or nowhere.
    have hnext : ((Chain.hop.ways terms c caps).flatMap (hopWays terms m.field start)).head? =
        (hopWays terms m.field start (e, caps)).head? := by
      refine head?_flatMap_of_eq_or_nil (fun w hw => ?_) ⟨_, mem_ways_hop hl hroom, rfl⟩
      obtain ⟨hcaps, hleads | hdead⟩ := of_mem_ways_hop hw hroom hafter (ends_hops ms hrest)
      · refine .inl (congrArg _ (Prod.ext ?_ hcaps))
        exact hleads.unique hl
      · refine .inr (hopWays_of_halts hdead ?_)
        exact ((advances_hop terms).lt hw).1.le.trans hroom
    have hways : hopWays terms m.field start (c, caps) =
        (Chain.hop.ways terms c caps).flatMap (hopWays terms m.field start) ++
          memberWays terms m.field start (c, caps) := by
      rw [hopWays, ways_many_of_advances (advances_hop terms) hroom, List.flatMap_append,
        List.flatMap_assoc, List.flatMap_singleton]
      rfl
    rw [splitLast?]
    cases hsplit : splitLast? m ms with
    | some halves =>
      obtain ⟨front, back⟩ := halves
      rw [hsplit] at ih
      obtain ⟨d, hd, hne, hhead⟩ := ih
      refine ⟨d, hl.trans hd, hne, ?_⟩
      rw [hways, List.head?_append, hnext, hhead]
      cases hsome : memberWays terms m.field start (d, caps) with
      | nil => exact absurd hsome hne
      | cons v vs => rfl
    | none =>
      rw [hsplit] at ih
      have hnil : (Chain.hop.ways terms c caps).flatMap (hopWays terms m.field start) = [] := by
        rw [← List.head?_eq_none_iff, hnext, List.head?_eq_none_iff]
        exact ih
      dsimp only
      split_ifs with hn
      · subst hn
        refine ⟨c, .refl c, memberWays_ne_nil hafter (ends_hops ms hrest) hroom, ?_⟩
        rw [hways, hnil, List.nil_append]
      · dsimp only
        rw [hways, hnil, List.nil_append]
        exact memberWays_of_ne hn hafter (ends_hops ms hrest) hroom

end

end Catalog

end CApiUpgrade
