import CApiUpgrade.Proofs.WholeTexts

/-!
# The grammar of member chains

A search for a member chain that has to be a whole text finds one exactly if the text belongs to a
small grammar: a name with indices, then hops to further names with indices, and for a dereferenced
chain some stars in front (`Chain.accepts_chains`).  A text of the grammar is found with three steps
back for each of its characters, so the budget is no concern in practice.

The searched expression is read from its written form.  In the form that the reader gives to it,
classes are tables and the call that must not follow a chain is looked for by an automaton.  The
grammar is deterministic: what may come next is settled by the next character, so the run that takes
all it can never has to give any of it back.
-/

namespace CApiUpgrade

open Text

namespace Chain

/-! ### The grammar -/

/-- A name: a letter, then letters, digits and underscores. -/
def IsName (w : List Char) : Prop :=
  ∃ c rest, w = c :: rest ∧ isAsciiLetter c = true ∧
    ∀ d ∈ rest, isAsciiLetter d = true ∨ isAsciiDigit d = true ∨ d = '_'

/-- An index: something between brackets that has no closing bracket and no newline. -/
def IsIndex (w : List Char) : Prop :=
  ∃ inner, w = '[' :: inner ++ [']'] ∧ inner ≠ [] ∧ ']' ∉ inner ∧ '\n' ∉ inner

/-- A name with any number of indices. -/
def IsIndexed (w : List Char) : Prop :=
  ∃ (name : List Char) (indices : List (List Char)), w = name ++ indices.flatten ∧ IsName name ∧
    ∀ u ∈ indices, IsIndex u

/-- A hop to a name with indices.  Blanks may stand around the joint. -/
def IsHop (w : List Char) : Prop :=
  ∃ front joint back next : List Char, w = front ++ joint ++ back ++ next ∧
  (∀ c ∈ front, isBlank c = true) ∧
    (joint = ['-', '>'] ∨ joint = ['.']) ∧ (∀ c ∈ back, isBlank c = true) ∧ IsIndexed next

/-- A chain: a name with indices, then any number of hops. -/
def IsChain (w : List Char) : Prop :=
  ∃ (first : List Char) (hops : List (List Char)), w = first ++ hops.flatten ∧ IsIndexed first ∧
  ∀ u ∈ hops, IsHop u

/-- A chain behind any number of stars. -/
def IsDereferenced (w : List Char) : Prop :=
  ∃ (stars : Nat) (chain : List Char), w = List.replicate stars '*' ++ chain ∧ IsChain chain

theorem IsName.ne_nil {w : List Char} (h : IsName w) : w ≠ [] := by
  obtain ⟨c, rest, rfl, -, -⟩ := h
  exact List.cons_ne_nil c rest

theorem IsIndexed.ne_nil {w : List Char} (h : IsIndexed w) : w ≠ [] := by
  obtain ⟨name, indices, rfl, hname, -⟩ := h
  exact List.append_ne_nil_of_left_ne_nil hname.ne_nil _

theorem IsChain.ne_nil {w : List Char} (h : IsChain w) : w ≠ [] := by
  obtain ⟨first, hops, rfl, hfirst, -⟩ := h
  exact List.append_ne_nil_of_left_ne_nil hfirst.ne_nil _

theorem IsDereferenced.ne_nil {w : List Char} (h : IsDereferenced w) : w ≠ [] := by
  obtain ⟨stars, chain, rfl, hchain⟩ := h
  exact List.append_ne_nil_of_right_ne_nil _ hchain.ne_nil

/-! ### The expressions as they are read -/

namespace Parsed

open Regex

/-- The letters. -/
def letters : CharClass := ⟨false, [.table #[(65, 90), (97, 122)]]⟩

/-- The letters, the digits and the underscore. -/
def nameChars : CharClass := ⟨false, [.table #[(48, 57), (65, 90), (95, 95), (97, 122)]]⟩

/-- What an index may hold. -/
def indexChars : CharClass := ⟨false, [.table #[(0, 9), (11, 92), (94, 1114111)]]⟩

/-- An index. -/
def index : Regex := cat (char '[') (cat (many1 (oneOf indexChars)) (char ']'))

/-- A name with indices. -/
def indexed : Regex := cat (oneOf letters) (cat (many (oneOf nameChars)) (many index))

/-- The joint of a hop. -/
def joint : Regex := alt (cat (char '-') (char '>')) (char '.')

/-- A hop. -/
def hop : Regex := cat blanks (cat joint (cat blanks indexed))

/-- What must not follow a chain. -/
def call : Regex := cat blanks (char '(')

/-- Not in front of a call. -/
def guard : Regex := look .ahead true (linear call call.automaton)

/-- A chain. -/
def chain : Regex :=
  cat (oneOf letters) (cat (many (oneOf nameChars)) (cat (many index) (cat (many hop) guard)))

/-- A chain behind stars. -/
def dereferenced : Regex := cat (many (char '*')) chain

/-! ### Characters -/

theorem isAsciiLetter_iff {c : Char} :
    isAsciiLetter c = true ↔ 97 ≤ c.toNat ∧ c.toNat ≤ 122 ∨ 65 ≤ c.toNat ∧ c.toNat ≤ 90 := by
  simp [isAsciiLetter, Char.le_def, UInt32.le_iff_toNat_le]

theorem isAsciiDigit_iff {c : Char} : isAsciiDigit c = true ↔ 48 ≤ c.toNat ∧ c.toNat ≤ 57 := by
  simp [isAsciiDigit, Char.le_def, UInt32.le_iff_toNat_le]

theorem contains_letters (c : Char) : letters.contains c = true ↔ isAsciiLetter c = true := by
  have hlog : Nat.log2 2 = 1 := by decide
  have htable : letters.contains c = true ↔
      if c.toNat < 97 then 65 ≤ c.toNat ∧ c.toNat ≤ 90 else c.toNat ≤ 122 := by
    simp [letters, CharClass.contains, ClassItem.contains, RangeTable.contains,
      RangeTable.search, hlog]
  rw [htable, isAsciiLetter_iff]
  split_ifs <;> omega

theorem contains_nameChars (c : Char) :
    nameChars.contains c = true ↔ isAsciiLetter c = true ∨ isAsciiDigit c = true ∨ c = '_' := by
  have hlog : Nat.log2 4 = 2 := by decide
  have htable : nameChars.contains c = true ↔
      if c.toNat < 95 then if c.toNat < 65 then 48 ≤ c.toNat ∧ c.toNat ≤ 57 else c.toNat ≤ 90
      else c.toNat ≤ 95 ∨ 97 ≤ c.toNat ∧ c.toNat ≤ 122 := by
    simp [nameChars, CharClass.contains, ClassItem.contains, RangeTable.contains,
      RangeTable.search, hlog]
  have hunderscore : c = '_' ↔ c.toNat = 95 := ⟨fun h => h ▸ rfl, fun h => Char.toNat_inj.mp h⟩
  rw [htable, isAsciiLetter_iff, isAsciiDigit_iff, hunderscore]
  split_ifs <;> omega

theorem contains_indexChars (c : Char) : indexChars.contains c = true ↔ c ≠ ']' ∧ c ≠ '\n' := by
  have hlog : Nat.log2 3 = 1 := by decide
  have htable : indexChars.contains c = true ↔
      if c.toNat < 11 then c.toNat ≤ 9 else c.toNat ≤ 92 ∨ 94 ≤ c.toNat ∧ c.toNat ≤ 1114111 := by
    simp [indexChars, CharClass.contains, ClassItem.contains, RangeTable.contains,
      RangeTable.search, hlog]
  have hbracket : c = ']' ↔ c.toNat = 93 := ⟨fun h => h ▸ rfl, fun h => Char.toNat_inj.mp h⟩
  have hnewline : c = '\n' ↔ c.toNat = 10 := ⟨fun h => h ▸ rfl, fun h => Char.toNat_inj.mp h⟩
  -- There is no character behind the last range of the table.
  have hlast : c.toNat ≤ 1114111 := by
    have h : c.val.toNat < 55296 ∨ 57343 < c.val.toNat ∧ c.val.toNat < 1114112 := c.valid
    rw [← Char.toNat_val]
    omega
  rw [htable, ne_eq, ne_eq, hbracket, hnewline]
  split_ifs <;> omega

/-- Names do not start with blanks. -/
theorem isBlank_of_isAsciiLetter {c : Char} (h : isAsciiLetter c = true) : isBlank c = false := by
  rw [isAsciiLetter_iff] at h
  simp only [isBlank, Bool.or_eq_false_iff, Bool.and_eq_false_imp, decide_eq_true_eq,
    decide_eq_false_iff_not, beq_eq_false_iff_ne]
  omega

/-- A blank is neither part of a name nor the start of an index. -/
theorem stops_of_isBlank {c : Char} (h : isBlank c = true) :
    nameChars.contains c = false ∧ c ≠ '[' := by
  constructor
  · rw [← Bool.not_eq_true, contains_nameChars]
    rintro (hletter | hdigit | rfl)
    · exact absurd (isBlank_of_isAsciiLetter hletter) (by simp [h])
    · rw [isAsciiDigit_iff] at hdigit
      simp only [isBlank, Bool.or_eq_true, Bool.and_eq_true, decide_eq_true_eq, beq_iff_eq] at h
      omega
    · exact absurd h (by decide)
  · rintro rfl
    exact absurd h (by decide)

/-! ### What is matched belongs to the grammar -/

theorem isIndex_of_spells {ρ : Reading} {w : List Char} (h : index.Spells ρ w) : IsIndex w := by
  obtain ⟨_, _, rfl, rfl, inner, _, rfl, hinner, rfl⟩ := h
  obtain ⟨hlength, hall⟩ := (spells_repeated_one rfl).mp hinner
  have hchars : ∀ c ∈ inner, c ≠ ']' ∧ c ≠ '\n' :=
    fun c hc => (contains_indexChars c).mp (hall c hc)
  refine ⟨inner, rfl, List.length_pos_iff.mp hlength, fun hmem => ?_, fun hmem => ?_⟩
  · exact (hchars _ hmem).1 rfl
  · exact (hchars _ hmem).2 rfl

theorem isIndexed_of_spells {ρ : Reading} {w : List Char} (h : indexed.Spells ρ w) :
    IsIndexed w := by
  obtain ⟨_, _, rfl, ⟨c, hc, rfl⟩, rest, _, rfl, hrest, indices, rfl, hindices, -⟩ := h
  have hall := ((spells_repeated_one rfl).mp hrest).2
  refine ⟨c :: rest, indices, rfl, ⟨c, rest, rfl, ?_, fun d hd => ?_⟩, fun u hu =>
    isIndex_of_spells (hindices u hu)⟩
  · exact (contains_letters c).mp hc
  · exact (contains_nameChars d).mp (hall d hd)

theorem isHop_of_spells {ρ : Reading} {w : List Char} (h : hop.Spells ρ w) : IsHop w := by
  obtain ⟨front, _, rfl, hfront, joint, _, rfl, hjoint, back, next, rfl, hback, hnext⟩ := h
  refine ⟨front, joint, back, next, by simp, spells_blanks.mp hfront, ?_, spells_blanks.mp hback,
    isIndexed_of_spells hnext⟩
  rcases hjoint with ⟨⟨_, _, rfl, rfl, rfl⟩, -⟩ | ⟨rfl, -⟩
  · exact .inl rfl
  · exact .inr rfl

/-- What is behind the names and the indices does not depend on how they are put together. -/
theorem ways_chain (terms : Terms) (c : Cursor) (caps : Captures) :
    chain.ways terms c caps = (cat indexed (cat (many hop) guard)).ways terms c caps := by
  simp only [chain, indexed, ways, List.flatMap_assoc]

theorem isChain_of_mem_ways {terms : Terms} {c d : Cursor} {caps caps' : Captures}
    (hcaps : caps.Hold fun _ _ => True) (h : (d, caps') ∈ chain.ways terms c caps) :
    ∃ w, c.Leads w d ∧ IsChain w := by
  rw [ways_chain, ways, List.mem_flatMap] at h
  obtain ⟨⟨e, caps₁⟩, hindexed, h⟩ := h
  rw [ways, List.mem_flatMap] at h
  obtain ⟨⟨f, caps₂⟩, hhops, hguard⟩ := h
  obtain ⟨first, hfirst, hfirstSpells, hcaps⟩ :=
    (basic_of_isBasic (r := indexed) rfl).spells_of_mem_ways (fun _ _ _ _ => trivial) hcaps hindexed
  obtain ⟨_, hrest, ⟨hops, rfl, hhopsSpell, -⟩, -⟩ :=
    (basic_of_isBasic (r := many hop) rfl).spells_of_mem_ways (fun _ _ _ _ => trivial) hcaps hhops
  obtain rfl := stop_eq_of_isStill rfl hguard
  exact ⟨first ++ hops.flatten, hfirst.trans hrest, first, hops, rfl,
    isIndexed_of_spells hfirstSpells, fun u hu => isHop_of_spells (hhopsSpell u hu)⟩

theorem isDereferenced_of_mem_ways {terms : Terms} {c d : Cursor} {caps caps' : Captures}
    (hcaps : caps.Hold fun _ _ => True) (h : (d, caps') ∈ dereferenced.ways terms c caps) :
    ∃ w, c.Leads w d ∧ IsDereferenced w := by
  rw [dereferenced, ways, List.mem_flatMap] at h
  obtain ⟨⟨e, caps₁⟩, hstars, h⟩ := h
  obtain ⟨stars, hlead, hspells, hcaps⟩ :=
    (basic_of_isBasic (r := many (char '*')) rfl).spells_of_mem_ways
      (fun _ _ _ _ => trivial) hcaps hstars
  obtain ⟨w, hrest, hchain⟩ := isChain_of_mem_ways hcaps h
  have hall := ((spells_repeated_one rfl).mp hspells).2
  refine ⟨stars ++ w, hlead.trans hrest, stars.length, w, ?_, hchain⟩
  rw [← List.eq_replicate_length.mpr fun x hx => beq_iff_eq.mp (hall x hx)]

/-! ### The grammar is matched without going astray -/

variable {bound : Nat} {origin : Option Nat} {c d : Cursor} {w : List Char}

/-- A position behind which neither a name nor an index can go on. -/
def Stops (c : Cursor) : Prop := ∀ x ∈ c.after.head?, nameChars.contains x = false ∧ x ≠ '['

theorem passes_index (h : IsIndex w) (hl : c.Leads w d) (hroom : c.after.length ≤ bound) :
    Passes bound origin index c d 1 := by
  obtain ⟨inner, rfl, hne, hclosing, hnewline⟩ := h
  obtain ⟨c₂, hinner, hclose⟩ := hl.split
  obtain ⟨c₁, hopen, hinner⟩ := (show c.Leads (['['] ++ inner) c₂ from hinner).split
  obtain ⟨x, rest, rfl⟩ := List.exists_cons_of_ne_nil hne
  have hchars : ∀ y ∈ x :: rest, indexChars.contains y = true := fun y hy =>
    (contains_indexChars y).mpr ⟨fun heq => hclosing (heq ▸ hy), fun heq => hnewline (heq ▸ hy)⟩
  obtain ⟨c₃, hfirst, hmore⟩ := (show c₁.Leads ([x] ++ rest) c₂ from hinner).split
  have hend : ∀ y ∈ c₂.after.head?, indexChars.contains y = false := by
    rw [hclose.after]
    rintro y ⟨⟩
    decide +kernel
  have hlength : c₃.after.length ≤ bound := hfirst.length_le.trans (hopen.length_le.trans hroom)
  have hfirst : Passes bound origin (oneOf indexChars) c₁ c₃ 0 :=
    passes_of_takes? rfl (hchars x (by simp)) hfirst
  have hmore : Passes bound origin (many (oneOf indexChars)) c₃ c₂ 1 :=
    .many_one rfl (fun y hy => hchars y (List.mem_cons_of_mem _ hy)) hend hmore hlength
  have hopen : Passes bound origin (char '[') c c₁ 0 :=
    passes_of_takes? rfl (beq_self_eq_true _) hopen
  have hclose : Passes bound origin (char ']') c₂ d 0 :=
    passes_of_takes? rfl (beq_self_eq_true _) hclose
  exact hopen.cat ((hfirst.cat hmore).many1.cat hclose)

theorem head_of_leads {P : Char → Prop} (hw : ∃ x ∈ w.head?, P x) (hl : c.Leads w d) :
    ∀ x ∈ c.after.head?, P x := by
  obtain ⟨x, hx, hP⟩ := hw
  intro y hy
  rw [hl.after, List.head?_append, Option.mem_def.mp hx, Option.some_or, Option.mem_some] at hy
  exact hy ▸ hP

/-- If all of some texts start in one way, and so does what stands behind them, then so does the
whole. -/
theorem head_of_flatten {P : Char → Prop} {ws : List (List Char)}
    (hws : ∀ u ∈ ws, ∃ x ∈ u.head?, P x)
    (hl : c.Leads ws.flatten d) (hd : ∀ x ∈ d.after.head?, P x) : ∀ x ∈ c.after.head?, P x := by
  cases ws with
  | nil => exact hl.eq_of_nil ▸ hd
  | cons u us =>
    obtain ⟨e, hu, -⟩ := hl.split
    exact head_of_leads (hws u List.mem_cons_self) hu

theorem nil_notMem_of_head {P : Char → Prop} {ws : List (List Char)}
    (hws : ∀ u ∈ ws, ∃ x ∈ u.head?, P x) : [] ∉ ws := by
  intro hmem
  obtain ⟨x, hx, -⟩ := hws [] hmem
  simp at hx

theorem passes_indexed (h : IsIndexed w) (hl : c.Leads w d) (hd : Stops d)
    (hroom : c.after.length ≤ bound) : Passes bound origin indexed c d (w.length + 1) := by
  obtain ⟨_, indices, rfl, ⟨x, rest, rfl, hx, hrest⟩, hindices⟩ := h
  obtain ⟨c₂, hlead, hl⟩ := hl.split
  obtain ⟨c₁, hfirst, hmore⟩ := (show c.Leads ([x] ++ rest) c₂ from hlead).split
  have hheads : ∀ u ∈ indices, ∃ y ∈ u.head?, nameChars.contains y = false := fun u hu => by
    obtain ⟨inner, rfl, -⟩ := hindices u hu
    exact ⟨'[', rfl, by decide +kernel⟩
  have hletter : Passes bound origin (oneOf letters) c c₁ 0 :=
    passes_of_takes? rfl ((contains_letters x).mpr hx) hfirst
  have hname : Passes bound origin (many (oneOf nameChars)) c₁ c₂ 1 :=
    .many_one rfl (fun y hy => (contains_nameChars y).mpr (hrest y hy))
      (head_of_flatten hheads hl fun y hy => (hd y hy).1) hmore (hfirst.length_le.trans hroom)
  have hindices : Passes bound origin (many index) c₂ d (1 * indices.flatten.length + (0 + 1)) := by
    refine .many (F := fun _ => True) (nil_notMem_of_head hheads) (fun _ _ _ _ _ => trivial)
      (fun u hu c d hl _ hroom => ?_) ?_ trivial hl (hlead.length_le.trans hroom)
    · have hpos : 0 < u.length :=
        List.length_pos_iff.mpr fun hnil => nil_notMem_of_head hheads (hnil ▸ hu)
      exact (passes_index (hindices u hu) hl hroom).mono (by omega)
    · exact .cat (refuses_of_takes? rfl fun y hy => beq_false_of_ne (hd y hy).2)
  refine (hletter.cat (hname.cat hindices)).mono ?_
  rw [List.length_append, List.length_cons]
  omega

/-- A hop starts with a character that ends a name with indices. -/
theorem head_of_isHop (h : IsHop w) : ∃ x ∈ w.head?, nameChars.contains x = false ∧ x ≠ '[' := by
  obtain ⟨front, joint, back, next, rfl, hfront, hjoint, -, -⟩ := h
  cases front with
  | cons x front => exact ⟨x, rfl, stops_of_isBlank (hfront x List.mem_cons_self)⟩
  | nil =>
    rcases hjoint with rfl | rfl
    · exact ⟨'-', rfl, by decide +kernel⟩
    · exact ⟨'.', rfl, by decide +kernel⟩

theorem passes_joint (h : w = ['-', '>'] ∨ w = ['.']) (hl : c.Leads w d) :
    Passes bound origin joint c d 1 := by
  rcases h with rfl | rfl
  · obtain ⟨e, hdash, hhead⟩ := (show c.Leads (['-'] ++ ['>']) d from hl).split
    have hdash : Passes bound origin (char '-') c e 0 :=
      passes_of_takes? rfl (beq_self_eq_true _) hdash
    have hhead : Passes bound origin (char '>') e d 0 :=
      passes_of_takes? rfl (beq_self_eq_true _) hhead
    exact (hdash.cat hhead).alt_left.mono (Nat.zero_le 1)
  · have hdot : Passes bound origin (char '.') c d 0 := passes_of_takes? rfl (beq_self_eq_true _) hl
    refine .alt_right (m := 0) (.cat (refuses_of_takes? rfl ?_)) hdot
    rw [hl.after]
    rintro y ⟨⟩
    rfl

theorem passes_blanks (hw : ∀ x ∈ w, isBlank x = true)
    (hend : ∀ x ∈ d.after.head?, isBlank x = false) (hl : c.Leads w d)
    (hroom : c.after.length ≤ bound) : Passes bound origin blanks c d 1 :=
  .many_one rfl (by simpa [Category.contains] using hw)
    (by simpa [Category.contains] using hend) hl hroom

theorem passes_hop (h : IsHop w) (hl : c.Leads w d) (hd : Stops d)
    (hroom : c.after.length ≤ bound) : Passes bound origin hop c d (3 * w.length) := by
  obtain ⟨front, link, back, next, rfl, hfront, hjoint, hback, hnext⟩ := h
  obtain ⟨c₃, hl, hnextLead⟩ := hl.split
  obtain ⟨c₂, hl, hbackLead⟩ := hl.split
  obtain ⟨c₁, hfrontLead, hjointLead⟩ := hl.split
  -- Blanks are followed by something that is no blank, so they are taken all at once.
  have hdash : ∀ y ∈ c₁.after.head?, isBlank y = false := by
    rw [hjointLead.after]
    rcases hjoint with rfl | rfl <;> rintro y ⟨⟩ <;> decide
  have hletter : ∀ y ∈ c₃.after.head?, isBlank y = false := by
    obtain ⟨_, _, rfl, ⟨x, rest, rfl, hx, -⟩, -⟩ := hnext
    rw [hnextLead.after]
    rintro y ⟨⟩
    exact isBlank_of_isAsciiLetter hx
  have hroom₁ := hfrontLead.length_le.trans hroom
  have hroom₂ := hjointLead.length_le.trans hroom₁
  have hfront : Passes bound origin blanks c c₁ 1 := passes_blanks hfront hdash hfrontLead hroom
  have hback : Passes bound origin blanks c₂ c₃ 1 := passes_blanks hback hletter hbackLead hroom₂
  have hindexed : Passes bound origin indexed c₃ d (next.length + 1) :=
    passes_indexed hnext hnextLead hd (hbackLead.length_le.trans hroom₂)
  refine (hfront.cat ((passes_joint hjoint hjointLead).cat (hback.cat hindexed))).mono ?_
  have hpos : 0 < next.length := List.length_pos_iff.mpr hnext.ne_nil
  have hlink : 0 < link.length := by rcases hjoint with rfl | rfl <;> decide
  simp only [List.length_append]
  omega

theorem refuses_hop (hc : c.after = []) : Refuses bound origin hop c 2 := by
  intro goal caps spent
  have hnext : c.next? = none := by rw [Cursor.next?, hc]
  refine ⟨spent + 2, ?_, le_rfl⟩
  simp [hop, joint, blanks, many, run, Goal.exactly, Goal.rounds, Goal.step, hnext]

/-- At the end of a text there is no call. -/
theorem matchAt?_call (bound : Nat) (hc : c.after = []) :
    call.automaton.matchAt? bound c = none := by
  have hnext : c.next? = none := by rw [Cursor.next?, hc]
  have hcode : call.automaton.code =
      #[.fork 1 3, .read (.ofCategory .blank false), .goto 0, .read (.single '('), .accept] := by
    decide
  simp [Automaton.matchAt?, Automaton.matchBy?, Automaton.readOn, Automaton.isDone,
    Automaton.Frontier.follow, hnext, hcode]

theorem passes_guard (hc : c.after = []) : Passes bound origin guard c c 1 := by
  intro goal m hgoal caps spent
  obtain ⟨stop, caps', total, heq, hle⟩ := hgoal caps (spent + 1)
  refine ⟨stop, caps', total, ?_, by omega⟩
  simp [guard, run, matchAt?_call bound hc, Verdict.deny, heq]

theorem passes_chain (h : IsChain w) (hl : c.Leads w d) (hd : d.after = [])
    (hroom : c.after.length ≤ bound) : Passes bound origin chain c d (3 * w.length + 3) := by
  obtain ⟨first, hops, rfl, hfirst, hhops⟩ := h
  obtain ⟨e, hfirstLead, hl⟩ := hl.split
  have hheads := fun u hu => head_of_isHop (hhops u hu)
  have hend : Stops d := by simp [Stops, hd]
  have hstops : Stops e := head_of_flatten hheads hl hend
  have hmany : Passes bound origin (many hop) e d (3 * hops.flatten.length + (2 + 1)) :=
    .many (F := Stops) (nil_notMem_of_head hheads)
      (fun u hu _ _ hl => head_of_leads (hheads u hu) hl)
      (fun u hu _ _ hl hd hroom => passes_hop (hhops u hu) hl hd hroom) (refuses_hop hd) hend hl
      (hfirstLead.length_le.trans hroom)
  have hchain : Passes bound origin (cat indexed (cat (many hop) guard)) c d _ :=
    (passes_indexed hfirst hfirstLead hstops hroom).cat (hmany.cat (passes_guard hd))
  have hpos : 0 < first.length := List.length_pos_iff.mpr hfirst.ne_nil
  refine Passes.mono (r := chain) hchain ?_
  rw [List.length_append]
  omega

theorem passes_dereferenced (h : IsDereferenced w) (hl : c.Leads w d) (hd : d.after = [])
    (hroom : c.after.length ≤ bound) : Passes bound origin dereferenced c d (3 * w.length + 4) := by
  obtain ⟨stars, inner, rfl, hchain⟩ := h
  obtain ⟨e, hstars, hl⟩ := hl.split
  have hend : ∀ x ∈ e.after.head?, (x == '*') = false := by
    obtain ⟨_, hops, rfl, ⟨_, indices, rfl, ⟨x, rest, rfl, hx, -⟩, -⟩, -⟩ := hchain
    rw [hl.after]
    rintro y ⟨⟩
    exact beq_false_of_ne fun heq => absurd (heq ▸ hx) (by decide)
  have hmany : Passes bound origin (many (char '*')) c e 1 :=
    .many_one rfl (fun x hx => beq_iff_eq.mpr (List.eq_of_mem_replicate hx)) hend hstars hroom
  refine (hmany.cat (passes_chain hchain hl hd (hstars.length_le.trans hroom))).mono ?_
  rw [List.length_append]
  omega

theorem settles_chain : chain.Settles IsChain fun n => 3 * n + 3 where
  not_nil h := h.ne_nil rfl
  matched h := isChain_of_mem_ways (Captures.Hold.nil _) h
  passes h hl hd hroom := passes_chain h hl hd hroom

theorem settles_dereferenced : dereferenced.Settles IsDereferenced fun n => 3 * n + 4 where
  not_nil h := h.ne_nil rfl
  matched h := isDereferenced_of_mem_ways (Captures.Hold.nil _) h
  passes h hl hd hroom := passes_dereferenced h hl hd hroom

/-! ### Reading the written form -/

/-- The written form of a chain, as a whole text. -/
theorem source_chain :
    "^(?:" ++ Chain.chain.source ++ ")$" =
      "^(?:[a-zA-Z][a-zA-Z0-9_]*(?:\\[[^\\]\\n]+\\])*(?:\\s*(?:->|\\.)\\s*[a-zA-Z][a-zA-Z0-9_]*" ++
        "(?:\\[[^\\]\\n]+\\])*)*(?!\\s*\\())$" := by
  decide +kernel

/-- The written form of a chain behind stars differs by the stars only. -/
theorem source_dereferenced :
    "^(?:" ++ Chain.dereferenced.source ++ ")$" =
      "^(?:\\**[a-zA-Z][a-zA-Z0-9_]*(?:\\[[^\\]\\n]+\\])*(?:\\s*(?:->|\\.)\\s*[a-zA-Z][a-zA-Z0-9_]*"
        ++ "(?:\\[[^\\]\\n]+\\])*)*(?!\\s*\\())$" := by
  decide +kernel

theorem parse_chain :
    (Regex.parse ("^(?:" ++ Chain.chain.source ++ ")$")).toOption.map Prod.fst =
    some chain.whole := by
  rw [source_chain]
  decide +kernel

theorem parse_dereferenced :
    (Regex.parse ("^(?:" ++ Chain.dereferenced.source ++ ")$")).toOption.map Prod.fst =
    some dereferenced.whole := by
  rw [source_dereferenced]
  decide +kernel

/-- A written expression that can be read makes a pattern. -/
theorem exists_parse {source : String} {r : Regex}
    (h : (Regex.parse source).toOption.map Prod.fst = some r) :
    ∃ p, Pattern.parse source "" = .ok p ∧ p.regex = r := by
  cases hparse : Regex.parse source with
  | error cause => simp [hparse, Except.toOption] at h
  | ok read =>
    rw [hparse] at h
    refine ⟨_, by rw [Pattern.parse, hparse], ?_⟩
    simpa [Except.toOption] using h

end Parsed

/-- **Member chains.**  Searched for as a whole text, the written expressions for chains and for
dereferenced chains find the texts of their grammars and no others.  To find one takes about three
steps back for each character. -/
theorem accepts_chains :
    (∃ p, Pattern.parse ("^(?:" ++ chain.source ++ ")$") "" = .ok p ∧
      p.Decides IsChain fun n => 3 * n + 3) ∧
      ∃ p, Pattern.parse ("^(?:" ++ dereferenced.source ++ ")$") "" = .ok p ∧
        p.Decides IsDereferenced fun n => 3 * n + 4 := by
  obtain ⟨p, hp, hregex⟩ := Parsed.exists_parse Parsed.parse_chain
  obtain ⟨q, hq, hregex'⟩ := Parsed.exists_parse Parsed.parse_dereferenced
  exact ⟨⟨p, hp, Parsed.settles_chain.decides hregex⟩, q, hq,
    Parsed.settles_dereferenced.decides hregex'⟩

end Chain

end CApiUpgrade
