import CApiUpgrade.Proofs.ChainReads
import CApiUpgrade.Proofs.Repetition
import Mathlib.Data.Bool.AllAny

/-!
# What becomes of a chain of members

A statement `y = x->m->…;` whose members all have rules is patched over and over.  Each rule reads
the last hop to its member: what is in front of it goes into a call, and what is behind it is left
behind the call, where no rule ever finds it again (`Catalog.Wrapped.read`).

So a chain is upgraded completely only if every rule finds its member at the end of what is left.
Read from the end, the members then come in rounds: each round follows the order of the catalog, and
all members that are left after it occur in it (`Catalog.Peels`, `chain_upgraded_iff`).  Other
chains keep an arrow for good (`chain_stuck`).
-/

namespace CApiUpgrade

open Text

namespace Catalog

open Regex

/-! ### Wrapped chains -/

/-- A chain on its way through the rules. -/
structure Wrapped where
  /-- The members that still hang on the variable. -/
  members : List Member
  /-- The calls around them, the innermost one first.  Each has members left behind it. -/
  calls : List (Member × List Member)

namespace Wrapped

/-- What the calls have in front of the variable. -/
def opened (s : Wrapped) : List Char :=
  s.calls.reverse.flatMap fun call => (call.1.reader ++ "(").toList

/-- What the calls have behind the members. -/
def closed (s : Wrapped) : List Char := s.calls.flatMap fun call => ')' :: hops call.2

/-- The expression, with the name of the variable. -/
def text (x : List Char) (s : Wrapped) : List Char :=
  s.opened ++ (x ++ (hops s.members ++ s.closed))

/-- Reads a member: its last hop becomes a call. -/
def read (s : Wrapped) (m : Member) : Wrapped :=
  match splitLast? m s.members with
  | some (front, back) => ⟨front, (m, back) :: s.calls⟩
  | none => s

/-- Reads all members in the order of the catalog. -/
def upgrade (s : Wrapped) : Wrapped := Member.all.foldl read s

end Wrapped

/-- What may stand in front of the expression: anything without the characters that the rules look
for, and an equals sign. -/
def IsFront (front : List Char) : Prop :=
  ∃ u, front = u ++ "= ".toList ∧ ∀ c ∈ u, c ∉ "-;(=![".toList

theorem IsFront.insert {front : List Char} (h : IsFront front) :
    IsFront (Header.lines ++ front) := by
  obtain ⟨u, rfl, hu⟩ := h
  have hlines : ∀ c ∈ Header.lines, c ∉ "-;(=![".toList :=
    List.all_iff_forall_prop.mp (by decide +kernel)
  exact ⟨Header.lines ++ u, by simp, List.forall_mem_append.mpr ⟨hlines, hu⟩⟩

theorem isFront_of_isIdentifier {y : List Char} (hy : isIdentifier y = true) :
    IsFront (y ++ " = ".toList) := by
  refine ⟨y ++ [' '], by simp, List.forall_mem_append.mpr ⟨fun c hc hin => ?_,
    List.all_iff_forall_prop.mp (by decide)⟩⟩
  have hchar := identifierChars_of_isIdentifier hy c hc
  have hnone : ∀ c ∈ "-;(=![".toList, isIdentifierChar c = false :=
    List.all_iff_forall_prop.mp (by decide)
  rw [hnone c hin] at hchar
  cases hchar

/-! ### Its characters -/

section

variable {s : Wrapped} {x front : List Char}

theorem IsFront.notMem (h : IsFront front) {c : Char} (hc : c ∈ "-;(![".toList) : c ∉ front := by
  obtain ⟨u, rfl, hu⟩ := h
  rw [List.mem_append, not_or]
  have hend : ∀ c ∈ "-;(![".toList, c ∈ "-;(=![".toList ∧ c ∉ "= ".toList :=
    List.all_iff_forall_prop.mp (by decide)
  exact ⟨fun hin => hu c hin (hend c hc).1, (hend c hc).2⟩

theorem mem_hops {ms : List Member} {c : Char} (hc : c ∈ hops ms) :
    isIdentifierChar c = true ∨ c ∈ "->".toList := by
  obtain ⟨m, -, hc⟩ := List.mem_flatMap.mp hc
  rcases List.mem_append.mp hc with hc | hc
  · exact .inr hc
  · exact .inl (identifierChars_of_isIdentifier m.isIdentifier_field c hc)

theorem mem_closed {c : Char} (hc : c ∈ s.closed) :
    isIdentifierChar c = true ∨ c ∈ "->)".toList := by
  have hsub : ∀ c ∈ "->".toList, c ∈ "->)".toList :=
    List.all_iff_forall_prop.mp (by decide)
  obtain ⟨call, -, hc⟩ := List.mem_flatMap.mp hc
  rcases List.mem_cons.mp hc with rfl | hc
  · exact .inr (by decide)
  · exact (mem_hops hc).imp_right (hsub c)

theorem mem_opened {c : Char} (hc : c ∈ s.opened) : isIdentifierChar c = true ∨ c = '(' := by
  obtain ⟨call, -, hc⟩ := List.mem_flatMap.mp hc
  have hreader : ∀ m : Member, ∀ c ∈ (m.reader ++ "(").toList, isIdentifierChar c = true ∨
      c = '(' := by
    intro m
    exact List.all_iff_forall_prop.mp (by cases m <;> decide +kernel)
  exact hreader call.1 c hc

theorem mem_text (hx : isIdentifier x = true) {c : Char} (hc : c ∈ s.text x) :
    isIdentifierChar c = true ∨ c ∈ "->()".toList := by
  have hsub : ∀ c ∈ "->)".toList, c ∈ "->()".toList :=
    List.all_iff_forall_prop.mp (by decide)
  have hsub' : ∀ c ∈ "->".toList, c ∈ "->()".toList :=
    List.all_iff_forall_prop.mp (by decide)
  simp only [Wrapped.text, List.mem_append] at hc
  rcases hc with hc | hc | hc | hc
  · exact (mem_opened hc).imp_right fun h => by rw [h]; decide
  · exact .inl (identifierChars_of_isIdentifier hx c hc)
  · exact (mem_hops hc).imp_right (hsub' c)
  · exact (mem_closed hc).imp_right (hsub c)

theorem notMem_text (hx : isIdentifier x = true) {c : Char} (hc : c ∈ ";=![".toList) :
    c ∉ s.text x := by
  intro hin
  have hother : ∀ c ∈ ";=![".toList, isIdentifierChar c = false ∧ c ∉ "->()".toList :=
    List.all_iff_forall_prop.mp (by decide)
  rcases mem_text hx hin with h | h
  · rw [(hother c hc).1] at h
    cases h
  · exact (hother c hc).2 h

/-- In front of the variable stands an equals sign or an opening parenthesis. -/
theorem exists_end_of_opened (hfront : IsFront front) :
    (∃ u, front ++ s.opened = u ++ "= ".toList) ∨
      ∃ u, ∃ m : Member, front ++ s.opened = u ++ (m.reader ++ "(").toList := by
  cases hcalls : s.calls with
  | nil =>
    obtain ⟨u, hu, -⟩ := hfront
    exact .inl ⟨u, by rw [hu, Wrapped.opened, hcalls]; simp⟩
  | cons call calls =>
    refine .inr ⟨front ++ calls.reverse.flatMap fun call => (call.1.reader ++ "(").toList, call.1,
      ?_⟩
    rw [Wrapped.opened, hcalls, List.reverse_cons, List.flatMap_append, List.append_assoc]
    simp

/-- Behind the members stands a parenthesis or the end of the statement. -/
theorem exists_closed (s : Wrapped) :
    ∃ y tail, s.closed ++ [';'] = y :: tail ∧ (y = ')' ∨ y = ';') := by
  cases hcalls : s.calls with
  | nil => exact ⟨';', [], by simp [Wrapped.closed, hcalls], .inr rfl⟩
  | cons call calls => exact ⟨')', _, by rw [Wrapped.closed, hcalls]; rfl, .inl rfl⟩

theorem ends_closed (s : Wrapped) : Ends (s.closed ++ [';']) := by
  obtain ⟨y, tail, h, rfl | rfl⟩ := exists_closed s
  · exact ⟨")", by simp, tail, h.symm⟩
  · exact ⟨";", by simp, tail, h.symm⟩

theorem halts_closed (s : Wrapped) : Halts (s.closed ++ [';']) := by
  obtain ⟨y, tail, h, hy⟩ := exists_closed s
  rw [h]
  rintro z hz
  obtain rfl : y = z := Option.some.inj hz
  rcases hy with rfl | rfl <;> decide

end

/-! ### Where a read starts -/

theorem StartsBehind.of_append {marks : List String} {u v : List Char}
    (h : StartsBehind marks (u ++ v)) : StartsBehind marks v := by
  refine ⟨fun c hc => h.1 c ?_, fun mark hmark hv =>
    h.2 mark hmark (hv.trans (List.suffix_append u v))⟩
  rw [List.getLast?_append, hc, Option.some_or]

/-- No chain starts at a letter of the text. -/
def Glued (w : List Char) : Prop :=
  ∀ u c v, w = u ++ c :: v → isLetter c = true → ¬ StartsBehind joints u

theorem Glued.append {u v : List Char} (hu : Glued u) (hv : Glued v) : Glued (u ++ v) := by
  intro a c b heq hc hstarts
  rcases List.append_eq_append_iff.mp heq.symm with ⟨rest, rfl, hrest⟩ | ⟨rest, rfl, hrest⟩
  · cases rest with
    | nil => exact hv [] c b (by simpa using hrest.symm) hc ⟨by simp, by decide⟩
    | cons d rest =>
      obtain ⟨rfl, rfl⟩ := List.cons.inj hrest
      exact hu a c rest rfl hc hstarts
  · exact hv rest c b hrest hc hstarts.of_append

theorem not_startsBehind_of_getLast? {u : List Char} {c : Char} (h : u.getLast? = some c)
    (hc : isIdentifierChar c = true) : ¬ StartsBehind joints u := by
  intro hstarts
  rw [hstarts.1 c h] at hc
  cases hc

theorem glued_of_isLetter_eq_false {w : List Char} (h : ∀ c ∈ w, isLetter c = false) : Glued w := by
  rintro u c v rfl hc
  rw [h c (by simp)] at hc
  cases hc

/-- Inside of a name no chain starts. -/
theorem glued_behind {front name : List Char} (hfront : ¬ StartsBehind joints front)
    (hletters : ∀ c ∈ front, isLetter c = false) (hname : ∀ c ∈ name, isIdentifierChar c = true) :
    Glued (front ++ name) := by
  intro a c b heq hc hstarts
  rcases List.append_eq_append_iff.mp heq.symm with ⟨rest, rfl, hrest⟩ | ⟨rest, rfl, hrest⟩
  · cases rest with
    | nil => exact hfront (by simpa using hstarts)
    | cons d rest =>
      obtain ⟨rfl, rfl⟩ := List.cons.inj hrest
      rw [hletters c (by simp)] at hc
      cases hc
  · cases hlast : rest.getLast? with
    | none =>
      rw [List.getLast?_eq_none_iff.mp hlast, List.append_nil] at hstarts
      exact hfront hstarts
    | some d =>
      refine not_startsBehind_of_getLast? hlast (hname d ?_) hstarts.of_append
      rw [hrest]
      exact List.mem_append_left _ (List.mem_of_getLast? hlast)

theorem glued_hops (ms : List Member) : Glued (hops ms) := by
  induction ms with
  | nil => exact glued_of_isLetter_eq_false (by simp)
  | cons m ms ih =>
    refine Glued.append (glued_behind ?_ (List.all_iff_forall_prop.mp (by decide)) ?_) ih
    · exact fun h => h.2 "->" (by decide) List.suffix_rfl
    · exact identifierChars_of_isIdentifier m.isIdentifier_field

theorem glued_closed (s : Wrapped) : Glued s.closed := by
  rw [Wrapped.closed]
  generalize s.calls = calls
  induction calls with
  | nil => exact glued_of_isLetter_eq_false (by simp)
  | cons call calls ih =>
    rw [List.flatMap_cons]
    have hparen : Glued [')'] :=
      glued_of_isLetter_eq_false (List.all_iff_forall_prop.mp (by decide))
    exact (hparen.append (glued_hops call.2)).append ih

/-- Without an index there is no equals sign and no parenthesis. -/
def Bare (w : List Char) : Prop := '[' ∉ w → ∀ c ∈ w, c ∉ "=(".toList

theorem Bare.append {u v : List Char} (hu : Bare u) (hv : Bare v) : Bare (u ++ v) := by
  intro h
  rw [List.mem_append, not_or] at h
  exact List.forall_mem_append.mpr ⟨hu h.1, hv h.2⟩

theorem Bare.flatten {ws : List (List Char)} (h : ∀ w ∈ ws, Bare w) : Bare ws.flatten := by
  induction ws with
  | nil => exact fun _ => by simp
  | cons w ws ih =>
    rw [List.forall_mem_cons] at h
    exact h.1.append (ih h.2)

theorem bare_of_forall {p : Char → Bool} {w : List Char} (h : ∀ c ∈ w, p c = true)
    (hp : ∀ c ∈ "=(".toList, p c = false) : Bare w := by
  intro _ c hc hin
  have hsome := h c hc
  rw [hp c hin] at hsome
  exact Bool.false_ne_true hsome

section Access

variable {ρ : Reading} {w : List Char}

theorem bare_of_spells_indexed (h : Chain.indexed.Spells ρ w) : Bare w := by
  obtain ⟨word, _, rfl, hword, ws, rfl, hws, -⟩ := h
  refine (bare_of_forall (word_of_spells_identifier hword).2
    (List.all_iff_forall_prop.mp (by decide))).append (.flatten fun u hu => ?_)
  obtain ⟨_, _, rfl, ⟨_, _, rfl, rfl, -⟩, -⟩ := hws u hu
  exact fun hnot => absurd (by simp) hnot

theorem bare_of_spells_blanks (h : blanks.Spells ρ w) : Bare w :=
  bare_of_forall (spells_blanks.mp h) (List.all_iff_forall_prop.mp (by decide))

theorem bare_of_spells_hop (h : Chain.hop.Spells ρ w) : Bare w := by
  obtain ⟨_, _, rfl, ⟨_, _, rfl, ⟨_, mark, rfl, hgap, hmark⟩, hgap'⟩, hindexed⟩ := h
  refine (((bare_of_spells_blanks hgap).append ?_).append (bare_of_spells_blanks hgap')).append
    (bare_of_spells_indexed hindexed)
  rcases hmark with ⟨hmark, -⟩ | ⟨rfl, -⟩
  · obtain rfl := spells_literal.mp hmark
    exact fun _ => List.all_iff_forall_prop.mp (by decide)
  · exact fun _ => List.all_iff_forall_prop.mp (by decide)

/-- What an access spells starts with a letter and has an arrow. -/
theorem of_spells_memberAccess {m : Member} (h : (Chain.memberAccess m.field).Spells ρ w) :
    (∃ c, w.head? = some c ∧ isLetter c = true) ∧ '-' ∈ w ∧ Bare w := by
  obtain ⟨_, edge, rfl, ⟨_, name, rfl, ⟨_, gap', rfl, ⟨_, arrow, rfl, ⟨_, gap, rfl,
    ⟨start, _, rfl, hstart, -, ⟨_, look, rfl, ⟨base, _, rfl, hbase, ws, rfl, hws, -⟩, hlook⟩⟩,
    hgap⟩, harrow⟩, hgap'⟩, hname⟩, hedge⟩ := h
  obtain rfl := spells_of_isStill rfl hstart
  obtain rfl := spells_of_isStill rfl hedge
  obtain rfl := spells_of_isStill rfl hlook
  obtain rfl := spells_literal.mp harrow
  obtain rfl := spells_literal.mp hname
  have hbare : Bare base := bare_of_spells_indexed hbase
  have hfield : Bare m.field.toList :=
    bare_of_forall (identifierChars_of_isIdentifier m.isIdentifier_field)
      (List.all_iff_forall_prop.mp (by decide))
  have harrow : Bare "->".toList := fun _ => List.all_iff_forall_prop.mp (by decide)
  obtain ⟨word, _, rfl, hword, -⟩ := hbase
  have hletter := spells_identifier.mp hword
  rw [isIdentifier, Bool.and_eq_true, Option.any_eq_true] at hletter
  obtain ⟨⟨c, hc, hletter⟩, -⟩ := hletter
  refine ⟨⟨c, ?_, hletter⟩, by simp, ?_⟩
  · cases word with
    | nil => simp at hc
    | cons d word => simpa using hc
  · simp only [List.nil_append, List.append_nil]
    exact ((((hbare.append (.flatten fun u hu => bare_of_spells_hop (hws u hu))).append
      (bare_of_spells_blanks hgap)).append harrow).append (bare_of_spells_blanks hgap')).append
        hfield

end Access

section

variable {s : Wrapped} {x front : List Char} {m : Member} {terms : Terms} {c : Cursor} {rule : Rule}

/-- A read starts with the variable. -/
theorem eq_of_mem_ways_memberRead (hfront : IsFront front) (hx : isIdentifier x = true) {w : Way}
    (hw : w ∈ (memberRead m.field).ways terms c []) (hroom : c.after.length ≤ terms.bound)
    {u : List Char} (hl : (Cursor.ofText (front ++ (s.text x ++ [';']))).Leads u c) :
    u = front ++ s.opened := by
  obtain ⟨haccess, -, -⟩ := (mem_ways_memberRead hroom).mp hw
  obtain ⟨hstarts, -⟩ := base_of_mem_ways haccess
  obtain ⟨z, hz, hspells, -⟩ :=
    (basic_memberAccess m.field).spells_of_mem_ways (fun _ _ _ _ => trivial)
    (Captures.Hold.nil fun _ _ => True) haccess
  obtain ⟨⟨d, hd, hletter⟩, harrow, hbare⟩ := of_spells_memberAccess hspells
  have hbehind : c.before.reverse = u := by
    rw [hl.before]
    simp [Cursor.ofText]
  rw [hbehind] at hstarts
  have htext : (front ++ s.opened) ++ (x ++ (hops s.members ++ (s.closed ++ [';']))) =
      u ++ (z ++ w.1.after) := by
    rw [← hz.after, ← hl.after]
    simp [Cursor.ofText, Wrapped.text]
  have hbracket : '[' ∉ z := by
    have hnone : '[' ∉ front ++ (s.text x ++ [';']) := by
      simp [hfront.notMem (c := '[') (by decide), notMem_text hx (c := '[') (by decide)]
    intro hin
    refine hnone ?_
    have hall : front ++ (s.text x ++ [';']) = u ++ (z ++ w.1.after) := by
      rw [← htext]
      simp [Wrapped.text]
    rw [hall]
    simp [hin]
  have hplain := hbare hbracket
  rcases List.append_eq_append_iff.mp htext with ⟨rest, hu, hrest⟩ | ⟨rest, hu, hrest⟩
  · -- Behind the start of the variable, letters stand inside of names only.
    cases rest with
    | nil => simpa using hu
    | cons e rest =>
      exfalso
      rw [hu] at hstarts
      have hstarts := hstarts.of_append
      cases hz : z with
      | nil => simp [hz] at hd
      | cons d' z' =>
        obtain rfl : d' = d := by simpa [hz] using hd
        have hglued : Glued (hops s.members ++ (s.closed ++ [';'])) :=
          (glued_hops _).append ((glued_closed s).append
            (glued_of_isLetter_eq_false (List.all_iff_forall_prop.mp (by decide))))
        rw [hz] at hrest
        change x ++ (hops s.members ++ (s.closed ++ [';'])) = (e :: rest) ++
          (d' :: (z' ++ w.1.after)) at hrest
        rcases List.append_eq_append_iff.mp hrest with ⟨rest', hrest', htail⟩ | ⟨rest', hx', htail⟩
        · rw [hrest'] at hstarts
          exact hglued rest' d' _ htail hletter hstarts.of_append
        · obtain ⟨y, hy⟩ : ∃ y, (e :: rest).getLast? = some y := ⟨_, List.getLast?_cons⟩
          refine not_startsBehind_of_getLast? hy ?_ hstarts
          refine identifierChars_of_isIdentifier hx y ?_
          rw [hx']
          exact List.mem_append_left _ (List.mem_of_getLast? hy)
  · -- In front of it, the access would have to reach over an equals sign or a parenthesis.
    cases rest with
    | nil => simpa using hu.symm
    | cons e rest =>
      exfalso
      have hwithin : e :: rest <+: z := by
        rcases List.append_eq_append_iff.mp hrest with ⟨z', hz', -⟩ | ⟨z', hz', -⟩
        · have hminus : '-' ∈ front ++ s.opened := by
            rw [hu, hz']
            simp [harrow]
          rcases List.mem_append.mp hminus with hin | hin
          · exact absurd hin (hfront.notMem (by decide))
          · rcases mem_opened hin with h | h <;> exact absurd h (by decide)
        · exact ⟨z', hz'.symm⟩
      have hnone : ∀ c ∈ e :: rest, c ∉ "=(".toList := fun c hc => hplain c (hwithin.subset hc)
      have hfirst : isLetter e = true := by
        obtain ⟨z', rfl⟩ := hwithin
        obtain rfl : e = d := by simpa using hd
        exact hletter
      have hsuffix : e :: rest <:+ front ++ s.opened := ⟨u, hu.symm⟩
      rcases exists_end_of_opened (s := s) hfront with ⟨v, hv⟩ | ⟨v, n, hv⟩
      · rcases List.suffix_or_suffix_of_suffix hsuffix ⟨v, hv.symm⟩ with hin | hin
        · have hother : ∀ c ∈ "= ".toList, isLetter c = false :=
            List.all_iff_forall_prop.mp (by decide)
          rw [hother e (hin.subset List.mem_cons_self)] at hfirst
          cases hfirst
        · exact hnone '=' (hin.subset (by decide)) (by decide)
      · obtain ⟨t, ht⟩ := hsuffix
        have hlast := congrArg List.getLast? (ht.trans hv)
        rw [String.toList_append, ← List.append_assoc, List.getLast?_append,
          List.getLast?_append] at hlast
        have hopen : (e :: rest).getLast? = some '(' := by
          cases hsome : (e :: rest).getLast? with
          | none => simp at hsome
          | some y => simpa [hsome] using hlast
        exact hnone '(' (List.mem_of_getLast? hopen) (by decide)

/-! ### What a read leaves -/

/-- Where the variable stands, a chain may start, and no macro takes over the slot. -/
theorem ways_start (hfront : IsFront front) (hbefore : c.before.reverse = front ++ s.opened) :
    (notSlot ++ Chain.chainStart).ways terms c [] = [(c, [])] := by
  have hends := exists_end_of_opened (s := s) hfront
  rw [← hbefore] at hends
  have hslot : ¬ IsSlot c := by
    rintro ⟨macroName, hmacro, hsuffix⟩
    have hapart : ∀ macroName ∈ slotMacros, ¬ (macroName ++ "(").toList <:+ "= ".toList ∧
        ¬ "= ".toList <:+ (macroName ++ "(").toList ∧ ∀ m : Member,
          ¬ (macroName ++ "(").toList <:+ (m.reader ++ "(").toList ∧
            ¬ (m.reader ++ "(").toList <:+ (macroName ++ "(").toList := by
      intro macroName h
      simp only [slotMacros, List.mem_cons, List.not_mem_nil, or_false] at h
      rcases h with rfl | rfl | rfl <;> refine ⟨by decide, by decide, fun m => ?_⟩ <;>
        cases m <;> decide
    obtain ⟨hshort, hlong, hreader⟩ := hapart macroName hmacro
    rcases hends with ⟨u, hu⟩ | ⟨u, m, hu⟩
    · exact (List.suffix_or_suffix_of_suffix hsuffix ⟨u, hu.symm⟩).elim hshort hlong
    · exact (List.suffix_or_suffix_of_suffix hsuffix ⟨u, hu.symm⟩).elim (hreader m).1 (hreader m).2
  have hstarts : StartsBehind joints c.before.reverse := by
    have hlast : c.before.reverse.getLast? = some ' ' ∨ c.before.reverse.getLast? = some '(' := by
      rcases hends with ⟨u, hu⟩ | ⟨u, m, hu⟩
      · exact .inl (by rw [hu]; simp)
      · exact .inr (by rw [hu, String.toList_append, ← List.append_assoc]; simp)
    refine ⟨fun d hd => ?_, fun mark hmark hsuffix => ?_⟩
    · rcases hlast with hlast | hlast <;> obtain rfl :=
        Option.some.inj (hlast.symm.trans hd) <;> decide
    · obtain ⟨v, hv⟩ := hsuffix
      have hjoint : ∀ mark ∈ joints, ∃ d, mark.toList.getLast? = some d ∧ d ∉ " (".toList := by
        intro mark hmark
        rcases List.mem_pair.mp hmark with rfl | rfl
        · exact ⟨'.', rfl, by decide⟩
        · exact ⟨'>', rfl, by decide⟩
      obtain ⟨d, hd, hother⟩ := hjoint mark hmark
      rw [← hv, List.getLast?_append, hd, Option.some_or] at hlast
      refine hother ?_
      rcases hlast with hlast | hlast <;> obtain rfl := Option.some.inj hlast <;> decide
  have hguard : (c, []) ∈ (startGuard ['.']).ways terms c [] :=
    mem_ways_startGuard.mpr ⟨rfl, hstarts⟩
  have hmem : (c, []) ∈ (notSlot ++ Chain.chainStart).ways terms c [] :=
    List.mem_flatMap.mpr ⟨_, mem_ways_notSlot.mpr ⟨rfl, hslot⟩, hguard⟩
  exact (ways_of_isStill (r := notSlot ++ Chain.chainStart) rfl).resolve_left
    (List.ne_nil_of_mem hmem)

/-- Where the variable stands, the last hop to the member is read. -/
theorem attempt_pattern (hfront : IsFront front) (hx : isIdentifier x = true) {bound : Nat}
    (hbefore : c.before.reverse = front ++ s.opened)
    (hafter : c.after = x ++ (hops s.members ++ (s.closed ++ [';'])))
    (hroom : c.after.length ≤ bound) :
    match splitLast? m s.members with
    | none => m.pattern.attempt bound c = none
    | some (kept, _) => ∃ d e, c.Leads (x ++ hops kept) d ∧
      d.Leads ("->".toList ++ m.field.toList) e ∧
        m.pattern.attempt bound c = some (e, [("expr", ⟨c, d⟩)]) := by
  obtain ⟨b, hb, hafter'⟩ := Cursor.exists_leads hafter
  have hends := ends_closed s
  have hroom' : b.after.length ≤ (Terms.mk none bound none).bound := hb.length_le.trans hroom
  -- All ways to match the variable lead behind it, or nowhere.
  have hattempt :
      m.pattern.attempt bound c = (hopWays ⟨none, bound, none⟩ m.field c (b, [])).head? := by
    change ((memberRead m.field).ways ⟨none, bound, none⟩ c []).head? = _
    rw [ways_memberRead, ways_start hfront hbefore, List.flatMap_singleton]
    refine head?_flatMap_of_eq_or_nil (fun w hw => ?_) ⟨_, mem_ways_indexed hx hb hroom, rfl⟩
    obtain ⟨hcaps, hleads | hdead⟩ := of_mem_ways_indexed hw hroom hafter
      (identifierChars_of_isIdentifier hx) (ends_hops s.members hends)
    · exact .inl (congrArg _ (Prod.ext (hleads.unique hb) hcaps))
    · refine .inr (hopWays_of_halts hdead ?_)
      exact ((Basic.advances (basic_of_isBasic rfl) rfl (by decide) _).lt hw).1.le.trans hroom
  have hlast :=
    @head?_hopWays ⟨none, bound, none⟩ b [] _ m _ c hends (halts_closed s) hroom' hafter'
  rw [← hattempt] at hlast
  cases hsplit : splitLast? m s.members with
  | none =>
    rw [hsplit] at hlast
    rw [hattempt, hlast]
    rfl
  | some halves =>
    obtain ⟨kept, back⟩ := halves
    rw [hsplit] at hlast
    obtain ⟨d, hd, hne, hhead⟩ := hlast
    obtain ⟨hmembers, -⟩ := of_splitLast? hsplit
    obtain ⟨v, vs, hways⟩ := List.exists_cons_of_ne_nil hne
    rw [hways, List.head?_cons] at hhead
    have hv := List.mem_of_head? (congrArg List.head? hways)
    have hroom'' := hd.length_le.trans hroom'
    obtain ⟨hcaps, gap, gap', hgap, hgap', hl⟩ := of_mem_memberWays hv hroom''
    -- There are no blanks in a chain.
    have hnone : ∀ c ∈ d.after, isBlank c = false := by
      intro y hy
      have hin : y ∈ hops s.members ++ (s.closed ++ [';']) := by
        rw [← hafter', hd.after]
        exact List.mem_append_right _ hy
      have hmarks : ∀ c ∈ "->".toList ++ "->)".toList ++ [';'], isBlank c = false :=
        List.all_iff_forall_prop.mp (by decide +kernel)
      simp only [List.mem_append] at hin
      rcases hin with hin | hin | hin
      · rcases mem_hops hin with h | h
        · exact isBlank_of_isIdentifierChar h
        · exact hmarks y (by simp only [List.mem_append]; exact .inl (.inl h))
      · rcases mem_closed hin with h | h
        · exact isBlank_of_isIdentifierChar h
        · exact hmarks y (by simp only [List.mem_append]; exact .inl (.inr h))
      · exact hmarks y (List.mem_append_right _ hin)
    have hempty : ∀ {gap : List Char}, (∀ c ∈ gap, isBlank c = true) → (∀ c ∈ gap, c ∈ d.after) →
        gap = [] := by
      intro gap hblank hin
      refine List.eq_nil_iff_forall_not_mem.mpr fun y hy => ?_
      have hsome := hblank y hy
      rw [hnone y (hin y hy)] at hsome
      cases hsome
    obtain rfl := hempty hgap fun y hy => by rw [hl.after]; simp [hy]
    obtain rfl := hempty hgap' fun y hy => by rw [hl.after]; simp [hy]
    exact ⟨d, v.1, hb.trans hd, hl, by rw [hhead, ← hcaps]⟩

/-- **A read**: the pass over a statement reads the last hop to the member. -/
theorem exists_pass (hfront : IsFront front) (hx : isIdentifier x = true) (s : Wrapped)
    (m : Member) : ∃ hits, m.pattern.Pass (front ++ (s.text x ++ [';'])).length
      (Cursor.ofText (front ++ (s.text x ++ [';']))) hits
        (front ++ ((s.read m).text x ++ [';'])) := by
  have hregular := m.regular_pattern
  generalize htext : front ++ (s.text x ++ [';']) = text
  have hsplit : (Cursor.ofText text).after =
      (front ++ s.opened) ++ (x ++ (hops s.members ++ (s.closed ++ [';']))) := by
    rw [← htext]
    simp [Cursor.ofText, Wrapped.text]
  obtain ⟨c, hc, hafter⟩ := Cursor.exists_leads hsplit
  -- No match starts anywhere else.
  have hnone : ∀ u d, (Cursor.ofText text).Leads u d → u ≠ front ++ s.opened →
      m.pattern.attempt text.length d = none := by
    intro u d hl hne
    rw [Option.eq_none_iff_forall_ne_some]
    intro w hw
    refine hne (eq_of_mem_ways_memberRead (m := m) hfront hx (List.mem_of_head? hw) hl.length_le
      (htext ▸ hl))
  have hskips : m.pattern.regex.Skips text.length (Cursor.ofText text) (front ++ s.opened) c := by
    refine .of_attempts hc fun u v e hu hv hl => hnone u e hl ?_
    intro heq
    exact hv (by simpa [heq] using hu)
  have hrest : ∀ (d : Cursor) (u : List Char), c.Leads u d → u ≠ [] → ∃ hits,
      m.pattern.Pass text.length d hits d.after := by
    intro d u hl hne
    obtain ⟨e, he, hend⟩ := Cursor.exists_leads (c := d) (u := d.after) (v := []) (by simp)
    have hlater : ∀ {v : List Char} {e : Cursor}, d.Leads v e →
        m.pattern.attempt text.length e = none :=
      fun hv => hnone _ _ (hc.trans (hl.trans hv)) (by simp [hne])
    refine ⟨[], ?_⟩
    have hpass := Pattern.Pass.of_skips (p := m.pattern)
      (.of_attempts he fun _ _ _ _ _ hv => hlater hv) (.done hend (hlater he))
    rwa [List.append_nil] at hpass
  have hbefore : c.before.reverse = front ++ s.opened := by
    rw [hc.before]
    simp [Cursor.ofText]
  have hroom : c.after.length ≤ text.length := hc.length_le
  have hattempt := attempt_pattern (m := m) hfront hx hbefore hafter hroom
  rw [Wrapped.read]
  cases hlast : splitLast? m s.members with
  | none =>
    rw [hlast] at hattempt
    obtain ⟨y, rest, hy⟩ := List.exists_cons_of_ne_nil (l := c.after) (by rw [hafter]; simp)
    obtain ⟨d, hd, hd'⟩ := Cursor.exists_leads (c := c) (u := [y]) (v := rest) hy
    obtain ⟨hits, hpass⟩ := hrest d [y] hd (by simp)
    have hwhole := Pattern.Pass.of_skips hskips (.skip hattempt hd.next? hpass)
    have hout : front ++ s.opened ++ (y :: d.after) = front ++ (s.text x ++ [';']) := by
      rw [hd', ← hy, hafter]
      simp [Wrapped.text]
    rw [hout] at hwhole
    exact ⟨hits, hwhole⟩
  | some halves =>
    obtain ⟨kept, back⟩ := halves
    rw [hlast] at hattempt
    obtain ⟨d, e, hd, he, hmatch⟩ := hattempt
    obtain ⟨hits, hpass⟩ := hrest e _ (hd.trans he) (by simp)
    refine ⟨⟨c, e, [("expr", ⟨c, d⟩)]⟩ :: hits, ?_⟩
    have hwhole := Pattern.Pass.of_skips hskips (.hit hmatch hpass)
    have hfill : m.pattern.template.fill (Captures.textOf [("expr", ⟨c, d⟩)]) =
        (m.reader ++ "(").toList ++ (x ++ hops kept) ++ [')'] := by
      have hspan : Span.text ⟨c, d⟩ = x ++ hops kept := hd.upTo
      have hexpr : Captures.textOf [("expr", ⟨c, d⟩)] "expr" = some (x ++ hops kept) := by
        rw [← hspan]
        rfl
      simp [Member.pattern, Pattern.ofRegex, Template.fill, hexpr]
    have hback : e.after = hops back ++ (s.closed ++ [';']) := by
      obtain ⟨hmembers, -⟩ := of_splitLast? hlast
      have hall := (hd.trans he).after
      rw [hafter, hmembers, hops_append, hops_cons] at hall
      have hsame : (x ++ (hops kept ++ ("->".toList ++ m.field.toList))) ++ e.after =
          (x ++ (hops kept ++ ("->".toList ++ m.field.toList))) ++
          (hops back ++ (s.closed ++ [';'])) := by
        simpa using hall.symm
      exact List.append_cancel_left hsame
    rw [hfill, hback] at hwhole
    have hout : front ++ s.opened ++ ((m.reader ++ "(").toList ++ (x ++ hops kept) ++ [')'] ++
        (hops back ++ (s.closed ++ [';']))) = front ++
        ((Wrapped.mk kept ((m, back) :: s.calls)).text x ++ [';']) := by
      simp [Wrapped.text, Wrapped.opened, Wrapped.closed]
    rwa [hout] at hwhole

theorem apply_rule (hfront : IsFront front) (hx : isIdentifier x = true) (s : Wrapped) (m : Member)
    {changed : List Char} (h : m.rule.apply (front ++ (s.text x ++ [';'])) = .ok changed) :
    changed = front ++ ((s.read m).text x ++ [';']) := by
  rw [Rule.apply_eq_applyAll, m.rule_patterns, Pattern.applyAll_cons_eq_ok] at h
  obtain ⟨o, ho, h⟩ := h
  obtain ⟨hits, hpass⟩ := exists_pass hfront hx s m
  rw [← Except.ok.inj h, m.regular_pattern.getD_of_pass hpass ho]

/-! ### The other rules -/

/-- The rules without a part in this: those that look for stores, for calls by an old name, for runs
of statements and for comparisons. -/
def otherRules : List Rule :=
  storeRules.map Prod.fst ++ renamings ++ [clear, newRef, setRef, isSingleton]

theorem rules_eq :
    rules = storeRules.map Prod.fst ++ (Member.all.take 3).map Member.rule ++ renamings ++
    (Member.all.drop 3).map Member.rule ++ [clear, newRef, setRef, isSingleton] := rfl

variable {p : Pattern} {texts : String → Option (List Char)} {w : List Char}

/-- There is only one equals sign and only one semicolon. -/
theorem counts (hfront : IsFront front) (hx : isIdentifier x = true) (s : Wrapped) :
    (front ++ (s.text x ++ [';'])).count ';' = 1 ∧ (front ++ (s.text x ++ [';'])).count '=' = 1 ∧
      (front ++ (s.text x ++ [';'])).count '!' = 0 := by
  have htext : ∀ c ∈ ";=!".toList, (s.text x).count c = 0 := by
    intro c hc
    have hsub : ∀ c ∈ ";=!".toList, c ∈ ";=![".toList :=
      List.all_iff_forall_prop.mp (by decide)
    exact List.count_eq_zero.mpr (notMem_text hx (hsub c hc))
  obtain ⟨u, rfl, hu⟩ := hfront
  have hnone : ∀ c ∈ ";=!".toList, u.count c = 0 := by
    intro c hc
    have hsub : ∀ c ∈ ";=!".toList, c ∈ "-;(=![".toList :=
      List.all_iff_forall_prop.mp (by decide)
    exact List.count_eq_zero.mpr fun hin => hu c hin (hsub c hc)
  refine ⟨?_, ?_, ?_⟩ <;> simp [List.count_append, htext, hnone]

theorem not_spells_of_counts (hfront : IsFront front) (hx : isIdentifier x = true)
    (hr : rule ∈ [clear, newRef, setRef, isSingleton]) (hp : p ∈ rule.patterns)
    (hw : w <:+: front ++ (s.text x ++ [';'])) : ¬ p.regex.Spells (.of texts) w := by
  intro hspells
  have hall : [clear, newRef, setRef, isSingleton].all (fun rule => rule.patterns.all fun p =>
      decide (2 ≤ p.regex.least ';' ∨ 2 ≤ p.regex.least '=' ∨ 1 ≤ p.regex.least '!')) = true := by
    decide +kernel
  have hleast := of_decide_eq_true (Rule.of_all_patterns hall hr hp)
  have hcount : ∀ c, p.regex.least c ≤ (front ++ (s.text x ++ [';'])).count c := fun c =>
    (least_le_count c hspells).trans (hw.sublist.count_le c)
  obtain ⟨hsemicolon, hequals, hbang⟩ := counts hfront hx s
  have h₁ := hcount ';'
  have h₂ := hcount '='
  have h₃ := hcount '!'
  omega

theorem not_spells_of_store (hfront : IsFront front) (hx : isIdentifier x = true)
    {getter member : String} (hr : (rule, getter, member) ∈ storeRules) (hp : p ∈ rule.patterns)
    (hw : w <:+: front ++ (s.text x ++ [';'])) : ¬ p.regex.Spells (.of texts) w := by
  intro hspells
  -- In front of the equals sign of a store stands a parenthesis or an arrow.
  obtain ⟨target, rest, hmark, rfl⟩ : ∃ target rest, ('(' ∈ target ∨ '-' ∈ target) ∧
      w = target ++ '=' :: rest := by
    rw [(of_mem_storeRules hr).2.2.2] at hp
    rcases List.mem_pair.mp hp with rfl | rfl
    · obtain ⟨target, inner, -, stored, -, ⟨gap, gap', -, -, rfl⟩, -, -, -, -, -, rfl⟩ :=
        exists_call_of_spells hspells
      exact ⟨_, _, .inl (by simp), rfl⟩
    · obtain ⟨target, inner, -, stored, -, ⟨gap, gap', gap'', -, -, rfl⟩, -, -, -, -, -, rfl⟩ :=
        exists_member_of_spells hspells
      exact ⟨_, _, .inr (by simp), rfl⟩
  obtain ⟨before, behind, htext⟩ := hw
  obtain ⟨u, rfl, hu⟩ := hfront
  have hequals : before ++ target ++ '=' :: (rest ++ behind) = u ++ '=' ::
      (' ' :: (s.text x ++ [';'])) := by
    simpa using htext
  have hnone : '=' ∉ ' ' :: (s.text x ++ [';']) := by
    simp [notMem_text hx (c := '=') (by decide)]
  have hsame :=
    ((List.append_cons_inj_of_notMem (fun hin => hu '=' hin (by decide)) hnone).mp hequals.symm).1
  rcases hmark with hmark | hmark <;> exact hu _ (hsame ▸ List.mem_append_right _ hmark) (by decide)

/-- In front of every opening parenthesis stands the name of a function that reads a member. -/
theorem exists_reader (hfront : '(' ∉ front) (calls : List (Member × List Member))
    {rest u v : List Char} (hrest : '(' ∉ rest)
    (h : front ++ (calls.flatMap (fun call => (call.1.reader ++ "(").toList) ++ rest) =
      u ++ '(' :: v) :
    ∃ u', ∃ m : Member, u = u' ++ m.reader.toList := by
  induction calls generalizing front u with
  | nil =>
    rw [List.flatMap_nil, List.nil_append] at h
    have hin : '(' ∈ front ++ rest := by rw [h]; simp
    simp [hfront, hrest] at hin
  | cons call calls ih =>
    have hreader : '(' ∉ call.1.reader.toList := by
      cases call.1 <;> decide
    rw [List.flatMap_cons, String.toList_append] at h
    have hsplit : (front ++ call.1.reader.toList) ++ '(' ::
        (calls.flatMap (fun call => (call.1.reader ++ "(").toList) ++ rest) = u ++ '(' :: v := by
      simpa using h
    rcases append_eq_append_cons hsplit with ⟨t, ht, -⟩ | ⟨t, rfl, ht⟩
    · have hin : '(' ∈ front ++ call.1.reader.toList := by simp [ht]
      simp [hfront, hreader] at hin
    · cases t with
      | nil => exact ⟨front, call.1, by simp⟩
      | cons d t =>
        obtain rfl := (List.cons.inj ht).1
        have hlater : [] ++ (calls.flatMap (fun call => (call.1.reader ++ "(").toList) ++ rest) =
            t ++ '(' :: v := (List.cons.inj ht).2
        obtain ⟨u', m, rfl⟩ := ih (by simp) hlater
        exact ⟨_, m, by rw [← List.cons_append, ← List.append_assoc]⟩

theorem not_spells_of_renaming (hfront : IsFront front) (hx : isIdentifier x = true)
    (hr : rule ∈ renamings) (hp : p ∈ rule.patterns)
    (hw : w <:+: front ++ (s.text x ++ [';'])) : ¬ p.regex.Spells (.of texts) w := by
  intro hspells
  obtain ⟨old, new, rfl, hold, -⟩ := exists_renameCall hr hp
  obtain ⟨_, _, rfl, ⟨_, edge, rfl, ⟨edge', name, rfl, hedge', hname⟩, hedge⟩, -, gaps, _, rfl,
      hgaps, rfl⟩ := hspells
  obtain rfl := spells_of_isStill rfl hedge
  obtain rfl := spells_of_isStill rfl hedge'
  obtain rfl := spells_literal.mp hname
  simp only [List.nil_append, List.append_nil] at hw
  obtain ⟨before, behind, htext⟩ := hw
  have hrest : '(' ∉ x ++ (hops s.members ++ (s.closed ++ [';'])) := by
    intro hin
    simp only [List.mem_append] at hin
    have hword : isIdentifierChar '(' = false := by decide
    rcases hin with hin | hin | hin | hin
    · rw [identifierChars_of_isIdentifier hx _ hin] at hword
      cases hword
    · rcases mem_hops hin with h | h <;> exact absurd h (by decide)
    · rcases mem_closed hin with h | h <;> exact absurd h (by decide)
    · exact absurd hin (by decide)
  obtain ⟨u', m, hreader⟩ :=
    exists_reader (hfront.notMem (c := '(') (by decide)) s.calls.reverse hrest
    (u := before ++ old.toList ++ gaps) (v := behind) (by
      simpa [Wrapped.text, Wrapped.opened] using htext.symm)
  -- The name in front of the parenthesis is no old one, and it does not end in a blank.
  obtain rfl : gaps = [] := by
    have hlast : ∀ m : Member, ∃ d, m.reader.toList.getLast? = some d ∧ Scan.isGap d = false := by
      intro m
      cases m <;> exact ⟨_, rfl, by decide⟩
    obtain ⟨d, hd, hgap⟩ := hlast m
    cases hgaps' : gaps.getLast? with
    | none => exact List.getLast?_eq_none_iff.mp hgaps'
    | some e =>
      have hends := congrArg List.getLast? hreader
      simp only [List.getLast?_append, hgaps', hd, Option.some_or, Option.some.injEq] at hends
      subst hends
      rw [gaps_of_spells hgaps e (List.mem_of_getLast? hgaps')] at hgap
      cases hgap
  rw [List.append_nil] at hreader
  have hapart : ∀ old ∈ oldNames, ∀ m : Member, ¬ old.toList <:+ m.reader.toList ∧
      ¬ m.reader.toList <:+ old.toList := by
    have hall : oldNames.all (fun old => Member.all.all fun m =>
        decide (¬ old.toList <:+ m.reader.toList ∧ ¬ m.reader.toList <:+ old.toList)) = true := by
      decide +kernel
    simp only [List.all_eq_true, decide_eq_true_eq] at hall
    exact fun old hold m => hall old hold m m.mem_all
  obtain ⟨hshort, hlong⟩ := hapart old hold m
  exact (List.suffix_or_suffix_of_suffix ⟨before, hreader⟩ ⟨u', rfl⟩).elim hshort hlong

theorem apply_other (hfront : IsFront front) (hx : isIdentifier x = true) (hr : rule ∈ otherRules)
    {changed : List Char} (h : rule.apply (front ++ (s.text x ++ [';'])) = .ok changed) :
    changed = front ++ (s.text x ++ [';']) := by
  have hrule : rule ∈ rules := by
    rw [rules_eq]
    simp only [otherRules, List.mem_append] at hr ⊢
    tauto
  refine Pattern.applyAll_of_idle (fun p hp => Catalog.regular hrule hp)
    (fun p hp w texts hw => ?_) h
  rw [otherRules, List.mem_append, List.mem_append] at hr
  rcases hr with (hr | hr) | hr
  · obtain ⟨⟨_, getter, member⟩, hmem, rfl⟩ := List.mem_map.mp hr
    exact not_spells_of_store hfront hx hmem hp hw
  · exact not_spells_of_renaming hfront hx hr hp hw
  · exact not_spells_of_counts hfront hx hr hp hw

end

/-! ### Patching -/

/-- A text is a statement with a wrapped chain. -/
def Shows (x : List Char) (s : Wrapped) (text : List Char) : Prop :=
  ∃ front, IsFront front ∧ text = front ++ (s.text x ++ [';'])

section

open Patch

variable {x : List Char} {s : Wrapped} {session session' : Session}

theorem shows_fire (rule : Rule) {changed : List Char} (h : Shows x s changed) :
    Shows x s (session.fire rule changed).text := by
  obtain ⟨front, hfront, rfl⟩ := h
  unfold Session.fire
  dsimp only
  split_ifs
  · exact ⟨_, hfront.insert, by rw [Header.insert, List.append_assoc]⟩
  · exact ⟨_, hfront, rfl⟩

/-- One rule: the text shows the chain after it if the rule leaves such a text. -/
theorem shows_step {rule : Rule} {t : Wrapped} (h : Shows x s session.text)
    (hrule : ∀ front changed, IsFront front →
      rule.apply (front ++ (s.text x ++ [';'])) = .ok changed →
      changed = front ++ (t.text x ++ [';']))
    (hstep : session.step rule = .ok session') : Shows x t session'.text := by
  obtain ⟨front, hfront, htext⟩ := h
  obtain ⟨changed, happly, hcases⟩ := Session.step_cases hstep
  have hchanged := hrule front changed hfront (htext ▸ happly)
  rcases hcases with ⟨hsame, rfl⟩ | ⟨-, rfl⟩
  · exact ⟨front, hfront, hsame ▸ hchanged⟩
  · exact shows_fire rule ⟨front, hfront, hchanged⟩

theorem shows_others (hx : isIdentifier x = true) {others : List Rule}
    (hr : ∀ rule ∈ others, rule ∈ otherRules) (h : Shows x s session.text)
    (hfold : others.foldlM Session.step session = .ok session') : Shows x s session'.text := by
  induction others generalizing session with
  | nil =>
    rw [List.foldlM_nil] at hfold
    rwa [← Except.ok.inj hfold]
  | cons rule others ih =>
    rw [List.forall_mem_cons] at hr
    obtain ⟨next, hnext, hrest⟩ := Session.foldlM_step_cons.mp hfold
    refine ih hr.2 (shows_step h (fun front changed hfront happly => ?_) hnext) hrest
    exact apply_other hfront hx hr.1 happly

theorem shows_readers (hx : isIdentifier x = true) {ms : List Member} (h : Shows x s session.text)
    (hfold : (ms.map Member.rule).foldlM Session.step session = .ok session') :
    Shows x (ms.foldl Wrapped.read s) session'.text := by
  induction ms generalizing session s with
  | nil =>
    rw [List.map_nil, List.foldlM_nil] at hfold
    rwa [← Except.ok.inj hfold]
  | cons m ms ih =>
    obtain ⟨next, hnext, hrest⟩ := Session.foldlM_step_cons.mp hfold
    refine ih (shows_step h (fun front changed hfront happly => ?_) hnext) hrest
    exact apply_rule hfront hx s m happly

theorem foldlM_step_append {front back : List Rule} :
    (front ++ back).foldlM Session.step session = .ok session' ↔
      ∃ mid, front.foldlM Session.step session = .ok mid ∧
      back.foldlM Session.step mid = .ok session' := by
  rw [List.foldlM_append, bind_eq_ok]

/-- **One patch** reads every member once, in the order of the catalog. -/
theorem shows_patch (hx : isIdentifier x = true) {insertHeader : Bool} {text : List Char}
    {o : PatchOutcome} (h : Shows x s text) (ho : patch rules insertHeader text = .ok o) :
    Shows x s.upgrade o.text := by
  obtain ⟨session, hfold, rfl⟩ := patch_eq_ok.mp ho
  rw [rules_eq] at hfold
  simp only [foldlM_step_append] at hfold
  obtain ⟨s₄, ⟨s₃, ⟨s₂, ⟨s₁, hstores, hfirst⟩, hrenamings⟩, hlast⟩, hfolds⟩ := hfold
  have hsub : ∀ others : List Rule, (∀ rule ∈ others, rule ∈ storeRules.map Prod.fst ∨
      rule ∈ renamings ∨
      rule ∈ [clear, newRef, setRef, isSingleton]) → ∀ rule ∈ others, rule ∈ otherRules := by
    intro others h rule hr
    simp only [otherRules, List.mem_append, or_assoc]
    exact h rule hr
  have h₁ := shows_others hx (hsub _ fun _ => .inl) h hstores
  have h₂ := shows_readers hx h₁ hfirst
  have h₃ := shows_others hx (hsub _ fun _ h => .inr (.inl h)) h₂ hrenamings
  have h₄ := shows_readers hx h₃ hlast
  have h₅ := shows_others hx (hsub _ fun _ h => .inr (.inr h)) h₄ hfolds
  rwa [← List.foldl_append, List.take_append_drop] at h₅

end

/-! ### Rounds -/

/-- The rounds in which the members of a chain are read, from its end on.  A round follows the order
of the catalog, and all members that are left after it occur in it. -/
inductive Peels : List Member → Prop where
  | nil : Peels []
  | round {rest round : List Member} : round ≠ [] → round.Sublist Member.all →
    rest ⊆ round → Peels rest → Peels (rest ++ round.reverse)

namespace Wrapped

/-- No member is left behind a call. -/
def Clean (s : Wrapped) : Prop := ∀ call ∈ s.calls, call.2 = []

variable {s : Wrapped}

theorem read_of_notMem {m : Member} (h : m ∉ s.members) : s.read m = s := by
  rw [read, splitLast?_eq_none.mpr h]

theorem read_of_mem {m : Member} (h : m ∈ s.members) : ∃ front back,
    s.members = front ++ m :: back ∧ m ∉ back ∧ s.read m = ⟨front, (m, back) :: s.calls⟩ := by
  cases hsplit : splitLast? m s.members with
  | none => exact absurd h (splitLast?_eq_none.mp hsplit)
  | some halves =>
    obtain ⟨front, back⟩ := halves
    obtain ⟨hmembers, hback⟩ := of_splitLast? hsplit
    exact ⟨front, back, hmembers, hback, by rw [read, hsplit]⟩

/-- What is left behind a call stays there. -/
theorem exists_calls (ms : List Member) (s : Wrapped) :
    ∃ calls, (ms.foldl read s).calls = calls ++ s.calls := by
  induction ms generalizing s with
  | nil => exact ⟨[], rfl⟩
  | cons m ms ih =>
    obtain ⟨calls, hcalls⟩ := ih (s.read m)
    by_cases hm : m ∈ s.members
    · obtain ⟨front, back, -, -, hread⟩ := read_of_mem hm
      rw [hread] at hcalls
      exact ⟨calls ++ [(m, back)], by simp [hread, hcalls]⟩
    · rw [read_of_notMem hm] at hcalls
      exact ⟨calls, by simpa [read_of_notMem hm] using hcalls⟩

theorem Clean.of_foldl {ms : List Member} (h : (ms.foldl read s).Clean) : s.Clean := by
  obtain ⟨calls, hcalls⟩ := exists_calls ms s
  exact fun call hcall => h call (hcalls ▸ List.mem_append_right _ hcall)

/-- A chain ends in a round: the members that are read stand at its end, in the order in which they
are read, and no other member is one of those that were to be read. -/
structure EndsIn (ms members rest round : List Member) : Prop where
  split : members = rest ++ round.reverse
  sublist : round.Sublist ms
  covers : ∀ m ∈ rest, m ∈ ms → m ∈ round

/-- If nothing is left behind the new calls, the chain has ended in a round. -/
theorem Clean.exists_round {ms : List Member} (h : (ms.foldl read s).Clean) :
    ∃ rest round, EndsIn ms s.members rest round ∧ (ms.foldl read s).members = rest := by
  induction ms generalizing s with
  | nil => exact ⟨s.members, [], ⟨by simp, .refl _, by simp⟩, rfl⟩
  | cons m ms ih =>
    rw [List.foldl_cons] at h ⊢
    obtain ⟨rest, round, hround, hend⟩ := ih h
    by_cases hm : m ∈ s.members
    · obtain ⟨front, back, hmembers, -, hread⟩ := read_of_mem hm
      rw [hread] at h hround
      obtain rfl : back = [] := h.of_foldl (m, back) List.mem_cons_self
      refine ⟨rest, m :: round, ⟨?_, hround.sublist.cons_cons m, fun n hn hin => ?_⟩, hend⟩
      · have hfront : front = rest ++ round.reverse := hround.split
        rw [hmembers, hfront]
        simp
      · rcases List.mem_cons.mp hin with rfl | hin
        · exact List.mem_cons_self
        · exact List.mem_cons_of_mem m (hround.covers n hn hin)
    · rw [read_of_notMem hm] at hround
      refine ⟨rest, round, ⟨hround.split, hround.sublist.cons m, fun n hn hin => ?_⟩, hend⟩
      rcases List.mem_cons.mp hin with rfl | hin
      · exact absurd (by rw [hround.split]; simp [hn]) hm
      · exact hround.covers n hn hin

/-- If the chain ends in a round, the round is read and nothing is left behind. -/
theorem EndsIn.foldl_read {ms rest round : List Member} (h : EndsIn ms s.members rest round)
    (hms : ms.Nodup) (hs : s.Clean) :
    (ms.foldl read s).Clean ∧ (ms.foldl read s).members = rest := by
  induction ms generalizing s round with
  | nil =>
    obtain rfl := List.sublist_nil.mp h.sublist
    exact ⟨hs, by simpa using h.split⟩
  | cons m ms ih =>
    rw [List.nodup_cons] at hms
    rw [List.foldl_cons]
    by_cases hm : m ∈ s.members
    · obtain ⟨front, back, hmembers, hback, hread⟩ := read_of_mem hm
      -- The member that is read first comes first in the round, so nothing stands behind it.
      have hmem : m ∈ round := by
        have hin := hm
        rw [h.split, List.mem_append, List.mem_reverse] at hin
        exact hin.elim (h.covers m · List.mem_cons_self) id
      obtain ⟨round, rfl, hround⟩ : ∃ round', round = m :: round' ∧ round'.Sublist ms := by
        rcases List.sublist_cons_iff.mp h.sublist with hsub | ⟨round', rfl, hsub⟩
        · exact absurd (hsub.subset hmem) hms.1
        · exact ⟨round', rfl, hsub⟩
      have hends : front ++ m :: back = (rest ++ round.reverse) ++ [m] := by
        rw [← hmembers, h.split]
        simp
      obtain ⟨rfl, rfl⟩ : back = [] ∧ front = rest ++ round.reverse := by
        cases hlast : back.getLast? with
        | none =>
          obtain rfl := List.getLast?_eq_none_iff.mp hlast
          exact ⟨rfl, (List.append_inj' hends rfl).1⟩
        | some n =>
          have hsame := congrArg List.getLast? hends
          rw [List.getLast?_append, List.getLast?_cons, hlast] at hsame
          obtain rfl : n = m := by simpa using hsame
          exact absurd (List.mem_of_getLast? hlast) hback
      rw [hread]
      refine @ih _ round ⟨rfl, hround, fun n hn hin => ?_⟩ hms.2 ?_
      · exact (List.mem_cons.mp (h.covers n hn (List.mem_cons_of_mem m hin))).resolve_left
          fun heq => hms.1 (heq ▸ hin)
      · rintro call (_ | ⟨_, hcall⟩)
        · rfl
        · exact hs call hcall
    · rw [read_of_notMem hm]
      have hout : m ∉ round := fun hin => hm (by rw [h.split]; simp [hin])
      refine ih ⟨h.split, ?_, fun n hn hin => h.covers n hn (List.mem_cons_of_mem m hin)⟩ hms.2 hs
      rcases List.sublist_cons_iff.mp h.sublist with hsub | ⟨round', rfl, -⟩
      · exact hsub
      · exact absurd List.mem_cons_self hout

/-- Without members there is nothing to read. -/
theorem upgrade_of_members_eq_nil (h : s.members = []) : s.upgrade = s := by
  rw [upgrade]
  generalize Member.all = ms
  induction ms with
  | nil => rfl
  | cons m ms ih => rw [List.foldl_cons, read_of_notMem (by simp [h]), ih]

/-- **One round.**  The chain peels iff nothing is left behind by one round and what is left of it
peels. -/
theorem clean_peels_upgrade_iff :
    s.upgrade.Clean ∧ Peels s.upgrade.members ↔ s.Clean ∧ Peels s.members := by
  constructor
  · rintro ⟨hclean, hpeels⟩
    obtain ⟨rest, round, hround, hend⟩ := hclean.exists_round
    refine ⟨hclean.of_foldl, ?_⟩
    have hcovers : rest ⊆ round := fun m hm => hround.covers m hm m.mem_all
    have hrest : Peels rest := by rwa [← hend]
    rw [hround.split]
    by_cases hnil : round = []
    · subst hnil
      obtain rfl := List.subset_nil.mp hcovers
      exact .nil
    · exact .round hnil hround.sublist hcovers hrest
  · rintro ⟨hclean, hpeels⟩
    generalize hmembers : s.members = members at hpeels
    cases hpeels with
    | nil =>
      rw [upgrade_of_members_eq_nil hmembers]
      exact ⟨hclean, hmembers ▸ .nil⟩
    | @round rest round _ hsub hcovers hrest =>
      have hround : EndsIn Member.all s.members rest round :=
        ⟨hmembers, hsub, fun m hm _ => hcovers hm⟩
      obtain ⟨hnew, hend⟩ := hround.foldl_read Member.nodup_all hclean
      exact ⟨hnew, by rw [upgrade, hend]; exact hrest⟩

end Wrapped

/-! ### The end -/

section

variable {x : List Char} {s : Wrapped} {text : List Char}

/-- A chain has as many calls as its text has opening parentheses. -/
theorem Shows.count_eq (h : Shows x s text) (hx : isIdentifier x = true) :
    text.count '(' = s.calls.length := by
  obtain ⟨front, hfront, rfl⟩ := h
  have hfree : front.count '(' = 0 ∧ x.count '(' = 0 ∧ (hops s.members).count '(' = 0 ∧
      s.closed.count '(' = 0 := by
    simp only [List.count_eq_zero]
    refine ⟨hfront.notMem (by decide), fun hin => ?_, fun hin => ?_, fun hin => ?_⟩
    · exact absurd (identifierChars_of_isIdentifier hx _ hin) (by decide)
    · rcases mem_hops hin with h | h <;> exact absurd h (by decide)
    · rcases mem_closed hin with h | h <;> exact absurd h (by decide)
  have hopened : s.opened.count '(' = s.calls.length := by
    rw [Wrapped.opened, ← List.length_reverse]
    generalize s.calls.reverse = calls
    induction calls with
    | nil => rfl
    | cons call calls ih =>
      have hone : (call.1.reader ++ "(").toList.count '(' = 1 := by cases call.1 <;> decide
      rw [List.flatMap_cons, List.count_append, ih, hone, List.length_cons, Nat.add_comm]
  simp [Wrapped.text, List.count_append, hfree, hopened]

/-- A member that is read makes for another call. -/
theorem length_calls_lt {m : Member} {ms : List Member} (hin : m ∈ ms) (hm : m ∈ s.members) :
    s.calls.length < (ms.foldl Wrapped.read s).calls.length := by
  induction ms generalizing s with
  | nil => cases hin
  | cons n ms ih =>
    rw [List.foldl_cons]
    by_cases hn : n ∈ s.members
    · obtain ⟨front, back, -, -, hread⟩ := Wrapped.read_of_mem hn
      obtain ⟨calls, hcalls⟩ := Wrapped.exists_calls ms (s.read n)
      rw [hcalls, hread, List.length_append, List.length_cons]
      omega
    · rw [Wrapped.read_of_notMem hn]
      exact ih ((List.mem_cons.mp hin).resolve_left fun heq => hn (heq ▸ hm)) hm

/-- What one patch leaves as it is has no members on its variable. -/
theorem members_eq_nil_of_shows (hx : isIdentifier x = true) (h : Shows x s text)
    (h' : Shows x s.upgrade text) : s.members = [] := by
  have hlen := (h'.count_eq hx).symm.trans (h.count_eq hx)
  rw [List.eq_nil_iff_forall_not_mem]
  exact fun m hm => absurd hlen (Nat.ne_of_gt (length_calls_lt m.mem_all hm))

/-- Once no member hangs on the variable, the arrows of the text are those left behind the calls. -/
theorem arrow_infix_iff (hx : isIdentifier x = true) (h : Shows x s text)
    (hmembers : s.members = []) : "->".toList <:+: text ↔ ¬ s.Clean := by
  obtain ⟨front, hfront, rfl⟩ := h
  constructor
  · rintro harrow hclean
    have hin : '-' ∈ front ++ (s.text x ++ [';']) := harrow.subset (by decide)
    simp only [Wrapped.text, hmembers, hops_nil, List.mem_append, List.nil_append] at hin
    rcases hin with hin | (hin | hin | hin) | hin
    · exact hfront.notMem (by decide) hin
    · rcases mem_opened hin with h | h <;> exact absurd h (by decide)
    · exact absurd (identifierChars_of_isIdentifier hx _ hin) (by decide)
    · obtain ⟨call, hcall, hin⟩ := List.mem_flatMap.mp hin
      rw [hclean call hcall, hops_nil] at hin
      exact absurd hin (by decide)
    · exact absurd hin (by decide)
  · intro hleft
    simp only [Wrapped.Clean, not_forall] at hleft
    obtain ⟨call, hcall, hne⟩ := hleft
    obtain ⟨m, ms, hms⟩ := List.exists_cons_of_ne_nil hne
    obtain ⟨before, behind, hcalls⟩ := List.append_of_mem hcall
    have hclosed : "->".toList <:+: s.closed :=
      ⟨before.flatMap (fun call => ')' :: hops call.2) ++ [')'],
        m.field.toList ++ (hops ms ++ behind.flatMap fun call => ')' :: hops call.2),
        by simp [Wrapped.closed, hcalls, hms, hops_cons]⟩
    exact hclosed.trans ⟨front ++ (s.opened ++ (x ++ hops s.members)),
      [';'], by simp [Wrapped.text]⟩

/-- **Patching until nothing changes.**  The chain peels iff no arrow is left. -/
theorem arrow_infix_iff_of_patchTimes (hx : isIdentifier x = true) (h : Shows x s text)
    {insertHeader : Bool} {n : Nat} {os : List PatchOutcome}
    (hos : patchTimes rules insertHeader n text = .ok os) {o : PatchOutcome}
    (hlast : os.getLast? = some o) (hsettled : o.applied = []) :
    "->".toList <:+: o.text ↔ ¬ (s.Clean ∧ Peels s.members) := by
  induction n generalizing s text os with
  | zero =>
    obtain rfl := Except.ok.inj hos
    simp at hlast
  | succ n ih =>
    obtain ⟨first, rest, rfl, hfirst, hrest⟩ := patchTimes_succ_eq_ok hos
    have hnext := shows_patch hx h hfirst
    cases rest with
    | nil =>
      -- The last patch has changed nothing, so nothing was left to read.
      obtain rfl : first = o := by simpa using hlast
      obtain rfl : first.text = text := by
        by_contra hne
        have hall : Catalog.all.select "all" = .ok rules := rfl
        exact (applied_ne_nil_iff hall hfirst).mpr hne hsettled
      have hmembers := members_eq_nil_of_shows hx h hnext
      rw [arrow_infix_iff hx h hmembers, hmembers]
      simp [Peels.nil]
    | cons second rest =>
      rw [List.getLast?_cons_cons] at hlast
      rw [ih hnext hrest hlast, Wrapped.clean_peels_upgrade_iff]

end

end Catalog

open Catalog

/-! ### Main results -/

/-- **Which chains are upgraded.**  A statement that stores a chain of members is patched until
nothing changes any more.  Then an arrow is left in it unless the members, read from the end of the
chain on, come in rounds that follow the order of the catalog, each with all members that are left
after it. -/
theorem chain_upgraded_iff {x y : List Char} (hx : isIdentifier x = true)
    (hy : isIdentifier y = true) {ms : List Member} {insertHeader : Bool} {n : Nat}
    {os : List PatchOutcome}
    (hos : patchTimes rules insertHeader n (y ++ " = ".toList ++ (x ++ hops ms ++ [';'])) = .ok os)
    {o : PatchOutcome} (hlast : os.getLast? = some o) (hsettled : o.applied = []) :
    "->".toList <:+: o.text ↔ ¬ Peels ms := by
  have hshows : Shows x ⟨ms, []⟩ (y ++ " = ".toList ++ (x ++ hops ms ++ [';'])) :=
    ⟨_, isFront_of_isIdentifier hy, by simp [Wrapped.text, Wrapped.opened, Wrapped.closed]⟩
  rw [arrow_infix_iff_of_patchTimes hx hshows hos hlast hsettled]
  have hclean : (Wrapped.mk ms []).Clean := fun call hcall => absurd hcall List.not_mem_nil
  simp [hclean]

/-- A chain of two rounds: the rules for `ob_type` and `f_back` take the last two members, and the
patch after that takes the first one. -/
theorem chain_upgraded_iff_frames :
    let once := "y = Py_TYPE(_PyFrame_GetBackBorrow(f->f_back));".toList
    let twice := "y = Py_TYPE(_PyFrame_GetBackBorrow(_PyFrame_GetBackBorrow(f)));".toList
    let os : List PatchOutcome := [⟨once, ["Py_TYPE", "PyFrame_GetBack"], false⟩,
      ⟨twice, ["PyFrame_GetBack"], false⟩, ⟨twice, [], false⟩]
    patchTimes rules false 3 "y = f->f_back->f_back->ob_type;".toList = .ok os ∧
      ¬ "->".toList <:+: twice ∧ Peels [.frameBack, .frameBack, .type] := by
  intro once twice os
  have hos : patchTimes rules false 3 "y = f->f_back->f_back->ob_type;".toList = .ok os :=
    patchTimes_succ (Evaluation.patch_eq_ok (by decide +kernel))
      (patchTimes_succ (Evaluation.patch_eq_ok (by decide +kernel))
        (patchTimes_of_fixed (Evaluation.patch_eq_ok (by decide +kernel)) 1))
  have harrow : ¬ "->".toList <:+: twice := by decide +kernel
  have hiff := @chain_upgraded_iff "f".toList "y".toList (by decide) (by decide)
    [.frameBack, .frameBack, .type] false 3 os hos ⟨twice, [], false⟩ rfl rfl
  exact ⟨hos, harrow, not_not.mp (mt hiff.mpr harrow)⟩

/-- **A chain that keeps an arrow**: the rule for `f_back` comes before the one for `f_code`, so it
leaves `f_code` behind a call, and from then on nothing changes. -/
theorem chain_stuck :
    let text := "y = _PyFrame_GetBackBorrow(f)->f_code;".toList
    patchTimes rules false 2 "y = f->f_back->f_code;".toList =
        .ok [⟨text, ["PyFrame_GetBack"], false⟩, ⟨text, [], false⟩] ∧
      "->f_code".toList <:+: text :=
  ⟨patchTimes_succ (Evaluation.patch_eq_ok (by decide +kernel))
    (patchTimes_of_fixed (Evaluation.patch_eq_ok (by decide +kernel)) 1), by decide⟩

end CApiUpgrade
