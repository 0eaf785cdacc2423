import CApiUpgrade.Proofs.Spelling
import Mathlib.Data.Nat.Bitwise

/-!
# Following matches with an automaton

What the texts of an expression have in common can often be said by a small automaton that reads
them character by character.  A `Tracker` is such an automaton, perhaps not a deterministic one.
`Regex.flow` takes a set of its states through an expression: from the states in front of a match to
those behind it.  A set of states is a number, read bit by bit.

The answer may hold too many states, but none is missing (`Regex.Basic.testBit_flow`).  So where it
is empty, no text of the expression can be read from any of the given states on.

A tracker may have a *sink*, a state that stands for trouble.  An expression keeps it, also where it
only looks ahead (`Regex.Basic.testBit_flow_sink`): if the sink is not in the answer, no part of the
expression was ever tried in it.
-/

namespace CApiUpgrade

/-- An automaton that reads texts. -/
structure Tracker where
  /-- From one state to another with one character. -/
  step : Nat → Char → Nat → Prop
  /-- The states behind one character that an expression takes, given those in front of it. -/
  next : Regex → (s : Nat) → Nat
  /-- All states that a character leads to. -/
  all : Nat
  /-- The states that stand for trouble. -/
  sink : Nat
  /-- No state is missing behind one character. -/
  testBit_next : ∀ {r : Regex} {p : Char → Bool} {c : Char} {s i j : Nat}, r.takes? = some p →
    p c = true → s.testBit i = true → step i c j → (next r s).testBit j = true
  /-- No state is missing at all. -/
  testBit_all : ∀ {i j : Nat} {c : Char}, step i c j → all.testBit j = true

namespace Tracker

variable (t : Tracker)

/-- From one state to another with a text. -/
def Path : Nat → List Char → Nat → Prop
  | i, [], j => i = j
  | i, c :: w, j => ∃ k, t.step i c k ∧ Path k w j

variable {t} {i j : Nat} {u v w : List Char}

theorem path_append : t.Path i (u ++ v) j ↔ ∃ k, t.Path i u k ∧ t.Path k v j := by
  induction u generalizing i with
  | nil => exact ⟨fun h => ⟨i, rfl, h⟩, fun ⟨k, hk, h⟩ => hk ▸ h⟩
  | cons c u ih =>
    constructor
    · rintro ⟨l, hl, h⟩
      obtain ⟨k, hk, h⟩ := ih.mp h
      exact ⟨k, ⟨l, hl, hk⟩, h⟩
    · rintro ⟨k, ⟨l, hl, hk⟩, h⟩
      exact ⟨l, hl, ih.mpr ⟨k, hk, h⟩⟩

theorem testBit_all_of_path (h : t.Path i w j) (hw : w ≠ []) : t.all.testBit j = true := by
  induction w generalizing i with
  | nil => exact absurd rfl hw
  | cons c w ih =>
    obtain ⟨k, hk, h⟩ := h
    cases w with
    | nil => exact h ▸ t.testBit_all hk
    | cons d w => exact ih h (by simp)

variable (t)

/-- What is reached by any number of rounds.  If that takes too many of them, everything is. -/
def saturate (round : Nat → Nat) : (fuel : Nat) → (s : Nat) → Nat
  | 0, s => s ||| t.all
  | fuel + 1, s =>
    let more := s ||| round s
    if more = s then s else saturate round fuel more

variable {t} {s : Nat} {round : Nat → Nat} {fuel : Nat}

theorem testBit_saturate_of_testBit (hs : s.testBit i = true) :
    (t.saturate round fuel s).testBit i = true := by
  induction fuel generalizing s with
  | zero => simp [saturate, hs]
  | succ fuel ih =>
    simp only [saturate]
    split_ifs
    · exact hs
    · exact ih (by simp [hs])

/-- Where another round leads to nothing new, no number of rounds does. -/
theorem testBit_of_closed {ws : List (List Char)}
    (hround : ∀ u ∈ ws, ∀ s i j, s.testBit i = true → t.Path i u j → (round s).testBit j = true)
    (hclosed : s ||| round s = s) (hs : s.testBit i = true) (h : t.Path i ws.flatten j) :
    s.testBit j = true := by
  induction ws generalizing i with
  | nil => exact h ▸ hs
  | cons u ws ih =>
    obtain ⟨k, hk, h⟩ := path_append.mp h
    have hstep : s.testBit k = true := by
      rw [← hclosed, Nat.testBit_or, hround u List.mem_cons_self s i k hs hk, Bool.or_true]
    exact ih (fun v hv => hround v (List.mem_cons_of_mem u hv)) hstep h

theorem testBit_saturate {ws : List (List Char)}
    (hround : ∀ u ∈ ws, ∀ s i j, s.testBit i = true → t.Path i u j → (round s).testBit j = true)
    (hs : s.testBit i = true) (h : t.Path i ws.flatten j) :
    (t.saturate round fuel s).testBit j = true := by
  induction fuel generalizing s with
  | zero =>
    by_cases hnil : ws.flatten = []
    · rw [hnil] at h
      obtain rfl : i = j := h
      simp [saturate, hs]
    · simp [saturate, testBit_all_of_path h hnil]
  | succ fuel ih =>
    simp only [saturate]
    split_ifs with hclosed
    · exact testBit_of_closed hround hclosed hs h
    · exact ih (by simp [hs])

/-- Unless everything is reached, what is reached is closed under another round. -/
theorem saturate_closed (h : t.all &&& t.saturate round fuel s ≠ t.all) :
    t.saturate round fuel s ||| round (t.saturate round fuel s) = t.saturate round fuel s := by
  induction fuel generalizing s with
  | zero =>
    refine absurd ?_ h
    apply Nat.eq_of_testBit_eq
    intro k
    cases hk : t.all.testBit k <;> simp [saturate, hk]
  | succ fuel ih =>
    simp only [saturate] at h ⊢
    split_ifs at h ⊢ with hclosed
    · exact hclosed
    · exact ih h

end Tracker

namespace Regex

variable (t : Tracker) (refer : String → Nat → Nat)

/-- The states behind a match, given those in front of it and what a reference does to them. -/
def flow : Regex → (s : Nat) → Nat
  | empty, s | anchor _, s | look (.behind _) _ _, s => s
  | look .ahead _ body, s => if t.sink = 0 then s else s ||| body.flow s &&& t.sink
  | cat a b, s =>
    let s := a.flow s
    if s = 0 then 0 else b.flow s
  | alt a b, s => a.flow s ||| b.flow s
  | group _ body, s => body.flow s
  | repeated body least _ _, s =>
    if s = 0 then 0
    else if least = 0 then t.saturate body.flow 64 s
    else t.saturate body.flow 64 (body.flow s)
  | backReference name _, s => refer name s
  | r, s => t.next r s

variable {t refer} {s i j : Nat}

theorem ne_zero_of_testBit (h : s.testBit i = true) : s ≠ 0 := by
  rintro rfl
  simp at h

theorem flow_of_takes? {r : Regex} {p : Char → Bool} (h : r.takes? = some p) :
    r.flow t refer s = t.next r s := by
  cases r <;> simp only [takes?, reduceCtorEq] at h <;> rfl

theorem testBit_flow_ahead (hi : t.sink.testBit i = true) (negated : Bool) (body : Regex) :
    ((look .ahead negated body).flow t refer s).testBit i =
      (s.testBit i || (body.flow t refer s).testBit i) := by
  rw [flow, if_neg (ne_zero_of_testBit hi), Nat.testBit_or, Nat.testBit_and, hi, Bool.and_true]

/-- **Nothing is missing.**  The state behind a text that the expression spells is found. -/
theorem Basic.testBit_flow {r : Regex} (hr : r.Basic) {ρ : Reading}
    (hrefer : ∀ n w, ρ.refers n w → ∀ s i j, s.testBit i = true → t.Path i w j →
      (refer n s).testBit j = true)
    {w : List Char} (hw : r.Spells ρ w) (hs : s.testBit i = true) (h : t.Path i w j) :
    (r.flow t refer s).testBit j = true := by
  induction hr generalizing w s i j with
  | @one r p hp =>
    obtain ⟨c, hc, rfl⟩ := (spells_of_takes? hp).mp hw
    obtain ⟨k, hk, rfl⟩ := h
    rw [flow_of_takes? hp]
    exact t.testBit_next hp hc hs hk
  | cat _ _ iha ihb =>
    obtain ⟨u, v, rfl, hu, hv⟩ := hw
    obtain ⟨k, hk, h⟩ := Tracker.path_append.mp h
    have hmid := iha hu hs hk
    simp only [flow, if_neg (ne_zero_of_testBit hmid)]
    exact ihb hv hmid h
  | alt _ _ iha ihb =>
    rw [flow, Nat.testBit_or, Bool.or_eq_true]
    exact hw.imp (fun hw => iha hw.1 hs h) fun hw => ihb hw.1 hs h
  | group name _ ih => exact ih hw.2 hs h
  | @repeated body least most greedy _ ih =>
    obtain ⟨ws, rfl, hws, hleast, -⟩ := hw
    -- Each round is a path of its own; the states between rounds are added until no new ones come
    -- up.
    have hround : ∀ u ∈ ws, ∀ s i j, s.testBit i = true → t.Path i u j →
        (body.flow t refer s).testBit j = true := fun u hu s i j => ih (hws u hu)
    rw [flow, if_neg (ne_zero_of_testBit hs)]
    split_ifs with h0
    · exact Tracker.testBit_saturate hround hs h
    · cases ws with
      | nil => exact absurd (Nat.le_zero.mp hleast) h0
      | cons u ws =>
        obtain ⟨k, hk, h⟩ := Tracker.path_append.mp h
        have hstep := hround u List.mem_cons_self s i k hs hk
        exact Tracker.testBit_saturate (fun v hv => hround v (List.mem_cons_of_mem u hv)) hstep h
  | backReference name => exact hrefer name w hw s i j hs h
  | look direction _ _ =>
    rw [Spells] at hw
    subst hw
    obtain rfl : i = j := h
    cases direction with
    | behind width => exact hs
    | ahead =>
      rw [flow]
      split_ifs
      · exact hs
      · simp [hs]
  | _ =>
    rw [Spells] at hw
    subst hw
    obtain rfl : i = j := h
    exact hs

/-- **Trouble stays.**  A state of the sink is kept. -/
theorem Basic.testBit_flow_sink {r : Regex} (hr : r.Basic)
    (hnext : ∀ r s, s.testBit i = true → (t.next r s).testBit i = true)
    (hrefer : ∀ n s, s.testBit i = true → (refer n s).testBit i = true)
    (hs : s.testBit i = true) : (r.flow t refer s).testBit i = true := by
  induction hr generalizing s with
  | @one r p hp =>
    rw [flow_of_takes? hp]
    exact hnext r s hs
  | cat _ _ iha ihb =>
    have hmid := iha hs
    simp only [flow, if_neg (ne_zero_of_testBit hmid)]
    exact ihb hmid
  | alt _ _ iha _ => rw [flow, Nat.testBit_or, iha hs, Bool.true_or]
  | group name _ ih => exact ih hs
  | @repeated body least most greedy _ ih =>
    rw [flow, if_neg (ne_zero_of_testBit hs)]
    split_ifs
    · exact Tracker.testBit_saturate_of_testBit hs
    · exact Tracker.testBit_saturate_of_testBit (ih hs)
  | backReference name => exact hrefer name s hs
  | look direction _ _ =>
    cases direction with
    | behind width => exact hs
    | ahead =>
      rw [flow]
      split_ifs
      · exact hs
      · simp [hs]
  | _ => exact hs

end Regex

/-! ### References -/

namespace Tracker

variable (t : Tracker)

/-- Nothing is known of what a reference matches. -/
def anything (_ : String) (s : Nat) : Nat := if s = 0 then 0 else s ||| t.all

/-- What a reference matches is spelled by the body of its group. -/
def refer (bodies : List (String × Regex)) (name : String) (s : Nat) : Nat :=
  bodies.foldr (fun e rest => if e.1 = name then e.2.flow t t.anything s ||| rest else rest)
    (s &&& t.sink)

variable {t} {s i j : Nat} {w : List Char}

theorem testBit_anything (name : String) (hs : s.testBit i = true) (h : t.Path i w j) :
    (t.anything name s).testBit j = true := by
  rw [anything, if_neg (Regex.ne_zero_of_testBit hs), Nat.testBit_or, Bool.or_eq_true]
  by_cases hw : w = []
  · subst hw
    obtain rfl : i = j := h
    exact .inl hs
  · exact .inr (testBit_all_of_path h hw)

theorem testBit_refer {bodies : List (String × Regex)} (hbodies : ∀ e ∈ bodies, e.2.Basic)
    {name : String} {body : Regex} (hmem : (name, body) ∈ bodies) {ρ : Reading}
    (hw : body.Spells ρ w) (hs : s.testBit i = true) (h : t.Path i w j) :
    (t.refer bodies name s).testBit j = true := by
  have hbody : (body.flow t t.anything s).testBit j = true :=
    (hbodies _ hmem).testBit_flow (fun n _ _ _ _ _ => testBit_anything n) hw hs h
  unfold refer
  induction bodies with
  | nil => simp at hmem
  | cons e rest ih =>
    rw [List.foldr_cons]
    rcases List.mem_cons.mp hmem with rfl | hrest
    · simp [hbody]
    · have := ih (fun e he => hbodies e (List.mem_cons_of_mem _ he)) hrest
      split_ifs
      · rw [Nat.testBit_or, this, Bool.or_true]
      · exact this

/-- A reference keeps a state of the sink. -/
theorem testBit_refer_sink {bodies : List (String × Regex)} {name : String}
    (hi : t.sink.testBit i = true) (hs : s.testBit i = true) :
    (t.refer bodies name s).testBit i = true := by
  unfold refer
  induction bodies with
  | nil => rw [List.foldr_nil, Nat.testBit_and, hs, hi, Bool.and_true]
  | cons e bodies ih =>
    rw [List.foldr_cons]
    split_ifs
    · rw [Nat.testBit_or, ih, Bool.or_true]
    · exact ih

variable (t)

/-- What a reference matches is spelled by the body of its group, if the group is one of the given
ones. -/
def reference (bodies : List (String × Regex)) (name : String) (s : Nat) : Nat :=
  if name ∈ bodies.map Prod.fst then t.refer bodies name s else t.anything name s

variable {t}

theorem testBit_reference {r : Regex} (hr : r.Basic) {texts : String → Option (List Char)}
    {m : List Char} (hm : r.Spells (.of texts) m) {name : String} (hw : texts name = some w)
    (hs : s.testBit i = true) (h : t.Path i w j) :
    (t.reference r.bodies name s).testBit j = true := by
  unfold reference
  split_ifs with hmem
  · obtain ⟨⟨name, body⟩, he, rfl⟩ := List.mem_map.mp hmem
    exact testBit_refer (fun _ => hr.of_mem_bodies) he (hr.spells_body hm he hw).2 hs h
  · exact testBit_anything name hs h

theorem testBit_reference_sink {bodies : List (String × Regex)} {name : String}
    (hi : t.sink.testBit i = true) (hs : s.testBit i = true) :
    (t.reference bodies name s).testBit i = true := by
  unfold reference
  split_ifs
  · exact testBit_refer_sink hi hs
  · rw [anything, if_neg (Regex.ne_zero_of_testBit hs), Nat.testBit_or, hs, Bool.true_or]

end Tracker

/-! ### Machines

An automaton with few states, most of which do not tell most characters apart. -/

namespace Text

/-- Whether a character is a letter of the English alphabet. -/
def isLetter (c : Char) : Bool := ('a' ≤ c && c ≤ 'z') || ('A' ≤ c && c ≤ 'Z')

theorem isLetter_of_isBlank {c : Char} (h : isBlank c = true) : isLetter c = false := by
  simp only [isBlank, Bool.or_eq_true, Bool.and_eq_true, decide_eq_true_eq, beq_iff_eq,
    Char.toNat] at h
  simp only [isLetter, Bool.or_eq_false_iff, Bool.and_eq_false_iff, decide_eq_false_iff_not,
    Char.le_def, UInt32.le_iff_toNat_le]
  have hsmall : 'a'.val.toNat = 97 ∧ 'z'.val.toNat = 122 := by decide
  have hcapital : 'A'.val.toNat = 65 ∧ 'Z'.val.toNat = 90 := by decide
  omega

end Text

open Text

/-- The characters that an item of a class stands for, if it lists them. -/
def ClassItem.listed? : ClassItem → Option Char
  | char c => some c
  | _ => none

/-- Whether an item of a class stands for letters only. -/
def ClassItem.isLetters : ClassItem → Bool
  | char c => isLetter c
  | range lo hi => ('a' ≤ lo && hi ≤ 'z') || ('A' ≤ lo && hi ≤ 'Z')
  | _ => false

theorem ClassItem.isLetter_of_contains {item : ClassItem} (h : item.isLetters = true) {c : Char}
    (hc : item.contains c = true) : isLetter c = true := by
  cases item with
  | char d =>
    rw [ClassItem.contains, beq_iff_eq] at hc
    exact hc ▸ h
  | range lo hi =>
    simp only [ClassItem.contains, Bool.and_eq_true, decide_eq_true_eq] at hc
    simp only [isLetters, Bool.or_eq_true, Bool.and_eq_true, decide_eq_true_eq] at h
    simp only [isLetter, Bool.or_eq_true, Bool.and_eq_true, decide_eq_true_eq]
    exact h.imp (fun h => ⟨Char.le_trans h.1 hc.1, Char.le_trans hc.2 h.2⟩)
      fun h => ⟨Char.le_trans h.1 hc.1, Char.le_trans hc.2 h.2⟩
  | _ => simp [isLetters] at h

namespace Regex

/-- The characters that an expression takes, if it lists them. -/
def listed? : Regex → Option (List Char)
  | char c => some [c]
  | oneOf cls => if cls.negated then none else cls.items.mapM ClassItem.listed?
  | _ => none

/-- Whether an expression takes letters only. -/
def takesLetters : Regex → Bool
  | oneOf cls => !cls.negated && cls.items.all ClassItem.isLetters
  | _ => false

/-- Whether an expression takes blank characters only, and so no letters. -/
def takesBlanks : Regex → Bool
  | category .blank negated => !negated
  | _ => false

variable {r : Regex} {p : Char → Bool} {c : Char}

theorem mem_of_listed? (hp : r.takes? = some p) (hc : p c = true) {cs : List Char}
    (h : r.listed? = some cs) : c ∈ cs := by
  cases r with
  | char d =>
    obtain rfl := Option.some.inj hp
    obtain rfl := Option.some.inj h
    exact List.mem_singleton.mpr (beq_iff_eq.mp hc)
  | oneOf cls =>
    obtain rfl := Option.some.inj hp
    rw [listed?] at h
    split_ifs at h with hneg
    rw [CharClass.contains, Bool.eq_false_iff.mpr hneg, bne_iff_ne, ne_eq, Bool.not_eq_false,
      List.any_eq_true] at hc
    obtain ⟨item, hmem, hitem⟩ := hc
    -- The list is put together item by item.
    generalize cls.items = items at h hmem
    induction items generalizing cs with
    | nil => simp at hmem
    | cons first rest ih =>
      simp only [List.mapM_cons, bind, Option.bind_eq_some_iff, pure, Option.some.injEq] at h
      obtain ⟨d, hd, ds, hds, rfl⟩ := h
      rcases List.mem_cons.mp hmem with rfl | hmem
      · cases item with
        | char e =>
          obtain rfl := Option.some.inj hd
          exact List.mem_cons.mpr (.inl (beq_iff_eq.mp hitem))
        | _ => simp [ClassItem.listed?] at hd
      · exact List.mem_cons_of_mem d (ih hds hmem)
  | _ => simp [listed?] at h

theorem isLetter_of_takesLetters (hp : r.takes? = some p) (hc : p c = true)
    (h : r.takesLetters = true) : isLetter c = true := by
  cases r with
  | oneOf cls =>
    obtain rfl := Option.some.inj hp
    simp only [takesLetters, Bool.and_eq_true, Bool.not_eq_true', List.all_eq_true] at h
    rw [CharClass.contains, h.1, bne_iff_ne, ne_eq, Bool.not_eq_false, List.any_eq_true] at hc
    obtain ⟨item, hmem, hitem⟩ := hc
    exact item.isLetter_of_contains (h.2 item hmem) hitem
  | _ => simp [takesLetters] at h

theorem isLetter_of_takesBlanks (hp : r.takes? = some p) (hc : p c = true)
    (h : r.takesBlanks = true) : isLetter c = false := by
  unfold takesBlanks at h
  split at h
  · rename_i negated
    obtain rfl := Option.some.inj hp
    rw [Bool.not_eq_true'] at h
    subst h
    exact isLetter_of_isBlank (by simpa [Category.contains] using hc)
  · simp at h

end Regex

/-- The description of an automaton.  Apart from some special characters, it tells letters from
other characters only. -/
structure Machine where
  /-- The number of states. -/
  size : Nat
  /-- The characters that are told apart. -/
  special : List Char
  /-- The states behind a character. -/
  moves : Nat → Char → Nat
  /-- The states behind a letter that is not special. -/
  letters : Nat → Nat
  /-- The states behind another character that is not special. -/
  others : Nat → Nat
  /-- The states that stand for trouble. -/
  sink : Nat
  /-- States that no character changes. -/
  final : Nat
  /-- All letters but the special ones are alike. -/
  moves_letter : ∀ {i : Nat} {c : Char}, c ∉ special → isLetter c = true → moves i c = letters i
  /-- All other characters but the special ones are alike. -/
  moves_other : ∀ {i : Nat} {c : Char}, c ∉ special → isLetter c = false → moves i c = others i
  /-- A final state is kept. -/
  moves_final : ∀ {i : Nat} {c : Char}, final.testBit i = true → moves i c = 1 <<< i

namespace Machine

/-- The union of the sets that belong to the items of a list. -/
def union {α : Type} (f : α → Nat) (xs : List α) : Nat := xs.foldr (fun x rest => f x ||| rest) 0

theorem testBit_union {α : Type} {f : α → Nat} {xs : List α} {x : α} (hx : x ∈ xs) {j : Nat}
    (h : (f x).testBit j = true) : (union f xs).testBit j = true := by
  induction xs with
  | nil => simp at hx
  | cons y xs ih =>
    rw [union, List.foldr_cons, Nat.testBit_or, Bool.or_eq_true]
    rcases List.mem_cons.mp hx with rfl | hx
    · exact .inl h
    · exact .inr (ih hx)

variable (m : Machine)

/-- The states behind one character that an expression takes, from one state on. -/
def through (r : Regex) (p : Char → Bool) (i : Nat) : Nat :=
  match r.listed? with
  | some cs => union (m.moves i) cs
  | none =>
    union (m.moves i) (m.special.filter p) ||| (if r.takesBlanks then 0 else m.letters i) |||
      if r.takesLetters then 0 else m.others i

theorem testBit_through {r : Regex} {p : Char → Bool} {c : Char} (hp : r.takes? = some p)
    (hc : p c = true) {i j : Nat} (h : (m.moves i c).testBit j = true) :
    (m.through r p i).testBit j = true := by
  unfold through
  cases hlisted : r.listed? with
  | some cs => exact testBit_union (Regex.mem_of_listed? hp hc hlisted) h
  | none =>
    dsimp only
    rw [Nat.testBit_or, Nat.testBit_or, Bool.or_eq_true, Bool.or_eq_true]
    -- The moves are worked out for special characters one by one and for letters and blanks at
    -- once.
    by_cases hspecial : c ∈ m.special
    · exact .inl (.inl (testBit_union (List.mem_filter.mpr ⟨hspecial, hc⟩) h))
    · cases hletter : isLetter c with
      | true =>
        rw [m.moves_letter hspecial hletter] at h
        have hno : ¬ r.takesBlanks = true := fun hr => by
          simp [Regex.isLetter_of_takesBlanks hp hc hr] at hletter
        rw [if_neg hno]
        exact .inl (.inr h)
      | false =>
        rw [m.moves_other hspecial hletter] at h
        have hno : ¬ r.takesLetters = true := fun hr => by
          simp [Regex.isLetter_of_takesLetters hp hc hr] at hletter
        rw [if_neg hno]
        exact .inr h

/-- The tracker of a machine. -/
def tracker : Tracker where
  step i c j := i < m.size ∧ j < m.size ∧ (m.moves i c).testBit j = true
  next r s :=
    -- Most of the time nothing is left but final states.
    if s &&& m.final = s then s
    else s &&& m.sink ||| (r.takes?.map fun p =>
      union (m.through r p) ((List.range m.size).filter s.testBit)).getD 0
  all := 2 ^ m.size - 1
  sink := m.sink
  testBit_next := by
    rintro r p c s i j hp hc hs ⟨hi, -, h⟩
    split_ifs with hfinal
    · rw [← hfinal, Nat.testBit_and, Bool.and_eq_true] at hs
      rw [m.moves_final hs.2, Nat.one_shiftLeft, Nat.testBit_two_pow, decide_eq_true_eq] at h
      exact h ▸ hs.1
    · rw [hp, Nat.testBit_or, Bool.or_eq_true]
      have hmem : i ∈ (List.range m.size).filter s.testBit :=
        List.mem_filter.mpr ⟨List.mem_range.mpr hi, hs⟩
      exact .inr (testBit_union hmem (m.testBit_through hp hc h))
  testBit_all := by
    rintro i j c ⟨-, hj, -⟩
    rw [Nat.testBit_two_pow_sub_one, decide_eq_true_eq]
    exact hj

variable {m}

theorem testBit_next_sink {r : Regex} {s i : Nat} (hi : m.sink.testBit i = true)
    (hs : s.testBit i = true) : (m.tracker.next r s).testBit i = true := by
  change (if _ then s else s &&& m.sink ||| _).testBit i = true
  split_ifs
  · exact hs
  · simp [hs, hi]

end Machine

end CApiUpgrade
