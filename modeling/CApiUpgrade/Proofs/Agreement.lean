import CApiUpgrade.Proofs.Tracking

/-!
# How matches start

Two texts *agree* if one of them starts with the other.  Whether a match can agree with what stands
at a position of a given text is a question about the expression alone.  `Regex.advance` answers it
for a set of positions at once: it takes the positions where a match starts to those where it ends,
the end of the text standing for all that goes on behind it.  The positions are the states of a
tracker.

The answer may hold too many positions, for instance behind a reference to a group, but none is
missing (`Regex.Basic.testBit_advance`).  So where it is empty, no match agrees with the text from
any of the given positions on.
-/

namespace CApiUpgrade

namespace Text

/-- One of two texts starts with the other. -/
def Agree (w y : List Char) : Prop := y <+: w ∨ w <+: y

/-- What a text in two parts starts with ends in the first part or goes on into the second. -/
theorem prefix_append_cases {y u v : List Char} (h : y <+: u ++ v) :
    y <+: u ∨ ∃ rest, y = u ++ rest ∧ rest <+: v := by
  obtain ⟨z, hz⟩ := h
  rcases List.append_eq_append_iff.mp hz with ⟨x, rfl, -⟩ | ⟨x, rfl, rfl⟩
  · exact .inl (List.prefix_append y x)
  · exact .inr ⟨x, rfl, List.prefix_append x z⟩

/-- A character of a text in two parts stands in the first part or in the second. -/
theorem append_eq_append_cons {x y u v : List Char} {c : Char} (h : x ++ y = u ++ c :: v) :
    (∃ z, x = u ++ c :: z ∧ v = z ++ y) ∨ ∃ z, u = x ++ z ∧ y = z ++ c :: v := by
  rcases List.append_eq_append_iff.mp h with ⟨z, rfl, hz⟩ | ⟨z, rfl, hz⟩
  · exact .inr ⟨z, rfl, hz⟩
  · cases z with
    | nil => exact .inr ⟨[], by simp, by simpa using hz.symm⟩
    | cons d z =>
      rw [List.cons_append, List.cons.injEq] at hz
      obtain ⟨rfl, rfl⟩ := hz
      exact .inl ⟨z, rfl, rfl⟩

/-- The first character of a kind splits a text in one way only. -/
theorem append_cons_inj {p : Char → Bool} {u u' v v' : List Char} {c c' : Char}
    (hu : ∀ d ∈ u, p d = false) (hu' : ∀ d ∈ u', p d = false) (hc : p c = true) (hc' : p c' = true)
    (h : u ++ c :: v = u' ++ c' :: v') : u = u' ∧ c = c' ∧ v = v' := by
  induction u generalizing u' with
  | nil =>
    cases u' with
    | nil => exact ⟨rfl, List.cons.inj h⟩
    | cons d u' =>
      obtain ⟨rfl, -⟩ := List.cons.inj h
      simp [hu' c List.mem_cons_self] at hc
  | cons d u ih =>
    cases u' with
    | nil =>
      obtain ⟨rfl, -⟩ := List.cons.inj h
      simp [hu d List.mem_cons_self] at hc'
    | cons d' u' =>
      obtain ⟨rfl, htail⟩ := List.cons.inj h
      obtain ⟨rfl, hrest⟩ := ih (fun e he => hu e (List.mem_cons_of_mem d he))
        (fun e he => hu' e (List.mem_cons_of_mem d he)) htail
      exact ⟨rfl, hrest⟩

theorem agree_of_startsWith {y w v : List Char} (h : y <+: w ++ v) : Agree w y := by
  rcases prefix_append_cases h with h | ⟨rest, rfl, -⟩
  · exact .inl h
  · exact .inr (List.prefix_append w rest)

/-- The position behind `w` if it starts at position `i` of a text, or else the end of the text. -/
def landing (text : List Char) (i : Nat) (w : List Char) : Nat := min (i + w.length) text.length

@[simp]
theorem landing_nil {text : List Char} {i : Nat} (h : i ≤ text.length) : landing text i [] = i :=
  min_eq_left h

theorem landing_append (text : List Char) (i : Nat) (u v : List Char) :
    landing text i (u ++ v) = landing text (landing text i u) v := by
  simp only [landing, List.length_append]
  omega

theorem landing_le (text : List Char) (i : Nat) (w : List Char) :
    landing text i w ≤ text.length := min_le_right _ _

/-- What is left of a text that agrees with the first of two parts agrees with the second. -/
theorem Agree.append {text u v : List Char} {i : Nat} (h : Agree (u ++ v) (text.drop i)) :
    Agree u (text.drop i) ∧ Agree v (text.drop (landing text i u)) := by
  have hdrop : text.drop (landing text i u) = (text.drop i).drop u.length := by
    rw [List.drop_drop, landing]
    rcases Nat.le_total (i + u.length) text.length with hle | hle
    · rw [min_eq_left hle]
    · rw [min_eq_right hle, List.drop_length, List.drop_eq_nil_of_le hle]
  rw [hdrop]
  generalize text.drop i = y at h
  rcases h with h | ⟨z, rfl⟩
  · refine ⟨agree_of_startsWith h, ?_⟩
    rcases prefix_append_cases h with h | ⟨rest, rfl, hrest⟩
    · rw [List.drop_eq_nil_of_le h.length_le]
      exact .inl List.nil_prefix
    · rw [List.drop_left]
      exact .inl hrest
  · rw [List.append_assoc, List.drop_left]
    exact ⟨.inr (List.prefix_append _ _), .inr (List.prefix_append _ _)⟩

end Text

open Text

/-! ### Sets of positions -/

namespace Tracker

/-- The positions in front of a character that satisfies `p`. -/
def positionsOf (p : Char → Bool) : List Char → Nat
  | [] => 0
  | c :: rest => 2 * positionsOf p rest + (p c).toNat

theorem testBit_positionsOf (p : Char → Bool) (text : List Char) (i : Nat) :
    (positionsOf p text).testBit i = text[i]?.any p := by
  induction text generalizing i with
  | nil => simp [positionsOf]
  | cons c rest ih =>
    cases i with
    | zero => cases hc : p c <;> simp [positionsOf, hc]
    | succ i =>
      rw [positionsOf, Nat.testBit_succ, List.getElem?_cons_succ, ← ih]
      congr 1
      cases p c with
      | true => rw [Bool.toNat_true]; omega
      | false => rw [Bool.toNat_false]; omega

variable (text : List Char)

/-- From one position of a text to the next.  From its end on, everything agrees. -/
def Moves (i : Nat) (c : Char) (j : Nat) : Prop :=
  (text[i]? = some c ∧ j = i + 1) ∨ (i = text.length ∧ j = i)

/-- Behind one character that satisfies `p`. -/
def advanceOne (p : Char → Bool) (s : Nat) : Nat :=
  if s = 0 then 0 else (s &&& positionsOf p text) <<< 1 ||| s &&& 1 <<< text.length

variable {text} {s i j : Nat}

theorem testBit_advanceOne {p : Char → Bool} {c : Char} (hp : p c = true)
    (hs : s.testBit i = true) (h : Moves text i c j) : (advanceOne text p s).testBit j = true := by
  rw [advanceOne, if_neg (Regex.ne_zero_of_testBit hs)]
  rcases h with ⟨hc, rfl⟩ | ⟨rfl, rfl⟩
  · rw [Nat.testBit_or, Nat.testBit_shiftLeft, Nat.testBit_and, Nat.add_sub_cancel,
      testBit_positionsOf, hc]
    simp [hs, hp]
  · simp [hs]

theorem Moves.le {c : Char} (h : Moves text i c j) : j ≤ text.length := by
  rcases h with ⟨hc, rfl⟩ | ⟨rfl, rfl⟩
  · obtain ⟨hlt, -⟩ := List.getElem?_eq_some_iff.mp hc
    exact hlt
  · exact le_rfl

variable (text)

/-- The tracker of the positions of a text. -/
def ofText : Tracker where
  step := Moves text
  next r s := (r.takes?.map fun p => advanceOne text p s).getD 0
  all := 2 ^ (text.length + 1) - 1
  sink := 0
  testBit_next := by
    intro r p c s i j hp hc hs h
    rw [hp]
    exact testBit_advanceOne hc hs h
  testBit_all := by
    intro i j c h
    rw [Nat.testBit_two_pow_sub_one, decide_eq_true_eq]
    exact Nat.lt_succ_of_le h.le

variable {text}

/-- A text that agrees with what stands at a position leads to the position where it ends. -/
theorem path_ofText {w : List Char} (hi : i ≤ text.length) (h : Agree w (text.drop i)) :
    (ofText text).Path i w (landing text i w) := by
  induction w generalizing i with
  | nil => exact (landing_nil hi).symm
  | cons c w ih =>
    obtain ⟨hfirst, hrest⟩ := Agree.append (u := [c]) h
    rw [← List.singleton_append, landing_append]
    refine ⟨landing text i [c], ?_, ih (landing_le text i [c]) hrest⟩
    rcases hi.lt_or_eq with hlt | rfl
    · refine .inl ⟨?_, min_eq_left hlt⟩
      rw [List.drop_eq_getElem_cons hlt] at hfirst
      rw [List.getElem?_eq_getElem hlt, Option.some.injEq]
      rcases hfirst with hfirst | hfirst
      · exact (List.cons_prefix_cons.mp hfirst).1
      · exact (List.cons_prefix_cons.mp hfirst).1.symm
    · exact .inr ⟨rfl, min_eq_right (Nat.le_succ _)⟩

end Tracker

namespace Regex

/-- The positions behind the matches that start at some positions of a text. -/
def advance (text : List Char) (r : Regex) (s : Nat) : Nat :=
  r.flow (.ofText text) (Tracker.ofText text).anything s

/-- **Nothing is missing.**  If what stands at a position agrees with a text that the expression
spells, then the position where that text ends is found. -/
theorem Basic.testBit_advance {r : Regex} (hr : r.Basic) {ρ : Reading} {text w : List Char}
    {s i : Nat} (hw : r.Spells ρ w) (hi : i ≤ text.length) (hs : s.testBit i = true)
    (h : Agree w (text.drop i)) : (r.advance text s).testBit (landing text i w) = true :=
  hr.testBit_flow (fun n _ _ _ _ _ => Tracker.testBit_anything n) hw hs (Tracker.path_ofText hi h)

end Regex

end CApiUpgrade
