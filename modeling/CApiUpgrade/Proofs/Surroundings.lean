import CApiUpgrade.Proofs.Tracking

/-!
# Matching in a longer text

`Cursor.within` is a position of a text, seen as a position of a longer text: one with more text on
the left and on the right.  An expression can be matched there in the same ways as before
(`Regex.Basic.ways_within`) if nothing that it asks about the text has another answer.

* On the left, this is about assertions that look behind.  The longer text adds a line end right in
  front of the old text, so it is enough that no assertion looks across a line end.  Those that are
  made where the match starts may do so; their answers are left to whoever knows the position
  (`Regex.Fronts`).
* On the right, the old text ends in a semicolon and an empty line.  A tracker with four states
  follows how much of this end is left.  Its sink is the very end: it is enough that no part of the
  expression is tried there.
-/

namespace CApiUpgrade

/-! ### Positions of a longer text -/

/-- The same position with more text around it: `left`, its nearest character first, and `right`. -/
def Cursor.within (left right : List Char) (c : Cursor) : Cursor :=
  ⟨c.before ++ left, c.after ++ right, c.offset + left.length, by simp [c.offset_eq]⟩

/-- The same span with more text around it. -/
def Span.within (left right : List Char) (s : Span) : Span :=
  ⟨s.start.within left right, s.stop.within left right⟩

/-- The same captures with more text around them. -/
def Captures.within (left right : List Char) (caps : Captures) : Captures :=
  caps.map fun e => (e.1, e.2.within left right)

/-- The same way with more text around it. -/
def Way.within (left right : List Char) (w : Way) : Way :=
  (w.1.within left right, w.2.within left right)

variable {left right : List Char}

namespace Cursor

variable {c d : Cursor} {w : List Char}

theorem Leads.within (h : c.Leads w d) (left right : List Char) :
    (c.within left right).Leads w (d.within left right) := by
  constructor
  · simp only [Cursor.within, h.after, List.append_assoc]
  · simp only [Cursor.within, h.before, List.append_assoc]

theorem Leads.length_le (h : c.Leads w d) : d.after.length ≤ c.after.length := by
  rw [h.after, List.length_append]
  omega

theorem Leads.text_eq (h : c.Leads w d) : d.text = c.text := by
  rw [text, text, h.after, h.before, List.reverse_append, List.reverse_reverse, List.append_assoc]

theorem next?_within (h : right = [] ∨ c.after ≠ []) :
    (c.within left right).next? = c.next?.map fun m => (m.1, m.2.within left right) := by
  obtain ⟨before, after, offset, hoffset⟩ := c
  cases after with
  | nil =>
    obtain rfl := h.resolve_right fun h => h rfl
    rfl
  | cons x rest =>
    simp only [Cursor.within, next?, List.cons_append, Option.map_some, Option.some.injEq,
      Prod.mk.injEq, true_and]
    exact Cursor.ext rfl rfl

/-- A text is found in the longer text where it was found before, unless it goes on behind the end
of the old text. -/
theorem skip?_within (h : right = [] ∨ ∀ y, w = c.after ++ y → y = []) :
    (c.within left right).skip? w = (c.skip? w).map (Cursor.within left right) := by
  induction w generalizing c with
  | nil => rfl
  | cons x w ih =>
    have hmove : right = [] ∨ c.after ≠ [] :=
      h.imp_right fun h hnil => by simpa using h (x :: w) (by rw [hnil, List.nil_append])
    rw [skip?, skip?, next?_within hmove]
    cases hn : c.next? with
    | none => rfl
    | some move =>
      obtain ⟨y, d⟩ := move
      simp only [Option.map_some]
      split_ifs with hxy
      · refine ih (h.imp_right fun h z hz => h z ?_)
        rw [(leads_of_next? hn).after, hz, beq_iff_eq.mp hxy]
        rfl
      · rfl

end Cursor

theorem Captures.lookup_within (caps : Captures) (name : String) :
    (caps.within left right).lookup name = (caps.lookup name).map (Span.within left right) := by
  induction caps with
  | nil => rfl
  | cons e rest ih =>
    rw [Captures.within, List.map_cons, List.lookup_cons, List.lookup_cons]
    cases name == e.1 with
    | true => rfl
    | false => exact ih

theorem Span.text_within {s : Span} {w : List Char} (h : s.start.Leads w s.stop) :
    (s.within left right).text = s.text := by
  rw [Span.text, Span.text, h.upTo]
  exact (h.within left right).upTo

/-! ### Repetitions -/

namespace Way

variable {body body' more more' : Cursor → Captures → List Way} {P Q : Cursor → Captures → Prop}

/-- The body of a repetition has the same ways in the longer text, from everywhere where `P` holds,
and `Q` holds where they end. -/
def Mirrors (left right : List Char) (P Q : Cursor → Captures → Prop)
    (body body' : Cursor → Captures → List Way) : Prop :=
  ∀ cur caps, P cur caps →
    body' (cur.within left right) (caps.within left right) =
        (body cur caps).map (Way.within left right) ∧
      ∀ w ∈ body cur caps, Q w.1 w.2 ∧ ∃ u, cur.Leads u w.1

theorem exactly_within (hbody : Mirrors left right P P body body')
    (hmore : ∀ cur caps, P cur caps → more' (cur.within left right) (caps.within left right) =
      (more cur caps).map (Way.within left right))
    {n : Nat} {cur : Cursor} {caps : Captures} (h : P cur caps) :
    exactly body' more' n (cur.within left right) (caps.within left right) =
      (exactly body more n cur caps).map (Way.within left right) := by
  induction n generalizing cur caps with
  | zero => exact hmore cur caps h
  | succ n ih =>
    obtain ⟨heq, hstop⟩ := hbody cur caps h
    rw [exactly, exactly, heq, List.flatMap_map, List.map_flatMap]
    exact List.flatMap_congr fun w hw => ih (hstop w hw).1

/-- Without a bound, the number of rounds does not matter as long as there are more than
characters left. -/
theorem rounds_within (hbody : Mirrors left right P P body body') {greedy moving : Bool}
    {n n' : Nat} {cur : Cursor} {caps : Captures}
    (hn : n = n' ∨ moving = true ∧ cur.after.length < n ∧ cur.after.length < n')
    (h : P cur caps) :
    rounds body' greedy moving n' (cur.within left right) (caps.within left right) =
      (rounds body greedy moving n cur caps).map (Way.within left right) := by
  induction n generalizing n' cur caps with
  | zero =>
    rcases hn with rfl | ⟨-, hn, -⟩
    · rfl
    · omega
  | succ n ih =>
    cases n' with
    | zero =>
      rcases hn with hn | ⟨-, -, hn⟩
      · simp at hn
      · omega
    | succ n' =>
      obtain ⟨heq, hstop⟩ := hbody cur caps h
      have hanother : ((body' (cur.within left right) (caps.within left right)).flatMap fun w =>
          if moving && w.1.offset == (cur.within left right).offset then [w]
          else rounds body' greedy moving n' w.1 w.2) =
          ((body cur caps).flatMap fun w =>
            if moving && w.1.offset == cur.offset then [w]
            else rounds body greedy moving n w.1 w.2).map (Way.within left right) := by
        rw [heq, List.flatMap_map, List.map_flatMap]
        refine List.flatMap_congr fun w hw => ?_
        obtain ⟨hP, u, hu⟩ := hstop w hw
        have hoffset : ((Way.within left right w).1.offset == (cur.within left right).offset) =
            (w.1.offset == cur.offset) := by
          simp [Way.within, Cursor.within]
        rw [hoffset]
        split_ifs with hstay
        · rfl
        · refine ih ?_ hP
          rcases hn with hn | ⟨hmoving, hn, hn'⟩
          · exact .inl (Nat.succ.inj hn)
          · -- The round has used up a character.
            have hmove : w.1.offset ≠ cur.offset := by
              simpa [hmoving] using hstay
            have hlen := congrArg List.length hu.after
            rw [List.length_append] at hlen
            have hpos := hu.offset
            exact .inr ⟨hmoving, by omega, by omega⟩
      rw [rounds, rounds, hanother]
      cases greedy <;> simp [Way.within]

end Way

/-! ### Looking behind -/

namespace Text

/-- Whether each of some tests holds of the character in its place. -/
def fits : List (Char → Bool) → List Char → Bool
  | [], _ => true
  | _ :: _, [] => false
  | p :: ps, c :: cs => p c && fits ps cs

theorem fits_append {ps qs : List (Char → Bool)} {x : List Char} (h : ps.length = x.length)
    (y : List Char) : fits (ps ++ qs) (x ++ y) = (fits ps x && fits qs y) := by
  induction ps generalizing x with
  | nil =>
    obtain rfl := List.length_eq_zero_iff.mp h.symm
    rfl
  | cons p ps ih =>
    cases x with
    | nil => simp at h
    | cons c x =>
      rw [List.length_cons, List.length_cons, Nat.add_right_cancel_iff] at h
      rw [List.cons_append, List.cons_append, fits, ih h, fits, Bool.and_assoc]

theorem fits_eq_false_of_length_lt {ps : List (Char → Bool)} {x : List Char}
    (h : x.length < ps.length) : fits ps x = false := by
  induction ps generalizing x with
  | nil => simp at h
  | cons p ps ih =>
    cases x with
    | nil => rfl
    | cons c x => rw [fits, ih (by simpa using h), Bool.and_false]

theorem fits_reverse {ps : List (Char → Bool)} {x : List Char} (h : ps.length = x.length) :
    fits ps.reverse x.reverse = fits ps x := by
  induction ps generalizing x with
  | nil =>
    obtain rfl := List.length_eq_zero_iff.mp h.symm
    rfl
  | cons p ps ih =>
    cases x with
    | nil => simp at h
    | cons c x =>
      rw [List.length_cons, List.length_cons, Nat.add_right_cancel_iff] at h
      rw [List.reverse_cons, List.reverse_cons, fits_append (by simpa using h), ih h, fits, fits,
        fits, Bool.and_true, Bool.and_comm]

/-- What refuses line ends cannot tell whether more text follows behind one. -/
theorem fits_append_of_refuses {ps : List (Char → Bool)} (hps : ∀ p ∈ ps, p '\n' = false)
    (hleft : left = [] ∨ left.head? = some '\n') (x : List Char) :
    fits ps (x ++ left) = fits ps x := by
  induction ps generalizing x with
  | nil => rfl
  | cons p ps ih =>
    cases x with
    | cons c x =>
      rw [List.cons_append, fits, fits, ih fun q hq => hps q (List.mem_cons_of_mem _ hq)]
    | nil =>
      rcases hleft with rfl | hleft
      · rfl
      · obtain ⟨rest, rfl⟩ : ∃ rest, left = '\n' :: rest := by
          cases left with
          | nil => simp at hleft
          | cons c rest => exact ⟨rest, by simpa using hleft⟩
        have hrefuses := hps p List.mem_cons_self
        simp [fits, hrefuses]

end Text

open Text

namespace Cursor

/-- The position behind characters that satisfy some tests, one after another. -/
def pass? : Cursor → List (Char → Bool) → Option Cursor
  | c, [] => some c
  | c, p :: ps => c.next?.bind fun m => if p m.1 then m.2.pass? ps else none

theorem pass?_append (c : Cursor) (ps qs : List (Char → Bool)) :
    c.pass? (ps ++ qs) = (c.pass? ps).bind (·.pass? qs) := by
  induction ps generalizing c with
  | nil => rfl
  | cons p ps ih =>
    rw [List.cons_append, pass?, pass?]
    cases c.next? with
    | none => rfl
    | some m =>
      simp only [Option.bind_some]
      split_ifs
      · exact ih m.2
      · rfl

theorem isSome_pass? (c : Cursor) (ps : List (Char → Bool)) :
    (c.pass? ps).isSome = fits ps c.after := by
  induction ps generalizing c with
  | nil => rfl
  | cons p ps ih =>
    rw [pass?]
    cases hn : c.next? with
    | none => rw [next?_eq_none hn]; rfl
    | some m =>
      obtain ⟨x, d⟩ := m
      have hafter : c.after = x :: d.after := (leads_of_next? hn).after
      rw [hafter, Option.bind_some, fits]
      dsimp only
      split_ifs with hp
      · rw [ih, hp, Bool.true_and]
      · rw [Bool.eq_false_iff.mpr hp]
        rfl

theorem back?_eq_none {c : Cursor} {n : Nat} (h : c.before.length < n) : c.back? n = none := by
  induction n generalizing c with
  | zero => simp at h
  | succ n ih =>
    rw [back?]
    cases hp : c.previous? with
    | none => rfl
    | some m =>
      unfold previous? at hp
      split at hp
      · simp at hp
      · rename_i x rest heq
        simp only [Option.some.injEq] at hp
        subst hp
        rw [heq, List.length_cons] at h
        exact ih (Nat.lt_of_succ_lt_succ h)

theorem after_of_back? {c : Cursor} {n : Nat} (h : n ≤ c.before.length) :
    ∃ start, c.back? n = some start ∧ start.after = (c.before.take n).reverse ++ c.after := by
  induction n generalizing c with
  | zero => exact ⟨c, rfl, rfl⟩
  | succ n ih =>
    obtain ⟨before, after, offset, hoffset⟩ := c
    cases before with
    | nil => simp at h
    | cons x rest =>
      obtain ⟨start, hback, hafter⟩ :=
        @ih ⟨rest, x :: after, offset - 1, by simp [hoffset]⟩ (Nat.le_of_succ_le_succ h)
      refine ⟨start, hback, ?_⟩
      rw [hafter, List.take_succ_cons, List.reverse_cons, List.append_assoc,
        List.singleton_append]

end Cursor

namespace Regex

/-- The tests of an expression that makes one for each of a fixed number of characters. -/
def tests? : Regex → Option (List (Char → Bool))
  | empty => some []
  | cat a b => do return (← a.tests?) ++ (← b.tests?)
  | repeated body n (some m) _ =>
    if n = m then body.tests?.map fun ps => (List.replicate n ps).flatten else none
  | r => r.takes?.map fun p => [p]

theorem ways_of_takes?_map {r : Regex} {ps : List (Char → Bool)}
    (h : (r.takes?.map fun p => [p]) = some ps) (terms : Terms) (cur : Cursor) (caps : Captures) :
    r.ways terms cur caps = (cur.pass? ps).toList.map fun d => (d, caps) := by
  obtain ⟨p, hp, rfl⟩ := Option.map_eq_some_iff.mp h
  rw [ways_of_takes? hp, Way.step, Cursor.pass?]
  cases cur.next? with
  | none => rfl
  | some m =>
    simp only [Option.bind_some, Cursor.pass?]
    split_ifs <;> rfl

theorem ways_of_tests? {r : Regex} {ps : List (Char → Bool)} (h : r.tests? = some ps)
    (terms : Terms) (cur : Cursor) (caps : Captures) :
    r.ways terms cur caps = (cur.pass? ps).toList.map fun d => (d, caps) := by
  induction r generalizing ps cur with
  | empty =>
    obtain rfl := Option.some.inj h
    rfl
  | cat a b iha ihb =>
    simp only [tests?, bind, Option.bind_eq_some_iff, pure, Option.some.injEq] at h
    obtain ⟨ps, hps, qs, hqs, rfl⟩ := h
    rw [ways, iha hps cur, Cursor.pass?_append]
    cases cur.pass? ps with
    | none => rfl
    | some d => simp [ihb hqs d]
  | repeated body n most greedy ih =>
    cases most with
    | none => exact ways_of_takes?_map h terms cur caps
    | some m =>
      rw [tests?] at h
      split_ifs at h with hnm
      obtain ⟨ps, hps, rfl⟩ := Option.map_eq_some_iff.mp h
      subst hnm
      rw [ways]
      simp only [Nat.sub_self]
      clear h
      induction n generalizing cur with
      | zero => rfl
      | succ n ihn =>
        rw [Way.exactly, ih hps cur, List.replicate_succ, List.flatten_cons, Cursor.pass?_append]
        cases cur.pass? ps with
        | none => rfl
        | some d => simpa using ihn d
  | _ => exact ways_of_takes?_map h terms cur caps

/-- Looking behind with a fixed number of tests is testing the characters on the left. -/
theorem ways_notAfter {r : Regex} {ps : List (Char → Bool)} (h : r.tests? = some ps)
    (terms : Terms) (cur : Cursor) (caps : Captures) :
    (look (.behind ps.length) true r).ways terms cur caps =
      if fits ps.reverse cur.before then [] else [(cur, caps)] := by
  by_cases hlen : ps.length ≤ cur.before.length
  · obtain ⟨start, hback, hafter⟩ := Cursor.after_of_back? hlen
    have htake : ps.length = (cur.before.take ps.length).reverse.length := by
      rw [List.length_reverse, List.length_take, min_eq_left hlen]
    have hfits : fits ps start.after = fits ps.reverse cur.before := by
      calc fits ps start.after
          = fits (ps ++ []) ((cur.before.take ps.length).reverse ++ cur.after) := by
            rw [hafter, List.append_nil]
        _ = fits ps (cur.before.take ps.length).reverse := by
            rw [fits_append htake, fits, Bool.and_true]
        _ = fits ps.reverse (cur.before.take ps.length) := by
            rw [← fits_reverse htake, List.reverse_reverse]
        _ = fits (ps.reverse ++ []) (cur.before.take ps.length ++ cur.before.drop ps.length) := by
            rw [fits_append (by simpa using htake), fits, Bool.and_true]
        _ = fits ps.reverse cur.before := by
            rw [List.append_nil, List.take_append_drop]
    rw [← hfits, ← Cursor.isSome_pass?]
    simp only [ways, ↓reduceIte, hback, ways_of_tests? h]
    cases start.pass? ps <;> rfl
  · rw [Nat.not_le] at hlen
    rw [fits_eq_false_of_length_lt (by simpa using hlen)]
    simp [ways, Cursor.back?_eq_none hlen]

/-- The assertions that look behind where a match starts. -/
def frontLooks : Regex → List Regex
  | look (.behind _) _ body => [body]
  | cat a b => a.frontLooks ++ if a.isStill then b.frontLooks else []
  | alt a b => a.frontLooks ++ b.frontLooks
  | group _ body => body.frontLooks
  | _ => []

/-- Whether the answer to every question of an expression about its neighbourhood is known to be the
same in a longer text: it asks about starts of lines and edges of words only, and looks behind with
a fixed number of tests only.  The tests refuse line ends.  With `front` set, this is not asked of
those that are made where the match starts. -/
def isSteady (front : Bool) : Regex → Bool
  | anchor a => a == .lineStart || a == .wordEdge
  | look .ahead _ body => body.groups.isEmpty && body.isSteady false
  | look (.behind width) _ body =>
    body.tests?.any fun ps => ps.length == width && (front || ps.all fun p => !p '\n')
  | cat a b => a.isSteady front && b.isSteady (front && a.isStill)
  | alt a b => a.isSteady front && b.isSteady front
  | group _ body => body.isSteady front
  | repeated body _ _ _ => body.isSteady false
  | _ => true

/-- What is asked about the characters on the left of a position where a match may start has the
same answer in the longer text. -/
def Fronts (left : List Char) (r : Regex) (cur : Cursor) : Prop :=
  ∀ body ∈ r.frontLooks, ∀ ps, body.tests? = some ps →
    fits ps.reverse (cur.before ++ left) = fits ps.reverse cur.before

end Regex

/-! ### The end of a text -/

namespace Tracker

/-- How much of the end of a text is left: all of it with something in front (`0`), the two line
ends (`1`), the last one (`2`), or perhaps nothing (`3`). -/
def Zone : Nat → List Char → Prop
  | 0, x => ∃ v, x = v ++ [';', '\n', '\n']
  | 1, x => x = ['\n', '\n']
  | 2, x => x = ['\n']
  | 3, _ => True
  | _, _ => False

/-- The zones behind a character.  A semicolon need not be the last one. -/
def crossing : Nat → Char → Nat
  | 0, c => if c = ';' then 3 else 1
  | 1, c => if c = '\n' then 4 else 0
  | 2, c => if c = '\n' then 8 else 0
  | 3, _ => 8
  | _, _ => 0

/-- The machine that follows the zones. -/
def zoneMachine : Machine where
  size := 4
  special := [';', '\n']
  moves := crossing
  letters i := crossing i 'x'
  others i := crossing i ' '
  sink := 8
  final := 8
  moves_letter := by
    intro i c hc _
    rw [List.mem_pair, not_or] at hc
    match i with
    | 0 | 1 | 2 => simp [crossing, hc]
    | 3 | _ + 4 => rfl
  moves_other := by
    intro i c hc _
    rw [List.mem_pair, not_or] at hc
    match i with
    | 0 | 1 | 2 => simp [crossing, hc]
    | 3 | _ + 4 => rfl
  moves_final := by
    intro i c hi
    have hi : 3 = i := by simpa using (Nat.testBit_two_pow (n := 3)).symm.trans hi
    rw [← hi]
    rfl

/-- The tracker of the zones. -/
def zones : Tracker := zoneMachine.tracker

/-- Text that is used up leads from zone to zone. -/
theorem exists_path_zones {i : Nat} {w x : List Char} (h : Zone i (w ++ x)) :
    ∃ j, zones.Path i w j ∧ Zone j x := by
  induction w generalizing i with
  | nil => exact ⟨i, rfl, h⟩
  | cons c w ih =>
    have hstep : ∃ k, zones.step i c k ∧ Zone k (w ++ x) := by
      match i with
      | 0 =>
        obtain ⟨v, hv⟩ := h
        cases v with
        | nil =>
          rw [List.cons_append, List.nil_append, List.cons.injEq] at hv
          exact ⟨1, ⟨by decide, by decide, by rw [hv.1]; decide⟩, hv.2⟩
        | cons d v =>
          rw [List.cons_append, List.cons_append, List.cons.injEq] at hv
          refine ⟨0, ⟨by decide, by decide, ?_⟩, v, hv.2⟩
          change (crossing 0 c).testBit 0 = true
          rw [crossing]
          split_ifs <;> decide
      | 1 =>
        have h : c :: (w ++ x) = ['\n', '\n'] := h
        rw [List.cons.injEq] at h
        exact ⟨2, ⟨by decide, by decide, by rw [h.1]; decide⟩, h.2⟩
      | 2 =>
        have h : c :: (w ++ x) = ['\n'] := h
        rw [List.cons.injEq] at h
        exact ⟨3, ⟨by decide, by decide, by rw [h.1]; decide⟩, trivial⟩
      | 3 => exact ⟨3, ⟨by decide, by decide, (by decide : (8 : Nat).testBit 3 = true)⟩, trivial⟩
      | _ + 4 => exact h.elim
    obtain ⟨k, hk, hz⟩ := hstep
    obtain ⟨j, hj, hx⟩ := ih hz
    exact ⟨j, ⟨k, hk, hj⟩, hx⟩

theorem eq_three_of_zone_nil {i : Nat} (h : Zone i []) : i = 3 := by
  match i with
  | 0 => obtain ⟨v, hv⟩ := h; simp at hv
  | 1 | 2 => simp [Zone] at h
  | 3 => rfl
  | _ + 4 => exact h.elim

theorem path_zones_beyond (w : List Char) : zones.Path 3 w 3 := by
  induction w with
  | nil => rfl
  | cons c w ih => exact ⟨3, ⟨by decide, by decide, (by decide : (8 : Nat).testBit 3 = true)⟩, ih⟩

end Tracker

open Tracker

/-- What is known of a position of the old text while an expression is matched in both texts. -/
structure Facing (right : List Char) (known : String → List Char → Prop) (s bound bound' : Nat)
    (cur : Cursor) (caps : Captures) : Prop where
  /-- If there is more text on the right, then the end of the old text is in one of the zones. -/
  zone : right = [] ∨ ∃ i, s.testBit i = true ∧ Zone i cur.after
  /-- The captures are texts of which `known` holds. -/
  hold : caps.Hold known
  /-- There is no more text left than the one bound allows. -/
  length_le : cur.after.length ≤ bound
  /-- Nor than the other bound allows. -/
  length_le' : cur.after.length ≤ bound'

namespace Facing

variable {known : String → List Char → Prop} {s s' bound bound' : Nat} {cur : Cursor}
  {caps : Captures}

theorem mono (h : Facing right known s bound bound' cur caps)
    (hs : right = [] ∨ ∀ i, s.testBit i = true → s'.testBit i = true) :
    Facing right known s' bound bound' cur caps := by
  refine ⟨?_, h.hold, h.length_le, h.length_le'⟩
  rcases hs with hs | hs
  · exact .inl hs
  · exact h.zone.imp_right fun ⟨i, hi, hz⟩ => ⟨i, hs i hi, hz⟩

/-- Outside of the sink, there is text left. -/
theorem after_ne_nil (h : Facing right known s bound bound' cur caps)
    (hs : right = [] ∨ s.testBit 3 = false) : right = [] ∨ cur.after ≠ [] := by
  rcases hs with hs | hs
  · exact .inl hs
  · refine h.zone.imp_right ?_
    rintro ⟨i, hi, hz⟩ hnil
    rw [hnil] at hz
    rw [eq_three_of_zone_nil hz, hs] at hi
    exact Bool.noConfusion hi

variable {refer : String → Nat → Nat} {r : Regex}

theorem of_mem_ways (h : Facing right known s bound bound' cur caps) (hr : r.Basic)
    (hknown : ∀ e ∈ r.bodies, ∀ w, e.2.Spells (.loose known) w → known e.1 w)
    (hrefer : ∀ n w, known n w → ∀ s i j, s.testBit i = true → zones.Path i w j →
      (refer n s).testBit j = true)
    {terms : Terms} {w : Way} (hw : w ∈ r.ways terms cur caps) :
    Facing right known (r.flow zones refer s) bound bound' w.1 w.2 ∧ ∃ u, cur.Leads u w.1 := by
  obtain ⟨stop, caps'⟩ := w
  obtain ⟨u, hu, hs, hc⟩ := hr.spells_of_mem_ways hknown h.hold hw
  have hlen := hu.length_le
  refine ⟨⟨h.zone.imp_right ?_, hc, hlen.trans h.length_le, hlen.trans h.length_le'⟩, u, hu⟩
  rintro ⟨i, hi, hz⟩
  rw [hu.after] at hz
  obtain ⟨j, hj, hx⟩ := exists_path_zones hz
  exact ⟨j, hr.testBit_flow hrefer hs hi hj, hx⟩

end Facing

/-! ### The same ways -/

/-- The starts of lines and the edges of words are where they were. -/
theorem Anchor.holds_within {a : Anchor} (ha : a = .lineStart ∨ a = .wordEdge)
    (hleft : left = [] ∨ left.head? = some '\n') {cur : Cursor}
    (hmove : right = [] ∨ cur.after ≠ []) : a.holds (cur.within left right) = a.holds cur := by
  obtain ⟨before, after, offset, hoffset⟩ := cur
  have hafter : (after ++ right).head? = after.head? := by
    rcases hmove with rfl | hmove
    · rw [List.append_nil]
    · exact List.head?_append_of_ne_nil after hmove
  cases before with
  | cons c before =>
    rcases ha with rfl | rfl <;> simp [Anchor.holds, Cursor.within, hafter]
  | nil =>
    have hword : left.head?.any isWord = false := by
      rcases hleft with rfl | hleft
      · rfl
      · rw [hleft]
        decide
    have hline : left.head?.all (· == '\n') = true := by
      rcases hleft with rfl | hleft
      · rfl
      · rw [hleft]
        rfl
    rcases ha with rfl | rfl
    · simp [Anchor.holds, Cursor.within, hline]
    · simp [Anchor.holds, Cursor.within, hafter, hword]

namespace Regex

variable {known : String → List Char → Prop} {refer : String → Nat → Nat}

/-- The states between the rounds of a repetition that is never tried in the sink. -/
theorem exists_between {body : Regex} {least : Nat} {most : Option Nat} {greedy : Bool} {s : Nat}
    {P : Nat → Prop}
    (hright : right = [] ∨
      ((repeated body least most greedy).flow zones refer s).testBit 3 = false)
    (hs : right = [] ∨ ∃ i, s.testBit i = true ∧ P i) :
    ∃ between : Nat, (right = [] ∨ between.testBit 3 = false) ∧
      (right = [] ∨ ∀ i, (if least = 0 then s else body.flow zones refer s).testBit i = true →
        between.testBit i = true) ∧
      (right = [] ∨ ∀ i, (body.flow zones refer between).testBit i = true →
        between.testBit i = true) := by
  by_cases hempty : right = []
  · exact ⟨0, .inl hempty, .inl hempty, .inl hempty⟩
  obtain ⟨i, hi, -⟩ := hs.resolve_left hempty
  have hright := hright.resolve_left hempty
  rw [flow, if_neg (ne_zero_of_testBit hi), ← apply_ite (zones.saturate _ 64)] at hright
  generalize (if least = 0 then s else body.flow zones refer s) = start at hright
  refine ⟨_, .inr hright, .inr fun i => testBit_saturate_of_testBit, .inr fun i hi => ?_⟩
  rw [← saturate_closed, Nat.testBit_or, hi, Bool.or_true]
  -- Everything would include the sink.
  intro hall
  have hsink := congrArg (·.testBit 3) hall
  simp only [Nat.testBit_and, hright, Bool.and_false] at hsink
  exact absurd hsink (by decide)

/-- A repetition has the same ways in the longer text if its body has. -/
theorem ways_repeated_within {body : Regex} {terms terms' : Terms} {least : Nat}
    {most : Option Nat} {greedy : Bool} {P Q : Cursor → Captures → Prop}
    (hfirst : least ≠ 0 → Way.Mirrors left right P Q (body.ways terms) (body.ways terms'))
    (hrest : Way.Mirrors left right Q Q (body.ways terms) (body.ways terms'))
    (hzero : least = 0 → ∀ cur caps, P cur caps → Q cur caps)
    (hbound : ∀ cur caps, Q cur caps →
      cur.after.length ≤ terms.bound ∧ cur.after.length ≤ terms'.bound)
    {cur : Cursor} {caps : Captures} (h : P cur caps) :
    (repeated body least most greedy).ways terms' (cur.within left right)
        (caps.within left right) =
      ((repeated body least most greedy).ways terms cur caps).map (Way.within left right) := by
  have hrepeat : ∀ {more more' : Cursor → Captures → List Way}, (∀ cur caps, Q cur caps →
        more' (cur.within left right) (caps.within left right) =
          (more cur caps).map (Way.within left right)) →
      Way.exactly (body.ways terms') more' least (cur.within left right) (caps.within left right) =
        (Way.exactly (body.ways terms) more least cur caps).map (Way.within left right) := by
    intro more more' hmore
    cases least with
    | zero => exact hmore cur caps (hzero rfl cur caps h)
    | succ n =>
      obtain ⟨heq, hstop⟩ := hfirst (Nat.succ_ne_zero n) cur caps h
      rw [Way.exactly, Way.exactly, heq, List.flatMap_map, List.map_flatMap]
      exact List.flatMap_congr fun w hw => Way.exactly_within hrest hmore (hstop w hw).1
  cases most with
  | some most =>
    simp only [ways]
    exact hrepeat fun cur caps h => Way.rounds_within hrest (.inl rfl) h
  | none =>
    simp only [ways]
    refine hrepeat fun cur caps h => ?_
    obtain ⟨hb, hb'⟩ := hbound cur caps h
    exact Way.rounds_within hrest (.inr ⟨rfl, by omega, by omega⟩) h

/-- **Matching in a longer text.**  An expression whose questions have the same answers can be
matched in the same ways. -/
theorem Basic.ways_within {r : Regex} (hr : r.Basic) {front : Bool}
    (hsteady : r.isSteady front = true) (hleft : left = [] ∨ left.head? = some '\n')
    (hknown : ∀ e ∈ r.bodies, ∀ w, e.2.Spells (.loose known) w → known e.1 w)
    (hrefer : ∀ n w, known n w → ∀ s i j, s.testBit i = true → zones.Path i w j →
      (refer n s).testBit j = true)
    (hsink : ∀ n s, s.testBit 3 = true → (refer n s).testBit 3 = true)
    {terms terms' : Terms} {s : Nat}
    (hright : right = [] ∨ (r.flow zones refer s).testBit 3 = false)
    {cur : Cursor} {caps : Captures} (hfront : front = true → r.Fronts left cur)
    (h : Facing right known s terms.bound terms'.bound cur caps) :
    r.ways terms' (cur.within left right) (caps.within left right) =
      (r.ways terms cur caps).map (Way.within left right) := by
  -- Nothing is tried in the sink.
  have hsafe : ∀ {r : Regex} {s : Nat}, r.Basic →
      right = [] ∨ (r.flow zones refer s).testBit 3 = false →
      right = [] ∨ s.testBit 3 = false := by
    intro r s hr h
    refine h.imp_right fun h => ?_
    rw [← Bool.not_eq_true]
    intro hs
    have := hr.testBit_flow_sink (t := zones) (i := 3)
      (fun r s => Machine.testBit_next_sink (m := zoneMachine) (by decide)) hsink hs
    simp [h] at this
  induction hr generalizing front s cur caps with
  | empty => rfl
  | @one r p hp =>
    rw [ways_of_takes? hp, ways_of_takes? hp, Way.step, Way.step,
      Cursor.next?_within (h.after_ne_nil (hsafe (.one hp) hright))]
    cases cur.next? with
    | none => rfl
    | some move =>
      obtain ⟨c, d⟩ := move
      simp only [Option.map_some]
      split_ifs <;> rfl
  | anchor a =>
    simp only [isSteady, Bool.or_eq_true, beq_iff_eq] at hsteady
    simp only [ways, Way.provided,
      Anchor.holds_within hsteady hleft (h.after_ne_nil (hsafe (.anchor a) hright))]
    split_ifs <;> rfl
  | @cat a b ha hb iha ihb =>
    rw [isSteady, Bool.and_eq_true] at hsteady
    have hka : ∀ e ∈ a.bodies, ∀ w, e.2.Spells (.loose known) w → known e.1 w :=
      fun e he => hknown e (by simp [bodies, he])
    have hstops : ∀ w ∈ a.ways terms cur caps,
        Facing right known (a.flow zones refer s) terms.bound terms'.bound w.1 w.2 :=
      fun w hw => (h.of_mem_ways ha hka hrefer hw).1
    -- If the first part leads nowhere, there is nothing to show about the second.
    have hrest : right = [] ∨ a.flow zones refer s = 0 ∨
        (b.flow zones refer (a.flow zones refer s)).testBit 3 = false := by
      refine hright.imp_right fun h => ?_
      simp only [flow] at h
      split_ifs at h with h0
      · exact .inl h0
      · exact .inr h
    have hfirst : right = [] ∨ (a.flow zones refer s).testBit 3 = false := by
      rcases hrest with hrest | hrest | hrest
      · exact .inl hrest
      · exact .inr (by simp [hrest])
      · exact hsafe hb (.inr hrest)
    rw [ways, ways, iha hsteady.1 hka hfirst
      (fun hf body hmem => hfront hf body (List.mem_append_left _ hmem)) h,
      List.flatMap_map, List.map_flatMap]
    refine List.flatMap_congr fun w hw => ?_
    -- The second part starts where the match starts only if the first part uses up nothing.
    have hfront' : (front && a.isStill) = true → b.Fronts left w.1 := by
      intro hf body hmem
      rw [Bool.and_eq_true] at hf
      rw [stop_eq_of_isStill hf.2 hw]
      exact hfront hf.1 body (List.mem_append_right _ (by rwa [if_pos hf.2]))
    refine ihb hsteady.2 (fun e he => hknown e (by simp [bodies, he])) ?_ hfront' (hstops w hw)
    rcases hrest with hrest | hrest | hrest
    · exact .inl hrest
    · refine (hstops w hw).zone.imp_right ?_
      rintro ⟨i, hi, -⟩
      simp [hrest] at hi
    · exact .inr hrest
  | @alt a b _ _ iha ihb =>
    rw [isSteady, Bool.and_eq_true] at hsteady
    simp only [flow, Nat.testBit_or, Bool.or_eq_false_iff] at hright
    rw [ways, ways, List.map_append,
      iha hsteady.1 (fun e he => hknown e (by simp [bodies, he])) (hright.imp_right And.left)
        (fun hf body hmem => hfront hf body (List.mem_append_left _ hmem)) h,
      ihb hsteady.2 (fun e he => hknown e (by simp [bodies, he])) (hright.imp_right And.right)
        (fun hf body hmem => hfront hf body (List.mem_append_right _ hmem)) h]
  | @group body name _ ih =>
    rw [ways, ways, ih hsteady (fun e he => hknown e (by simp [bodies, he])) hright hfront h,
      List.map_map, List.map_map]
    rfl
  | @repeated body least most greedy hbody ih =>
    have hmirrors : ∀ {s s' : Nat}, right = [] ∨ s'.testBit 3 = false →
        (right = [] ∨ ∀ i, (body.flow zones refer s).testBit i = true → s'.testBit i = true) →
        Way.Mirrors left right (Facing right known s terms.bound terms'.bound)
          (Facing right known s' terms.bound terms'.bound) (body.ways terms)
          (body.ways terms') := by
      intro s s' hs' hmono cur caps h
      have hs : right = [] ∨ (body.flow zones refer s).testBit 3 = false := by
        rcases hmono with hmono | hmono
        · exact .inl hmono
        · refine hs'.imp_right fun hs' => ?_
          rw [← Bool.not_eq_true] at hs' ⊢
          exact fun h => hs' (hmono 3 h)
      refine ⟨ih hsteady hknown hs (fun hf => absurd hf Bool.false_ne_true) h, fun w hw => ?_⟩
      obtain ⟨hstop, hleads⟩ := h.of_mem_ways hbody hknown hrefer hw
      exact ⟨hstop.mono hmono, hleads⟩
    obtain ⟨between, hsafe', hfirst, hround⟩ := exists_between hright h.zone
    refine ways_repeated_within (fun h0 => hmirrors hsafe' ?_) (hmirrors hsafe' hround) ?_
      (fun cur caps h => ⟨h.length_le, h.length_le'⟩) h
    · simpa only [if_neg h0] using hfirst
    · intro h0 cur caps h
      rw [if_pos h0] at hfirst
      exact h.mono hfirst
  | @look body direction hbody ih =>
    cases direction with
    | ahead =>
      rw [isSteady, Bool.and_eq_true, List.isEmpty_iff] at hsteady
      have hnone : ∀ e ∈ body.bodies, ∀ w, e.2.Spells (.loose known) w → known e.1 w := by
        intro e he
        simpa [hsteady.1] using mem_groups_of_mem_bodies he
      have hbright : right = [] ∨ (body.flow zones refer s).testBit 3 = false := by
        refine hright.imp_right fun h => ?_
        rw [testBit_flow_ahead (by decide), Bool.or_eq_false_iff] at h
        exact h.2
      simp only [ways, ↓reduceIte, List.isEmpty_map,
        ih hsteady.2 hnone hbright (fun hf => absurd hf Bool.false_ne_true) h]
      split_ifs <;> rfl
    | behind width =>
      simp only [isSteady, Option.any_eq_true, Bool.and_eq_true, beq_iff_eq, Bool.or_eq_true,
        Bool.not_eq_true', List.all_eq_true] at hsteady
      obtain ⟨ps, hps, rfl, hrefuses⟩ := hsteady
      have hfits : fits ps.reverse (cur.within left right).before = fits ps.reverse cur.before := by
        rcases hrefuses with hf | hrefuses
        · exact hfront hf body (List.mem_singleton.mpr rfl) ps hps
        · exact fits_append_of_refuses (fun p hp => hrefuses p (List.mem_reverse.mp hp)) hleft
            cur.before
      rw [ways_notAfter hps, ways_notAfter hps, hfits]
      split_ifs <;> rfl
  | backReference name =>
    simp only [ways, Bool.false_eq_true, ↓reduceIte, Captures.lookup_within]
    cases hspan : caps.lookup name with
    | none => rfl
    | some span =>
      obtain ⟨u, hu, htext, hP⟩ := h.hold.of_lookup hspan
      -- A reference that went on behind the end would be tried in the sink.
      have hend : right = [] ∨ ∀ y, u = cur.after ++ y → y = [] := by
        rcases hright with hright | hright
        · exact .inl hright
        · refine h.zone.imp_right ?_
          rintro ⟨i, hi, hz⟩ y rfl
          by_contra hy
          rw [← List.append_nil cur.after] at hz
          obtain ⟨j, hj, hx⟩ := exists_path_zones hz
          obtain rfl := eq_three_of_zone_nil hx
          have hpath := path_append.mpr ⟨3, hj, path_zones_beyond y⟩
          have htrouble := hrefer name _ hP s i 3 hi hpath
          rw [flow, htrouble] at hright
          exact Bool.noConfusion hright
      simp only [Option.map_some, Option.bind_some, Span.text_within hu, htext,
        Cursor.skip?_within hend]
      cases cur.skip? u <;> rfl

end Regex

end CApiUpgrade
