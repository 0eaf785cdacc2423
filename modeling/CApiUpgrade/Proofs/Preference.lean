import CApiUpgrade.Proofs.Spelled

/-!
# Which way comes first

A repetition takes as much as it can, or as little as it can, and then the other way round if what
follows cannot be matched.  For repetitions of one character that is said here step by step
(`Regex.ways_many`, `Regex.ways_manyLazy`), and from it two things follow about the preferred way.

* A lazy group in front of blanks does not end in a blank (`Regex.exists_end_of_lazyWays`).
* Blanks in front of an argument are all taken, unless there is nothing else in the parentheses
  (`Regex.head?_ways_argument`).
-/

namespace CApiUpgrade

open Text

/-! ### Repetitions of one character -/

namespace Way

variable {p : Char → Bool} {c : Cursor} {caps : Captures} {w : Way}

theorem mem_step : w ∈ step p c caps ↔ ∃ x, c.next? = some (x, w.1) ∧ p x = true ∧ w.2 = caps := by
  rw [step]
  cases hn : c.next? with
  | none => simp
  | some m =>
    obtain ⟨x, d⟩ := m
    obtain ⟨stop, caps'⟩ := w
    dsimp only
    split_ifs with hx
    · simp only [List.mem_singleton, Prod.mk.injEq, Option.some.injEq]
      constructor
      · rintro ⟨rfl, rfl⟩
        exact ⟨x, ⟨rfl, rfl⟩, hx, rfl⟩
      · rintro ⟨y, ⟨rfl, rfl⟩, -, rfl⟩
        exact ⟨rfl, rfl⟩
    · simp only [List.not_mem_nil, Option.some.injEq, Prod.mk.injEq, false_iff, not_exists]
      rintro y ⟨⟨rfl, rfl⟩, hy, -⟩
      exact hx hy

theorem length_of_mem_step (h : w ∈ step p c caps) : c.after.length = w.1.after.length + 1 := by
  obtain ⟨x, hn, -⟩ := mem_step.mp h
  rw [(Cursor.leads_of_next? hn).after, List.length_append, List.length_singleton, Nat.add_comm]

/-- Every way uses up some text. -/
def Advances (body : Cursor → Captures → List Way) : Prop :=
  ∀ c caps, ∀ w ∈ body c caps, ∃ u, u ≠ [] ∧ c.Leads u w.1

theorem advances_step (p : Char → Bool) : Advances (step p) := by
  intro c caps w hw
  obtain ⟨x, hn, -⟩ := mem_step.mp hw
  exact ⟨[x], by simp, Cursor.leads_of_next? hn⟩

theorem Advances.lt {body : Cursor → Captures → List Way} (h : Advances body)
    (hw : w ∈ body c caps) : w.1.after.length < c.after.length ∧ c.offset < w.1.offset := by
  obtain ⟨u, hu, hl⟩ := h c caps w hw
  have hpos := List.length_pos_iff.mpr hu
  have hlen := congrArg List.length hl.after
  have hoffset := hl.offset
  rw [List.length_append] at hlen
  omega

/-- More rounds than characters make no difference. -/
theorem Advances.rounds_succ {body : Cursor → Captures → List Way} (h : Advances body)
    (greedy : Bool) {n : Nat} (hn : c.after.length < n) :
    rounds body greedy true (n + 1) c caps = rounds body greedy true n c caps := by
  induction n generalizing c caps with
  | zero => omega
  | succ n ih =>
    have hanother : ∀ w ∈ body c caps,
        (if true && w.1.offset == c.offset then [w] else rounds body greedy true (n + 1) w.1 w.2) =
        if true && w.1.offset == c.offset then [w] else rounds body greedy true n w.1 w.2 := by
      intro w hw
      have hlen := (h.lt hw).1
      rw [ih (by omega)]
    rw [rounds, rounds, List.flatMap_congr hanother]

end Way

namespace Regex

variable {body : Regex} {p : Char → Bool} {terms : Terms} {c : Cursor}

/-- Another round and then further ones. -/
theorem flatMap_rounds (h : Way.Advances (body.ways terms)) (greedy : Bool)
    (hroom : c.after.length ≤ terms.bound) (caps : Captures) :
    ((body.ways terms c caps).flatMap fun w =>
      if true && w.1.offset == c.offset then [w]
      else Way.rounds (body.ways terms) greedy true terms.bound w.1 w.2) =
    (body.ways terms c caps).flatMap fun w =>
      (repeated body 0 none greedy).ways terms w.1 w.2 := by
  refine List.flatMap_congr fun w hw => ?_
  obtain ⟨hlen, hoffset⟩ := h.lt hw
  have hmoved : (w.1.offset == c.offset) = false := by
    rw [beq_eq_false_iff_ne]
    omega
  rw [hmoved, Bool.and_false, if_neg Bool.false_ne_true, ways, Way.exactly]
  exact (h.rounds_succ greedy (by omega)).symm

/-- A greedy repetition of an expression that uses up some text. -/
theorem ways_many_of_advances (h : Way.Advances (body.ways terms))
    (hroom : c.after.length ≤ terms.bound) (caps : Captures) :
    (many body).ways terms c caps =
      (body.ways terms c caps).flatMap (fun w => (many body).ways terms w.1 w.2) ++ [(c, caps)] :=
  congrArg (· ++ [(c, caps)]) (flatMap_rounds h true hroom caps)

theorem advances_of_takes? (hp : body.takes? = some p) (terms : Terms) :
    Way.Advances (body.ways terms) := by
  rw [ways_of_takes? hp]
  exact Way.advances_step p

/-- A greedy repetition of one character. -/
theorem ways_many (hp : body.takes? = some p) (hroom : c.after.length ≤ terms.bound)
    (caps : Captures) :
    (many body).ways terms c caps =
      (Way.step p c caps).flatMap (fun w => (many body).ways terms w.1 w.2) ++ [(c, caps)] := by
  rw [← ways_of_takes? hp terms]
  exact ways_many_of_advances (advances_of_takes? hp terms) hroom caps

/-- A lazy repetition of one character. -/
theorem ways_manyLazy (hp : body.takes? = some p) (hroom : c.after.length ≤ terms.bound)
    (caps : Captures) :
    (manyLazy body).ways terms c caps =
      (c, caps) :: (Way.step p c caps).flatMap fun w => (manyLazy body).ways terms w.1 w.2 := by
  rw [← ways_of_takes? hp terms]
  exact congrArg ((c, caps) :: ·) (flatMap_rounds (advances_of_takes? hp terms) false hroom caps)

/-- A part that may be left out. -/
theorem ways_optional (body : Regex) (terms : Terms) (c : Cursor) (caps : Captures) :
    (optional body).ways terms c caps = body.ways terms c caps ++ [(c, caps)] := by
  have hround : ∀ w ∈ body.ways terms c caps,
      (if false && w.1.offset == c.offset then [w]
        else Way.rounds (body.ways terms) true false 0 w.1 w.2) = [w] := fun _ _ => rfl
  change (body.ways terms c caps).flatMap _ ++ [(c, caps)] = _
  rw [List.flatMap_congr hround, List.flatMap_singleton']

theorem ways_append (r s : Regex) (terms : Terms) (c : Cursor) (caps : Captures) :
    (r ++ s).ways terms c caps = (r.ways terms c caps).flatMap fun w => s.ways terms w.1 w.2 := rfl

theorem ways_cat_assoc (r s t : Regex) (terms : Terms) (c : Cursor) (caps : Captures) :
    (cat (cat r s) t).ways terms c caps = (cat r (cat s t)).ways terms c caps := by
  simp only [ways, List.flatMap_assoc]

/-! ### Expressions without references -/

end Regex

namespace Way

/-- A way behind some captures more. -/
def behind (caps : Captures) (w : Way) : Way := (w.1, w.2 ++ caps)

/-- The ways of a body are the same whatever was captured before. -/
def Forgets (body : Cursor → Captures → List Way) : Prop :=
  ∀ c k caps, body c (k ++ caps) = (body c k).map (behind caps)

namespace Forgets

variable {body more : Cursor → Captures → List Way}

theorem rounds (h : Forgets body) (greedy moving : Bool) (n : Nat) :
    Forgets (rounds body greedy moving n) := by
  intro c k caps
  induction n generalizing c k with
  | zero => rfl
  | succ n ih =>
    have hanother : ((body c (k ++ caps)).flatMap fun w =>
        if moving && w.1.offset == c.offset then [w]
        else Way.rounds body greedy moving n w.1 w.2) =
      ((body c k).flatMap fun w =>
        if moving && w.1.offset == c.offset then [w]
        else Way.rounds body greedy moving n w.1 w.2).map (behind caps) := by
      rw [h, List.flatMap_map, List.map_flatMap]
      refine List.flatMap_congr fun w _ => ?_
      by_cases hstop : (moving && w.1.offset == c.offset) = true
      · simp [behind, hstop]
      · simp only [behind, hstop, Bool.false_eq_true, ↓reduceIte]
        exact ih w.1 w.2
    rw [Way.rounds, Way.rounds, hanother]
    cases greedy with
    | true => simp [behind]
    | false => simp [behind]

theorem exactly (h : Forgets body) (hmore : Forgets more) (n : Nat) :
    Forgets (exactly body more n) := by
  intro c k caps
  induction n generalizing c k with
  | zero => exact hmore c k caps
  | succ n ih =>
    rw [Way.exactly, Way.exactly, h, List.flatMap_map, List.map_flatMap]
    exact List.flatMap_congr fun w _ => ih w.1 w.2

end Forgets

end Way

namespace Regex

/-- Whether an expression makes no reference to a group and does not look around. -/
def isClosed : Regex → Bool
  | backReference _ _ | look _ _ _ => false
  | cat a b | alt a b => a.isClosed && b.isClosed
  | group _ body | repeated body _ _ _ => body.isClosed
  | _ => true

/-- What was captured before has no part in how a closed expression matches. -/
theorem Basic.forgets {r : Regex} (hr : r.Basic) (h : r.isClosed = true) (terms : Terms) :
    Way.Forgets (r.ways terms) := by
  induction hr with
  | empty => exact fun _ _ _ => rfl
  | one hp =>
    intro c k caps
    rw [ways_of_takes? hp, Way.step, Way.step]
    cases c.next? with
    | none => rfl
    | some m =>
      dsimp only
      split_ifs <;> rfl
  | anchor a =>
    intro c k caps
    rw [ways, ways, Way.provided, Way.provided]
    split_ifs <;> rfl
  | cat _ _ iha ihb =>
    rw [isClosed, Bool.and_eq_true] at h
    intro c k caps
    rw [ways, ways, iha h.1, List.flatMap_map, List.map_flatMap]
    exact List.flatMap_congr fun w _ => ihb h.2 w.1 w.2 caps
  | alt _ _ iha ihb =>
    rw [isClosed, Bool.and_eq_true] at h
    intro c k caps
    rw [ways, ways, iha h.1, ihb h.2, List.map_append]
  | group name _ ih =>
    intro c k caps
    rw [ways, ways, ih h, List.map_map, List.map_map]
    rfl
  | repeated least most greedy _ ih =>
    intro c k caps
    unfold ways
    cases most with
    | none => exact (ih h).exactly ((ih h).rounds greedy true _) least c k caps
    | some m => exact (ih h).exactly ((ih h).rounds greedy false _) least c k caps
  | look direction _ _ => simp [isClosed] at h
  | backReference name => simp [isClosed] at h

theorem Basic.ways_eq_nil_of_isClosed {r : Regex} (hr : r.Basic) (h : r.isClosed = true)
    {terms : Terms} {c : Cursor} {caps : Captures} (hnil : r.ways terms c caps = [])
    (caps' : Captures) : r.ways terms c caps' = [] := by
  have hfirst := hr.forgets h terms c [] caps
  have hsecond := hr.forgets h terms c [] caps'
  rw [List.nil_append] at hfirst hsecond
  rw [hfirst, List.map_eq_nil_iff] at hnil
  rw [hsecond, hnil, List.map_nil]

/-! ### Groups that take as little as possible -/

section Lazy

variable {body : Regex} {cls tail : Regex} {p : Char → Bool} {terms : Terms} {c : Cursor}
  {name : String}

/-- A group that goes on with as few characters as possible, and what follows it. -/
def lazyWays (terms : Terms) (name : String) (start : Cursor) (cls tail : Regex) (c : Cursor)
    (caps : Captures) : List Way :=
  ((manyLazy cls).ways terms c caps).flatMap fun w =>
    tail.ways terms w.1 ((name, ⟨start, w.1⟩) :: w.2)

/-- The group ends here, or it takes one more character. -/
theorem lazyWays_eq (hp : cls.takes? = some p) (hroom : c.after.length ≤ terms.bound)
    (name : String) (start : Cursor) (tail : Regex) (caps : Captures) :
    lazyWays terms name start cls tail c caps =
      tail.ways terms c ((name, ⟨start, c⟩) :: caps) ++
        (Way.step p c caps).flatMap fun w => lazyWays terms name start cls tail w.1 w.2 := by
  rw [lazyWays, ways_manyLazy hp hroom, List.flatMap_cons, List.flatMap_assoc]
  rfl

/-- The group behind an expression that belongs to it. -/
theorem ways_group_manyLazy (front : Regex) (caps : Captures) :
    (group name (front ++ manyLazy cls) ++ tail).ways terms c caps =
      (front.ways terms c caps).flatMap fun w => lazyWays terms name c cls tail w.1 w.2 := by
  change (((front.ways terms c caps).flatMap _).map _).flatMap _ = _
  rw [List.flatMap_map, List.flatMap_assoc]
  rfl

/-- The group, if it takes one character at least. -/
theorem ways_group_many1Lazy (hp : cls.takes? = some p) (caps : Captures) :
    (group name (many1Lazy cls) ++ tail).ways terms c caps =
      (Way.step p c caps).flatMap fun w => lazyWays terms name c cls tail w.1 w.2 := by
  rw [← ways_of_takes? hp terms]
  exact ways_group_manyLazy cls caps

/-- The preferred way to go on is a preferred way from somewhere. -/
theorem exists_of_head?_flatMap {α β : Type} {xs : List α} {f : α → List β} {y : β}
    (h : y ∈ (xs.flatMap f).head?) : ∃ x ∈ xs, y ∈ (f x).head? := by
  induction xs with
  | nil => simp at h
  | cons x xs ih =>
    rw [List.flatMap_cons, List.head?_append] at h
    cases hf : (f x).head? with
    | some z => exact ⟨x, List.mem_cons_self, by rw [hf, Option.some_or] at h; exact hf ▸ h⟩
    | none =>
      rw [hf, Option.none_or] at h
      obtain ⟨x', hx', hy⟩ := ih h
      exact ⟨x', List.mem_cons_of_mem x hx', hy⟩

/-- **A lazy group does not end in a blank**, if what follows it can be matched in front of a blank
wherever it can be matched behind it. -/
theorem exists_end_of_lazyWays (hp : cls.takes? = some p) {start : Cursor}
    {caps : Captures} {w : Way}
    (hback : ∀ {c d : Cursor} {x : Char} {caps : Captures}, c.next? = some (x, d) →
      isBlank x = true → c.after.length ≤ terms.bound → tail.ways terms c caps = [] →
        ∀ caps', tail.ways terms d caps' = [])
    (hroom : c.after.length ≤ terms.bound)
    (h : w ∈ (lazyWays terms name start cls tail c caps).head?) :
    ∃ u d, c.Leads u d ∧ w ∈ tail.ways terms d ((name, ⟨start, d⟩) :: caps) ∧
      ∀ x, u.getLast? = some x → isBlank x = false := by
  generalize hlen : c.after.length = n at hroom
  induction n generalizing c with
  | zero =>
    have hnone : c.next? = none := by rw [Cursor.next?, List.length_eq_zero_iff.mp hlen]
    rw [lazyWays_eq hp (hlen ▸ hroom), Way.step, hnone, List.flatMap_nil, List.append_nil] at h
    exact ⟨[], c, .refl c, List.mem_of_head? h, by simp⟩
  | succ n ih =>
    rw [lazyWays_eq hp (hlen ▸ hroom), List.head?_append] at h
    cases hends : tail.ways terms c ((name, ⟨start, c⟩) :: caps) with
    | cons v vs =>
      rw [hends] at h
      exact ⟨[], c, .refl c, hends ▸ List.mem_of_head? h, by simp⟩
    | nil =>
      rw [hends, List.head?_nil, Option.none_or] at h
      obtain ⟨⟨d, caps₁⟩, hd, hw⟩ := exists_of_head?_flatMap h
      obtain ⟨x, hn, -, hcaps⟩ := Way.mem_step.mp hd
      obtain rfl : caps = caps₁ := hcaps.symm
      have hl := Cursor.leads_of_next? hn
      have hlength := Way.length_of_mem_step hd
      obtain ⟨u, e, hu, he, hlast⟩ := ih hw (by omega) (by omega)
      refine ⟨x :: u, e, hl.trans hu, he, ?_⟩
      cases u with
      | nil =>
        -- The group ends behind `x`, so it cannot end in front of it, and `x` is no blank.
        intro y hy
        obtain rfl : x = y := by simpa using hy
        obtain rfl := hu.eq_of_nil
        refine Bool.eq_false_iff.mpr fun hblank => ?_
        rw [hback hn hblank (hlen ▸ hroom) hends ((name, ⟨start, e⟩) :: caps)] at he
        exact List.not_mem_nil he
      | cons y u => exact fun z hz => hlast z (by simpa using hz)

end Lazy

/-! ### Blanks in front of an argument -/

section Argument

variable {terms : Terms} {c d : Cursor} {caps : Captures} {gap : List Char}

/-- Blanks are taken as far as they go first, and then given back one by one. -/
theorem exists_ways_blanks (caps : Captures) (hl : c.Leads gap d)
    (hgap : ∀ x ∈ gap, isBlank x = true) (hd : ∀ x, d.after.head? = some x → isBlank x = false)
    (hroom : c.after.length ≤ terms.bound) :
    ∃ ws, blanks.ways terms c caps = (d, caps) :: ws ∧ ∀ w ∈ ws, w.2 = caps ∧
      ∃ given, given ≠ [] ∧ given <:+ gap ∧ w.1.Leads given d := by
  induction gap generalizing c with
  | nil =>
    obtain rfl := hl.eq_of_nil
    refine ⟨[], ?_, by simp⟩
    have hnone : Way.step (Category.contains .blank · != false) d caps = [] := by
      rw [Way.step, Cursor.next?]
      cases hafter : d.after with
      | nil => rfl
      | cons x rest =>
        have hx := hd x (by rw [hafter]; rfl)
        simp [Category.contains, hx]
    rw [blanks, ways_many rfl hroom, hnone]
    rfl
  | cons x gap ih =>
    rw [← List.singleton_append] at hl
    obtain ⟨e, hx, hrest⟩ := hl.split
    have hstep : Way.step (Category.contains .blank · != false) c caps = [(e, caps)] := by
      rw [Way.step, hx.next?]
      simp [Category.contains, hgap x List.mem_cons_self]
    obtain ⟨ws, hws, hgiven⟩ := ih hrest (fun y hy => hgap y (List.mem_cons_of_mem x hy))
      (hx.length_le.trans hroom)
    refine ⟨ws ++ [(c, caps)], ?_, fun w hw => ?_⟩
    · rw [blanks] at hws
      rw [blanks, ways_many rfl hroom, hstep, List.flatMap_singleton, hws, List.cons_append]
    · rcases List.mem_append.mp hw with hw | hw
      · obtain ⟨hcaps, given, hne, hsuffix, hlw⟩ := hgiven w hw
        exact ⟨hcaps, given, hne, hsuffix.trans (List.suffix_cons x gap), hlw⟩
      · obtain rfl := List.mem_singleton.mp hw
        exact ⟨rfl, x :: gap, List.cons_ne_nil x gap, List.suffix_refl _, hl⟩

/-- What follows blanks and starts with a closing parenthesis. -/
theorem exists_of_ways_close {X : Regex} {w : Way}
    (hw : w ∈ (blanks ++ (char ')' ++ X)).ways terms c caps)
    (hroom : c.after.length ≤ terms.bound) :
    ∃ gap rest, c.after = gap ++ ')' :: rest ∧ ∀ x ∈ gap, isBlank x = true := by
  obtain ⟨⟨d, k⟩, hd, hw⟩ := List.mem_flatMap.mp hw
  obtain ⟨v, hv, -⟩ := List.mem_flatMap.mp hw
  obtain ⟨-, gap, hl, hgap⟩ := (mem_ways_iff_spells rfl (.of fun _ => none) hroom).mp hd
  obtain ⟨x, hn, hx, -⟩ := Way.mem_step.mp hv
  obtain rfl := beq_iff_eq.mp hx
  refine ⟨gap, v.1.after, ?_, spells_blanks.mp hgap⟩
  rw [hl.after, (Cursor.leads_of_next? hn).after]
  rfl

/-- Behind blanks stands something other than a closing parenthesis. -/
theorem append_ne_close {w rest : List Char} {gap' : List Char} (hgap : ∀ x ∈ gap, isBlank x = true)
    (hgap' : ∀ x ∈ gap', isBlank x = true) (hw : ∀ x, w.head? = some x → isBlank x = false)
    (hclose : w.head? ≠ some ')') : gap ++ w ≠ gap' ++ ')' :: rest := by
  intro heq
  cases w with
  | nil =>
    have hmem : ')' ∈ gap := by
      rw [List.append_nil] at heq
      simp [heq]
    exact absurd (hgap _ hmem) (by decide)
  | cons y ys =>
    have hblank : ∀ {z : List Char}, (∀ x ∈ z, isBlank x = true) → ∀ x ∈ z, (!isBlank x) = false :=
      fun hz x hx => by rw [hz x hx]; rfl
    obtain ⟨-, rfl, -⟩ := append_cons_inj (p := fun x => !isBlank x) (hblank hgap) (hblank hgap')
      (by rw [hw y rfl]; rfl) rfl heq
    exact hclose rfl

variable {cls X : Regex} {p : Char → Bool} {name : String}

/-- An argument that takes in blanks in front of it can be matched without them, unless nothing else
stands in the parentheses. -/
theorem ways_argument_eq_nil (hp : cls.takes? = some p)
    (hX : X.Basic) (hclosed : X.isClosed = true) (hl : c.Leads gap d)
    (hgap : ∀ x ∈ gap, isBlank x = true) (hd : ∀ x, d.after.head? = some x → isBlank x = false)
    (hclose : d.after.head? ≠ some ')') (hroom : c.after.length ≤ terms.bound)
    (hnil : (group name (many1Lazy cls) ++ (blanks ++ (char ')' ++ X))).ways terms d caps = []) :
    (group name (many1Lazy cls) ++ (blanks ++ (char ')' ++ X))).ways terms c caps = [] := by
  refine List.eq_nil_iff_forall_not_mem.mpr fun w hw => ?_
  obtain ⟨v, hv, hrest⟩ := List.mem_flatMap.mp hw
  obtain ⟨⟨f, k⟩, hf, rfl⟩ := List.mem_map.mp hv
  have htext : (many1Lazy cls).isText = true := by
    cases cls <;> simp [takes?] at hp <;> rfl
  obtain ⟨rfl, u, hu, hspells⟩ := (mem_ways_iff_spells htext (.of fun _ => none) hroom).mp hf
  have hargument := (spells_repeated_one hp).mp hspells
  -- The argument would end in front of the closing parenthesis, so it does not end in the blanks.
  obtain ⟨given, beyond, hafter, hgiven⟩ := exists_of_ways_close hrest (hu.length_le.trans hroom)
  have hbeyond : ∀ {z : List Char}, (∀ x ∈ z, isBlank x = true) → f.after ≠ z ++ d.after :=
    fun hz heq => append_ne_close hz hgiven hd hclose (heq.symm.trans hafter)
  rcases List.append_eq_append_iff.mp (hl.after.symm.trans hu.after) with ⟨z, rfl,
    hz⟩ | ⟨z, rfl, hz⟩
  · have hz' : z ≠ [] := by
      rintro rfl
      exact hbeyond (z := []) (by simp) (by simpa using hz.symm)
    -- So it could start behind the blanks.
    have hlz : d.Leads z f := ⟨hz, by
      rw [hu.before, hl.before, List.reverse_append, List.append_assoc]⟩
    have hlater : (many1Lazy cls).Spells (.of fun _ => none) z := (spells_repeated_one hp).mpr
      ⟨List.length_pos_iff.mpr hz', fun x hx => hargument.2 x (List.mem_append_right gap hx)⟩
    have hroom' : d.after.length ≤ terms.bound := hl.length_le.trans hroom
    have hmem := mem_ways_of_spells htext hlater k hlz hroom'
    have hends := List.flatMap_eq_nil_iff.mp hnil _ (List.mem_map.mpr ⟨_, hmem, rfl⟩)
    have htail : (blanks ++ (char ')' ++ X)).Basic :=
      .cat (basic_of_isBasic rfl) (.cat (.one rfl) hX)
    have hnone := htail.ways_eq_nil_of_isClosed hclosed hends ((name, ⟨c, f⟩) :: k)
    rw [hnone] at hrest
    exact List.not_mem_nil hrest
  · exact hbeyond (fun x hx => hgap x (List.mem_append_right u hx)) hz

/-- **Blanks in front of an argument** are all taken, unless there is nothing else in the
parentheses. -/
theorem head?_ways_argument (hp : cls.takes? = some p) (hX : X.Basic) (hclosed : X.isClosed = true)
    (hl : c.Leads gap d) (hgap : ∀ x ∈ gap, isBlank x = true)
    (hd : ∀ x, d.after.head? = some x → isBlank x = false)
    (hclose : gap ≠ [] → d.after.head? ≠ some ')') (hroom : c.after.length ≤ terms.bound) :
    ((blanks ++ (group name (many1Lazy cls) ++ (blanks ++ (char ')' ++ X)))).ways terms c
      caps).head? =
      ((group name (many1Lazy cls) ++ (blanks ++ (char ')' ++ X))).ways terms d caps).head? := by
  obtain ⟨ws, hws, hgiven⟩ := exists_ways_blanks caps hl hgap hd hroom
  have hrest : (group name (many1Lazy cls) ++ (blanks ++ (char ')' ++ X))).ways terms d caps = [] →
      (ws.flatMap fun w =>
        (group name (many1Lazy cls) ++ (blanks ++ (char ')' ++ X))).ways terms w.1 w.2) = [] := by
    intro hnil
    refine List.flatMap_eq_nil_iff.mpr fun w hw => ?_
    obtain ⟨hcaps, given, hne, hsuffix, hlw⟩ := hgiven w hw
    have hgap' : gap ≠ [] := fun h => hne (List.suffix_nil.mp (h ▸ hsuffix))
    have hroom' : w.1.after.length ≤ terms.bound := by
      have hlen := hsuffix.length_le
      rw [hl.after, List.length_append] at hroom
      rw [hlw.after, List.length_append]
      omega
    rw [hcaps]
    exact ways_argument_eq_nil hp hX hclosed hlw (fun x hx => hgap x (hsuffix.subset hx)) hd
      (hclose hgap') hroom' hnil
  change ((blanks.ways terms c caps).flatMap _).head? = _
  rw [hws, List.flatMap_cons, List.head?_append]
  cases hfirst : (group name (many1Lazy cls) ++ (blanks ++ (char ')' ++ X))).ways terms d caps with
  | nil =>
    rw [hrest hfirst]
    rfl
  | cons w rest => rfl

end Argument

end Regex

end CApiUpgrade
