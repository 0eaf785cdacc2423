import CApiUpgrade.Proofs.Budget
import CApiUpgrade.Proofs.Payment
import CApiUpgrade.Proofs.Renaming
import CApiUpgrade.Proofs.Statements

/-!
# Renaming the allocation functions

Twelve patterns, spread over three rules, rename the allocation functions, each in what the one
before it left.  Together they are a single renaming of the pieces of the text
(`allocators_rename`): what one pattern writes is no old name of any other, so neither their order
nor their number matters.

* `pass_renameCall`: what one pattern does.  Its match has to start at the start of a piece, since
  the name is a run of word characters between two edges of words.
* `exists_findFrom_renameCall`: what a search costs.  Besides one step back for each position given
  up, a search steps back from the gaps behind a name, once from each.  So it stays within twice the
  length of the text, and only a text of hundreds of millions of characters can exhaust the budget.
-/

namespace CApiUpgrade

open Text

/-! ### Runs that take few steps back -/

namespace Verdict

/-- The run ends after at most so many steps back. -/
def Within (most : Nat) : Verdict → Prop
  | found _ _ spent | failed spent => spent ≤ most
  | exhausted => False

theorem Within.mono {m n : Nat} {v : Verdict} (h : v.Within m) (hmn : m ≤ n) : v.Within n := by
  cases v with
  | found stop caps spent => exact Nat.le_trans h hmn
  | failed spent => exact Nat.le_trans h hmn
  | exhausted => exact h

theorem Within.orElse {m budget : Nat} {v : Verdict} {other : Nat → Verdict} (h : v.Within m)
    (hm : m < budget) (hother : ∀ spent ≤ m + 1, (other spent).Within (m + 1)) :
    (v.orElse (some budget) other).Within (m + 1) := by
  cases v with
  | found stop caps spent => exact h.mono (Nat.le_succ m)
  | failed spent =>
    have hspent : spent ≤ m := h
    rw [Verdict.orElse, if_pos (by omega)]
    exact hother (spent + 1) (by omega)
  | exhausted => exact h.elim

end Verdict

namespace Goal

/-- To take a character is no step back. -/
theorem within_step (p : Char → Bool) {goal : Goal}
    (hgoal : ∀ c caps spent, (goal c caps spent).Within spent) (c : Cursor) (caps : Captures)
    (spent : Nat) : (step p goal c caps spent).Within spent := by
  rw [step]
  cases c.next? with
  | none => exact le_rfl
  | some move =>
    dsimp only
    split
    · exact hgoal _ _ _
    · exact le_rfl

/-- Rounds over characters of a kind step back once for each of them, and once at the end. -/
theorem within_rounds {p : Char → Bool} {goal : Goal}
    (hgoal : ∀ c caps spent, (goal c caps spent).Within spent) {budget : Nat} (n : Nat) {c : Cursor}
    (caps : Captures) {spent : Nat} (hbudget : spent + (c.after.takeWhile p).length + 1 ≤ budget) :
    (rounds (some budget) (step p) true true goal n c caps spent).Within
      (spent + (c.after.takeWhile p).length + 1) := by
  induction n generalizing c spent with
  | zero => exact (hgoal c caps spent).mono (by omega)
  | succ n ih =>
    rw [rounds]
    simp only [↓reduceIte, Bool.true_and]
    refine Verdict.Within.orElse ?_ (by omega) fun s hs => (hgoal c caps s).mono hs
    rw [step]
    cases hn : c.next? with
    | none => exact Nat.le_add_right _ _
    | some move =>
      obtain ⟨x, d⟩ := move
      have hafter : c.after = x :: d.after := (Cursor.leads_of_next? hn).after
      by_cases hx : p x = true
      · have hoffset : (d.offset == c.offset) = false := by
          have hlen := (Cursor.leads_of_next? hn).offset
          simp only [List.length_cons, List.length_nil] at hlen
          exact beq_false_of_ne (by omega)
        rw [hafter, List.takeWhile_cons_of_pos hx, List.length_cons] at hbudget ⊢
        simp only [hx, hoffset, ↓reduceIte, Bool.false_eq_true]
        exact (ih (by omega)).mono (by omega)
      · simp only [hx, Bool.false_eq_true, ↓reduceIte]
        exact Nat.le_add_right _ _

end Goal

namespace Regex

/-- A run over a literal goes on behind the literal, or it fails at once. -/
theorem run_literal (word : String) (terms : Terms) (goal : Goal) (c : Cursor) (caps : Captures)
    (spent : Nat) : (literal word).run terms goal c caps spent =
      match c.skip? word.toList with
      | some d => goal d caps spent
      | none => .failed spent := by
  have hseq : ∀ (xs : List Char) (c : Cursor), (seq (xs.map char)).run terms goal c caps spent =
      match c.skip? xs with
      | some d => goal d caps spent
      | none => .failed spent := by
    intro xs
    induction xs with
    | nil => exact fun c => rfl
    | cons x xs ih =>
      intro c
      have hcons : (seq ((x :: xs).map char)).run terms goal c caps spent =
          Goal.step (· == x) ((seq (xs.map char)).run terms goal) c caps spent := by
        cases xs with
        | nil => rfl
        | cons y ys => rfl
      rw [hcons, Goal.step, Cursor.skip?]
      cases c.next? with
      | none => rfl
      | some move =>
        by_cases hx : move.1 = x
        · simp only [hx, beq_self_eq_true, ↓reduceIte]
          exact ih move.2
        · simp [hx, Ne.symm hx]
  exact hseq _ c

/-- A search gives an answer from a position on if it gives one from a later position on, and no
match starts in between. -/
theorem exists_findFrom_of_leads {budget : Nat} {attempt : Goal} {w : List Char} {c d : Cursor}
    {spent : Nat} (hl : c.Leads w d) (hbudget : spent + w.length ≤ budget)
    (hfails : ∀ u v e s, w = u ++ v → v ≠ [] → c.Leads u e → attempt e [] s = .failed s)
    (hd : ∀ fuel, ∃ o, findFrom (some budget) attempt fuel d (spent + w.length) = .ok o)
    (fuel : Nat) : ∃ o, findFrom (some budget) attempt fuel c spent = .ok o := by
  induction w generalizing c spent fuel with
  | nil =>
    rw [← hl.eq_of_nil]
    exact hd fuel
  | cons x w ih =>
    cases fuel with
    | zero => exact ⟨none, rfl⟩
    | succ fuel =>
      rw [← List.singleton_append] at hl
      obtain ⟨e, hx, hrest⟩ := hl.split
      have hroom : ¬ budget ≤ spent := by
        rw [List.length_cons] at hbudget
        omega
      rw [findFrom, hfails [] (x :: w) c spent rfl (by simp) (.refl c)]
      simp only [Option.any_some, decide_eq_true_eq, hroom, ↓reduceIte, hx.next?]
      have hcount : spent + 1 + w.length = spent + (x :: w).length := by
        rw [List.length_cons]
        omega
      refine ih hrest (hcount ▸ hbudget) (fun u v e' s hw hv hu => ?_) (by rwa [hcount]) fuel
      exact hfails (x :: u) v e' s (by rw [hw, List.cons_append]) hv (hx.trans hu)

/-- All searches together give an answer if each of them does. -/
theorem exists_findAllFrom_of_findFrom {p : Pattern} (hp : p.Regular) {limit : Option Nat}
    {bound : Nat} (skipping : Bool) (h : ∀ origin (c : Cursor), c.after.length ≤ bound →
      ∃ o, findFrom limit (p.regex.run ⟨limit, bound, origin⟩ Goal.here) (bound + 1) c 0 = .ok o)
    (fuel : Nat) (resuming : Bool) {c : Cursor} (last : Option Nat) (hc : c.after.length ≤ bound) :
    ∃ hits, findAllFrom (fun resuming => p.regex.find limit bound (resuming || skipping)) fuel
      resuming c last = .ok hits := by
  induction fuel generalizing resuming c last with
  | zero => exact ⟨[], rfl⟩
  | succ fuel ih =>
    obtain ⟨o, ho⟩ := h (if resuming || skipping then some c.offset else none) c hc
    rw [findAllFrom, find, ho]
    obtain ⟨w, pos, hskips, ⟨rfl, -, -⟩ | ⟨stop, caps, ha, rfl⟩⟩ :=
      hp.basic.skips_of_findFrom (by omega) ho
    · exact ⟨[], rfl⟩
    · have hlt := hp.offset_lt ha
      have hne : (Hit.mk pos stop caps).isEmpty = false := beq_false_of_ne (Nat.ne_of_lt hlt)
      obtain ⟨m, hm, -⟩ := hp.reads ha
      have hroom := (hskips.leads.trans hm).length_le
      obtain ⟨hits, hhits⟩ := ih true (some stop.offset) (hroom.trans hc)
      simp only [bind, Except.bind, hp.ofRun_eq ha, hne, Bool.false_eq_true, ↓reduceIte, hhits]
      exact ⟨_, rfl⟩

end Regex

/-- A pattern can be applied to a text if every search gives an answer. -/
theorem Pattern.Regular.exists_apply_of_findFrom {p : Pattern} (hp : p.Regular) {text : List Char}
    (h : ∀ origin (c : Cursor), c.after.length ≤ text.length → ∃ o, Regex.findFrom p.limit
      (p.regex.run ⟨p.limit, text.length, origin⟩ Goal.here) (text.length + 1) c 0 = .ok o) :
    ∃ o, p.apply text = .ok o := by
  obtain ⟨hits, hhits⟩ :=
    Regex.exists_findAllFrom_of_findFrom hp p.template.hasDollar h (text.length + 2) true none
    (c := Cursor.ofText text) le_rfl
  rw [apply_eq_map, hits_eq_ok.mpr hhits]
  exact ⟨_, rfl⟩

namespace Catalog

open Regex

section RenameCall

variable {old new : String}

/-! ### The steps back of a renaming -/

/-- What follows the name steps back once for each gap, and once more. -/
theorem within_run_call (budget bound : Nat) (origin : Option Nat) (d : Cursor) {spent : Nat}
    (hbudget : spent + (d.after.takeWhile isGap).length + 1 ≤ budget) :
    ((group "call" (many gap ++ char '(')).run ⟨some budget, bound, origin⟩ Goal.here d []
      spent).Within (spent + (d.after.takeWhile isGap).length + 1) := by
  have hgap : isGap = (CharClass.mk false [.char ' ', .char '\t']).contains := by
    funext x
    simp [CharClass.contains, ClassItem.contains, isGap]
  rw [hgap] at hbudget ⊢
  exact Goal.within_rounds (Goal.within_step (· == '(') fun _ _ _ => le_rfl) (bound + 1) [] hbudget

/-- A run of a renaming fails at once, unless the old name stands there at the start of a word.
Then it steps back once for each gap behind the name, and once more. -/
theorem run_renameCall (hold : IsRun old.toList) (new : String) (budget bound : Nat)
    (origin : Option Nat) (c : Cursor) (spent : Nat) :
    (renameCall old new).regex.run ⟨some budget, bound, origin⟩ Goal.here c [] spent =
    .failed spent ∨
      ∃ rest, c.before.head?.any isWord = false ∧ c.after = old.toList ++ rest ∧
        (spent + (rest.takeWhile isGap).length + 1 ≤ budget →
          ((renameCall old new).regex.run ⟨some budget, bound, origin⟩ Goal.here c [] spent).Within
            (spent + (rest.takeWhile isGap).length + 1)) := by
  have hrun : (renameCall old new).regex.run ⟨some budget, bound, origin⟩ Goal.here c [] spent =
      if Anchor.wordEdge.holds c then
        match c.skip? old.toList with
        | some d => Goal.provided (fun cur _ => Anchor.wordEdge.holds cur)
            ((group "call" (many gap ++ char '(')).run ⟨some budget, bound, origin⟩ Goal.here) d []
              spent
        | none => .failed spent
      else .failed spent := by
    rw [← run_literal]
    rfl
  rw [hrun]
  by_cases hedge : Anchor.wordEdge.holds c = true
  · rw [if_pos hedge]
    cases hskip : c.skip? old.toList with
    | none => exact .inl rfl
    | some d =>
      have hl := Cursor.leads_of_skip? hskip
      refine .inr ⟨d.after, ?_, hl.after, fun hbudget => ?_⟩
      · have hright := hold.head?_any d.after
        rw [← hl.after] at hright
        simpa [Anchor.holds, hright] using hedge
      · dsimp only
        rw [Goal.provided]
        split
        · exact within_run_call budget bound origin d hbudget
        · exact Nat.le_trans (Nat.le_add_right _ _) (Nat.le_add_right _ _)
  · rw [if_neg hedge]
    exact .inl rfl

/-- No match starts behind a word character, nor in front of a gap. -/
theorem run_renameCall_inside (hold : IsRun old.toList) {budget bound : Nat} {origin : Option Nat}
    {c : Cursor} (h : c.before.head?.any isWord = true ∨ c.after.head?.any isGap = true)
    (spent : Nat) :
    (renameCall old new).regex.run ⟨some budget, bound, origin⟩ Goal.here c [] spent =
    .failed spent := by
  obtain hfails | ⟨rest, hbefore, hafter, -⟩ := run_renameCall hold new budget bound origin c spent
  · exact hfails
  · obtain h | h := h
    · rw [hbefore] at h
      contradiction
    · obtain ⟨x, old', hx⟩ := List.exists_cons_of_ne_nil hold.1
      have hword : isWord x = true := hold.2 x (by simp [hx])
      rw [hafter, hx] at h
      have hgap : isGap x = true := h
      rw [isWord_of_isGap hgap] at hword
      contradiction

/-- No match starts inside of the old name, nor inside of the gaps behind it. -/
theorem run_renameCall_behind (hold : IsRun old.toList) {budget bound : Nat} {origin : Option Nat}
    {c e : Cursor} {gaps rest u v : List Char} (hgaps : ∀ x ∈ gaps, isGap x = true)
    (hafter : c.after = old.toList ++ (gaps ++ rest)) (hu : c.Leads u e) (hne : u ≠ [])
    (huv : old.toList ++ gaps = u ++ v) (hv : v ≠ []) (spent : Nat) :
    (renameCall old new).regex.run ⟨some budget, bound, origin⟩ Goal.here e [] spent =
    .failed spent := by
  refine run_renameCall_inside hold ?_ spent
  obtain ⟨more, rfl, hmore⟩ | ⟨more, hmore, rfl⟩ := List.append_eq_append_iff.mp huv
  · -- The position is in front of a gap.
    obtain ⟨x, v, rfl⟩ := List.exists_cons_of_ne_nil hv
    have htext : c.after = (old.toList ++ more) ++ (x :: v ++ rest) := by
      rw [hafter, hmore]
      simp
    rw [List.append_cancel_left (hu.after.symm.trans htext)]
    exact .inr (hgaps x (by rw [hmore]; simp))
  · -- The position is inside of the name.
    have hrun : IsRun u :=
      ⟨hne, fun x hx => hold.2 x (by rw [hmore]; exact List.mem_append_left _ hx)⟩
    rw [hu.before]
    exact .inl (hrun.reverse.head?_any c.before)

/-- A search for a renaming takes no more than two steps back for each character. -/
theorem exists_findFrom_renameCall (hold : IsRun old.toList) {budget bound : Nat}
    {origin : Option Nat} {c : Cursor} {spent : Nat} (hbudget : spent + 2 * c.after.length < budget)
    (fuel : Nat) :
    ∃ o, findFrom (some budget)
      ((renameCall old new).regex.run ⟨some budget, bound, origin⟩ Goal.here) fuel c spent =
      .ok o := by
  induction hn : c.after.length using Nat.strong_induction_on generalizing c spent fuel with
  | _ n ih =>
  subst hn
  cases fuel with
  | zero => exact ⟨none, rfl⟩
  | succ fuel =>
    obtain hfails | ⟨rest, hbefore, hafter, hwithin⟩ :=
      run_renameCall hold new budget bound origin c spent
    · rw [findFrom, hfails]
      have hroom : ¬ budget ≤ spent := by omega
      simp only [Option.any_some, decide_eq_true_eq, hroom, ↓reduceIte]
      cases hnext : c.next? with
      | none => exact ⟨none, rfl⟩
      | some move =>
        have hlen := congrArg List.length (Cursor.leads_of_next? hnext).after
        simp only [List.length_append, List.length_cons, List.length_nil] at hlen
        exact ih move.2.after.length (by omega) (by omega) fuel rfl
    · -- The search fails to match at the name and goes on behind the gaps that follow the name.
      obtain ⟨x, old', hx⟩ := List.exists_cons_of_ne_nil hold.1
      obtain ⟨gaps, hgaps⟩ : ∃ gaps, rest.takeWhile isGap = gaps := ⟨_, rfl⟩
      rw [hgaps] at hwithin
      have hgap : ∀ y ∈ gaps, isGap y = true := fun y hy => List.mem_takeWhile_imp (hgaps ▸ hy)
      have hrest : c.after = old.toList ++ (gaps ++ rest.dropWhile isGap) := by
        rw [hafter, ← hgaps, List.takeWhile_append_dropWhile]
      have hsplit : c.after = [x] ++ ((old' ++ gaps) ++ rest.dropWhile isGap) := by
        rw [hrest, hx]
        simp
      obtain ⟨next, hfirst, hnextAfter⟩ := Cursor.exists_leads hsplit
      obtain ⟨d, hskipped, hd⟩ := Cursor.exists_leads hnextAfter
      have hlen : c.after.length = 1 + (old' ++ gaps).length + d.after.length := by
        rw [hsplit, hd]
        simp only [List.length_append, List.length_singleton]
        omega
      have hcount : gaps.length ≤ (old' ++ gaps).length := by
        rw [List.length_append]
        exact Nat.le_add_left _ _
      have hv := hwithin (by omega)
      rw [findFrom]
      generalize (renameCall old new).regex.run ⟨some budget, bound, origin⟩ Goal.here c [] spent =
        v at hv
      cases v with
      | exhausted => exact hv.elim
      | found stop caps total => exact ⟨_, rfl⟩
      | failed total =>
        have htotal : total ≤ spent + gaps.length + 1 := hv
        have hroom : ¬ budget ≤ total := by omega
        simp only [Option.any_some, decide_eq_true_eq, hroom, ↓reduceIte, hfirst.next?]
        refine exists_findFrom_of_leads hskipped (by omega) (fun u v e s hw hne hu => ?_)
          (fun fuel => ih d.after.length (by omega) (by omega) fuel rfl) fuel
        have huv : old.toList ++ gaps = (x :: u) ++ v := by
          rw [hx, List.cons_append, List.cons_append, hw]
        exact run_renameCall_behind hold hgap hrest (hfirst.trans hu)
          (List.cons_ne_nil _ _) huv hne s

theorem exists_apply_renameCall (hregular : (renameCall old new).Regular) (hold : IsRun old.toList)
    {text : List Char} (h : 2 * text.length < Pattern.defaultBudget) :
    ∃ o, (renameCall old new).apply text = .ok o := by
  refine hregular.exists_apply_of_findFrom fun origin c hc => ?_
  have hlimit : (renameCall old new).limit = some Pattern.defaultBudget := rfl
  rw [hlimit]
  exact exists_findFrom_renameCall hold (by omega) _

/-! ### The pass of a renaming -/

/-- Where a match of a renaming starts. -/
theorem exists_gaps_of_attempt (hregular : (renameCall old new).Regular) (hold : IsRun old.toList)
    {bound : Nat} {c d : Cursor} {caps : Captures}
    (ha : (renameCall old new).attempt bound c = some (d, caps)) :
    c.before.head?.any isWord = false ∧ ∃ gaps, (∀ x ∈ gaps, isGap x = true) ∧
      c.after = old.toList ++ (gaps ++ '(' :: d.after) := by
  obtain ⟨gaps, hgaps, hl, -⟩ := leads_of_attempt_renameCall hregular ha
  have hafter : c.after = old.toList ++ (gaps ++ '(' :: d.after) := by
    rw [hl.after]
    simp
  refine ⟨?_, gaps, hgaps, hafter⟩
  have hright := hold.head?_any (gaps ++ '(' :: d.after)
  rw [← hafter] at hright
  simpa [Anchor.holds, hright] using wordEdge_of_attempt_renameCall ha

/-- Where the old name stands as a word and opens a call, it is replaced. -/
theorem exists_attempt_renameCall (hregular : (renameCall old new).Regular)
    (hold : IsRun old.toList) {bound : Nat} {c : Cursor}
    (hbefore : c.before.head?.any isWord = false) {gaps rest : List Char}
    (hgaps : ∀ x ∈ gaps, isGap x = true) (hafter : c.after = old.toList ++ (gaps ++ '(' :: rest))
    (hroom : c.after.length ≤ bound) :
    ∃ d caps, (renameCall old new).attempt bound c = some (d, caps) ∧
    c.Leads (old.toList ++ (gaps ++ ['('])) d ∧
      d.after = rest ∧ (renameCall old new).template.fill caps.textOf = new.toList ++
      (gaps ++ ['(']) := by
  obtain ⟨e, hname, he⟩ := Cursor.exists_leads hafter
  have hcall : e.after = (gaps ++ ['(']) ++ rest := by simpa using he
  obtain ⟨d, hcalled, -⟩ := Cursor.exists_leads hcall
  have hway :
      (d, [("call", ⟨e, d⟩)]) ∈ (renameCall old new).regex.ways ⟨none, bound, none⟩ c [] := by
    have hfirst : (c, []) ∈ wordEdge.ways ⟨none, bound, none⟩ c [] := by
      have hright := hold.head?_any (gaps ++ '(' :: rest)
      rw [← hafter] at hright
      simp [wordEdge, ways, Way.provided, Anchor.holds, hbefore, hright]
    have hsecond : (e, []) ∈ (literal old).ways ⟨none, bound, none⟩ c [] :=
      mem_ways_of_spells (isText_literal old) (ρ := .of fun _ => none)
        (spells_literal.mpr rfl) [] hname hroom
    have hthird : (e, []) ∈ wordEdge.ways ⟨none, bound, none⟩ e [] := by
      have hleft : e.before.head?.any isWord = true := by
        rw [hname.before]
        exact hold.reverse.head?_any c.before
      have hright : e.after.head?.any isWord = false := by
        rw [he]
        exact head?_any_gaps hgaps rest
      simp [wordEdge, ways, Way.provided, Anchor.holds, hleft, hright]
    have hspells : (many gap ++ char '(').Spells (.of fun _ => none) (gaps ++ ['(']) := by
      refine ⟨gaps, ['('], rfl, (spells_repeated_one rfl).mpr ⟨Nat.zero_le _, fun x hx => ?_⟩, rfl⟩
      simpa [CharClass.contains, ClassItem.contains, isGap] using hgaps x hx
    have hlast : (d, []) ∈ (many gap ++ char '(').ways ⟨none, bound, none⟩ e [] :=
      mem_ways_of_spells rfl hspells [] hcalled (hname.length_le.trans hroom)
    exact List.mem_flatMap.mpr
      ⟨_, List.mem_flatMap.mpr ⟨_, List.mem_flatMap.mpr ⟨_, hfirst, hsecond⟩, hthird⟩,
      List.mem_map.mpr ⟨_, hlast, rfl⟩⟩
  cases ha : (renameCall old new).attempt bound c with
  | none =>
    rw [List.head?_eq_none_iff.mp ha] at hway
    simp at hway
  | some way =>
    obtain ⟨d', caps⟩ := way
    obtain ⟨gaps', hgaps', hl, hfill⟩ := leads_of_attempt_renameCall hregular ha
    -- A text has only one way to go on with gaps and a parenthesis.
    have hsame : gaps' ++ '(' :: d'.after = gaps ++ '(' :: rest := by
      have htext := hl.after
      rw [hafter, List.append_assoc] at htext
      simpa using (List.append_cancel_left htext).symm
    obtain ⟨rfl, -, hrest⟩ :=
      append_cons_inj (p := fun x => !isGap x) (fun x hx => by simp [hgaps' x hx])
      (fun x hx => by simp [hgaps x hx]) rfl rfl hsame
    exact ⟨d', caps, rfl, hl, hrest, hfill⟩

/-- No match starts inside of a piece, unless it is the old name and opens a call. -/
theorem skips_renameCall (hregular : (renameCall old new).Regular) (hold : IsRun old.toList)
    {bound : Nat} {p : List Char} {ps : List (List Char)} (hcut : IsCut (p :: ps))
    (hmiss : ¬ (p = old.toList ∧ opensCall ps = true)) {c d : Cursor} (hl : c.Leads p d)
    (hd : d.after = ps.flatten) : (renameCall old new).regex.Skips bound c p d := by
  refine .of_attempts hl fun u v e hp hv hu => Option.eq_none_iff_forall_ne_some.mpr ?_
  rintro ⟨f, caps⟩ ha
  obtain ⟨hbefore, gaps, hgaps, htext⟩ := exists_gaps_of_attempt hregular hold ha
  have hrest : e.after = v ++ ps.flatten := by
    have hboth := hu.after
    rw [hl.after, hd, hp, List.append_assoc] at hboth
    exact (List.append_cancel_left hboth).symm
  have hrun : IsRun p := by
    obtain ⟨x, v, rfl⟩ := List.exists_cons_of_ne_nil hv
    have hx : isWord x = true := by
      have hhead := hold.head?_any (gaps ++ '(' :: f.after)
      rw [← htext, hrest] at hhead
      exact hhead
    exact hcut.isRun_of_mem List.mem_cons_self (by rw [hp]; simp) hx
  -- No word character stands in front of a match, so it starts where the piece does.
  obtain rfl : u = [] := by
    by_contra hne
    have hfront : IsRun u := ⟨hne, fun y hy => hrun.2 y (hp ▸ List.mem_append_left v hy)⟩
    rw [hu.before, hfront.reverse.head?_any] at hbefore
    contradiction
  rw [List.nil_append] at hp
  rw [hrest, ← hp] at htext
  have hname : p = old.toList := by
    rw [← hrun.takeWhile_append (hcut.head?_flatten hrun), htext,
      hold.takeWhile_append (head?_any_gaps hgaps _)]
  rw [hname] at htext
  exact hmiss ⟨hname, opensCall_of_flatten hcut.tail hgaps (List.append_cancel_left htext)⟩

/-- What is written where the old name opens a call. -/
theorem flatten_renamePieces_hit (hold : IsRun old.toList) {gaps : List Char}
    (hgaps : ∀ x ∈ gaps, isGap x = true) {rest : List (List Char)}
    (hopens : opensCall ((gaps ++ ['(']).map ([·]) ++ rest) = true) :
    (renamePieces [(old.toList, new.toList)]
      (old.toList :: ((gaps ++ ['(']).map ([·]) ++ rest))).flatten =
      new.toList ++ (gaps ++ ['(']) ++ (renamePieces [(old.toList, new.toList)] rest).flatten := by
  have hothers : ∀ x ∈ gaps ++ ['('], isWord x = false := by
    rw [List.forall_mem_append, List.forall_mem_singleton]
    exact ⟨fun x hx => isWord_of_isGap (hgaps x hx), by decide⟩
  rw [renamePieces, hopens, renamePieces_append (by simpa using hold) hothers]
  simp [newName]

/-- **A renaming at work.**  A pass renames the pieces that are the old name and open a call. -/
theorem pass_renameCall (hregular : (renameCall old new).Regular) (hold : IsRun old.toList)
    {bound : Nat} {ps : List (List Char)} (hcut : IsCut ps) {c : Cursor}
    (hafter : c.after = ps.flatten)
    (hedge : c.before.head?.any isWord = false ∨ c.after.head?.any isWord = false)
    (hroom : c.after.length ≤ bound) :
    ∃ hits, (renameCall old new).Pass bound c hits
      (renamePieces [(old.toList, new.toList)] ps).flatten := by
  induction hn : ps.length using Nat.strong_induction_on generalizing ps c with
  | _ n ih =>
  subst hn
  cases ps with
  | nil =>
    refine ⟨[], .done hafter (Option.eq_none_iff_forall_ne_some.mpr ?_)⟩
    rintro ⟨d, caps⟩ ha
    obtain ⟨-, gaps, -, htext⟩ := exists_gaps_of_attempt hregular hold ha
    rw [hafter] at htext
    simp at htext
  | cons p ps =>
    rw [List.flatten_cons] at hafter
    by_cases hhit : p = old.toList ∧ opensCall ps = true
    · obtain ⟨rfl, hopens⟩ := hhit
      obtain ⟨gaps, rest, hgaps, rfl⟩ := exists_gaps_of_opensCall hopens
      have htext : c.after = old.toList ++ (gaps ++ '(' :: rest.flatten) := by
        rw [hafter]
        simp
      have hbefore : c.before.head?.any isWord = false := by
        refine hedge.resolve_right fun hright => ?_
        rw [htext, hold.head?_any] at hright
        contradiction
      obtain ⟨d, caps, ha, hl, hd, hfill⟩ :=
        exists_attempt_renameCall hregular hold hbefore hgaps htext hroom
      have hnext : d.before.head?.any isWord = false := by
        rw [hl.before, List.reverse_append, List.reverse_append]
        rfl
      obtain ⟨hits, hpass⟩ := ih rest.length (by simp; omega) (hcut.tail.of_append) hd (.inl hnext)
        (hl.length_le.trans hroom) rfl
      rw [flatten_renamePieces_hit hold hgaps hopens, ← hfill]
      exact ⟨⟨c, d, caps⟩ :: hits, .hit ha hpass⟩
    · obtain ⟨d, hl, hd⟩ := Cursor.exists_leads hafter
      have hnext : d.before.head?.any isWord = false ∨ d.after.head?.any isWord = false := by
        obtain hp | ⟨x, hx, rfl⟩ := hcut.piece p List.mem_cons_self
        · exact .inr (hd ▸ hcut.head?_flatten hp)
        · refine .inl ?_
          rw [hl.before]
          exact hx
      obtain ⟨hits, hpass⟩ :=
        ih ps.length (by simp) hcut.tail hd hnext (hl.length_le.trans hroom) rfl
      have hmiss : opensCall ps = true → [(old.toList, new.toList)].lookup p = none := by
        intro hopens
        have hne : (p == old.toList) = false := beq_false_of_ne fun heq => hhit ⟨heq, hopens⟩
        rw [List.lookup_cons, hne]
        rfl
      rw [renamePieces_cons_of_miss hmiss, List.flatten_cons]
      exact ⟨hits, .of_skips (skips_renameCall hregular hold hcut hhit hl hd) hpass⟩

/-- What a renaming leaves of a text. -/
theorem getD_renameCall (hregular : (renameCall old new).Regular) (hold : IsRun old.toList)
    {text : List Char} {o : Option (List Char)} (h : (renameCall old new).apply text = .ok o) :
    o.getD text = rename [(old.toList, new.toList)] text := by
  obtain ⟨hits, hpass⟩ :=
    pass_renameCall hregular hold (isCut_pieces text) (c := Cursor.ofText text)
    (flatten_pieces text).symm (.inl rfl) le_rfl
  exact hregular.getD_of_pass hpass h

end RenameCall

/-! ### The rules -/

/-- The names of the functions that allocate an object. -/
def objectNames : List (String × String) :=
  [("PyObject_NEW", "PyObject_New"), ("PyObject_NEW_VAR", "PyObject_NewVar")]

/-- The names of the functions of a family. -/
def memberNames (family : String) : List (String × String) :=
  familyNames.map fun (old, new) => (family ++ "_" ++ old, family ++ "_" ++ new)

/-- The rules that rename functions, each with the old and the new names. -/
def allocators : List (Rule × List (String × String)) :=
  [(objectNew, objectNames), (memoryFamily, memberNames "PyMem"),
    (objectFamily, memberNames "PyObject")]

/-- All old names, with the new ones. -/
def allocatorNames : List (String × String) := allocators.flatMap Prod.snd

/-- Names as texts. -/
def tableOf (names : List (String × String)) : List (List Char × List Char) :=
  names.map fun (old, new) => (old.toList, new.toList)

theorem renameFamily_eq (family : String) :
    renameFamily family = (memberNames family).map fun names => renameCall names.1 names.2 := by
  rw [renameFamily, memberNames, List.map_map]
  rfl

theorem patterns_eq_of_mem {e : Rule × List (String × String)} (h : e ∈ allocators) :
    e.1.patterns = e.2.map fun names => renameCall names.1 names.2 := by
  simp only [allocators, List.mem_cons, List.not_mem_nil, or_false] at h
  obtain rfl | rfl | rfl := h
  · rfl
  · exact renameFamily_eq "PyMem"
  · exact renameFamily_eq "PyObject"

theorem regular_of_mem {names : String × String} (h : names ∈ allocatorNames) :
    (renameCall names.1 names.2).Regular := by
  obtain ⟨e, he, hnames⟩ := List.mem_flatMap.mp h
  have hrule : e.1 ∈ rules := by
    simp only [allocators, List.mem_cons, List.not_mem_nil, or_false] at he
    obtain rfl | rfl | rfl := he <;> simp [rules]
  refine regular hrule ?_
  rw [patterns_eq_of_mem he]
  exact List.mem_map.mpr ⟨names, hnames, rfl⟩

section Names

variable {names : List (String × String)}

theorem isRun_of_subset (h : names ⊆ allocatorNames) : AreNames (tableOf names) := by
  have hall : AreNames (tableOf allocatorNames) := by decide +kernel
  exact fun e he => hall e (List.map_subset _ h he)

theorem isRun_of_mem {e : String × String} (h : e ∈ allocatorNames) : IsRun e.1.toList :=
  (isRun_of_subset (List.Subset.refl _) _ (List.mem_map.mpr ⟨e, h, rfl⟩)).1

/-- No new name is an old name, of whichever rule. -/
theorem apart_of_subset {names' : List (String × String)} (h : names ⊆ allocatorNames)
    (h' : names' ⊆ allocatorNames) :
    ∀ e ∈ tableOf names, ∀ e' ∈ tableOf names', e'.1 ≠ e.2 := by
  have hall : ∀ e ∈ tableOf allocatorNames, ∀ e' ∈ tableOf allocatorNames, e'.1 ≠ e.2 := by
    decide +kernel
  exact fun e he e' he' => hall e (List.map_subset _ h he) e' (List.map_subset _ h' he')

theorem length_le_of_subset (h : names ⊆ allocatorNames) :
    ∀ e ∈ tableOf names, e.2.length ≤ 2 * e.1.length := by
  have hall : ∀ e ∈ tableOf allocatorNames, e.2.length ≤ 2 * e.1.length := by decide +kernel
  exact fun e he => hall e (List.map_subset _ h he)

/-- No name has two new names. -/
theorem rename_congr_of_subset {names' : List (String × String)} (h : names ⊆ allocatorNames)
    (hsame : ∀ e, e ∈ names ↔ e ∈ names') (text : List Char) :
    rename (tableOf names) text = rename (tableOf names') text := by
  have hall : ∀ e ∈ tableOf allocatorNames, ∀ e' ∈ tableOf allocatorNames, e.1 = e'.1 →
      e.2 = e'.2 := by
    decide +kernel
  refine rename_congr (fun e => ?_) (fun e he e' he' => ?_) text
  · simp only [tableOf, List.mem_map, hsame]
  · exact hall e (List.map_subset _ h he) e' (List.map_subset _ h he')

/-- Renamings one after another rename once, by the table of all their names. -/
theorem eq_rename_of_applyAll (h : names ⊆ allocatorNames) {text out : List Char}
    (hout : Pattern.applyAll (names.map fun e => renameCall e.1 e.2) text = .ok out) :
    out = rename (tableOf names) text := by
  induction names generalizing text with
  | nil =>
    rw [tableOf, List.map_nil, rename_nil]
    exact (Except.ok.inj hout).symm
  | cons e names ih =>
    obtain ⟨he, hnames⟩ := List.cons_subset.mp h
    have hfirst : [e] ⊆ allocatorNames := by simpa using he
    obtain ⟨o, ho, hrest⟩ := Pattern.applyAll_cons_eq_ok.mp hout
    rw [getD_renameCall (regular_of_mem he) (isRun_of_mem he) ho] at hrest
    rw [ih hnames hrest]
    exact rename_rename (isRun_of_subset hfirst) (apart_of_subset hfirst hnames) text

/-- Renamings one after another can all be applied to a text that is not too long. -/
theorem exists_applyAll_renameCalls (front : List (String × String))
    (h : front ++ names ⊆ allocatorNames) {text : List Char}
    (hroom : 4 * text.length < Pattern.defaultBudget) :
    ∃ out, Pattern.applyAll (names.map fun e => renameCall e.1 e.2) (rename (tableOf front) text) =
    .ok out := by
  induction names generalizing front with
  | nil => exact ⟨_, rfl⟩
  | cons e names ih =>
    obtain ⟨hfront, hback⟩ := List.append_subset.mp h
    have he := (List.cons_subset.mp hback).1
    have hfirst : [e] ⊆ allocatorNames := by simpa using he
    have hold := isRun_of_mem he
    -- The text in between is a renaming of the first one, so it is at most twice as long.
    have hlength := length_rename_le (length_le_of_subset hfront) text
    obtain ⟨o, ho⟩ := exists_apply_renameCall (regular_of_mem he) hold
      (show 2 * (rename (tableOf front) text).length < _ by omega)
    obtain ⟨out, hout⟩ := ih (front ++ [e]) (by simpa using h)
    refine ⟨out, Pattern.applyAll_cons_eq_ok.mpr ⟨o, ho, ?_⟩⟩
    rw [getD_renameCall (regular_of_mem he) hold ho]
    have hboth : tableOf (front ++ [e]) = tableOf front ++ tableOf [e] := List.map_append
    rw [hboth, ← rename_rename (isRun_of_subset hfront) (apart_of_subset hfront hfirst)] at hout
    exact hout

end Names

/-- Rules applied one after another. -/
def applyInTurn (order : List (Rule × List (String × String))) (text : List Char) :
    Except PatternError (List Char) :=
  order.foldlM (fun text e => e.1.apply text) text

/-- An application leaves nothing but the given text, and it does not fail unless the text that it
is applied to has more than some hundred million characters. -/
def Gives (apply : List Char → Except PatternError (List Char)) (text out : List Char) : Prop :=
  (∀ o, apply text = .ok o → o = out) ∧
  (4 * text.length < Pattern.defaultBudget → apply text = .ok out)

theorem applyInTurn_eq {order : List (Rule × List (String × String))} (h : order ⊆ allocators)
    (text : List Char) : applyInTurn order text =
      Pattern.applyAll ((order.flatMap Prod.snd).map fun e => renameCall e.1 e.2) text := by
  induction order generalizing text with
  | nil => rfl
  | cons e order ih =>
    obtain ⟨he, horder⟩ := List.cons_subset.mp h
    have hrest : ∀ text, order.foldlM (fun text e => e.1.apply text) text =
        Pattern.applyAll ((order.flatMap Prod.snd).map fun e => renameCall e.1 e.2) text :=
          ih horder
    rw [applyInTurn, List.foldlM_cons, List.flatMap_cons, List.map_append, Pattern.applyAll,
      List.foldlM_append, ← patterns_eq_of_mem he]
    simp only [hrest]
    rfl

theorem flatMap_subset_allocatorNames {order : List (Rule × List (String × String))}
    (h : order ⊆ allocators) : order.flatMap Prod.snd ⊆ allocatorNames := by
  intro names hnames
  obtain ⟨e, he, hmem⟩ := List.mem_flatMap.mp hnames
  exact List.mem_flatMap.mpr ⟨e, h he, hmem⟩

/-- Rules applied in turn rename by the names of all of them. -/
theorem gives_applyInTurn {order : List (Rule × List (String × String))} (h : order ⊆ allocators)
    (text : List Char) :
    Gives (applyInTurn order) text (rename (tableOf (order.flatMap Prod.snd)) text) := by
  have hnames := flatMap_subset_allocatorNames h
  constructor
  · intro o ho
    rw [applyInTurn_eq h] at ho
    exact eq_rename_of_applyAll hnames ho
  · intro hroom
    obtain ⟨out, hout⟩ := exists_applyAll_renameCalls [] (by simpa using hnames) hroom
    have hstart : rename (tableOf []) text = text := rename_nil text
    rw [hstart] at hout
    rw [applyInTurn_eq h, hout, eq_rename_of_applyAll hnames hout]

end Catalog

open Catalog in
/-- **The allocator rules are a renaming of functions.**  Whatever the text,

* each rule renames the calls of its functions, and changes nothing else;
* to apply a rule a second time changes nothing more;
* several rules, in any order, rename the calls of the functions of all of them;
* behind all three of them, no old name opens a call. -/
theorem allocators_rename (text : List Char) :
    (∀ e ∈ allocators, Gives e.1.apply text (rename (tableOf e.2) text)) ∧
    (∀ e ∈ allocators, Gives (applyInTurn [e, e]) text (rename (tableOf e.2) text)) ∧
    (∀ order order', order ⊆ allocators → order.Perm order' →
      Gives (applyInTurn order') text (rename (tableOf (order.flatMap Prod.snd)) text)) ∧
    ∀ order, allocators.Perm order → ∀ out, applyInTurn order text = .ok out →
      ∀ names ∈ allocatorNames, ∀ front back, pieces out = front ++ names.1.toList :: back →
        opensCall back = false := by
  have hperm : ∀ order order', order ⊆ allocators → order.Perm order' →
      Gives (applyInTurn order') text (rename (tableOf (order.flatMap Prod.snd)) text) := by
    intro order order' horder hperm
    rw [rename_congr_of_subset (flatMap_subset_allocatorNames horder)
      fun names => (hperm.flatMap_right Prod.snd).mem_iff]
    exact gives_applyInTurn (fun e he => horder (hperm.mem_iff.mpr he)) text
  refine ⟨fun e he => ?_, fun e he => ?_, hperm, ?_⟩
  · have hone := gives_applyInTurn (List.cons_subset.mpr ⟨he, List.nil_subset _⟩) text
    have happly : applyInTurn [e] = e.1.apply := by
      funext text
      simp [applyInTurn]
    rwa [happly, List.flatMap_singleton] at hone
  · have htwice : [e, e] ⊆ allocators := by simpa using he
    have hsame : ∀ names, names ∈ [e, e].flatMap Prod.snd ↔ names ∈ e.2 := by simp
    rw [← rename_congr_of_subset (flatMap_subset_allocatorNames htwice) hsame]
    exact gives_applyInTurn htwice text
  · intro order horder out hout names hnames front back hpieces
    have hall : out = rename (tableOf allocatorNames) text :=
      (hperm allocators order (List.Subset.refl _) horder).1 out hout
    rw [hall, pieces_rename (isRun_of_subset (List.Subset.refl _))] at hpieces
    rw [Bool.eq_false_iff]
    intro hopens
    refine not_listed_of_renamePieces (isRun_of_subset (List.Subset.refl _))
      (apart_of_subset (List.Subset.refl _) (List.Subset.refl _)) hpieces hopens
      (names.1.toList, names.2.toList) ?_ rfl
    exact List.mem_map.mpr ⟨names, hnames, rfl⟩

open Catalog in
/-- Two of the rules in the other order: names of functions are not renamed unless they are
called. -/
theorem allocators_rename_nested :
    applyInTurn [(memoryFamily, memberNames "PyMem"), (objectNew, objectNames)]
        "PyMem_DEL (PyObject_NEW_VAR\t(t), PyMem_DEL, MyPyMem_Del(p))".toList =
      .ok "PyMem_Free (PyObject_NewVar\t(t), PyMem_DEL, MyPyMem_Del(p))".toList := by
  have horder : [(objectNew, objectNames), (memoryFamily, memberNames "PyMem")] ⊆ allocators := by
    simp [allocators]
  have hgives :=
    (allocators_rename "PyMem_DEL (PyObject_NEW_VAR\t(t), PyMem_DEL, MyPyMem_Del(p))".toList).2.2.1
    _ _ horder (.swap _ _ [])
  have hout : rename (tableOf (objectNames ++ memberNames "PyMem"))
      "PyMem_DEL (PyObject_NEW_VAR\t(t), PyMem_DEL, MyPyMem_Del(p))".toList =
      "PyMem_Free (PyObject_NewVar\t(t), PyMem_DEL, MyPyMem_Del(p))".toList := by decide +kernel
  rw [← hout]
  simpa using hgives.2 (by decide +kernel)

end CApiUpgrade
