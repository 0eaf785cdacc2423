import CApiUpgrade.Proofs.Budget
import CApiUpgrade.Proofs.Spelled

/-!
# Counting steps back

Where the next character settles every choice, a run goes straight to its goal: it takes a step back
only to leave a repetition or to turn to a second alternative.  `Regex.Passes` counts these steps
for an expression and a piece of text, whatever comes behind.  The count of a repetition is in
proportion to the text that it takes (`Regex.Passes.many`).

The runs that are counted have no limit.  A limit that allows the count changes nothing
(`Regex.Passes.found`), so a search needs a budget in proportion to the text.
-/

namespace CApiUpgrade

namespace Goal

variable {goal : Goal} {c : Cursor} {m n : Nat}

/-- From a position on, the goal is reached with at most `n` further steps back. -/
def Ends (goal : Goal) (c : Cursor) (n : Nat) : Prop :=
  ∀ caps spent, ∃ stop caps' total, goal c caps spent = .found stop caps' total ∧ total ≤ spent + n

/-- From a position on, the goal is given up after at most `n` further steps back. -/
def GivesUp (goal : Goal) (c : Cursor) (n : Nat) : Prop :=
  ∀ caps spent, ∃ total, goal c caps spent = .failed total ∧ total ≤ spent + n

theorem Ends.mono (h : goal.Ends c m) (hmn : m ≤ n) : goal.Ends c n := by
  intro caps spent
  obtain ⟨stop, caps', total, heq, hle⟩ := h caps spent
  exact ⟨stop, caps', total, heq, by omega⟩

theorem ends_here (c : Cursor) : Goal.here.Ends c 0 :=
  fun caps spent => ⟨c, caps, spent, rfl, le_rfl⟩

/-- A goal that is reached is not left for another one. -/
theorem Ends.orElse {other : Goal} (h : goal.Ends c n) :
    Goal.Ends (fun c caps spent => (goal c caps spent).orElse none (other c caps)) c n := by
  intro caps spent
  obtain ⟨stop, caps', total, heq, hle⟩ := h caps spent
  exact ⟨stop, caps', total, by simp only [heq, Verdict.orElse_found], hle⟩

/-- Where a goal is given up, one more step back leads to another one. -/
theorem GivesUp.orElse {other : Goal} (h : goal.GivesUp c m) (ho : other.Ends c n) :
    Goal.Ends (fun c caps spent => (goal c caps spent).orElse none (other c caps)) c
      (m + 1 + n) := by
  intro caps spent
  obtain ⟨total, heq, hle⟩ := h caps spent
  obtain ⟨stop, caps', later, heq', hle'⟩ := ho caps (total + 1)
  refine ⟨stop, caps', later, ?_, by omega⟩
  dsimp only
  rw [heq, Verdict.orElse_failed_none, heq']

end Goal

namespace Regex

variable {bound : Nat} {origin : Option Nat} {r a b body : Regex} {c d e : Cursor} {m n rate : Nat}

/-- A run through an expression gets from one position to another with at most `n` steps back, if
its goal can be reached from there. -/
def Passes (bound : Nat) (origin : Option Nat) (r : Regex) (c d : Cursor) (n : Nat) : Prop :=
  ∀ (goal : Goal) (m : Nat), goal.Ends d m → (r.run ⟨none, bound, origin⟩ goal).Ends c (n + m)

/-- A run into an expression is given up after at most `n` steps back. -/
def Refuses (bound : Nat) (origin : Option Nat) (r : Regex) (c : Cursor) (n : Nat) : Prop :=
  ∀ goal, (r.run ⟨none, bound, origin⟩ goal).GivesUp c n

theorem run_of_takes? {p : Char → Bool} (h : r.takes? = some p) (terms : Terms) (goal : Goal) :
    r.run terms goal = goal.step p := by
  cases r <;> simp only [takes?, Option.some.injEq, reduceCtorEq] at h <;> rw [← h, run]

theorem passes_of_takes? {p : Char → Bool} (h : r.takes? = some p) {x : Char} (hx : p x = true)
    (hl : c.Leads [x] d) : Passes bound origin r c d 0 := by
  intro goal m hgoal caps spent
  obtain ⟨stop, caps', total, heq, hle⟩ := hgoal caps spent
  refine ⟨stop, caps', total, ?_, by omega⟩
  rw [run_of_takes? h, Goal.step, hl.next?]
  simp only [hx, ↓reduceIte, heq]

theorem refuses_of_takes? {p : Char → Bool} (h : r.takes? = some p)
    (hc : ∀ x ∈ c.after.head?, p x = false) : Refuses bound origin r c 0 := by
  intro goal caps spent
  refine ⟨spent, ?_, le_rfl⟩
  rw [run_of_takes? h, Goal.step]
  cases hnext : c.next? with
  | none => rfl
  | some move =>
    have hfirst := (Cursor.leads_of_next? hnext).after
    simp [hc move.1 (by simp [hfirst])]

theorem passes_anchor {anchored : Anchor} (h : anchored.holds c = true) :
    Passes bound origin (anchor anchored) c c 0 := by
  intro goal m hgoal caps spent
  obtain ⟨stop, caps', total, heq, hle⟩ := hgoal caps spent
  exact ⟨stop, caps', total, by simp [run, Goal.provided, h, heq], by omega⟩

theorem Passes.mono (h : Passes bound origin r c d m) (hmn : m ≤ n) : Passes bound origin r c d n :=
  fun goal m hgoal => (h goal m hgoal).mono (by omega)

theorem Passes.cat (ha : Passes bound origin a c e m) (hb : Passes bound origin b e d n) :
    Passes bound origin (cat a b) c d (m + n) :=
  fun goal m hgoal => (ha _ _ (hb goal m hgoal)).mono (by omega)

theorem Passes.alt_left (h : Passes bound origin a c d n) : Passes bound origin (alt a b) c d n :=
  fun goal m hgoal => (h goal m hgoal).orElse

theorem Passes.alt_right (ha : Refuses bound origin a c m) (hb : Passes bound origin b c d n) :
    Passes bound origin (alt a b) c d (m + 1 + n) :=
  fun goal m hgoal => ((ha _).orElse (hb goal m hgoal)).mono (by omega)

theorem Refuses.cat (h : Refuses bound origin a c n) : Refuses bound origin (cat a b) c n :=
  fun _ => h _

/-- A repetition that starts with a round goes on as if it had been asked for no round. -/
theorem Passes.many1 (h : Passes bound origin (Regex.cat body (many body)) c d n) :
    Passes bound origin (many1 body) c d n :=
  h

/-- **Repetitions.**  The rounds take one text after another, and after each round stands something
with which the next one can start.  Behind the last of them no further round is possible. -/
theorem Passes.many {F : Cursor → Prop} {ws : List (List Char)} (hne : [] ∉ ws)
    (hstarts : ∀ u ∈ ws, ∀ {c d}, c.Leads u d → F c)
    (hbody : ∀ u ∈ ws, ∀ {c d}, c.Leads u d → F d → c.after.length ≤ bound →
      Passes bound origin body c d (rate * u.length))
    (hend : Refuses bound origin body d n) (hF : F d) (hl : c.Leads ws.flatten d)
    (hroom : c.after.length ≤ bound) :
    Passes bound origin (many body) c d (rate * ws.flatten.length + (n + 1)) := by
  intro goal m hgoal
  suffices hrounds : ∀ fuel, ws.length < fuel →
      (Goal.rounds none (body.run ⟨none, bound, origin⟩) true true goal fuel).Ends c
        (rate * ws.flatten.length + (n + 1) + m) by
    have hlen := congrArg List.length hl.after
    have hcount := length_le_of_nil_notMem hne
    rw [List.length_append] at hlen
    exact hrounds (bound + 1) (by omega)
  intro fuel hfuel
  induction ws generalizing c fuel with
  | nil =>
    obtain ⟨fuel, rfl⟩ := Nat.exists_eq_succ_of_ne_zero (Nat.ne_of_gt hfuel)
    obtain rfl := hl.eq_of_nil
    exact ((hend _).orElse hgoal).mono (by omega)
  | cons u ws ih =>
    obtain ⟨fuel, rfl⟩ := Nat.exists_eq_succ_of_ne_zero (Nat.ne_of_gt (Nat.zero_lt_of_lt hfuel))
    rw [List.mem_cons, not_or] at hne
    obtain ⟨e, hu, hrest⟩ := hl.split
    have hFe : F e := by
      cases ws with
      | nil => exact hrest.eq_of_nil ▸ hF
      | cons v ws =>
        obtain ⟨f, hv, -⟩ := hrest.split
        exact hstarts v (by simp) hv
    have hmore := ih hne.2 (fun v hv => hstarts v (List.mem_cons_of_mem _ hv))
      (fun v hv => hbody v (List.mem_cons_of_mem _ hv)) hrest (hu.length_le.trans hroom) fuel
      (Nat.lt_of_succ_lt_succ hfuel)
    -- A round has taken a character, so the repetition goes on behind it.
    have hmoved : (e.offset == c.offset) = false := by
      have hpos : 0 < u.length := List.length_pos_iff.mpr (Ne.symm hne.1)
      have hoffset := hu.offset
      exact beq_false_of_ne (by omega)
    have hround := hbody u List.mem_cons_self hu hFe hroom
      (fun cur caps spent => if true && cur.offset == c.offset then goal cur caps spent
        else Goal.rounds none (body.run ⟨none, bound, origin⟩) true true goal fuel cur caps spent) _
      (fun caps spent => by
        simpa only [hmoved, Bool.and_false, Bool.false_eq_true, ↓reduceIte] using hmore caps spent)
    refine hround.orElse.mono ?_
    rw [List.flatten_cons, List.length_append, Nat.mul_add]
    omega

/-- A repetition of one character takes all that it can take, and a step back leaves it. -/
theorem Passes.many_one {p : Char → Bool} (h : body.takes? = some p) {w : List Char}
    (hw : ∀ x ∈ w, p x = true) (hend : ∀ x ∈ d.after.head?, p x = false) (hl : c.Leads w d)
    (hroom : c.after.length ≤ bound) : Passes bound origin (Regex.many body) c d 1 := by
  have hflatten : (w.map ([·])).flatten = w := List.flatMap_singleton' w
  have hpasses : Passes bound origin (Regex.many body) c d
      (0 * (w.map ([·])).flatten.length + (0 + 1)) := by
    refine .many (F := fun _ => True) (by simp) (fun _ _ _ _ _ => trivial) (fun u hu => ?_)
      (refuses_of_takes? h hend)
      trivial (by rwa [hflatten]) hroom
    obtain ⟨x, hx, rfl⟩ := List.mem_map.mp hu
    intro c d hl _ _
    exact (passes_of_takes? h (hw x hx) hl).mono (Nat.zero_le _)
  exact hpasses.mono (by omega)

/-! ### Searches -/

/-- A search that gets through at its first position, with steps back that its limit allows, finds a
match there. -/
theorem Passes.found (h : Passes bound origin r c d n) {limit : Option Nat} (ha : Allows limit n)
    (fuel : Nat) :
    ∃ hit, findFrom limit (r.run ⟨limit, bound, origin⟩ Goal.here) (fuel + 1) c 0 = .ok (some hit) ∧
      (hit.stop, hit.captures) ∈ r.ways ⟨none, bound, origin⟩ c [] := by
  obtain ⟨stop, caps, total, heq, hle⟩ := h _ _ (Goal.ends_here d) [] 0
  have hpays := r.run_pays limit bound origin (Goal.Pays.here limit) c [] 0
  have hanswers := run_here_answers ⟨none, bound, origin⟩ r c [] 0
  rw [heq] at hpays hanswers
  refine ⟨.ofRun c stop caps, ?_, ?_⟩
  · cases hpays with
    | found _ hv => rw [findFrom, hv (ha.mono (by omega))]
  · generalize hfirst : (r.ways ⟨none, bound, origin⟩ c []).head? = first at hanswers
    cases hanswers
    exact List.mem_of_head? hfirst

/-- Where a run gets through an expression, there is a way to match. -/
theorem Passes.ways_ne_nil (h : Passes bound origin r c d n) :
    r.ways ⟨none, bound, origin⟩ c [] ≠ [] := by
  obtain ⟨hit, -, hmem⟩ := h.found (allows_none n) 0
  exact List.ne_nil_of_mem hmem

end Regex

end CApiUpgrade
