import CApiUpgrade.Proofs.Ways
import Mathlib.Data.List.Infix

/-!
# What an expression spells

A way to match uses up a text.  Which texts these can be is a question about the expression alone:
`Regex.Spells` answers it and forgets about positions, preferences and assertions.  What groups and
references contribute is left to a `Reading`.

* `Regex.Basic.spells_of_mem_ways`: whatever is known of all that a group can match holds of the
  captures along every way.
* `Regex.Basic.reads_of_mem_ways`: if no group can match twice, the text of a way is spelled under
  the reading in which every group stands for what it has captured at the end.

Only the constructs that the catalog uses are covered, the *basic* ones.
-/

namespace CApiUpgrade

/-! ### From one position to another -/

/-- The text `w` leads from the position `c` to the position `d`. -/
structure Cursor.Leads (c : Cursor) (w : List Char) (d : Cursor) : Prop where
  /-- The text is what stands on the right of `c` and no longer on the right of `d`. -/
  after : c.after = w ++ d.after
  /-- It stands on the left of `d` instead. -/
  before : d.before = w.reverse ++ c.before

namespace Cursor

theorem Leads.refl (c : Cursor) : c.Leads [] c := ⟨rfl, rfl⟩

theorem Leads.trans {c d e : Cursor} {u v : List Char} (h : c.Leads u d) (h' : d.Leads v e) :
    c.Leads (u ++ v) e := by
  constructor
  · rw [h.after, h'.after, List.append_assoc]
  · rw [h'.before, h.before, List.reverse_append, List.append_assoc]

theorem Leads.offset {c d : Cursor} {w : List Char} (h : c.Leads w d) :
    d.offset = c.offset + w.length := by
  rw [d.offset_eq, c.offset_eq, h.before, List.length_append, List.length_reverse, Nat.add_comm]

/-- The text between two positions is the text that leads from one to the other. -/
theorem Leads.upTo {c d : Cursor} {w : List Char} (h : c.Leads w d) : c.upTo d = w := by
  rw [Cursor.upTo, h.offset, h.after, Nat.add_sub_cancel_left, List.take_left]

theorem leads_of_next? {c d : Cursor} {x : Char} (h : c.next? = some (x, d)) : c.Leads [x] d := by
  unfold next? at h
  split at h
  · simp at h
  · rename_i y rest heq
    simp only [Option.some.injEq, Prod.mk.injEq] at h
    obtain ⟨rfl, rfl⟩ := h
    exact ⟨heq, rfl⟩

theorem next?_eq_none {c : Cursor} (h : c.next? = none) : c.after = [] := by
  unfold next? at h
  split at h
  · assumption
  · simp at h

theorem leads_of_skip? {c d : Cursor} {w : List Char} (h : c.skip? w = some d) : c.Leads w d := by
  induction w generalizing c with
  | nil =>
    simp only [skip?, Option.some.injEq] at h
    exact h ▸ Leads.refl c
  | cons x rest ih =>
    simp only [skip?] at h
    cases hn : c.next? with
    | none => simp [hn] at h
    | some move =>
      obtain ⟨y, e⟩ := move
      simp only [hn] at h
      split_ifs at h with hxy
      obtain rfl := beq_iff_eq.mp hxy
      exact (leads_of_next? hn).trans (ih h)

end Cursor

/-! ### Captures -/

namespace Captures

/-- Every capture is the text between its ends, and `P` holds of it. -/
def Hold (P : String → List Char → Prop) (caps : Captures) : Prop :=
  ∀ e ∈ caps, ∃ u, e.2.start.Leads u e.2.stop ∧ P e.1 u

/-- The text that a group has captured last. -/
def textOf (caps : Captures) (name : String) : Option (List Char) :=
  (caps.lookup name).map Span.text

theorem Hold.nil (P : String → List Char → Prop) : Hold P [] := by
  intro e he
  simp at he

theorem Hold.cons {P : String → List Char → Prop} {caps : Captures} {name : String}
    {c d : Cursor} {u : List Char} (h : caps.Hold P) (hl : c.Leads u d) (hP : P name u) :
    Hold P ((name, ⟨c, d⟩) :: caps) := by
  intro e he
  rcases List.mem_cons.mp he with rfl | he
  · exact ⟨u, hl, hP⟩
  · exact h e he

theorem Hold.of_lookup {P : String → List Char → Prop} {caps : Captures} (h : caps.Hold P)
    {name : String} {span : Span} (hs : caps.lookup name = some span) :
    ∃ u, span.start.Leads u span.stop ∧ span.text = u ∧ P name u := by
  have hmem : (name, span) ∈ caps := by
    obtain ⟨left, right, rfl, -⟩ := List.lookup_eq_some_iff.mp hs
    simp
  obtain ⟨u, hl, hP⟩ := h _ hmem
  exact ⟨u, hl, hl.upTo, hP⟩

/-- Captures under other names do not hide a capture. -/
theorem lookup_append_of_notMem {new caps : Captures} {name : String}
    (h : ∀ e ∈ new, e.1 ≠ name) : (new ++ caps).lookup name = caps.lookup name := by
  induction new with
  | nil => rfl
  | cons e rest ih =>
    have hne : (name == e.1) = false := beq_eq_false_iff_ne.mpr (h e List.mem_cons_self).symm
    rw [List.cons_append, List.lookup_cons, hne]
    exact ih fun e he => h e (List.mem_cons_of_mem _ he)

end Captures

/-! ### Basic expressions -/

namespace Regex

/-- The characters that an expression takes if it always matches exactly one. -/
def takes? : Regex → Option (Char → Bool)
  | char c => some (· == c)
  | oneOf cls => some cls.contains
  | category kind negated => some fun c => kind.contains c != negated
  | any newline => some fun c => newline || c != '\n'
  | _ => none

/-- Expressions without anything that the catalog does not use. -/
inductive Basic : Regex → Prop where
  | empty : Basic empty
  | one {r : Regex} {p : Char → Bool} (h : r.takes? = some p) : Basic r
  | anchor (a : Anchor) : Basic (anchor a)
  | cat {a b : Regex} : Basic a → Basic b → Basic (cat a b)
  | alt {a b : Regex} : Basic a → Basic b → Basic (alt a b)
  | group {body : Regex} (name : String) : Basic body → Basic (group name body)
  | repeated {body : Regex} (least : Nat) (most : Option Nat) (greedy : Bool) :
    Basic body → Basic (repeated body least most greedy)
  | look {body : Regex} (direction : Direction) : Basic body → Basic (look direction true body)
  | backReference (name : String) : Basic (backReference name false)

/-- Whether an expression is basic. -/
def isBasic : Regex → Bool
  | empty | char _ | oneOf _ | category _ _ | any _ | anchor _ | backReference _ false => true
  | cat a b | alt a b => a.isBasic && b.isBasic
  | group _ body | repeated body _ _ _ | look _ true body => body.isBasic
  | _ => false

theorem basic_of_isBasic : {r : Regex} → r.isBasic = true → r.Basic
  | empty, _ => .empty
  | char _, _ | oneOf _, _ | category _ _, _ | any _, _ => .one rfl
  | anchor a, _ => .anchor a
  | cat _ _, h => by
    rw [isBasic, Bool.and_eq_true] at h
    exact .cat (basic_of_isBasic h.1) (basic_of_isBasic h.2)
  | alt _ _, h => by
    rw [isBasic, Bool.and_eq_true] at h
    exact .alt (basic_of_isBasic h.1) (basic_of_isBasic h.2)
  | group name _, h => .group name (basic_of_isBasic h)
  | repeated _ least most greedy, h => .repeated least most greedy (basic_of_isBasic h)
  | look direction true _, h => .look direction (basic_of_isBasic h)
  | backReference name false, _ => .backReference name

theorem Basic.of_cat {a b : Regex} (h : (Regex.cat a b).Basic) : a.Basic ∧ b.Basic := by
  cases h with
  | one h => simp [takes?] at h
  | cat ha hb => exact ⟨ha, hb⟩

theorem Basic.of_group {name : String} {body : Regex} (h : (Regex.group name body).Basic) :
    body.Basic := by
  cases h with
  | one h => simp [takes?] at h
  | group _ hbody => exact hbody

theorem ways_of_takes? {r : Regex} {p : Char → Bool} (h : r.takes? = some p) (terms : Terms) :
    r.ways terms = Way.step p := by
  funext cur caps
  cases r <;> simp only [takes?, Option.some.injEq, reduceCtorEq] at h <;> rw [← h, ways]

end Regex

/-! ### Spelling -/

/-- What the groups of an expression contribute to the texts that it spells. -/
structure Reading where
  /-- What a group may match. -/
  sets : String → List Char → Prop
  /-- What a reference to a group may match. -/
  refers : String → List Char → Prop
  /-- Which groups may be passed by. -/
  skips : String → Prop

namespace Reading

/-- The reading that only knows what references may match. -/
def loose (known : String → List Char → Prop) : Reading :=
  ⟨fun _ _ => True, known, fun _ => True⟩

/-- The reading in which every group stands for one text, or for none. -/
def of (texts : String → Option (List Char)) : Reading :=
  ⟨fun name w => texts name = some w, fun name w => texts name = some w,
    fun name => texts name = none⟩

end Reading

namespace Regex

/-- The texts that a basic expression spells.  Assertions are taken to hold. -/
def Spells (ρ : Reading) : Regex → List Char → Prop
  | empty, w | anchor _, w | look _ _ _, w => w = []
  | char c, w => w = [c]
  | oneOf cls, w => ∃ c, cls.contains c = true ∧ w = [c]
  | category kind negated, w => ∃ c, (kind.contains c != negated) = true ∧ w = [c]
  | any newline, w => ∃ c, (newline || c != '\n') = true ∧ w = [c]
  | cat a b, w => ∃ u v, w = u ++ v ∧ a.Spells ρ u ∧ b.Spells ρ v
  | alt a b, w =>
    (a.Spells ρ w ∧ ∀ n ∈ b.groups, ρ.skips n) ∨ (b.Spells ρ w ∧ ∀ n ∈ a.groups, ρ.skips n)
  | group name body, w => ρ.sets name w ∧ body.Spells ρ w
  | repeated body least most _, w =>
    ∃ ws : List (List Char), w = ws.flatten ∧ (∀ u ∈ ws, body.Spells ρ u) ∧
      least ≤ ws.length ∧ (∀ m, most = some m → ws.length ≤ max least m) ∧
      (ws = [] → ∀ n ∈ body.groups, ρ.skips n)
  | backReference name _, w => ρ.refers name w
  | _, _ => False

theorem spells_of_takes? {r : Regex} {p : Char → Bool} (h : r.takes? = some p) {ρ : Reading}
    {w : List Char} : r.Spells ρ w ↔ ∃ c, p c = true ∧ w = [c] := by
  cases r <;> simp only [takes?, Option.some.injEq, reduceCtorEq] at h <;> subst h <;>
    simp [Spells]

/-- Whether an expression uses up no character. -/
def isStill : Regex → Bool
  | empty | anchor _ | look _ true _ => true
  | cat a b => a.isStill && b.isStill
  | _ => false

theorem stop_eq_of_isStill {r : Regex} (h : r.isStill = true) {terms : Terms} {cur stop : Cursor}
    {caps caps' : Captures}
    (hw : (stop, caps') ∈ r.ways terms cur caps) : stop = cur := by
  induction r generalizing cur stop caps caps' with
  | empty => simpa [ways] using congrArg Prod.fst (List.mem_singleton.mp hw)
  | anchor a =>
    rw [ways, Way.provided] at hw
    split_ifs at hw
    · simpa using congrArg Prod.fst (List.mem_singleton.mp hw)
    · simp at hw
  | look direction negated body _ =>
    cases negated with
    | false => simp [isStill] at h
    | true =>
      unfold ways at hw
      simp only [↓reduceIte] at hw
      split_ifs at hw
      · simpa using congrArg Prod.fst (List.mem_singleton.mp hw)
      · simp at hw
  | cat a b iha ihb =>
    rw [isStill, Bool.and_eq_true] at h
    rw [ways, List.mem_flatMap] at hw
    obtain ⟨⟨mid, caps₁⟩, hmid, hw⟩ := hw
    rw [ihb h.2 hw, iha h.1 hmid]
  | _ => simp [isStill] at h

theorem spells_of_isStill {r : Regex} (h : r.isStill = true) {ρ : Reading} {w : List Char}
    (hw : r.Spells ρ w) : w = [] := by
  induction r generalizing w with
  | empty | anchor _ | look _ _ _ _ => exact hw
  | cat a b iha ihb =>
    rw [isStill, Bool.and_eq_true] at h
    obtain ⟨u, v, rfl, hu, hv⟩ := hw
    rw [iha h.1 hu, ihb h.2 hv, List.append_nil]
  | _ => simp [isStill] at h

/-- The groups of an expression with their bodies.  Groups in assertions are left out: nothing
that they match is kept. -/
def bodies : Regex → List (String × Regex)
  | cat a b | alt a b => a.bodies ++ b.bodies
  | group name body => (name, body) :: body.bodies
  | repeated body _ _ _ => body.bodies
  | _ => []

theorem mem_groups_of_mem_bodies {r : Regex} {e : String × Regex} (h : e ∈ r.bodies) :
    e.1 ∈ r.groups := by
  induction r with
  | cat a b iha ihb | alt a b iha ihb =>
    rw [bodies, List.mem_append] at h
    rw [groups, List.mem_append]
    exact h.imp iha ihb
  | group name body ih =>
    rw [bodies, List.mem_cons] at h
    rw [groups, List.mem_cons]
    exact h.imp (fun h => congrArg Prod.fst h) ih
  | repeated body _ _ _ ih => exact ih h
  | _ => simp [bodies] at h

theorem mem_bodies_of_lookup {r : Regex} {name : String} {body : Regex}
    (h : r.bodies.lookup name = some body) : (name, body) ∈ r.bodies := by
  obtain ⟨left, right, heq, -⟩ := List.lookup_eq_some_iff.mp h
  simp [heq]

theorem Basic.of_mem_bodies {r : Regex} (hr : r.Basic) {e : String × Regex} (h : e ∈ r.bodies) :
    e.2.Basic := by
  induction hr with
  | @one r p hp => cases r <;> simp [takes?] at hp <;> simp [bodies] at h
  | cat _ _ iha ihb | alt _ _ iha ihb =>
    rw [bodies, List.mem_append] at h
    exact h.elim iha ihb
  | group name hbody ih =>
    rw [bodies, List.mem_cons] at h
    rcases h with rfl | h
    · exact hbody
    · exact ih h
  | repeated _ _ _ _ ih => exact ih h
  | _ => simp [bodies] at h

/-- A group that stands for a text did match: the text is part of the whole one, and the body of
the group spells it. -/
theorem Basic.spells_body {r : Regex} (hr : r.Basic) {texts : String → Option (List Char)}
    {m u : List Char} {name : String} {body : Regex} (hm : r.Spells (.of texts) m)
    (hbody : (name, body) ∈ r.bodies) (hu : texts name = some u) :
    u <:+: m ∧ body.Spells (.of texts) u := by
  -- A group that was passed by stands for nothing.
  have hskip : ∀ {s : Regex}, (name, body) ∈ s.bodies →
      ¬ ∀ n ∈ s.groups, (Reading.of texts).skips n := by
    intro s hs h
    have hnone : texts name = none := h name (mem_groups_of_mem_bodies hs)
    simp [hu] at hnone
  induction hr generalizing m with
  | one h =>
    rename_i r p
    cases r <;> simp [takes?] at h <;> simp [bodies] at hbody
  | @cat a b _ _ iha ihb =>
    obtain ⟨v, w, rfl, hv, hw⟩ := hm
    rw [bodies, List.mem_append] at hbody
    rcases hbody with hbody | hbody
    · obtain ⟨hin, hs⟩ := iha hv hbody
      exact ⟨hin.trans (List.infix_append' [] v w), hs⟩
    · obtain ⟨hin, hs⟩ := ihb hw hbody
      exact ⟨hin.trans (List.suffix_append v w).isInfix, hs⟩
  | @alt a b _ _ iha ihb =>
    rw [bodies, List.mem_append] at hbody
    rcases hm with ⟨hm, hb⟩ | ⟨hm, ha⟩
    · rcases hbody with hbody | hbody
      · exact iha hm hbody
      · exact absurd hb (hskip hbody)
    · rcases hbody with hbody | hbody
      · exact absurd ha (hskip hbody)
      · exact ihb hm hbody
  | @group inner n _ ih =>
    obtain ⟨hset, hm⟩ := hm
    rw [bodies, List.mem_cons] at hbody
    rcases hbody with heq | hbody
    · rw [Prod.mk.injEq] at heq
      obtain ⟨rfl, rfl⟩ := heq
      have hmu : some m = some u := by rw [← hu]; exact hset.symm
      obtain rfl := Option.some.inj hmu
      exact ⟨List.infix_rfl, hm⟩
    · exact ih hm hbody
  | @repeated inner least most greedy _ ih =>
    obtain ⟨ws, rfl, hws, -, -, hnil⟩ := hm
    cases ws with
    | nil => exact absurd (hnil rfl) (hskip hbody)
    | cons w rest =>
      obtain ⟨hin, hs⟩ := ih (hws w List.mem_cons_self) hbody
      rw [List.flatten_cons]
      exact ⟨hin.trans (List.prefix_append w rest.flatten).isInfix, hs⟩
  | _ => simp [bodies] at hbody

theorem Basic.minWidth_le {r : Regex} (hr : r.Basic) {ρ : Reading} {w : List Char}
    (hw : r.Spells ρ w) : r.minWidth ≤ w.length := by
  induction hr generalizing w with
  | @one r p h =>
    obtain ⟨c, -, rfl⟩ := (spells_of_takes? h).mp hw
    cases r <;> simp_all [takes?, minWidth]
  | cat _ _ iha ihb =>
    obtain ⟨u, v, rfl, hu, hv⟩ := hw
    rw [minWidth, List.length_append]
    exact Nat.add_le_add (iha hu) (ihb hv)
  | alt _ _ iha ihb =>
    rw [minWidth]
    rcases hw with ⟨hw, -⟩ | ⟨hw, -⟩
    · exact (Nat.min_le_left _ _).trans (iha hw)
    · exact (Nat.min_le_right _ _).trans (ihb hw)
  | group name _ ih => exact ih hw.2
  | @repeated body least most greedy _ ih =>
    obtain ⟨ws, rfl, hws, hleast, -⟩ := hw
    have hlen : ws.length * body.minWidth ≤ ws.flatten.length := by
      clear hleast
      induction ws with
      | nil => simp
      | cons u rest ihr =>
        have hu := ih (hws u List.mem_cons_self)
        have hrest := ihr fun v hv => hws v (List.mem_cons_of_mem _ hv)
        rw [List.length_cons, Nat.succ_mul, List.flatten_cons, List.length_append]
        omega
    exact (Nat.mul_le_mul_right _ hleast).trans hlen
  | _ => exact Nat.zero_le _

/-- To know less about a text does not keep an expression from spelling it. -/
theorem Spells.mono {r : Regex} {ρ ρ' : Reading} (hsets : ∀ n w, ρ.sets n w → ρ'.sets n w)
    (hrefers : ∀ n w, ρ.refers n w → ρ'.refers n w) (hskips : ∀ n, ρ.skips n → ρ'.skips n)
    {w : List Char} (h : r.Spells ρ w) : r.Spells ρ' w := by
  induction r generalizing w with
  | cat a b iha ihb =>
    obtain ⟨u, v, rfl, hu, hv⟩ := h
    exact ⟨u, v, rfl, iha hu, ihb hv⟩
  | alt a b iha ihb =>
    exact h.imp (fun h => ⟨iha h.1, fun n hn => hskips n (h.2 n hn)⟩)
      fun h => ⟨ihb h.1, fun n hn => hskips n (h.2 n hn)⟩
  | group name body ih => exact ⟨hsets name w h.1, ih h.2⟩
  | repeated body least most greedy ih =>
    obtain ⟨ws, rfl, hws, hleast, hmost, hnil⟩ := h
    exact ⟨ws, rfl, fun u hu => ih (hws u hu), hleast, hmost,
      fun hempty n hn => hskips n (hnil hempty n hn)⟩
  | backReference name anyCase => exact hrefers name w h
  | _ => exact h

/-- The groups that take part in every match. -/
def sureGroups : Regex → List String
  | cat a b => a.sureGroups ++ b.sureGroups
  | group name _ => [name]
  | _ => []

theorem texts_of_mem_sureGroups {r : Regex} {texts : String → Option (List Char)} {m : List Char}
    (hm : r.Spells (.of texts) m) {name : String} (h : name ∈ r.sureGroups) :
    ∃ u, texts name = some u := by
  induction r generalizing m with
  | cat a b iha ihb =>
    obtain ⟨u, v, -, hu, hv⟩ := hm
    rw [sureGroups, List.mem_append] at h
    exact h.elim (iha hu) (ihb hv)
  | group n body _ =>
    rw [sureGroups, List.mem_singleton] at h
    exact ⟨m, h ▸ hm.1⟩
  | _ => simp [sureGroups] at h

theorem spells_literal {text : String} {ρ : Reading} {w : List Char} :
    (literal text).Spells ρ w ↔ w = text.toList := by
  have hseq : ∀ cs w : List Char, (seq (cs.map char)).Spells ρ w ↔ w = cs := by
    intro cs
    induction cs with
    | nil => exact fun w => Iff.rfl
    | cons c cs ih =>
      intro w
      cases cs with
      | nil => exact Iff.rfl
      | cons d cs =>
        constructor
        · rintro ⟨u, v, rfl, rfl, hv⟩
          rw [(ih v).mp hv]
          rfl
        · rintro rfl
          exact ⟨[c], d :: cs, rfl, rfl, (ih _).mpr rfl⟩
  exact hseq _ _

theorem basic_literal (text : String) : (literal text).Basic := by
  have hseq : ∀ cs : List Char, (seq (cs.map char)).Basic := by
    intro cs
    induction cs with
    | nil => exact .empty
    | cons c cs ih =>
      cases cs with
      | nil => exact .one rfl
      | cons d cs => exact .cat (.one rfl) ih
  exact hseq _

/-- Whether no group can match twice on one way. -/
def setsOnce : Regex → Bool
  | cat a b | alt a b => a.setsOnce && b.setsOnce && a.groups.all (· ∉ b.groups)
  | group name body => body.setsOnce && decide (name ∉ body.groups)
  | repeated body least most _ =>
    body.setsOnce && (body.groups.isEmpty || (decide (least ≤ 1) && most == some 1))
  | _ => true

end Regex

/-! ### Rounds -/

/-- A number of rounds of `body` lead from one state of a match to another. -/
inductive Way.Rounds (body : Cursor → Captures → List Way) : Nat → Way → Way → Prop where
  | zero (w : Way) : Rounds body 0 w w
  | succ {n : Nat} {w v v' : Way} : v ∈ body w.1 w.2 → Rounds body n v v' →
    Rounds body (n + 1) w v'

namespace Way

variable {body more : Cursor → Captures → List Way}

theorem Rounds.add {m n : Nat} {w v v' : Way} (h : Rounds body m w v) (h' : Rounds body n v v') :
    Rounds body (m + n) w v' := by
  induction h with
  | zero w => rwa [Nat.zero_add]
  | succ hv _ ih =>
    rw [Nat.add_right_comm]
    exact .succ hv (ih h')

theorem rounds_of_mem_exactly {n : Nat} {cur : Cursor} {caps : Captures} {w : Way}
    (h : w ∈ exactly body more n cur caps) :
    ∃ v, Rounds body n (cur, caps) v ∧ w ∈ more v.1 v.2 := by
  induction n generalizing cur caps with
  | zero => exact ⟨(cur, caps), .zero _, h⟩
  | succ n ih =>
    rw [exactly, List.mem_flatMap] at h
    obtain ⟨v, hv, hw⟩ := h
    obtain ⟨v', hr, hw'⟩ := ih hw
    exact ⟨v', .succ hv hr, hw'⟩

theorem rounds_of_mem_rounds {greedy moving : Bool} {n : Nat} {cur : Cursor} {caps : Captures}
    {w : Way} (h : w ∈ rounds body greedy moving n cur caps) :
    ∃ k ≤ n, Rounds body k (cur, caps) w := by
  induction n generalizing cur caps with
  | zero =>
    rw [rounds, List.mem_singleton] at h
    exact ⟨0, le_rfl, h ▸ .zero _⟩
  | succ n ih =>
    have hcases : w = (cur, caps) ∨ ∃ v ∈ body cur caps,
        w ∈ (if moving && v.1.offset == cur.offset then [v]
          else rounds body greedy moving n v.1 v.2) := by
      rw [rounds] at h
      cases greedy <;> simpa [or_comm] using h
    rcases hcases with rfl | ⟨v, hv, hw⟩
    · exact ⟨0, Nat.zero_le _, .zero _⟩
    · split_ifs at hw
      · rw [List.mem_singleton] at hw
        exact ⟨1, by omega, .succ hv (hw ▸ .zero _)⟩
      · obtain ⟨k, hk, hr⟩ := ih hw
        exact ⟨k + 1, by omega, .succ hv hr⟩

end Way

/-- The ways to match a repetition are made of rounds, as many as its bounds allow. -/
theorem Regex.rounds_of_mem_ways {terms : Terms} {body : Regex} {least : Nat} {most : Option Nat}
    {greedy : Bool} {cur : Cursor} {caps : Captures} {w : Way}
    (h : w ∈ (repeated body least most greedy).ways terms cur caps) :
    ∃ n, Way.Rounds (body.ways terms) n (cur, caps) w ∧ least ≤ n ∧
      ∀ m, most = some m → n ≤ max least m := by
  unfold ways at h
  obtain ⟨v, hr, hv⟩ := Way.rounds_of_mem_exactly h
  cases most with
  | none =>
    obtain ⟨k, -, hk⟩ := Way.rounds_of_mem_rounds hv
    exact ⟨least + k, hr.add hk, by omega, by simp⟩
  | some m =>
    obtain ⟨k, hkm, hk⟩ := Way.rounds_of_mem_rounds hv
    refine ⟨least + k, hr.add hk, by omega, ?_⟩
    rintro m' ⟨⟩
    omega

/-! ### From ways to spelled texts -/

namespace Regex.Basic

variable {r : Regex} {terms : Terms} {cur stop : Cursor} {caps caps' : Captures}

/-- **Loose reading.**  If `known` holds of all that a group can match, it holds of all captures
along a way, and the way spells its text with references to texts of which `known` holds. -/
theorem spells_of_mem_ways (hr : r.Basic) {known : String → List Char → Prop}
    (hknown : ∀ e ∈ r.bodies, ∀ w, e.2.Spells (.loose known) w → known e.1 w)
    (hcaps : caps.Hold known) (hw : (stop, caps') ∈ r.ways terms cur caps) :
    ∃ w, cur.Leads w stop ∧ r.Spells (.loose known) w ∧ caps'.Hold known := by
  induction hr generalizing cur stop caps caps' with
  | empty =>
    rw [ways, List.mem_singleton, Prod.mk.injEq] at hw
    obtain ⟨rfl, rfl⟩ := hw
    exact ⟨[], .refl _, rfl, hcaps⟩
  | @one r p h =>
    rw [ways_of_takes? h, Way.step] at hw
    cases hn : cur.next? with
    | none => simp [hn] at hw
    | some move =>
      obtain ⟨c, d⟩ := move
      simp only [hn] at hw
      split_ifs at hw with hp
      · rw [List.mem_singleton, Prod.mk.injEq] at hw
        obtain ⟨rfl, rfl⟩ := hw
        exact ⟨[c], Cursor.leads_of_next? hn, (spells_of_takes? h).mpr ⟨c, hp, rfl⟩, hcaps⟩
      · simp at hw
  | anchor a =>
    rw [ways, Way.provided] at hw
    split_ifs at hw
    · rw [List.mem_singleton, Prod.mk.injEq] at hw
      obtain ⟨rfl, rfl⟩ := hw
      exact ⟨[], .refl _, rfl, hcaps⟩
    · simp at hw
  | @cat a b _ _ iha ihb =>
    rw [ways, List.mem_flatMap] at hw
    obtain ⟨⟨mid, caps₁⟩, hmid, hw⟩ := hw
    obtain ⟨u, hu, hsu, hc₁⟩ := iha (fun e he => hknown e (by simp [bodies, he])) hcaps hmid
    obtain ⟨v, hv, hsv, hc₂⟩ := ihb (fun e he => hknown e (by simp [bodies, he])) hc₁ hw
    exact ⟨u ++ v, hu.trans hv, ⟨u, v, rfl, hsu, hsv⟩, hc₂⟩
  | @alt a b _ _ iha ihb =>
    rw [ways, List.mem_append] at hw
    rcases hw with hw | hw
    · obtain ⟨w, hl, hs, hc⟩ := iha (fun e he => hknown e (by simp [bodies, he])) hcaps hw
      exact ⟨w, hl, .inl ⟨hs, fun _ _ => trivial⟩, hc⟩
    · obtain ⟨w, hl, hs, hc⟩ := ihb (fun e he => hknown e (by simp [bodies, he])) hcaps hw
      exact ⟨w, hl, .inr ⟨hs, fun _ _ => trivial⟩, hc⟩
  | @group body name _ ih =>
    rw [ways, List.mem_map] at hw
    obtain ⟨⟨d, caps₁⟩, hd, heq⟩ := hw
    simp only [Prod.mk.injEq] at heq
    obtain ⟨rfl, rfl⟩ := heq
    obtain ⟨w, hl, hs, hc⟩ := ih (fun e he => hknown e (by simp [bodies, he])) hcaps hd
    exact ⟨w, hl, ⟨trivial, hs⟩, hc.cons hl (hknown (name, body) (by simp [bodies]) w hs)⟩
  | @repeated body least most greedy _ ih =>
    obtain ⟨n, hn, hleast, hmost⟩ := rounds_of_mem_ways hw
    -- Round by round, along the rounds from the first one on.
    have hrounds : ∀ {n : Nat} {v v' : Way}, Way.Rounds (body.ways terms) n v v' →
        v.2.Hold known → ∃ ws : List (List Char), ws.length = n ∧ v.1.Leads ws.flatten v'.1 ∧
          (∀ u ∈ ws, body.Spells (.loose known) u) ∧ v'.2.Hold known := by
      intro n v v' h
      induction h with
      | zero v => exact fun hc => ⟨[], rfl, .refl _, by simp, hc⟩
      | succ hv _ ihr =>
        intro hc
        obtain ⟨u, hu, hsu, hc₁⟩ := ih hknown hc hv
        obtain ⟨ws, hlen, hws, hsws, hc₂⟩ := ihr hc₁
        refine ⟨u :: ws, by rw [List.length_cons, hlen], hu.trans hws, ?_, hc₂⟩
        rintro u' (_ | ⟨_, hu'⟩)
        · exact hsu
        · exact hsws u' hu'
    obtain ⟨ws, hlen, hl, hs, hc⟩ := hrounds hn hcaps
    exact ⟨ws.flatten, hl, ⟨ws, rfl, hs, hlen ▸ hleast, hlen ▸ hmost, fun _ _ _ => trivial⟩, hc⟩
  | look direction _ _ =>
    unfold ways at hw
    simp only [↓reduceIte] at hw
    split_ifs at hw
    · rw [List.mem_singleton, Prod.mk.injEq] at hw
      obtain ⟨rfl, rfl⟩ := hw
      exact ⟨[], .refl _, rfl, hcaps⟩
    · simp at hw
  | backReference name =>
    simp only [ways, Bool.false_eq_true, ↓reduceIte] at hw
    cases hspan : caps.lookup name with
    | none => simp [hspan] at hw
    | some span =>
      obtain ⟨u, -, htext, hu⟩ := hcaps.of_lookup hspan
      rw [hspan, Option.bind_some, htext] at hw
      cases hskip : cur.skip? u with
      | none => simp [hskip] at hw
      | some d =>
        rw [hskip, List.mem_singleton, Prod.mk.injEq] at hw
        obtain ⟨rfl, rfl⟩ := hw
        exact ⟨u, Cursor.leads_of_skip? hskip, hu, hcaps⟩

/-- **Strict reading.**  If no group can match twice, a way adds captures of groups of the
expression only, and it spells its text with every group standing for what it has captured: also in
any reading `texts` that agrees with the captures as far as this expression is concerned. -/
theorem reads_of_mem_ways (hr : r.Basic) (honce : r.setsOnce = true)
    (hfresh : ∀ n ∈ r.groups, caps.lookup n = none)
    (hw : (stop, caps') ∈ r.ways terms cur caps) :
    ∃ w new, cur.Leads w stop ∧ caps' = new ++ caps ∧ (∀ e ∈ new, e.1 ∈ r.groups) ∧
      ∀ texts : String → Option (List Char), (∀ n ∈ r.groups, texts n = caps'.textOf n) →
        (∀ n s, caps.lookup n = some s → texts n = some s.text) → r.Spells (.of texts) w := by
  induction hr generalizing cur stop caps caps' with
  | empty =>
    rw [ways, List.mem_singleton, Prod.mk.injEq] at hw
    obtain ⟨rfl, rfl⟩ := hw
    exact ⟨[], [], .refl _, rfl, by simp, fun _ _ _ => rfl⟩
  | @one r p h =>
    rw [ways_of_takes? h, Way.step] at hw
    cases hn : cur.next? with
    | none => simp [hn] at hw
    | some move =>
      obtain ⟨c, d⟩ := move
      simp only [hn] at hw
      split_ifs at hw with hp
      · rw [List.mem_singleton, Prod.mk.injEq] at hw
        obtain ⟨rfl, rfl⟩ := hw
        exact ⟨[c], [], Cursor.leads_of_next? hn, rfl, by simp,
          fun _ _ _ => (spells_of_takes? h).mpr ⟨c, hp, rfl⟩⟩
      · simp at hw
  | anchor a =>
    rw [ways, Way.provided] at hw
    split_ifs at hw
    · rw [List.mem_singleton, Prod.mk.injEq] at hw
      obtain ⟨rfl, rfl⟩ := hw
      exact ⟨[], [], .refl _, rfl, by simp, fun _ _ _ => rfl⟩
    · simp at hw
  | @cat a b _ _ iha ihb =>
    simp only [setsOnce, Bool.and_eq_true, List.all_eq_true, decide_eq_true_eq] at honce
    obtain ⟨⟨hoa, hob⟩, hdisj⟩ := honce
    rw [ways, List.mem_flatMap] at hw
    obtain ⟨⟨mid, caps₁⟩, hmid, hw⟩ := hw
    obtain ⟨u, new₁, hu, rfl, hnew₁, hsu⟩ :=
      iha hoa (fun n hn => hfresh n (by simp [groups, hn])) hmid
    have hfresh₁ : ∀ n ∈ b.groups, (new₁ ++ caps).lookup n = none := by
      intro n hn
      rw [Captures.lookup_append_of_notMem fun e he h => hdisj e.1 (hnew₁ e he) (h ▸ hn)]
      exact hfresh n (by simp [groups, hn])
    obtain ⟨v, new₂, hv, rfl, hnew₂, hsv⟩ := ihb hob hfresh₁ hw
    -- What `b` captures does not hide what was captured before.
    have hkeep : ∀ n, n ∉ b.groups →
        (new₂ ++ (new₁ ++ caps)).lookup n = (new₁ ++ caps).lookup n := fun n hn =>
      Captures.lookup_append_of_notMem fun e he h => hn (h ▸ hnew₂ e he)
    refine ⟨u ++ v, new₂ ++ new₁, hu.trans hv, by simp, ?_, ?_⟩
    · intro e he
      rw [groups, List.mem_append]
      rcases List.mem_append.mp he with he | he
      · exact .inr (hnew₂ e he)
      · exact .inl (hnew₁ e he)
    · intro texts hagree hext
      refine ⟨u, v, rfl, hsu texts ?_ hext, hsv texts ?_ ?_⟩
      · intro n hn
        rw [hagree n (by simp [groups, hn]), Captures.textOf, hkeep n (hdisj n hn)]
        rfl
      · exact fun n hn => hagree n (by simp [groups, hn])
      · intro n s hs
        by_cases hn : n ∈ a.groups
        · rw [hagree n (by simp [groups, hn]), Captures.textOf, hkeep n (hdisj n hn), hs]
          rfl
        · have hne : ∀ e ∈ new₁, e.1 ≠ n := fun e he h => hn (h ▸ hnew₁ e he)
          rw [Captures.lookup_append_of_notMem hne] at hs
          exact hext n s hs
  | @alt a b _ _ iha ihb =>
    simp only [setsOnce, Bool.and_eq_true, List.all_eq_true, decide_eq_true_eq] at honce
    obtain ⟨⟨hoa, hob⟩, hdisj⟩ := honce
    -- The groups of the branch that is not taken stay unset.
    have hunset : ∀ {new : Captures} {n : String}, n ∈ (Regex.alt a b).groups →
        (∀ e ∈ new, e.1 ≠ n) → Captures.textOf (new ++ caps) n = none := by
      intro new n hn hnew
      rw [Captures.textOf, Captures.lookup_append_of_notMem hnew, hfresh n hn]
      rfl
    rw [ways, List.mem_append] at hw
    rcases hw with hw | hw
    · obtain ⟨w, new, hl, rfl, hnew, hs⟩ := iha hoa (fun n hn => hfresh n (by simp [groups, hn])) hw
      refine ⟨w, new, hl, rfl, fun e he => by simp [groups, hnew e he], ?_⟩
      intro texts hagree hext
      refine .inl ⟨hs texts (fun n hn => hagree n (by simp [groups, hn])) hext, ?_⟩
      intro n hn
      have hn' : n ∈ (Regex.alt a b).groups := by simp [groups, hn]
      exact (hagree n hn').trans (hunset hn' fun e he h => hdisj e.1 (hnew e he) (h ▸ hn))
    · obtain ⟨w, new, hl, rfl, hnew, hs⟩ := ihb hob (fun n hn => hfresh n (by simp [groups, hn])) hw
      refine ⟨w, new, hl, rfl, fun e he => by simp [groups, hnew e he], ?_⟩
      intro texts hagree hext
      refine .inr ⟨hs texts (fun n hn => hagree n (by simp [groups, hn])) hext, ?_⟩
      intro n hn
      have hn' : n ∈ (Regex.alt a b).groups := by simp [groups, hn]
      exact (hagree n hn').trans (hunset hn' fun e he h => hdisj n hn (h ▸ hnew e he))
  | @group body name _ ih =>
    simp only [setsOnce, Bool.and_eq_true, decide_eq_true_eq] at honce
    rw [ways, List.mem_map] at hw
    obtain ⟨⟨d, caps₁⟩, hd, heq⟩ := hw
    simp only [Prod.mk.injEq] at heq
    obtain ⟨rfl, rfl⟩ := heq
    obtain ⟨w, new, hl, rfl, hnew, hs⟩ :=
      ih honce.1 (fun n hn => hfresh n (by simp [groups, hn])) hd
    refine ⟨w, (name, ⟨cur, d⟩) :: new, hl, rfl, ?_, ?_⟩
    · intro e he
      rw [groups, List.mem_cons]
      rcases List.mem_cons.mp he with rfl | he
      · exact .inl rfl
      · exact .inr (hnew e he)
    · intro texts hagree hext
      constructor
      · have htext : Span.text ⟨cur, d⟩ = w := hl.upTo
        show texts name = some w
        rw [hagree name (by simp [groups]), Captures.textOf, List.lookup_cons_self,
          Option.map_some, htext]
      · refine hs texts (fun n hn => ?_) hext
        have hne : (n == name) = false :=
          beq_eq_false_iff_ne.mpr fun h => honce.2 (h ▸ hn)
        rw [hagree n (by simp [groups, hn]), Captures.textOf, List.lookup_cons, hne]
        rfl
  | @repeated body least most greedy _ ih =>
    simp only [setsOnce, Bool.and_eq_true, Bool.or_eq_true, List.isEmpty_iff,
      decide_eq_true_eq, beq_iff_eq] at honce
    obtain ⟨hob, hcase⟩ := honce
    obtain ⟨n, hn, hleast, hmost⟩ := rounds_of_mem_ways hw
    rcases hcase with hnone | ⟨hle, rfl⟩
    · -- Without groups, no round changes the captures.
      have hrounds : ∀ {n : Nat} {v v' : Way}, Way.Rounds (body.ways terms) n v v' →
          v.2 = caps → ∃ ws : List (List Char), ws.length = n ∧ v.1.Leads ws.flatten v'.1 ∧
            v'.2 = caps ∧ ∀ texts : String → Option (List Char),
              (∀ n s, caps.lookup n = some s → texts n = some s.text) →
                ∀ u ∈ ws, body.Spells (.of texts) u := by
        intro n v v' h
        induction h with
        | zero v => exact fun hc => ⟨[], rfl, .refl _, hc, by simp⟩
        | @succ _ v v₁ _ hv _ ihr =>
          intro hc
          rw [hc] at hv
          obtain ⟨u, new, hu, hnew₁, hnew, hsu⟩ := ih hob (by simp [hnone]) hv
          have hnil : new = [] := by
            rw [List.eq_nil_iff_forall_not_mem]
            intro e he
            simpa [hnone] using hnew e he
          rw [hnil, List.nil_append] at hnew₁
          obtain ⟨ws, hlen, hws, hc', hsws⟩ := ihr hnew₁
          refine ⟨u :: ws, by rw [List.length_cons, hlen], hu.trans hws, hc', ?_⟩
          intro texts hext u' hu'
          rcases List.mem_cons.mp hu' with rfl | hu'
          · exact hsu texts (by simp [hnone]) hext
          · exact hsws texts hext u' hu'
      obtain ⟨ws, hlen, hl, hc, hs⟩ := hrounds hn rfl
      refine ⟨ws.flatten, [], hl, hc, by simp, fun texts _ hext => ?_⟩
      exact ⟨ws, rfl, hs texts hext, hlen ▸ hleast, hlen ▸ hmost, by simp [hnone]⟩
    · -- With groups, there is one round at most.
      have hn1 : n ≤ 1 := (hmost 1 rfl).trans (by omega)
      cases hn with
      | zero =>
        refine ⟨[], [], .refl _, rfl, by simp, fun texts hagree _ => ?_⟩
        refine ⟨[], rfl, by simp, hleast, by simp, fun _ n hn => ?_⟩
        show texts n = none
        rw [hagree n hn, Captures.textOf, hfresh n hn]
        rfl
      | @succ k _ _ _ hv hrest =>
        obtain rfl : k = 0 := by omega
        cases hrest
        obtain ⟨u, new, hu, hcaps, hnew, hsu⟩ := ih hob hfresh hv
        refine ⟨u, new, hu, hcaps, hnew, fun texts hagree hext => ?_⟩
        refine ⟨[u], by simp, ?_, hleast, hmost, by simp⟩
        intro u' hu'
        rw [List.mem_singleton.mp hu']
        exact hsu texts hagree hext
  | look direction _ _ =>
    unfold ways at hw
    simp only [↓reduceIte] at hw
    split_ifs at hw
    · rw [List.mem_singleton, Prod.mk.injEq] at hw
      obtain ⟨rfl, rfl⟩ := hw
      exact ⟨[], [], .refl _, rfl, by simp, fun _ _ _ => rfl⟩
    · simp at hw
  | backReference name =>
    simp only [ways, Bool.false_eq_true, ↓reduceIte] at hw
    cases hspan : caps.lookup name with
    | none => simp [hspan] at hw
    | some span =>
      rw [hspan, Option.bind_some] at hw
      cases hskip : cur.skip? span.text with
      | none => simp [hskip] at hw
      | some d =>
        rw [hskip, List.mem_singleton, Prod.mk.injEq] at hw
        obtain ⟨rfl, rfl⟩ := hw
        exact ⟨span.text, [], Cursor.leads_of_skip? hskip, rfl, by simp,
          fun texts _ hext => hext name span hspan⟩

end Regex.Basic

end CApiUpgrade
