import CApiUpgrade.Proofs.LineEnds
import CApiUpgrade.Proofs.Preference

/-!
# Expressions and torn line ends

A match may end in a torn line end: blanks are taken one at a time, and a carriage return is one of
them.  What is left then is to see that such a match comes to nothing, because what follows in the
expression does not match a newline.

`Regex.Aligned` says for an expression whether a match that starts at a whole position may end in a
torn line end, and what can be matched from a torn line end on.  Apart from that, the ways to match
are the counterparts of those in the text with newlines.  `Regex.alignment` reads the two answers
off an expression, if it can, and `Regex.aligned_of_alignment` says that they are right.
-/

namespace CApiUpgrade

open Text Captures

/-! ### From torn line ends -/

/-- What an expression can match from a torn line end on. -/
inductive Grip where
  /-- Nothing. -/
  | bars
  /-- Nothing but the empty text, with nothing captured. -/
  | stays
  /-- Anything. -/
  | free
  deriving DecidableEq, Repr

namespace Grip

/-- Whether a list holds ways from a position that are to be expected. -/
def Allows : Grip → Cursor → Captures → List Way → Prop
  | bars, _, _, ws => ws = []
  | stays, cur, caps, ws => ∀ w ∈ ws, w = (cur, caps)
  | free, _, _, _ => True

/-- One expression after another. -/
def andThen : Grip → Grip → Grip
  | bars, _ => bars
  | stays, g => g
  | free, _ => free

/-- One expression or another. -/
def or : Grip → Grip → Grip
  | bars, bars => bars
  | free, _ | _, free => free
  | _, _ => stays

/-- What a group makes of its body. -/
def captured (g : Grip) : Grip := if g = bars then bars else free

/-- What a repetition makes of its body. -/
def repeated (least : Nat) (g : Grip) : Grip :=
  if g = bars then (if least = 0 then stays else bars) else free

variable {g g' : Grip} {cur : Cursor} {caps : Captures} {ws ws' : List Way}

theorem Allows.andThen {f : Way → List Way} (h : g.Allows cur caps ws)
    (h' : g'.Allows cur caps (f (cur, caps))) : (g.andThen g').Allows cur caps (ws.flatMap f) := by
  cases g with
  | bars => rw [show ws = [] from h]; rfl
  | free => trivial
  | stays =>
    have hws : ∀ w ∈ ws, w = (cur, caps) := h
    cases g' with
    | bars =>
      refine List.flatMap_eq_nil_iff.mpr fun w hw => ?_
      rw [hws w hw]
      exact h'
    | free => trivial
    | stays =>
      intro w hw
      obtain ⟨v, hv, hw⟩ := List.mem_flatMap.mp hw
      exact h' w (hws v hv ▸ hw)

theorem Allows.or (h : g.Allows cur caps ws) (h' : g'.Allows cur caps ws') :
    (g.or g').Allows cur caps (ws ++ ws') := by
  cases g <;> cases g' <;> simp only [Allows, Grip.or] at h h' ⊢
  · rw [h, h', List.nil_append]
  · rwa [h, List.nil_append]
  · rwa [h', List.append_nil]
  · intro w hw
    exact (List.mem_append.mp hw).elim (h w) (h' w)

theorem Allows.captured (h : g.Allows cur caps ws) {f : Way → Way} :
    g.captured.Allows cur caps (ws.map f) := by
  rw [Grip.captured]
  split_ifs with hg
  · subst hg
    rw [show ws = [] from h]
    rfl
  · trivial

end Grip

/-- What is known of an expression in a text with torn line ends. -/
structure Alignment where
  /-- Whether a match from a whole position may end in a torn line end. -/
  tears : Bool
  /-- What can be matched from a torn line end on. -/
  grip : Grip
  deriving DecidableEq, Repr

namespace Regex

/-- The ways to match an expression from the counterpart of a position are the counterparts of its
ways, apart from torn line ends. -/
structure Aligned (a : Alignment) (r : Regex) : Prop where
  /-- The ways from whole positions. -/
  follows : ∀ {names : String → Prop}, (∀ n ∈ referredNames, names n) →
    ∀ {terms terms' : Terms} {c : Cursor} {caps caps' : Captures}, c.Lf terms terms' →
      caps.Crlf names caps' →
        Way.Follows (Way.Crlf names c) (fun w' => a.tears = true ∧ Way.Torn c w')
          (r.ways terms c caps) (r.ways terms' c.crlf caps')
  /-- The ways from torn line ends. -/
  allows : ∀ {terms terms' : Terms} {c d : Cursor} {caps caps' : Captures}, c.Lf terms terms' →
    c.next? = some ('\n', d) → caps.Crlf (· ∈ referredNames) caps' →
      a.grip.Allows c.torn caps' (r.ways terms' c.torn caps')

namespace Aligned

variable {a b : Alignment} {r s : Regex} {terms terms' : Terms} {c : Cursor}

/-- From a torn line end that another match has left behind. -/
theorem allows_of_torn (h : r.Aligned a) (hc : c.Lf terms terms') {w' : Way} (hw : Way.Torn c w') :
    a.grip.Allows w'.1 w'.2 (r.ways terms' w'.1 w'.2) := by
  obtain ⟨u, d, e, hl, hn, hstop⟩ := hw.stop
  obtain ⟨k, hk⟩ := hw.captures
  rw [hstop]
  exact h.allows (hc.leads hl) hn hk

/-! ### Construct by construct -/

theorem empty : Regex.empty.Aligned ⟨false, .stays⟩ where
  follows _ _ _ c _ _ _ hcaps := .singleton ⟨⟨[], .refl c⟩, rfl, hcaps⟩
  allows _ _ _ _ hw := List.mem_singleton.mp hw

/-- One character other than a newline. -/
theorem one {p : Char → Bool} (hp : r.takes? = some p) (hn : p '\n' = false) :
    r.Aligned ⟨p '\r', .bars⟩ where
  follows {names} hnames terms terms' c caps caps' hc hcaps := by
    rw [ways_of_takes? hp, ways_of_takes? hp, Way.step, Way.step]
    cases hnext : c.next? with
    | none =>
      rw [Cursor.next?_crlf_of_none hnext]
      exact .nil
    | some m =>
      obtain ⟨x, d⟩ := m
      have hl := Cursor.leads_of_next? hnext
      by_cases hx : x = '\n'
      · -- In front of a line end nothing matches, unless the carriage return does.
        subst hx
        rw [Cursor.next?_crlf_of_newline hnext]
        simp only [hn, Bool.false_eq_true, ↓reduceIte]
        split_ifs with hr
        · exact .torn ⟨hr, ⟨[], c, d, .refl c, hnext, rfl⟩, caps, hcaps.mono hnames⟩ .nil
        · exact .nil
      · rw [Cursor.next?_crlf_of_ne hnext hx]
        dsimp only
        split_ifs
        · exact .singleton ⟨⟨[x], hl⟩, rfl, hcaps⟩
        · exact .nil
  allows _ hnext _ := by
    rw [ways_of_takes? hp, Way.step, Cursor.next?_torn hnext]
    simp only [hn, Bool.false_eq_true, ↓reduceIte]
    rfl

/-- An anchor that asks about the start of a line or the edge of a word. -/
theorem lineStart : (anchor .lineStart).Aligned ⟨false, .bars⟩ where
  follows {names} hnames terms terms' c caps caps' hc hcaps := by
    have hholds : Anchor.lineStart.holds c.crlf = Anchor.lineStart.holds c := by
      simp [Anchor.holds, Cursor.crlf]
    rw [ways, ways, Way.provided, Way.provided, hholds]
    split_ifs
    · exact .singleton ⟨⟨[], .refl c⟩, rfl, hcaps⟩
    · exact .nil
  allows _ _ _ := rfl

theorem wordEdge : Regex.wordEdge.Aligned ⟨false, .stays⟩ where
  follows {names} hnames terms terms' c caps caps' hc hcaps := by
    have hright : c.crlf.after.head?.any isWord = c.after.head?.any isWord := by
      rw [Cursor.crlf]
      cases c.after with
      | nil => rfl
      | cons x rest =>
        by_cases hx : x = '\n'
        · have hreturn : isWord '\r' = isWord '\n' := by decide +kernel
          rw [hx, crlf_newline, List.head?_cons, List.head?_cons, Option.any_some, Option.any_some,
            hreturn]
        · rw [crlf_cons_of_ne hx, List.head?_cons, List.head?_cons]
    have hholds : Anchor.wordEdge.holds c.crlf = Anchor.wordEdge.holds c := by
      simp only [Anchor.holds, hright]
      simp [Cursor.crlf]
    rw [Regex.wordEdge, ways, ways, Way.provided, Way.provided, hholds]
    split_ifs
    · exact .singleton ⟨⟨[], .refl c⟩, rfl, hcaps⟩
    · exact .nil
  allows _ _ _ w hw := by
    rw [Regex.wordEdge, ways, Way.provided] at hw
    split_ifs at hw
    · exact List.mem_singleton.mp hw
    · simp at hw

/-- One expression after another.  What the first leaves in torn line ends, the second has to take
hold of. -/
theorem cat (ha : r.Aligned a) (hb : s.Aligned b) (h : a.tears = true → b.grip ≠ .free) :
    (Regex.cat r s).Aligned ⟨b.tears || (a.tears && b.grip == .stays), a.grip.andThen b.grip⟩ where
  follows {names} hnames terms terms' c caps caps' hc hcaps := by
    refine (ha.follows hnames hc hcaps).flatMap (fun w w' hw => ?_) fun w' hw => ?_
    · obtain ⟨u, hl⟩ := hw.leads
      rw [hw.stop]
      exact ((hb.follows hnames (hc.leads hl) hw.captures).fromBefore hl).mono (fun _ _ _ h => h)
        fun _ ht => ⟨by simp [ht.1], ht.2⟩
    · -- From a torn line end, the second part comes to nothing or stays where it is.
      have hallows := hb.allows_of_torn hc hw.2
      cases hg : b.grip with
      | free => exact absurd hg (h hw.1)
      | bars =>
        rw [hg] at hallows
        rw [show s.ways terms' w'.1 w'.2 = [] from hallows]
        exact .nil
      | stays =>
        rw [hg] at hallows
        refine .of_forall fun v hv => ⟨by simp [hw.1], ?_⟩
        rw [hallows v hv]
        exact hw.2
  allows {terms terms' c d caps caps'} hc hn hcaps :=
    (ha.allows hc hn hcaps).andThen (hb.allows hc hn hcaps)

theorem alt (ha : r.Aligned a) (hb : s.Aligned b) :
    (Regex.alt r s).Aligned ⟨a.tears || b.tears, a.grip.or b.grip⟩ where
  follows hnames _ _ _ _ _ hc hcaps :=
    ((ha.follows hnames hc hcaps).mono (fun _ _ _ h => h) fun _ h => ⟨by simp [h.1], h.2⟩).append
      ((hb.follows hnames hc hcaps).mono (fun _ _ _ h => h) fun _ h => ⟨by simp [h.1], h.2⟩)
  allows hc hn hcaps := (ha.allows hc hn hcaps).or (hb.allows hc hn hcaps)

/-- A group.  No reference is made to a group that may end in a torn line end. -/
theorem group {name : String} (h : r.Aligned a) (htears : a.tears = true → name ∉ referredNames)
    (hsolid : name ∈ solidNames → r.Basic ∧ 0 < r.minWidth) :
    (Regex.group name r).Aligned ⟨a.tears, a.grip.captured⟩ where
  follows {names} hnames terms terms' c caps caps' hc hcaps := by
    refine (h.follows hnames hc hcaps).map (fun w hmem w' hw => ?_) fun w' hw =>
      ⟨hw.1, hw.2.stop, ?_⟩
    · obtain ⟨u, hl⟩ := hw.leads
      refine ⟨⟨u, hl⟩, hw.stop, ?_⟩
      rw [hw.stop]
      refine hw.captures.cons hl (hc.clean_of_leads hl) fun hname hnil => ?_
      -- A solid group has captured something, because its body is wide.
      obtain ⟨hbasic, hwide⟩ := hsolid hname
      obtain ⟨v, hv, hspells, -⟩ :=
        hbasic.spells_of_mem_ways (fun _ _ _ _ => trivial) hcaps.hold hmem
      have hwidth := hbasic.minWidth_le hspells
      have huv := hl.upTo.symm.trans hv.upTo
      rw [← huv, hnil] at hwidth
      exact absurd hwide (by simpa using hwidth)
    · obtain ⟨k, hk⟩ := hw.2.captures
      exact ⟨_, hk.cons_of_not (htears hw.1) (.refl c) _⟩
  allows hc hn hcaps := (h.allows hc hn hcaps).captured

/-- A reference to a group.  If the group is not empty, its text does not start with a newline. -/
theorem backReference {name : String} (hname : name ∈ referredNames) :
    (Regex.backReference name).Aligned ⟨false, if name ∈ solidNames then .bars else .free⟩ where
  follows {names} hnames terms terms' c caps caps' hc hcaps := by
    have htext := hcaps.text name (hnames name hname)
    rw [textOf, textOf] at htext
    simp only [ways, Bool.false_eq_true, ↓reduceIte]
    cases hspan : caps.lookup name with
    | none =>
      simp only [hspan, Option.map_none, Option.map_eq_none_iff] at htext
      rw [htext]
      exact .nil
    | some span =>
      simp only [hspan, Option.map_some, Option.map_eq_some_iff] at htext
      obtain ⟨span', hspan', htext⟩ := htext
      have hclean := hcaps.clean name (hnames name hname) span.text (by simp [textOf, hspan])
      rw [hspan', Option.bind_some, Option.bind_some, htext, Cursor.skip?_crlf hclean hc.after]
      cases hskip : c.skip? span.text with
      | none => exact .nil
      | some d => exact .singleton ⟨⟨_, Cursor.leads_of_skip? hskip⟩, rfl, hcaps⟩
  allows {terms terms' c d caps caps'} hc hn hcaps := by
    split_ifs with hmem
    · have htext := hcaps.text name hname
      rw [textOf, textOf] at htext
      simp only [ways, Bool.false_eq_true, ↓reduceIte]
      cases hspan : caps.lookup name with
      | none =>
        simp only [hspan, Option.map_none, Option.map_eq_none_iff] at htext
        rw [htext]
        rfl
      | some span =>
        simp only [hspan, Option.map_some, Option.map_eq_some_iff] at htext
        obtain ⟨span', hspan', htext⟩ := htext
        have hsolid := hcaps.solid name hname hmem span.text (by simp [textOf, hspan])
        rw [hspan', Option.bind_some, htext, Cursor.skip?_torn hn hsolid]
        rfl
    · trivial

/-- Looking ahead, where that tears no line end. -/
theorem notBefore (h : r.Aligned a) (htears : a.tears = false) :
    (Regex.notBefore r).Aligned ⟨false, .stays⟩ where
  follows {names} hnames terms terms' c caps caps' hc hcaps := by
    have hempty := ((h.follows hnames hc hcaps).mono (fun _ _ _ h => h)
      (U := fun _ => False) fun _ ht => by simp [htears] at ht).isEmpty_eq
    simp only [Regex.notBefore, ways, ↓reduceIte, hempty]
    split_ifs
    · exact .singleton ⟨⟨[], .refl c⟩, rfl, hcaps⟩
    · exact .nil
  allows _ _ _ w hw := by
    simp only [Regex.notBefore, ways, ↓reduceIte] at hw
    split_ifs at hw
    · exact List.mem_singleton.mp hw
    · simp at hw

/-- Looking behind, where no newline is taken but by the first character. -/
theorem lookBehind {ps : List (Char → Bool)} (h : r.tests? = some ps)
    (hps : ∀ p ∈ ps.tail, p '\n' = false) :
    (look (.behind ps.length) true r).Aligned ⟨false, .stays⟩ where
  follows {names} hnames terms terms' c caps caps' hc hcaps := by
    have hfits : fits ps.reverse c.crlf.before = fits ps.reverse c.before := by
      refine fits_crlfLeft (fun p hp => hps p ?_) c.before
      rw [List.dropLast_reverse] at hp
      exact List.mem_reverse.mp hp
    rw [ways_notAfter h, ways_notAfter h, hfits]
    split_ifs
    · exact .nil
    · exact .singleton ⟨⟨[], .refl c⟩, rfl, hcaps⟩
  allows _ _ _ w hw := by
    rw [ways_notAfter h] at hw
    split_ifs at hw
    · simp at hw
    · exact List.mem_singleton.mp hw

end Aligned

end Regex

/-! ### Repetitions -/

namespace Way

variable {names : String → Prop} {terms terms' : Terms} {tears : Bool}
  {body body' : Cursor → Captures → List Way}

/-- Where the body has no ways, its rounds end at once. -/
theorem rounds_of_nil {cur : Cursor} {caps : Captures} (h : body cur caps = []) (greedy : Bool)
    (moving : Bool) (n : Nat) : rounds body greedy moving n cur caps = [(cur, caps)] := by
  cases n with
  | zero => rfl
  | succ n => cases greedy <;> simp [rounds, h]

/-- The ways of a body follow each other from whole positions, and there are none from torn line
ends. -/
structure Turns (names : String → Prop) (terms terms' : Terms) (tears : Bool)
    (body body' : Cursor → Captures → List Way) : Prop where
  /-- From whole positions. -/
  follows : ∀ {c : Cursor} {caps caps' : Captures}, c.Lf terms terms' → caps.Crlf names caps' →
    Follows (Crlf names c) (fun w' => tears = true ∧ Torn c w') (body c caps) (body' c.crlf caps')
  /-- From torn line ends. -/
  bars : ∀ {c : Cursor} {w' : Way}, c.Lf terms terms' → tears = true → Torn c w' →
    body' w'.1 w'.2 = []

namespace Turns

theorem rounds (h : Turns names terms terms' tears body body') {greedy moving : Bool} {n n' : Nat}
    {c : Cursor} {caps caps' : Captures} (hc : c.Lf terms terms') (hcaps : caps.Crlf names caps')
    (hn : n = n' ∨ moving = true ∧ c.after.length < n ∧ c.crlf.after.length < n') :
    Follows (Crlf names c) (fun w' => tears = true ∧ Torn c w')
      (rounds body greedy moving n c caps) (Way.rounds body' greedy moving n' c.crlf caps') := by
  induction n generalizing n' c caps caps' with
  | zero =>
    rcases hn with rfl | ⟨-, hn, -⟩
    · exact .singleton ⟨⟨[], .refl c⟩, rfl, hcaps⟩
    · omega
  | succ n ih =>
    cases n' with
    | zero =>
      rcases hn with hn | ⟨-, -, hn⟩
      · simp at hn
      · omega
    | succ n' =>
      have hstay : Crlf names c (c, caps) (c.crlf, caps') := ⟨⟨[], .refl c⟩, rfl, hcaps⟩
      suffices hanother : Follows (Crlf names c) (fun w' => tears = true ∧ Torn c w')
          ((body c caps).flatMap fun w => if moving && w.1.offset == c.offset then [w]
            else Way.rounds body greedy moving n w.1 w.2)
          ((body' c.crlf caps').flatMap fun w => if moving && w.1.offset == c.crlf.offset then [w]
            else Way.rounds body' greedy moving n' w.1 w.2) by
        rw [Way.rounds, Way.rounds]
        cases greedy with
        | true => exact hanother.append (.singleton hstay)
        | false => exact .cons hstay hanother
      refine (h.follows hc hcaps).flatMap (fun w w' hw => ?_) fun w' hw => ?_
      · -- A round either stays in both texts or moves in both.
        obtain ⟨u, hl⟩ := hw.leads
        rw [hw.stop, hl.offset_crlf_eq]
        split_ifs with hmoved
        · exact .singleton hw
        · refine (ih (hc.leads hl) hw.captures ?_).fromBefore hl
          rcases hn with hn | ⟨hmoving, hn, hn'⟩
          · exact .inl (Nat.succ.inj hn)
          · -- The round has used up a character, on either side.
            have hpos : w.1.offset ≠ c.offset := by simpa [hmoving] using hmoved
            have hlen := hl.length_lt_of_moved hpos
            exact .inr ⟨hmoving, by omega, by omega⟩
      · have hends : (if moving && w'.1.offset == c.crlf.offset then [w']
            else Way.rounds body' greedy moving n' w'.1 w'.2) = [w'] := by
          split_ifs
          · rfl
          · exact rounds_of_nil (h.bars hc hw.1 hw.2) greedy moving n'
        rw [hends]
        exact .torn hw .nil

theorem exactly (h : Turns names terms terms' tears body body')
    {more more' : Cursor → Captures → List Way}
    (hmore : ∀ {c : Cursor} {caps caps' : Captures}, c.Lf terms terms' → caps.Crlf names caps' →
      Follows (Crlf names c) (fun w' => tears = true ∧ Torn c w') (more c caps)
        (more' c.crlf caps'))
    (hends : ∀ {c : Cursor} {w' : Way}, c.Lf terms terms' → tears = true → Torn c w' →
      more' w'.1 w'.2 = [w'])
    (n : Nat) {c : Cursor} {caps caps' : Captures} (hc : c.Lf terms terms')
    (hcaps : caps.Crlf names caps') :
    Follows (Crlf names c) (fun w' => tears = true ∧ Torn c w') (exactly body more n c caps)
      (Way.exactly body' more' n c.crlf caps') := by
  induction n generalizing c caps caps' with
  | zero => exact hmore hc hcaps
  | succ n ih =>
    refine (h.follows hc hcaps).flatMap (fun w w' hw => ?_) fun w' hw => ?_
    · obtain ⟨u, hl⟩ := hw.leads
      rw [hw.stop]
      exact (ih (hc.leads hl) hw.captures).fromBefore hl
    · cases n with
      | zero =>
        rw [Way.exactly, hends hc hw.1 hw.2]
        exact .torn hw .nil
      | succ n =>
        rw [Way.exactly, h.bars hc hw.1 hw.2]
        exact .nil

end Turns

end Way

namespace Regex

/-- A repetition whose body does not match from the torn line ends that it leaves behind. -/
theorem Aligned.repeated {a : Alignment} {body : Regex} (h : body.Aligned a)
    (hbars : a.tears = true → a.grip = .bars) (least : Nat) (most : Option Nat) (greedy : Bool) :
    (Regex.repeated body least most greedy).Aligned ⟨a.tears, a.grip.repeated least⟩ where
  follows {names} hnames terms terms' c caps caps' hc hcaps := by
    have hturns : Way.Turns names terms terms' a.tears (body.ways terms) (body.ways terms') :=
      ⟨h.follows hnames, fun hc ht hw => by
        have hallows := h.allows_of_torn hc hw
        rw [hbars ht] at hallows
        exact hallows⟩
    unfold ways
    refine hturns.exactly (fun hc hcaps => ?_) (fun hc ht hw => ?_) least hc hcaps
    · cases most with
      | none =>
        exact hturns.rounds hc hcaps
          (.inr ⟨rfl, Nat.lt_succ_of_le hc.room, Nat.lt_succ_of_le hc.room'⟩)
      | some most => exact hturns.rounds hc hcaps (.inl rfl)
    · cases most <;> exact Way.rounds_of_nil (hturns.bars hc ht hw) _ _ _
  allows {terms terms' c d caps caps'} hc hn hcaps := by
    rw [Grip.repeated]
    split_ifs with hg hleast
    · have hnil : body.ways terms' c.torn caps' = [] := by
        have hallows := h.allows hc hn hcaps
        rwa [hg] at hallows
      subst hleast
      intro w hw
      unfold ways at hw
      cases most <;> exact List.mem_singleton.mp (Way.rounds_of_nil hnil _ _ _ ▸ hw)
    · have hnil : body.ways terms' c.torn caps' = [] := by
        have hallows := h.allows hc hn hcaps
        rwa [hg] at hallows
      obtain ⟨n, rfl⟩ := Nat.exists_eq_succ_of_ne_zero hleast
      change (Regex.repeated body (n + 1) most greedy).ways terms' c.torn caps' = []
      unfold ways
      rw [Way.exactly, hnil]
      rfl
    · trivial

end Regex

/-! ### Repetitions of one character -/

namespace Regex

variable {p : Char → Bool} {c : Cursor}

namespace Aligned

variable {a : Alignment} {r s t : Regex} {names : String → Prop} {terms terms' : Terms}
  {caps caps' : Captures}

theorem assoc (h : (Regex.cat r (Regex.cat s t)).Aligned a) :
    (Regex.cat (Regex.cat r s) t).Aligned a where
  follows hnames _ _ _ _ _ hc hcaps := by
    rw [ways_cat_assoc, ways_cat_assoc]
    exact h.follows hnames hc hcaps
  allows hc hn hcaps := by
    rw [ways_cat_assoc]
    exact h.allows hc hn hcaps

/-- A character that takes either half of a line end, at the start of a line end. -/
theorem step_of_newline {d : Cursor} (hp : p '\n' = true) (hr : p '\r' = true)
    (hn : c.next? = some ('\n', d)) (caps caps' : Captures) :
    Way.step p c caps = [(d, caps)] ∧ Way.step p c.crlf caps' = [(c.torn, caps')] ∧
      Way.step p c.torn caps' = [(d.crlf, caps')] := by
  simp [Way.step, hn, Cursor.next?_crlf_of_newline hn, Cursor.next?_torn hn, hp, hr]

/-- A character that takes either half of a line end, elsewhere. -/
theorem step_of_ne {x : Char} {d : Cursor} (hn : c.next? = some (x, d)) (hx : x ≠ '\n')
    (p : Char → Bool) (caps caps' : Captures) :
    Way.step p c caps = (if p x then [(d, caps)] else []) ∧
      Way.step p c.crlf caps' = if p x then [(d.crlf, caps')] else [] := by
  simp [Way.step, hn, Cursor.next?_crlf_of_ne hn hx]

/-- At a torn line end, a repetition goes on behind the newline. -/
theorem ways_many_torn {d : Cursor} (hp : r.takes? = some p) (hn : p '\n' = true)
    (hr : p '\r' = true) (hc : c.Lf terms terms') (hnext : c.next? = some ('\n', d)) :
    (many r).ways terms' c.torn caps' =
      (many r).ways terms' d.crlf caps' ++ [(c.torn, caps')] := by
  have hroom : c.torn.after.length ≤ terms'.bound :=
    (Cursor.leads_torn hnext).length_le.trans hc.room'
  obtain ⟨-, -, hstep⟩ := step_of_newline hn hr hnext caps' caps'
  rw [ways_many hp hroom, hstep, List.flatMap_singleton]

/-- The ways of a repetition that takes either half of a line end. -/
theorem follows_many (hp : r.takes? = some p) (hn : p '\n' = true) (hr : p '\r' = true)
    (hnames : ∀ n ∈ referredNames, names n) (hc : c.Lf terms terms')
    (hcaps : caps.Crlf names caps') :
    Way.Follows (Way.Crlf names c) (fun w' => true = true ∧ Way.Torn c w')
      ((many r).ways terms c caps) ((many r).ways terms' c.crlf caps') := by
  generalize hlen : c.after.length = n
  induction n generalizing c with
  | zero =>
    have hnone : c.next? = none := by
      rw [Cursor.next?, List.length_eq_zero_iff.mp hlen]
    rw [ways_many hp hc.room, ways_many hp hc.room', Way.step, Way.step, hnone,
      Cursor.next?_crlf_of_none hnone]
    exact .singleton ⟨⟨[], .refl c⟩, rfl, hcaps⟩
  | succ n ih =>
    obtain ⟨x, rest, hafter⟩ := List.exists_cons_of_length_eq_add_one hlen
    obtain ⟨d, hnext⟩ := Cursor.next?_of_after hafter
    have hl := Cursor.leads_of_next? hnext
    have hrest : d.after.length = n := by
      have h := congrArg List.length hl.after
      rw [List.length_append, List.length_singleton] at h
      omega
    have hlater := (ih (hc.next hnext) hrest).fromBefore hl
    have hstay : Way.Crlf names c (c, caps) (c.crlf, caps') := ⟨⟨[], .refl c⟩, rfl, hcaps⟩
    rw [ways_many hp hc.room, ways_many hp hc.room']
    by_cases hx : x = '\n'
    · subst hx
      obtain ⟨hstep, hstep', -⟩ := step_of_newline hn hr hnext caps caps'
      rw [hstep, hstep', List.flatMap_singleton, List.flatMap_singleton,
        ways_many_torn hp hn hr hc hnext, List.append_assoc]
      -- There is one way more: the one that ends behind the carriage return.
      refine hlater.append
        (.torn ⟨rfl, ⟨[], c, d, .refl c, hnext, rfl⟩, caps, ?_⟩ (.singleton hstay))
      exact hcaps.mono hnames
    · obtain ⟨hstep, hstep'⟩ := step_of_ne hnext hx p caps caps'
      rw [hstep, hstep']
      split_ifs
      · rw [List.flatMap_singleton, List.flatMap_singleton]
        exact hlater.append (.singleton hstay)
      · exact .singleton hstay

theorem many (hp : r.takes? = some p) (hn : p '\n' = true) (hr : p '\r' = true) :
    (Regex.many r).Aligned ⟨true, .free⟩ where
  follows hnames _ _ _ _ _ hc hcaps := follows_many hp hn hr hnames hc hcaps
  allows _ _ _ := trivial

theorem many1 (hp : r.takes? = some p) (hn : p '\n' = true) (hr : p '\r' = true) :
    (Regex.many1 r).Aligned ⟨true, .free⟩ where
  follows {names} hnames terms terms' c caps caps' hc hcaps := by
    have hfirst : ∀ (terms : Terms) (c : Cursor) (caps : Captures),
        (Regex.many1 r).ways terms c caps =
        (Way.step p c caps).flatMap fun w => (Regex.many r).ways terms w.1 w.2 := by
      intro terms c caps
      rw [← ways_of_takes? hp terms]
      rfl
    rw [hfirst, hfirst]
    cases hnext : c.next? with
    | none =>
      rw [Way.step, Way.step, hnext, Cursor.next?_crlf_of_none hnext]
      exact .nil
    | some m =>
      obtain ⟨x, d⟩ := m
      have hl := Cursor.leads_of_next? hnext
      have hlater := (follows_many hp hn hr hnames (hc.next hnext) hcaps).fromBefore hl
      by_cases hx : x = '\n'
      · subst hx
        obtain ⟨hstep, hstep', -⟩ := step_of_newline hn hr hnext caps caps'
        rw [hstep, hstep', List.flatMap_singleton, List.flatMap_singleton,
          ways_many_torn hp hn hr hc hnext, ← List.append_nil ((Regex.many r).ways terms d caps)]
        refine hlater.append (.torn ⟨rfl, ⟨[], c, d, .refl c, hnext, rfl⟩, caps, ?_⟩ .nil)
        exact hcaps.mono hnames
      · obtain ⟨hstep, hstep'⟩ := step_of_ne hnext hx p caps caps'
        rw [hstep, hstep']
        split_ifs
        · rw [List.flatMap_singleton, List.flatMap_singleton]
          exact hlater
        · exact .nil
  allows _ _ _ := trivial

/-- The end of a line, with or without a carriage return. -/
theorem lineBreak : (Regex.optional (char '\r') ++ char '\n').Aligned ⟨false, .free⟩ where
  follows {names} hnames terms terms' c caps caps' hc hcaps := by
    have hways : ∀ (terms : Terms) (c : Cursor) (caps : Captures),
        (Regex.optional (char '\r') ++ char '\n').ways terms c caps =
          ((Way.step (· == '\r') c caps).flatMap fun w => Way.step (· == '\n') w.1 w.2) ++
            Way.step (· == '\n') c caps := by
      intro terms c caps
      change ((Regex.optional (char '\r')).ways terms c caps).flatMap _ = _
      rw [ways_optional, List.flatMap_append, List.flatMap_singleton]
      rfl
    rw [hways, hways]
    cases hnext : c.next? with
    | none =>
      simp only [Way.step, hnext, Cursor.next?_crlf_of_none hnext]
      exact .nil
    | some m =>
      obtain ⟨x, d⟩ := m
      have hr : x ≠ '\r' := hc.ne_return hnext
      by_cases hx : x = '\n'
      · subst hx
        have hplain : Way.Crlf names c (d, caps) (d.crlf, caps') :=
          ⟨⟨_, Cursor.leads_of_next? hnext⟩, rfl, hcaps⟩
        simpa [Way.step, hnext, Cursor.next?_crlf_of_newline hnext, Cursor.next?_torn hnext]
          using Way.Follows.singleton hplain
      · simpa [Way.step, hnext, Cursor.next?_crlf_of_ne hnext hx, hr, hx] using Way.Follows.nil
  allows _ _ _ := trivial

end Aligned

end Regex

/-! ### Reading the alignment off an expression -/

namespace Alignment

/-- The alignment of one character. -/
def one (r : Regex) : Option Alignment :=
  r.takes?.bind fun p => if p '\n' then none else some ⟨p '\r', .bars⟩

/-- The alignment of one expression after another. -/
def andThen (a b : Alignment) : Option Alignment :=
  if a.tears && b.grip == .free then none
  else some ⟨b.tears || (a.tears && b.grip == .stays), a.grip.andThen b.grip⟩

/-- The alignment of one expression or another. -/
def or (a b : Alignment) : Alignment := ⟨a.tears || b.tears, a.grip.or b.grip⟩

/-- Whether the body of a group is long enough for its name. -/
def isSolid (name : String) (body : Regex) : Bool :=
  !decide (name ∈ solidNames) || body.isBasic && decide (0 < body.minWidth)

/-- The alignment of a group. -/
def group (name : String) (body : Regex) (a : Alignment) : Option Alignment :=
  if isSolid name body && !(a.tears && decide (name ∈ referredNames)) then
    some ⟨a.tears, a.grip.captured⟩
  else none

/-- The alignment of a repetition. -/
def repeated (least : Nat) (a : Alignment) : Option Alignment :=
  if a.tears && a.grip != .bars then none else some ⟨a.tears, a.grip.repeated least⟩

/-- The alignment of a greedy repetition of one character that takes either half of a line end. -/
def lineEnds (body : Regex) (greedy : Bool) : (least : Nat) → (most : Option Nat) → Option Alignment
  | 0, none | 1, none =>
    if greedy && body.takes?.any fun p => p '\n' && p '\r' then some ⟨true, .free⟩ else none
  | _, _ => none

/-- The alignment of an assertion about the text that follows. -/
def ahead (a : Alignment) : Option Alignment := if a.tears then none else some ⟨false, .stays⟩

/-- The alignment of an assertion about the text in front. -/
def behind (body : Regex) (width : Nat) : Option Alignment :=
  if body.tests?.any fun ps => ps.length == width && ps.tail.all fun p => !p '\n' then
    some ⟨false, .stays⟩
  else none

/-- The alignment of a reference. -/
def reference (name : String) : Option Alignment :=
  if name ∈ referredNames then some ⟨false, if name ∈ solidNames then .bars else .free⟩ else none

end Alignment

namespace Regex

/-- The alignment of an expression, if it can be read off. -/
def alignment : Regex → Option Alignment
  | empty => some ⟨false, .stays⟩
  | anchor .wordEdge => some ⟨false, .stays⟩
  | anchor .lineStart => some ⟨false, .bars⟩
  | cat a b => a.alignment.bind fun x => b.alignment.bind x.andThen
  | alt a b => a.alignment.bind fun x => b.alignment.map x.or
  | group name body => body.alignment.bind (Alignment.group name body)
  | repeated body least most greedy =>
    (body.alignment.bind (Alignment.repeated least)).or (Alignment.lineEnds body greedy least most)
  | look .ahead true body => body.alignment.bind Alignment.ahead
  | look (.behind width) true body => Alignment.behind body width
  | backReference name false => Alignment.reference name
  | r => Alignment.one r

theorem aligned_of_one {r : Regex} {a : Alignment} (h : Alignment.one r = some a) :
    r.Aligned a := by
  obtain ⟨p, hp, ha⟩ := Option.bind_eq_some_iff.mp h
  split_ifs at ha with hn
  rw [← Option.some.inj ha]
  exact .one hp (Bool.not_eq_true _ ▸ hn)

theorem aligned_of_lineEnds {body : Regex} {greedy : Bool} {least : Nat} {most : Option Nat}
    {a : Alignment} (h : Alignment.lineEnds body greedy least most = some a) :
    (repeated body least most greedy).Aligned a := by
  unfold Alignment.lineEnds at h
  split at h
  · split_ifs at h with hcond
    rw [Bool.and_eq_true, Option.any_eq_true] at hcond
    obtain ⟨rfl, p, hp, hboth⟩ := hcond
    rw [Bool.and_eq_true] at hboth
    exact Option.some.inj h ▸ Aligned.many hp hboth.1 hboth.2
  · split_ifs at h with hcond
    rw [Bool.and_eq_true, Option.any_eq_true] at hcond
    obtain ⟨rfl, p, hp, hboth⟩ := hcond
    rw [Bool.and_eq_true] at hboth
    exact Option.some.inj h ▸ Aligned.many1 hp hboth.1 hboth.2
  · simp at h

theorem aligned_of_behind {body : Regex} {width : Nat} {a : Alignment}
    (h : Alignment.behind body width = some a) : (look (.behind width) true body).Aligned a := by
  unfold Alignment.behind at h
  split_ifs at h with hcond
  obtain ⟨ps, hps, hcond⟩ := (Option.any_eq_true _ _).mp hcond
  simp only [Bool.and_eq_true, beq_iff_eq, List.all_eq_true, Bool.not_eq_true'] at hcond
  rw [← Option.some.inj h, ← hcond.1]
  exact .lookBehind hps hcond.2

/-- **Alignments are right.** -/
theorem aligned_of_alignment {r : Regex} {a : Alignment} (h : r.alignment = some a) :
    r.Aligned a := by
  induction r generalizing a with
  | empty => exact Option.some.inj h ▸ .empty
  | anchor kind =>
    cases kind with
    | wordEdge => exact Option.some.inj h ▸ .wordEdge
    | lineStart => exact Option.some.inj h ▸ .lineStart
    | _ => simp [alignment, Alignment.one, takes?] at h
  | cat r s ihr ihs =>
    obtain ⟨x, hx, h⟩ := Option.bind_eq_some_iff.mp h
    obtain ⟨y, hy, h⟩ := Option.bind_eq_some_iff.mp h
    unfold Alignment.andThen at h
    split_ifs at h with hcond
    rw [← Option.some.inj h]
    exact (ihr hx).cat (ihs hy) fun htears hfree => hcond (by simp [htears, hfree])
  | alt r s ihr ihs =>
    obtain ⟨x, hx, h⟩ := Option.bind_eq_some_iff.mp h
    obtain ⟨y, hy, h⟩ := Option.map_eq_some_iff.mp h
    exact h ▸ (ihr hx).alt (ihs hy)
  | group name body ih =>
    obtain ⟨x, hx, h⟩ := Option.bind_eq_some_iff.mp h
    unfold Alignment.group at h
    split_ifs at h with hcond
    simp only [Alignment.isSolid, Bool.and_eq_true, Bool.or_eq_true, Bool.not_eq_true',
      decide_eq_false_iff_not, decide_eq_true_eq, Bool.and_eq_false_iff] at hcond
    rw [← Option.some.inj h]
    refine (ih hx).group (fun htears => hcond.2.resolve_left (by simp [htears])) fun hname => ?_
    obtain ⟨hbasic, hwide⟩ := hcond.1.resolve_left fun hnot => hnot hname
    exact ⟨basic_of_isBasic hbasic, hwide⟩
  | repeated body least most greedy ih =>
    rcases Option.or_eq_some_iff.mp h with h | ⟨-, h⟩
    · obtain ⟨x, hx, h⟩ := Option.bind_eq_some_iff.mp h
      unfold Alignment.repeated at h
      split_ifs at h with hcond
      rw [← Option.some.inj h]
      refine (ih hx).repeated (fun htears => ?_) least most greedy
      by_contra hgrip
      exact hcond (by simp [htears, hgrip])
    · exact aligned_of_lineEnds h
  | look direction negated body ih =>
    cases negated with
    | true =>
      cases direction with
      | ahead =>
        obtain ⟨x, hx, h⟩ := Option.bind_eq_some_iff.mp h
        unfold Alignment.ahead at h
        split_ifs at h with htears
        exact Option.some.inj h ▸ (ih hx).notBefore (Bool.not_eq_true _ ▸ htears)
      | behind width => exact aligned_of_behind h
    | false => simp [alignment, Alignment.one, takes?] at h
  | backReference name anyCase =>
    cases anyCase with
    | false =>
      by_cases hname : name ∈ referredNames
      · rw [alignment, Alignment.reference, if_pos hname] at h
        exact Option.some.inj h ▸ .backReference hname
      · simp [alignment, Alignment.reference, hname] at h
    | true => simp [alignment, Alignment.one, takes?] at h
  | _ => exact aligned_of_one h

end Regex

end CApiUpgrade
