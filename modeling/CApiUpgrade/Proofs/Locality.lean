import CApiUpgrade.Proofs.Control
import CApiUpgrade.Proofs.Repetition

/-!
# Rewriting is local

A text is put together from two parts, and the first part ends in a semicolon and an empty line.
Then both parts can be patched on their own (`patch_append`), unless the first line of the second
part reads `else` or `do`.

* No match of a pattern reaches across the empty line, and none depends on what follows it: what is
  tried from a position in front of it never comes to its end (`Pattern.staysBefore`).
* Behind the empty line, nothing depends on what stands in front of it, apart from folds behind a
  line that reads `else` or `do`.  No rule makes such a line that matters (`Rule.calm_of_apply`).
* What a pass leaves of the first part ends in a semicolon and an empty line again.
-/

namespace CApiUpgrade

open Text Tracker

/-! ### Attempts in a longer text -/

theorem Captures.textOf_within {known : String → List Char → Prop} {caps : Captures}
    (h : caps.Hold known) (left right : List Char) (name : String) :
    (caps.within left right).textOf name = caps.textOf name := by
  rw [textOf, textOf, lookup_within, Option.map_map]
  cases hspan : caps.lookup name with
  | none => rfl
  | some span =>
    obtain ⟨u, hu, -, -⟩ := h.of_lookup hspan
    simp only [Option.map_some, Function.comp_apply, Span.text_within hu]

namespace Pattern

variable {p : Pattern} {left right : List Char} {bound bound' : Nat} {cur stop : Cursor}
  {caps : Captures}

/-- What a group of a pattern can match, as far as its body tells. -/
def Matches (p : Pattern) (name : String) (w : List Char) : Prop :=
  ∃ body, (name, body) ∈ p.regex.bodies ∧ body.Spells (.loose fun _ _ => True) w

theorem matches_of_mem_bodies {e : String × Regex} (he : e ∈ p.regex.bodies) {w : List Char}
    (hw : e.2.Spells (.loose p.Matches) w) : p.Matches e.1 w :=
  ⟨e.2, he, @Regex.Spells.mono e.2 (.loose p.Matches) (.loose fun _ _ => True)
    (fun _ _ h => h) (fun _ _ _ => trivial) (fun _ h => h) w hw⟩

namespace Regular

/-- What replaces a match is the same in a longer text. -/
theorem fill_within (hp : p.Regular) (h : p.attempt bound cur = some (stop, caps))
    (left right : List Char) :
    p.template.fill (caps.within left right).textOf = p.template.fill caps.textOf := by
  have hmem : (stop, caps) ∈ p.regex.ways ⟨none, bound, none⟩ cur [] := List.mem_of_head? h
  obtain ⟨-, -, -, hhold⟩ := hp.basic.spells_of_mem_ways
    (fun e he w hw => matches_of_mem_bodies he hw) (Captures.Hold.nil _) hmem
  rw [funext (Captures.textOf_within hhold left right)]

/-- The attempts of a steady pattern in a longer text. -/
theorem attempt_within (hp : p.Regular) (hsteady : p.regex.isSteady true = true)
    (hleft : left = [] ∨ left.head? = some '\n') (hfront : p.regex.Fronts left cur) {s : Nat}
    (hright : right = [] ∨
      (p.regex.flow zones (zones.reference p.regex.bodies) s).testBit 3 = false)
    (hzone : right = [] ∨ ∃ i, s.testBit i = true ∧ Zone i cur.after)
    (hbound : cur.after.length ≤ bound) (hbound' : cur.after.length ≤ bound') :
    p.attempt bound' (cur.within left right) =
      (p.attempt bound cur).map (Way.within left right) := by
  have hbodies : ∀ e ∈ p.regex.bodies, e.2.Basic := fun _ => hp.basic.of_mem_bodies
  have hrefer : ∀ n w, p.Matches n w → ∀ s i j, s.testBit i = true → zones.Path i w j →
      (zones.reference p.regex.bodies n s).testBit j = true := by
    rintro n w ⟨body, hmem, hw⟩ s i j hs hpath
    have hname : n ∈ p.regex.bodies.map Prod.fst := List.mem_map.mpr ⟨_, hmem, rfl⟩
    rw [Tracker.reference, if_pos hname]
    exact testBit_refer hbodies hmem hw hs hpath
  have hways : p.regex.ways ⟨none, bound', none⟩ (cur.within left right)
        (Captures.within left right []) =
      (p.regex.ways ⟨none, bound, none⟩ cur []).map (Way.within left right) :=
    hp.basic.ways_within hsteady hleft (fun e he w hw => matches_of_mem_bodies he hw) hrefer
      (fun n s hs => testBit_reference_sink (by decide) hs) hright (fun _ => hfront)
      ⟨hzone, Captures.Hold.nil _, hbound, hbound'⟩
  rw [attempt, attempt, Regex.attempt, Regex.attempt, ← List.head?_map, ← hways]
  rfl

/-- In a longer text on the left, whose last line is empty. -/
theorem attempt_left (hp : p.Regular) (hsteady : p.regex.isSteady true = true)
    (hleft : left.head? = some '\n') (hfront : p.regex.Fronts left cur)
    (hbound : cur.after.length ≤ bound) (hbound' : cur.after.length ≤ bound') :
    p.attempt bound' (cur.within left []) = (p.attempt bound cur).map (Way.within left []) :=
  hp.attempt_within (s := 0) hsteady (.inr hleft) hfront (.inl rfl) (.inl rfl) hbound hbound'

/-- In a longer text on the right. -/
theorem attempt_right (hp : p.Regular) (hsteady : p.regex.isSteady true = true) {s i : Nat}
    (hstays : (p.regex.flow zones (zones.reference p.regex.bodies) s).testBit 3 = false)
    (hi : s.testBit i = true) (hzone : Zone i cur.after) (hbound : cur.after.length ≤ bound)
    (hbound' : cur.after.length ≤ bound') :
    p.attempt bound' (cur.within [] right) = (p.attempt bound cur).map (Way.within [] right) :=
  hp.attempt_within hsteady (.inl rfl) (fun _ _ _ _ => by rw [List.append_nil]) (.inr hstays)
    (.inr ⟨i, hi, hzone⟩) hbound hbound'

/-- Where a match ends. -/
theorem zone_of_attempt (hp : p.Regular) (h : p.attempt bound cur = some (stop, caps)) {s i : Nat}
    (hi : s.testBit i = true) (hzone : Zone i cur.after) :
    ∃ j, (p.regex.flow zones (zones.reference p.regex.bodies) s).testBit j = true ∧
      Zone j stop.after := by
  obtain ⟨m, hl, hm⟩ := hp.reads h
  rw [hl.after] at hzone
  obtain ⟨j, hj, hx⟩ := exists_path_zones hzone
  refine ⟨j, ?_, hx⟩
  exact hp.basic.testBit_flow (fun n w hw s i j => testBit_reference hp.basic hm hw) hm hi hj

end Regular

/-! ### Text on the left -/

/-- **Text on the left.**  Behind an empty line, the pass over a calm text is the same as at its
start. -/
theorem Pass.within_left {stage : Stage} {hits : List Hit} {out : List Char}
    (h : p.Pass bound cur hits out) (hp : p.Regular) (hsteady : p.regex.isSteady true = true)
    (hlooks : p.looksBehind stage = true) (hkeeps : stage ≠ .tests → p.keepsCalm stage = true)
    (hcalm : Calm stage cur.text) (hleft : ['\n', '\n'] <+: left)
    (hbound : cur.after.length ≤ bound) (hbound' : cur.after.length ≤ bound') :
    ∃ hits', p.Pass bound' (cur.within left []) hits' out ∧ (hits' = [] ↔ hits = []) := by
  -- At a position where a first line ends that matters, there is no match in either text.
  have hattempt : ∀ {cur : Cursor}, Calm stage cur.text → cur.after.length ≤ bound →
      cur.after.length ≤ bound' →
      p.attempt bound' (cur.within left []) = (p.attempt bound cur).map (Way.within left []) := by
    intro cur hcalm hbound hbound'
    rcases fronts_or_past hlooks hleft cur with hfront | ⟨hstage, hpast⟩
    · have hhead : left.head? = some '\n' := by
        obtain ⟨rest, rfl⟩ := hleft
        rfl
      exact hp.attempt_left hsteady hhead hfront hbound hbound'
    · have hnone := fun {bound : Nat} {cur' : Cursor} =>
        @Regular.attempt_eq_none_of_past p stage hp (hkeeps hstage) _ _ hcalm hpast bound cur'
      rw [hnone rfl, hnone (List.append_nil _), Option.map_none]
  induction h with
  | @done cur hafter ha =>
    have hnone := hattempt hcalm hbound hbound'
    rw [ha, Option.map_none] at hnone
    exact ⟨[], .done (by rw [Cursor.within, hafter, List.append_nil]) hnone, Iff.rfl⟩
  | @skip cur next x hits out ha hn _ ih =>
    have hlen := (Cursor.leads_of_next? hn).length_le
    obtain ⟨hits', hpass, hempty⟩ := ih (Cursor.text_of_next? hn ▸ hcalm) (hlen.trans hbound)
      (hlen.trans hbound')
    have hnone := hattempt hcalm hbound hbound'
    rw [ha, Option.map_none] at hnone
    have hnext := @Cursor.next?_within left [] cur (.inl rfl)
    rw [hn] at hnext
    exact ⟨hits', .skip hnone hnext hpass, hempty⟩
  | @hit cur stop caps hits out ha _ ih =>
    obtain ⟨m, hl, -⟩ := hp.reads ha
    have hlen := hl.length_le
    obtain ⟨hits', hpass, -⟩ := ih (hl.text_eq ▸ hcalm) (hlen.trans hbound) (hlen.trans hbound')
    have hsome := hattempt hcalm hbound hbound'
    rw [ha, Option.map_some] at hsome
    have hhit := Pass.hit hsome hpass
    rw [hp.fill_within ha] at hhit
    exact ⟨_, hhit, by simp⟩

/-! ### Text on the right -/

/-- Whether no match of a pattern reaches across an empty line behind a semicolon or depends on what
follows it, and what replaces a match that ends in the semicolon ends in a semicolon. -/
def staysBefore (p : Pattern) : Bool :=
  let stops := p.regex.flow zones (zones.reference p.regex.bodies)
  p.regex.isSteady true && stops 1 ||| 3 == 3 && stops 6 == 0 &&
    (!(stops 1).testBit 1 || p.template.getLast?.any fun
      | .plain text => text.toList.getLast? == some ';'
      | .group _ => false)

variable {text out : List Char} {hits : List Hit}

theorem stops_of_staysBefore (h : p.staysBefore = true) :
    p.regex.isSteady true = true ∧
      (∀ i, (p.regex.flow zones (zones.reference p.regex.bodies) 1).testBit i = true →
        i = 0 ∨ i = 1) ∧
      p.regex.flow zones (zones.reference p.regex.bodies) 6 = 0 := by
  simp only [staysBefore, Bool.and_eq_true, beq_iff_eq] at h
  refine ⟨h.1.1.1, fun i hi => ?_, h.1.2⟩
  have hbit : (3 : Nat).testBit i = true := by
    rw [← h.1.1.2, Nat.testBit_or, hi, Bool.true_or]
  match i with
  | 0 => exact .inl rfl
  | 1 => exact .inr rfl
  | n + 2 => simp [Nat.testBit_succ] at hbit

/-- A match in front of the empty line starts in front of the semicolon and ends at it or before. -/
theorem Regular.zone_of_staysBefore (hp : p.Regular) (hstays : p.staysBefore = true)
    (ha : p.attempt bound cur = some (stop, caps)) {i : Nat} (hi : i < 3)
    (hzone : Zone i cur.after) :
    i = 0 ∧ (Zone 0 stop.after ∨ Zone 1 stop.after ∧
      (p.regex.flow zones (zones.reference p.regex.bodies) 1).testBit 1 = true) := by
  obtain ⟨-, hstops, hnone⟩ := stops_of_staysBefore hstays
  match i, hi with
  | 0, _ =>
    obtain ⟨j, hj, hz⟩ := hp.zone_of_attempt ha (s := 1) (i := 0) rfl hzone
    rcases hstops j hj with rfl | rfl
    · exact ⟨rfl, .inl hz⟩
    · exact ⟨rfl, .inr ⟨hz, hj⟩⟩
  | 1, _ | 2, _ =>
    obtain ⟨j, hj, -⟩ := hp.zone_of_attempt ha (s := 6) (by decide) hzone
    simp [hnone] at hj

theorem Pass.eq_nil (h : p.Pass bound cur hits out) (hp : p.Regular) (hafter : cur.after = []) :
    hits = [] ∧ out = [] := by
  cases h with
  | done => exact ⟨rfl, rfl⟩
  | skip _ hn _ => simp [(Cursor.leads_of_next? hn).after] at hafter
  | hit ha _ =>
    obtain ⟨m, hl, -⟩ := hp.reads ha
    have hlt := hp.offset_lt ha
    rw [hl.offset] at hlt
    have hlen := congrArg List.length hl.after
    rw [hafter, List.length_append, List.length_nil] at hlen
    omega

/-- What replaces a match that ends in the semicolon ends in a semicolon. -/
theorem exists_fill_of_staysBefore (hstays : p.staysBefore = true)
    (hend : (p.regex.flow zones (zones.reference p.regex.bodies) 1).testBit 1 = true)
    (texts : String → Option (List Char)) : ∃ v, p.template.fill texts = v ++ [';'] := by
  simp only [staysBefore, Bool.and_eq_true, Bool.or_eq_true, Bool.not_eq_true', hend,
    Option.any_eq_true] at hstays
  obtain ⟨part, hpart, hlast⟩ := hstays.2.resolve_left (by simp)
  cases part with
  | group name => simp at hlast
  | plain text =>
    obtain ⟨init, hinit⟩ := List.getLast?_eq_some_iff.mp hpart
    obtain ⟨v, hv⟩ := List.getLast?_eq_some_iff.mp (beq_iff_eq.mp hlast)
    have hfill : p.template.fill texts = Template.fill texts init ++ text.toList := by
      rw [hinit, Template.fill, List.flatMap_append, List.flatMap_singleton]
      rfl
    exact ⟨Template.fill texts init ++ v, by rw [hfill, hv, List.append_assoc]⟩

theorem zone_zero_of_cons {x : Char} (h : Zone 0 (x :: text)) :
    Zone 0 text ∨ x = ';' ∧ Zone 1 text := by
  obtain ⟨v, hv⟩ := h
  cases v with
  | nil => exact .inr ⟨(List.cons.inj hv).1, (List.cons.inj hv).2⟩
  | cons y v => exact .inl ⟨v, (List.cons.inj hv).2⟩

/-- **Text on the right.**  Behind a semicolon and an empty line, more text goes on with its own
pass.  What the pass over the old text leaves ends as the old text does. -/
theorem Pass.within_right (h : p.Pass bound cur hits out) (hp : p.Regular)
    (hstays : p.staysBefore = true) {i : Nat} (hi : i < 3) (hzone : Zone i cur.after)
    (hbound : cur.after.length ≤ bound) (hbound' : cur.after.length ≤ bound') {more : List Hit}
    {rest : List Char} (hmore : ∀ stop : Cursor, stop.after = [] → stop.text = cur.text →
      p.Pass bound' (stop.within [] right) more rest) :
    Zone i out ∧ ∃ hits', p.Pass bound' (cur.within [] right) hits' (out ++ rest) ∧
      (hits' = [] ↔ hits = [] ∧ more = []) := by
  obtain ⟨hsteady, hstops, hnone⟩ := stops_of_staysBefore hstays
  have hattempt : ∀ {cur : Cursor} {i : Nat}, i < 3 → Zone i cur.after →
      cur.after.length ≤ bound → cur.after.length ≤ bound' →
      p.attempt bound' (cur.within [] right) = (p.attempt bound cur).map (Way.within [] right) := by
    intro cur i hi hzone hbound hbound'
    match i, hi with
    | 0, _ =>
      have hsink : (p.regex.flow zones (zones.reference p.regex.bodies) 1).testBit 3 = false := by
        rw [Bool.eq_false_iff]
        intro h3
        exact absurd (hstops 3 h3) (by decide)
      exact hp.attempt_right hsteady hsink (i := 0) rfl hzone hbound hbound'
    | 1, _ | 2, _ =>
      exact hp.attempt_right hsteady (s := 6) (by simp [hnone]) (by decide) hzone hbound hbound'
  induction h generalizing i with
  | @done cur hafter ha =>
    rw [hafter] at hzone
    match i, hi with
    | 0, _ => exact absurd (eq_three_of_zone_nil hzone) (by decide)
    | 1, _ | 2, _ => exact absurd (eq_three_of_zone_nil hzone) (by decide)
  | @skip cur next x hits out ha hn hpass ih =>
    have hl := Cursor.leads_of_next? hn
    have hlen := hl.length_le
    have hafter : cur.after = x :: next.after := hl.after
    have hskip := hattempt hi hzone hbound hbound'
    rw [ha, Option.map_none] at hskip
    have hnext := @Cursor.next?_within [] right cur (.inr (by simp [hafter]))
    rw [hn, Option.map_some] at hnext
    -- Once the character is skipped, it is in front of what the rest of the pass leaves.
    have hback : ∀ {hits' : List Hit}, p.Pass bound' (next.within [] right) hits' (out ++ rest) →
        p.Pass bound' (cur.within [] right) hits' (x :: out ++ rest) := .skip hskip hnext
    have hlater : ∀ {j : Nat}, j < 3 → Zone j next.after → Zone j out ∧ ∃ hits',
        p.Pass bound' (cur.within [] right) hits' (x :: out ++ rest) ∧
          (hits' = [] ↔ hits = [] ∧ more = []) := by
      intro j hj hz
      obtain ⟨hout, hits', hpass', hempty⟩ := ih hj hz (hlen.trans hbound) (hlen.trans hbound')
        fun stop hstop htext => hmore stop hstop (htext.trans hl.text_eq)
      exact ⟨hout, hits', hback hpass', hempty⟩
    rw [hafter] at hzone
    match i, hi with
    | 0, _ =>
      rcases zone_zero_of_cons hzone with hz | ⟨rfl, hz⟩
      · obtain ⟨⟨v, hv⟩, hrest⟩ := hlater (by decide) hz
        exact ⟨⟨x :: v, by rw [hv, List.cons_append]⟩, hrest⟩
      · obtain ⟨hout, hrest⟩ := hlater (by decide) hz
        exact ⟨⟨[], congrArg (';' :: ·) hout⟩, hrest⟩
    | 1, _ =>
      obtain ⟨hout, hrest⟩ := hlater (j := 2) (by decide) (List.cons.inj hzone).2
      refine ⟨?_, hrest⟩
      rw [(List.cons.inj hzone).1]
      exact congrArg ('\n' :: ·) hout
    | 2, _ =>
      have hnil : next.after = [] := (List.cons.inj hzone).2
      obtain ⟨rfl, rfl⟩ := hpass.eq_nil hp hnil
      refine ⟨congrArg (· :: []) (List.cons.inj hzone).1, more, hback ?_, by simp⟩
      exact hmore next hnil hl.text_eq
  | @hit cur stop caps hits out ha _ ih =>
    obtain ⟨m, hl, -⟩ := hp.reads ha
    have hlen := hl.length_le
    have hhit := hattempt hi hzone hbound hbound'
    rw [ha, Option.map_some] at hhit
    obtain ⟨rfl, hstop⟩ := hp.zone_of_staysBefore hstays ha hi hzone
    have hlater : ∀ {j : Nat}, j < 3 → Zone j stop.after → Zone j out ∧ ∃ hits',
        p.Pass bound' (cur.within [] right) hits' (p.template.fill caps.textOf ++ out ++ rest) ∧
          (hits' = [] ↔ (⟨cur, stop, caps⟩ :: hits : List Hit) = [] ∧ more = []) := by
      intro j hj hz
      obtain ⟨hout, hits', hpass', -⟩ := ih hj hz (hlen.trans hbound) (hlen.trans hbound')
        fun stop' hstop' htext => hmore stop' hstop' (htext.trans hl.text_eq)
      have hnew := Pass.hit hhit hpass'
      rw [hp.fill_within ha, ← List.append_assoc] at hnew
      exact ⟨hout, _, hnew, by simp⟩
    rcases hstop with hz | ⟨hz, hend⟩
    · obtain ⟨⟨v, hv⟩, hrest⟩ := hlater (by decide) hz
      exact ⟨⟨p.template.fill caps.textOf ++ v, by rw [hv, List.append_assoc]⟩, hrest⟩
    · obtain ⟨hout, hrest⟩ := hlater (by decide) hz
      obtain ⟨v, hv⟩ := exists_fill_of_staysBefore hstays hend caps.textOf
      refine ⟨⟨v, ?_⟩, hrest⟩
      rw [hv, (hout : out = ['\n', '\n']), List.append_assoc]
      rfl

/-- **A pattern on two parts.**  The first part ends in a semicolon and an empty line, and the
second part is calm. -/
theorem Regular.pass_append {stage : Stage} (hp : p.Regular) (hstays : p.staysBefore = true)
    (hlooks : p.looksBehind stage = true) (hkeeps : stage ≠ .tests → p.keepsCalm stage = true)
    {a b out' : List Char} {hits' : List Hit} (ha : Zone 0 a) (hb : Calm stage b)
    (hpass : p.Pass a.length (Cursor.ofText a) hits out)
    (hpass' : p.Pass b.length (Cursor.ofText b) hits' out') :
    Zone 0 out ∧ ∃ hits'', p.Pass (a ++ b).length (Cursor.ofText (a ++ b)) hits'' (out ++ out') ∧
      (hits'' = [] ↔ hits = [] ∧ hits' = []) := by
  have hleft : ['\n', '\n'] <+: a.reverse := by
    obtain ⟨v, hv⟩ := ha
    exact ⟨';' :: v.reverse, by simp [hv]⟩
  obtain ⟨more, hmore, hempty⟩ :=
    @Pass.within_left p a.reverse b.length (a ++ b).length _ stage hits' out' hpass' hp
    (stops_of_staysBefore hstays).1 hlooks hkeeps (by rwa [Cursor.text_ofText]) hleft le_rfl
    (by simp [Cursor.ofText])
  have hend : ∀ stop : Cursor, stop.after = [] → stop.text = (Cursor.ofText a).text →
      p.Pass (a ++ b).length (stop.within [] b) more out' := by
    intro stop hafter htext
    rw [Cursor.text_ofText, Cursor.text, hafter, List.append_nil] at htext
    have hsame : stop.within [] b = (Cursor.ofText b).within a.reverse [] := by
      refine Cursor.ext ?_ ?_
      · simp [Cursor.within, Cursor.ofText, ← htext]
      · simp [Cursor.within, Cursor.ofText, hafter]
    rw [hsame]
    exact hmore
  obtain ⟨hzone, hits'', hpass'', hempty''⟩ := hpass.within_right hp hstays (Nat.succ_pos 2) ha
    le_rfl (by simp [Cursor.ofText]) hend
  have hstart : (Cursor.ofText a).within [] b = Cursor.ofText (a ++ b) := Cursor.ext rfl rfl
  rw [hstart] at hpass''
  exact ⟨hzone, hits'', hpass'', by rw [hempty'', hempty]⟩

end Pattern

/-! ### Rules -/

theorem Catalog.staysBefore {rule : Rule} (hr : rule ∈ rules) {p : Pattern}
    (hp : p ∈ rule.patterns) : p.staysBefore = true := by
  have hall : rules.all (fun rule => rule.patterns.all Pattern.staysBefore) = true := by
    delta Pattern.staysBefore Tracker.reference Tracker.refer
    rw [← Evaluation.flow_eq]
    decide +kernel
  exact Rule.of_all_patterns hall hr hp

/-- Patterns that are applied one after another to two parts. -/
theorem Pattern.applyAll_append {stage : Stage} {ps : List Pattern}
    (hps : ∀ p ∈ ps, p.Regular ∧ p.staysBefore = true ∧ p.looksBehind stage = true ∧
      (stage ≠ .tests → p.keepsCalm stage = true))
    {a b a' b' out : List Char} (ha : Zone 0 a) (hb : Calm stage b)
    (happly : applyAll ps a = .ok a') (happly' : applyAll ps b = .ok b')
    (h : applyAll ps (a ++ b) = .ok out) :
    out = a' ++ b' ∧ Zone 0 a' ∧
      ((∀ p ∈ ps, p.hits (a ++ b) = .ok []) → a' = a ∧ b' = b) := by
  induction ps generalizing a b with
  | nil =>
    rw [applyAll_nil, Except.ok.injEq] at happly happly' h
    subst happly happly' h
    exact ⟨rfl, ha, fun _ => ⟨rfl, rfl⟩⟩
  | cons p ps ih =>
    obtain ⟨hp, hstays, hlooks, hkeeps⟩ := hps p List.mem_cons_self
    obtain ⟨oa, hoa, hresta⟩ := applyAll_cons_eq_ok.mp happly
    obtain ⟨ob, hob, hrestb⟩ := applyAll_cons_eq_ok.mp happly'
    obtain ⟨o, ho, hrest⟩ := applyAll_cons_eq_ok.mp h
    obtain ⟨hits, -, hnone, hpass⟩ := hp.pass_of_apply hoa
    obtain ⟨hits', -, hnone', hpass'⟩ := hp.pass_of_apply hob
    obtain ⟨hits'', hhits, hnone'', hpass''⟩ := hp.pass_of_apply ho
    obtain ⟨hzone, hits₁, hpass₁, hempty⟩ :=
      hp.pass_append hstays hlooks hkeeps ha hb hpass hpass'
    obtain ⟨rfl, hout⟩ := hpass''.unique hpass₁
    rw [hout] at hrest
    have hcalm : Calm stage (ob.getD b) := by
      by_cases hstage : stage = .tests
      · exact hstage ▸ calm_tests _
      · exact hpass'.calm hp (hkeeps hstage) (.inl (by decide)) hb
    obtain ⟨hfinal, hza, hstill⟩ := ih (fun q hq => hps q (List.mem_cons_of_mem p hq)) hzone hcalm
      hresta hrestb hrest
    refine ⟨hfinal, hza, fun hall => ?_⟩
    -- Without a match in the whole text there is none in its parts.
    have hnil := hall p List.mem_cons_self
    rw [hhits, Except.ok.injEq] at hnil
    obtain ⟨rfl, rfl⟩ := hempty.mp hnil
    rw [hnone.mpr rfl, hnone'.mpr rfl] at hstill
    exact hstill fun q hq => hall q (List.mem_cons_of_mem p hq)

/-- **A rule on two parts.**  It changes the whole iff it changes one of the parts. -/
theorem Rule.apply_append {rule : Rule} (hr : rule ∈ Catalog.rules) {a b a' b' out : List Char}
    (ha : Zone 0 a) (hb : Calm (Catalog.stage rule) b) (happly : rule.apply a = .ok a')
    (happly' : rule.apply b = .ok b') (h : rule.apply (a ++ b) = .ok out) :
    out = a' ++ b' ∧ Zone 0 a' ∧ (out = a ++ b ↔ a' = a ∧ b' = b) := by
  obtain ⟨hout, hzone, hstill⟩ := Pattern.applyAll_append
    (fun p hp => ⟨Catalog.regular hr hp, Catalog.staysBefore hr hp, Catalog.looksBehind hr hp,
      fun hstage => Catalog.keepsCalm hr hstage hp⟩) ha hb happly happly' h
  refine ⟨hout, hzone, fun hsame => ?_, fun ⟨hsa, hsb⟩ => by rw [hout, hsa, hsb]⟩
  rw [hsame] at h
  exact hstill ((apply_eq_self_iff hr).mp h)

/-! ### Patches -/

namespace Patch.Session

/-- The name of a rule, if it has changed a text. -/
def fired (rule : Rule) (text changed : List Char) : List String :=
  if changed = text then [] else [rule.name]

/-- One step of a session that includes no header. -/
theorem step_plain {s s' : Session} {rule : Rule} (hs : s.headerMissing = false)
    (h : s.step rule = .ok s') :
    rule.apply s.text = .ok s'.text ∧ s'.headerMissing = false ∧
      s'.applied = s.applied ++ fired rule s.text s'.text := by
  obtain ⟨changed, ha, ⟨rfl, rfl⟩ | ⟨hne, rfl⟩⟩ := step_cases h
  · exact ⟨ha, hs, by simp [fired]⟩
  · have hfire : s.fire rule changed =
        { s with text := changed, applied := s.applied ++ [rule.name] } := by
      simp [fire, hs]
    rw [hfire]
    exact ⟨ha, hs, by simp [fired, hne]⟩

/-- A rule fires on the whole iff it fires on one of two parts.  No name of the rules behind it is
its own. -/
theorem fired_append_filter {rule : Rule} {names na nb : List String} (hnew : rule.name ∉ names)
    (hna : na ⊆ names) (hnb : nb ⊆ names) {a b t a' b' t' : List Char}
    (hchanged : t' = t ↔ a' = a ∧ b' = b) :
    fired rule t t' ++ names.filter (fun n => n ∈ na ∨ n ∈ nb) =
      (rule.name :: names).filter fun n =>
        n ∈ fired rule a a' ++ na ∨ n ∈ fired rule b b' ++ nb := by
  have hself : ∀ {u u' : List Char} {ns : List String}, ns ⊆ names →
      (rule.name ∈ fired rule u u' ++ ns ↔ u' ≠ u) := by
    intro u u' ns hns
    unfold fired
    split_ifs with heq
    · simpa [heq] using fun hn => hnew (hns hn)
    · simp [heq]
  have hlater : ∀ n ∈ names, ∀ {u u' : List Char} {ns : List String},
      (n ∈ fired rule u u' ++ ns ↔ n ∈ ns) := by
    intro n hn u u' ns
    have hne : n ≠ rule.name := fun heq => hnew (heq ▸ hn)
    unfold fired
    split_ifs <;> simp [hne]
  have hrest : names.filter (fun n => n ∈ fired rule a a' ++ na ∨ n ∈ fired rule b b' ++ nb) =
      names.filter fun n => n ∈ na ∨ n ∈ nb :=
    List.filter_congr fun n hn => decide_eq_decide.mpr (or_congr (hlater n hn) (hlater n hn))
  have hfire :
      decide (rule.name ∈ fired rule a a' ++ na ∨ rule.name ∈ fired rule b b' ++ nb) = true ↔
      ¬t' = t := by
    rw [decide_eq_true_eq, hself hna, hself hnb, ← not_and_or, hchanged]
  rw [List.filter_cons, hrest, fired]
  by_cases heq : t' = t
  · rw [if_pos heq, if_neg fun hf => hfire.mp hf heq, List.nil_append]
  · rw [if_neg heq, if_pos (hfire.mpr heq), List.singleton_append]

/-- **Two sessions and one for both.**  The rules that fire in the one are those that fire in one of
the two. -/
theorem foldlM_append {rules : List Rule} (hrules : ∀ rule ∈ rules, rule ∈ Catalog.rules)
    (hstages : rules.Pairwise fun r r' => (Catalog.stage r).rank ≤ (Catalog.stage r').rank)
    (hnodup : (rules.map Rule.name).Nodup) {sa sb s sa' sb' s' : Session}
    (hsa : sa.headerMissing = false) (hsb : sb.headerMissing = false)
    (hs : s.headerMissing = false) (htext : s.text = sa.text ++ sb.text) (hzone : Zone 0 sa.text)
    (hcalm : ∀ rule ∈ rules, Calm (Catalog.stage rule) sb.text)
    (ha : rules.foldlM step sa = .ok sa') (hb : rules.foldlM step sb = .ok sb')
    (h : rules.foldlM step s = .ok s') :
    s'.text = sa'.text ++ sb'.text ∧ ∃ na nb, na ⊆ rules.map Rule.name ∧
      nb ⊆ rules.map Rule.name ∧ sa'.applied = sa.applied ++ na ∧ sb'.applied = sb.applied ++ nb ∧
      s'.applied = s.applied ++ (rules.map Rule.name).filter fun n => n ∈ na ∨ n ∈ nb := by
  induction rules generalizing sa sb s with
  | nil =>
    rw [List.foldlM_nil] at ha hb h
    obtain rfl := Except.ok.inj ha
    obtain rfl := Except.ok.inj hb
    obtain rfl := Except.ok.inj h
    exact ⟨htext, [], [], by simp⟩
  | cons rule rules ih =>
    obtain ⟨sa₁, hstepa, hresta⟩ := foldlM_step_cons.mp ha
    obtain ⟨sb₁, hstepb, hrestb⟩ := foldlM_step_cons.mp hb
    obtain ⟨s₁, hstep, hrest⟩ := foldlM_step_cons.mp h
    obtain ⟨happlya, hsa₁, hnamea⟩ := step_plain hsa hstepa
    obtain ⟨happlyb, hsb₁, hnameb⟩ := step_plain hsb hstepb
    obtain ⟨happly, hs₁, hname⟩ := step_plain hs hstep
    have hr := hrules rule List.mem_cons_self
    have hcalmb := hcalm rule List.mem_cons_self
    rw [htext] at happly hname
    obtain ⟨htext₁, hzone₁, hchanged⟩ := Rule.apply_append hr hzone hcalmb happlya happlyb happly
    rw [List.pairwise_cons] at hstages
    rw [List.map_cons, List.nodup_cons] at hnodup
    obtain ⟨hfinal, na, nb, hna, hnb, happa, happb, happ⟩ := ih
      (fun r hr => hrules r (List.mem_cons_of_mem rule hr)) hstages.2 hnodup.2 hsa₁ hsb₁ hs₁ htext₁
      hzone₁ (fun r hmem => Rule.calm_of_apply hr happlyb hcalmb (hstages.1 r hmem)) hresta hrestb
      hrest
    have hnew : ∀ {t t' : List Char},
        fired rule t t' ⊆ rule.name :: rules.map Rule.name := by
      intro t t'
      unfold fired
      split_ifs <;> simp
    refine ⟨hfinal, fired rule sa.text sa₁.text ++ na, fired rule sb.text sb₁.text ++ nb,
      List.append_subset.mpr ⟨hnew, List.subset_cons_of_subset _ hna⟩,
      List.append_subset.mpr ⟨hnew, List.subset_cons_of_subset _ hnb⟩, ?_, ?_, ?_⟩
    · rw [happa, hnamea, List.append_assoc]
    · rw [happb, hnameb, List.append_assoc]
    · rw [happ, hname, List.append_assoc, List.map_cons,
        fired_append_filter hnodup.1 hna hnb hchanged]

end Patch.Session

namespace Catalog

/-- No two rules have one name. -/
theorem nodup_names : (rules.map Rule.name).Nodup := by decide +kernel

/-- A selection keeps the rules of some names. -/
theorem eq_filter_of_select {selection : String} {selected : List Rule}
    (h : all.select selection = .ok selected) :
    ∃ wanted : List String, selected = rules.filter (·.name ∈ wanted) := by
  unfold RuleSet.select at h
  dsimp only at h
  split at h
  · rw [Except.ok.injEq] at h
    exact ⟨_, h.symm⟩
  · simp at h

/-- Names of selected rules, in the order of the catalog. -/
theorem filter_names_of_select {selection : String} {selected : List Rule}
    (h : all.select selection = .ok selected) {q : String → Prop} [DecidablePred q]
    (hq : ∀ n, q n → n ∈ selected.map Rule.name) :
    (selected.map Rule.name).filter q = all.names.filter q := by
  obtain ⟨wanted, rfl⟩ := eq_filter_of_select h
  rw [RuleSet.names, all, List.filter_map, List.filter_map, List.filter_filter]
  congr 1
  refine List.filter_congr fun rule hr => ?_
  simp only [Function.comp_apply, Bool.and_eq_left_iff_imp, decide_eq_true_eq]
  intro hname
  obtain ⟨rule', hr', heq⟩ := List.mem_map.mp (hq _ hname)
  exact heq ▸ of_decide_eq_true (List.mem_filter.mp hr').2

end Catalog

open Patch in
/-- **Rewriting is local.**  A text in two parts, the first of which ends in a semicolon and an
empty line, is patched part by part, unless the first line of the second part reads `else` or `do`.
The rules that fire are those that fire on one of the parts. -/
theorem patch_append {selection : String} {selected : List Rule}
    (hs : Catalog.all.select selection = .ok selected) {a b : List Char}
    (ha : ";\n\n".toList <:+ a)
    (hb : trimmed (firstLine b) ∉ ["else".toList, "do".toList]) {oa ob o : PatchOutcome}
    (hoa : patch selected false a = .ok oa) (hob : patch selected false b = .ok ob)
    (ho : patch selected false (a ++ b) = .ok o) :
    o.text = oa.text ++ ob.text ∧
      o.applied = Catalog.all.names.filter fun n => n ∈ oa.applied ∨ n ∈ ob.applied := by
  obtain ⟨sa, hfolda, rfl⟩ := patch_eq_ok.mp hoa
  obtain ⟨sb, hfoldb, rfl⟩ := patch_eq_ok.mp hob
  obtain ⟨s, hfold, rfl⟩ := patch_eq_ok.mp ho
  have hsub := Catalog.sublist_of_select hs
  have hzone : Zone 0 a := by
    obtain ⟨v, hv⟩ := ha
    exact ⟨v, hv.symm⟩
  have hcalm : ∀ rule ∈ selected, Calm (Catalog.stage rule) b := fun rule _ =>
    (calm_of_trimmed_firstLine hb).later (Nat.zero_le _)
  obtain ⟨htext, na, nb, hna, hnb, happa, happb, happ⟩ := Session.foldlM_append
    (fun rule hr => hsub.subset hr) (Catalog.pairwise_stage.sublist hsub)
    (Catalog.nodup_names.sublist (hsub.map Rule.name)) rfl rfl rfl rfl hzone hcalm hfolda hfoldb
    hfold
  have hnames : sa.applied = na ∧ sb.applied = nb := ⟨happa, happb⟩
  refine ⟨htext, ?_⟩
  rw [← Catalog.filter_names_of_select hs]
  · change s.applied = _
    rw [happ]
    simp only [Session.outcome, hnames.1, hnames.2]
    rfl
  · rintro n (hn | hn)
    · exact hna (hnames.1 ▸ hn)
    · exact hnb (hnames.2 ▸ hn)

/-- A type that is read in the first part, a reference that is folded in the second. -/
theorem patch_append_fold :
    let a := "t = a->ob_type;\n\n".toList
    let b := "Py_INCREF(x);\ny = x;".toList
    let o : PatchOutcome :=
      ⟨"t = Py_TYPE(a);\n\ny = Py_NewRef(x);".toList, ["Py_TYPE", "Py_NewRef"], false⟩
    patch [Catalog.readType, Catalog.newRef] false (a ++ b) = .ok o ∧
      o.text = "t = Py_TYPE(a);\n\n".toList ++ "y = Py_NewRef(x);".toList ∧
      o.applied = Catalog.all.names.filter fun n => n ∈ ["Py_TYPE"] ∨ n ∈ ["Py_NewRef"] := by
  intro a b o
  have hselect : Catalog.all.select "Py_TYPE,Py_NewRef" =
      .ok [Catalog.readType, Catalog.newRef] := rfl
  have ha : ";\n\n".toList <:+ a := ⟨"t = a->ob_type".toList, by decide⟩
  have hb : trimmed (firstLine b) ∉ ["else".toList, "do".toList] := by decide
  have hfirst : patch [Catalog.readType, Catalog.newRef] false a =
      .ok ⟨"t = Py_TYPE(a);\n\n".toList, ["Py_TYPE"], false⟩ :=
    Evaluation.patch_eq_ok (by decide +kernel)
  have hsecond : patch [Catalog.readType, Catalog.newRef] false b =
      .ok ⟨"y = Py_NewRef(x);".toList, ["Py_NewRef"], false⟩ :=
    Evaluation.patch_eq_ok (by decide +kernel)
  have hwhole : patch [Catalog.readType, Catalog.newRef] false (a ++ b) = .ok o :=
    Evaluation.patch_eq_ok (by decide +kernel)
  exact ⟨hwhole, patch_append hselect ha hb hfirst hsecond hwhole⟩

end CApiUpgrade
