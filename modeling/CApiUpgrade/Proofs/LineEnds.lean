import CApiUpgrade.Proofs.Spelled

/-!
# Line ends

A text whose lines end in newlines can be written with a carriage return in front of every newline
(`Text.crlf`).  Every position of the text has its counterpart in the longer one (`Cursor.crlf`),
and the longer one has a few positions of its own: those that *tear* a line end, between the
carriage return and the newline (`Cursor.torn`).

This file follows positions and captures from the one text to the other.  `Way.Follows` says what to
expect of the ways to match an expression: the counterparts of the ways in the text with newlines,
in the same order, and between them perhaps some that end in torn line ends.
-/

namespace CApiUpgrade

/-! ### Texts -/

namespace Text

/-- A text with a carriage return in front of every newline. -/
def crlf (text : List Char) : List Char :=
  text.flatMap fun c => if c = '\n' then ['\r', '\n'] else [c]

@[simp]
theorem crlf_nil : crlf [] = [] := rfl

@[simp]
theorem crlf_newline (text : List Char) : crlf ('\n' :: text) = '\r' :: '\n' :: crlf text := rfl

theorem crlf_cons_of_ne {c : Char} (h : c ≠ '\n') (text : List Char) :
    crlf (c :: text) = c :: crlf text := by
  simp [crlf, h]

@[simp]
theorem crlf_append (u v : List Char) : crlf (u ++ v) = crlf u ++ crlf v :=
  List.flatMap_append

/-- A text of a single line stays as it is. -/
theorem crlf_eq_self {text : List Char} (h : '\n' ∉ text) : crlf text = text := by
  induction text with
  | nil => rfl
  | cons c text ih =>
    rw [List.mem_cons, not_or] at h
    rw [crlf_cons_of_ne (Ne.symm h.1), ih h.2]

@[simp]
theorem crlf_eq_nil {text : List Char} : crlf text = [] ↔ text = [] := by
  cases text with
  | nil => simp
  | cons c text =>
    by_cases hc : c = '\n'
    · simp [hc]
    · simp [crlf_cons_of_ne hc]

/-- No newline stands at the start. -/
theorem head?_crlf (text : List Char) : (crlf text).head? ≠ some '\n' := by
  cases text with
  | nil => simp
  | cons c text =>
    by_cases hc : c = '\n'
    · simp [hc]
    · simpa [crlf_cons_of_ne hc] using hc

/-- Different texts stay different. -/
theorem crlf_injective : Function.Injective crlf := by
  intro u
  induction u with
  | nil => exact fun v h => (crlf_eq_nil.mp h.symm).symm
  | cons c u ih =>
    intro v h
    cases v with
    | nil => exact crlf_eq_nil.mp h
    | cons d v =>
      -- Both texts start with a line end, or neither does.
      by_cases hc : c = '\n' <;> by_cases hd : d = '\n'
      · subst hc hd
        simp only [crlf_newline, List.cons.injEq, true_and] at h
        rw [ih h]
      · -- A line end beside another character: what is left would have to start with a newline.
        subst hc
        rw [crlf_newline, crlf_cons_of_ne hd, List.cons.injEq] at h
        exact absurd (congrArg List.head? h.2).symm (head?_crlf v)
      · subst hd
        rw [crlf_newline, crlf_cons_of_ne hc, List.cons.injEq] at h
        exact absurd (congrArg List.head? h.2) (head?_crlf u)
      · rw [crlf_cons_of_ne hc, crlf_cons_of_ne hd, List.cons.injEq] at h
        rw [h.1, ih h.2]

/-- What stands on the left of a position, when a carriage return is put in front of every newline.
The nearest character comes first. -/
def crlfLeft (before : List Char) : List Char := (crlf before.reverse).reverse

@[simp]
theorem crlfLeft_nil : crlfLeft [] = [] := rfl

@[simp]
theorem crlfLeft_newline (before : List Char) :
    crlfLeft ('\n' :: before) = '\n' :: '\r' :: crlfLeft before := by
  simp [crlfLeft]

theorem crlfLeft_cons_of_ne {c : Char} (h : c ≠ '\n') (before : List Char) :
    crlfLeft (c :: before) = c :: crlfLeft before := by
  simp [crlfLeft, crlf_cons_of_ne h]

/-- The last character of a line end is the newline, so the same character stands at the end. -/
@[simp]
theorem head?_crlfLeft (before : List Char) : (crlfLeft before).head? = before.head? := by
  cases before with
  | nil => rfl
  | cons c before =>
    by_cases hc : c = '\n'
    · simp [hc]
    · simp [crlfLeft_cons_of_ne hc]

/-- Tests of the characters on the left have the same answer, unless one of them takes a newline and
is not the last one. -/
theorem fits_crlfLeft {ps : List (Char → Bool)} (hps : ∀ p ∈ ps.dropLast, p '\n' = false)
    (before : List Char) : fits ps (crlfLeft before) = fits ps before := by
  induction ps generalizing before with
  | nil => rfl
  | cons p ps ih =>
    cases before with
    | nil => rfl
    | cons c before =>
      by_cases hc : c = '\n'
      · -- A test that takes the newline is the last one: nothing asks for what is in front of it.
        subst hc
        rw [crlfLeft_newline, fits, fits]
        cases ps with
        | nil => rfl
        | cons q ps =>
          have hp : p '\n' = false := hps p (by simp)
          rw [hp, Bool.false_and, Bool.false_and]
      · have hrest : ∀ q ∈ ps.dropLast, q '\n' = false := by
          intro q hq
          cases ps with
          | nil => simp at hq
          | cons p' ps => exact hps q (by simp [hq])
        rw [crlfLeft_cons_of_ne hc, fits, fits, ih hrest]

/-- Carriage returns are all that is added. -/
theorem mem_crlf {c : Char} {text : List Char} (h : c ∈ crlf text) : c = '\r' ∨ c ∈ text := by
  obtain ⟨d, hd, hc⟩ := List.mem_flatMap.mp h
  split_ifs at hc with hn
  · rcases List.mem_pair.mp hc with rfl | rfl
    · exact .inl rfl
    · exact .inr (hn ▸ hd)
  · exact .inr (List.mem_singleton.mp hc ▸ hd)

theorem isBlank_crlf {text : List Char} (h : ∀ c ∈ text, isBlank c = true) :
    ∀ c ∈ crlf text, isBlank c = true := by
  intro c hc
  rcases mem_crlf hc with rfl | hc
  · rfl
  · exact h c hc

end Text

open Text

/-! ### Positions -/

namespace Cursor

variable {c d : Cursor} {u w : List Char} {x : Char}

/-- The same position with a carriage return in front of every newline. -/
def crlf (c : Cursor) : Cursor := ⟨crlfLeft c.before, Text.crlf c.after, _, rfl⟩

/-- The position behind the carriage return, in front of a newline. -/
def torn (c : Cursor) : Cursor := ⟨'\r' :: c.crlf.before, c.crlf.after.tail, _, rfl⟩

@[simp]
theorem crlf_ofText (text : List Char) : (ofText text).crlf = ofText (Text.crlf text) := rfl

/-- What leads from one position to another does so with its line ends replaced. -/
theorem Leads.crlf (h : c.Leads u d) : c.crlf.Leads (Text.crlf u) d.crlf := by
  constructor
  · simp [Cursor.crlf, h.after]
  · simp [Cursor.crlf, crlfLeft, h.before]

theorem head?_crlf_of_ne (h : c.after.head? ≠ some '\n') : c.crlf.after.head? = c.after.head? := by
  rw [crlf]
  cases hafter : c.after with
  | nil => rfl
  | cons x rest =>
    rw [hafter, List.head?_cons, ne_eq, Option.some.injEq] at h
    rw [crlf_cons_of_ne h]
    rfl

theorem next?_of_after {rest : List Char} (h : c.after = x :: rest) :
    ∃ d, c.next? = some (x, d) := by
  rw [next?, h]
  exact ⟨_, rfl⟩

theorem next?_crlf_of_none (h : c.next? = none) : c.crlf.next? = none := by
  have hafter := next?_eq_none h
  rw [next?, crlf, hafter]
  rfl

/-- In front of a character that is no newline, the next character is the same. -/
theorem next?_crlf_of_ne (h : c.next? = some (x, d)) (hx : x ≠ '\n') :
    c.crlf.next? = some (x, d.crlf) := by
  have hleads := (leads_of_next? h).crlf
  rw [crlf_cons_of_ne hx] at hleads
  exact hleads.next?

theorem after_crlf_of_newline (h : c.next? = some ('\n', d)) :
    c.crlf.after = '\r' :: '\n' :: d.crlf.after := by
  rw [crlf, (leads_of_next? h).after]
  rfl

/-- A torn position stands inside of a line end, behind its carriage return. -/
theorem leads_torn (h : c.next? = some ('\n', d)) : c.crlf.Leads ['\r'] c.torn := by
  constructor
  · rw [torn, after_crlf_of_newline h]
    rfl
  · rfl

theorem torn_leads (h : c.next? = some ('\n', d)) : c.torn.Leads ['\n'] d.crlf := by
  constructor
  · rw [torn, after_crlf_of_newline h]
    rfl
  · have hbefore : d.before = '\n' :: c.before := (leads_of_next? h).before
    simp [torn, crlf, hbefore]

/-- In front of a newline, the next character is the carriage return. -/
theorem next?_crlf_of_newline (h : c.next? = some ('\n', d)) :
    c.crlf.next? = some ('\r', c.torn) := (leads_torn h).next?

theorem next?_torn (h : c.next? = some ('\n', d)) : c.torn.next? = some ('\n', d.crlf) :=
  (torn_leads h).next?

/-- A position has moved exactly if its counterpart has. -/
theorem Leads.offset_crlf_eq (h : c.Leads u d) :
    (d.crlf.offset == c.crlf.offset) = (d.offset == c.offset) := by
  have hcrlf := h.crlf.offset
  have hleads := h.offset
  rw [Bool.eq_iff_iff, beq_iff_eq, beq_iff_eq, hcrlf, hleads]
  constructor
  · intro heq
    have hnil : Text.crlf u = [] := List.length_eq_zero_iff.mp (by omega)
    simp [crlf_eq_nil.mp hnil]
  · intro heq
    have hnil : u = [] := List.length_eq_zero_iff.mp (by omega)
    simp [hnil]

/-- A position that has moved has less in front of it, on either side. -/
theorem Leads.length_lt_of_moved (h : c.Leads u d) (hmoved : d.offset ≠ c.offset) :
    d.after.length < c.after.length ∧ d.crlf.after.length < c.crlf.after.length := by
  have hmoved' : d.crlf.offset ≠ c.crlf.offset := by
    rw [← beq_eq_false_iff_ne, h.offset_crlf_eq]
    exact beq_eq_false_iff_ne.mpr hmoved
  have hlen := congrArg List.length h.after
  have hlen' := congrArg List.length h.crlf.after
  rw [List.length_append] at hlen hlen'
  have hoffset := h.offset
  have hoffset' := h.crlf.offset
  omega

/-- A text without carriage returns is found at a position exactly if its counterpart is found at
the counterpart of the position. -/
theorem skip?_crlf (hw : '\r' ∉ w) (hc : '\r' ∉ c.after) :
    c.crlf.skip? (Text.crlf w) = (c.skip? w).map crlf := by
  induction w generalizing c with
  | nil => rfl
  | cons y w ih =>
    rw [List.mem_cons, not_or] at hw
    cases hn : c.next? with
    | none =>
      rw [skip?, hn]
      by_cases hy : y = '\n'
      · simp [hy, skip?, next?_crlf_of_none hn]
      · simp [crlf_cons_of_ne hy, skip?, next?_crlf_of_none hn]
    | some m =>
      obtain ⟨x, d⟩ := m
      have hafter := (leads_of_next? hn).after
      rw [hafter, List.singleton_append, List.mem_cons, not_or] at hc
      have ih := ih hw.2 hc.2
      rw [skip?, hn]
      -- A newline of the one text is a line end of the other, on either side of the comparison.
      by_cases hx : x = '\n' <;> by_cases hy : y = '\n'
      · subst hx hy
        simp [skip?, next?_crlf_of_newline hn, next?_torn hn, ih]
      · subst hx
        simp [crlf_cons_of_ne hy, skip?, next?_crlf_of_newline hn, hy, Ne.symm hw.1]
      · subst hy
        simp [skip?, next?_crlf_of_ne hn hx, hc.1, Ne.symm hx]
      · simp only [crlf_cons_of_ne hy, skip?, next?_crlf_of_ne hn hx]
        split_ifs
        · exact ih
        · rfl

/-- At a torn line end, no text is found but the empty one. -/
theorem skip?_torn (hn : c.next? = some ('\n', d)) (hw : w ≠ []) :
    c.torn.skip? (Text.crlf w) = none := by
  have hne := head?_crlf w
  cases hcrlf : Text.crlf w with
  | nil => exact absurd (crlf_eq_nil.mp hcrlf) hw
  | cons y rest =>
    rw [hcrlf, List.head?_cons, ne_eq, Option.some.injEq] at hne
    simp [skip?, next?_torn hn, hne]

/-- A position of a text without carriage returns.  On either side, the ways to match are listed
with room for what follows. -/
structure Lf (terms terms' : Terms) (c : Cursor) : Prop where
  /-- The text has no carriage return. -/
  clean : '\r' ∉ c.text
  /-- There is room on the one side. -/
  room : c.after.length ≤ terms.bound
  /-- There is room on the other side. -/
  room' : c.crlf.after.length ≤ terms'.bound

namespace Lf

variable {terms terms' : Terms}

theorem after (h : c.Lf terms terms') : '\r' ∉ c.after := fun hmem => h.clean (by simp [text, hmem])

theorem before (h : c.Lf terms terms') : '\r' ∉ c.before :=
  fun hmem => h.clean (by simp [text, hmem])

/-- What is known of a position holds of those behind it. -/
theorem leads (h : c.Lf terms terms') (hl : c.Leads u d) : d.Lf terms terms' :=
  ⟨hl.text_eq ▸ h.clean, hl.length_le.trans h.room, hl.crlf.length_le.trans h.room'⟩

theorem next (h : c.Lf terms terms') (hn : c.next? = some (x, d)) : d.Lf terms terms' :=
  h.leads (leads_of_next? hn)

theorem clean_of_leads (h : c.Lf terms terms') (hl : c.Leads u d) : '\r' ∉ u :=
  fun hmem => h.after (by rw [hl.after]; exact List.mem_append_left _ hmem)

theorem ne_return (h : c.Lf terms terms') (hn : c.next? = some (x, d)) : x ≠ '\r' :=
  fun hx => h.clean_of_leads (leads_of_next? hn) (by simp [hx])

end Lf

end Cursor

/-! ### Captures -/

namespace Captures

/-- The groups that references are made to where a line end may be torn.  None of them is empty. -/
def solidNames : List String := ["slot", "var", "lvalue", "old"]

/-- The groups that the catalog makes references to. -/
def referredNames : List String := "indent" :: solidNames

/-- Captures with newlines beside captures with carriage returns in front of them, as far as the
groups of some names are concerned. -/
structure Crlf (names : String → Prop) (caps caps' : Captures) : Prop where
  /-- Every capture is the text between its ends. -/
  hold : caps.Hold fun _ _ => True
  /-- The texts differ by the carriage returns. -/
  text : ∀ n, names n → caps'.textOf n = (caps.textOf n).map Text.crlf
  /-- There are none in the first. -/
  clean : ∀ n, names n → ∀ w, caps.textOf n = some w → '\r' ∉ w
  /-- Some texts are not empty. -/
  solid : ∀ n, names n → n ∈ solidNames → ∀ w, caps.textOf n = some w → w ≠ []

theorem textOf_cons (name : String) (span : Span) (caps : Captures) (n : String) :
    textOf ((name, span) :: caps) n = if n = name then some span.text else caps.textOf n := by
  rw [textOf, List.lookup_cons]
  by_cases h : n = name
  · simp [h]
  · rw [if_neg h, beq_eq_false_iff_ne.mpr h]
    rfl

namespace Crlf

variable {names names' : String → Prop} {caps caps' : Captures}

theorem nil (names : String → Prop) : Crlf names [] [] :=
  ⟨Hold.nil _, fun _ _ => rfl, fun _ _ _ h => by simp [textOf] at h,
    fun _ _ _ _ h => by simp [textOf] at h⟩

theorem mono (h : Crlf names caps caps') (hnames : ∀ n, names' n → names n) :
    Crlf names' caps caps' :=
  ⟨h.hold, fun n hn => h.text n (hnames n hn), fun n hn => h.clean n (hnames n hn),
    fun n hn => h.solid n (hnames n hn)⟩

/-- One more capture on either side. -/
theorem cons (h : Crlf names caps caps') {name : String} {c d : Cursor} {u : List Char}
    (hl : c.Leads u d) (hclean : '\r' ∉ u) (hsolid : name ∈ solidNames → u ≠ []) :
    Crlf names ((name, ⟨c, d⟩) :: caps) ((name, ⟨c.crlf, d.crlf⟩) :: caps') := by
  have hu : (Span.mk c d).text = u := hl.upTo
  have hu' : (Span.mk c.crlf d.crlf).text = Text.crlf u := hl.crlf.upTo
  refine ⟨h.hold.cons hl trivial, fun n hn => ?_, fun n hn w hw => ?_, fun n hn hmem w hw => ?_⟩
  · rw [textOf_cons, textOf_cons, hu, hu']
    split_ifs
    · rfl
    · exact h.text n hn
  · rw [textOf_cons, hu] at hw
    split_ifs at hw
    · exact Option.some.inj hw ▸ hclean
    · exact h.clean n hn w hw
  · rw [textOf_cons, hu] at hw
    split_ifs at hw with hname
    · exact Option.some.inj hw ▸ hsolid (hname ▸ hmem)
    · exact h.solid n hn hmem w hw

/-- A capture of a group that does not matter. -/
theorem cons_of_not (h : Crlf names caps caps') {name : String} (hname : ¬ names name)
    {c d : Cursor} {u : List Char} (hl : c.Leads u d) (span : Span) :
    Crlf names ((name, ⟨c, d⟩) :: caps) ((name, span) :: caps') := by
  have hother : ∀ n, names n → n ≠ name := fun n hn heq => hname (heq ▸ hn)
  refine ⟨h.hold.cons hl trivial, fun n hn => ?_, fun n hn w hw => ?_, fun n hn hmem w hw => ?_⟩
  · rw [textOf_cons, textOf_cons, if_neg (hother n hn), if_neg (hother n hn)]
    exact h.text n hn
  · rw [textOf_cons, if_neg (hother n hn)] at hw
    exact h.clean n hn w hw
  · rw [textOf_cons, if_neg (hother n hn)] at hw
    exact h.solid n hn hmem w hw

end Crlf

end Captures

/-! ### Ways -/

namespace Way

/-- A way from the position `c` and its counterpart. -/
structure Crlf (names : String → Prop) (c : Cursor) (w w' : Way) : Prop where
  /-- The first one starts at the position. -/
  leads : ∃ u, c.Leads u w.1
  /-- The second one ends at the counterpart of its end. -/
  stop : w'.1 = w.1.crlf
  /-- The captures agree. -/
  captures : w.2.Crlf names w'.2

/-- A way that ends in a torn line end behind the counterpart of `c`. -/
structure Torn (c : Cursor) (w' : Way) : Prop where
  /-- It ends in front of a newline. -/
  stop : ∃ u d e, c.Leads u d ∧ d.next? = some ('\n', e) ∧ w'.1 = d.torn
  /-- What references can be made to is known. -/
  captures : ∃ k, Captures.Crlf (· ∈ Captures.referredNames) k w'.2

variable {names : String → Prop} {c d : Cursor} {u : List Char} {w w' : Way}

theorem Crlf.from (h : Crlf names d w w') (hl : c.Leads u d) : Crlf names c w w' := by
  obtain ⟨v, hv⟩ := h.leads
  exact ⟨⟨u ++ v, hl.trans hv⟩, h.stop, h.captures⟩

theorem Torn.from (h : Torn d w') (hl : c.Leads u d) : Torn c w' := by
  obtain ⟨v, e, f, hv, hn, hstop⟩ := h.stop
  exact ⟨⟨u ++ v, e, f, hl.trans hv, hn, hstop⟩, h.captures⟩

/-- A list of ways follows another one: it holds counterparts of the other's ways in the same order,
as `R` says, and between them ways of which `T` holds. -/
inductive Follows (R : Way → Way → Prop) (T : Way → Prop) : List Way → List Way → Prop where
  | nil : Follows R T [] []
  | cons {w w' : Way} {ws ws' : List Way} : R w w' → Follows R T ws ws' →
    Follows R T (w :: ws) (w' :: ws')
  | torn {w' : Way} {ws ws' : List Way} : T w' → Follows R T ws ws' → Follows R T ws (w' :: ws')

namespace Follows

variable {R S : Way → Way → Prop} {T U : Way → Prop} {ws ws' vs vs' : List Way}

theorem singleton (h : R w w') : Follows R T [w] [w'] := .cons h .nil

theorem append (h : Follows R T ws ws') (h' : Follows R T vs vs') :
    Follows R T (ws ++ vs) (ws' ++ vs') := by
  induction h with
  | nil => exact h'
  | cons hr _ ih => exact .cons hr ih
  | torn ht _ ih => exact .torn ht ih

theorem mono (h : Follows R T ws ws') (hR : ∀ w ∈ ws, ∀ w', R w w' → S w w')
    (hT : ∀ w', T w' → U w') : Follows S U ws ws' := by
  induction h with
  | nil => exact .nil
  | cons hr _ ih =>
    exact .cons (hR _ List.mem_cons_self _ hr)
      (ih fun w hw => hR w (List.mem_cons_of_mem _ hw))
  | torn ht _ ih => exact .torn (hT _ ht) (ih hR)

theorem flatMap (h : Follows R T ws ws') {f f' : Way → List Way}
    (hR : ∀ w w', R w w' → Follows S U (f w) (f' w')) (hT : ∀ w', T w' → Follows S U [] (f' w')) :
    Follows S U (ws.flatMap f) (ws'.flatMap f') := by
  induction h with
  | nil => exact .nil
  | cons hr _ ih => exact (hR _ _ hr).append ih
  | torn ht _ ih => exact (hT _ ht).append ih

theorem map (h : Follows R T ws ws') {f f' : Way → Way}
    (hR : ∀ w ∈ ws, ∀ w', R w w' → S (f w) (f' w')) (hT : ∀ w', T w' → U (f' w')) :
    Follows S U (ws.map f) (ws'.map f') := by
  induction h with
  | nil => exact .nil
  | cons hr _ ih =>
    exact .cons (hR _ List.mem_cons_self _ hr)
      (ih fun w hw => hR w (List.mem_cons_of_mem _ hw))
  | torn ht _ ih => exact .torn (hT _ ht) (ih hR)

/-- Ways from a position are ways from any position in front of it. -/
theorem fromBefore {tears : Bool}
    (h : Follows (Crlf names d) (fun w' => tears = true ∧ Torn d w') ws ws') (hl : c.Leads u d) :
    Follows (Crlf names c) (fun w' => tears = true ∧ Torn c w') ws ws' :=
  h.mono (fun _ _ _ h => h.from hl) fun _ ht => ⟨ht.1, ht.2.from hl⟩

/-- Nothing but torn ways. -/
theorem of_forall (h : ∀ w' ∈ ws', T w') : Follows R T [] ws' := by
  induction ws' with
  | nil => exact .nil
  | cons w' ws' ih =>
    exact .torn (h w' List.mem_cons_self) (ih fun v hv => h v (List.mem_cons_of_mem _ hv))

/-- Where no line end is torn, there is a way exactly if there is a counterpart. -/
theorem isEmpty_eq (h : Follows R (fun _ => False) ws ws') : ws'.isEmpty = ws.isEmpty := by
  cases h with
  | nil => rfl
  | cons _ _ => rfl
  | torn ht _ => exact ht.elim

theorem head? (h : Follows R (fun _ => False) ws ws') : Option.Rel R ws.head? ws'.head? := by
  cases h with
  | nil => exact .none
  | cons hr _ => exact .some hr
  | torn ht _ => exact ht.elim

end Follows

end Way

end CApiUpgrade
