import CApiUpgrade.Proofs.Alignment

/-!
# The preferred way across line ends

A group that takes as little as possible may end in a torn line end, and blanks behind it take what
it leaves.  Its ways are no counterparts of the ways in the text with newlines then: there are more
of them.  But the preferred one is (`Regex.first_lazy`).  Where the group could end in a torn line
end, it could have ended in front of it, and that is tried first.

So for the expressions with such a group, `Regex.FirstAligned` speaks about the preferred way only.
-/

namespace CApiUpgrade

open Text Captures

namespace Way

variable {R S : Way → Way → Prop} {T : Way → Prop} {ws ws' vs vs' : List Way}

theorem head?_append (h : Option.Rel R ws.head? ws'.head?) (h' : Option.Rel R vs.head? vs'.head?) :
    Option.Rel R (ws ++ vs).head? (ws' ++ vs').head? := by
  rw [List.head?_append, List.head?_append]
  revert h
  generalize ws.head? = o
  generalize ws'.head? = o'
  rintro (hr | _)
  · exact .some hr
  · exact h'

/-- Ways that are only there if there are no better ones do not matter otherwise. -/
theorem head?_append_of_nil {torn : List Way} (h : Option.Rel R ws.head? ws'.head?)
    (htorn : ws = [] → torn = []) (h' : Option.Rel R vs.head? vs'.head?) :
    Option.Rel R (ws ++ vs).head? (ws' ++ (torn ++ vs')).head? := by
  cases ws with
  | nil =>
    rw [htorn rfl, List.nil_append]
    exact head?_append h h'
  | cons w ws =>
    cases ws' with
    | nil => cases h
    | cons w' ws' => exact h

/-- The preferred way behind ways that follow each other. -/
theorem Follows.head?_flatMap (h : Follows R T ws ws') {f f' : Way → List Way}
    (hR : ∀ w w', R w w' → Option.Rel S (f w).head? (f' w').head?)
    (hT : ∀ w', T w' → f' w' = []) :
    Option.Rel S (ws.flatMap f).head? (ws'.flatMap f').head? := by
  induction h with
  | nil => exact .none
  | cons hr _ ih => exact head?_append (hR _ _ hr) ih
  | torn ht _ ih =>
    rw [List.flatMap_cons, hT _ ht, List.nil_append]
    exact ih

/-- The preferred way from a position is one from any position in front of it. -/
theorem head?_from {names : String → Prop} {c d : Cursor} {u : List Char}
    (h : Option.Rel (Crlf names d) ws.head? ws'.head?) (hl : c.Leads u d) :
    Option.Rel (Crlf names c) ws.head? ws'.head? := by
  revert h
  generalize ws.head? = o
  generalize ws'.head? = o'
  rintro (h | _)
  · exact .some (h.from hl)
  · exact .none

end Way

namespace Regex

/-! ### Expressions that do not match from torn line ends -/

/-- Nothing is matched from a torn line end on. -/
structure Barred (r : Regex) : Prop where
  ways_eq_nil : ∀ {terms terms' : Terms} {c d : Cursor} {caps caps' : Captures}, c.Lf terms terms' →
    c.next? = some ('\n', d) → caps.Crlf (· ∈ referredNames) caps' →
      r.ways terms' c.torn caps' = []

theorem Aligned.barred {r : Regex} {a : Alignment} (h : r.Aligned a) (hbars : a.grip = .bars) :
    r.Barred where
  ways_eq_nil hc hn hcaps := by
    have hallows := h.allows hc hn hcaps
    rwa [hbars] at hallows

namespace Barred

variable {r s : Regex}

theorem append (h : r.Barred) (s : Regex) : (r ++ s).Barred where
  ways_eq_nil hc hn hcaps := by
    rw [ways_append, h.ways_eq_nil hc hn hcaps, List.flatMap_nil]

theorem group (h : r.Barred) (name : String) : (Regex.group name r).Barred where
  ways_eq_nil hc hn hcaps := by
    rw [ways, h.ways_eq_nil hc hn hcaps, List.map_nil]

theorem of_ways (h : s.Barred)
    (hways : ∀ terms c caps, r.ways terms c caps = s.ways terms c caps) : r.Barred where
  ways_eq_nil hc hn hcaps := by
    rw [hways, h.ways_eq_nil hc hn hcaps]

/-- From a torn line end that another match has left behind. -/
theorem of_torn (h : r.Barred) {terms terms' : Terms} {c : Cursor} (hc : c.Lf terms terms')
    {w' : Way} (hw : Way.Torn c w') : r.ways terms' w'.1 w'.2 = [] := by
  obtain ⟨u, d, e, hl, hn, hstop⟩ := hw.stop
  obtain ⟨k, hk⟩ := hw.captures
  rw [hstop]
  exact h.ways_eq_nil (hc.leads hl) hn hk

end Barred

/-! ### The preferred way -/

/-- The preferred way from the counterpart of a position is the counterpart of the preferred way. -/
structure FirstAlignedAt (terms terms' : Terms) (c : Cursor) (r : Regex) : Prop where
  first : ∀ {names : String → Prop}, (∀ n ∈ referredNames, names n) → ∀ {caps caps' : Captures},
    caps.Crlf names caps' →
      Option.Rel (Way.Crlf names c) (r.ways terms c caps).head? (r.ways terms' c.crlf caps').head?

/-- It is so at every position of a text without carriage returns. -/
structure FirstAligned (r : Regex) : Prop where
  everywhere : ∀ {terms terms' : Terms} {c : Cursor}, c.Lf terms terms' →
    r.FirstAlignedAt terms terms' c

variable {r s : Regex} {terms terms' : Terms} {c : Cursor}

namespace FirstAlignedAt

theorem of_ways (hs : s.FirstAlignedAt terms terms' c)
    (h : ∀ terms c caps, r.ways terms c caps = s.ways terms c caps) :
    r.FirstAlignedAt terms terms' c where
  first hnames _ _ hcaps := by
    rw [h, h]
    exact hs.first hnames hcaps

/-- Behind an expression all of whose ways are known. -/
theorem behind {a : Alignment} (hr : r.Aligned a) (hc : c.Lf terms terms')
    (hs : ∀ {caps : Captures} {w : Way}, w ∈ r.ways terms c caps → (∃ u, c.Leads u w.1) →
      s.FirstAlignedAt terms terms' w.1)
    (hbarred : a.tears = true → s.Barred) : (r ++ s).FirstAlignedAt terms terms' c where
  first {names} hnames caps caps' hcaps := by
    have hfollows := (hr.follows hnames hc hcaps).mono
      (S := fun w w' => w ∈ r.ways terms c caps ∧ Way.Crlf names c w w')
      (fun w hmem w' hw => ⟨hmem, hw⟩) fun _ h => h
    refine hfollows.head?_flatMap (fun w w' ⟨hmem, hw⟩ => ?_) fun w' hw => ?_
    · obtain ⟨u, hl⟩ := hw.leads
      rw [hw.stop]
      exact Way.head?_from ((hs hmem ⟨u, hl⟩).first hnames hw.captures) hl
    · exact (hbarred hw.1).of_torn hc hw.2

/-- Where nothing is found in the text with newlines, nothing is found in the other one, whatever
the groups have captured that no reference is made to. -/
theorem eq_nil (h : r.FirstAlignedAt terms terms' c) {caps caps' : Captures}
    (hcaps : caps.Crlf (· ∈ referredNames) caps') (hnil : r.ways terms c caps = []) :
    r.ways terms' c.crlf caps' = [] := by
  have hfirst := h.first (fun _ hn => hn) hcaps
  rw [hnil] at hfirst
  cases hw : r.ways terms' c.crlf caps' with
  | nil => rfl
  | cons w ws =>
    rw [hw] at hfirst
    cases hfirst

end FirstAlignedAt

theorem Aligned.first {a : Alignment} (h : r.Aligned a) (htears : a.tears = false) :
    r.FirstAligned where
  everywhere hc := ⟨fun hnames _ _ hcaps => ((h.follows hnames hc hcaps).mono (fun _ _ _ h => h)
    (U := fun _ => False) fun _ ht => by simp [htears] at ht).head?⟩

namespace FirstAligned

theorem of_ways (hs : s.FirstAligned)
    (h : ∀ terms c caps, r.ways terms c caps = s.ways terms c caps) : r.FirstAligned :=
  ⟨fun hc => (hs.everywhere hc).of_ways h⟩

theorem behind (hs : s.FirstAligned) {a : Alignment} (hr : r.Aligned a)
    (hbarred : a.tears = true → s.Barred) : (r ++ s).FirstAligned :=
  ⟨fun hc => .behind hr hc (fun _ h => h.elim fun _ hl => hs.everywhere (hc.leads hl)) hbarred⟩

end FirstAligned

/-! ### Groups that take as little as possible -/

section Lazy

variable {cls tail : Regex} {p : Char → Bool} {name : String}

/-- **The group ends at whole positions.**  If it could end in a torn line end, then it could end in
front of it. -/
theorem first_lazy {names : String → Prop} {start : Cursor} {u : List Char} {caps caps' : Captures}
    (hp : cls.takes? = some p) (hn : p '\n' = true) (hr : p '\r' = true)
    (hname : name ∉ referredNames) (hstart : start.Lf terms terms') (htail : tail.FirstAligned)
    (hback : ∀ {d e : Cursor} {caps : Captures}, d.Lf terms terms' → d.next? = some ('\n', e) →
      tail.ways terms' d.crlf caps = [] → tail.ways terms' d.torn caps = [])
    (hnames : ∀ n ∈ referredNames, names n) (hl : start.Leads u c) (hcaps : caps.Crlf names caps') :
    Option.Rel (Way.Crlf names start) (lazyWays terms name start cls tail c caps).head?
      (lazyWays terms' name start.crlf cls tail c.crlf caps').head? := by
  have hsolid : name ∉ solidNames := fun h => hname (List.mem_cons_of_mem _ h)
  have hends : ∀ {u : List Char} {c : Cursor}, start.Leads u c →
      Option.Rel (Way.Crlf names start) (tail.ways terms c ((name, ⟨start, c⟩) :: caps)).head?
        (tail.ways terms' c.crlf ((name, ⟨start.crlf, c.crlf⟩) :: caps')).head? := fun hl =>
    Way.head?_from ((htail.everywhere (hstart.leads hl)).first hnames
      (hcaps.cons hl (hstart.clean_of_leads hl) fun h => absurd h hsolid)) hl
  -- The group ends here or takes one more character, so the induction is on what is left of the
  -- text.
  generalize hlen : c.after.length = n
  induction n generalizing c u with
  | zero =>
    have hc := hstart.leads hl
    have hnone : c.next? = none := by rw [Cursor.next?, List.length_eq_zero_iff.mp hlen]
    rw [lazyWays_eq hp hc.room, lazyWays_eq hp hc.room', Way.step, Way.step, hnone,
      Cursor.next?_crlf_of_none hnone]
    exact Way.head?_append (hends hl) .none
  | succ n ih =>
    have hc := hstart.leads hl
    obtain ⟨x, rest, hafter⟩ := List.exists_cons_of_length_eq_add_one hlen
    obtain ⟨d, hnext⟩ := Cursor.next?_of_after hafter
    have hld := hl.trans (Cursor.leads_of_next? hnext)
    have hrest : d.after.length = n := by
      have h := congrArg List.length (Cursor.leads_of_next? hnext).after
      rw [List.length_append, List.length_singleton] at h
      omega
    have hlater := ih hld hrest
    rw [lazyWays_eq hp hc.room, lazyWays_eq hp hc.room']
    by_cases hx : x = '\n'
    · subst hx
      obtain ⟨hstep, hstep', hstep''⟩ := Aligned.step_of_newline hn hr hnext caps caps'
      have hroom : c.torn.after.length ≤ terms'.bound :=
        (Cursor.leads_torn hnext).length_le.trans hc.room'
      rw [hstep, hstep', List.flatMap_singleton, List.flatMap_singleton,
        lazyWays_eq hp hroom, hstep'', List.flatMap_singleton]
      -- The group may end in the torn line end too, but only if it can end in front of it.
      refine Way.head?_append_of_nil (hends hl) (fun hnil => ?_) hlater
      have htorn := (hcaps.mono hnames).cons_of_not hname hl ⟨start.crlf, c.torn⟩
      exact hback hc hnext ((htail.everywhere hc).eq_nil htorn hnil)
    · obtain ⟨hstep, hstep'⟩ := Aligned.step_of_ne hnext hx p caps caps'
      rw [hstep, hstep']
      split_ifs
      · rw [List.flatMap_singleton, List.flatMap_singleton]
        exact Way.head?_append (hends hl) hlater
      · exact Way.head?_append (hends hl) .none

/-- What starts with blanks can be matched in front of a blank if it can be matched behind it. -/
theorem ways_blanks_eq_nil {X : Regex} {terms : Terms} {c d : Cursor} {x : Char} {caps : Captures}
    (hnext : c.next? = some (x, d)) (hx : isBlank x = true) (hroom : c.after.length ≤ terms.bound)
    (hnil : (blanks ++ X).ways terms c caps = []) : (blanks ++ X).ways terms d caps = [] := by
  have hstep : Way.step (Category.contains .blank · != false) c caps = [(d, caps)] := by
    rw [Way.step, hnext]
    simp [Category.contains, hx]
  change (blanks.ways terms c caps).flatMap _ = [] at hnil
  rw [blanks, ways_many rfl hroom, hstep, List.flatMap_singleton, List.flatMap_append,
    List.append_eq_nil_iff] at hnil
  exact hnil.1

/-- A lazy group in front of blanks, behind characters that are not torn line ends. -/
theorem FirstAligned.group_lazy {front X : Regex} {a : Alignment} (hp : cls.takes? = some p)
    (hn : p '\n' = true) (hr : p '\r' = true) (hname : name ∉ referredNames)
    (hfront : front.Aligned a) (htears : a.tears = false) (htail : (blanks ++ X).FirstAligned) :
    (Regex.group name (front ++ manyLazy cls) ++ (blanks ++ X)).FirstAligned := by
  refine ⟨fun hc => ⟨fun {names} hnames caps caps' hcaps => ?_⟩⟩
  rw [ways_group_manyLazy, ways_group_manyLazy]
  refine ((hfront.follows hnames hc hcaps).mono (fun _ _ _ h => h) (U := fun _ => False)
    fun _ ht => by simp [htears] at ht).head?_flatMap (fun w w' hw => ?_) fun _ h => h.elim
  obtain ⟨u, hl⟩ := hw.leads
  rw [hw.stop]
  refine first_lazy hp hn hr hname hc htail (fun hd hnext hnil => ?_) hnames hl hw.captures
  exact ways_blanks_eq_nil (Cursor.next?_crlf_of_newline hnext) rfl hd.room' hnil

/-- An argument and the blanks around it.  Where there is nothing in the parentheses but blanks, the
argument would have to be one of them, and a line end would be torn. -/
theorem FirstAlignedAt.argument {X : Regex} (hp : cls.takes? = some p) (hn : p '\n' = true)
    (hr : p '\r' = true) (hname : name ∉ referredNames) (hX : X.Basic) (hclosed : X.isClosed = true)
    (htail : (blanks ++ (char ')' ++ X)).FirstAligned) (hc : c.Lf terms terms')
    (hclose : ∀ gap rest, c.after = gap ++ ')' :: rest → (∀ x ∈ gap, isBlank x = true) → gap = []) :
    (blanks ++ (Regex.group name (many1Lazy cls) ++ (blanks ++ (char ')' ++ X)))).FirstAlignedAt
      terms terms' c := by
  obtain ⟨d, hl, hafter⟩ :=
    Cursor.exists_leads (List.takeWhile_append_dropWhile (p := isBlank)).symm
  have hgap : ∀ x ∈ c.after.takeWhile isBlank, isBlank x = true := fun x hx =>
    List.mem_takeWhile_imp hx
  have hd : ∀ x, d.after.head? = some x → isBlank x = false := by
    intro x hx
    have hfirst := List.head?_dropWhile_not isBlank c.after
    rwa [← hafter, hx] at hfirst
  have hclosed' : c.after.takeWhile isBlank ≠ [] → d.after.head? ≠ some ')' := by
    intro hne hhead
    obtain ⟨rest, hrest⟩ := List.head?_eq_some_iff.mp hhead
    exact hne (hclose _ rest (by rw [← hrest]; exact hl.after) hgap)
  have hhead := Cursor.head?_crlf_of_ne (c := d) fun h => absurd (hd _ h) (by decide)
  refine ⟨fun {names} hnames caps caps' hcaps => ?_⟩
  -- In either text, all blanks in front of the argument are taken.
  rw [head?_ways_argument hp hX hclosed hl hgap hd hclosed' hc.room,
    head?_ways_argument hp hX hclosed hl.crlf (isBlank_crlf hgap) (hhead ▸ hd)
      (fun hne => hhead ▸ hclosed' fun h => hne (by rw [h, crlf_nil])) hc.room',
    ways_group_many1Lazy hp, ways_group_many1Lazy hp]
  refine Way.head?_from ?_ hl
  have hroom := hc.leads hl
  cases hnext : d.next? with
  | none =>
    rw [Way.step, Way.step, hnext, Cursor.next?_crlf_of_none hnext]
    exact .none
  | some m =>
    obtain ⟨x, e⟩ := m
    have hle := Cursor.leads_of_next? hnext
    -- So the argument does not start with a line end.
    have hx : x ≠ '\n' := by
      rintro rfl
      exact absurd (hd '\n' (by rw [hle.after]; rfl)) (by decide)
    obtain ⟨hstep, hstep'⟩ := Aligned.step_of_ne hnext hx p caps caps'
    rw [hstep, hstep']
    split_ifs
    · rw [List.flatMap_singleton, List.flatMap_singleton]
      exact first_lazy hp hn hr hname hroom htail
        (fun hd' hnext' hnil =>
          ways_blanks_eq_nil (Cursor.next?_crlf_of_newline hnext') rfl hd'.room' hnil)
        hnames hle hcaps
    · exact .none

end Lazy

end Regex

end CApiUpgrade
