import CApiUpgrade.Proofs.Unbraced

/-!
# Texts that are found

Every way to match an expression uses up a text that the expression spells
(`Regex.Basic.spells_of_mem_ways`).  For expressions that only say which characters to match, the
converse holds too: wherever a text stands that the expression spells, one of the ways uses it up,
and captures nothing (`Regex.mem_ways_iff_spells`).  It need not be the preferred one.
-/

namespace CApiUpgrade

namespace Cursor

variable {c d : Cursor} {u v : List Char}

/-- There is a position between two texts. -/
theorem Leads.split (h : c.Leads (u ++ v) d) : ∃ e, c.Leads u e ∧ e.Leads v d := by
  refine ⟨⟨u.reverse ++ c.before, v ++ d.after, _, rfl⟩, ⟨?_, rfl⟩, ⟨rfl, ?_⟩⟩
  · rw [h.after, List.append_assoc]
  · rw [h.before, List.reverse_append, List.append_assoc]

theorem Leads.eq_of_nil (h : c.Leads [] d) : d = c :=
  Cursor.ext h.before h.after.symm

/-- A text leads from a position to one position only. -/
theorem Leads.unique {e : Cursor} (h : c.Leads u d) (h' : c.Leads u e) : d = e := by
  refine Cursor.ext (h.before.trans h'.before.symm) ?_
  exact List.append_cancel_left (h.after.symm.trans h'.after)

theorem exists_leads (h : c.after = u ++ v) : ∃ d, c.Leads u d ∧ d.after = v :=
  ⟨⟨u.reverse ++ c.before, v, _, rfl⟩, ⟨h, rfl⟩, rfl⟩

theorem Leads.next? {x : Char} (h : c.Leads [x] d) : c.next? = some (x, d) := by
  obtain ⟨before, after, offset, hoffset⟩ := c
  obtain ⟨hafter, hbefore⟩ := h
  simp only [List.singleton_append] at hafter
  subst hafter
  rw [Cursor.next?]
  exact congrArg some (Prod.ext rfl (Cursor.ext hbefore.symm rfl))

end Cursor

/-! ### Rounds -/

/-- Texts that are not empty have at least one character each. -/
theorem length_le_of_nil_notMem {ws : List (List Char)} (h : [] ∉ ws) :
    ws.length ≤ ws.flatten.length := by
  induction ws with
  | nil => simp
  | cons u ws ih =>
    rw [List.mem_cons, not_or] at h
    have hu : 0 < u.length := List.length_pos_iff.mpr (Ne.symm h.1)
    have hrest := ih h.2
    rw [List.flatten_cons, List.length_append, List.length_cons]
    omega

namespace Way

variable {body more : Cursor → Captures → List Way} {c d : Cursor} {caps : Captures}
  {ws : List (List Char)} {room : Nat}

/-- Wherever one of some texts stands, one of the ways uses it up and captures nothing. -/
def Finds (body : Cursor → Captures → List Way) (caps : Captures) (room : Nat)
    (ws : List (List Char)) : Prop :=
  ∀ u ∈ ws, ∀ {c d : Cursor}, c.Leads u d → c.after.length ≤ room → (d, caps) ∈ body c caps

theorem Finds.subset (h : Finds body caps room ws) {vs : List (List Char)} (hvs : vs ⊆ ws) :
    Finds body caps room vs :=
  fun u hu => h u (hvs hu)

theorem self_mem_rounds (greedy moving : Bool) (n : Nat) :
    (c, caps) ∈ rounds body greedy moving n c caps := by
  cases n with
  | zero => exact List.mem_singleton.mpr rfl
  | succ n => cases greedy <;> simp [rounds]

theorem mem_rounds_succ {greedy moving : Bool} {n : Nat} {w v : Way} (hv : v ∈ body c caps)
    (hmoved : moving = true → v.1.offset ≠ c.offset)
    (h : w ∈ rounds body greedy moving n v.1 v.2) :
    w ∈ rounds body greedy moving (n + 1) c caps := by
  have hgoes : (moving && v.1.offset == c.offset) = false := by
    cases moving with
    | false => rfl
    | true => simpa using hmoved rfl
  have hanother : w ∈ (body c caps).flatMap fun v =>
      if moving && v.1.offset == c.offset then [v] else rounds body greedy moving n v.1 v.2 :=
    List.mem_flatMap.mpr ⟨v, hv, by rwa [hgoes, if_neg Bool.false_ne_true]⟩
  cases greedy with
  | true => exact List.mem_append_left _ hanother
  | false => exact List.mem_cons_of_mem _ hanother

/-- A repetition finds texts that its body finds, if it may have as many rounds. -/
theorem Finds.rounds (h : Finds body caps room ws) {greedy moving : Bool} {n : Nat}
    (hne : moving = true → [] ∉ ws) (hlen : ws.length ≤ n) (hl : c.Leads ws.flatten d)
    (hroom : c.after.length ≤ room) : (d, caps) ∈ rounds body greedy moving n c caps := by
  induction ws generalizing n c with
  | nil => exact hl.eq_of_nil ▸ self_mem_rounds greedy moving n
  | cons u ws ih =>
    obtain ⟨n, rfl⟩ : ∃ k, n = k + 1 :=
      Nat.exists_eq_succ_of_ne_zero (Nat.ne_of_gt (Nat.lt_of_lt_of_le (Nat.succ_pos _) hlen))
    obtain ⟨e, hu, hrest⟩ := hl.split
    have hmem := ih (fun v hv => h v (List.mem_cons_of_mem _ hv))
      (fun hm hin => hne hm (List.mem_cons_of_mem _ hin)) (Nat.le_of_succ_le_succ hlen) hrest
      (hu.length_le.trans hroom)
    refine mem_rounds_succ (h u List.mem_cons_self hu hroom) (fun hm heq => hne hm ?_) hmem
    -- A round that stays where it is has used up the empty text.
    have hoffset : c.offset = c.offset + u.length := heq.symm.trans hu.offset
    have hnil : u = [] := List.length_eq_zero_iff.mp (by omega)
    exact hnil ▸ List.mem_cons_self

/-- The rounds that must be come first, one for each text. -/
theorem Finds.exactly (h : Finds body caps room ws) {v : List Char}
    (hmore : ∀ {c d : Cursor}, c.Leads v d → c.after.length ≤ room → (d, caps) ∈ more c caps)
    (hl : c.Leads (ws.flatten ++ v) d) (hroom : c.after.length ≤ room) :
    (d, caps) ∈ exactly body more ws.length c caps := by
  induction ws generalizing c with
  | nil => exact hmore hl hroom
  | cons u ws ih =>
    rw [List.flatten_cons, List.append_assoc] at hl
    obtain ⟨e, hu, hrest⟩ := hl.split
    exact List.mem_flatMap.mpr ⟨_, h u List.mem_cons_self hu hroom,
      ih (fun v hv => h v (List.mem_cons_of_mem _ hv)) hrest (hu.length_le.trans hroom)⟩

end Way

/-! ### Expressions that only say which characters to match -/

namespace Regex

/-- Whether an expression only says which characters to match: it makes no assertion and no
reference, and it captures nothing. -/
def isText : Regex → Bool
  | empty | char _ | oneOf _ | category _ _ | any _ => true
  | cat a b | alt a b => a.isText && b.isText
  | repeated body _ _ _ => body.isText
  | _ => false

variable {r : Regex}

theorem basic_of_isText (h : r.isText = true) : r.Basic := by
  induction r with
  | empty => exact .empty
  | char _ | oneOf _ | category _ _ | any _ => exact .one rfl
  | cat a b iha ihb =>
    rw [isText, Bool.and_eq_true] at h
    exact .cat (iha h.1) (ihb h.2)
  | alt a b iha ihb =>
    rw [isText, Bool.and_eq_true] at h
    exact .alt (iha h.1) (ihb h.2)
  | repeated body least most greedy ih => exact .repeated least most greedy (ih h)
  | _ => simp [isText] at h

/-- An expression that only says which characters to match has no groups. -/
theorem groups_of_isText (h : r.isText = true) : r.groups = [] := by
  induction r with
  | cat a b iha ihb | alt a b iha ihb =>
    rw [isText, Bool.and_eq_true] at h
    rw [groups, iha h.1, ihb h.2, List.append_nil]
  | repeated body least most greedy ih => exact ih h
  | empty | char _ | oneOf _ | category _ _ | any _ => rfl
  | _ => simp [isText] at h

theorem setsOnce_of_isText (h : r.isText = true) : r.setsOnce = true := by
  induction r with
  | cat a b iha ihb | alt a b iha ihb =>
    rw [isText, Bool.and_eq_true] at h
    rw [setsOnce, iha h.1, ihb h.2, groups_of_isText h.1]
    rfl
  | repeated body least most greedy ih => simp [setsOnce, ih h, groups_of_isText (r := body) h]
  | empty | char _ | oneOf _ | category _ _ | any _ => rfl
  | _ => simp [isText] at h

/-- What groups contribute is of no importance. -/
theorem Spells.of_isText (hr : r.isText = true) {ρ ρ' : Reading} {w : List Char}
    (h : r.Spells ρ w) : r.Spells ρ' w := by
  induction r generalizing w with
  | empty | char _ | oneOf _ | category _ _ | any _ => exact h
  | cat a b iha ihb =>
    rw [isText, Bool.and_eq_true] at hr
    obtain ⟨u, v, rfl, hu, hv⟩ := h
    exact ⟨u, v, rfl, iha hr.1 hu, ihb hr.2 hv⟩
  | alt a b iha ihb =>
    rw [isText, Bool.and_eq_true] at hr
    exact h.imp (fun h => ⟨iha hr.1 h.1, by simp [groups_of_isText hr.2]⟩)
      fun h => ⟨ihb hr.2 h.1, by simp [groups_of_isText hr.1]⟩
  | repeated body least most greedy ih =>
    obtain ⟨ws, rfl, hws, hleast, hmost, -⟩ := h
    exact ⟨ws, rfl, fun u hu => ih hr (hws u hu), hleast, hmost,
      by simp [groups_of_isText (r := body) hr]⟩
  | _ => simp [isText] at hr

/-- A match ends behind where it starts. -/
theorem Basic.leads_of_mem_ways (hr : r.Basic) {terms : Terms} {c : Cursor} {w : Way}
    (h : w ∈ r.ways terms c []) : ∃ u, c.Leads u w.1 := by
  obtain ⟨u, hl, -⟩ := hr.spells_of_mem_ways (fun _ _ _ _ => trivial)
    (Captures.Hold.nil fun _ _ => True) h
  exact ⟨u, hl⟩

theorem mem_ways_of_takes? {p : Char → Bool} (h : r.takes? = some p) {x : Char} (hx : p x = true)
    {terms : Terms} {c d : Cursor} (caps : Captures) (hl : c.Leads [x] d) :
    (d, caps) ∈ r.ways terms c caps := by
  rw [ways_of_takes? h, Way.step, hl.next?]
  simp [hx]

/-- A repetition takes texts one after another if its body finds each of them. -/
theorem mem_ways_repeated {body : Regex} {terms : Terms} {c d : Cursor} {caps : Captures}
    {ws : List (List Char)} (h : Way.Finds (body.ways terms) caps terms.bound ws) {least : Nat}
    {most : Option Nat} (hleast : least ≤ ws.length)
    (hmost : ∀ m, most = some m → ws.length ≤ max least m) (greedy : Bool)
    (hl : c.Leads ws.flatten d) (hroom : c.after.length ≤ terms.bound) :
    (d, caps) ∈ (repeated body least most greedy).ways terms c caps := by
  have hsplit : ws.flatten = (ws.take least).flatten ++ (ws.drop least).flatten := by
    rw [← List.flatten_append, List.take_append_drop]
  have hlen : (ws.take least).length = least := List.length_take_of_le hleast
  rw [hsplit] at hl
  unfold ways
  rw [← hlen]
  refine (h.subset fun u hu => List.mem_of_mem_take hu).exactly (fun hlv hroom => ?_) hl hroom
  rw [hlen]
  cases most with
  | some m =>
    have hm := hmost m rfl
    have hrest : (ws.drop least).length ≤ m - least := by
      rw [List.length_drop]
      omega
    exact (h.subset fun u hu => List.mem_of_mem_drop hu).rounds (by simp) hrest hlv hroom
  | none =>
    -- Empty rounds are left out, since a repetition would end with the first one.
    have hflatten := List.flatten_filter_not_isEmpty (L := ws.drop least)
    rw [← hflatten] at hlv
    have hnil : [] ∉ (ws.drop least).filter (!·.isEmpty) := by simp
    have hcount := length_le_of_nil_notMem hnil
    have hafter := congrArg List.length hlv.after
    rw [List.length_append] at hafter
    exact (h.subset fun u hu => List.mem_of_mem_drop (List.mem_of_mem_filter hu)).rounds
      (fun _ => hnil) (by omega) hlv hroom

/-- What such an expression spells is one of the ways to match it. -/
theorem mem_ways_of_spells (hr : r.isText = true) {ρ : Reading} {w : List Char}
    (hw : r.Spells ρ w) {terms : Terms} {c d : Cursor} (caps : Captures) (hl : c.Leads w d)
    (hroom : c.after.length ≤ terms.bound) : (d, caps) ∈ r.ways terms c caps := by
  induction r generalizing w c d with
  | empty =>
    obtain rfl : w = [] := hw
    exact hl.eq_of_nil ▸ List.mem_singleton.mpr rfl
  | char x =>
    obtain rfl : w = [x] := hw
    exact mem_ways_of_takes? (p := (· == x)) rfl (beq_self_eq_true x) caps hl
  | oneOf cls =>
    obtain ⟨x, hx, rfl⟩ := hw
    exact mem_ways_of_takes? rfl hx caps hl
  | category kind negated =>
    obtain ⟨x, hx, rfl⟩ := hw
    exact mem_ways_of_takes? rfl hx caps hl
  | any newline =>
    obtain ⟨x, hx, rfl⟩ := hw
    exact mem_ways_of_takes? rfl hx caps hl
  | cat a b iha ihb =>
    rw [isText, Bool.and_eq_true] at hr
    obtain ⟨u, v, rfl, hu, hv⟩ := hw
    obtain ⟨e, hlu, hlv⟩ := hl.split
    exact List.mem_flatMap.mpr ⟨_, iha hr.1 hu hlu hroom,
      ihb hr.2 hv hlv (hlu.length_le.trans hroom)⟩
  | alt a b iha ihb =>
    rw [isText, Bool.and_eq_true] at hr
    rcases hw with ⟨hw, -⟩ | ⟨hw, -⟩
    · exact List.mem_append_left _ (iha hr.1 hw hl hroom)
    · exact List.mem_append_right _ (ihb hr.2 hw hl hroom)
  | repeated body least most greedy ih =>
    obtain ⟨ws, rfl, hws, hleast, hmost, -⟩ := hw
    have hfinds : Way.Finds (body.ways terms) caps terms.bound ws :=
      fun u hu c d hlu hroom => ih hr (hws u hu) hlu hroom
    exact mem_ways_repeated hfinds hleast hmost greedy hl hroom
  | _ => simp [isText] at hr

/-- **Ways and spelled texts.**  The ways to match an expression that only says which characters to
match are the texts that it spells. -/
theorem mem_ways_iff_spells (hr : r.isText = true) (ρ : Reading) {terms : Terms} {c d : Cursor}
    {caps caps' : Captures} (hroom : c.after.length ≤ terms.bound) :
    (d, caps') ∈ r.ways terms c caps ↔ caps' = caps ∧ ∃ w, c.Leads w d ∧ r.Spells ρ w := by
  constructor
  · intro h
    have hgroups := groups_of_isText hr
    obtain ⟨w, new, hl, rfl, hnew, hspells⟩ := (basic_of_isText hr).reads_of_mem_ways
      (setsOnce_of_isText hr) (by simp [hgroups]) h
    have hnil : new = [] :=
      List.eq_nil_iff_forall_not_mem.mpr fun e he => by simpa [hgroups] using hnew e he
    refine ⟨by rw [hnil, List.nil_append], w, hl, ?_⟩
    refine (hspells caps.textOf (by simp [hgroups]) fun n s hs => ?_).of_isText hr
    rw [Captures.textOf, hs, Option.map_some]
  · rintro ⟨rfl, w, hl, hw⟩
    exact mem_ways_of_spells hr hw caps' hl hroom

/-! ### What some expressions spell -/

/-- A repetition of one character. -/
theorem spells_repeated_one {p : Char → Bool} (h : r.takes? = some p) {least : Nat} {greedy : Bool}
    {ρ : Reading} {w : List Char} :
    (repeated r least none greedy).Spells ρ w ↔ least ≤ w.length ∧ ∀ c ∈ w, p c = true := by
  constructor
  · rintro ⟨ws, rfl, hws, hleast, -, -⟩
    have hone : ∀ u ∈ ws, ∃ c, p c = true ∧ u = [c] :=
      fun u hu => (spells_of_takes? h).mp (hws u hu)
    have hnil : [] ∉ ws := fun hin => by simpa using hone [] hin
    refine ⟨hleast.trans (length_le_of_nil_notMem hnil), fun c hc => ?_⟩
    obtain ⟨u, hu, hcu⟩ := List.mem_flatten.mp hc
    obtain ⟨d, hd, rfl⟩ := hone u hu
    exact List.mem_singleton.mp hcu ▸ hd
  · rintro ⟨hleast, hw⟩
    have hgroups : r.groups = [] := by cases r <;> simp [takes?] at h <;> rfl
    refine ⟨w.map ([·]), (List.flatMap_singleton' w).symm, fun u hu => ?_, by simpa using hleast,
      by simp, by simp [hgroups]⟩
    obtain ⟨c, hc, rfl⟩ := List.mem_map.mp hu
    exact (spells_of_takes? h).mpr ⟨c, hw c hc, rfl⟩

/-- Blanks, any number of them. -/
theorem spells_blanks {ρ : Reading} {w : List Char} :
    blanks.Spells ρ w ↔ ∀ c ∈ w, Text.isBlank c = true := by
  rw [blanks, many, spells_repeated_one rfl]
  simp [Category.contains]

/-- A part that may be left out. -/
theorem spells_optional (h : r.groups = []) {ρ : Reading} {w : List Char} :
    (optional r).Spells ρ w ↔ w = [] ∨ r.Spells ρ w := by
  constructor
  · rintro ⟨ws, rfl, hws, -, hmost, -⟩
    have hlen : ws.length ≤ 1 := hmost 1 rfl
    match ws, hlen with
    | [], _ => exact .inl rfl
    | [u], _ => exact .inr (by simpa using hws u)
  · rintro (rfl | hw)
    · exact ⟨[], rfl, by simp, Nat.zero_le _, by simp, by simp [h]⟩
    · exact ⟨[w], by simp, by simpa using hw, Nat.zero_le _, by simp, by simp⟩

end Regex

open Regex in
theorem Catalog.word_of_spells_identifier {ρ : Reading} {w : List Char}
    (h : Chain.identifier.Spells ρ w) : w ≠ [] ∧ ∀ c ∈ w, isIdentifierChar c = true := by
  obtain ⟨_, v, rfl, ⟨c, hc, rfl⟩, hv⟩ := h
  have hrest := ((spells_repeated_one rfl).mp hv).2
  refine ⟨by simp, fun d hd => ?_⟩
  rcases List.mem_cons.mp hd with rfl | hd
  · simp [CharClass.contains, Chain.letters, isIdentifierChar, Chain.wordItems] at hc ⊢
    grind
  · have h := hrest d hd
    simp [CharClass.contains, Chain.letters, isIdentifierChar, Chain.wordItems] at h ⊢
    grind

/-- Whether a text is an identifier: a letter of the English alphabet, then letters, digits and
underscores. -/
def Catalog.isIdentifier (w : List Char) : Bool :=
  w.head?.any Text.isLetter && w.all isIdentifierChar

open Regex in
/-- The expression for identifiers spells identifiers. -/
theorem Catalog.spells_identifier {ρ : Reading} {w : List Char} :
    Chain.identifier.Spells ρ w ↔ isIdentifier w = true := by
  have hfirst : ∀ c, CharClass.contains ⟨false, Chain.letters⟩ c = Text.isLetter c := by
    simp [CharClass.contains, Chain.letters, ClassItem.contains, Text.isLetter]
  have hrest : ∀ c, CharClass.contains ⟨false, Chain.letters ++ [.range '0' '9', .char '_']⟩ c =
      isIdentifierChar c := by
    intro c
    rw [Bool.eq_iff_iff]
    simp only [CharClass.contains, isIdentifierChar, Chain.letters, Chain.wordItems, List.any_cons,
      List.any_nil, List.cons_append, List.nil_append, Bool.bne_false, Bool.or_false,
      Bool.or_eq_true]
    exact or_left_comm
  have hletter : ∀ c, Text.isLetter c = true → isIdentifierChar c = true := by
    intro c hc
    rw [← hfirst, CharClass.contains, Bool.bne_false] at hc
    rw [← hrest, CharClass.contains, List.any_append, Bool.bne_false, hc, Bool.true_or]
  constructor
  · rintro ⟨_, v, rfl, ⟨c, hc, rfl⟩, hv⟩
    have hv := ((spells_repeated_one rfl).mp hv).2
    rw [hfirst] at hc
    simp only [hrest] at hv
    simp only [isIdentifier, List.singleton_append, List.head?_cons, Option.any_some, hc,
      Bool.true_and, List.all_cons, hletter c hc, List.all_eq_true]
    exact hv
  · intro h
    cases w with
    | nil => simp [isIdentifier] at h
    | cons c v =>
      simp only [isIdentifier, List.head?_cons, Option.any_some, List.all_cons, Bool.and_eq_true,
        List.all_eq_true] at h
      refine ⟨[c], v, rfl, ⟨c, (hfirst c).trans h.1, rfl⟩,
        (spells_repeated_one rfl).mpr ⟨Nat.zero_le _, ?_⟩⟩
      simpa only [hrest] using h.2.2

/-! ### Matches in a text -/

/-- The matches of a pass start behind the position where the pass starts. -/
theorem Pattern.Pass.leads_of_mem {p : Pattern} (hp : p.Regular) {bound : Nat} {cur : Cursor}
    {hits : List Hit} {out : List Char} (h : p.Pass bound cur hits out) {hit : Hit}
    (hhit : hit ∈ hits) : ∃ u, cur.Leads u hit.start := by
  induction h with
  | done => simp at hhit
  | skip _ hn _ ih =>
    obtain ⟨u, hl⟩ := ih hhit
    exact ⟨_, (Cursor.leads_of_next? hn).trans hl⟩
  | hit ha _ ih =>
    rcases List.mem_cons.mp hhit with rfl | hhit
    · exact ⟨[], .refl _⟩
    · obtain ⟨m, hm, -⟩ := hp.reads ha
      obtain ⟨u, hl⟩ := ih hhit
      exact ⟨_, hm.trans hl⟩

/-- What a match has used up and captured is a way to match the expression, at a position of the
text. -/
theorem Pattern.Regular.way_of_hits {p : Pattern} (hp : p.Regular) {text : List Char}
    {hits : List Hit} (h : p.hits text = .ok hits) {hit : Hit} (hhit : hit ∈ hits) :
    (hit.stop, hit.captures) ∈ p.regex.ways ⟨none, text.length, none⟩ hit.start [] ∧
      ∃ u, (Cursor.ofText text).Leads u hit.start := by
  have hpass := hp.pass_of_hits h
  exact ⟨List.mem_of_head? (hpass.attempt_of_mem hhit), hpass.leads_of_mem hp hhit⟩

end CApiUpgrade
