import CApiUpgrade.Proofs.StepsBack

/-!
# Patterns for whole texts

An expression between the two ends of the text (`Regex.whole`) matches nowhere but at the start, and
there only what reaches the end.  So a search for it is a question about the text as a whole, and
the answer is yes or no.

`Pattern.Decides` says which question a pattern answers, and what the answer may cost.  To show it,
one has to know what the expression matches, and that a run gets through the texts in question
without going astray (`Pattern.decides_of_whole`).
-/

namespace CApiUpgrade

namespace Regex

variable {r : Regex} {terms : Terms} {limit origin : Option Nat} {bound n : Nat} {c d : Cursor}

/-- An expression for whole texts. -/
def whole (r : Regex) : Regex := cat (anchor .textStart) (cat r (anchor .textEnd))

/-- The limit has no part in what an expression matches. -/
theorem ways_limit (r : Regex) (limit : Option Nat) (bound : Nat) (origin : Option Nat) :
    r.ways ⟨limit, bound, origin⟩ = r.ways ⟨none, bound, origin⟩ := by
  induction r with
  | cat a b iha ihb | alt a b iha ihb => funext cur caps; simp only [ways, iha, ihb]
  | group name body ih | atomic body ih => funext cur caps; simp only [ways, ih]
  | repeated body least most greedy ih => funext cur caps; cases most <;> simp only [ways, ih]
  | look direction negated body ih => funext cur caps; cases direction <;> simp only [ways, ih]
  | conditional condition yes no ihc ihy ihn => funext cur caps; simp only [ways, ihc, ihy, ihn]
  | _ => rfl

/-! ### At the start of the text -/

theorem mem_ways_anchor {anchored : Anchor} {caps caps' : Captures} :
    (d, caps') ∈ (anchor anchored).ways terms c caps ↔ anchored.holds c = true ∧ d = c ∧
    caps' = caps := by
  rw [ways, Way.provided]
  split_ifs with hholds <;> simp [hholds]

/-- What is matched is the whole text. -/
theorem mem_ways_whole {caps caps' : Captures} (h : (d, caps') ∈ r.whole.ways terms c caps) :
    (d, caps') ∈ r.ways terms c caps ∧ d.after = [] := by
  rw [whole, ways, List.mem_flatMap] at h
  obtain ⟨⟨e, caps₁⟩, hstart, h⟩ := h
  rw [ways, List.mem_flatMap] at h
  obtain ⟨⟨f, caps₂⟩, hmatch, hend⟩ := h
  obtain ⟨-, rfl, rfl⟩ := mem_ways_anchor.mp hstart
  obtain ⟨hend, rfl, rfl⟩ := mem_ways_anchor.mp hend
  exact ⟨hmatch, by simpa [Anchor.holds] using hend⟩

theorem Passes.whole {text : List Char} (h : Passes bound origin r (.ofText text) d n)
    (hd : d.after = []) : Passes bound origin r.whole (.ofText text) d n := by
  have hstart : Passes bound origin (anchor .textStart) (.ofText text) (.ofText text) 0 :=
    passes_anchor rfl
  have hend : Passes bound origin (anchor .textEnd) d d 0 :=
    passes_anchor (by simp [Anchor.holds, hd])
  exact (hstart.cat (h.cat hend)).mono (by omega)

/-! ### Behind the start of the text -/

theorem run_whole_behind (hc : c.before ≠ []) (goal : Goal) (caps : Captures) (spent : Nat) :
    r.whole.run terms goal c caps spent = .failed spent := by
  obtain ⟨x, rest, hbefore⟩ := List.exists_cons_of_ne_nil hc
  simp [whole, run, Goal.provided, Anchor.holds, hbefore]

theorem before_of_next? {move : Char × Cursor} (h : c.next? = some move) : move.2.before ≠ [] := by
  rw [(Cursor.leads_of_next? (x := move.1) (d := move.2) h).before]
  simp

theorem eq_none_of_findFrom (hc : c.before ≠ []) {fuel spent : Nat} {o : Option Hit}
    (h : findFrom limit (r.whole.run terms Goal.here) fuel c spent = .ok o) : o = none := by
  induction fuel generalizing c spent with
  | zero => simpa [findFrom] using h.symm
  | succ fuel ih =>
    rw [findFrom, run_whole_behind hc] at h
    dsimp only at h
    split_ifs at h
    cases hnext : c.next? with
    | none => simpa [hnext] using h.symm
    | some move =>
      rw [hnext] at h
      exact ih (before_of_next? hnext) h

/-- Each position behind the start is given up at once. -/
theorem findFrom_behind (hc : c.before ≠ []) {fuel spent : Nat}
    (ha : Allows limit (spent + c.after.length + 1)) :
    findFrom limit (r.whole.run terms Goal.here) fuel c spent = .ok none := by
  induction fuel generalizing c spent with
  | zero => rfl
  | succ fuel ih =>
    have hgoes : limit.any (· ≤ spent) = false := any_le_eq_false_iff.mpr (ha.mono (by omega))
    rw [findFrom, run_whole_behind hc]
    simp only [hgoes, Bool.false_eq_true, ↓reduceIte]
    cases hnext : c.next? with
    | none => rfl
    | some move =>
      refine ih (before_of_next? hnext) (ha.mono ?_)
      rw [(Cursor.leads_of_next? (x := move.1) (d := move.2) hnext).after]
      simp only [List.length_append, List.length_singleton]
      omega

/-! ### Searches -/

/-- A search that gives an answer finds something iff there is a way to match at the start. -/
theorem isSome_iff_of_find {resuming : Bool} {o : Option Hit}
    (h : r.whole.find limit bound resuming c = .ok o) :
    o.isSome = true ↔
    r.whole.ways ⟨limit, bound, if resuming then some c.offset else none⟩ c [] ≠ [] := by
  rw [find, findFrom] at h
  generalize (if resuming then some c.offset else none) = origin at h ⊢
  have hanswers := run_here_answers ⟨limit, bound, origin⟩ r.whole c [] 0
  generalize r.whole.run _ Goal.here c [] 0 = v at hanswers h
  generalize r.whole.ways _ c [] = ws at hanswers
  cases v with
  | exhausted => simp at h
  | found stop caps total =>
    obtain rfl := Except.ok.inj h
    cases ws with
    | nil => cases hanswers
    | cons w ws => simp
  | failed total =>
    -- A pattern of whole texts matches at the start only, so the search ends with it.
    have hnone : o = none := by
      dsimp only at h
      split_ifs at h
      cases hnext : c.next? with
      | none => simpa [hnext] using h.symm
      | some move =>
        rw [hnext] at h
        exact eq_none_of_findFrom (before_of_next? hnext) h
    cases ws with
    | nil => simp [hnone]
    | cons w ws => cases hanswers

section
variable {find : Bool → Cursor → Except SearchError (Option Hit)} {fuel : Nat} {resuming : Bool}

/-- The first match is never passed over. -/
theorem ne_nil_iff_of_findAllFrom {hits : List Hit}
    (h : findAllFrom find (fuel + 1) resuming c none = .ok hits) :
    ∃ o, find resuming c = .ok o ∧ (hits ≠ [] ↔ o.isSome = true) := by
  rw [findAllFrom] at h
  cases hfound : find resuming c with
  | error cause => simp [hfound, bind, Except.bind] at h
  | ok o =>
    refine ⟨o, rfl, ?_⟩
    cases o with
    | none =>
      simp only [hfound, bind, Except.bind, pure, Except.pure, Except.ok.injEq] at h
      simp [← h]
    -- A first hit is never dropped: there is none before it that it could stand next to.
    | some hit =>
      have hfresh : ((none : Option Nat) == some hit.stop.offset) = false := rfl
      simp only [hfound, bind, Except.bind, pure, Except.pure, hfresh, Bool.false_eq_true,
        ↓reduceIte] at h
      have hne : hits ≠ [] := by
        split_ifs at h
        · split at h
          · split at h
            · cases h
            · exact Except.ok.inj h ▸ List.cons_ne_nil _ _
          · exact Except.ok.inj h ▸ List.cons_ne_nil _ _
        · split at h
          · cases h
          · exact Except.ok.inj h ▸ List.cons_ne_nil _ _
      simp [hne]

/-- If nothing is found behind a match, it is the only one. -/
theorem findAllFrom_eq_singleton {hit : Hit} (hfirst : find resuming c = .ok (some hit))
    (hstop : hit.stop.before ≠ [])
    (hbehind : ∀ resuming (d : Cursor), d.before ≠ [] → d.after.length ≤ hit.stop.after.length →
      find resuming d = .ok none) : findAllFrom find (fuel + 1) resuming c none = .ok [hit] := by
  -- Nothing is found behind the hit, wherever the search resumes.
  have hrest : ∀ (resuming : Bool) (d : Cursor) (last : Option Nat), d.before ≠ [] →
      d.after.length ≤ hit.stop.after.length → findAllFrom find fuel resuming d last = .ok [] := by
    intro resuming d last hd hlength
    cases fuel with
    | zero => rfl
    | succ fuel => rw [findAllFrom, hbehind resuming d hd hlength]; rfl
  have hfresh : ((none : Option Nat) == some hit.stop.offset) = false := rfl
  rw [findAllFrom, hfirst]
  simp only [bind, Except.bind, hfresh, Bool.false_eq_true, ↓reduceIte]
  split_ifs
  · cases hnext : hit.stop.next? with
    | none => rfl
    | some move =>
      have hafter :=
        congrArg List.length (Cursor.leads_of_next? (x := move.1) (d := move.2) hnext).after
      rw [List.length_append] at hafter
      simp only [hrest false move.2 _ (before_of_next? hnext) (by omega)]
      rfl
  · simp only [hrest true hit.stop _ hstop le_rfl]
    rfl

end

end Regex

/-! ### Decisions -/

/-- An expression matches only texts of a set, and a run gets through each of them without going
astray. -/
structure Regex.Settles (r : Regex) (P : List Char → Prop) (cost : Nat → Nat) : Prop where
  /-- Something has to be matched. -/
  not_nil : ¬P []
  /-- What is matched belongs to the set. -/
  matched : ∀ {terms c d caps}, (d, caps) ∈ r.ways terms c [] → ∃ w, c.Leads w d ∧ P w
  /-- What belongs to the set is matched up to the end of the text. -/
  passes : ∀ {bound origin c d w}, P w → c.Leads w d → d.after = [] → c.after.length ≤ bound →
    Passes bound origin r c d (cost w.length)

/-- **Decisions.**  A search decides whether a text belongs to a set, and finds something iff it
does. -/
structure Pattern.Decides (p : Pattern) (P : List Char → Prop) (cost : Nat → Nat) : Prop where
  /-- Whatever the budget is, an answer is right. -/
  right : ∀ {text : List Char} {budget : Nat} {hits : List Hit},
    (p.withBudget budget).hits text = .ok hits → (hits ≠ [] ↔ P text)
  /-- From some budget on, there is an answer. -/
  answers : ∀ text : List Char, ∃ least, ∀ budget ≥ least, ∃ hits,
    (p.withBudget budget).hits text = .ok hits
  /-- The budget that is enough for a text of the set depends on its length alone. -/
  affordable : ∀ {text : List Char} {budget : Nat}, P text → cost text.length < budget →
    ∃ hit, (p.withBudget budget).hits text = .ok [hit]

namespace Regex.Settles

variable {r : Regex} {P : List Char → Prop} {cost : Nat → Nat} {text : List Char}

theorem passes_whole (h : r.Settles P cost) (htext : P text) (origin : Option Nat) :
    ∃ d, Passes text.length origin r.whole (.ofText text) d (cost text.length) := by
  obtain ⟨d, hl, hd⟩ :=
    Cursor.exists_leads (c := .ofText text) (u := text) (v := []) (List.append_nil text).symm
  exact ⟨d, (h.passes htext hl hd le_rfl).whole hd⟩

theorem matched_whole (h : r.Settles P cost) {terms : Terms} {d : Cursor} {caps : Captures}
    (hmem : (d, caps) ∈ r.whole.ways terms (.ofText text) []) :
    P text ∧ d.before ≠ [] ∧ d.after = [] := by
  obtain ⟨hmatch, hend⟩ := mem_ways_whole hmem
  obtain ⟨w, hl, hw⟩ := h.matched hmatch
  have htext : text = w := by simpa [Cursor.ofText, hend] using hl.after
  refine ⟨htext ▸ hw, fun hbefore => h.not_nil ?_, hend⟩
  have hnil : w = [] := by simpa [Cursor.ofText, hbefore] using hl.before
  exact hnil ▸ hw

theorem ways_whole_ne_nil_iff (h : r.Settles P cost) (limit origin : Option Nat) :
    r.whole.ways ⟨limit, text.length, origin⟩ (.ofText text) [] ≠ [] ↔ P text := by
  constructor
  · intro hne
    obtain ⟨⟨d, caps⟩, hmem⟩ := List.exists_mem_of_ne_nil _ hne
    exact (h.matched_whole hmem).1
  · intro htext
    obtain ⟨d, hpasses⟩ := h.passes_whole htext origin
    rw [ways_limit]
    exact hpasses.ways_ne_nil

theorem right (h : r.Settles P cost) {limit : Option Nat} {skipping : Bool} {hits : List Hit}
    (hhits : r.whole.findAll limit skipping text = .ok hits) : hits ≠ [] ↔ P text := by
  rw [findAll] at hhits
  obtain ⟨o, ho, hiff⟩ := ne_nil_iff_of_findAllFrom hhits
  rw [hiff, isSome_iff_of_find ho]
  exact h.ways_whole_ne_nil_iff _ _

theorem affordable (h : r.Settles P cost) {limit : Option Nat} (htext : P text)
    (ha : Allows limit (cost text.length + 1)) (skipping : Bool) :
    ∃ hit, r.whole.findAll limit skipping text = .ok [hit] := by
  obtain ⟨d, hpasses⟩ := h.passes_whole htext (some 0)
  obtain ⟨hit, hfound, hmem⟩ := hpasses.found (ha.mono (Nat.le_succ _)) text.length
  obtain ⟨-, hbefore, hafter⟩ := h.matched_whole hmem
  refine ⟨hit, ?_⟩
  rw [findAll]
  refine findAllFrom_eq_singleton hfound hbefore fun resuming e he hlength =>
    findFrom_behind he (ha.mono ?_)
  rw [hafter, List.length_nil] at hlength
  omega

/-- **Deciding by a search.**  A pattern for whole texts decides about what its expression
settles. -/
theorem decides (h : r.Settles P cost) {p : Pattern} (hp : p.regex = r.whole) :
    p.Decides P cost where
  right {text budget hits} hhits := by
    have hall := Pattern.hits_eq_ok.mp hhits
    rw [Pattern.withBudget, hp] at hall
    exact h.right hall
  answers text := by
    obtain ⟨hits, least, hhits⟩ := p.exists_hits text
    exact ⟨least, fun budget hbudget => ⟨hits, hhits budget hbudget⟩⟩
  affordable {text budget} htext hbudget := by
    obtain ⟨hit, hfound⟩ := h.affordable htext (p.allows_limit hbudget) p.template.hasDollar
    rw [← hp] at hfound
    exact ⟨hit, Pattern.hits_eq_ok.mpr hfound⟩

end Regex.Settles

end CApiUpgrade
