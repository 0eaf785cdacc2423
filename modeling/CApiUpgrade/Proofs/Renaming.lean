import CApiUpgrade.Proofs.Debt
import Mathlib.Data.List.SplitBy

/-!
# Renaming the functions that a text calls

A text is cut into *pieces*: the longest runs of word characters, and the other characters one by
one.  A table of names renames those pieces that it lists and that open a call, which means that an
opening parenthesis follows behind any number of spaces and tabs.  Nothing else is changed.

Since names are runs of word characters, a renamed text has its cuts at the same places
(`IsCut.renamePieces`) and opens calls at the same places (`opensCall_renamePieces`).  So to rename
by one table after another is to rename once by both (`rename_rename`), as long as the second table
does not list what the first one writes.
-/

namespace CApiUpgrade.Text

/-! ### Pieces -/

/-- The longest runs of word characters of a text, and its other characters one by one. -/
def pieces (text : List Char) : List (List Char) := text.splitBy fun a b => isWord a && isWord b

/-- A run of word characters. -/
def IsRun (piece : List Char) : Prop := piece ≠ [] ∧ ∀ c ∈ piece, isWord c = true

instance (piece : List Char) : Decidable (IsRun piece) :=
  @instDecidableAnd _ _ _ (List.decidableBAll _ piece)

theorem not_isRun_singleton {c : Char} (h : isWord c = false) : ¬ IsRun [c] := by
  intro hrun
  simpa [h] using hrun.2 c (by simp)

theorem IsRun.head?_any {piece : List Char} (h : IsRun piece) (text : List Char) :
    (piece ++ text).head?.any isWord = true := by
  obtain ⟨c, rest, rfl⟩ := List.exists_cons_of_ne_nil h.1
  exact h.2 c (by simp)

theorem IsRun.reverse {piece : List Char} (h : IsRun piece) : IsRun piece.reverse :=
  ⟨by simpa using h.1, fun c hc => h.2 c (List.mem_reverse.mp hc)⟩

/-- A run is the front of a text up to the first character that is no word character. -/
theorem IsRun.takeWhile_append {piece : List Char} (h : IsRun piece) {text : List Char}
    (htext : text.head?.any isWord = false) : (piece ++ text).takeWhile isWord = piece := by
  rw [List.takeWhile_append_of_pos h.2]
  cases text with
  | nil => simp
  | cons c text =>
    have hc : ¬ isWord c = true := by simpa using htext
    rw [List.takeWhile_cons_of_neg hc, List.append_nil]

/-- What the pieces of a text are like. -/
structure IsCut (ps : List (List Char)) : Prop where
  /-- A piece is a run of word characters or one other character. -/
  piece : ∀ p ∈ ps, IsRun p ∨ ∃ c, isWord c = false ∧ p = [c]
  /-- No run can be continued. -/
  longest : ps.IsChain fun p q => ¬ (IsRun p ∧ IsRun q)

theorem IsCut.tail {p : List Char} {ps : List (List Char)} (h : IsCut (p :: ps)) : IsCut ps :=
  ⟨fun q hq => h.piece q (List.mem_cons_of_mem p hq), h.longest.tail⟩

theorem IsCut.of_append {ps qs : List (List Char)} (h : IsCut (ps ++ qs)) : IsCut qs :=
  ⟨fun q hq => h.piece q (List.mem_append_right ps hq), (List.isChain_append.mp h.longest).2.1⟩

/-- A piece with a word character is a run. -/
theorem IsCut.isRun_of_mem {p : List Char} {ps : List (List Char)} (h : IsCut ps) (hp : p ∈ ps)
    {c : Char} (hc : c ∈ p) (hword : isWord c = true) : IsRun p := by
  obtain hrun | ⟨d, hd, rfl⟩ := h.piece p hp
  · exact hrun
  · rw [List.mem_singleton.mp hc, hd] at hword
    contradiction

/-- What follows a run does not start with a word character. -/
theorem IsCut.head?_flatten {p : List Char} {ps : List (List Char)} (h : IsCut (p :: ps))
    (hp : IsRun p) : ps.flatten.head?.any isWord = false := by
  cases ps with
  | nil => rfl
  | cons q ps =>
    obtain hq | ⟨c, hc, rfl⟩ := h.piece q (by simp)
    · exact absurd ⟨hp, hq⟩ (List.isChain_cons_cons.mp h.longest).1
    · simpa using hc

/-- A chain of two or more characters, any two neighbours of which are word characters, is a run. -/
theorem forall_isWord_of_isChain {c d : Char} {rest : List Char}
    (h : (c :: d :: rest).IsChain fun a b => (isWord a && isWord b) = true) :
    ∀ x ∈ c :: d :: rest, isWord x = true := by
  induction rest generalizing c d with
  | nil => simpa using h
  | cons e rest ih =>
    rw [List.isChain_cons_cons] at h
    have hrest := ih h.2
    have hc : isWord c = true := (Bool.and_eq_true_iff.mp h.1).1
    rw [List.forall_mem_cons]
    exact ⟨hc, hrest⟩

theorem isCut_pieces (text : List Char) : IsCut (pieces text) := by
  constructor
  · intro p hp
    have hne : p ≠ [] := List.ne_nil_of_mem_splitBy hp
    have hchain := List.isChain_of_mem_splitBy hp
    match p, hne with
    | [c], _ =>
      by_cases hc : isWord c = true
      · exact .inl ⟨by simp, by simpa using hc⟩
      · exact .inr ⟨c, by simpa using hc, rfl⟩
    | c :: d :: rest, _ => exact .inl ⟨by simp, forall_isWord_of_isChain hchain⟩
  · refine (List.isChain_getLast_head_splitBy _ text).imp ?_
    rintro p q ⟨hp, hq, hapart⟩ ⟨hrun, hrun'⟩
    rw [hrun.2 _ (List.getLast_mem hp), hrun'.2 _ (List.head_mem hq)] at hapart
    simp at hapart

@[simp]
theorem flatten_pieces (text : List Char) : (pieces text).flatten = text := List.flatten_splitBy _ _

@[simp]
theorem flatten_map_singleton (text : List Char) : (text.map ([·])).flatten = text := by
  simp [← List.flatMap_def]

/-- There is only one way to cut a text. -/
theorem IsCut.pieces_flatten {ps : List (List Char)} (h : IsCut ps) : pieces ps.flatten = ps := by
  have hne : ∀ p ∈ ps, p ≠ [] := by
    intro p hp
    obtain hrun | ⟨c, -, rfl⟩ := h.piece p hp
    · exact hrun.1
    · simp
  refine List.splitBy_flatten (fun hnil => hne [] hnil rfl) (fun p hp => ?_) ?_
  · obtain hrun | ⟨c, -, rfl⟩ := h.piece p hp
    · refine List.Pairwise.isChain (List.pairwise_of_forall_mem_list fun a ha b hb => ?_)
      simp [hrun.2 a ha, hrun.2 b hb]
    · simp
  · refine h.longest.imp_of_mem_imp fun p q hp hq hapart => ⟨hne p hp, hne q hq, ?_⟩
    by_contra hboth
    simp only [Bool.not_eq_false, Bool.and_eq_true] at hboth
    exact hapart ⟨h.isRun_of_mem hp (List.getLast_mem _) hboth.1,
      h.isRun_of_mem hq (List.head_mem _) hboth.2⟩

/-! ### Renaming -/

/-- Whether an opening parenthesis follows behind any number of spaces and tabs. -/
def opensCall : List (List Char) → Bool
  | [] => false
  | piece :: rest => piece == ['('] || (piece == [' '] || piece == ['\t']) && opensCall rest

theorem isWord_of_isGap {c : Char} (h : isGap c = true) : isWord c = false := by
  simp only [isGap, Bool.or_eq_true, beq_iff_eq] at h
  obtain rfl | rfl := h <;> decide

/-- No word goes on into gaps and a parenthesis. -/
theorem head?_any_gaps {gaps : List Char} (hgaps : ∀ c ∈ gaps, isGap c = true) (rest : List Char) :
    (gaps ++ '(' :: rest).head?.any isWord = false := by
  cases gaps with
  | nil => rfl
  | cons c gaps => exact isWord_of_isGap (hgaps c List.mem_cons_self)

theorem exists_gaps_of_opensCall {ps : List (List Char)} (h : opensCall ps = true) :
    ∃ (gaps : List Char) (rest : List (List Char)), (∀ c ∈ gaps, isGap c = true) ∧
      ps = (gaps ++ ['(']).map ([·]) ++ rest := by
  induction ps with
  | nil => simp [opensCall] at h
  | cons p ps ih =>
    simp only [opensCall, Bool.or_eq_true, Bool.and_eq_true, beq_iff_eq] at h
    obtain rfl | ⟨hp, hps⟩ := h
    · exact ⟨[], ps, by simp, rfl⟩
    · obtain ⟨gaps, rest, hgaps, rfl⟩ := ih hps
      obtain rfl | rfl := hp
      · exact ⟨' ' :: gaps, rest, List.forall_mem_cons.mpr ⟨rfl, hgaps⟩, rfl⟩
      · exact ⟨'\t' :: gaps, rest, List.forall_mem_cons.mpr ⟨rfl, hgaps⟩, rfl⟩

/-- The pieces of a text open a call if the text does. -/
theorem opensCall_of_flatten {ps : List (List Char)} (h : IsCut ps) {gaps rest : List Char}
    (hgaps : ∀ c ∈ gaps, isGap c = true) (htext : ps.flatten = gaps ++ '(' :: rest) :
    opensCall ps = true := by
  -- A piece that starts with a gap or a parenthesis is this character alone.
  have hfirst : ∀ {ps : List (List Char)} {c text}, IsCut ps → isWord c = false →
      ps.flatten = c :: text → ∃ qs, ps = [c] :: qs ∧ qs.flatten = text := by
    intro ps c text hcut hc htext
    cases ps with
    | nil => simp at htext
    | cons p qs =>
      obtain hp | ⟨d, -, rfl⟩ := hcut.piece p List.mem_cons_self
      · have hhead := hp.head?_any qs.flatten
        rw [← List.flatten_cons, htext] at hhead
        simp [hc] at hhead
      · obtain ⟨rfl, hrest⟩ := List.cons.inj htext
        exact ⟨qs, rfl, hrest⟩
  induction gaps generalizing ps with
  | nil =>
    obtain ⟨qs, rfl, -⟩ := hfirst h (by decide) htext
    simp [opensCall]
  | cons c gaps ih =>
    rw [List.forall_mem_cons] at hgaps
    obtain ⟨qs, rfl, hqs⟩ := hfirst h (isWord_of_isGap hgaps.1) htext
    have hc := hgaps.1
    simp only [isGap, Bool.or_eq_true, beq_iff_eq] at hc
    rw [opensCall, ih h.tail hgaps.2 hqs]
    simpa using .inr hc

/-- The new name of a piece, which is the old one unless the table lists it. -/
def newName (table : List (List Char × List Char)) (piece : List Char) : List Char :=
  (table.lookup piece).getD piece

/-- Renames the pieces that open a call. -/
def renamePieces (table : List (List Char × List Char)) : List (List Char) → List (List Char)
  | [] => []
  | piece :: rest =>
    (if opensCall rest then newName table piece else piece) :: renamePieces table rest

/-- Renames the functions that a text calls. -/
def rename (table : List (List Char × List Char)) (text : List Char) : List Char :=
  (renamePieces table (pieces text)).flatten

/-- The names of a table, old and new, are runs of word characters. -/
def AreNames (table : List (List Char × List Char)) : Prop := ∀ e ∈ table, IsRun e.1 ∧ IsRun e.2

instance (table : List (List Char × List Char)) : Decidable (AreNames table) :=
  List.decidableBAll _ table

variable {table table' : List (List Char × List Char)}

theorem newName_eq_of_mem {piece new : List Char} (h : table.lookup piece = some new) :
    newName table piece = new := by
  rw [newName, h, Option.getD_some]

theorem mem_of_lookup {piece new : List Char} (h : table.lookup piece = some new) :
    (piece, new) ∈ table := by
  obtain ⟨front, back, heq, -⟩ := List.lookup_eq_some_iff.mp h
  simp [heq]

/-- A piece is renamed by a table, or it is left as it is. -/
theorem newName_cases (table : List (List Char × List Char)) (piece : List Char) :
    (piece, newName table piece) ∈ table ∨ table.lookup piece = none ∧
    newName table piece = piece := by
  cases hnew : table.lookup piece with
  | none => exact .inr ⟨rfl, by rw [newName, hnew, Option.getD_none]⟩
  | some new =>
    rw [newName_eq_of_mem hnew]
    exact .inl (mem_of_lookup hnew)

/-- What stands in place of a piece, renamed or not, is a run of word characters if the piece is
one; else it is the piece. -/
theorem isRun_newName (h : AreNames table) (b : Bool) (piece : List Char) :
    IsRun piece ∧ IsRun (if b then newName table piece else piece) ∨
      ¬ IsRun piece ∧ (if b then newName table piece else piece) = piece := by
  by_cases hrun : IsRun piece
  · refine .inl ⟨hrun, ?_⟩
    split
    · obtain hmem | ⟨-, heq⟩ := newName_cases table piece
      · exact (h _ hmem).2
      · rwa [heq]
    · exact hrun
  · refine .inr ⟨hrun, ?_⟩
    split
    · obtain hmem | ⟨-, heq⟩ := newName_cases table piece
      · exact absurd (h _ hmem).1 hrun
      · exact heq
    · rfl

/-- A piece stays as it is unless the table lists it and it opens a call. -/
theorem renamePieces_cons_of_miss {p : List Char} {ps : List (List Char)}
    (h : opensCall ps = true → table.lookup p = none) :
    renamePieces table (p :: ps) = p :: renamePieces table ps := by
  rw [renamePieces]
  split
  · rename_i hopens
    rw [newName, h hopens, Option.getD_none]
  · rfl

/-- Characters outside of words are left as they are. -/
theorem renamePieces_append (htable : ∀ e ∈ table, IsRun e.1) {others : List Char}
    (hothers : ∀ c ∈ others, isWord c = false) (ps : List (List Char)) :
    renamePieces table (others.map ([·]) ++ ps) = others.map ([·]) ++ renamePieces table ps := by
  induction others with
  | nil => rfl
  | cons c others ih =>
    rw [List.forall_mem_cons] at hothers
    have hsame : newName table [c] = [c] := by
      obtain hmem | ⟨-, heq⟩ := newName_cases table [c]
      · exact absurd (htable _ hmem) (not_isRun_singleton hothers.1)
      · exact heq
    simp only [List.map_cons, List.cons_append, renamePieces, hsame, ite_self, ih hothers.2]

/-- **Cuts are kept.**  The pieces of a text are still its pieces when they are renamed. -/
theorem IsCut.renamePieces {ps : List (List Char)} (h : IsCut ps) (htable : AreNames table) :
    IsCut (renamePieces table ps) := by
  induction ps with
  | nil => exact h
  | cons p ps ih =>
    have hrest := ih h.tail
    constructor
    · rw [Text.renamePieces, List.forall_mem_cons]
      refine ⟨?_, hrest.piece⟩
      obtain ⟨-, hrun⟩ | ⟨hrun, heq⟩ := isRun_newName htable (opensCall ps) p
      · exact .inl hrun
      · rw [heq]
        exact h.piece p List.mem_cons_self
    · rw [Text.renamePieces, List.isChain_cons]
      refine ⟨fun q hq hboth => ?_, hrest.longest⟩
      -- Were there two runs side by side, the pieces would have been runs before.
      cases ps with
      | nil => simp [Text.renamePieces] at hq
      | cons r ps =>
        rw [Text.renamePieces, List.head?_cons, Option.mem_some_iff] at hq
        subst hq
        obtain ⟨hp, -⟩ | ⟨hp, heq⟩ := isRun_newName htable (opensCall (r :: ps)) p
        · obtain ⟨hr, -⟩ | ⟨hr, heq'⟩ := isRun_newName htable (opensCall ps) r
          · exact (List.isChain_cons_cons.mp h.longest).1 ⟨hp, hr⟩
          · rw [heq'] at hboth
            exact hr hboth.2
        · rw [heq] at hboth
          exact hp hboth.1

/-- **Calls are kept.**  What opens a call still opens one when it is renamed. -/
theorem opensCall_renamePieces (htable : AreNames table) (ps : List (List Char)) :
    opensCall (renamePieces table ps) = opensCall ps := by
  induction ps with
  | nil => rfl
  | cons p ps ih =>
    simp only [renamePieces, opensCall, ih]
    obtain ⟨hrun, hrun'⟩ | ⟨-, heq⟩ := isRun_newName htable (opensCall ps) p
    · have hne : ∀ {q : List Char} {c : Char}, IsRun q → isWord c = false → (q == [c]) = false :=
        fun hq hc => beq_false_of_ne fun heq => not_isRun_singleton hc (heq ▸ hq)
      have hsigns : isWord '(' = false ∧ isWord ' ' = false ∧ isWord '\t' = false := by decide
      simp only [hne hrun hsigns.1, hne hrun hsigns.2.1, hne hrun hsigns.2.2, hne hrun' hsigns.1,
        hne hrun' hsigns.2.1, hne hrun' hsigns.2.2]
    · rw [heq]

theorem pieces_rename (htable : AreNames table) (text : List Char) :
    pieces (rename table text) = renamePieces table (pieces text) :=
  ((isCut_pieces text).renamePieces htable).pieces_flatten

theorem renamePieces_renamePieces (htable : AreNames table)
    (hapart : ∀ e ∈ table, ∀ e' ∈ table', e'.1 ≠ e.2) (ps : List (List Char)) :
    renamePieces table' (renamePieces table ps) = renamePieces (table ++ table') ps := by
  induction ps with
  | nil => rfl
  | cons p ps ih =>
    rw [renamePieces, renamePieces, renamePieces, ih, opensCall_renamePieces htable]
    congr 1
    by_cases hopens : opensCall ps = true
    · simp only [hopens, ↓reduceIte]
      rw [newName, newName, newName, List.lookup_append]
      cases hnew : table.lookup p with
      | none => simp
      | some new =>
        have hnone : table'.lookup new = none :=
          List.lookup_eq_none_iff.mpr
            fun e' he' => by simpa using (hapart _ (mem_of_lookup hnew) e' he').symm
        simp [hnone]
    · simp [hopens]

/-- **One table after another.**  To rename by one table and then by another is to rename once by
both, if the second table does not list what the first one writes. -/
theorem rename_rename (htable : AreNames table) (hapart : ∀ e ∈ table, ∀ e' ∈ table', e'.1 ≠ e.2)
    (text : List Char) : rename table' (rename table text) = rename (table ++ table') text := by
  rw [rename, pieces_rename htable, renamePieces_renamePieces htable hapart, rename]

@[simp]
theorem rename_nil (text : List Char) : rename [] text = text := by
  have hnil : ∀ ps, renamePieces [] ps = ps := by
    intro ps
    induction ps with
    | nil => rfl
    | cons p ps ih => rw [renamePieces_cons_of_miss fun _ => rfl, ih]
  rw [rename, hnil, flatten_pieces]

/-- Tables with the same entries rename alike, if no name has two new ones. -/
theorem rename_congr (hsame : ∀ e, e ∈ table ↔ e ∈ table')
    (hone : ∀ e ∈ table, ∀ e' ∈ table, e.1 = e'.1 → e.2 = e'.2) (text : List Char) :
    rename table text = rename table' text := by
  have hisSome : ∀ {table : List (List Char × List Char)} {e}, e ∈ table →
      table.lookup e.1 ≠ none := by
    intro table e he hnone
    simpa using List.lookup_eq_none_iff.mp hnone e he
  have hlookup : ∀ piece, table.lookup piece = table'.lookup piece := by
    intro piece
    cases hnew : table.lookup piece with
    | none =>
      cases hnew' : table'.lookup piece with
      | none => rfl
      | some new => exact absurd hnew (hisSome ((hsame _).mpr (mem_of_lookup hnew')))
    | some new =>
      cases hnew' : table'.lookup piece with
      | none => exact absurd hnew' (hisSome ((hsame _).mp (mem_of_lookup hnew)))
      | some new' =>
        exact congrArg some
          (hone _ (mem_of_lookup hnew) _ ((hsame _).mpr (mem_of_lookup hnew')) rfl)
  have hpieces : ∀ ps, renamePieces table ps = renamePieces table' ps := by
    intro ps
    induction ps with
    | nil => rfl
    | cons p ps ih => rw [renamePieces, renamePieces, ih, newName, newName, hlookup]
  rw [rename, rename, hpieces]

/-- A renamed text is no longer than twice the text, if no new name is longer than twice the old
one. -/
theorem length_rename_le (hlength : ∀ e ∈ table, e.2.length ≤ 2 * e.1.length) (text : List Char) :
    (rename table text).length ≤ 2 * text.length := by
  have hpieces : ∀ ps, (renamePieces table ps).flatten.length ≤ 2 * ps.flatten.length := by
    intro ps
    induction ps with
    | nil => exact le_rfl
    | cons p ps ih =>
      have hname : (if opensCall ps then newName table p else p).length ≤ 2 * p.length := by
        split
        · obtain hmem | ⟨-, heq⟩ := newName_cases table p
          · exact hlength _ hmem
          · rw [heq]
            omega
        · omega
      rw [renamePieces, List.flatten_cons, List.flatten_cons, List.length_append,
        List.length_append]
      omega
  simpa [rename] using hpieces (pieces text)

/-- Nothing that a table lists opens a call behind the renaming, if the table does not list what it
writes. -/
theorem not_listed_of_renamePieces (htable : AreNames table)
    (hapart : ∀ e ∈ table, ∀ e' ∈ table, e'.1 ≠ e.2) {ps front back : List (List Char)}
    {piece : List Char} (h : renamePieces table ps = front ++ piece :: back)
    (hopens : opensCall back = true) : ∀ e ∈ table, e.1 ≠ piece := by
  induction front generalizing ps with
  | nil =>
    cases ps with
    | nil => simp [renamePieces] at h
    | cons p ps =>
      rw [renamePieces, List.nil_append, List.cons.injEq] at h
      obtain ⟨rfl, rfl⟩ := h
      rw [opensCall_renamePieces htable] at hopens
      rw [if_pos hopens]
      obtain hmem | ⟨hnone, heq⟩ := newName_cases table p
      · exact hapart _ hmem
      · rw [heq]
        exact fun e he hp => by simpa [hp] using List.lookup_eq_none_iff.mp hnone e he
  | cons q front ih =>
    cases ps with
    | nil => simp [renamePieces] at h
    | cons p ps =>
      rw [renamePieces, List.cons_append, List.cons.injEq] at h
      exact ih h.2

end CApiUpgrade.Text
