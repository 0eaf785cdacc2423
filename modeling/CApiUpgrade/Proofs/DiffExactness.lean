import CApiUpgrade.Proofs.DiffReading

/-!
# When a diff is exact

The lines of a printed hunk are right: its old lines are those of the old text where it stands, and
its new lines those of the new text (`Run.oldLines`, `Run.newLines`).  Its ranges are right exactly
if it is settled: a first block of changes is recorded at the very start of both texts and a last
one at their very end (`Covers.isCounted_iff`).  For a block of kept lines there is nothing to ask.

So the diff of two texts is exact, forwards and backwards, exactly if all its hunks are settled
(`unified_isExact_iff`); that they are is not ensured, since a deletion that has been moved past an
insertion, or an insertion that has been moved past a deletion, still stands where it stood in the
other text (`unified_not_exact`).  A diff of texts that may lack their last newline is a standard
diff exactly if, besides, all lines that it shows have their ends (`unified_isStandard_iff`).
-/

namespace CApiUpgrade.Diff

open Text

/-! ### Applying hunks -/

/-- Hunks that lead from some lines to others without regard to their places. -/
inductive Bridges : List Hunk → List Line → List Line → Prop
  | nil (ls : List Line) : Bridges [] ls ls
  | cons (gap : List Line) (h : Hunk) {hs : List Hunk} {xs ys : List Line} : Bridges hs xs ys →
    Bridges (h :: hs) (gap ++ h.oldLines ++ xs) (gap ++ h.newLines ++ ys)

/-- Hunks that lead from the lines behind `o` old ones to the lines behind `n` new ones, in their
places. -/
inductive Patches : (o n : Nat) → List Hunk → List Line → List Line → Prop
  | nil (o n : Nat) (ls : List Line) : Patches o n [] ls ls
  | cons {o n : Nat} (gap : List Line) {h : Hunk} {hs : List Hunk} {xs ys : List Line} :
    h.oldStart = o + gap.length → h.newStart = n + gap.length → h.IsCounted →
    Patches (h.oldStart + h.oldLength) (h.newStart + h.newLength) hs xs ys →
    Patches o n (h :: hs) (gap ++ h.oldLines ++ xs) (gap ++ h.newLines ++ ys)

section
variable {o n : Nat} {hs : List Hunk} {xs ys : List Line}

theorem Patches.applyFrom (h : Patches o n hs xs ys) : applyFrom o hs xs = some ys := by
  induction h with
  | nil => rfl
  | @cons o n gap h hs xs ys hold hnew hcounted _ ih =>
    have hgap : h.oldStart - o = gap.length := by omega
    have hrest : (gap ++ h.oldLines ++ xs).drop (gap.length + h.oldLines.length) = xs := by
      rw [← List.length_append, List.drop_left]
    rw [Diff.applyFrom, hgap, if_pos ⟨by omega, by simp, by simp⟩, hrest, hcounted.1, ih,
      List.append_assoc, List.take_left]
    rfl

theorem Hunk.oldLines_reversed (h : Hunk) : h.reversed.oldLines = h.newLines := by
  have hkind : ∀ r : Row, decide (r.kind.reversed ≠ .insert) = decide (r.kind ≠ .delete) := by
    rintro ⟨_ | _ | _, line⟩ <;> rfl
  simp only [oldLines, newLines, reversed, List.filter_map, List.map_map, Function.comp_def, hkind]

theorem Hunk.newLines_reversed (h : Hunk) : h.reversed.newLines = h.oldLines := by
  have hkind : ∀ r : Row, decide (r.kind.reversed ≠ .delete) = decide (r.kind ≠ .insert) := by
    rintro ⟨_ | _ | _, line⟩ <;> rfl
  simp only [oldLines, newLines, reversed, List.filter_map, List.map_map, Function.comp_def, hkind]

theorem Patches.reversed (h : Patches o n hs xs ys) : Patches n o (hs.map Hunk.reversed) ys xs := by
  induction h with
  | nil o n ls => exact .nil n o ls
  | @cons o n gap h hs xs ys hold hnew hcounted _ ih =>
    rw [List.map_cons, ← h.oldLines_reversed, ← h.newLines_reversed]
    refine .cons gap hnew hold ⟨?_, ?_⟩ ih
    · rw [h.oldLines_reversed]
      exact hcounted.2
    · rw [h.newLines_reversed]
      exact hcounted.1

theorem Patches.isCounted (h : Patches o n hs xs ys) : ∀ h ∈ hs, h.IsCounted := by
  induction h with
  | nil => simp
  | cons _ _ _ hcounted _ ih => exact List.forall_mem_cons.mpr ⟨hcounted, ih⟩

theorem Patches.starts_le (h : Patches o n hs xs ys) :
    ∀ h ∈ hs, o ≤ h.oldStart ∧ n ≤ h.newStart := by
  induction h with
  | nil => simp
  | cons _ hold hnew _ _ ih =>
    refine List.forall_mem_cons.mpr ⟨by omega, fun h hh => ?_⟩
    have hle := ih h hh
    omega

theorem Patches.inOrder (h : Patches o n hs xs ys) : InOrder hs := by
  induction h with
  | nil => exact .nil
  | cons _ _ _ _ hrest ih => exact .cons hrest.starts_le ih

end

/-! ### Exact diffs -/

/-- A diff is exact if it can be read, its ranges are as long as its lines say, its hunks stand in
order, and they lead from the old text to the new one and back. -/
def IsExact (path : String) (old new diff : List Char) : Prop :=
  ∃ hs ∈ readDiff? path diff, (∀ h ∈ hs, h.IsCounted) ∧ InOrder hs ∧ applyTo? hs old = some new ∧
    applyTo? (hs.map Hunk.reversed) new = some old

instance (path : String) (old new diff : List Char) : Decidable (IsExact path old new diff) :=
  inferInstanceAs (Decidable (∃ hs ∈ readDiff? path diff, _))

/-- A diff is a standard one if it can be read, its ranges are as long as its lines say, and it
leads from the old text to the new one. -/
def IsStandard (path : String) (old new diff : List Char) : Prop :=
  ∃ hs ∈ readDiff? path diff, (∀ h ∈ hs, h.IsCounted) ∧ applyTo? hs old = some new

instance (path : String) (old new diff : List Char) : Decidable (IsStandard path old new diff) :=
  inferInstanceAs (Decidable (∃ hs ∈ readDiff? path diff, _))

/-- A first block of changes is recorded where both texts start, and a last one where they end. -/
def IsSettled (old new : Array Line) (hunk : List Block) : Prop :=
  (∀ b ∈ hunk.head?, b.kept = true ∨ b.oldStart = 0 ∧ b.newStart = 0) ∧
    ∀ b ∈ hunk.getLast?, b.kept = true ∨ b.oldEnd = old.size ∧ b.newEnd = new.size

instance (old new : Array Line) (hunk : List Block) : Decidable (IsSettled old new hunk) :=
  inferInstanceAs (Decidable (_ ∧ _))

/-! ### The lines of a hunk -/

section
variable {old new : Array Line} {o n o' n' : Nat} {b : Block} {bs : List Block}

theorem Agree.take_drop {i j count : Nat} (h : Agree old new i j count) :
    (old.toList.drop i).take count = (new.toList.drop j).take count := by
  refine List.ext_getElem? fun k => ?_
  rw [List.getElem?_take, List.getElem?_take]
  split_ifs with hk
  · obtain ⟨line, hold, hnew⟩ := h k hk
    rw [List.getElem?_drop, List.getElem?_drop, Array.getElem?_toList,
      Array.getElem?_toList, hold, hnew]
  · rfl

/-- The lines that a block has in a list. -/
theorem linesFrom_place {ls : Array Line} {start place length : Nat}
    (h : 0 < length → start = place) :
    linesFrom ls start length = (ls.toList.drop place).take length := by
  rw [linesFrom_eq]
  rcases Nat.eq_zero_or_pos length with hzero | hpos
  · rw [hzero, List.take_zero, List.take_zero]
  · rw [h hpos]

/-- The old lines of a block. -/
theorem Block.Fits.oldLines (h : b.Fits old new o n) :
    ((b.rows old new).filter (·.kind ≠ .insert)).map Row.line =
    (old.toList.drop o).take b.oldLength := by
  rw [← linesFrom_place h.oldStart_eq, Block.rows]
  split_ifs <;> simp [List.filter_map, Function.comp_def]

/-- The new lines of a block. -/
theorem Block.Fits.newLines (h : b.Fits old new o n) :
    ((b.rows old new).filter (·.kind ≠ .delete)).map Row.line =
    (new.toList.drop n).take b.newLength := by
  rw [Block.rows]
  split_ifs with hkept
  · obtain ⟨hlength, hsame⟩ := h.same hkept
    rw [hlength, ← hsame.take_drop, ← linesFrom_place h.oldStart_eq]
    simp [List.filter_map, Function.comp_def]
  · rw [← linesFrom_place h.newStart_eq]
    simp [List.filter_map, Function.comp_def]

theorem take_drop_join {α : Type} (xs : List α) {i j k : Nat} (h : i + j ≤ k) :
    (xs.drop i).take j ++ (xs.drop (i + j)).take (k - (i + j)) = (xs.drop i).take (k - i) := by
  rw [show k - i = j + (k - (i + j)) by omega, List.take_add, List.drop_drop]

/-- **Old lines.** A hunk shows the old lines in their order. -/
theorem Run.oldLines (h : Run old new o n o' n' bs) :
    ((bs.flatMap (Block.rows old new)).filter (·.kind ≠ .insert)).map Row.line =
    (old.toList.drop o).take (o' - o) := by
  induction h with
  | nil => simp
  | @cons o n o' n' b bs hb hrest ih =>
    rw [List.flatMap_cons, List.filter_append, List.map_append, hb.oldLines, ih,
      take_drop_join _ hrest.le.1]

/-- **New lines.** A hunk shows the new lines in their order. -/
theorem Run.newLines (h : Run old new o n o' n' bs) :
    ((bs.flatMap (Block.rows old new)).filter (·.kind ≠ .delete)).map Row.line =
    (new.toList.drop n).take (n' - n) := by
  induction h with
  | nil => simp
  | @cons o n o' n' b bs hb hrest ih =>
    rw [List.flatMap_cons, List.filter_append, List.map_append, hb.newLines, ih,
      take_drop_join _ hrest.le.2]

/-! ### The ranges of a hunk -/

/-- A range of one of the texts is as long as the place of its first and the end of its last block
say, exactly if both are right. -/
theorem range_length_iff {first last : Bool} {start stop lo hi size : Nat}
    (hfirst : first = true ∧ start = lo ∧ lo < hi ∨ first = false ∧ lo = 0 ∧ start ≤ size)
    (hlast : last = true ∧ stop = hi ∧ lo < hi ∨ last = false ∧ hi = size ∧ stop ≤ size) :
    hi - lo = stop - start ↔ (first = true ∨ start = 0) ∧ (last = true ∨ stop = size) := by
  rcases hfirst with ⟨rfl, hstart⟩ | ⟨rfl, hstart⟩ <;> rcases hlast with ⟨rfl,
    hstop⟩ | ⟨rfl, hstop⟩ <;>
    simp only [eq_self, true_or, true_and, reduceCtorEq, false_or, and_true, iff_true] <;> omega

theorem Covers.first_place (h : Covers old new o n o' n' bs) (hfirst : bs.head? = some b) :
    (b.kept = true ∧ b.oldStart = o ∧ o < o' ∨ b.kept = false ∧ o = 0 ∧ b.oldStart ≤ old.size) ∧
      (b.kept = true ∧ b.newStart = n ∧ n < n' ∨ b.kept = false ∧ n = 0 ∧
        b.newStart ≤ new.size) := by
  obtain ⟨rest, rfl⟩ : ∃ rest, bs = b :: rest := by
    cases bs with
    | nil => simp at hfirst
    | cons c rest => exact ⟨rest, by simpa using hfirst⟩
  obtain ⟨hb, hrest⟩ := h.run.of_cons
  have hle := hrest.le
  cases hkept : b.kept with
  | true =>
    obtain ⟨hpos, hold, hnew⟩ := hb.starts hkept
    have hlength := (hb.same hkept).1
    exact ⟨.inl ⟨rfl, hold, by omega⟩, .inl ⟨rfl, hnew, by omega⟩⟩
  | false =>
    obtain ⟨hold, hnew⟩ : o = 0 ∧ n = 0 := h.first.resolve_left (by simp [hkept])
    exact ⟨.inr ⟨rfl, hold, hb.oldStart_le⟩, .inr ⟨rfl, hnew, hb.newStart_le⟩⟩

theorem Covers.last_place (h : Covers old new o n o' n' bs) (hlast : bs.getLast? = some b) :
    (b.kept = true ∧ b.oldEnd = o' ∧ o < o' ∨ b.kept = false ∧ o' = old.size ∧
      b.oldEnd ≤ old.size) ∧
      (b.kept = true ∧ b.newEnd = n' ∧ n < n' ∨ b.kept = false ∧ n' = new.size ∧
        b.newEnd ≤ new.size) := by
  obtain ⟨front, rfl⟩ : ∃ front, bs = front ++ [b] := List.getLast?_eq_some_iff.mp hlast
  -- The last block starts where the ones in front of it end.
  obtain ⟨o₁, n₁, hfront, hsingle⟩ := run_append.mp h.run
  obtain ⟨hb, hnone⟩ := hsingle.of_cons
  have hle := hfront.le
  have hlastPlace := h.last
  cases hnone
  simp only [Block.oldEnd, Block.newEnd]
  cases hkept : b.kept with
  | true =>
    obtain ⟨hpos, hold, hnew⟩ := hb.starts hkept
    have hlength := (hb.same hkept).1
    exact ⟨.inl ⟨rfl, by omega, by omega⟩, .inl ⟨rfl, by omega, by omega⟩⟩
  | false =>
    obtain ⟨hold, hnew⟩ := hlastPlace.resolve_left (by simp [hkept])
    have hoLe := hb.oldStart_le
    have hnLe := hb.newStart_le
    have hoEq := hb.oldStart_eq
    have hnEq := hb.newStart_eq
    exact ⟨.inr ⟨rfl, hold, by omega⟩, .inr ⟨rfl, hnew, by omega⟩⟩

theorem Shows.le {hs : List (List Block)} (h : Shows old new o n hs) :
    o ≤ old.size ∧ n ≤ new.size := by
  induction h with
  | nil => omega
  | cons _ _ hhunk _ ih =>
    have hle := hhunk.run.le
    omega

theorem Covers.length_lines (h : Covers old new o n o' n' bs)
    (hle : o' ≤ old.size ∧ n' ≤ new.size) :
    (shown old new bs).oldLines.length = o' - o ∧ (shown old new bs).newLines.length = n' - n := by
  rw [Hunk.oldLines, Hunk.newLines, rows_shown, h.run.oldLines, h.run.newLines]
  simp only [List.length_take, List.length_drop, Array.length_toList]
  omega

/-- **Ranges.** The ranges of a hunk are as long as its lines say, exactly if it is settled. -/
theorem Covers.isCounted_iff (h : Covers old new o n o' n' bs) (hne : bs ≠ [])
    (hle : o' ≤ old.size ∧ n' ≤ new.size) :
    (shown old new bs).IsCounted ↔ IsSettled old new bs := by
  obtain ⟨first, last, hfirst, hlast⟩ := exists_head?_getLast? hne
  obtain ⟨holdFirst, hnewFirst⟩ := h.first_place hfirst
  obtain ⟨holdLast, hnewLast⟩ := h.last_place hlast
  obtain ⟨hold, hnew⟩ := h.length_lines hle
  have holdLength : (shown old new bs).oldLength = last.oldEnd - first.oldStart := by
    simp [shown, hfirst, hlast]
  have hnewLength : (shown old new bs).newLength = last.newEnd - first.newStart := by
    simp [shown, hfirst, hlast]
  rw [Hunk.IsCounted, hold, hnew, holdLength, hnewLength, range_length_iff holdFirst holdLast,
    range_length_iff hnewFirst hnewLast, and_and_and_comm, ← or_and_left, ← or_and_left]
  simp [IsSettled, hfirst, hlast]

/-- The ranges of a settled hunk start where it stands. -/
theorem Covers.starts_of_isSettled (h : Covers old new o n o' n' bs) (hne : bs ≠ [])
    (hsettled : IsSettled old new bs) :
    (shown old new bs).oldStart = o ∧ (shown old new bs).newStart = n := by
  obtain ⟨first, last, hfirst, hlast⟩ := exists_head?_getLast? hne
  obtain ⟨hold, hnew⟩ := h.first_place hfirst
  have hstart := hsettled.1 first hfirst
  simp only [shown, hfirst, hlast]
  cases hkept : first.kept with
  | true => simp_all
  | false => simp_all

/-! ### From hunks to texts -/

theorem Agree.drop_eq {i j count : Nat} (h : Agree old new i j count) (hold : i + count = old.size)
    (hnew : j + count = new.size) : old.toList.drop i = new.toList.drop j := by
  have htake := h.take_drop
  rwa [List.take_of_length_le (by simp; omega), List.take_of_length_le (by simp; omega)] at htake

theorem Covers.drop_eq {count : Nat} (hgap : Agree old new o n count)
    (h : Covers old new (o + count) (n + count) o' n' bs) :
    old.toList.drop o = (old.toList.drop o).take count ++ (shown old new bs).oldLines ++
    old.toList.drop o' ∧
      new.toList.drop n = (old.toList.drop o).take count ++ (shown old new bs).newLines ++
      new.toList.drop n' := by
  have hle := h.run.le
  have hsplit : ∀ (ls : List Line) {i j}, i ≤ j →
      ls.drop i = (ls.drop i).take (j - i) ++ ls.drop j := by
    intro ls i j hij
    rw [show ls.drop j = (ls.drop i).drop (j - i) by rw [List.drop_drop, Nat.add_sub_cancel' hij],
      List.take_append_drop]
  rw [Hunk.oldLines, Hunk.newLines, rows_shown, h.run.oldLines, h.run.newLines, List.append_assoc,
    List.append_assoc, ← hsplit _ hle.1, ← hsplit _ hle.2]
  refine ⟨?_, ?_⟩
  · rw [← List.drop_drop, List.take_append_drop]
  · rw [hgap.take_drop, ← List.drop_drop, List.take_append_drop]

/-- **Content.** The hunks lead from the old lines to the new ones, wherever their ranges say that
they stand. -/
theorem Shows.bridges {hs : List (List Block)} (h : Shows old new o n hs) :
    Bridges (hs.map (shown old new)) (old.toList.drop o) (new.toList.drop n) := by
  induction h with
  | nil hsame hold hnew =>
    rw [hsame.drop_eq hold hnew]
    exact .nil _
  | cons hgap _ hhunk _ ih =>
    obtain ⟨hold, hnew⟩ := hhunk.drop_eq hgap
    rw [hold, hnew]
    exact .cons _ _ ih

/-- **Places.** Settled hunks lead there in their places. -/
theorem Shows.patches {hs : List (List Block)} (h : Shows old new o n hs)
    (hsettled : ∀ hunk ∈ hs, IsSettled old new hunk) :
    Patches o n (hs.map (shown old new)) (old.toList.drop o) (new.toList.drop n) := by
  induction h with
  | nil hsame hold hnew =>
    rw [hsame.drop_eq hold hnew]
    exact .nil _ _ _
  | @cons o n count o' n' hunk hs hgap hne hhunk hrest ih =>
    rw [List.forall_mem_cons] at hsettled
    -- The hunk says where it stands and how long it is, both rightly if it is settled; the part in
    -- front of it is kept.
    have hcounted := (hhunk.isCounted_iff hne hrest.le).mpr hsettled.1
    obtain ⟨holdStart, hnewStart⟩ := hhunk.starts_of_isSettled hne hsettled.1
    obtain ⟨holdLength, hnewLength⟩ := hhunk.length_lines hrest.le
    obtain ⟨hold, hnew⟩ := hhunk.drop_eq hgap
    have hbounds := hrest.le
    have hrun := hhunk.run.le
    have hlength : ((old.toList.drop o).take count).length = count := by
      rw [List.length_take, List.length_drop, Array.length_toList]
      omega
    rw [hold, hnew]
    refine .cons _ ?_ ?_ hcounted ?_
    · rw [holdStart, hlength]
    · rw [hnewStart, hlength]
    · rw [← hcounted.1, ← hcounted.2, holdStart, hnewStart, holdLength, hnewLength,
        Nat.add_sub_cancel' hrun.1, Nat.add_sub_cancel' hrun.2]
      exact ih hsettled.2

theorem Shows.isCounted_iff {hs : List (List Block)} (h : Shows old new o n hs) :
    (∀ h ∈ hs.map (shown old new), h.IsCounted) ↔ ∀ hunk ∈ hs, IsSettled old new hunk := by
  rw [List.forall_mem_map]
  induction h with
  | nil => simp
  | cons _ hne hhunk hrest ih =>
    rw [List.forall_mem_cons, List.forall_mem_cons, hhunk.isCounted_iff hne hrest.le, ih]

end

section
variable {old new : List Char}

/-- The lines of the two texts, with which a diff starts. -/
theorem patches_shownHunks (h : ∀ hunk ∈ hunks (blocks (lines old).toArray (lines new).toArray),
    IsSettled (lines old).toArray (lines new).toArray hunk) :
    Patches 0 0 (shownHunks (lines old).toArray (lines new).toArray) (lines old) (lines new) :=
  (shows_hunks (lines old).toArray (lines new).toArray).patches h

theorem Patches.applyTo {hs : List Hunk} (h : Patches 0 0 hs (lines old) (lines new)) :
    applyTo? hs old = some new := by
  rw [applyTo?, h.applyFrom, Option.map_some, flatten_lines]

/-- **Exactness.** The hunks of a diff of two texts whose lines end in newlines have the right
lines, and the diff is exact if and only if all its hunks are settled. -/
theorem unified_isExact_iff (path : String) (hold : '\r' ∉ old) (hnew : '\r' ∉ new)
    (holdEnd : old = [] ∨ old.getLast? = some '\n')
    (hnewEnd : new = [] ∨ new.getLast? = some '\n') :
    (∃ hs ∈ readDiff? path (unified path old new), Bridges hs (lines old) (lines new)) ∧
      (IsExact path old new (unified path old new) ↔
        ∀ hunk ∈ hunks (blocks (lines old).toArray (lines new).toArray),
          IsSettled (lines old).toArray (lines new).toArray hunk) := by
  have hshows := shows_hunks (lines old).toArray (lines new).toArray
  have hended : ∀ h ∈ shownHunks (lines old).toArray (lines new).toArray, ∀ r ∈ h.rows,
      hasLineEnd r.line = true := by
    intro h hh r hr
    exact (mem_of_mem_shownHunks hh hr).elim (hasLineEnd_of_mem_lines holdEnd _)
      (hasLineEnd_of_mem_lines hnewEnd _)
  -- Every line has its end, so the text of the diff can be read back.
  have hread := readDiff?_unified hold hnew path
  rw [if_pos hended] at hread
  refine ⟨⟨_, hread, hshows.bridges⟩, ?_⟩
  constructor
  · rintro ⟨hs, hhs, hcounted, -⟩
    obtain rfl : shownHunks _ _ = hs := Option.some.inj (hread.symm.trans hhs)
    exact hshows.isCounted_iff.mp hcounted
  · intro hsettled
    have hpatches := patches_shownHunks hsettled
    exact ⟨_, hread, hpatches.isCounted, hpatches.inOrder, hpatches.applyTo,
      hpatches.reversed.applyTo⟩

theorem unified_isExact_iff_replaced : '\r' ∉ "a\nb\nc\n".toList ∧ '\r' ∉ "a\nx\nc\n".toList ∧
    "a\nb\nc\n".toList.getLast? = some '\n' ∧ "a\nx\nc\n".toList.getLast? = some '\n' ∧
      IsExact "mod.c" "a\nb\nc\n".toList "a\nx\nc\n".toList
        (unified "mod.c" "a\nb\nc\n".toList "a\nx\nc\n".toList) := by
  refine ⟨by decide, by decide, by decide, by decide, ?_⟩
  exact (unified_isExact_iff "mod.c" (by decide) (by decide) (.inr (by decide))
    (.inr (by decide))).2.mpr (by decide +kernel)

/-- The deletion of the first line is printed as if it stood behind a line of the new text. -/
theorem unified_not_exact : ¬ IsExact "mod.c" "b\na\n".toList "a\na\n".toList
    (unified "mod.c" "b\na\n".toList "a\na\n".toList) := by
  decide +kernel

/-- **Standard diffs.** The diff of two texts is a standard one if and only if all lines that it
shows have their ends and all its hunks are settled. -/
theorem unified_isStandard_iff (path : String) (hold : '\r' ∉ old) (hnew : '\r' ∉ new) :
    IsStandard path old new (unified path old new) ↔
      (∀ h ∈ shownHunks (lines old).toArray (lines new).toArray, ∀ r ∈ h.rows,
        hasLineEnd r.line = true) ∧ ∀ hunk ∈ hunks (blocks (lines old).toArray (lines new).toArray),
          IsSettled (lines old).toArray (lines new).toArray hunk := by
  have hshows := shows_hunks (lines old).toArray (lines new).toArray
  rw [IsStandard, readDiff?_unified hold hnew path]
  split_ifs with hended
  · constructor
    · rintro ⟨hs, hhs, hcounted, -⟩
      obtain rfl : shownHunks _ _ = hs := Option.some.inj hhs
      exact ⟨hended, hshows.isCounted_iff.mp hcounted⟩
    · rintro ⟨-, hsettled⟩
      have hpatches := patches_shownHunks hsettled
      exact ⟨_, rfl, hpatches.isCounted, hpatches.applyTo⟩
  · simp [hended]

theorem unified_isStandard_iff_far : '\r' ∉ "a\nb\nc\nd\ne".toList ∧ '\r' ∉ "x\nb\nc\nd\ne".toList ∧
    IsStandard "mod.c" "a\nb\nc\nd\ne".toList "x\nb\nc\nd\ne".toList
      (unified "mod.c" "a\nb\nc\nd\ne".toList "x\nb\nc\nd\ne".toList) := by
  refine ⟨by decide, by decide, ?_⟩
  exact (unified_isStandard_iff "mod.c" (by decide) (by decide)).mpr (by decide +kernel)

/-- A line without its end is followed by an empty line, which is no line of a diff. -/
theorem unified_not_standard :
    ¬ IsStandard "mod.c" "a".toList "b".toList (unified "mod.c" "a".toList "b".toList) := by
  decide +kernel

end

end CApiUpgrade.Diff
