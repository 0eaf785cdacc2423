import CApiUpgrade.Diff.Unified
import CApiUpgrade.Proofs.EditScripts

/-!
# Where the blocks and the hunks of a diff stand

The edits of a script are gathered into blocks, kept runs are shortened and the blocks are cut into
hunks.  All along, the blocks lead from the start to the end of both lists (`run_blocks`), and the
hunks show all of them but lines that are common to both lists (`shows_hunks`).

A block records its place as the edits do: the place in a list is right if the block has lines of
that list, and else it is only known not to lie behind the end.
-/

namespace CApiUpgrade.Diff

/-! ### Blocks -/

/-- A block stands behind `o` old and `n` new lines. -/
structure Block.Fits (old new : Array Line) (o n : Nat) (b : Block) : Prop where
  /-- It has lines. -/
  length_pos : 0 < b.oldLength + b.newLength
  /-- Kept lines are common to both lists. -/
  same : b.kept = true → b.newLength = b.oldLength ∧ Agree old new o n b.oldLength
  /-- The place of its old lines is right. -/
  oldStart_eq : 0 < b.oldLength → b.oldStart = o
  /-- The place of its new lines is right. -/
  newStart_eq : 0 < b.newLength → b.newStart = n
  /-- It does not stand behind the end of the old list. -/
  oldStart_le : b.oldStart ≤ old.size
  /-- It does not stand behind the end of the new list. -/
  newStart_le : b.newStart ≤ new.size

/-- Blocks that lead from behind `o` old and `n` new lines to behind `o'` old and `n'` new ones. -/
inductive Run (old new : Array Line) : (o n o' n' : Nat) → List Block → Prop where
  | nil (o n : Nat) : Run old new o n o n []
  | cons {o n o' n' : Nat} {b : Block} {bs : List Block} : b.Fits old new o n →
    Run old new (o + b.oldLength) (n + b.newLength) o' n' bs → Run old new o n o' n' (b :: bs)

section
variable {old new : Array Line} {o n o' n' k : Nat} {b : Block} {bs : List Block}

theorem run_append {xs ys : List Block} : Run old new o n o' n' (xs ++ ys) ↔
    ∃ o₁ n₁, Run old new o n o₁ n₁ xs ∧ Run old new o₁ n₁ o' n' ys := by
  constructor
  · intro h
    induction xs generalizing o n with
    | nil => exact ⟨o, n, .nil o n, h⟩
    | cons b xs ih =>
      cases h with
      | cons hb hrest =>
        obtain ⟨o₁, n₁, hxs, hys⟩ := ih hrest
        exact ⟨o₁, n₁, .cons hb hxs, hys⟩
  · rintro ⟨o₁, n₁, hxs, hys⟩
    induction hxs with
    | nil => exact hys
    | cons hb _ ih => exact .cons hb (ih hys)

theorem Run.of_cons (h : Run old new o n o' n' (b :: bs)) :
    b.Fits old new o n ∧ Run old new (o + b.oldLength) (n + b.newLength) o' n' bs := by
  cases h with
  | cons hb hrest => exact ⟨hb, hrest⟩

theorem run_singleton (h : b.Fits old new o n) :
    Run old new o n (o + b.oldLength) (n + b.newLength) [b] :=
  .cons h (.nil _ _)

theorem Run.le (h : Run old new o n o' n' bs) : o ≤ o' ∧ n ≤ n' := by
  induction h with
  | nil => exact ⟨Nat.le_refl _, Nat.le_refl _⟩
  | cons _ _ ih =>
    exact ⟨Nat.le_trans (Nat.le_add_right _ _) ih.1, Nat.le_trans (Nat.le_add_right _ _) ih.2⟩

/-! ### From edits to blocks -/

theorem Edit.Fits.block {e : Edit} {es : List Edit} (h : e.Fits old new o n k)
    (hes : Below old new (o + e.oldCount) (n + e.newCount) k es) :
    (Block.ofEdit e).Fits old new o n := by
  have hle := hes.le
  obtain ⟨kind, i, j, length⟩ := e
  have hpos := h.length_pos
  cases kind with
  | keep =>
    obtain ⟨-, rfl, rfl, hsame⟩ := Edit.fits_keep.mp h
    simp only [Edit.counts_keep] at hle
    exact ⟨Nat.add_pos_left hpos _, fun _ => ⟨rfl, hsame⟩, fun _ => rfl, fun _ => rfl,
      by dsimp only [Block.ofEdit]; omega, by dsimp only [Block.ofEdit]; omega⟩
  | delete =>
    obtain ⟨-, rfl, hbound⟩ := Edit.fits_delete.mp h
    simp only [Edit.counts_delete] at hle
    exact ⟨Nat.add_pos_left hpos _, by simp [Block.ofEdit], fun _ => rfl, by simp [Block.ofEdit],
      by dsimp only [Block.ofEdit]; omega, by dsimp only [Block.ofEdit]; omega⟩
  | insert =>
    obtain ⟨-, rfl, hbound⟩ := Edit.fits_insert.mp h
    simp only [Edit.counts_insert] at hle
    exact ⟨Nat.add_pos_right _ hpos, by simp [Block.ofEdit], by simp [Block.ofEdit], fun _ => rfl,
      by dsimp only [Block.ofEdit]; omega, by dsimp only [Block.ofEdit]; omega⟩

/-- The places of kept lines are right. -/
theorem Block.Fits.starts (h : b.Fits old new o n) (hkept : b.kept = true) :
    0 < b.oldLength ∧ b.oldStart = o ∧ b.newStart = n := by
  have hsame := (h.same hkept).1
  have hpos := h.length_pos
  have hold : 0 < b.oldLength := by omega
  exact ⟨hold, h.oldStart_eq hold, h.newStart_eq (hsame ▸ hold)⟩

/-- An edit joins the block that it follows. -/
theorem Block.Fits.add {e : Edit} (hb : b.Fits old new o n)
    (he : (Block.ofEdit e).Fits old new (o + b.oldLength) (n + b.newLength))
    (hkind : b.kept = decide (e.kind = .keep)) : (b.add e).Fits old new o n ∧
      (b.add e).oldLength = b.oldLength + e.oldCount ∧
      (b.add e).newLength = b.newLength + e.newCount := by
  obtain ⟨kind, i, j, length⟩ := e
  have hpos := hb.length_pos
  cases kind with
  | keep =>
    obtain ⟨hlength, hsame⟩ := hb.same hkind
    obtain ⟨-, hold, hnew⟩ := hb.starts hkind
    have hmore : Agree old new (o + b.oldLength) (n + b.newLength) length := (he.same rfl).2
    rw [hlength] at hmore
    refine ⟨⟨?_, fun _ => ⟨?_, hsame.append hmore⟩, fun _ => hold, fun _ => hnew, hb.oldStart_le,
      hb.newStart_le⟩, rfl, rfl⟩
    · dsimp only [Block.add]
      omega
    · dsimp only [Block.add]
      rw [hlength]
  | delete =>
    have hlength : 0 < length := by simpa [Block.ofEdit] using he.length_pos
    have hstart : i = o + b.oldLength := he.oldStart_eq hlength
    refine ⟨⟨?_, fun hkept => absurd (hkind ▸ hkept) (by simp), fun _ => ?_, hb.newStart_eq, ?_,
      hb.newStart_le⟩, rfl, rfl⟩
    · dsimp only [Block.add]
      omega
    · dsimp only [Block.add]
      split_ifs with hzero
      · rw [hstart, hzero, Nat.add_zero]
      · exact hb.oldStart_eq (Nat.pos_of_ne_zero hzero)
    · dsimp only [Block.add]
      split_ifs
      · exact he.oldStart_le
      · exact hb.oldStart_le
  | insert =>
    have hlength : 0 < length := by simpa [Block.ofEdit] using he.length_pos
    have hstart : j = n + b.newLength := he.newStart_eq hlength
    refine ⟨⟨?_, fun hkept => absurd (hkind ▸ hkept) (by simp), hb.oldStart_eq, fun _ => ?_,
      hb.oldStart_le, ?_⟩, rfl, rfl⟩
    · dsimp only [Block.add]
      omega
    · dsimp only [Block.add]
      split_ifs with hzero
      · rw [hstart, hzero, Nat.add_zero]
      · exact hb.newStart_eq (Nat.pos_of_ne_zero hzero)
    · dsimp only [Block.add]
      split_ifs
      · exact he.newStart_le
      · exact hb.newStart_le

theorem run_go {es : List Edit} (hb : b.Fits old new o n)
    (hes : Below old new (o + b.oldLength) (n + b.newLength) k es) :
    Run old new o n old.size new.size (Block.ofEdits.go b es) := by
  induction es generalizing b o n k with
  | nil =>
    obtain ⟨hold, hnew⟩ := hes.of_nil
    rw [← hold, ← hnew]
    exact run_singleton hb
  | cons e es ih =>
    obtain ⟨k, rfl, he, hrest⟩ := hes.of_cons
    have hblock := he.block hrest
    rw [Block.ofEdits.go]
    split_ifs with hkind
    · obtain ⟨hadd, hold, hnew⟩ := hb.add hblock (by simpa using hkind)
      refine ih hadd (k := k) ?_
      rwa [hold, hnew, ← Nat.add_assoc, ← Nat.add_assoc]
    · exact .cons hb (ih hblock (k := k) hrest)

/-- **Blocks.** The blocks lead from the start of both lists to the end. -/
theorem run_blocks (old new : Array Line) : Run old new 0 0 old.size new.size (blocks old new) := by
  obtain ⟨k, h⟩ := below_compact old new
  unfold blocks
  generalize compact old new (script old new) = es at h
  cases es with
  | nil =>
    obtain ⟨hold, hnew⟩ := h.of_nil
    rw [← hold, ← hnew]
    exact .nil 0 0
  | cons e es =>
    obtain ⟨k, rfl, he, hrest⟩ := h.of_cons
    exact run_go (he.block hrest) (k := k) hrest

/-! ### From blocks to hunks -/

/-- The last kept lines of a block. -/
theorem Block.Fits.takeEnd (h : b.Fits old new o n) (hkept : b.kept = true) {count : Nat}
    (hcount : 0 < count) :
    (b.takeEnd count).Fits old new (o + (b.oldLength - count)) (n + (b.oldLength - count)) := by
  obtain ⟨hlength, hsame⟩ := h.same hkept
  obtain ⟨hpos, hold, hnew⟩ := h.starts hkept
  have hle := hsame.le hpos
  have hlast : Agree old new (o + (b.oldLength - count)) (n + (b.oldLength - count))
      (min b.oldLength count) := by
    refine Agree.drop ?_
    rwa [show b.oldLength - count + min b.oldLength count = b.oldLength by omega]
  refine ⟨?_, fun _ => ⟨?_, hlast⟩, fun _ => ?_, fun _ => ?_, ?_,
    ?_⟩ <;> dsimp only [Block.takeEnd] <;> omega

/-- The first kept lines of a block. -/
theorem Block.Fits.takeStart (h : b.Fits old new o n) (hkept : b.kept = true) {count : Nat}
    (hcount : 0 < count) : (b.takeStart count).Fits old new o n := by
  obtain ⟨hlength, hsame⟩ := h.same hkept
  obtain ⟨hpos, hold, hnew⟩ := h.starts hkept
  have hfirst : Agree old new o n (min b.oldLength count) := hsame.take (Nat.min_le_left _ _)
  refine ⟨?_, fun _ => ⟨?_, hfirst⟩, fun _ => hold, fun _ => hnew, h.oldStart_le, h.newStart_le⟩ <;>
    dsimp only [Block.takeStart] <;> omega

/-- Blocks that lead from one place to another.  If they do not start with kept lines, they start
where both lists start, and if they do not end with kept lines, they end where both lists end. -/
structure Covers (old new : Array Line) (o n o' n' : Nat) (bs : List Block) : Prop where
  /-- They lead there. -/
  run : Run old new o n o' n' bs
  /-- Where they start. -/
  first : (∀ b ∈ bs.head?, b.kept = true) ∨ o = 0 ∧ n = 0
  /-- Where they end. -/
  last : (∀ b ∈ bs.getLast?, b.kept = true) ∨ o' = old.size ∧ n' = new.size

/-- Hunks that show all from behind `o` old and `n` new lines on, except for lines that are common
to both lists. -/
inductive Shows (old new : Array Line) : (o n : Nat) → List (List Block) → Prop where
  | nil {o n count : Nat} : Agree old new o n count → o + count = old.size → n + count = new.size →
    Shows old new o n []
  | cons {o n count o' n' : Nat} {hunk : List Block} {hunks : List (List Block)} :
    Agree old new o n count →
    hunk ≠ [] → Covers old new (o + count) (n + count) o' n' hunk → Shows old new o' n' hunks →
      Shows old new o n (hunk :: hunks)

theorem Shows.behind {count : Nat} {hunks : List (List Block)} (hsame : Agree old new o n count)
    (h : Shows old new (o + count) (n + count) hunks) : Shows old new o n hunks := by
  cases h with
  | nil hrest hold hnew =>
    exact .nil (hsame.append hrest) (by rw [← Nat.add_assoc, hold]) (by rw [← Nat.add_assoc, hnew])
  | cons hgap hne hhunk hrest =>
    refine .cons (hsame.append hgap) hne ?_ hrest
    rwa [← Nat.add_assoc, ← Nat.add_assoc]

/-- Kept lines are shortened to some lines at their start and some at their end. -/
theorem Covers.split (xs : List Block) {ys : List Block}
    (h : Covers old new o n o' n' (xs ++ b :: ys)) (hkept : b.kept = true) {count : Nat}
    (hcount : 0 < count) :
    ∃ o₁ n₁, Run old new o n o₁ n₁ xs ∧ Agree old new o₁ n₁ b.oldLength ∧
      Run old new (o₁ + b.oldLength) (n₁ + b.oldLength) o' n' ys ∧
      Covers old new o n (o₁ + min b.oldLength count) (n₁ + min b.oldLength count)
        (xs ++ [b.takeStart count]) ∧
      Covers old new (o₁ + (b.oldLength - count)) (n₁ + (b.oldLength - count)) o' n'
        (b.takeEnd count :: ys) := by
  obtain ⟨o₁, n₁, hxs, hrest⟩ := run_append.mp h.run
  obtain ⟨hb, hys⟩ := hrest.of_cons
  obtain ⟨hlength, hsame⟩ := hb.same hkept
  rw [hlength] at hys
  refine ⟨o₁, n₁, hxs, hsame, hys, ⟨run_append.mpr ⟨o₁, n₁, hxs, ?_⟩, ?_, .inl ?_⟩,
    ⟨.cons (hb.takeEnd hkept hcount) ?_, .inl ?_, ?_⟩⟩
  · have hrun := run_singleton (hb.takeStart hkept hcount)
    simpa only [Block.takeStart, hlength] using hrun
  · cases xs with
    | nil => exact .inl (by simp [Block.takeStart, hkept])
    | cons x xs => exact h.first
  · simp [Block.takeStart, hkept]
  · dsimp only [Block.takeEnd]
    rwa [hlength, Nat.add_assoc, Nat.add_assoc n₁,
      show b.oldLength - count + min b.oldLength count = b.oldLength by omega]
  · simp [Block.takeEnd, hkept]
  · cases ys with
    | nil => exact .inl (by simp [Block.takeEnd, hkept])
    | cons y ys => simpa [List.getLast?_append] using h.last

theorem covers_trimStart (h : Covers old new o n o' n' bs) :
    ∃ count, Agree old new o n count ∧
    Covers old new (o + count) (n + count) o' n' (trimStart bs) := by
  cases bs with
  | nil => exact ⟨0, .zero _ _ _ _, h⟩
  | cons b bs =>
    rw [trimStart]
    split_ifs with hkept
    · obtain ⟨_, _, hnone, hsame, -, -, hback⟩ := h.split [] hkept (show 0 < context by decide)
      cases hnone
      exact ⟨_, hsame.take (Nat.sub_le _ _), hback⟩
    · exact ⟨0, .zero _ _ _ _, h⟩

theorem trimEnd_concat (bs : List Block) (b : Block) :
    trimEnd (bs ++ [b]) = bs ++ [if b.kept then b.takeStart context else b] := by
  induction bs with
  | nil => cases hkept : b.kept <;> simp [trimEnd, hkept]
  | cons c bs ih => cases bs <;> simp_all [trimEnd]

theorem covers_trimEnd (h : Covers old new o n o' n' bs) :
    ∃ o₁ n₁ count, Covers old new o n o₁ n₁ (trimEnd bs) ∧ Agree old new o₁ n₁ count ∧
      o₁ + count = o' ∧ n₁ + count = n' := by
  rcases bs.eq_nil_or_concat with rfl | ⟨bs, b, rfl⟩
  · exact ⟨o', n', 0, h, .zero _ _ _ _, rfl, rfl⟩
  · rw [List.concat_eq_append] at h ⊢
    rw [trimEnd_concat]
    split_ifs with hkept
    · obtain ⟨o₁, n₁, -, hsame, hnone, hfront, -⟩ := h.split _ hkept (show 0 < context by decide)
      cases hnone
      refine ⟨_, _, b.oldLength - context, hfront, Agree.drop ?_, by omega, by omega⟩
      rwa [show min b.oldLength context + (b.oldLength - context) = b.oldLength by omega]
    · exact ⟨o', n', 0, h, .zero _ _ _ _, rfl, rfl⟩

theorem cut_ne_nil (hunk bs : List Block) : cut hunk bs ≠ [] := by
  induction bs generalizing hunk with
  | nil => exact List.cons_ne_nil _ _
  | cons b bs ih =>
    rw [cut]
    split_ifs
    · exact List.cons_ne_nil _ _
    · exact ih _

theorem dropIdleEnd_cons (hunk : List Block) {hunks : List (List Block)} (h : hunks ≠ []) :
    dropIdleEnd (hunk :: hunks) = hunk :: dropIdleEnd hunks := by
  cases hunks with
  | nil => exact absurd rfl h
  | cons next hunks => rfl

theorem shows_cut (hunk : List Block) (h : Covers old new o n o' n' (hunk.reverse ++ bs))
    (hend : Shows old new o' n' []) : Shows old new o n (dropIdleEnd (cut hunk bs)) := by
  induction bs generalizing hunk o n with
  | nil =>
    rw [List.append_nil] at h
    rw [cut, dropIdleEnd]
    generalize hunk.reverse = hunk at h
    split_ifs with hidle
    · match hunk, hidle with
      | [], _ =>
        cases h.run
        exact hend
      | [b], hkept =>
        obtain ⟨_, _, hnone, hsame, hrun, -⟩ := h.split [] hkept Nat.one_pos
        cases hnone
        cases hrun
        exact .behind hsame hend
    · have hne : hunk ≠ [] := by
        rintro rfl
        exact hidle rfl
      exact .cons (.zero _ _ _ _) hne h hend
  | cons b bs ih =>
    rw [cut]
    split_ifs with hlong
    · obtain ⟨hkept, hlength⟩ : b.kept = true ∧ 2 * context < b.oldLength := by simpa using hlong
      obtain ⟨o₁, n₁, -, hsame, -, hfront, hback⟩ := h.split _ hkept (show 0 < context by decide)
      rw [dropIdleEnd_cons _ (cut_ne_nil _ _), List.reverse_cons]
      refine .cons (.zero _ _ _ _) (by simp) hfront ?_
      have hrest := ih [b.takeEnd context] hback
      -- The lines between the two contexts.
      have hgap : Agree old new (o₁ + context) (n₁ + context) (b.oldLength - 2 * context) := by
        refine Agree.take (n := b.oldLength - context) (Agree.drop ?_) (by omega)
        rwa [Nat.add_sub_cancel' (by omega)]
      rw [Nat.min_eq_right (by omega)]
      refine .behind hgap ?_
      rwa [show o₁ + context + (b.oldLength - 2 * context) = o₁ + (b.oldLength - context) by omega,
        show n₁ + context + (b.oldLength - 2 * context) = n₁ + (b.oldLength - context) by omega]
    · refine ih _ ?_
      rwa [List.reverse_cons, List.append_assoc]

/-- **Hunks.** The hunks show everything but common lines. -/
theorem shows_hunks (old new : Array Line) : Shows old new 0 0 (hunks (blocks old new)) := by
  have hall : Covers old new 0 0 old.size new.size (blocks old new) :=
    ⟨run_blocks old new, .inr ⟨rfl, rfl⟩, .inr ⟨rfl, rfl⟩⟩
  obtain ⟨_, hfront, hstart⟩ := covers_trimStart hall
  obtain ⟨_, _, _, hend, hback, hold, hnew⟩ := covers_trimEnd hstart
  exact .behind hfront (shows_cut [] hend (.nil hback hold hnew))

end

end CApiUpgrade.Diff
