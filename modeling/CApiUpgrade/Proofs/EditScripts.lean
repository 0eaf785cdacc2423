import CApiUpgrade.Diff.Compaction
import Mathlib.Tactic.SplitIfs

/-!
# Edit scripts keep what they cover

An edit records where its run stands in both lists.  A kept run is recorded in the right places, a
deletion in the right place of the old list and an insertion in the right place of the new one
(`Edit.Fits`).  This holds of the script that is found (`below_script`), whatever the search for a
meeting point answers, and it is kept while the script is tidied up (`below_compact`): every single
move of an edit keeps it.

**What is not recorded.**  When a deletion and an insertion pass each other, neither is told that it
now stands behind or in front of the other.  So the place of a deletion in the new list may be off,
and so may the place of an insertion in the old one.  All that is kept of them is an upper bound:
not even with all kept lines behind it does an edit reach beyond the end of the other list.
-/

namespace CApiUpgrade.Diff

/-! ### Common lines -/

/-- The next `count` lines from `i` and from `j` on are there and agree. -/
def Agree (old new : Array Line) (i j count : Nat) : Prop :=
  ∀ k < count, ∃ line, old[i + k]? = some line ∧ new[j + k]? = some line

section
variable {old new : Array Line} {i j m n : Nat}

theorem Agree.zero (old new : Array Line) (i j : Nat) : Agree old new i j 0 :=
  fun _ hk => absurd hk (Nat.not_lt_zero _)

/-- Lines that agree can be followed by others that do. -/
theorem Agree.append (h : Agree old new i j m) (h' : Agree old new (i + m) (j + m) n) :
    Agree old new i j (m + n) := by
  intro k hk
  by_cases hlt : k < m
  · exact h k hlt
  · obtain ⟨line, ho, hn⟩ := h' (k - m) (by omega)
    rw [show i + m + (k - m) = i + k by omega] at ho
    rw [show j + m + (k - m) = j + k by omega] at hn
    exact ⟨line, ho, hn⟩

theorem Agree.take (h : Agree old new i j n) (hm : m ≤ n) : Agree old new i j m :=
  fun k hk => h k (Nat.lt_of_lt_of_le hk hm)

theorem Agree.drop (h : Agree old new i j (m + n)) : Agree old new (i + m) (j + m) n := by
  intro k hk
  simpa only [Nat.add_assoc] using h (m + k) (Nat.add_lt_add_left hk m)

/-- Lines that agree are lines of both texts. -/
theorem Agree.le (h : Agree old new i j n) (hpos : 0 < n) :
    i + n ≤ old.size ∧ j + n ≤ new.size := by
  obtain ⟨line, ho, hn⟩ := h (n - 1) (by omega)
  have hold := (Array.getElem?_eq_some_iff.mp ho).1
  have hnew := (Array.getElem?_eq_some_iff.mp hn).1
  omega

/-- The lines that are counted from the top agree. -/
theorem agree_agreeDown (old new : Array Line) (fuel i j : Nat) :
    Agree old new i j (agreeDown old new fuel i j) := by
  induction fuel generalizing i j with
  | zero => exact .zero old new i j
  | succ fuel ih =>
    unfold agreeDown
    split
    · rename_i x y hx hy
      split_ifs with hxy
      · subst hxy
        have hfirst : Agree old new i j 1 := fun k hk => by
          rw [Nat.lt_one_iff.mp hk]
          exact ⟨x, hx, hy⟩
        rw [Nat.add_comm]
        exact hfirst.append (ih (i + 1) (j + 1))
      · exact .zero old new i j
    · exact .zero old new i j

/-- The lines that are counted from the bottom agree. -/
theorem agree_agreeUp (old new : Array Line) {fuel i j : Nat} (hi : fuel ≤ i) (hj : fuel ≤ j) :
    Agree old new (i - agreeUp old new fuel i j) (j - agreeUp old new fuel i j)
      (agreeUp old new fuel i j) := by
  induction fuel generalizing i j with
  | zero => exact .zero old new i j
  | succ fuel ih =>
    unfold agreeUp
    split
    · rename_i x y hx hy
      split_ifs with hxy
      · subst hxy
        have hrest := ih (i := i - 1) (j := j - 1) (by omega) (by omega)
        have hle := agreeUp_le old new fuel (i - 1) (j - 1)
        generalize agreeUp old new fuel (i - 1) (j - 1) = n at hrest hle
        rw [show i - (n + 1) = i - 1 - n by omega, show j - (n + 1) = j - 1 - n by omega]
        refine hrest.append fun k hk => ?_
        rw [Nat.lt_one_iff.mp hk, show i - 1 - n + n + 0 = i - 1 by omega,
          show j - 1 - n + n + 0 = j - 1 by omega]
        exact ⟨x, hx, hy⟩
      · exact .zero old new _ _
    · exact .zero old new _ _

theorem agree_commonStart (old new : Array Line) (oldLo oldHi newLo newHi : Nat) :
    Agree old new oldLo newLo (commonStart old new oldLo oldHi newLo newHi) :=
  agree_agreeDown old new _ oldLo newLo

theorem commonStart_le (old new : Array Line) (oldLo oldHi newLo newHi : Nat) :
    commonStart old new oldLo oldHi newLo newHi ≤ min (oldHi - oldLo) (newHi - newLo) :=
  agreeDown_le _ _ _ _ _

theorem agree_commonEnd (old new : Array Line) (oldLo oldHi newLo newHi : Nat) :
    Agree old new (oldHi - commonEnd old new oldLo oldHi newLo newHi)
      (newHi - commonEnd old new oldLo oldHi newLo newHi)
        (commonEnd old new oldLo oldHi newLo newHi) :=
  agree_agreeUp old new (by omega) (by omega)

theorem commonEnd_le (old new : Array Line) (oldLo oldHi newLo newHi : Nat) :
    commonEnd old new oldLo oldHi newLo newHi ≤ min (oldHi - oldLo) (newHi - newLo) :=
  agreeUp_le _ _ _ _ _

end

/-! ### Edits in their places -/

namespace Edit

/-- The number of its lines in the old list. -/
def oldCount (e : Edit) : Nat := if e.kind = .insert then 0 else e.length

/-- The number of its lines in the new list. -/
def newCount (e : Edit) : Nat := if e.kind = .delete then 0 else e.length

/-- The number of its lines that are kept. -/
def keptCount (e : Edit) : Nat := if e.kind = .keep then e.length else 0

/-- An edit stands behind `o` old and `n` new lines, and `k` kept lines stand behind it. -/
structure Fits (old new : Array Line) (o n k : Nat) (e : Edit) : Prop where
  /-- It has lines. -/
  length_pos : 0 < e.length
  /-- Kept lines are common to both lists. -/
  keep : e.kind = .keep → e.oldStart = o ∧ e.newStart = n ∧ Agree old new o n e.length
  /-- The place of a deletion in the old list is right. -/
  delete : e.kind = .delete → e.oldStart = o ∧ e.newStart + k ≤ new.size
  /-- The place of an insertion in the new list is right. -/
  insert : e.kind = .insert → e.newStart = n ∧ e.oldStart + k ≤ old.size

variable {old new : Array Line} {o n k i j length : Nat}

@[simp]
theorem fits_keep : Fits old new o n k ⟨.keep, i, j, length⟩ ↔
    0 < length ∧ i = o ∧ j = n ∧ Agree old new o n length :=
  ⟨fun h => ⟨h.length_pos, h.keep rfl⟩, fun h => ⟨h.1, fun _ => h.2, nofun, nofun⟩⟩

@[simp]
theorem fits_delete : Fits old new o n k ⟨.delete, i, j, length⟩ ↔ 0 < length ∧ i = o ∧
    j + k ≤ new.size :=
  ⟨fun h => ⟨h.length_pos, h.delete rfl⟩, fun h => ⟨h.1, nofun, fun _ => h.2, nofun⟩⟩

@[simp]
theorem fits_insert : Fits old new o n k ⟨.insert, i, j, length⟩ ↔ 0 < length ∧ j = n ∧
    i + k ≤ old.size :=
  ⟨fun h => ⟨h.length_pos, h.insert rfl⟩, fun h => ⟨h.1, nofun, nofun, fun _ => h.2⟩⟩

@[simp]
theorem counts_keep :
    (Edit.mk .keep i j length).oldCount = length ∧ (Edit.mk .keep i j length).newCount = length ∧
    (Edit.mk .keep i j length).keptCount = length :=
  ⟨rfl, rfl, rfl⟩

@[simp]
theorem counts_delete :
    (Edit.mk .delete i j length).oldCount = length ∧ (Edit.mk .delete i j length).newCount = 0 ∧
    (Edit.mk .delete i j length).keptCount = 0 :=
  ⟨rfl, rfl, rfl⟩

@[simp]
theorem counts_insert :
    (Edit.mk .insert i j length).oldCount = 0 ∧ (Edit.mk .insert i j length).newCount = length ∧
    (Edit.mk .insert i j length).keptCount = 0 :=
  ⟨rfl, rfl, rfl⟩

@[simp]
theorem counts_up (e : Edit) (n : Nat) :
    (e.up n).oldCount = e.oldCount ∧ (e.up n).newCount = e.newCount :=
  ⟨rfl, rfl⟩

@[simp]
theorem counts_down (e : Edit) (n : Nat) :
    (e.down n).oldCount = e.oldCount ∧ (e.down n).newCount = e.newCount :=
  ⟨rfl, rfl⟩

end Edit

/-- Edits, the nearest first, that lead from the start to behind `o` old and `n` new lines.  Behind
them stand `k` kept lines. -/
inductive Above (old new : Array Line) : (o n k : Nat) → List Edit → Prop where
  | nil (k : Nat) : Above old new 0 0 k []
  | cons {o n k : Nat} {e : Edit} {es : List Edit} : Above old new o n (k + e.keptCount) es →
    e.Fits old new o n k → Above old new (o + e.oldCount) (n + e.newCount) k (e :: es)

/-- Edits that lead from behind `o` old and `n` new lines to the end, with `k` kept lines among
them. -/
inductive Below (old new : Array Line) : (o n k : Nat) → List Edit → Prop where
  | nil : Below old new old.size new.size 0 []
  | cons {o n k : Nat} {e : Edit} {es : List Edit} : e.Fits old new o n k →
    Below old new (o + e.oldCount) (n + e.newCount) k es →
      Below old new o n (k + e.keptCount) (e :: es)

section
variable {old new : Array Line} {o n k : Nat}

/-- The lines that are kept fit below the place that has been reached. -/
theorem Below.le {es : List Edit} (h : Below old new o n k es) :
    o + k ≤ old.size ∧ n + k ≤ new.size := by
  induction h with
  | nil => simp
  | @cons o n k e es _ _ ih =>
    obtain ⟨kind, i, j, length⟩ := e
    cases kind <;> simp [Edit.oldCount, Edit.newCount, Edit.keptCount] at ih ⊢ <;> omega

/-- The nearest edit above, and the edits above that. -/
theorem Above.of_cons {e : Edit} {es : List Edit} (h : Above old new o n k (e :: es)) :
    ∃ o' n', o = o' + e.oldCount ∧ n = n' + e.newCount ∧ Above old new o' n' (k + e.keptCount) es ∧
      e.Fits old new o' n' k := by
  cases h with
  | cons hes he => exact ⟨_, _, rfl, rfl, hes, he⟩

/-- The nearest edit below, and the edits below that. -/
theorem Below.of_cons {e : Edit} {es : List Edit} (h : Below old new o n k (e :: es)) :
    ∃ k', k = k' + e.keptCount ∧ e.Fits old new o n k' ∧
    Below old new (o + e.oldCount) (n + e.newCount) k' es := by
  cases h with
  | cons he hes => exact ⟨_, rfl, he, hes⟩

theorem Below.of_nil (h : Below old new o n k []) : o = old.size ∧ n = new.size := by
  cases h with
  | nil => exact ⟨rfl, rfl⟩

/-- The edits above and those below are the script. -/
theorem Above.join {above below : List Edit} (ha : Above old new o n k above)
    (hb : Below old new o n k below) : ∃ k', Below old new 0 0 k' (above.reverse ++ below) := by
  induction ha generalizing below with
  | nil k => exact ⟨k, hb⟩
  | cons _ he ih =>
    rw [List.reverse_cons, List.append_assoc]
    exact ih (.cons he hb)

theorem Below.keep {length : Nat} {es : List Edit} (hpos : 0 < length)
    (h : Agree old new o n length) (hes : Below old new (o + length) (n + length) k es) :
    Below old new o n (k + length) (⟨.keep, o, n, length⟩ :: es) :=
  .cons (e := ⟨.keep, o, n, length⟩) ⟨hpos, fun _ => ⟨rfl, rfl, h⟩, nofun, nofun⟩ hes

theorem Above.keep {length : Nat} {es : List Edit} (hpos : 0 < length)
    (h : Agree old new o n length) (hes : Above old new o n (k + length) es) :
    Above old new (o + length) (n + length) k (⟨.keep, o, n, length⟩ :: es) :=
  .cons (e := ⟨.keep, o, n, length⟩) hes ⟨hpos, fun _ => ⟨rfl, rfl, h⟩, nofun, nofun⟩

/-! ### The script that is found -/

theorem Below.keepOf {length : Nat} {es : List Edit} (h : Agree old new o n length)
    (hes : ∃ k, Below old new (o + length) (n + length) k es) :
    ∃ k, Below old new o n k (editOf .keep o n length ++ es) := by
  obtain ⟨k, hes⟩ := hes
  rw [editOf]
  split_ifs with hzero
  · subst hzero
    exact ⟨k, hes⟩
  · exact ⟨_, hes.keep (Nat.pos_of_ne_zero hzero) h⟩

/-- Deleting some lines and inserting some others. -/
theorem Below.replace {a b c d : Nat} {es : List Edit} (hab : a ≤ b) (hcd : c ≤ d)
    (hes : Below old new b d k es) :
    Below old new a c k (editOf .delete a c (b - a) ++ editOf .insert a c (d - c) ++ es) := by
  obtain ⟨hold, hnew⟩ := hes.le
  have hinsert : Below old new b c k (editOf .insert a c (d - c) ++ es) := by
    rw [editOf]
    split_ifs with hzero
    · rwa [show c = d by omega]
    · have hpos : 0 < d - c := Nat.pos_of_ne_zero hzero
      refine .cons (e := ⟨.insert, a, c, d - c⟩) (k := k) ⟨hpos, nofun, nofun,
        fun _ => ⟨rfl, ?_⟩⟩ ?_
      · exact Nat.le_trans (Nat.add_le_add_right hab k) hold
      · simpa [Edit.oldCount, Edit.newCount, Nat.add_sub_cancel' hcd] using hes
  rw [List.append_assoc]
  generalize editOf .insert a c (d - c) ++ es = rest at hinsert
  rw [editOf]
  split_ifs with hzero
  · rwa [show a = b by omega]
  · have hpos : 0 < b - a := Nat.pos_of_ne_zero hzero
    refine .cons (e := ⟨.delete, a, c, b - a⟩) (k := k) ⟨hpos, nofun, fun _ => ⟨rfl, ?_⟩, nofun⟩ ?_
    · exact Nat.le_trans (Nat.add_le_add_right hcd k) hnew
    · simpa [Edit.oldCount, Edit.newCount, Nat.add_sub_cancel' hab] using hinsert

/-- A script for a part, followed by edits below it, is a script from the top of the part on. -/
theorem below_solve {oldLo oldHi newLo newHi : Nat} (hold : oldLo ≤ oldHi) (hnew : newLo ≤ newHi)
    {es : List Edit} (hes : Below old new oldHi newHi k es) :
    ∃ k', Below old new oldLo newLo k' (solve old new oldLo oldHi newLo newHi ++ es) := by
  induction oldLo, oldHi, newLo, newHi using solve.induct old new generalizing k es with
  | case1 oldLo oldHi newLo newHi top bottom a b c d =>
    rename_i ihfront ihback
    have htop : top ≤ min (oldHi - oldLo) (newHi - newLo) := commonStart_le _ _ _ _ _ _
    have hbottom : bottom ≤ min (oldHi - a) (newHi - c) := commonEnd_le _ _ _ _ _ _
    have hab : a ≤ b := by omega
    have hcd : c ≤ d := by omega
    have hstart : Agree old new oldLo newLo top := agree_commonStart _ _ _ _ _ _
    have hend : Agree old new b d bottom := agree_commonEnd _ _ _ _ _ _
    have hrest : Below old new (b + bottom) (d + bottom) k es := by
      rwa [show b + bottom = oldHi by omega, show d + bottom = newHi by omega]
    obtain ⟨k₁, h₁⟩ := Below.keepOf hend ⟨k, hrest⟩
    have hreplace := h₁.replace hab hcd
    rw [solve]
    simp only [List.append_assoc] at hreplace ⊢
    refine Below.keepOf hstart ?_
    -- What is left between the common lines at both ends is split, or replaced as a whole.
    split_ifs with hboth
    · split
      · split_ifs with hinside
        · obtain ⟨k', hk'⟩ := ihback hboth _ _ hinside hinside.2.1 hinside.2.2.2.1 h₁
          rw [List.append_assoc]
          exact ihfront hboth _ _ hinside hinside.1 hinside.2.2.1 hk'
        · rw [List.append_assoc]
          exact ⟨k₁, hreplace⟩
      · rw [List.append_assoc]
        exact ⟨k₁, hreplace⟩
    · rw [List.append_assoc]
      exact ⟨k₁, hreplace⟩

/-- The script that is found fits the two lists. -/
theorem below_script (old new : Array Line) : ∃ k, Below old new 0 0 k (script old new) := by
  have hnil : Below old new old.size new.size 0 [] := .nil
  have h := below_solve (Nat.zero_le old.size) (Nat.zero_le new.size) hnil
  rwa [List.append_nil] at h

end

/-! ### Moving an edit -/

namespace Focus

/-- A script with a deletion or an insertion in focus. -/
structure Fits (old new : Array Line) (f : Focus) (o n k : Nat) : Prop where
  /-- What is in focus. -/
  changes : f.this.kind ≠ .keep
  /-- The edits above. -/
  above : Above old new o n k f.above
  /-- The edit in focus. -/
  this : f.this.Fits old new o n k
  /-- The edits below. -/
  below : Below old new (o + f.this.oldCount) (n + f.this.newCount) k f.below

variable {old new : Array Line} {o n k : Nat} {above below : List Edit} {this other : Edit}

theorem counts_grow {a b : Edit} (h : a.kind = b.kind) :
    (a.grow b.length).oldCount = a.oldCount + b.oldCount ∧
    (a.grow b.length).newCount = a.newCount + b.newCount := by
  obtain ⟨ka, _, _, _⟩ := a
  obtain ⟨kb, _, _, _⟩ := b
  obtain rfl : ka = kb := h
  cases ka <;> exact ⟨rfl, rfl⟩

/-- An edit of the same kind above the one in focus. -/
theorem Fits.merge_above (h : Fits old new ⟨other :: above, this, below⟩ o n k)
    (hkind : other.kind = this.kind) :
    ∃ o' n', Fits old new ⟨above, other.grow this.length, below⟩ o' n' k := by
  obtain ⟨hchanges, habove, hthis, hbelow⟩ := h
  obtain ⟨o, n, rfl, rfl, habove, hother⟩ := habove.of_cons
  refine ⟨o, n, hkind ▸ hchanges, ?_,
    ⟨Nat.add_pos_left hother.length_pos _, ?_, hother.delete, hother.insert⟩, ?_⟩
  · rwa [Edit.keptCount, if_neg (hkind ▸ hchanges)] at habove
  · exact fun hkeep => absurd hkeep (hkind ▸ hchanges)
  · rw [(counts_grow hkind).1, (counts_grow hkind).2, ← Nat.add_assoc, ← Nat.add_assoc]
    exact hbelow

/-- A deletion and an insertion may stand in either order. -/
theorem fits_swap {a b : Edit} (ha : a.kind ≠ .keep) (hb : b.kind ≠ .keep) (h : a.kind ≠ b.kind)
    (hfa : a.Fits old new o n k) (hfb : b.Fits old new (o + a.oldCount) (n + a.newCount) k) :
    b.Fits old new o n k ∧ a.Fits old new (o + b.oldCount) (n + b.newCount) k := by
  obtain ⟨ka, ia, ja, la⟩ := a
  obtain ⟨kb, ib, jb, lb⟩ := b
  cases ka <;> cases kb <;> simp_all

/-- An edit of the other kind above the one in focus. -/
theorem Fits.pass_above (h : Fits old new ⟨other :: above, this, below⟩ o n k)
    (hkeep : other.kind ≠ .keep) (hkind : other.kind ≠ this.kind) :
    ∃ o' n', Fits old new ⟨above, this, other :: below⟩ o' n' k := by
  obtain ⟨hchanges, habove, hthis, hbelow⟩ := h
  have hcount : other.keptCount = 0 := if_neg hkeep
  obtain ⟨o, n, rfl, rfl, habove, hother⟩ := habove.of_cons
  obtain ⟨hthis, hother⟩ := fits_swap hkeep hchanges hkind hother hthis
  rw [hcount] at habove
  refine ⟨o, n, hchanges, habove, hthis, ?_⟩
  rw [Nat.add_right_comm, Nat.add_right_comm n] at hbelow
  have hcons := Below.cons hother hbelow
  rwa [hcount] at hcons

/-- An edit of the same kind below the one in focus. -/
theorem Fits.merge_below (h : Fits old new ⟨above, this, other :: below⟩ o n k)
    (hkind : other.kind = this.kind) :
    Fits old new ⟨above, this.grow other.length, below⟩ o n k := by
  obtain ⟨hchanges, habove, hthis, hbelow⟩ := h
  dsimp only at hchanges habove hthis hbelow
  have hcount : other.keptCount = 0 := if_neg (hkind ▸ hchanges)
  obtain ⟨k, rfl, hother, hbelow⟩ := hbelow.of_cons
  rw [hcount, Nat.add_zero] at habove hthis ⊢
  refine ⟨hchanges, habove, ⟨Nat.add_pos_left hthis.length_pos _, ?_, hthis.delete, hthis.insert⟩,
    ?_⟩
  · exact fun hkeep => absurd hkeep hchanges
  · rw [(counts_grow hkind.symm).1, (counts_grow hkind.symm).2, ← Nat.add_assoc, ← Nat.add_assoc]
    exact hbelow

/-- An edit of the other kind below the one in focus. -/
theorem Fits.pass_below (h : Fits old new ⟨above, this, other :: below⟩ o n k)
    (hkeep : other.kind ≠ .keep) (hkind : other.kind ≠ this.kind) :
    ∃ o' n', Fits old new ⟨other :: above, this, below⟩ o' n' k := by
  obtain ⟨hchanges, habove, hthis, hbelow⟩ := h
  dsimp only at hchanges habove hthis hbelow
  have hcount : other.keptCount = 0 := if_neg hkeep
  obtain ⟨k, rfl, hother, hbelow⟩ := hbelow.of_cons
  rw [hcount, Nat.add_zero] at habove hthis ⊢
  obtain ⟨hother, hthis⟩ := fits_swap hchanges hkeep (Ne.symm hkind) hthis hother
  have hcons : Above old new (o + other.oldCount) (n + other.newCount) k (other :: above) :=
    .cons (by rwa [hcount]) hother
  refine ⟨_, _, hchanges, hcons, hthis, ?_⟩
  rwa [Nat.add_right_comm, Nat.add_right_comm n]

/-- Kept lines in front of the edits below join others that stand there already. -/
theorem below_keepBelow {f : Focus} {count : Nat} (hpos : 0 < count)
    (hsame : Agree old new o n count) (hold : other.oldEnd = o + count)
    (hnew : f.this.newEnd = n + count) (h : Below old new (o + count) (n + count) k f.below) :
    Below old new o n (k + count) (f.keepBelow other count) := by
  have halone : Below old new o n (k + count)
      (⟨.keep, other.oldEnd - count, f.this.newEnd - count, count⟩ :: f.below) := by
    rw [hold, hnew, Nat.add_sub_cancel, Nat.add_sub_cancel]
    exact h.keep hpos hsame
  unfold keepBelow
  split
  · rename_i e rest hbelow
    split_ifs with hkind
    · rw [hbelow] at h
      obtain ⟨_, i, j, length⟩ := e
      obtain rfl := hkind
      obtain ⟨k, rfl, hfits, hrest⟩ := h.of_cons
      obtain ⟨-, rfl, rfl, hl⟩ := Edit.fits_keep.mp hfits
      simp only [Edit.counts_keep, Nat.add_assoc, Nat.add_comm count] at hrest
      have hcons := hrest.keep (by omega) (Nat.add_comm count length ▸ hsame.append hl)
      simpa [Edit.up, Edit.grow, Nat.add_assoc] using hcons
    · exact halone
  · rename_i hbelow
    rwa [hbelow] at halone

/-- Kept lines behind the edits above join others that stand there already. -/
theorem above_keepAbove {f : Focus} {count : Nat} (hpos : 0 < count)
    (hsame : Agree old new o n count) (hold : other.oldStart = o) (hnew : f.this.newStart = n)
    (h : Above old new o n (k + count) f.above) :
    Above old new (o + count) (n + count) k (f.keepAbove other count) := by
  have halone : Above old new (o + count) (n + count) k
      (⟨.keep, other.oldStart, f.this.newStart, count⟩ :: f.above) := by
    rw [hold, hnew]
    exact h.keep hpos hsame
  unfold keepAbove
  split
  · rename_i e rest habove
    split_ifs with hkind
    · rw [habove] at h
      obtain ⟨_, i, j, length⟩ := e
      obtain rfl := hkind
      obtain ⟨o, n, rfl, rfl, hrest, hfits⟩ := h.of_cons
      obtain ⟨-, rfl, rfl, hl⟩ := Edit.fits_keep.mp hfits
      simp only [Edit.counts_keep] at hsame hrest ⊢
      rw [Nat.add_assoc, Nat.add_comm count] at hrest
      rw [Nat.add_assoc, Nat.add_assoc]
      exact hrest.keep (by omega) (hl.append hsame)
    · exact halone
  · rename_i habove
    rwa [habove] at halone

/-- Kept lines change places with an insertion below them that ends like them. -/
theorem Fits.raise (h : Fits old new ⟨other :: above, this, below⟩ o n k)
    (hkeep : other.kind = .keep) {count : Nat}
    (hcount : commonEnd old new other.oldStart other.oldEnd this.newStart this.newEnd = count)
    (hpos : 0 < count) :
    ∃ o' n' k',
      Fits old new ⟨if (other.shrink count).length = 0 then above else other.shrink count :: above,
        this.up count, keepBelow ⟨other :: above, this, below⟩ other count⟩ o' n' k' := by
  obtain ⟨hchanges, habove, hthis, hbelow⟩ := h
  dsimp only at hchanges habove hthis hbelow
  obtain ⟨kind, i, j, length⟩ := this
  have hle := commonEnd_le old new other.oldStart other.oldEnd j (Edit.mk kind i j length).newEnd
  obtain ⟨o, n, rfl, rfl, hrest, hother⟩ := habove.of_cons
  obtain ⟨_, i', j', length'⟩ := other
  obtain rfl := hkeep
  cases kind with
  | keep => exact absurd rfl hchanges
  | delete =>
    -- A deletion has no lines in the new list.
    simp only [Edit.newEnd, ↓reduceIte, Nat.sub_self, Nat.min_zero] at hle hcount
    omega
  | insert =>
    obtain ⟨-, rfl, rfl, hsame⟩ := Edit.fits_keep.mp hother
    simp only [Edit.fits_insert, Edit.counts_keep] at hthis hrest
    simp only [Edit.counts_keep, Edit.counts_insert, Nat.add_zero] at hbelow
    obtain ⟨hlength, rfl, hbound⟩ := hthis
    simp only [Edit.oldEnd, Edit.newEnd, reduceCtorEq, ↓reduceIte] at hcount hle
    rw [hcount] at hle
    have hagree : Agree old new (i' + length' - count) (j' + length' + length - count) count := by
      have h := agree_commonEnd old new i' (i' + length') (j' + length') (j' + length' + length)
      rwa [hcount] at h
    have hends := hbelow.le
    refine ⟨i' + length' - count, j' + length' - count, k + count, hchanges, ?_, ?_, ?_⟩
    · split_ifs with hnone
      · have hall : length' = count := by
          simp only [Edit.shrink] at hnone
          omega
        simpa [hall] using hrest
      · have hsome : 0 < length' - count := Nat.pos_of_ne_zero hnone
        rw [show k + length' = k + count + (length' - count) by omega] at hrest
        have hcons := hrest.keep hsome (hsame.take (Nat.sub_le _ _))
        rwa [← Nat.add_sub_assoc (by omega), ← Nat.add_sub_assoc (by omega)] at hcons
    · exact Edit.fits_insert.mpr ⟨hlength, rfl, by dsimp only; omega⟩
    · have hplace : j' + length' + length - count = j' + length' - count + length := by omega
      rw [hplace] at hagree
      simp only [Edit.counts_up, Edit.counts_insert, Nat.add_zero]
      refine below_keepBelow hpos hagree ?_ ?_ ?_
      · simp only [Edit.oldEnd, reduceCtorEq, ↓reduceIte]
        omega
      · simp only [Edit.newEnd, reduceCtorEq, ↓reduceIte]
        omega
      · rwa [show i' + length' - count + count = i' + length' by omega,
          show j' + length' - count + length + count = j' + length' + length by omega]

/-- Kept lines change places with an insertion above them that starts like them. -/
theorem Fits.lower (h : Fits old new ⟨above, this, other :: below⟩ o n k)
    (hkeep : other.kind = .keep) {count : Nat}
    (hcount : commonStart old new other.oldStart other.oldEnd this.newStart this.newEnd = count)
    (hpos : 0 < count) :
    ∃ o' n' k', Fits old new ⟨keepAbove ⟨above, this, other :: below⟩ other count, this.down count,
      if ((other.down count).shrink count).length =
      0 then below else (other.down count).shrink count :: below⟩
        o' n' k' := by
  obtain ⟨hchanges, habove, hthis, hbelow⟩ := h
  dsimp only at hchanges habove hthis hbelow
  obtain ⟨kind, i, j, length⟩ := this
  have hle := commonStart_le old new other.oldStart other.oldEnd j (Edit.mk kind i j length).newEnd
  obtain ⟨k, rfl, hother, hrest⟩ := hbelow.of_cons
  obtain ⟨_, i', j', length'⟩ := other
  obtain rfl := hkeep
  cases kind with
  | keep => exact absurd rfl hchanges
  | delete =>
    -- A deletion has no lines in the new list.
    simp only [Edit.newEnd, ↓reduceIte, Nat.sub_self, Nat.min_zero] at hle hcount
    omega
  | insert =>
    simp only [Edit.fits_insert, Edit.fits_keep, Edit.counts_keep, Edit.counts_insert, Nat.add_zero]
      at hthis habove hrest hother
    obtain ⟨hlength, hj, hbound⟩ := hthis
    obtain ⟨-, hi, hj', hsame⟩ := hother
    subst hj hi hj'
    simp only [Edit.oldEnd, Edit.newEnd, reduceCtorEq, ↓reduceIte] at hcount hle
    rw [hcount] at hle
    have hagree : Agree old new i' j count := by
      have h := agree_commonStart old new i' (i' + length') j (j + length)
      rwa [hcount] at h
    obtain ⟨rest, rfl⟩ := Nat.exists_eq_add_of_le (show count ≤ length' by omega)
    refine ⟨i' + count, j + count, k + rest, hchanges, above_keepAbove hpos hagree rfl rfl ?_, ?_,
      ?_⟩
    · rwa [Nat.add_assoc, Nat.add_comm rest]
    · exact Edit.fits_insert.mpr ⟨hlength, rfl, by dsimp only; omega⟩
    · simp only [Edit.counts_down, Edit.counts_insert, Nat.add_zero]
      have hrest' : Below old new (i' + count + rest) (j + count + length + rest) k below := by
        rwa [Nat.add_assoc, Nat.add_assoc j, Nat.add_comm count length, ← Nat.add_assoc j,
          Nat.add_assoc (j + length)]
      split_ifs with hnone
      · obtain rfl : rest = 0 := by simpa [Edit.down, Edit.shrink] using hnone
        exact hrest'
      · have hsome : 0 < rest := by simpa [Edit.down, Edit.shrink, Nat.pos_iff_ne_zero] using hnone
        have hagree' : Agree old new (i' + count) (j + count + length) rest := by
          rw [Nat.add_right_comm j]
          exact hsame.drop
        simpa [Edit.down, Edit.shrink, Nat.add_right_comm j] using hrest'.keep hsome hagree'

/-! ### Moving an edit as far as it goes -/

/-- Moving the edit in focus up keeps the script fit. -/
theorem Fits.rise (fuel : Nat) {f : Focus} (h : Fits old new f o n k) :
    ∃ o' n' k', Fits old new (rise old new fuel f) o' n' k' := by
  induction fuel generalizing f o n k with
  | zero => exact ⟨o, n, k, h⟩
  | succ fuel ih =>
    obtain ⟨above, this, below⟩ := f
    cases above with
    | nil => exact ⟨o, n, k, h⟩
    | cons prev above =>
      simp only [Focus.rise]
      by_cases hkeep : prev.kind = .keep
      · rw [if_pos hkeep]
        by_cases hcount : 0 < commonEnd old new prev.oldStart prev.oldEnd this.newStart this.newEnd
        · rw [if_pos hcount]
          obtain ⟨_, _, _, hraise⟩ := h.raise hkeep rfl hcount
          exact ih hraise
        · obtain ⟨_, _, _, _, _, hprev⟩ := h.above.of_cons
          rw [if_neg hcount, if_neg (Nat.pos_iff_ne_zero.mp hprev.length_pos)]
          exact ⟨o, n, k, h⟩
      · rw [if_neg hkeep]
        split_ifs with hkind
        · obtain ⟨_, _, hmerge⟩ := h.merge_above hkind
          exact ih hmerge
        · obtain ⟨_, _, hpass⟩ := h.pass_above hkeep hkind
          exact ih hpass

/-- Moving the edit in focus down keeps the script fit. -/
theorem Fits.sink (fuel : Nat) {f : Focus} (h : Fits old new f o n k) :
    ∃ o' n' k', Fits old new (sink old new fuel f) o' n' k' := by
  induction fuel generalizing f o n k with
  | zero => exact ⟨o, n, k, h⟩
  | succ fuel ih =>
    obtain ⟨above, this, below⟩ := f
    cases below with
    | nil => exact ⟨o, n, k, h⟩
    | cons next below =>
      simp only [Focus.sink]
      by_cases hkeep : next.kind = .keep
      · rw [if_pos hkeep]
        by_cases hcount : 0 <
          commonStart old new next.oldStart next.oldEnd this.newStart this.newEnd
        · rw [if_pos hcount]
          obtain ⟨_, _, _, hlower⟩ := h.lower hkeep rfl hcount
          exact ih hlower
        · obtain ⟨_, _, hnext, _⟩ := h.below.of_cons
          rw [if_neg hcount, if_neg (Nat.pos_iff_ne_zero.mp hnext.length_pos)]
          exact ⟨o, n, k, h⟩
      · rw [if_neg hkeep]
        split_ifs with hkind
        · exact ih (h.merge_below hkind)
        · obtain ⟨_, _, hpass⟩ := h.pass_below hkeep hkind
          exact ih hpass

theorem Fits.settle {f : Focus} (h : Fits old new f o n k) :
    ∃ o' n' k', Fits old new (settle old new f) o' n' k' := by
  obtain ⟨_, _, _, hrise⟩ := h.rise (weight f.above)
  exact hrise.sink _

end Focus

variable {old new : Array Line}

/-- All edits of a kind can be moved, one after the other. -/
theorem below_settleAll {kind : EditKind} (hkind : kind ≠ .keep) {fuel o n k : Nat}
    {above below : List Edit} (ha : Above old new o n k above) (hb : Below old new o n k below) :
    ∃ k', Below old new 0 0 k' (settleAll old new kind fuel above below) := by
  induction fuel generalizing o n k above below with
  | zero => exact ha.join hb
  | succ fuel ih =>
    cases below with
    | nil => simpa [settleAll] using ha.join hb
    | cons e below =>
      obtain ⟨k, rfl, he, hbelow⟩ := hb.of_cons
      rw [settleAll]
      split_ifs with hthis
      · have hchanges : e.kind ≠ .keep := hthis ▸ hkind
        have habove : Above old new o n k above := by rwa [Edit.keptCount, if_neg hchanges] at ha
        have hfits : Focus.Fits old new ⟨above, e, below⟩ o n k := ⟨hchanges, habove, he, hbelow⟩
        obtain ⟨_, _, _, hsettle⟩ := hfits.settle
        refine ih (.cons ?_ hsettle.this) hsettle.below
        rw [Edit.keptCount, if_neg hsettle.changes]
        exact hsettle.above
      · exact ih (.cons ha he) hbelow

/-- The edits of a script fit the two lists, also after it has been tidied up. -/
theorem below_compact (old new : Array Line) :
    ∃ k, Below old new 0 0 k (compact old new (script old new)) := by
  obtain ⟨_, hscript⟩ := below_script old new
  have hdelete : EditKind.delete ≠ .keep := nofun
  have hinsert : EditKind.insert ≠ .keep := nofun
  obtain ⟨_, hdeleted⟩ := below_settleAll hdelete (.nil _) hscript
  exact below_settleAll hinsert (.nil _) hdeleted

end CApiUpgrade.Diff
