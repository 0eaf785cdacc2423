import CApiUpgrade.Diff.Edit

/-!
# Finding an edit script

`Diff.script` finds an edit script between two lists of lines by divide and conquer.  Common lines
at both ends are kept.  What is left is split where a forward and a backward search for a shortest
path of deletions and insertions meet, and both halves are treated alike.

The result is an edit script whatever the split: the searches decide only how short it is.  A
split that does not make both halves smaller is not used; all old lines are then deleted and all
new ones inserted.
-/

namespace CApiUpgrade.Diff

/-- Two lists of lines, of which the parts from `oldLo` to `oldHi` and from `newLo` to `newHi` are
to be compared. -/
structure Span where
  /-- The old lines. -/
  old : Array Line
  /-- The new lines. -/
  new : Array Line
  /-- The first old line of the part. -/
  oldLo : Nat
  /-- The line behind the last old line of the part. -/
  oldHi : Nat
  /-- The first new line of the part. -/
  newLo : Nat
  /-- The line behind the last new line of the part. -/
  newHi : Nat

/-- How many lines from `i` and from `j` on agree, out of at most `fuel`. -/
def agreeDown (old new : Array Line) : (fuel : Nat) → (i j : Nat) → Nat
  | 0, _, _ => 0
  | fuel + 1, i, j =>
    match old[i]?, new[j]? with
    | some x, some y => if x = y then agreeDown old new fuel (i + 1) (j + 1) + 1 else 0
    | _, _ => 0

/-- How many lines right above `i` and right above `j` agree, out of at most `fuel`. -/
def agreeUp (old new : Array Line) : (fuel : Nat) → (i j : Nat) → Nat
  | 0, _, _ => 0
  | fuel + 1, i, j =>
    match old[i - 1]?, new[j - 1]? with
    | some x, some y => if x = y then agreeUp old new fuel (i - 1) (j - 1) + 1 else 0
    | _, _ => 0

/-- How many lines at the start of the parts agree. -/
def commonStart (old new : Array Line) (oldLo oldHi newLo newHi : Nat) : Nat :=
  agreeDown old new (min (oldHi - oldLo) (newHi - newLo)) oldLo newLo

/-- How many lines at the end of the parts agree. -/
def commonEnd (old new : Array Line) (oldLo oldHi newLo newHi : Nat) : Nat :=
  agreeUp old new (min (oldHi - oldLo) (newHi - newLo)) oldHi newHi

theorem agreeDown_le (old new : Array Line) (fuel i j : Nat) :
    agreeDown old new fuel i j ≤ fuel := by
  induction fuel generalizing i j with
  | zero => simp [agreeDown]
  | succ fuel ih =>
    unfold agreeDown
    split
    · split
      · exact Nat.succ_le_succ (ih _ _)
      · exact Nat.zero_le _
    · exact Nat.zero_le _

theorem agreeUp_le (old new : Array Line) (fuel i j : Nat) : agreeUp old new fuel i j ≤ fuel := by
  induction fuel generalizing i j with
  | zero => simp [agreeUp]
  | succ fuel ih =>
    unfold agreeUp
    split
    · split
      · exact Nat.succ_le_succ (ih _ _)
      · exact Nat.zero_le _
    · exact Nat.zero_le _

/-! ### The meeting point

A point `(x, y)` stands for `x` old and `y` new lines taken.  The diagonal of a point is `x - y`.
A *front* records, for each diagonal, the greatest `x` reached by a number of deletions and
insertions. -/

/-- The greatest `x` reached on each diagonal, the diagonal `0` at the index `center`. -/
structure Front where
  /-- The index of the diagonal `0`. -/
  center : Nat
  /-- The greatest `x` for each diagonal. -/
  reach : Array Nat

namespace Front

/-- The front before any step, wide enough for `width` diagonals to either side. -/
def start (width : Nat) : Front := ⟨width + 1, Array.replicate (2 * width + 3) 0⟩

/-- The greatest `x` on a diagonal. -/
def get (f : Front) (k : Int) : Nat := f.reach.getD (f.center + k).toNat 0

/-- Records the greatest `x` on a diagonal. -/
def set (f : Front) (k : Int) (x : Nat) : Front :=
  { f with reach := f.reach.setIfInBounds (f.center + k).toNat x }

/-- Where a path with one more step arrives on the diagonal `k`, before it follows equal lines:
from the diagonal above by an insertion or from the one below by a deletion. -/
def advance (f : Front) (d : Nat) (k : Int) : Nat :=
  if k = -d ∨ (k ≠ d ∧ f.get (k - 1) < f.get (k + 1)) then f.get (k + 1) else f.get (k - 1) + 1

end Front

/-- The diagonals that `d` steps can reach, the greatest first. -/
def diagonals (d : Nat) : List Int :=
  (List.range (d + 1)).map fun (i : Nat) => (d : Int) - 2 * (i : Int)

/-- The forward search takes its `d`-th step on the given diagonals.  It has met the backward
search if the two overlap on a diagonal; the point where its last run of equal lines starts is
then the meeting point. -/
def forward (s : Span) (backward : Front) (d : Nat) :
    Front → List Int → Front × Option (Nat × Nat)
  | front, [] => (front, none)
  | front, k :: rest =>
    let n := s.oldHi - s.oldLo
    let m := s.newHi - s.newLo
    let delta : Int := n - m
    let x := front.advance d k
    let y := ((x : Int) - k).toNat
    let run :=
      if x < n ∧ y < m then commonStart s.old s.new (s.oldLo + x) s.oldHi (s.newLo + y) s.newHi
      else 0
    let front := front.set k (x + run)
    -- Paths of `d` and of `d - 1` steps can meet only if the lengths differ by an odd number.
    if delta % 2 ≠ 0 ∧ (k - delta).natAbs + 1 ≤ d ∧ n ≤ x + run + backward.get (delta - k) then
      (front, some (s.oldLo + x, s.newLo + y))
    else forward s backward d front rest

/-- The backward search takes its `d`-th step on the given diagonals.  It counts from the end; the
point that it reaches is the meeting point if it has met the forward search. -/
def backward (s : Span) (forward : Front) (d : Nat) :
    Front → List Int → Front × Option (Nat × Nat)
  | front, [] => (front, none)
  | front, k :: rest =>
    let n := s.oldHi - s.oldLo
    let m := s.newHi - s.newLo
    let delta : Int := n - m
    let x := front.advance d k
    let y := ((x : Int) - k).toNat
    let run :=
      if x < n ∧ y < m then commonEnd s.old s.new s.oldLo (s.oldHi - x) s.newLo (s.newHi - y)
      else 0
    let front := front.set k (x + run)
    -- Both paths have `d` steps here, so the lengths differ by an even number.
    if delta % 2 = 0 ∧ (k - delta).natAbs ≤ d ∧ n ≤ x + run + forward.get (delta - k) then
      (front, some (s.oldHi - (x + run), s.newHi - (y + run)))
    else backward s forward d front rest

/-- Takes steps in both directions in turn until the searches meet. -/
def meet (s : Span) : (fuel d : Nat) → (ahead behind : Front) → Option (Nat × Nat)
  | 0, _, _, _ => none
  | fuel + 1, d, ahead, behind =>
    match forward s behind d ahead (diagonals d) with
    | (_, some point) => some point
    | (ahead, none) =>
      match backward s ahead d behind (diagonals d) with
      | (_, some point) => some point
      | (behind, none) => meet s fuel (d + 1) ahead behind

/-- Where the two searches meet. -/
def meetingPoint (s : Span) : Option (Nat × Nat) :=
  let most := (s.oldHi - s.oldLo + (s.newHi - s.newLo) + 1) / 2 + 1
  meet s most 0 (.start most) (.start most)

/-! ### Divide and conquer -/

/-- An edit, unless it is one of no lines. -/
def editOf (kind : EditKind) (oldStart newStart length : Nat) : List Edit :=
  if length = 0 then [] else [⟨kind, oldStart, newStart, length⟩]

/-- An edit script between two parts. -/
def solve (old new : Array Line) (oldLo oldHi newLo newHi : Nat) : List Edit :=
  let top := commonStart old new oldLo oldHi newLo newHi
  let bottom := commonEnd old new (oldLo + top) oldHi (newLo + top) newHi
  let a := oldLo + top
  let b := oldHi - bottom
  let c := newLo + top
  let d := newHi - bottom
  -- What is left differs in its first and in its last line, or is empty on one side.
  let middle :=
    if a < b ∧ c < d then
      match meetingPoint ⟨old, new, a, b, c, d⟩ with
      | some (x, y) =>
        if _h : a ≤ x ∧ x ≤ b ∧ c ≤ y ∧ y ≤ d ∧ a + c < x + y ∧ x + y < b + d then
          solve old new a x c y ++ solve old new x b y d
        else editOf .delete a c (b - a) ++ editOf .insert a c (d - c)
      | none => editOf .delete a c (b - a) ++ editOf .insert a c (d - c)
    else editOf .delete a c (b - a) ++ editOf .insert a c (d - c)
  editOf .keep oldLo newLo top ++ middle ++ editOf .keep b d bottom
termination_by (oldHi - oldLo) + (newHi - newLo)
decreasing_by
  all_goals omega

/-- An edit script between two lists of lines. -/
def script (old new : Array Line) : List Edit :=
  solve old new 0 old.size 0 new.size

end CApiUpgrade.Diff
