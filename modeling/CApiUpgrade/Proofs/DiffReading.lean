import CApiUpgrade.Proofs.Hunks
import CApiUpgrade.Text.Decimal
import Mathlib.Data.List.Basic

/-!
# Reading and applying a unified diff

`readDiff?` reads a diff back, from nothing but the format: below the two lines that name the file
stand headers of hunks, lines with a sign, and markers that say of the line above that it has no
newline.  The reader takes nothing else.  `applyTo?` applies what was read, and insists on every
place and on every line.

The main statement of this module says what is read from a printed diff (`readDiff?_unified`): the
hunks as they are shown, if all their lines have their ends, and else nothing.
-/

namespace CApiUpgrade.Diff

open Text

/-! ### Hunks as they are read -/

/-- A line of a hunk. -/
structure Row where
  /-- What is done with the line. -/
  kind : EditKind
  /-- The line. -/
  line : Line
  deriving DecidableEq, Repr

/-- A hunk.  A range starts behind a number of lines. -/
structure Hunk where
  /-- Where the range of old lines starts. -/
  oldStart : Nat
  /-- The length of the range of old lines. -/
  oldLength : Nat
  /-- Where the range of new lines starts. -/
  newStart : Nat
  /-- The length of the range of new lines. -/
  newLength : Nat
  /-- The lines. -/
  rows : List Row
  deriving DecidableEq, Repr

namespace Hunk

/-- The old lines of a hunk. -/
def oldLines (h : Hunk) : List Line := (h.rows.filter (·.kind ≠ .insert)).map Row.line

/-- The new lines of a hunk. -/
def newLines (h : Hunk) : List Line := (h.rows.filter (·.kind ≠ .delete)).map Row.line

/-- Whether the ranges are as long as the lines say. -/
def IsCounted (h : Hunk) : Prop := h.oldLines.length = h.oldLength ∧ h.newLines.length = h.newLength

instance (h : Hunk) : Decidable h.IsCounted := inferInstanceAs (Decidable (_ ∧ _))

end Hunk

/-- What undoes an edit. -/
def EditKind.reversed : EditKind → EditKind
  | .keep => .keep
  | .delete => .insert
  | .insert => .delete

/-- The hunk that leads back. -/
def Hunk.reversed (h : Hunk) : Hunk where
  oldStart := h.newStart
  oldLength := h.newLength
  newStart := h.oldStart
  newLength := h.oldLength
  rows := h.rows.map fun r => { r with kind := r.kind.reversed }

/-- The hunks stand in order and do not overlap, in the old and in the new text. -/
def InOrder (hunks : List Hunk) : Prop :=
  hunks.Pairwise fun h h' => h.oldStart + h.oldLength ≤ h'.oldStart ∧
  h.newStart + h.newLength ≤ h'.newStart

instance (hunks : List Hunk) : Decidable (InOrder hunks) :=
  inferInstanceAs (Decidable (hunks.Pairwise _))

/-- Applies hunks to the lines behind the first `done` ones.  Every hunk has to find its old lines
where its range starts. -/
def applyFrom (done : Nat) : List Hunk → List Line → Option (List Line)
  | [], lines => some lines
  | h :: hs, lines =>
    let gap := h.oldStart - done
    if done ≤ h.oldStart ∧ gap ≤ lines.length ∧ h.oldLines <+: lines.drop gap then
      (applyFrom (h.oldStart + h.oldLines.length) hs (lines.drop (gap + h.oldLines.length))).map
        fun rest => lines.take gap ++ h.newLines ++ rest
    else none

/-- Applies hunks to a text. -/
def applyTo? (hunks : List Hunk) (text : List Char) : Option (List Char) :=
  (applyFrom 0 hunks (lines text)).map List.flatten

/-! ### Reading -/

/-- The lines of a text that ends in a newline, without their newlines. -/
def closedLines? (text : List Char) : Option (List (List Char)) :=
  match (text.splitOn '\n').getLast? with
  | some [] => some (text.splitOn '\n').dropLast
  | _ => none

/-- Where the range with a number starts, and its length.  The number is that of the first line; an
empty range has the number of the line above it. -/
def rangeOf? (number length : Nat) : Option (Nat × Nat) :=
  if length = 0 then some (number, 0)
  else if number = 0 then none
  else some (number - 1, length)

/-- A range: its number and its length, which is one if it is left out. -/
def readRange? (cs : List Char) : Option ((Nat × Nat) × List Char) := do
  match ← leadingNumber? cs with
  | (number, ',' :: rest) =>
    let (length, rest) ← leadingNumber? rest
    (rangeOf? number length).map (·, rest)
  | (number, rest) => (rangeOf? number 1).map (·, rest)

/-- The header of a hunk. -/
def readHeader? (line : List Char) : Option Hunk := do
  let rest ← "@@ -".toList.isPrefixOf? line
  let ((oldStart, oldLength), rest) ← readRange? rest
  let rest ← " +".toList.isPrefixOf? rest
  let ((newStart, newLength), rest) ← readRange? rest
  if rest = " @@".toList then some ⟨oldStart, oldLength, newStart, newLength, []⟩ else none

/-- What has been read of the lower part of a diff. -/
structure Pending where
  /-- Whether the line above has no newline. -/
  marked : Bool
  /-- Rows of a hunk whose header is still to come. -/
  rows : List Row
  /-- Hunks. -/
  hunks : List Hunk
  deriving DecidableEq

namespace Pending

/-- A row above what has been read. -/
def row (below : Pending) (kind : EditKind) (text : List Char) : Pending where
  marked := false
  rows := ⟨kind, if below.marked then text else text ++ ['\n']⟩ :: below.rows
  hunks := below.hunks

/-- A line above what has been read. -/
def line? (below : Pending) : List Char → Option Pending
  | ' ' :: text => some (below.row .keep text)
  | '-' :: text => some (below.row .delete text)
  | '+' :: text => some (below.row .insert text)
  | '\\' :: _ => if below.marked then none else some { below with marked := true }
  | '@' :: text =>
    if below.marked then none
    else (readHeader? ('@' :: text)).map fun h =>
      ⟨false, [], { h with rows := below.rows } :: below.hunks⟩
  | _ => none

end Pending

/-- Reads the lower part of a diff. -/
def readBelow? : List (List Char) → Option Pending
  | [] => some ⟨false, [], []⟩
  | line :: rest => do (← readBelow? rest).line? line

/-- The two lines that name the file. -/
def fileHeader (path : String) : List Char :=
  ("--- a/" ++ path ++ "\n+++ b/" ++ path ++ "\n").toList

/-- The hunks of a diff of a file. -/
def readDiff? (path : String) (diff : List Char) : Option (List Hunk) := do
  let body ← (fileHeader path).isPrefixOf? diff
  match ← readBelow? (← closedLines? body) with
  | ⟨false, [], hunks⟩ => some hunks
  | _ => none

/-! ### Numbers -/

theorem leadingNumber?_toDigits (n : Nat) {c : Char} (hc : isAsciiDigit c = false)
    (rest : List Char) : leadingNumber? (Nat.toDigits 10 n ++ c :: rest) = some (n, c :: rest) := by
  have hdigits : ∀ d ∈ Nat.toDigits 10 n, isAsciiDigit d = true := fun d hd =>
    Nat.isDigit_of_mem_toDigits (by decide) (Nat.le_refl _) hd
  have hvalue : valueOf (Nat.toDigits 10 n) = n := Nat.ofDigitChars_ten_toDigits
  unfold leadingNumber?
  rw [List.takeWhile_append_of_pos hdigits, List.dropWhile_append_of_pos hdigits,
    List.takeWhile_cons_of_neg (by simp [hc]), List.dropWhile_cons_of_neg (by simp [hc]),
    List.append_nil]
  split
  · rename_i hnil
    exact absurd hnil Nat.toDigits_ne_nil
  · rw [hvalue]

/-- A range is read as it is written. -/
theorem readRange?_rangeText (start stop : Nat) (rest : List Char) :
    readRange? ((rangeText start stop).toList ++ ' ' :: rest) =
    some ((start, stop - start), ' ' :: rest) := by
  have hblank : isAsciiDigit ' ' = false := by decide
  have hcomma : isAsciiDigit ',' = false := by decide
  -- Two of the three ways to write a range have a comma.
  have hlong : ∀ number length,
      readRange? (Nat.toDigits 10 number ++ ',' :: (Nat.toDigits 10 length ++ ' ' :: rest)) =
      (rangeOf? number length).map (·, ' ' :: rest) := by
    intro number length
    simp [readRange?, leadingNumber?_toDigits _ hcomma, leadingNumber?_toDigits _ hblank]
  simp only [rangeText]
  split_ifs with hone hzero
  · simp [readRange?, leadingNumber?_toDigits _ hblank, hone, rangeOf?]
  · have htext : (toString start ++ ",0").toList ++ ' ' :: rest =
        Nat.toDigits 10 start ++ ',' :: (Nat.toDigits 10 0 ++ ' ' :: rest) := by
      simp [Nat.toDigits_zero]
    rw [htext, hlong, hzero]
    rfl
  · have htext : (toString (start + 1) ++ "," ++ toString (stop - start)).toList ++ ' ' :: rest =
        Nat.toDigits 10 (start + 1) ++ ',' :: (Nat.toDigits 10 (stop - start) ++ ' ' :: rest) := by
      simp
    rw [htext, hlong, rangeOf?, if_neg hzero, if_neg (Nat.succ_ne_zero start)]
    rfl

/-- The header of a hunk, without its newline. -/
def headerLine (first last : Block) : List Char :=
  "@@ -".toList ++ ((rangeText first.oldStart last.oldEnd).toList ++ (" +".toList ++
    ((rangeText first.newStart last.newEnd).toList ++ " @@".toList)))

/-- A header is read as it is written. -/
theorem readHeader?_headerLine (first last : Block) : readHeader? (headerLine first last) =
    some ⟨first.oldStart, last.oldEnd - first.oldStart, first.newStart,
      last.newEnd - first.newStart, []⟩ := by
  have hprefix : ∀ marker rest : List Char, marker.isPrefixOf? (marker ++ rest) = some rest :=
    fun marker rest =>
    List.isPrefixOf?_eq_some_iff_append_eq.mpr rfl
  -- Both ranges stand in front of a blank.
  have hold := readRange?_rangeText first.oldStart last.oldEnd
    ('+' :: ((rangeText first.newStart last.newEnd).toList ++ " @@".toList))
  have hnew := readRange?_rangeText first.newStart last.newEnd "@@".toList
  have hplus : ∀ rest, " +".toList ++ rest = ' ' :: '+' :: rest := fun _ => rfl
  have hend : " @@".toList = ' ' :: "@@".toList := rfl
  rw [readHeader?, headerLine, hprefix]
  simp only [Option.bind_eq_bind, Option.bind_some, hplus, hold]
  rw [← hplus, hprefix, Option.bind_some, hend, hnew, Option.bind_some]
  exact if_pos rfl

/-- Nothing but digits and commas. -/
theorem newline_notMem_rangeText (start stop : Nat) : '\n' ∉ (rangeText start stop).toList := by
  have hdigits : ∀ n, '\n' ∉ Nat.toDigits 10 n := fun n hmem =>
    absurd (Nat.isDigit_of_mem_toDigits (by decide) (Nat.le_refl _) hmem) (by decide)
  simp only [rangeText]
  split_ifs <;> simp [hdigits]

theorem newline_notMem_headerLine (first last : Block) : '\n' ∉ headerLine first last := by
  simp [headerLine, newline_notMem_rangeText]

/-! ### Lines -/

theorem closedLines?_flatMap {ls : List (List Char)} (h : ∀ line ∈ ls, '\n' ∉ line) :
    closedLines? (ls.flatMap (· ++ ['\n'])) = some ls := by
  have hsplit : (ls.flatMap (· ++ ['\n'])).splitOn '\n' = ls ++ [[]] := by
    induction ls with
    | nil => rfl
    | cons line ls ih =>
      have hline : ∀ c ∈ line, (c == '\n') = false := fun c hc =>
        beq_false_of_ne fun heq => h line List.mem_cons_self (heq ▸ hc)
      have hrest := ih fun l hl => h l (List.mem_cons_of_mem _ hl)
      rw [List.splitOn] at hrest ⊢
      rw [List.flatMap_cons, List.append_assoc, List.singleton_append,
        List.splitOnP_append_cons_of_forall_mem hline '\n' rfl, hrest, List.cons_append]
  rw [closedLines?, hsplit]
  simp

theorem hasLineEnd_cons {c : Char} (h : c ≠ '\n' ∧ c ≠ '\r') (line : List Char) :
    hasLineEnd (c :: line) = hasLineEnd line := by
  cases line <;> simp [hasLineEnd, h]

@[simp]
theorem hasLineEnd_newline (content : List Char) : hasLineEnd (content ++ ['\n']) = true := by
  simp [hasLineEnd]

/-- A line of a text without carriage returns ends in its only newline, or has none. -/
def IsPlain (line : Line) : Prop :=
  (∃ content, '\n' ∉ content ∧ line = content ++ ['\n']) ∨ (hasLineEnd line = false ∧ '\n' ∉ line)

theorem isPlain_of_mem_lines {text : List Char} (htext : '\r' ∉ text) :
    ∀ line ∈ lines text, IsPlain line := by
  fun_induction lines text with
  | case1 => simp
  | case2 rest ih => simp at htext
  | case3 c rest _ hend ih =>
    have hc : c = '\n' := by
      have hne : c ≠ '\r' := fun heq => htext (heq ▸ List.mem_cons_self)
      simpa [hne] using hend
    rw [List.forall_mem_cons]
    exact ⟨.inl ⟨[], by simp, by rw [hc]; rfl⟩, ih fun hmem => htext (List.mem_cons_of_mem _ hmem)⟩
  | case4 c rest _ hend ih =>
    have hrest := ih fun hmem => htext (List.mem_cons_of_mem _ hmem)
    have hc : c ≠ '\n' ∧ c ≠ '\r' := by simpa using hend
    -- The character joins the first of the lines behind it, or is a line of its own.
    generalize lines rest = ls at hrest
    cases ls with
    | nil => simp [addToFirst, IsPlain, hasLineEnd, hc, Ne.symm hc.1]
    | cons first others =>
      rw [List.forall_mem_cons] at hrest
      rw [addToFirst, List.forall_mem_cons, IsPlain, hasLineEnd_cons hc]
      refine ⟨?_, hrest.2⟩
      rcases hrest.1 with ⟨content, hcontent, rfl⟩ | ⟨hfirst, hfree⟩
      · exact .inl ⟨c :: content, by simp [hcontent, Ne.symm hc.1], rfl⟩
      · exact .inr ⟨hfirst, by simp [hfree, Ne.symm hc.1]⟩

theorem hasLineEnd_of_mem_lines {text : List Char} (hend : text = [] ∨ text.getLast? = some '\n') :
    ∀ line ∈ lines text, hasLineEnd line = true := by
  fun_induction lines text with
  | case1 => simp
  | case2 rest ih =>
    have hrest : rest = [] ∨ rest.getLast? = some '\n' := by cases rest <;> simp_all
    rw [List.forall_mem_cons]
    exact ⟨rfl, ih hrest⟩
  | case3 c rest _ hc ih =>
    have hrest : rest = [] ∨ rest.getLast? = some '\n' := by cases rest <;> simp_all
    rw [List.forall_mem_cons]
    exact ⟨by simpa [hasLineEnd] using hc, ih hrest⟩
  | case4 c rest _ hend' ih =>
    have hc : c ≠ '\n' ∧ c ≠ '\r' := by simpa using hend'
    obtain ⟨d, rest, rfl⟩ : ∃ d rest', rest = d :: rest' := by
      cases rest with
      | nil => simp [hc.1] at hend
      | cons d rest => exact ⟨d, rest, rfl⟩
    have hrest := ih (.inr (by simpa using hend))
    have hne : lines (d :: rest) ≠ [] := fun hnil => by simpa [hnil] using flatten_lines (d :: rest)
    generalize lines (d :: rest) = ls at hrest hne
    cases ls with
    | nil => exact absurd rfl hne
    | cons first others =>
      rw [List.forall_mem_cons] at hrest
      rw [addToFirst, List.forall_mem_cons, hasLineEnd_cons hc]
      exact hrest

/-! ### What is printed -/

/-- The sign in front of a line. -/
def EditKind.sign : EditKind → Char
  | .keep => ' '
  | .delete => '-'
  | .insert => '+'

/-- The lines of a block with their signs. -/
def Block.rows (old new : Array Line) (b : Block) : List Row :=
  if b.kept then (linesFrom old b.oldStart b.oldLength).map (Row.mk .keep)
  else
    (linesFrom old b.oldStart b.oldLength).map (Row.mk .delete) ++
      (linesFrom new b.newStart b.newLength).map (Row.mk .insert)

/-- A hunk as it is shown. -/
def shown (old new : Array Line) (hunk : List Block) : Hunk :=
  match hunk.head?, hunk.getLast? with
  | some first, some last =>
    { oldStart := first.oldStart
      oldLength := last.oldEnd - first.oldStart
      newStart := first.newStart
      newLength := last.newEnd - first.newStart
      rows := hunk.flatMap (Block.rows old new) }
  | _, _ => ⟨0, 0, 0, 0, []⟩

section
variable {old new : Array Line}

theorem blockText_eq (old new : Array Line) (b : Block) :
    blockText old new b = (b.rows old new).flatMap fun r => signed r.kind.sign r.line := by
  unfold blockText Block.rows
  split_ifs <;> simp [List.flatMap_map, EditKind.sign]

/-- The lines in which a row is printed. -/
def Row.printed (r : Row) : List (List Char) :=
  if hasLineEnd r.line then [r.kind.sign :: r.line.dropLast] else [r.kind.sign :: r.line, []]

theorem flatMap_printed {r : Row} (h : IsPlain r.line) :
    r.printed.flatMap (· ++ ['\n']) = signed r.kind.sign r.line := by
  rcases h with ⟨content, -, hline⟩ | ⟨hend, -⟩
  · simp [Row.printed, signed, hline]
  · simp [Row.printed, signed, hend]

theorem newline_notMem_printed {r : Row} (h : IsPlain r.line) :
    ∀ line ∈ r.printed, '\n' ∉ line := by
  have hsign : '\n' ≠ r.kind.sign := by cases r.kind <;> decide
  rcases h with ⟨content, hcontent, hline⟩ | ⟨hend, hfree⟩
  · simp [Row.printed, hline, hcontent, hsign]
  · simp [Row.printed, hend, hfree, hsign]

/-- The lines in which a hunk is printed. -/
def printed (old new : Array Line) (hunk : List Block) : List (List Char) :=
  match hunk.head?, hunk.getLast? with
  | some first, some last =>
    headerLine first last :: (hunk.flatMap (Block.rows old new)).flatMap Row.printed
  | _, _ => []

theorem exists_head?_getLast? {hunk : List Block} (hne : hunk ≠ []) :
    ∃ first last, hunk.head? = some first ∧ hunk.getLast? = some last :=
  ⟨_, _, List.head?_eq_some_head hne, List.getLast?_eq_some_getLast hne⟩

theorem toList_hunkHeader {hunk : List Block} {first last : Block}
    (hfirst : hunk.head? = some first) (hlast : hunk.getLast? = some last) :
    (hunkHeader hunk).toList = headerLine first last ++ ['\n'] := by
  simp [hunkHeader, hfirst, hlast, headerLine]

theorem hunkText_eq {hunk : List Block} (hne : hunk ≠ [])
    (hrows : ∀ r ∈ hunk.flatMap (Block.rows old new), IsPlain r.line) :
    hunkText old new hunk = (printed old new hunk).flatMap (· ++ ['\n']) := by
  obtain ⟨first, last, hfirst, hlast⟩ := exists_head?_getLast? hne
  have htext : hunk.flatMap (blockText old new) =
      (hunk.flatMap (Block.rows old new)).flatMap fun r => signed r.kind.sign r.line := by
    rw [List.flatMap_assoc]
    exact List.flatMap_congr fun b _ => blockText_eq old new b
  have hsigned := List.flatMap_congr fun r hr => (flatMap_printed (hrows r hr)).symm
  rw [hunkText, toList_hunkHeader hfirst hlast, htext, hsigned]
  simp [printed, hfirst, hlast, List.flatMap_assoc]

/-! ### Reading what is printed -/

theorem line?_sign (below : Pending) (kind : EditKind) (text : List Char) :
    below.line? (kind.sign :: text) = some (below.row kind text) := by
  cases kind <;> rfl

theorem line?_headerLine (first last : Block) (rows : List Row) (hs : List Hunk) :
    Pending.line? ⟨false, rows, hs⟩ (headerLine first last) =
      some ⟨false, [],
        ⟨first.oldStart, last.oldEnd - first.oldStart, first.newStart, last.newEnd - first.newStart,
        rows⟩ :: hs⟩ := by
  have hmark : headerLine first last = '@' :: (headerLine first last).tail := rfl
  have hheader := readHeader?_headerLine first last
  rw [hmark] at hheader ⊢
  simp [Pending.line?, hheader]

theorem readBelow?_eq_none {ls : List (List Char)} (h : [] ∈ ls) : readBelow? ls = none := by
  induction ls with
  | nil => simp at h
  | cons line ls ih =>
    rw [readBelow?]
    rcases List.mem_cons.mp h with rfl | h
    · cases readBelow? ls <;> rfl
    · rw [ih h]
      rfl

/-- Rows are read as they are printed. -/
theorem readBelow?_rows {rows : List Row} (hplain : ∀ r ∈ rows, IsPlain r.line)
    (hend : ∀ r ∈ rows, hasLineEnd r.line = true) {rest : List (List Char)} {rs : List Row}
    {hs : List Hunk} (hrest : readBelow? rest = some ⟨false, rs, hs⟩) :
    readBelow? (rows.flatMap Row.printed ++ rest) = some ⟨false, rows ++ rs, hs⟩ := by
  induction rows with
  | nil => exact hrest
  | cons r rows ih =>
    rw [List.forall_mem_cons] at hplain hend
    have hrows := ih hplain.2 hend.2
    rcases hplain.1 with ⟨content, -, hline⟩ | ⟨hfree, -⟩
    · have hprinted : r.printed = [r.kind.sign :: content] := by simp [Row.printed, hline]
      have hrow : (⟨r.kind, content ++ ['\n']⟩ : Row) = r := by rw [← hline]
      rw [List.flatMap_cons, hprinted, List.append_assoc, List.singleton_append, readBelow?, hrows]
      simp [line?_sign, Pending.row, hrow]
    · rw [hend.1] at hfree
      contradiction

/-- A hunk is read as it is shown. -/
theorem readBelow?_printed {hunk : List Block} (hne : hunk ≠ [])
    (hplain : ∀ r ∈ hunk.flatMap (Block.rows old new), IsPlain r.line)
    (hend : ∀ r ∈ hunk.flatMap (Block.rows old new), hasLineEnd r.line = true)
    {rest : List (List Char)} {hs : List Hunk} (hrest : readBelow? rest = some ⟨false, [], hs⟩) :
    readBelow? (printed old new hunk ++ rest) = some ⟨false, [], shown old new hunk :: hs⟩ := by
  obtain ⟨first, last, hfirst, hlast⟩ := exists_head?_getLast? hne
  have hrows := readBelow?_rows hplain hend hrest
  simp only [printed, shown, hfirst, hlast, List.cons_append, readBelow?, hrows, List.append_nil]
  exact line?_headerLine first last _ hs

/-- The hunks of a diff as they are shown. -/
def shownHunks (old new : Array Line) : List Hunk := (hunks (blocks old new)).map (shown old new)

theorem newline_notMem_printed_hunk {hunk : List Block}
    (hplain : ∀ r ∈ hunk.flatMap (Block.rows old new), IsPlain r.line) :
    ∀ line ∈ printed old new hunk, '\n' ∉ line := by
  unfold printed
  split
  · rw [List.forall_mem_cons]
    refine ⟨newline_notMem_headerLine _ _, fun line hline => ?_⟩
    obtain ⟨r, hr, hline⟩ := List.mem_flatMap.mp hline
    exact newline_notMem_printed (hplain r hr) line hline
  · simp

/-- Hunks are read as they are shown, if all their lines have their ends. -/
theorem readBelow?_flatMap_printed {hs : List (List Block)} (hne : ∀ hunk ∈ hs, hunk ≠ [])
    (hplain : ∀ hunk ∈ hs, ∀ r ∈ hunk.flatMap (Block.rows old new), IsPlain r.line)
    (hend : ∀ hunk ∈ hs, ∀ r ∈ hunk.flatMap (Block.rows old new), hasLineEnd r.line = true) :
    readBelow? (hs.flatMap (printed old new)) = some ⟨false, [], hs.map (shown old new)⟩ := by
  induction hs with
  | nil => rfl
  | cons hunk hs ih =>
    rw [List.forall_mem_cons] at hne hplain hend
    exact readBelow?_printed hne.1 hplain.1 hend.1 (ih hne.2 hplain.2 hend.2)

theorem linesFrom_eq (ls : Array Line) (start length : Nat) :
    linesFrom ls start length = (ls.toList.drop start).take length := by
  simp [linesFrom]

/-- Only lines of the two texts are shown. -/
theorem mem_of_mem_rows {b : Block} {r : Row} (h : r ∈ b.rows old new) :
    r.line ∈ old.toList ∨ r.line ∈ new.toList := by
  have hmem : ∀ {ls : Array Line} {start length x}, x ∈ linesFrom ls start length → x ∈ ls.toList :=
    fun hx => List.mem_of_mem_drop (List.mem_of_mem_take (linesFrom_eq _ _ _ ▸ hx))
  unfold Block.rows at h
  split_ifs at h
  · obtain ⟨x, hx, rfl⟩ := List.mem_map.mp h
    exact .inl (hmem hx)
  · rcases List.mem_append.mp h with h | h
    · obtain ⟨x, hx, rfl⟩ := List.mem_map.mp h
      exact .inl (hmem hx)
    · obtain ⟨x, hx, rfl⟩ := List.mem_map.mp h
      exact .inr (hmem hx)

theorem rows_shown (old new : Array Line) (hunk : List Block) :
    (shown old new hunk).rows = hunk.flatMap (Block.rows old new) := by
  by_cases hne : hunk = []
  · subst hne
    rfl
  · obtain ⟨first, last, hfirst, hlast⟩ := exists_head?_getLast? hne
    simp [shown, hfirst, hlast]

theorem Shows.ne_nil {o n : Nat} {hs : List (List Block)} (h : Shows old new o n hs) :
    ∀ hunk ∈ hs, hunk ≠ [] := by
  induction h with
  | nil => simp
  | cons _ hne _ _ ih => exact List.forall_mem_cons.mpr ⟨hne, ih⟩

/-- Only lines of the two texts are read. -/
theorem mem_of_mem_shownHunks {h : Hunk} (hh : h ∈ shownHunks old new) {r : Row} (hr : r ∈ h.rows) :
    r.line ∈ old.toList ∨ r.line ∈ new.toList := by
  obtain ⟨hunk, -, rfl⟩ := List.mem_map.mp hh
  rw [rows_shown] at hr
  obtain ⟨b, -, hr⟩ := List.mem_flatMap.mp hr
  exact mem_of_mem_rows hr

/-- **Reading.** From the printed diff of two texts its hunks are read, if all their lines have
their ends, and else nothing. -/
theorem readDiff?_unified {old new : List Char} (hold : '\r' ∉ old) (hnew : '\r' ∉ new)
    (path : String) : readDiff? path (unified path old new) =
      if ∀ h ∈ shownHunks (lines old).toArray (lines new).toArray, ∀ r ∈ h.rows,
      hasLineEnd r.line = true then
        some (shownHunks (lines old).toArray (lines new).toArray)
      else none := by
  have hplainOld := isPlain_of_mem_lines hold
  have hplainNew := isPlain_of_mem_lines hnew
  have hbody : unified path old new = fileHeader path ++
      (hunks (blocks (lines old).toArray (lines new).toArray)).flatMap
        (hunkText (lines old).toArray (lines new).toArray) := rfl
  rw [readDiff?, hbody, List.isPrefixOf?_eq_some_iff_append_eq.mpr rfl, Option.bind_eq_bind,
    Option.bind_some, shownHunks]
  have hne := (shows_hunks (lines old).toArray (lines new).toArray).ne_nil
  generalize hunks (blocks (lines old).toArray (lines new).toArray) = hs at hne
  -- Each printed line is one of the two texts' lines, and these have no line end inside.
  have hplain :
      ∀ hunk ∈ hs, ∀ r ∈ hunk.flatMap (Block.rows (lines old).toArray (lines new).toArray),
      IsPlain r.line := by
    intro hunk _ r hr
    obtain ⟨b, _, hr⟩ := List.mem_flatMap.mp hr
    exact (mem_of_mem_rows hr).elim (hplainOld _) (hplainNew _)
  generalize (lines old).toArray = oldLines at hplain
  generalize (lines new).toArray = newLines at hplain
  have htext : hs.flatMap (hunkText oldLines newLines) =
      (hs.flatMap (printed oldLines newLines)).flatMap (· ++ ['\n']) := by
    rw [List.flatMap_assoc]
    exact List.flatMap_congr fun hunk hhunk => hunkText_eq (hne hunk hhunk) (hplain hunk hhunk)
  have hfree : ∀ line ∈ hs.flatMap (printed oldLines newLines), '\n' ∉ line := by
    intro line hline
    obtain ⟨hunk, hhunk, hline⟩ := List.mem_flatMap.mp hline
    exact newline_notMem_printed_hunk (hplain hunk hhunk) line hline
  rw [htext, closedLines?_flatMap hfree, Option.bind_eq_bind, Option.bind_some]
  simp only [List.forall_mem_map, rows_shown]
  split_ifs with hend
  · rw [readBelow?_flatMap_printed hne hplain hend]
    rfl
  · -- A line without its end is followed by an empty line.
    push Not at hend
    obtain ⟨hunk, hhunk, r, hr, hopen⟩ := hend
    have hempty : [] ∈ hs.flatMap (printed oldLines newLines) := by
      obtain ⟨first, last, hfirst, hlast⟩ := exists_head?_getLast? (hne hunk hhunk)
      refine List.mem_flatMap.mpr ⟨hunk, hhunk, ?_⟩
      simp only [printed, hfirst, hlast]
      exact List.mem_cons_of_mem _ (List.mem_flatMap.mpr ⟨r, hr, by simp [Row.printed, hopen]⟩)
    rw [readBelow?_eq_none hempty]
    rfl

end

end CApiUpgrade.Diff
