import CApiUpgrade.Exclusion
import CApiUpgrade.Proofs.Places

/-!
# Excluding directories

An exclusion pattern that ends in a slash is for directories.  It is looked for in the text of a
path name: at the very start, or behind a slash.  If it has no wildcards, this is the same as
looking for the names of its directories one after another among the components of the path name
(`anyExcludes_iff`).  The run of names has to end before the last component, so a file is never
excluded for its own name, and it has to consist of whole components, so `build/` excludes neither
`build2/a.c` nor `prebuild/a.c`.

The proof puts a slash in front of the path name.  Then every component stands behind a slash, and a
run of components with a slash behind each is the same as its text in one place of the text of the
path name (`slashed_infix_iff`).

As a glob pattern, such a pattern only matches itself (`Glob.accepts_plain`), and no path name and
no file name ends in a slash, so the exclusions by name add nothing.
-/

namespace CApiUpgrade

/-! ### Glob patterns without wildcards -/

namespace Glob

/-- The characters that make a glob pattern more than a text. -/
def wildcards : List Char := ['*', '?', '[', ']']

variable {cs : List Char}

theorem scan_plain (h : ∀ c ∈ cs, c ∉ wildcards) {fuel : Nat} (hfuel : cs.length < fuel)
    (component : Bool) : scan fuel component cs = some (cs.map .char) := by
  induction cs generalizing fuel component with
  | nil =>
    obtain ⟨fuel, rfl⟩ := Nat.exists_eq_succ_of_ne_zero (Nat.ne_of_gt hfuel)
    rfl
  | cons c cs ih =>
    obtain ⟨fuel, rfl⟩ := Nat.exists_eq_succ_of_ne_zero (Nat.ne_of_gt (Nat.zero_lt_of_lt hfuel))
    rw [List.forall_mem_cons] at h
    have hrest := ih h.2 (Nat.lt_of_succ_lt_succ hfuel) (c == '/')
    have hc : c ≠ '*' ∧ c ≠ '?' ∧ c ≠ '[' ∧ c ≠ ']' := by simpa [wildcards] using h.1
    rw [scan, hrest]
    · rfl
    all_goals grind

theorem accepts_map_char (cs text : List Char) :
    accepts (cs.map .char) text = true ↔ text = cs := by
  induction cs generalizing text with
  | nil => simp [accepts]
  | cons c cs ih =>
    cases text with
    | nil => simp [accepts]
    | cons d text =>
      simp only [List.map_cons, accepts, Bool.and_eq_true, beq_iff_eq, ih, List.cons.injEq]
      exact and_congr_left fun _ => eq_comm

/-- A pattern without wildcards is valid and matches itself only. -/
theorem accepts_plain (h : ∀ c ∈ cs, c ∉ wildcards) :
    ∃ glob, parse? (String.ofList cs) = some glob ∧ ∀ text, glob.accepts text = true ↔ text = cs :=
  ⟨cs.map .char, by rw [parse?, String.toList_ofList, scan_plain h (Nat.lt_succ_self _)],
    accepts_map_char cs⟩

end Glob

/-! ### File names -/

namespace Path

theorem notMem_of_mem_segments {path : String} {segment : List Char} (h : segment ∈ segments path) :
    '/' ∉ segment := by
  have hall : ∀ text : List Char, ∀ part ∈ text.splitOnP (· == '/'), '/' ∉ part := by
    intro text
    induction text with
    | nil => simp
    | cons c text ih =>
      rw [List.splitOnP_cons_eq_if_modifyHead]
      split_ifs with hc
      · simpa using ih
      · cases hparts : text.splitOnP (· == '/') with
        | nil => exact absurd hparts (List.splitOnP_ne_nil _ _)
        | cons part parts =>
          rw [hparts, List.forall_mem_cons] at ih
          rw [List.modifyHead_cons, List.forall_mem_cons, List.mem_cons, not_or]
          exact ⟨⟨fun heq => hc (beq_iff_eq.mpr heq.symm), ih.1⟩, ih.2⟩
  exact hall _ _ h

theorem notMem_of_fileName? {path name : String} (h : fileName? path = some name) :
    '/' ∉ name.toList := by
  have hmem : name ∈ components path := by
    unfold fileName? at h
    split at h
    · cases h
    · cases h
    · rename_i last hlast
      cases h
      exact List.mem_of_getLast? hlast
  rw [components_eq, names, List.mem_filter, List.mem_map] at hmem
  obtain ⟨⟨segment, hsegment, rfl⟩, -⟩ := hmem
  rw [String.toList_ofList]
  exact notMem_of_mem_segments hsegment

end Path

namespace Exclusion

/-! ### Components -/

/-- A component of a path name. -/
structure Component where
  /-- Its characters. -/
  chars : List Char
  /-- It is not empty. -/
  ne_nil : chars ≠ []
  /-- It has no slash. -/
  noSlash : '/' ∉ chars

/-- Components with slashes between them. -/
def joined (names : List Component) : List Char := ['/'].intercalate (names.map (·.chars))

/-- Components with a slash behind each. -/
def slashed (names : List Component) : List Char := names.flatMap (·.chars ++ ['/'])

/-- The path name of the components, from the root or from where one is. -/
def pathName (isAbsolute : Bool) (names : List Component) : String :=
  String.ofList ((if isAbsolute then ['/'] else []) ++ joined names)

theorem Component.ext {a b : Component} (h : a.chars = b.chars) : a = b := by
  cases a
  cases b
  simpa using h

theorem eq_nil_or_concat (names : List Component) :
    names = [] ∨ ∃ front last, names = front ++ [last] := by
  simpa only [List.concat_eq_append] using List.eq_nil_or_concat names

theorem joined_concat (names : List Component) (last : Component) :
    joined (names ++ [last]) = slashed names ++ last.chars := by
  induction names with
  | nil => simp [joined, slashed]
  | cons name names ih =>
    have hne : (names ++ [last]).map (·.chars) ≠ [] := by simp
    obtain ⟨next, rest, hrest⟩ := List.exists_cons_of_ne_nil hne
    rw [joined, hrest] at ih
    rw [joined, List.cons_append, List.map_cons, hrest, List.intercalate_cons_cons, ih]
    simp [slashed]

theorem joined_ne_nil {names : List Component} (h : names ≠ []) : joined names ≠ [] := by
  obtain ⟨front, last, rfl⟩ := (eq_nil_or_concat names).resolve_left h
  simp [joined_concat, last.ne_nil]

theorem slashed_eq {names : List Component} (h : names ≠ []) :
    slashed names = joined names ++ ['/'] := by
  obtain ⟨front, last, rfl⟩ := (eq_nil_or_concat names).resolve_left h
  simp [joined_concat, slashed]

/-- A joined text neither starts nor ends in a slash. -/
theorem joined_ends (names : List Component) :
    (joined names).head? ≠ some '/' ∧ (joined names).getLast? ≠ some '/' := by
  have hhead : ∀ {u v : List Char}, u ≠ [] → '/' ∉ u → (u ++ v).head? ≠ some '/' := by
    intro u v hu hslash heq
    rw [List.head?_append_of_ne_nil _ hu] at heq
    exact hslash (List.mem_of_head? heq)
  rcases eq_nil_or_concat names with rfl | ⟨front, last, rfl⟩
  · simp [joined]
  · rw [joined_concat, List.getLast?_append_of_ne_nil _ last.ne_nil]
    refine ⟨?_, fun heq => last.noSlash (List.mem_of_getLast? heq)⟩
    cases front with
    | nil =>
      have hlast := hhead (v := []) last.ne_nil last.noSlash
      rwa [List.append_nil] at hlast
    | cons name front =>
      have hname := hhead (v := '/' :: slashed front ++ last.chars) name.ne_nil name.noSlash
      simpa [slashed] using hname

/-! ### Runs of components -/

theorem append_slash_prefix_iff {u v x y : List Char} (hu : '/' ∉ u) (hv : '/' ∉ v) :
    u ++ '/' :: x <+: v ++ '/' :: y ↔ u = v ∧ x <+: y := by
  induction u generalizing v with
  | nil =>
    cases v with
    | nil => simp [List.cons_prefix_cons]
    | cons d v =>
      rw [List.mem_cons, not_or] at hv
      simp [List.cons_prefix_cons, hv.1]
  | cons c u ih =>
    rw [List.mem_cons, not_or] at hu
    cases v with
    | nil => simp [List.cons_prefix_cons, Ne.symm hu.1]
    | cons d v =>
      rw [List.mem_cons, not_or] at hv
      simp [List.cons_prefix_cons, ih hu.2 hv.2, and_assoc]

/-- Components with slashes start a text iff they are its first components. -/
theorem slashed_prefix_iff {names all : List Component} {rest : List Char} (h : '/' ∉ rest) :
    slashed names <+: slashed all ++ rest ↔ names <+: all := by
  induction names generalizing all with
  | nil => simp [slashed]
  | cons name names ih =>
    have hcons : ∀ (n : Component) (ns : List Component),
        slashed (n :: ns) = n.chars ++ '/' :: slashed ns := by simp [slashed]
    cases all with
    | nil =>
      refine iff_of_false (fun hprefix => h ?_) (by simp)
      have hmem : '/' ∈ slashed (name :: names) := by simp [hcons]
      simpa [slashed] using hprefix.subset hmem
    | cons other all =>
      rw [hcons, hcons, List.append_assoc, List.cons_append,
        append_slash_prefix_iff name.noSlash other.noSlash, ih, List.cons_prefix_cons]
      exact and_congr_left fun _ => ⟨Component.ext, congrArg _⟩

theorem slash_infix_append_iff {u v x : List Char} (h : '/' ∉ u) :
    '/' :: x <:+: u ++ v ↔ '/' :: x <:+: v := by
  induction u with
  | nil => simp
  | cons c u ih =>
    rw [List.mem_cons, not_or] at h
    rw [List.cons_append, List.infix_cons_iff, List.cons_prefix_cons, ih h.2]
    simp [h.1]

/-- Components with slashes stand behind a slash of a text iff they are a run of its components. -/
theorem slashed_infix_iff {names all : List Component} {rest : List Char} (h : '/' ∉ rest) :
    '/' :: slashed names <:+: '/' :: (slashed all ++ rest) ↔ names <:+: all := by
  induction all with
  | nil =>
    have hnone : ¬ '/' :: slashed names <:+: slashed [] ++ rest :=
      fun hin => h (hin.subset List.mem_cons_self)
    rw [List.infix_cons_iff, List.cons_prefix_cons, slashed_prefix_iff h]
    simp [hnone]
  | cons name all ih =>
    have hcons : slashed (name :: all) ++ rest = name.chars ++ '/' :: (slashed all ++ rest) := by
      simp [slashed]
    rw [List.infix_cons_iff, List.infix_cons_iff, List.cons_prefix_cons,
      slashed_prefix_iff h, hcons, slash_infix_append_iff name.noSlash, ih]
    simp

/-! ### Patterns for directories -/

/-- A pattern for a directory, without wildcards. -/
structure DirectoryPattern where
  /-- The components of the directory. -/
  directory : List Component
  /-- There is at least one. -/
  ne_nil : directory ≠ []
  /-- There are no wildcards. -/
  isPlain : ∀ name ∈ directory, ∀ c ∈ name.chars, c ∉ Glob.wildcards
  /-- The number of slashes at the end. -/
  slashes : Nat
  /-- There is at least one. -/
  slashes_pos : 0 < slashes

namespace DirectoryPattern

variable (p : DirectoryPattern)

/-- The pattern as it is written. -/
def chars : List Char := joined p.directory ++ List.replicate p.slashes '/'

/-- The pattern as it is written. -/
def text : String := String.ofList p.chars

theorem getLast?_chars : p.chars.getLast? = some '/' := by
  have hne : List.replicate p.slashes '/' ≠ [] := by simpa using Nat.ne_of_gt p.slashes_pos
  rw [chars, List.getLast?_append_of_ne_nil _ hne, List.getLast?_replicate,
    if_neg (Nat.ne_of_gt p.slashes_pos)]

theorem head?_chars : p.chars.head? ≠ some '/' := by
  rw [chars, List.head?_append_of_ne_nil _ (joined_ne_nil p.ne_nil)]
  exact (joined_ends p.directory).1

theorem chars_plain : ∀ c ∈ p.chars, c ∉ Glob.wildcards := by
  have hslash : '/' ∉ Glob.wildcards := by decide
  intro c hc
  rw [chars, List.mem_append] at hc
  rcases hc with hc | hc
  · have hmem : c ∈ slashed p.directory := by
      rw [slashed_eq p.ne_nil]
      exact List.mem_append_left _ hc
    obtain ⟨name, hname, hc⟩ := List.mem_flatMap.mp hmem
    rcases List.mem_append.mp hc with hc | hc
    · exact p.isPlain name hname c hc
    · exact List.mem_singleton.mp hc ▸ hslash
  · exact List.eq_of_mem_replicate hc ▸ hslash

theorem directoryPart_chars : directoryPart p.chars = joined p.directory := by
  have hlast := (joined_ends p.directory).2
  have hdrop :
      (joined p.directory).reverse.dropWhile (· == '/') = (joined p.directory).reverse := by
    rw [← List.head?_reverse] at hlast
    cases hchars : (joined p.directory).reverse with
    | nil => rfl
    | cons c cs =>
      rw [hchars, List.head?_cons] at hlast
      exact List.dropWhile_cons_of_neg (by simpa using hlast)
  rw [directoryPart, chars, List.reverse_append, List.reverse_replicate,
    List.dropWhile_append_of_pos (by simp), hdrop, List.reverse_reverse]

end DirectoryPattern

/-- No path name of components is a pattern for directories. -/
theorem ne_chars (p : DirectoryPattern) (isAbsolute : Bool) (names : List Component) :
    (pathName isAbsolute names).toList ≠ p.chars := by
  intro heq
  rw [pathName, String.toList_ofList] at heq
  have hhead := p.head?_chars
  have hlast := p.getLast?_chars
  rw [← heq] at hhead hlast
  cases isAbsolute with
  | true => exact hhead rfl
  | false => exact (joined_ends names).2 hlast

/-- The exclusions by name add nothing. -/
theorem not_matchesName (p : DirectoryPattern) (isAbsolute : Bool) (names : List Component) :
    (Glob.parse? p.text).any (matchesName · (pathName isAbsolute names)) = false := by
  obtain ⟨glob, hglob, haccepts⟩ := Glob.accepts_plain p.chars_plain
  have hpath : glob.accepts (pathName isAbsolute names).toList = false :=
    Bool.eq_false_iff.mpr fun h => ne_chars p isAbsolute names ((haccepts _).mp h)
  have hfile : (Path.fileName? (pathName isAbsolute names)).any
      (fun name => glob.accepts name.toList) = false := by
    cases hname : Path.fileName? (pathName isAbsolute names) with
    | none => rfl
    | some name =>
      refine Bool.eq_false_iff.mpr fun h => Path.notMem_of_fileName? hname ?_
      rw [(haccepts _).mp h]
      exact List.mem_of_getLast? p.getLast?_chars
  rw [DirectoryPattern.text, hglob, Option.any_some, matchesName, hpath, hfile]
  rfl

/-- With a slash in front of the path name, the two places where a directory is looked for are
one. -/
theorem leadsThrough_iff {directory : List Char} (h : directory.head? ≠ some '/')
    (hne : directory ≠ []) (isAbsolute : Bool) (names : List Component) :
    leadsThrough directory (pathName isAbsolute names).toList = true ↔
      '/' :: (directory ++ ['/']) <:+: '/' :: joined names := by
  have hin : ∀ path : List Char, Text.occursIn ('/' :: directory ++ ['/']) path = true ↔
      '/' :: (directory ++ ['/']) <:+: path := by
    intro path
    rw [Text.occursIn_iff]
    exact exists_congr fun left => exists_congr fun right => eq_comm
  rw [leadsThrough, Bool.or_eq_true, hin, List.isPrefixOf_iff_prefix, pathName,
    String.toList_ofList]
  cases isAbsolute with
  | true =>
    -- A path name from the root has its slash already.
    have hprefix : ¬ directory ++ ['/'] <+: '/' :: joined names := by
      obtain ⟨c, cs, rfl⟩ := List.exists_cons_of_ne_nil hne
      rw [List.head?_cons] at h
      simp [List.cons_prefix_cons, show c ≠ '/' by simpa using h]
    exact or_iff_left hprefix
  | false =>
    simp [List.infix_cons_iff, List.cons_prefix_cons, or_comm]

/-! ### Main result -/

/-- **Exclusion by directories.**  Patterns for directories exclude a path name iff for one of them
the components of the directory are a run of components of the path name that ends before the last
one. -/
theorem anyExcludes_iff (patterns : List DirectoryPattern) (isAbsolute : Bool)
    (names : List Component) :
    anyExcludes (patterns.map (·.text)) (pathName isAbsolute names) = true ↔
      ∃ p ∈ patterns, ∃ front back, names = front ++ p.directory ++ back ∧ back ≠ [] := by
  rw [anyExcludes, List.any_map, List.any_eq_true]
  refine exists_congr fun p => and_congr_right fun _ => ?_
  have hhead := (joined_ends p.directory).1
  have hne := joined_ne_nil p.ne_nil
  have hforDirectories : isForDirectories p.text.toList = true := by
    rw [DirectoryPattern.text, String.toList_ofList, isForDirectories, p.getLast?_chars]
    rfl
  rw [Function.comp_apply, excludes, not_matchesName, Bool.false_or, hforDirectories, Bool.true_and,
    DirectoryPattern.text, String.toList_ofList, p.directoryPart_chars, leadsThrough_iff hhead hne,
    ← slashed_eq p.ne_nil]
  rcases eq_nil_or_concat names with rfl | ⟨above, last, rfl⟩
  · -- Without components, there is nothing to exclude.
    have hlen : ¬ '/' :: slashed p.directory <:+: '/' :: joined [] := fun h => by
      have hle := h.length_le
      rw [slashed_eq p.ne_nil] at hle
      simp [joined] at hle
    simp only [hlen, false_iff, not_exists, not_and]
    intro front back heq hback
    exact hback (List.append_eq_nil_iff.mp heq.symm).2
  · rw [joined_concat, slashed_infix_iff last.noSlash]
    constructor
    · rintro ⟨front, back, rfl⟩
      exact ⟨front, back ++ [last], by simp, by simp⟩
    · rintro ⟨front, back, heq, hback⟩
      obtain ⟨back, other, rfl⟩ := (eq_nil_or_concat back).resolve_left hback
      rw [← List.append_assoc] at heq
      exact ⟨front, back, (List.append_inj' heq rfl).1.symm⟩

end Exclusion

end CApiUpgrade
