import CApiUpgrade.Proofs.InPlace
import Mathlib.Tactic.Common

/-!
# The three modes of a run

A run in place, one to the standard output and one that prints differences are three ways to deliver
the same texts.  `perform_modes_agree` compares them: the last two change no file, the second one
prints what the files contain after the first, the third one prints the differences for the files
that the first one rewrites, and all three end with the same status.

A run in place changes the store in which the later path names are looked up.  What it finds there
is what it would have found at the start (`Discovery.discover_congr`): the same files, in the same
order.
-/

namespace CApiUpgrade

open Store

/-- The source files that a path name stands for, with those that a pattern keeps out. -/
def Discovered.found : Discovered → List String
  | sources files excluded => files ++ excluded
  | _ => []

namespace Discovery

variable {s t : Store} {path : String} {start : Location}

theorem isSources_ofFiles {exclude files : List String} :
    (ofFiles exclude files).isSources = true ↔ files ≠ [] := by
  cases files <;> simp [ofFiles, Discovered.isSources]

theorem mem_found_ofFiles {exclude files : List String} {file : String} :
    file ∈ (ofFiles exclude files).found ↔ file ∈ files := by
  cases files with
  | nil => simp [ofFiles, Discovered.found]
  | cons first rest =>
    simp only [ofFiles, Discovered.found, List.mem_append, List.mem_filter]
    cases Exclusion.anyExcludes exclude file <;> simp

/-- Every file that is found, excluded or not, is reached without links in a store, and it is a file
there and in another one. -/
def Steady (s t : Store) (d : Discovered) : Prop :=
  ∀ file ∈ d.found, ∃ loc bytes mode bytes' mode', s.Reaches file loc ∧
    s.node? loc = some (.file bytes mode) ∧ t.node? loc = some (.file bytes' mode')

/-- What stands for source files in one store stands for the same files in the other. -/
theorem files_eq_of_isSources {exclude : List String} (hst : s.SameDirectories t)
    (hs : s.Proper ∧ (s.entries.map Prod.fst).Nodup)
    (ht : t.Proper ∧ (t.entries.map Prod.fst).Nodup)
    (h : Steady s t (discover s exclude path)) (h' : Steady t s (discover t exclude path))
    (hsources : (discover s exclude path).isSources = true) :
    discover t exclude path = discover s exclude path := by
  cases hstat : s.stat path with
  | error e => simp [discover_of_error hstat, Discovered.isSources] at hsources
  | ok place =>
    obtain ⟨start, node⟩ := place
    by_cases hdir : node = .directory
    · subst hdir
      rw [discover_of_directory hstat] at hsources h ⊢
      rw [isSources_ofFiles, sourceFiles_eq_map] at hsources
      have hskip : isSkippedStart s path = false := by
        by_contra hskip
        simp [Bool.of_not_eq_false hskip] at hsources
      -- One file is enough to find the directory in the other store.
      have hway : ∀ names ∈ sourceWays s path start, t.stat path = .ok (start, .directory) ∧
          isSkippedStart t path = false ∧ names ∈ sourceWays t path start := by
        intro names hnames
        have hfile : names.foldl Path.join path ∈ sourceFiles s path start := by
          rw [sourceFiles_eq_map, hskip]
          exact List.mem_map_of_mem hnames
        obtain ⟨loc, _, _, _, _, hreach, -, hnode⟩ := h _ (mem_found_ofFiles.mpr hfile)
        exact mem_sourceWays_congr hst hs.1 hstat hskip hnames hreach hnode
      obtain ⟨hstat', hskip'⟩ : t.stat path = .ok (start, .directory) ∧
          isSkippedStart t path = false := by
        rw [hskip] at hsources
        obtain ⟨names, hnames⟩ :=
          List.exists_mem_of_ne_nil _ (mt (List.map_eq_nil_iff.mpr) hsources)
        exact ⟨(hway names hnames).1, (hway names hnames).2.1⟩
      rw [discover_of_directory hstat'] at h' ⊢
      have hback : ∀ names ∈ sourceWays t path start, names ∈ sourceWays s path start := by
        intro names hnames
        have hfile : names.foldl Path.join path ∈ sourceFiles t path start := by
          rw [sourceFiles_eq_map, hskip']
          exact List.mem_map_of_mem hnames
        obtain ⟨loc, _, _, _, _, hreach, -, hnode⟩ := h' _ (mem_found_ofFiles.mpr hfile)
        exact (mem_sourceWays_congr hst.symm ht.1 hstat' hskip' hnames hreach hnode).2.2
      have hways : sourceWays s path start = sourceWays t path start := by
        simpa using sourceWays_congr hs.2 ht.2 (fun _ => true) fun names _ =>
          ⟨fun h => (hway names h).2.2, hback names⟩
      rw [sourceFiles_eq_map, sourceFiles_eq_map, hskip, hskip', hways]
    · rw [discover_of_file hstat hdir] at h ⊢
      obtain ⟨loc, _, _, bytes', mode', hreach, -, hnode⟩ := h path (by simp [Discovered.found])
      exact discover_of_file ((hreach.congr hst).stat_eq hnode (by simp)) (by simp) exclude

/-- **Finding all files again.**  If all files that are found in either of two stores with the same
directories are reached without links and are files in both, a path name stands for the same files
in both, in the same order. -/
theorem discover_congr {exclude : List String} (hst : s.SameDirectories t)
    (hs : s.Proper ∧ (s.entries.map Prod.fst).Nodup)
    (ht : t.Proper ∧ (t.entries.map Prod.fst).Nodup)
    (h : Steady s t (discover s exclude path)) (h' : Steady t s (discover t exclude path)) :
    (discover t exclude path).files = (discover s exclude path).files ∧
      (discover t exclude path).isSources = (discover s exclude path).isSources := by
  have hnone : ∀ d : Discovered, d.isSources = false → d.files = [] := by
    intro d hd
    cases d <;> simp_all [Discovered.isSources, Discovered.files]
  cases hsources : (discover s exclude path).isSources with
  | true =>
    rw [files_eq_of_isSources hst hs ht h h' hsources]
    exact ⟨rfl, hsources⟩
  | false =>
    have hsources' : (discover t exclude path).isSources = false := by
      by_contra hne
      have heq := files_eq_of_isSources hst.symm ht hs h' h (Bool.of_not_eq_false hne)
      rw [← heq, hsources] at hne
      exact hne rfl
    rw [hnone _ hsources, hnone _ hsources']
    exact ⟨rfl, hsources'⟩

/-- A path name that stands for something; a directory has a source file below it, in no directory
of a skipped name. -/
def Supplies (s : Store) (path : String) : Prop :=
  ∃ start node, s.stat path = .ok (start, node) ∧ (node = .directory →
    isSkippedStart s path = false ∧ ∃ names node, names ≠ [] ∧ (start ++ names, node) ∈ s.entries ∧
      skippedName ∉ names.dropLast ∧ s.isFile (names.foldl Path.join path) = true ∧
      isSourceName (names.foldl Path.join path) = true)

theorem isSources_discover {exclude : List String} :
    (discover s exclude path).isSources = true ↔ Supplies s path := by
  unfold Supplies
  cases hstat : s.stat path with
  | error e => simp [discover_of_error hstat, Discovered.isSources]
  | ok place =>
    obtain ⟨start, node⟩ := place
    by_cases hdir : node = .directory
    · subst hdir
      rw [discover_of_directory hstat, isSources_ofFiles, sourceFiles_eq_map]
      constructor
      · intro h
        have hskip : isSkippedStart s path = false := by
          by_contra hskip
          simp [Bool.of_not_eq_false hskip] at h
        rw [hskip] at h
        obtain ⟨names, hnames⟩ := List.exists_mem_of_ne_nil _ (mt List.map_eq_nil_iff.mpr h)
        obtain ⟨hbelow, hskipped, hfile, hname⟩ := mem_sourceWays.mp hnames
        obtain ⟨hne, node, hmem⟩ := mem_below.mp hbelow
        exact ⟨start, .directory, rfl, fun _ => ⟨hskip, names, node, hne, hmem,
          of_decide_eq_false hskipped, hfile, hname⟩⟩
      · rintro ⟨start', node', heq, h⟩
        obtain ⟨rfl, rfl⟩ := Prod.mk.inj (Except.ok.inj heq)
        obtain ⟨hskip, names, node, hne, hmem, hskipped, hfile, hname⟩ := h rfl
        have hnames : names ∈ sourceWays s path start := mem_sourceWays.mpr
          ⟨mem_below.mpr ⟨hne, node, hmem⟩, decide_eq_false hskipped, hfile, hname⟩
        rw [hskip]
        exact List.ne_nil_of_mem (List.mem_map_of_mem hnames)
    · rw [discover_of_file hstat hdir]
      exact ⟨fun _ => ⟨start, node, rfl, fun h => absurd h hdir⟩, fun _ => rfl⟩

end Discovery

/-! ### Contents -/

/-- The content of the file at a location. -/
def Store.contentAt (s : Store) (loc : Location) : ByteArray :=
  match s.node? loc with
  | some (.file bytes _) => bytes
  | _ => .empty

/-- A text is told by its bytes. -/
theorem Encoding.encode_inj {text text' : List Char} {encoding : Encoding} {bytes : ByteArray}
    (h : encode text encoding = .ok bytes) (h' : encode text' encoding = .ok bytes) :
    text = text' := by
  cases encoding with
  | utf8 =>
    have heq := Except.ok.inj (h.trans h'.symm)
    rw [String.toUTF8_eq_toByteArray, String.toUTF8_eq_toByteArray, String.toByteArray_inj] at heq
    simpa using congrArg String.toList heq
  | latin1 => rw [eq_map_of_encode_latin1 h, eq_map_of_encode_latin1 h']

/-! ### Runs in different modes -/

namespace Job

variable {job : Job} {s : Store}

/-- Only a run in place changes files. -/
theorem foldl_visit_of_ne_inPlace (h : job.mode ≠ .inPlace) (locs : List Location) :
    locs.foldl job.visit s = s := by
  induction locs with
  | nil => rfl
  | cons d rest ih =>
    have hvisit : job.visit s d = s := by
      unfold visit
      split
      · exact absurd ‹_› h
      · rfl
    rw [List.foldl_cons, hvisit, ih]

/-- The content of a file after its visit in place. -/
theorem contentAt_visit (hmode : job.mode = .inPlace) {loc : Location} (hloc : loc ≠ [])
    {bytes : ByteArray} {mode : Nat} (hnode : s.node? loc = some (.file bytes mode)) :
    (job.visit s loc).contentAt loc = (job.newBytes? bytes).getD bytes := by
  rw [contentAt, visit]
  simp only [hmode, hnode]
  cases job.newBytes? bytes with
  | none => simp [hnode]
  | some new =>
    dsimp only
    split_ifs
    · rw [node?_swap hloc, if_pos rfl]
      rfl
    · rw [node?_amend hloc, isSame_self, if_pos rfl, hnode]
      rfl

/-- The same job in another mode.  A run that prints is quiet otherwise. -/
def inMode (job : Job) (mode : OutputMode) : Job :=
  { job with mode, quiet := job.quiet || mode != .inPlace }

/-- A run can be made in each mode: whatever the mode, it can deal with the files that it visits one
after another, and every file that it finds, excluded or not, is reached without links. -/
structure Comparable (job : Job) (p : Progress) (paths : List String)
    (vs : OutputMode → List Visit) : Prop where
  /-- The visited files. -/
  visits : ∀ mode, ((job.inMode mode).lookups p paths).flatMap Discovered.files =
    (vs mode).map Visit.path
  /-- The run can deal with them. -/
  orderly : ∀ mode, (job.inMode mode).Orderly p.store (vs mode)
  /-- No link is on the way to a file that is found. -/
  found : ∀ mode, ∀ d ∈ (job.inMode mode).lookups p paths, ∀ file ∈ d.found,
    ∃ loc bytes bits, p.store.Reaches file loc ∧ p.store.node? loc = some (.file bytes bits)

section Compare

variable {selection : String} {p : Progress} {paths : List String} {vs : OutputMode → List Visit}

/-- What a path name stands for at the start, a run to the standard output finds at its turn. -/
theorem Comparable.discover_mem (h : job.Comparable p paths vs)
    (hrules : Catalog.all.select selection = .ok job.rules) {path : String} (hpath : path ∈ paths) :
    discover p.store job.exclude path ∈ (job.inMode .stdout).lookups p paths := by
  have hturns := @forall₂_lookups (job.inMode .stdout) p.store selection p [] _ paths hrules
    (h.orderly .stdout) rfl (h.visits .stdout)
  obtain ⟨⟨i, hi⟩, rfl⟩ := List.mem_iff_get.mp hpath
  have hi' : i < ((job.inMode .stdout).lookups p paths).length := hturns.length_eq ▸ hi
  obtain ⟨us, -, hfound⟩ := hturns.get hi hi'
  have hmode : (job.inMode .stdout).mode ≠ .inPlace := by simp [inMode]
  rw [foldl_visit_of_ne_inPlace hmode] at hfound
  exact hfound ▸ List.get_mem _ ⟨i, hi'⟩

/-- **Lookups agree.**  In every mode a path name stands for what it stands for at the start. -/
theorem Comparable.lookups_eq (h : job.Comparable p paths vs)
    (hrules : Catalog.all.select selection = .ok job.rules) (hproper : p.store.Proper)
    (hnodup : (p.store.entries.map Prod.fst).Nodup) (mode : OutputMode) :
    ((job.inMode mode).lookups p paths).map (fun d => (d.files, d.isSources)) =
      paths.map fun path => ((discover p.store job.exclude path).files,
        (discover p.store job.exclude path).isSources) := by
  have hturns := @forall₂_lookups (job.inMode mode) p.store selection p [] _ paths hrules
    (h.orderly mode) rfl (h.visits mode)
  refine List.ext_get (by simpa using hturns.length_eq.symm) fun i hi hi' => ?_
  rw [List.length_map] at hi hi'
  obtain ⟨us, hus, hfound⟩ := hturns.get hi' hi
  simp only [List.get_eq_getElem, List.getElem_map]
  rw [List.get_eq_getElem, List.get_eq_getElem] at hfound
  have hmem := List.getElem_mem hi
  have hpath := List.getElem_mem hi'
  rw [hfound] at hmem ⊢
  -- The directories are those of the start, and files are still files.
  have hsub : us ⊆ vs mode := by simpa using hus.subset
  have hfilled := (h.orderly mode).filled hsub
  have hdirs := hfilled.toSameDirectories
  let t := (us.map Visit.loc).foldl (job.inMode mode).visit p.store
  have hfile : ∀ {loc : Location} {bytes : ByteArray} {bits : Nat},
      p.store.node? loc = some (.file bytes bits) →
        ∃ bytes bits, t.node? loc = some (.file bytes bits) := hfilled.isFile
  have hsteady : Discovery.Steady p.store t (discover p.store job.exclude paths[i]) := by
    intro file hfound
    obtain ⟨loc, bytes, bits, hreach, hnode⟩ :=
      h.found .stdout _ (h.discover_mem hrules hpath) file hfound
    obtain ⟨bytes', bits', hnode'⟩ := hfile hnode
    exact ⟨loc, bytes, bits, bytes', bits', hreach, hnode, hnode'⟩
  have hsteady' : Discovery.Steady t p.store (discover t job.exclude paths[i]) := by
    intro file hfound
    obtain ⟨loc, bytes, bits, hreach, hnode⟩ := h.found mode _ hmem file hfound
    obtain ⟨bytes', bits', hnode'⟩ := hfile hnode
    exact ⟨loc, bytes', bits', bytes, bits, hreach.congr hdirs, hnode', hnode⟩
  obtain ⟨hfiles, hsources⟩ := Discovery.discover_congr hdirs ⟨hproper, hnodup⟩
    ⟨(h.orderly mode).proper hsub hproper, nodup_entries_foldl_visit hnodup _⟩ hsteady hsteady'
  exact Prod.ext hfiles hsources

/-- In every mode the same files are visited, in the same order. -/
theorem Comparable.visits_eq (h : job.Comparable p paths vs)
    (hrules : Catalog.all.select selection = .ok job.rules) (hproper : p.store.Proper)
    (hnodup : (p.store.entries.map Prod.fst).Nodup) (mode mode' : OutputMode) :
    vs mode = vs mode' := by
  have hpaths : ∀ m, (vs m).map Visit.path =
      paths.flatMap fun path => (discover p.store job.exclude path).files := by
    intro m
    rw [← h.visits m]
    have hmap := congrArg (·.flatMap Prod.fst) (h.lookups_eq hrules hproper hnodup m)
    simpa [List.flatMap_map] using hmap
  have hunique : ∀ us ws : List Visit, us.map Visit.path = ws.map Visit.path →
      (∀ v ∈ us, p.store.Reaches v.path v.loc) → (∀ v ∈ ws, p.store.Reaches v.path v.loc) →
      us = ws := by
    intro us
    induction us with
    | nil => exact fun ws hws _ _ => (List.map_eq_nil_iff.mp hws.symm).symm
    | cons u us ih =>
      intro ws hws hu hw
      cases ws with
      | nil => simp at hws
      | cons w ws =>
        obtain ⟨hpath, hrest⟩ := List.cons.inj hws
        have hloc : u.loc = w.loc :=
          (hu u List.mem_cons_self).unique (hpath ▸ hw w List.mem_cons_self)
        obtain rfl : u = w := by
          cases u
          cases w
          simp_all
        rw [ih ws hrest (fun v hv => hu v (List.mem_cons_of_mem _ hv))
          fun v hv => hw v (List.mem_cons_of_mem _ hv)]
  exact hunique _ _ ((hpaths mode).trans (hpaths mode').symm) (h.orderly mode).reached
    (h.orderly mode').reached

/-- What a visited file contains at the start and after the run in place. -/
theorem Comparable.contentAt_perform (h : job.Comparable p paths vs)
    (hrules : Catalog.all.select selection = .ok job.rules) {v : Visit} (hv : v ∈ vs .inPlace) :
    let after := ((job.inMode .inPlace).perform p paths).store
    ∃ bytes bits o, p.store.node? v.loc = some (.file bytes bits) ∧
      p.store.contentAt v.loc = bytes ∧
      patch job.rules job.insertHeader (Encoding.decode bytes).1 = .ok o ∧
      Encoding.encode o.text (Encoding.decode bytes).2 = .ok (after.contentAt v.loc) ∧
      after.contentAt v.loc = (job.newBytes? bytes).getD bytes := by
  intro after
  obtain ⟨bytes, bits, hfile⟩ := (h.orderly .inPlace).accepted v hv
  obtain ⟨o, ho⟩ := hfile.patched
  obtain ⟨new, hnew, -, -, hgetD⟩ := newBytes?_eq hrules ho
  have hend := (@perform_eq (job.inMode .inPlace) selection p (vs .inPlace) hrules
    (h.orderly .inPlace) paths (h.visits .inPlace)).1
  have hafter : after.node? v.loc = ((job.inMode .inPlace).visit p.store v.loc).node? v.loc :=
    (congrArg (·.node? v.loc) hend).trans ((h.orderly .inPlace).node?_of_mem hv (.inl rfl))
  have hvisit := @contentAt_visit (job.inMode .inPlace) p.store rfl _
    ((h.orderly .inPlace).reached v hv).ne_nil _ _ hfile.node
  rw [contentAt, ← hafter, ← contentAt] at hvisit
  have hsame : after.contentAt v.loc = new := hvisit.trans hgetD.symm
  exact ⟨bytes, bits, o, hfile.node, by rw [contentAt, hfile.node], ho, hsame ▸ hnew, hvisit⟩

/-- What is printed for a file is its content after the run in place. -/
theorem Comparable.prints_stdout (h : job.Comparable p paths vs)
    (hrules : Catalog.all.select selection = .ok job.rules) {v : Visit} (hv : v ∈ vs .inPlace) :
    (job.inMode .stdout).prints p.store v =
      ((job.inMode .inPlace).perform p paths).store.contentAt v.loc := by
  obtain ⟨bytes, bits, o, hnode, -, -, -, hafter⟩ := h.contentAt_perform hrules hv
  rw [hafter, prints, hnode]
  rfl

/-- The text of a file after its patch. -/
def textAfter (job : Job) (bytes : ByteArray) : List Char :=
  ((patch job.rules job.insertHeader (Encoding.decode bytes).1).toOption.map (·.text)).getD []

theorem textAfter_eq {bytes : ByteArray} {o : PatchOutcome}
    (h : patch job.rules job.insertHeader (Encoding.decode bytes).1 = .ok o) :
    job.textAfter bytes = o.text := by
  simp only [textAfter, h, Except.toOption, Option.map_some, Option.getD_some]

/-- Differences are printed for a file iff the run in place changes its content. -/
theorem Comparable.prints_diff (h : job.Comparable p paths vs)
    (hrules : Catalog.all.select selection = .ok job.rules) {v : Visit} (hv : v ∈ vs .inPlace) :
    let before := p.store.contentAt v.loc
    (job.inMode .diff).prints p.store v =
      if (((job.inMode .inPlace).perform p paths).store.contentAt v.loc).data = before.data
        then .empty
      else (String.ofList (Diff.unified v.path (Encoding.decode before).1
        (job.textAfter before))).toUTF8 := by
  intro before
  obtain ⟨bytes, bits, o, hnode, rfl, ho, hencode, hafter⟩ := h.contentAt_perform hrules hv
  obtain ⟨new, hnew, htext, hbytes, -⟩ := newBytes?_eq hrules ho
  have hprinted : (job.inMode .diff).prints p.store v =
      (job.newText? before).elim .empty fun text =>
        (String.ofList (Diff.unified v.path (Encoding.decode before).1 text)).toUTF8 := by
    rw [prints, hnode]
    rfl
  rw [hprinted, htext, textAfter_eq ho]
  by_cases hsame : o.text = (Encoding.decode before).1
  · rw [if_pos hsame, Option.elim_none, hafter, hbytes, if_pos hsame, Option.getD_none, if_pos rfl]
  · -- The content is the same only if the text is.
    rw [if_neg hsame, Option.elim_some, if_neg fun hdata => hsame ?_]
    rw [ByteArray.ext hdata] at hencode
    exact Encoding.encode_inj hencode (Encoding.encode_decode before)

/-- Every path name supplies a source file at its turn iff it does at the start. -/
theorem Comparable.isSources_iff (h : job.Comparable p paths vs)
    (hrules : Catalog.all.select selection = .ok job.rules) (hproper : p.store.Proper)
    (hnodup : (p.store.entries.map Prod.fst).Nodup) (mode : OutputMode) :
    (∀ d ∈ (job.inMode mode).lookups p paths, d.isSources = true) ↔
      ∀ path ∈ paths, Discovery.Supplies p.store path := by
  have hmap := congrArg (fun l => l.all (·.2)) (h.lookups_eq hrules hproper hnodup mode)
  simp only [List.all_map, Function.comp_def] at hmap
  rw [← List.all_eq_true, hmap, List.all_eq_true]
  simp only [Discovery.isSources_discover]

end Compare

end Job

/-- **The three modes agree.**  A run to the standard output and one that prints differences change
no file.  The first prints what the visited files contain after a run in place, in the order of the
visits.  The second prints the differences for those of them whose content that run changes.  All
three succeed if every path name stands for something and every directory among them has a source
file, and fail otherwise. -/
theorem perform_modes_agree {selection : String} {job : Job} {p : Progress} {paths : List String}
    {vs : OutputMode → List Visit} (hrules : Catalog.all.select selection = .ok job.rules)
    (hproper : p.store.Proper) (hnodup : (p.store.entries.map Prod.fst).Nodup)
    (hstart : p.summary.warnings = 0) (h : job.Comparable p paths vs) :
    let result (mode : OutputMode) := (job.inMode mode).perform p paths
    let after := (result .inPlace).store
    (result .stdout).store = p.store ∧ (result .diff).store = p.store ∧
    (result .stdout).out =
      (vs .inPlace).foldl (fun out v => out ++ after.contentAt v.loc) p.out ∧
    (∃ newText : Visit → List Char,
      (∀ v ∈ vs .inPlace,
        Encoding.encode (newText v) (Encoding.decode (p.store.contentAt v.loc)).2 =
          .ok (after.contentAt v.loc)) ∧
      (result .diff).out = (vs .inPlace).foldl (fun out v =>
        if (after.contentAt v.loc).data = (p.store.contentAt v.loc).data then out
        else out ++ (String.ofList (Diff.unified v.path
          (Encoding.decode (p.store.contentAt v.loc)).1 (newText v))).toUTF8) p.out) ∧
    ∀ mode, (result mode).status = .success ↔
      ∀ path ∈ paths, Discovery.Supplies p.store path := by
  intro result after
  have hend := fun mode =>
    @Job.perform_eq (job.inMode mode) selection p (vs mode) hrules (h.orderly mode) paths
      (h.visits mode)
  have hidle : ∀ mode ≠ .inPlace, (result mode).store = p.store := fun mode hmode =>
    (hend mode).1.trans (Job.foldl_visit_of_ne_inPlace hmode _)
  refine ⟨hidle .stdout (by simp), hidle .diff (by simp), ?_,
    ⟨fun v => job.textAfter (p.store.contentAt v.loc), fun v hv => ?_, ?_⟩, fun mode => ?_⟩
  · rw [(hend .stdout).2.1, h.visits_eq hrules hproper hnodup .stdout .inPlace]
    exact List.foldl_ext _ _ _ fun out v hv => by rw [h.prints_stdout hrules hv]
  · obtain ⟨bytes, bits, o, -, rfl, ho, hencode, -⟩ := h.contentAt_perform hrules hv
    dsimp only
    rwa [Job.textAfter_eq ho]
  · rw [(hend .diff).2.1, h.visits_eq hrules hproper hnodup .diff .inPlace]
    refine List.foldl_ext _ _ _ fun out v hv => ?_
    rw [h.prints_diff hrules hv]
    by_cases hsame : (after.contentAt v.loc).data = (p.store.contentAt v.loc).data
    · rw [if_pos hsame, if_pos hsame, ByteArray.append_empty]
    · rw [if_neg hsame, if_neg hsame]
  · rw [(hend mode).2.2, hstart, h.isSources_iff hrules hproper hnodup mode]
    simp only [true_and]

/-- A file that changes, after a directory with one that does not. -/
theorem perform_modes_agree_two :
    let job : Job := { rules := [Catalog.readType] }
    let store : Store := { entries := [(["a.c"], .file "x = o->ob_type;".toUTF8 0o600),
      (["d"], .directory), (["d", "b.h"], .file "int x;".toUTF8 0o644)] }
    let vs : List Visit := [⟨"d/b.h", ["d", "b.h"]⟩, ⟨"a.c", ["a.c"]⟩]
    let result (mode : OutputMode) := (job.inMode mode).perform { store } ["d", "a.c"]
    job.Comparable { store } ["d", "a.c"] (fun _ => vs) ∧ (result .stdout).store = store ∧
      (result .stdout).out =
        vs.foldl (fun out v => out ++ (result .inPlace).store.contentAt v.loc) .empty ∧
      ∀ mode, (result mode).status = .success ↔
        ∀ path ∈ ["d", "a.c"], Discovery.Supplies store path := by
  intro job store vs result
  have hbase : ∀ path, store.base path = [] := fun path => ite_self []
  have hpatch : patch job.rules true (Encoding.decode "x = o->ob_type;".toUTF8).1 =
      .ok ⟨"x = Py_TYPE(o);".toList, ["Py_TYPE"], false⟩ :=
    Evaluation.patch_eq_ok (by decide +kernel)
  have hsame : patch job.rules true (Encoding.decode "int x;".toUTF8).1 =
      .ok ⟨"int x;".toList, [], false⟩ :=
    Evaluation.patch_eq_ok (by decide +kernel)
  have hreached : ∀ v ∈ vs, store.Reaches v.path v.loc := by
    intro v hv
    rcases List.mem_pair.mp hv with rfl | rfl
    · refine ⟨by decide, ["d"], ["d"], "b.h", by decide +kernel, by decide, by decide, ?_, rfl⟩
      rw [hbase]
      exact .down (by decide) (by decide) rfl (.here _)
    · exact Store.reaches_of_steps (by decide) (by decide +kernel) (by decide) (by decide)
  have hcomparable : job.Comparable { store } ["d", "a.c"] (fun _ => vs) := by
    refine ⟨fun mode => ?_, fun mode =>
      ⟨hreached, ?_, by decide, by decide +kernel, by simp [job, Job.inMode]⟩,
      fun mode d hd file hfile => ?_⟩
    · cases mode <;> decide +kernel
    · intro v hv
      rcases List.mem_pair.mp hv with rfl | rfl
      · exact ⟨_, _, rfl, rfl, ⟨_, hsame⟩,
          (fun hdir => nomatch (hdir : (none : Option Node) = some .directory)),
          fun _ _ _ => ⟨by decide, by decide, rfl, rfl, rfl, rfl, rfl⟩, by simp [job, Job.inMode]⟩
      · exact ⟨_, _, rfl, rfl, ⟨_, hpatch⟩,
          (fun hdir => nomatch (hdir : (none : Option Node) = some .directory)),
          fun _ _ _ => ⟨by decide, by decide, rfl, rfl, rfl, rfl, rfl⟩, by simp [job, Job.inMode]⟩
    · have hfound : ((job.inMode mode).lookups { store } ["d", "a.c"]).flatMap Discovered.found =
          vs.map Visit.path := by
        cases mode <;> decide +kernel
      have hmem : file ∈ vs.map Visit.path := hfound ▸ List.mem_flatMap.mpr ⟨d, hd, hfile⟩
      obtain ⟨v, hv, rfl⟩ := List.mem_map.mp hmem
      rcases List.mem_pair.mp hv with rfl | rfl
      · exact ⟨_, _, _, hreached _ hv, rfl⟩
      · exact ⟨_, _, _, hreached _ hv, rfl⟩
  obtain ⟨hstore, -, hout, -, hstatus⟩ := @perform_modes_agree "Py_TYPE" job { store } _ _ rfl
    (proper_of_entries (by decide +kernel)) (by decide) rfl hcomparable
  exact ⟨hcomparable, hstore, hout, hstatus⟩

/-- Without backups, a file that may not be written makes a run in place fail and no other.  With
them, so does a directory that may not be written, and so does a file that may not be written if its
backup is another name of it.  And a link to a backup is found once the backup is there: in a
directory with nothing else to find, this makes a run in place succeed and no other, even if the
link is excluded. -/
theorem modes_disagree :
    let job (keepBackups : Bool) (exclude : List String) : Job :=
      { rules := [Catalog.readType], keepBackups, exclude }
    let disagree (job : Job) (store : Store) (paths : List String) (inPlace other : ExitStatus) :=
      ((job.inMode .inPlace).perform { store } paths).status = inPlace ∧
        ((job.inMode .stdout).perform { store } paths).status = other
    let old (mode : Nat) : Node := .file "x = o->ob_type;".toUTF8 mode
    let closed : Store := { entries := [(["a.c"], old 0o644)], directoryModes := [([], 0o555)] }
    let doubled : Store :=
      { entries := [(["a.c"], old 0o444), (["a.c.old"], old 0o444)]
        numbers := [(["a.c"], 1), (["a.c.old"], 1)] }
    let linked : Store := { entries := [(["a.c"], old 0o644), (["d"], .directory),
      (["d", "x.c"], .link "../a.c.old")] }
    disagree (job false []) { entries := [(["a.c"], old 0o444)] } ["a.c"] .failure .success ∧
      disagree (job true []) closed ["a.c"] .failure .success ∧
      disagree (job true []) doubled ["a.c"] .failure .success ∧
      disagree (job true ["x.c"]) linked ["a.c", "d"] .success .failure := by
  decide +kernel

end CApiUpgrade
