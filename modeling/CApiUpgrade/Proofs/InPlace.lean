import CApiUpgrade.Proofs.Visits
import Mathlib.Data.List.Perm.Basic

/-!
# The files after a run

What a run in place with backups leaves of the files (`perform_inPlace`): every visited file whose
text changes has its new content, and its backup has the old one; everything else is as before.

The files that a run visits are those that it finds at the turn of each path name, in the store that
the files before it left.  Up to contents that store is the one at the start with files in the
places of backups (`Job.filled_foldl_visit`).  If no path name leads to such a place, each path name
stands for the same files at whatever turn it is looked up (`Job.map_files_lookups`), and the order
of the path names does not matter.  It does matter for a link to a backup
(`perform_depends_on_order`).
-/

namespace CApiUpgrade

open Store

/-! ### Stores along a run -/

namespace Store

variable {s : Store}

theorem nodup_entries_insert (h : (s.entries.map Prod.fst).Nodup) (loc : Location) (node : Node) :
    ((s.insert loc node).entries.map Prod.fst).Nodup := by
  rw [insert, List.map_cons, List.nodup_cons]
  refine ⟨fun hmem => ?_, (List.filter_sublist.map Prod.fst).nodup h⟩
  obtain ⟨e, he, heq⟩ := List.mem_map.mp hmem
  simpa [heq] using (List.mem_filter.mp he).2

theorem nodup_entries_erase (h : (s.entries.map Prod.fst).Nodup) (loc : Location) :
    ((s.erase loc).entries.map Prod.fst).Nodup := (List.filter_sublist.map Prod.fst).nodup h

theorem nodup_entries_amend (h : (s.entries.map Prod.fst).Nodup) (loc : Location)
    (change : Node → Node) : ((s.amend loc change).entries.map Prod.fst).Nodup := by
  rwa [amend, List.map_map]

end Store

/-- Where the backup of a visited file goes. -/
def Visit.backup (v : Visit) : Location := backupOf v.loc

namespace Job

variable {job : Job} {s : Store}

theorem nodup_entries_visit (h : (s.entries.map Prod.fst).Nodup) (loc : Location) :
    ((job.visit s loc).entries.map Prod.fst).Nodup := by
  unfold visit
  split
  · split
    · split_ifs
      · exact nodup_entries_insert (nodup_entries_insert (nodup_entries_erase h loc) _ _) _ _
      · exact nodup_entries_amend h _ _
    · exact h
  · exact h

theorem nodup_entries_foldl_visit (h : (s.entries.map Prod.fst).Nodup) (locs : List Location) :
    ((locs.foldl job.visit s).entries.map Prod.fst).Nodup := by
  induction locs generalizing s with
  | nil => exact h
  | cons d rest ih => exact ih (nodup_entries_visit h d)

/-- A visit fills the place of a backup and changes contents, but nothing else. -/
theorem filled_visit {loc : Location} (hloc : loc ≠ [])
    (hbackup : s.node? (backupOf loc) ≠ some .directory) {places : List Location}
    (hplaces : backupOf loc ∈ places) : s.Filled places (job.visit s loc) where
  toSameDirectories := sameDirectories_visit hloc hbackup
  nodes l := by
    unfold visit
    split
    · rename_i bytes mode _ hnode
      split
      · split_ifs
        · rw [node?_swap hloc]
          split_ifs with hself hold
          · rw [hself, hnode]
            exact .inl rfl
          · exact .inr ⟨hold ▸ hplaces, by simp [Node.isFile]⟩
          · exact .inl rfl
        · rw [node?_amend hloc]
          have hblank : ∀ content, Node.blank ∘ Node.withContent content = Node.blank := by
            intro content
            funext node
            cases node <;> rfl
          split_ifs
          · rw [Option.map_map, hblank]
            exact .inl rfl
          · exact .inl rfl
      · exact .inl rfl
    · exact .inl rfl

theorem filled_foldl_visit {locs places : List Location}
    (hlocs : ∀ d ∈ locs, d ≠ [] ∧ s.node? (backupOf d) ≠ some .directory ∧ backupOf d ∈ places) :
    s.Filled places (locs.foldl job.visit s) := by
  induction locs generalizing s with
  | nil => exact .refl s places
  | cons d rest ih =>
    obtain ⟨hd, hbackup, hplaces⟩ := hlocs d List.mem_cons_self
    have hvisit : s.Filled places (job.visit s d) := filled_visit hd hbackup hplaces
    refine hvisit.trans (ih fun e he => ?_)
    obtain ⟨he, hfree, hplace⟩ := hlocs e (List.mem_cons_of_mem d he)
    exact ⟨he, fun h => hfree ((hvisit.directory _).mpr h), hplace⟩

section Run

variable {selection : String} {p : Progress} {done us vs : List Visit} {paths : List String}

/-- The store that some visits leave is the one at the start with files in the places of backups. -/
theorem Orderly.filled (h : job.Orderly s vs) (hus : us ⊆ vs) :
    s.Filled (vs.map Visit.backup) ((us.map Visit.loc).foldl job.visit s) := by
  refine filled_foldl_visit fun d hd => ?_
  obtain ⟨v, hv, rfl⟩ := List.mem_map.mp hd
  obtain ⟨bytes, mode, hfile⟩ := h.accepted v (hus hv)
  exact ⟨(h.reached v (hus hv)).ne_nil, hfile.backup, List.mem_map_of_mem (hus hv)⟩

/-- In the store that some visits leave the entries have names still. -/
theorem Orderly.proper (h : job.Orderly s vs) (hus : us ⊆ vs) (hproper : s.Proper) :
    ((us.map Visit.loc).foldl job.visit s).Proper := by
  refine (h.filled hus).proper hproper fun l hl name hname => ?_
  obtain ⟨v, hv, rfl⟩ := List.mem_map.mp hl
  obtain ⟨bytes, mode, hfile⟩ := h.accepted v hv
  have hnames := hproper v.loc (by simp [hfile.node])
  rw [Visit.backup, backupOf] at hname
  rcases List.mem_append.mp hname with hname | hname
  · exact hnames name (List.mem_of_mem_dropLast hname)
  · rw [List.mem_singleton.mp hname]
    refine Path.IsName.backup (hnames _ ?_)
    rw [List.getLastD_eq_getLast?, List.getLast?_eq_some_getLast (h.reached v hv).ne_nil]
    exact List.getLast_mem _

/-- At its turn, a path name is looked up in the store that some of the visited files have left. -/
theorem forall₂_lookups (hrules : Catalog.all.select selection = .ok job.rules)
    (h : job.Orderly s (done ++ vs)) (hp : p.store = (done.map Visit.loc).foldl job.visit s)
    (hvs : (job.lookups p paths).flatMap Discovered.files = vs.map Visit.path) :
    List.Forall₂ (fun path d => ∃ us, us <+: done ++ vs ∧
      d = discover ((us.map Visit.loc).foldl job.visit s) job.exclude path)
      paths (job.lookups p paths) := by
  induction paths generalizing p done vs with
  | nil => exact .nil
  | cons path rest ih =>
    rw [lookups, List.flatMap_cons] at hvs
    obtain ⟨us, ws, rfl, hus, hws⟩ := List.append_eq_map_iff.mp hvs
    rw [← List.append_assoc] at h ⊢
    obtain ⟨q, hq, hstore, -, -⟩ := patchPath_eq hrules h.left hp hus.symm
    rw [hq] at hws
    rw [lookups, hq]
    refine .cons ⟨done, ?_, by rw [← hp]⟩ (ih h hstore hws.symm)
    rw [List.append_assoc]
    exact List.prefix_append done (us ++ ws)

/-! ### Runs in any order -/

/-- Which files a path name stands for does not change along a run, if it does not lead to the
places of backups. -/
theorem Orderly.files_discover (h : job.Orderly s vs) (hus : us ⊆ vs) (hproper : s.Proper)
    (hnodup : (s.entries.map Prod.fst).Nodup) {path : String}
    (hpath : Discovery.Settled s (vs.map Visit.backup) job.exclude path) :
    (discover ((us.map Visit.loc).foldl job.visit s) job.exclude path).files =
      (discover s job.exclude path).files := by
  refine Discovery.files_discover_of_filled (h.filled hus) (h.proper hus hproper) hnodup
    (nodup_entries_foldl_visit hnodup _) (fun l hl => ?_) hpath
  obtain ⟨v, -, rfl⟩ := List.mem_map.mp hl
  exact ⟨v.loc, rfl⟩

/-- If the files that the path names stand for do not change along a run, each path name is looked
up as at the start. -/
theorem map_files_lookups (hrules : Catalog.all.select selection = .ok job.rules)
    (h : job.Orderly s (done ++ vs)) (hp : p.store = (done.map Visit.loc).foldl job.visit s)
    (hsame : ∀ us ⊆ done ++ vs, ∀ path ∈ paths,
      (discover ((us.map Visit.loc).foldl job.visit s) job.exclude path).files =
        (discover s job.exclude path).files)
    (hvs : paths.flatMap (fun path => (discover s job.exclude path).files) =
      vs.map Visit.path) :
    (job.lookups p paths).map Discovered.files =
      paths.map fun path => (discover s job.exclude path).files := by
  induction paths generalizing p done vs with
  | nil => rfl
  | cons path rest ih =>
    rw [List.flatMap_cons] at hvs
    obtain ⟨us, ws, rfl, hus, hws⟩ := List.append_eq_map_iff.mp hvs
    have hhere : (discover p.store job.exclude path).files =
        (discover s job.exclude path).files :=
      hp ▸ hsame done (List.subset_append_left done _) path List.mem_cons_self
    rw [← List.append_assoc] at h hsame
    obtain ⟨q, hq, hstore, -, -⟩ := patchPath_eq hrules h.left hp (hhere.trans hus.symm)
    rw [lookups, hq, List.map_cons, List.map_cons, hhere]
    exact congrArg _ (ih h hstore
      (fun us hus path hpath => hsame us hus path (List.mem_cons_of_mem _ hpath)) hws.symm)

/-- In another order of the path names the same files are visited, in another order. -/
theorem exists_visits_of_perm (hrules : Catalog.all.select selection = .ok job.rules)
    (h : job.Orderly p.store vs) (hproper : p.store.Proper)
    (hnodup : (p.store.entries.map Prod.fst).Nodup)
    (hvs : (job.lookups p paths).flatMap Discovered.files = vs.map Visit.path)
    (hsettled : ∀ path ∈ paths,
      Discovery.Settled p.store (vs.map Visit.backup) job.exclude path)
    {paths' : List String} (hperm : paths'.Perm paths) :
    ∃ vs' : List Visit, vs'.Perm vs ∧
      (job.lookups p paths').flatMap Discovered.files = vs'.map Visit.path := by
  have hsame : ∀ us ⊆ vs, ∀ path ∈ paths,
      (discover ((us.map Visit.loc).foldl job.visit p.store) job.exclude path).files =
        (discover p.store job.exclude path).files := fun us hus path hpath =>
    h.files_discover hus hproper hnodup (hsettled path hpath)
  have hlookups : (job.lookups p paths).map Discovered.files =
      paths.map fun path => (discover p.store job.exclude path).files := by
    have hturns := @forall₂_lookups job p.store selection p [] vs paths hrules h rfl hvs
    rw [← List.forall₂_eq_eq_eq, List.forall₂_map_left_iff, List.forall₂_map_right_iff]
    refine (List.forall₂_iff_get.mpr ⟨hturns.length_eq.symm, fun i hi hi' => ?_⟩)
    obtain ⟨us, hus, hd⟩ := hturns.get hi' hi
    rw [hd, hsame us hus.subset _ (List.get_mem _ _)]
  -- The visited files are permuted with the path names.
  have hfiles : (paths'.flatMap fun path => (discover p.store job.exclude path).files).Perm
      (vs.map Visit.path) := by
    rw [← hvs, List.flatMap_def, List.flatMap_def, hlookups]
    exact (hperm.map _).flatten
  obtain ⟨vs', hpaths, hperm'⟩ := List.perm_comp_forall₂ (r := fun path v => path = Visit.path v)
    hfiles (List.forall₂_map_left_iff.mpr (List.forall₂_same.mpr fun _ _ => rfl))
  refine ⟨vs', hperm', ?_⟩
  have hvs' : (paths'.flatMap fun path => (discover p.store job.exclude path).files) =
      vs'.map Visit.path := by
    rw [← List.forall₂_eq_eq_eq]
    exact List.forall₂_map_right_iff.mpr hpaths
  have hlookups' : (job.lookups p paths').map Discovered.files =
      paths'.map fun path => (discover p.store job.exclude path).files :=
    @map_files_lookups job p.store selection p [] vs' paths' hrules (h.perm hperm') rfl
      (fun us hus path hpath =>
        hsame us (List.Subset.trans hus hperm'.subset) path (hperm.mem_iff.mp hpath)) hvs'
  rw [List.flatMap_def, hlookups', ← hvs', List.flatMap_def]

/-- Two runs that visit the same files leave the same entries, and every file with the same
names. -/
theorem Orderly.same_of_perm (h : job.Orderly s vs) (hkeep : job.keepBackups = true)
    {vs' : List Visit} (hperm : vs'.Perm vs) (l : Location) :
    ((vs'.map Visit.loc).foldl job.visit s).node? l =
        ((vs.map Visit.loc).foldl job.visit s).node? l ∧
      ((vs'.map Visit.loc).foldl job.visit s).number? l =
        ((vs.map Visit.loc).foldl job.visit s).number? l := by
  have h' := h.perm hperm
  by_cases hl : ∃ v ∈ vs, l = v.loc ∨ l = backupOf v.loc
  · obtain ⟨v, hv, hl⟩ := hl
    have hv' : v ∈ vs' := hperm.mem_iff.mpr hv
    have hl' : l = v.loc ∨ job.keepBackups = true ∧ l = backupOf v.loc :=
      hl.imp_right fun hold => ⟨hkeep, hold⟩
    rw [h.node?_of_mem hv hl', h'.node?_of_mem hv' hl', h.number?_of_mem hkeep hv hl,
      h'.number?_of_mem hkeep hv' hl]
    exact ⟨rfl, rfl⟩
  · have hnone : ∀ v ∈ vs, l ≠ v.loc ∧ l ≠ backupOf v.loc := fun v hv =>
      not_or.mp fun hlv => hl ⟨v, hv, hlv⟩
    have hnone' : ∀ v ∈ vs', l ≠ v.loc ∧ l ≠ backupOf v.loc := fun v hv =>
      hnone v (hperm.mem_iff.mp hv)
    rw [h.node?_of_notMem hkeep hnone, h'.node?_of_notMem hkeep hnone',
      h.number?_of_notMem hnone, h'.number?_of_notMem hnone']
    exact ⟨rfl, rfl⟩

end Run

end Job

/-- **The files after a run in place with backups.**  A visited file whose patched text is another
one has that text in its encoding, with the old permission bits, and its backup has the old content;
any other visited file and its backup are as before, and so is every location that is neither.
Another order of the path names leaves the same files, if no path name leads to the place of a
backup. -/
theorem perform_inPlace {selection : String} {job : Job} {p : Progress} {paths : List String}
    {vs : List Visit} (hrules : Catalog.all.select selection = .ok job.rules)
    (hmode : job.mode = .inPlace) (hkeep : job.keepBackups = true) (hproper : p.store.Proper)
    (hnodup : (p.store.entries.map Prod.fst).Nodup)
    (hvs : (job.lookups p paths).flatMap Discovered.files = vs.map Visit.path)
    (h : job.Orderly p.store vs) :
    let after := (job.perform p paths).store
    (∀ v ∈ vs, ∃ bytes mode o, p.store.node? v.loc = some (.file bytes mode) ∧
      patch job.rules job.insertHeader (Encoding.decode bytes).1 = .ok o ∧
      if o.text = (Encoding.decode bytes).1 then
        after.node? v.loc = p.store.node? v.loc ∧
          after.node? (backupOf v.loc) = p.store.node? (backupOf v.loc)
      else ∃ new, Encoding.encode o.text (Encoding.decode bytes).2 = .ok new ∧
        after.node? v.loc = some (.file new mode) ∧
          after.node? (backupOf v.loc) = some (.file bytes mode)) ∧
    (∀ l, (∀ v ∈ vs, l ≠ v.loc ∧ l ≠ backupOf v.loc) →
      after.node? l = p.store.node? l ∧ after.number? l = p.store.number? l ∧
        after.directoryMode l = p.store.directoryMode l) ∧
    ((∀ path ∈ paths, Discovery.Settled p.store (vs.map Visit.backup) job.exclude path) →
      ∀ paths', paths'.Perm paths → ∀ l, let other := (job.perform p paths').store
        other.node? l = after.node? l ∧ other.number? l = after.number? l ∧
          other.directoryMode l = after.directoryMode l) := by
  intro after
  have hafter : after = (vs.map Visit.loc).foldl job.visit p.store :=
    (Job.perform_eq hrules h hvs).1
  rw [hafter]
  have hmodes : ∀ {us : List Visit}, job.Orderly p.store us → ∀ l,
      ((us.map Visit.loc).foldl job.visit p.store).directoryMode l = p.store.directoryMode l := by
    intro us hus l
    rw [Store.directoryMode, Store.directoryMode, hus.sameDirectories.directoryModes]
  refine ⟨fun v hv => ?_, fun l hl =>
    ⟨h.node?_of_notMem hkeep hl, h.number?_of_notMem hl, hmodes h l⟩,
    fun hsettled paths' hperm l => ?_⟩
  · obtain ⟨bytes, mode, hfile⟩ := h.accepted v hv
    obtain ⟨o, ho⟩ := hfile.patched
    obtain ⟨new, hnew, -, hbytes, -⟩ := Job.newBytes?_eq hrules ho
    refine ⟨bytes, mode, o, hfile.node, ho, ?_⟩
    rw [h.node?_of_mem hv (.inl rfl), h.node?_of_mem hv (.inr ⟨hkeep, rfl⟩),
      Job.visit_inPlace hmode hkeep hfile.node, hbytes]
    split_ifs
    · exact ⟨rfl, rfl⟩
    · refine ⟨new, hnew, ?_, ?_⟩
      · rw [node?_swap (h.reached v hv).ne_nil, if_pos rfl]
      · rw [node?_swap (h.reached v hv).ne_nil, if_neg (backupOf_ne_self v.loc), if_pos rfl]
  · obtain ⟨vs', hperm', hvs'⟩ :=
      Job.exists_visits_of_perm hrules h hproper hnodup hvs hsettled hperm
    obtain ⟨hnode, hnumber⟩ := h.same_of_perm hkeep hperm' l
    rw [(Job.perform_eq hrules (h.perm hperm') hvs').1]
    exact ⟨hnode, hnumber, (hmodes (h.perm hperm') l).trans (hmodes h l).symm⟩

/-- A file that changes and whose old backup is a link, and one below a directory that does not. -/
theorem perform_inPlace_two :
    let job : Job := { rules := [Catalog.readType] }
    let old : Node := .file "x = o->ob_type;".toUTF8 0o600
    let store : Store :=
      { entries := [(["a.c"], old), (["a.c.old"], .link "b"), (["d"], .directory),
      (["d", "b.h"], .file "int x;".toUTF8 0o644)] }
    let after := (job.perform { store } ["d", "a.c"]).store
    (job.lookups { store } ["d", "a.c"]).flatMap Discovered.files = ["d/b.h", "a.c"] ∧
      after.node? ["a.c"] = some (.file "x = Py_TYPE(o);".toUTF8 0o600) ∧
      after.node? ["a.c.old"] = some old ∧ after.node? ["d"] = some .directory ∧
      ∀ l, (job.perform { store } ["a.c", "d"]).store.node? l = after.node? l := by
  intro job old store after
  let vs : List Visit := [⟨"d/b.h", ["d", "b.h"]⟩, ⟨"a.c", ["a.c"]⟩]
  have hbase : ∀ path, store.base path = [] := fun path => ite_self []
  have hvs : (job.lookups { store } ["d", "a.c"]).flatMap Discovered.files = vs.map Visit.path := by
    decide +kernel
  have hproper : store.Proper := proper_of_entries (by decide +kernel)
  have hpatch : patch job.rules true (Encoding.decode "x = o->ob_type;".toUTF8).1 =
      .ok ⟨"x = Py_TYPE(o);".toList, ["Py_TYPE"], false⟩ :=
    Evaluation.patch_eq_ok (by decide +kernel)
  have hsame : patch job.rules true (Encoding.decode "int x;".toUTF8).1 =
      .ok ⟨"int x;".toList, [], false⟩ :=
    Evaluation.patch_eq_ok (by decide +kernel)
  have hfile : store.Reaches "a.c" ["a.c"] :=
    Store.reaches_of_steps (by decide) (by decide +kernel) (by decide) (by decide)
  have hdirectory : store.Reaches "d" ["d"] :=
    Store.reaches_of_steps (by decide) (by decide +kernel) (by decide) (by decide)
  have hbelow : store.Reaches "d/b.h" ["d", "b.h"] := by
    refine ⟨by decide, ["d"], ["d"], "b.h", by decide +kernel, by decide, by decide, ?_, rfl⟩
    rw [hbase]
    exact .down (by decide) (by decide) rfl (.here _)
  have horderly : job.Orderly store vs := by
    refine ⟨?_, ?_, by decide, by decide +kernel, by simp [job]⟩
    · intro v hv
      rcases List.mem_pair.mp hv with rfl | rfl
      · exact hbelow
      · exact hfile
    · intro v hv
      rcases List.mem_pair.mp hv with rfl | rfl
      · exact ⟨_, _, rfl, rfl, ⟨_, hsame⟩,
          (fun hdir => nomatch (hdir : (none : Option Node) = some .directory)),
          fun _ _ _ => ⟨by decide, by decide, rfl, rfl, rfl, rfl, rfl⟩, by simp [job]⟩
      · exact ⟨_, _, rfl, rfl, ⟨_, hpatch⟩,
          (fun hdir => nomatch (hdir : some (Node.link "b") = some .directory)),
          fun _ _ _ => ⟨by decide, by decide, rfl, rfl, rfl, rfl, rfl⟩, by simp [job]⟩
  have hsettled : ∀ path ∈ ["d", "a.c"],
      Discovery.Settled store (vs.map Visit.backup) job.exclude path := by
    intro path hpath
    have hd : store.node? ["d"] = some .directory := rfl
    have hb : store.node? ["d", "b.h"] = some (.file "int x;".toUTF8 0o644) := rfl
    have ha : store.node? ["a.c"] = some (.file "x = o->ob_type;".toUTF8 0o600) := rfl
    rcases List.mem_pair.mp hpath with rfl | rfl
    · refine ⟨hdirectory.ignores hd (by simp) (by decide), ?_⟩
      intro start hstart names hnames _ _ _
      obtain ⟨rfl, -⟩ := Prod.mk.inj (Except.ok.inj
        ((hdirectory.stat_eq hd (by simp)).symm.trans hstart))
      obtain rfl : names = ["b.h"] := by
        have hall : Discovery.below store ["d"] = [["b.h"]] := by decide +kernel
        simpa [hall] using hnames
      exact hbelow.ignores hb (by simp) (by decide)
    · refine ⟨hfile.ignores ha (by simp) (by decide), ?_⟩
      intro start hstart
      exact nomatch (hfile.stat_eq ha (by simp)).symm.trans hstart
  obtain ⟨hvisited, hrest, horder⟩ := @perform_inPlace "Py_TYPE" job { store } _ vs rfl rfl rfl
    hproper (by decide) hvs horderly
  obtain ⟨bytes, mode, o, hnode, ho, hnew⟩ := hvisited ⟨"a.c", ["a.c"]⟩ (by simp [vs])
  obtain ⟨rfl, rfl⟩ := Node.file.inj (Option.some.inj (hnode.symm.trans rfl : _ = some old))
  obtain rfl := Except.ok.inj (ho.symm.trans hpatch)
  rw [if_neg (by decide +kernel)] at hnew
  obtain ⟨new, hencode, hfile, hbackup⟩ := hnew
  have hutf8 : (Encoding.decode "x = o->ob_type;".toUTF8).2 = .utf8 := by decide +kernel
  rw [hutf8, Encoding.encode, String.ofList_toList, Except.ok.injEq] at hencode
  subst hencode
  exact ⟨hvs, hfile, hbackup, (hrest ["d"] (by decide +kernel)).1,
    fun l => (horder hsettled _ (.swap _ _ _) l).1⟩

/-- A link to the place of a backup leads nowhere before its file is visited, and to the old file
afterwards: then the link is visited too, and a file takes its place.  In a directory that may not
be written no file is replaced.  And a file whose backup is another name of it loses its old
content. -/
theorem perform_depends_on_order :
    let job : Job := { rules := [Catalog.readType] }
    let old : Node := .file "x = o->ob_type;".toUTF8 0o644
    let new : Node := .file "x = Py_TYPE(o);".toUTF8 0o644
    let linked : Store := { entries := [(["a.c"], old), (["d"], .directory),
      (["d", "x.c"], .link "../a.c.old")] }
    let closed : Store := { entries := [(["a.c"], old)], directoryModes := [([], 0o555)] }
    let doubled : Store := { entries := [(["a.c"], old), (["a.c.old"], old)], numbers := [
      (["a.c"], 1), (["a.c.old"], 1)] }
    ((job.lookups { store := linked } ["d", "a.c"]).flatMap Discovered.files = ["a.c"] ∧
      (job.perform { store := linked } ["d", "a.c"]).store.node? ["d", "x.c"] =
        some (.link "../a.c.old") ∧
      (job.perform { store := linked } ["a.c", "d"]).store.node? ["d", "x.c"] = some new) ∧
    ((job.lookups { store := closed } ["a.c"]).flatMap Discovered.files = ["a.c"] ∧
      (job.perform { store := closed } ["a.c"]).store.node? ["a.c"] = some old) ∧
    (job.lookups { store := doubled } ["a.c"]).flatMap Discovered.files = ["a.c"] ∧
      (job.perform { store := doubled } ["a.c"]).store.node? ["a.c.old"] = some new := by
  decide +kernel

end CApiUpgrade
