import CApiUpgrade.Proofs.InPlace

/-!
# Files that are reached more than once

Nothing keeps a run from reaching a file twice: by a path name that is repeated, or by a directory
and a file in it.  The second time the file is patched on top of its own output, and its backup is
replaced if the text changes again (`perform_twice_loses_original`).  If patching has nothing to do
in its own output, the second time does nothing: the run leaves the files that a run would leave
that passes by every file it has met before, and the backups have the original contents
(`patchPaths_eq_once`).
-/

namespace CApiUpgrade

open Store

namespace Job

/-! ### Passing by what was met before -/

/-- Patches files one after another, up to the first error, and passes by those at a location that
was met before.  Returns the locations met so far as well. -/
def patchFilesOnce (job : Job) :
    List Location → Progress → List String → List Location × Progress × Option FileError
  | met, p, [] => (met, p, none)
  | met, p, path :: rest =>
    let here := (p.store.resolve true path).toOption.toList
    if here.any (· ∈ met) then patchFilesOnce job met p rest
    else match patchFile job p path with
      | (p, none) => patchFilesOnce job (here ++ met) p rest
      | (p, some e) => (met, p, some e)

/-- Patches what path names stand for, up to the first error, and passes by the files at a location
that was met before. -/
def patchPathsOnce (job : Job) :
    List Location → Progress → List String → List Location × Progress × Option FileError
  | met, p, [] => (met, p, none)
  | met, p, path :: rest =>
    match patchFilesOnce job met p (discover p.store job.exclude path).files with
    | (met, p, none) => patchPathsOnce job met p rest
    | (met, p, some e) => (met, p, some e)

variable {job : Job}

/-- Files that may be reached more than once: patching has nothing to do in what it has made of
them. -/
structure Repeatable (job : Job) (s : Store) (vs : List Visit) : Prop where
  /-- No link is on the way to a file. -/
  reached : ∀ v ∈ vs, s.Reaches v.path v.loc
  /-- Each of them can be dealt with. -/
  accepted : ∀ v ∈ vs, ∃ bytes mode, job.Accepts s v.loc bytes mode
  /-- None of them is the backup of another. -/
  apart : ∀ v ∈ vs, ∀ w ∈ vs, v.loc ≠ backupOf w.loc
  /-- What becomes of a file stays as it is when it is patched again. -/
  settled : ∀ v ∈ vs, ∀ bytes mode new, s.node? v.loc = some (.file bytes mode) →
    job.newBytes? bytes = some new →
    ∃ o, patch job.rules job.insertHeader (Encoding.decode new).1 = .ok o ∧
      o.text = (Encoding.decode new).1

/-- A run and one that passes by what it has met, at the same point: both have left the same files,
and these are what the first visits to the locations met have left. -/
def Abreast (job : Job) (s : Store) (vs : List Visit) (met : List Location) (p q : Progress) :
    Prop :=
  ∃ done, job.Orderly s done ∧ (∀ v ∈ done, v ∈ vs) ∧ (∀ l, l ∈ met ↔ l ∈ done.map Visit.loc) ∧
    p.store = (done.map Visit.loc).foldl job.visit s ∧ q.store = p.store

section Run

variable {selection : String} {s : Store} {p q : Progress} {vs : List Visit} {met : List Location}

/-- A file that was met is a file again that can be dealt with, and its text does not change. -/
theorem Repeatable.accepts_again (h : job.Repeatable s vs)
    (hrules : Catalog.all.select selection = .ok job.rules) (hmode : job.mode = .inPlace)
    (hkeep : job.keepBackups = true) {done : List Visit} (hdone : job.Orderly s done) {v : Visit}
    (hv : v ∈ vs) (hmet : v.loc ∈ done.map Visit.loc) :
    ∃ bytes mode, job.Accepts ((done.map Visit.loc).foldl job.visit s) v.loc bytes mode ∧
      job.newBytes? bytes = none := by
  obtain ⟨w, hw, hloc⟩ := List.mem_map.mp hmet
  obtain ⟨bytes, mode, hfile⟩ := h.accepted v hv
  obtain ⟨o, ho⟩ := hfile.patched
  have hnode := hdone.node?_of_mem hw (.inl rfl)
  have hbackup :
      ((done.map Visit.loc).foldl job.visit s).node? (backupOf v.loc) ≠ some .directory :=
    fun hdir => hfile.backup ((hdone.sameDirectories.directory _).mpr hdir)
  -- What is left as it is need be neither replaced nor written.
  have hidle : ∀ {bytes : ByteArray}, ((done.map Visit.loc).foldl job.visit s).node? v.loc =
      some (.file bytes mode) → (∃ o, patch job.rules job.insertHeader
        (Encoding.decode bytes).1 = .ok o) → job.newBytes? bytes = none →
      job.Accepts ((done.map Visit.loc).foldl job.visit s) v.loc bytes mode :=
    fun hnode hpatched hnew => ⟨hnode, hfile.readable, hpatched, hbackup, by simp [hnew],
      by simp [hnew]⟩
  rw [hloc, visit_inPlace hmode hkeep hfile.node] at hnode
  cases hnew : job.newBytes? bytes with
  | none =>
    simp only [hnew] at hnode
    exact ⟨bytes, mode, hidle (hnode.trans hfile.node) ⟨o, ho⟩ hnew, hnew⟩
  | some new =>
    simp only [hnew, node?_swap (h.reached v hv).ne_nil, ↓reduceIte] at hnode
    obtain ⟨o', ho', hsame⟩ := h.settled v hv bytes mode new hfile.node hnew
    obtain ⟨_, -, -, hbytes, -⟩ := newBytes?_eq hrules ho'
    rw [if_pos hsame] at hbytes
    exact ⟨new, mode, hidle hnode ⟨o', ho'⟩ hbytes, hbytes⟩

/-- **One file.**  Both runs stay abreast: a file that was met is left alone by either. -/
theorem Abreast.patchFile (h : job.Repeatable s vs)
    (hrules : Catalog.all.select selection = .ok job.rules) (hmode : job.mode = .inPlace)
    (hkeep : job.keepBackups = true) (hpq : job.Abreast s vs met p q) {v : Visit} (hv : v ∈ vs) :
    ∃ p', job.patchFile p v.path = (p', none) ∧ ∃ met' q', job.Abreast s vs met' p' q' ∧
      v.loc ∈ met' ∧ (∀ l ∈ met, l ∈ met') ∧ ∀ rest, job.patchFilesOnce met q (v.path :: rest) =
        job.patchFilesOnce met' q' rest := by
  obtain ⟨done, hdone, hsub, hmet, hp, hq⟩ := hpq
  have hreach : p.store.Reaches v.path v.loc :=
    hp ▸ (h.reached v hv).congr hdone.sameDirectories
  -- A file that has been met before is left as it is, since a second patch does not change it.
  by_cases hv' : v.loc ∈ met
  · obtain ⟨bytes, mode, hfile, hsame⟩ :=
      h.accepts_again hrules hmode hkeep hdone hv ((hmet _).mp hv')
    rw [← hp] at hfile
    obtain ⟨p', hp', hstore, -⟩ := patchFile_eq hrules hreach hfile
    have hidle : p'.store = p.store := by
      rw [hstore, visit_inPlace hmode hkeep hfile.node, hsame]
    refine ⟨p', hp', met, q, ⟨done, hdone, hsub, hmet, hidle.trans hp, hq.trans hidle.symm⟩, hv',
      fun _ hl => hl, fun rest => ?_⟩
    have hresolve : q.store.resolve true v.path = .ok v.loc := by
      rw [hq]
      exact hreach.resolve_eq (by simp [hfile.node]) true
    rw [patchFilesOnce]
    simp [hresolve, Except.toOption, hv']
  · obtain ⟨bytes, mode, hfile⟩ := h.accepted v hv
    have hmem : ∀ w ∈ done ++ [v], w ∈ vs := by
      intro w hw
      rcases List.mem_append.mp hw with hw | hw
      · exact hsub w hw
      · exact List.mem_singleton.mp hw ▸ hv
    have horderly : job.Orderly s (done ++ [v]) :=
      { reached := fun w hw => h.reached w (hmem w hw)
        accepted := fun w hw => h.accepted w (hmem w hw)
        distinct := by
          rw [List.map_append, List.map_singleton, List.nodup_append]
          refine ⟨hdone.distinct, by simp, ?_⟩
          rintro l hl l' hl' rfl
          exact hv' ((hmet _).mpr (List.mem_singleton.mp hl' ▸ hl))
        apart := fun w hw w' hw' => h.apart w (hmem w hw) w' (hmem w' hw')
        different := by simp [hkeep] }
    obtain ⟨p', hp', hstore, -⟩ := patchFiles_eq hrules horderly hp
    obtain ⟨q', hq', hstore', -⟩ := patchFiles_eq hrules horderly (hq.trans hp)
    -- For the other files, one more visit is a run over one more file.
    have hone : ∀ r r' : Progress, job.patchFiles r [v.path] = (r', none) →
        job.patchFile r v.path = (r', none) := by
      intro r r' hr
      rw [Job.patchFiles] at hr
      revert hr
      generalize job.patchFile r v.path = result
      obtain ⟨r'', e⟩ := result
      cases e with
      | none => exact id
      | some e => simp
    have hresolve : q.store.resolve true v.path = .ok v.loc := by
      have hnode := horderly.node?_eq
      rw [← hp, hfile.node] at hnode
      rw [hq]
      exact hreach.resolve_eq (by simp [hnode]) true
    refine ⟨p', hone p p' hp', v.loc :: met, q', ⟨done ++ [v], horderly, hmem, fun l => ?_, hstore,
      hstore'.trans hstore.symm⟩, List.mem_cons_self, fun _ hl => List.mem_cons_of_mem _ hl,
      fun rest => ?_⟩
    · simp [hmet l, or_comm]
    · rw [patchFilesOnce]
      simp [hresolve, Except.toOption, hv', hone q q' hq']

/-- **Many files.** -/
theorem Abreast.patchFiles (h : job.Repeatable s vs)
    (hrules : Catalog.all.select selection = .ok job.rules) (hmode : job.mode = .inPlace)
    (hkeep : job.keepBackups = true) (hpq : job.Abreast s vs met p q) {us : List Visit}
    (hus : ∀ v ∈ us, v ∈ vs) :
    ∃ p' met' q', job.patchFiles p (us.map Visit.path) = (p', none) ∧
      job.patchFilesOnce met q (us.map Visit.path) = (met', q', none) ∧
      job.Abreast s vs met' p' q' ∧ (∀ v ∈ us, v.loc ∈ met') ∧ ∀ l ∈ met, l ∈ met' := by
  induction us generalizing met p q with
  | nil => exact ⟨p, met, q, rfl, rfl, hpq, by simp, fun _ hl => hl⟩
  | cons v us ih =>
    obtain ⟨p₁, hp₁, met₁, q₁, habreast, hv, hsub, honce⟩ :=
      hpq.patchFile h hrules hmode hkeep (hus v List.mem_cons_self)
    obtain ⟨p₂, met₂, q₂, hp₂, hq₂, habreast₂, hus₂, hsub₂⟩ :=
      ih habreast fun w hw => hus w (List.mem_cons_of_mem v hw)
    refine ⟨p₂, met₂, q₂, ?_, ?_, habreast₂, ?_, fun l hl => hsub₂ l (hsub l hl)⟩
    · rw [List.map_cons, Job.patchFiles, hp₁]
      exact hp₂
    · rw [List.map_cons, honce]
      exact hq₂
    · intro w hw
      rcases List.mem_cons.mp hw with rfl | hw
      · exact hsub₂ w.loc hv
      · exact hus₂ w hw

/-- What is told on the standard error output has no part in this. -/
theorem Abreast.congr (hpq : job.Abreast s vs met p q) {p' q' : Progress}
    (hp : p'.store = p.store) (hq : q'.store = q.store) : job.Abreast s vs met p' q' := by
  obtain ⟨done, hdone, hsub, hmet, hstore, hstore'⟩ := hpq
  exact ⟨done, hdone, hsub, hmet, hp.trans hstore, hq.trans (hstore'.trans hp.symm)⟩

theorem Abreast.patchPath (h : job.Repeatable s vs)
    (hrules : Catalog.all.select selection = .ok job.rules) (hmode : job.mode = .inPlace)
    (hkeep : job.keepBackups = true) (hpq : job.Abreast s vs met p q) {path : String}
    {us : List Visit} (hus : ∀ v ∈ us, v ∈ vs)
    (hpath : (discover p.store job.exclude path).files = us.map Visit.path) :
    ∃ p' met' q', job.patchPath p path = (p', none) ∧
      job.patchFilesOnce met q (us.map Visit.path) = (met', q', none) ∧
      job.Abreast s vs met' p' q' ∧ (∀ v ∈ us, v.loc ∈ met') ∧ ∀ l ∈ met, l ∈ met' := by
  unfold Job.patchPath
  cases hd : discover p.store job.exclude path with
  | sources files excluded =>
    rw [hd] at hpath
    have htold := p.alike_foldl_debugIf job.verbose (fun file => "excluded by config path=" ++ file)
      excluded
    obtain ⟨p', met', q', hp', hrest⟩ :=
      (hpq.congr htold.store rfl).patchFiles h hrules hmode hkeep hus
    rw [← hpath] at hp'
    exact ⟨p', met', q', hp', hrest⟩
  | noSources | missing =>
    rw [hd] at hpath
    obtain rfl : us = [] := List.map_eq_nil_iff.mp hpath.symm
    exact ⟨_, met, q, rfl, rfl, hpq.congr rfl rfl, by simp, fun _ hl => hl⟩

/-- **Many path names.** -/
theorem Abreast.patchPaths (h : job.Repeatable s vs)
    (hrules : Catalog.all.select selection = .ok job.rules) (hmode : job.mode = .inPlace)
    (hkeep : job.keepBackups = true) (hpq : job.Abreast s vs met p q) {paths : List String}
    {us : List Visit} (hus : ∀ v ∈ us, v ∈ vs)
    (hpaths : (job.lookups p paths).flatMap Discovered.files = us.map Visit.path) :
    ∃ p' met' q', job.patchPaths p paths = (p', none) ∧
      job.patchPathsOnce met q paths = (met', q', none) ∧
      job.Abreast s vs met' p' q' ∧ (∀ v ∈ us, v.loc ∈ met') ∧ ∀ l ∈ met, l ∈ met' := by
  induction paths generalizing met p q us with
  | nil =>
    obtain rfl : us = [] := List.map_eq_nil_iff.mp hpaths.symm
    exact ⟨p, met, q, rfl, rfl, hpq, by simp, fun _ hl => hl⟩
  | cons path rest ih =>
    rw [lookups, List.flatMap_cons] at hpaths
    obtain ⟨us₁, us₂, rfl, hus₁, hus₂⟩ := List.append_eq_map_iff.mp hpaths
    have hstore : q.store = p.store := by
      obtain ⟨-, -, -, -, -, hq⟩ := hpq
      exact hq
    obtain ⟨p₁, met₁, q₁, hp₁, hq₁, habreast, hmet₁, hsub₁⟩ : ∃ p₁ met₁ q₁,
        job.patchPath p path = (p₁, none) ∧
        job.patchFilesOnce met q (us₁.map Visit.path) = (met₁, q₁, none) ∧
        job.Abreast s vs met₁ p₁ q₁ ∧ (∀ v ∈ us₁, v.loc ∈ met₁) ∧ ∀ l ∈ met, l ∈ met₁ :=
      hpq.patchPath h hrules hmode hkeep (fun w hw => hus w (List.mem_append_left us₂ hw)) hus₁.symm
    rw [hp₁] at hus₂
    obtain ⟨p₂, met₂, q₂, hp₂, hq₂, habreast₂, hmet₂, hsub₂⟩ :=
      ih habreast (fun w hw => hus w (List.mem_append_right us₁ hw)) hus₂.symm
    refine ⟨p₂, met₂, q₂, ?_, ?_, habreast₂, ?_, fun l hl => hsub₂ l (hsub₁ l hl)⟩
    · rw [Job.patchPaths, hp₁]
      exact hp₂
    · rw [patchPathsOnce, hstore, ← hus₁, hq₁]
      exact hq₂
    · intro w hw
      rcases List.mem_append.mp hw with hw | hw
      · exact hsub₂ w.loc (hmet₁ w hw)
      · exact hmet₂ w hw

end Run

end Job

/-- **Overlapping path names.**  If patching has nothing to do in what it has made of a file, a run
in place with backups meets no error and leaves the same files as a run that passes by every file it
has met before.  Every visited file is as it was, or its backup has the content that it had. -/
theorem patchPaths_eq_once {selection : String} {job : Job} {p : Progress} {paths : List String}
    {vs : List Visit} (hrules : Catalog.all.select selection = .ok job.rules)
    (hmode : job.mode = .inPlace) (hkeep : job.keepBackups = true)
    (hvs : (job.lookups p paths).flatMap Discovered.files = vs.map Visit.path)
    (h : job.Repeatable p.store vs) :
    ∃ q met r, job.patchPaths p paths = (q, none) ∧ job.patchPathsOnce [] p paths = (met, r, none) ∧
      r.store = q.store ∧ ∀ v ∈ vs, ∃ bytes mode, p.store.node? v.loc = some (.file bytes mode) ∧
        (q.store.node? v.loc = p.store.node? v.loc ∨
          q.store.node? (backupOf v.loc) = some (.file bytes mode)) := by
  have hstart : job.Abreast p.store vs [] p p :=
    ⟨[], ⟨by simp, by simp, by simp, by simp, by simp⟩, by simp, by simp, rfl, rfl⟩
  obtain ⟨q, met, r, hq, hr, ⟨done, hdone, -, hmet, hstore, hsame⟩, hall, -⟩ :=
    hstart.patchPaths h hrules hmode hkeep (fun v hv => hv) hvs
  refine ⟨q, met, r, hq, hr, hsame, fun v hv => ?_⟩
  obtain ⟨w, hw, hloc⟩ := List.mem_map.mp ((hmet _).mp (hall v hv))
  obtain ⟨bytes, mode, hfile⟩ := h.accepted v hv
  refine ⟨bytes, mode, hfile.node, ?_⟩
  rw [hstore, ← hloc, hdone.node?_of_mem hw (.inl rfl),
    hdone.node?_of_mem hw (.inr ⟨hkeep, rfl⟩), hloc,
    Job.visit_inPlace hmode hkeep hfile.node]
  cases job.newBytes? bytes with
  | none => exact .inl rfl
  | some new =>
    right
    simp only
    rw [node?_swap (h.reached v hv).ne_nil, if_neg (backupOf_ne_self v.loc), if_pos rfl]

/-- A path name that is given twice, with nothing left to do the second time. -/
theorem patchPaths_eq_once_twice :
    let job : Job := { rules := [Catalog.readType] }
    let store : Store := { entries := [(["a.c"], .file "x = o->ob_type;".toUTF8 0o644)] }
    (job.lookups { store } ["a.c", "./a.c"]).flatMap Discovered.files = ["a.c", "./a.c"] ∧
      ∃ q met r, job.patchPaths { store } ["a.c", "./a.c"] = (q, none) ∧
        job.patchPathsOnce [] { store } ["a.c", "./a.c"] = (met, r, none) ∧ r.store = q.store ∧
        (q.store.node? ["a.c"] = store.node? ["a.c"] ∨
          q.store.node? ["a.c.old"] = some (.file "x = o->ob_type;".toUTF8 0o644)) := by
  intro job store
  let vs : List Visit := [⟨"a.c", ["a.c"]⟩, ⟨"./a.c", ["a.c"]⟩]
  have hvs : (job.lookups { store } ["a.c", "./a.c"]).flatMap Discovered.files =
      vs.map Visit.path := by
    decide +kernel
  have hpatch : patch job.rules true (Encoding.decode "x = o->ob_type;".toUTF8).1 =
      .ok ⟨"x = Py_TYPE(o);".toList, ["Py_TYPE"], false⟩ :=
    Evaluation.patch_eq_ok (by decide +kernel)
  have hnew : job.newBytes? "x = o->ob_type;".toUTF8 = some "x = Py_TYPE(o);".toUTF8 := by
    decide +kernel
  have hagain : patch job.rules true (Encoding.decode "x = Py_TYPE(o);".toUTF8).1 =
      .ok ⟨(Encoding.decode "x = Py_TYPE(o);".toUTF8).1, [], false⟩ :=
    Evaluation.patch_eq_ok (by decide +kernel)
  have hloc : ∀ v ∈ vs, v.loc = ["a.c"] := by decide
  have hrepeatable : job.Repeatable store vs := by
    refine ⟨?_, fun v hv => ?_, by decide +kernel, fun v hv bytes mode new hnode hbytes => ?_⟩
    · intro v hv
      rcases List.mem_pair.mp hv with rfl | rfl
      all_goals exact Store.reaches_of_steps (by decide) (by decide +kernel) (by decide) (by decide)
    · rw [hloc v hv]
      exact ⟨_, _, rfl, rfl, ⟨_, hpatch⟩,
        (fun hdir => nomatch (hdir : (none : Option Node) = some .directory)),
        fun _ _ _ => ⟨by decide, by decide, rfl, rfl, rfl, rfl, rfl⟩, by simp [job]⟩
    · rw [hloc v hv] at hnode
      obtain ⟨rfl, rfl⟩ := Node.file.inj (Option.some.inj hnode)
      obtain rfl := Option.some.inj (hnew.symm.trans hbytes)
      exact ⟨_, hagain, rfl⟩
  obtain ⟨q, met, r, hq, hr, hsame, hold⟩ :=
    @patchPaths_eq_once "Py_TYPE" job { store } _ vs rfl rfl rfl hvs hrepeatable
  obtain ⟨bytes, mode, hnode, hcase⟩ := hold ⟨"a.c", ["a.c"]⟩ (by simp [vs])
  obtain ⟨rfl, rfl⟩ := Node.file.inj (Option.some.inj hnode)
  exact ⟨hvs, q, met, r, hq, hr, hsame, hcase⟩

/-- A path name that is given twice: the second time the file is patched on top of its own output,
and its backup no longer has the original content, as it would if the file were passed by. -/
theorem perform_twice_loses_original :
    let job : Job := { rules := [Catalog.readType] }
    let store : Store := { entries := [(["a.c"], .file "y = a->ob_type->ob_type;".toUTF8 0o644)] }
    let after := (job.patchPaths { store } ["a.c", "a.c"]).1.store
    let once := (job.patchPathsOnce [] { store } ["a.c", "a.c"]).2.1.store
    (job.patchPaths { store } ["a.c", "a.c"]).2 = none ∧
      (after.read "a.c").toOption = some "y = Py_TYPE(Py_TYPE(a));".toUTF8 ∧
      (after.read "a.c.old").toOption = some "y = Py_TYPE(a->ob_type);".toUTF8 ∧
      (once.read "a.c").toOption = some "y = Py_TYPE(a->ob_type);".toUTF8 ∧
      (once.read "a.c.old").toOption = some "y = a->ob_type->ob_type;".toUTF8 := by
  decide +kernel

end CApiUpgrade
