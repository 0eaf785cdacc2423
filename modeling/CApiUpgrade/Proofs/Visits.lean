import CApiUpgrade.Proofs.Characters
import CApiUpgrade.Proofs.Lookups
import CApiUpgrade.Proofs.SafeReplacement
import CApiUpgrade.Run

/-!
# What a run does to the files that it visits

A run looks up one path name after another and patches the files that it stands for, each in the
store that the files before it left.  `Job.visits` lists these files.  If they are reached without
links, stand at different locations and none is the backup of another, then each of them is met as
it was at the start, and the run is a sequence of changes of single locations (`Job.visit`):
`Job.patchPaths_eq` says so for every mode, and `Job.node?_foldl_visit` says what the changes amount
to.
-/

namespace CApiUpgrade

open Store

/-! ### Replacing a file -/

section Replacing

variable {s : Store} {path : String} {loc : Location} {bytes : ByteArray} {mode : Nat}

/-- A change of one entry that neither makes nor removes a directory keeps the directories. -/
theorem Store.sameDirectories_of_node? {t : Store}
    (hnode : ∀ l, s.node? l = t.node? l ∨
      s.node? l ≠ some .directory ∧ t.node? l ≠ some .directory)
    (hworkDir : s.workDir = t.workDir) (hmodes : s.directoryModes = t.directoryModes)
    (hfaults : s.faults = t.faults) : s.SameDirectories t where
  directory l := by
    rcases hnode l with heq | ⟨hs, ht⟩
    · rw [heq]
    · simp [hs, ht]
  workDir := hworkDir
  directoryModes := hmodes
  faults := hfaults

/-- The directories with the old file saved and the new one not yet written. -/
theorem Store.sameDirectories_saved (hloc : loc ≠ [])
    (hnode : s.node? loc = some (.file bytes mode))
    (hbackup : s.node? (backupOf loc) ≠ some .directory) :
    s.SameDirectories (s.saved loc (.file bytes mode)) := by
  refine sameDirectories_of_node? (fun l => ?_) rfl rfl rfl
  rw [node?_saved hloc]
  split_ifs with hold hself
  · exact .inr ⟨hold ▸ hbackup, by simp⟩
  · exact .inr ⟨by simp [hself, hnode], by simp⟩
  · exact .inl rfl

/-- The directories with a new file in place of an old one. -/
theorem Store.sameDirectories_swap (hloc : loc ≠ [])
    (hnode : s.node? loc = some (.file bytes mode))
    (hbackup : s.node? (backupOf loc) ≠ some .directory) (new : ByteArray) (newMode : Nat) :
    s.SameDirectories (s.swap loc (.file bytes mode) (.file new newMode)) := by
  refine (sameDirectories_saved hloc hnode hbackup).trans
    (sameDirectories_of_node? (fun l => ?_) rfl rfl rfl)
  rw [swap, node?_insert hloc]
  split_ifs with hself
  · subst hself
    rw [node?_saved hloc, if_neg (backupOf_ne_self l).symm, if_pos rfl]
    exact .inr ⟨by simp, by simp⟩
  · exact .inl rfl

/-- The directories with a file amended. -/
theorem Store.sameDirectories_amend (hloc : loc ≠ []) (content : ByteArray) :
    s.SameDirectories (s.amend loc (.withContent content)) := by
  refine sameDirectories_of_node? (fun l => ?_) rfl rfl rfl
  rw [node?_amend hloc]
  split_ifs
  · cases hnode : s.node? l with
    | none => exact .inl rfl
    | some node => cases node <;> simp [Node.withContent]
  · exact .inl rfl

/-- **Replacing a file** that is reached without links puts the new content in its place, with the
old permission bits, and the old file beside it. -/
theorem Backup.replace_of_reaches (h : s.Reaches path loc)
    (hnode : s.node? loc = some (.file bytes mode))
    (hbackup : s.node? (backupOf loc) ≠ some .directory) (hfree : s.IsReplaceable loc)
    (content : ByteArray) :
    Backup.replace s path content =
      (s.swap loc (.file bytes mode) (.file content mode), none) :=
  Backup.replace_eq (h.stat_eq hnode (by simp)) hfree.lookUp h.names hnode rfl hbackup
    (h.congr (sameDirectories_saved h.ne_nil hnode hbackup)).names hfree

/-- A file that is reached without links and may be written is written in its place. -/
theorem Backup.overwrite_eq (h : s.Reaches path loc)
    (hnode : s.node? loc = some (.file bytes mode))
    (hwritable : (Node.file bytes mode).isWritable = true)
    (hopening : s.faults.opening loc = none) (hwriting : s.faults.writing loc = none)
    (content : ByteArray) :
    Backup.overwrite s path content = (s.amend loc (.withContent content), none) := by
  have hkind : ∀ node, (Node.withContent .empty node).isFile = node.isFile := by
    rintro (_ | _ | _) <;> rfl
  have hopen : s.openEmpty path = .ok (loc, s.amend loc (.withContent .empty)) := by
    rw [openEmpty, h.names.ending.2.1, h.resolve_eq (by simp [hnode])]
    simp [bind, Except.bind, hnode, hwritable, hopening, pure, Except.pure]
  have hwriting' : (s.amend loc (.withContent .empty)).faults.writing loc = none := hwriting
  have htwice : (fun node => Node.withContent content (Node.withContent .empty node)) =
      Node.withContent content := by
    funext node
    cases node <;> rfl
  rw [Backup.overwrite, Store.write, hopen]
  simp only [fill, hwriting', amend_amend h.ne_nil hkind, htwice, Option.map_none]

end Replacing

/-! ### Messages

What is told on the standard error output has no part in what follows. -/

namespace Progress

/-- Two points of a run at which the files, the standard output and the warnings are the same. -/
structure Alike (p q : Progress) : Prop where
  /-- The files. -/
  store : q.store = p.store
  /-- The standard output. -/
  out : q.out = p.out
  /-- The warnings. -/
  warnings : q.summary.warnings = p.summary.warnings

theorem Alike.refl (p : Progress) : p.Alike p := ⟨rfl, rfl, rfl⟩

theorem Alike.trans {p q r : Progress} (h : p.Alike q) (h' : q.Alike r) : p.Alike r :=
  ⟨h'.store.trans h.store, h'.out.trans h.out, h'.warnings.trans h.warnings⟩

theorem alike_tellIf (p : Progress) (condition : Bool) (text : String) :
    p.Alike (p.tellIf condition text) := by
  unfold tellIf
  split_ifs <;> exact ⟨rfl, rfl, rfl⟩

theorem alike_debugIf (p : Progress) (verbose : Bool) (text : String) :
    p.Alike (p.debugIf verbose text) := p.alike_tellIf verbose _

@[simp]
theorem store_tellIf (p : Progress) (condition : Bool) (text : String) :
    (p.tellIf condition text).store = p.store := (p.alike_tellIf condition text).store

@[simp]
theorem store_debugIf (p : Progress) (verbose : Bool) (text : String) :
    (p.debugIf verbose text).store = p.store := (p.alike_debugIf verbose text).store

theorem alike_foldl_debugIf (p : Progress) (verbose : Bool) (text : String → String)
    (names : List String) :
    p.Alike (names.foldl (fun p name => p.debugIf verbose (text name)) p) := by
  induction names generalizing p with
  | nil => exact .refl p
  | cons name rest ih => exact (p.alike_debugIf verbose (text name)).trans (ih _)

end Progress

theorem Job.alike_account (job : Job) (p : Progress) (file : PatchedFile) :
    p.Alike (job.account p file) := by
  unfold account
  refine Progress.Alike.trans ?_ (Progress.alike_debugIf _ _ _)
  have hrules :=
    p.alike_foldl_debugIf job.verbose (fun name => "rule fired rule=" ++ Text.quoted name)
    file.outcome.applied
  exact ⟨hrules.store, hrules.out, hrules.warnings⟩

/-- Two results with the same files and the same error. -/
def Progress.Matches (r r' : Progress × Option FileError) : Prop :=
  r.1.store = r'.1.store ∧ r.2 = r'.2

namespace Job

variable (job : Job) {p q : Progress}

/-- What becomes of the files depends on the files only. -/
theorem matches_deliver (h : p.store = q.store) (file : PatchedFile) :
    Progress.Matches (job.deliver p file) (job.deliver q file) := by
  unfold deliver
  split
  · split
    · exact ⟨h, rfl⟩
    · exact ⟨h, rfl⟩
  · split_ifs
    · exact ⟨h, rfl⟩
    · exact ⟨h, rfl⟩
  · split_ifs
    · unfold replaceFile
      split
      · exact ⟨h, rfl⟩
      · rw [h]
        split
        · exact ⟨rfl, rfl⟩
        · exact ⟨by simp, rfl⟩
    · exact ⟨h, rfl⟩

theorem matches_patchFile (h : p.store = q.store) (path : String) :
    Progress.Matches (job.patchFile p path) (job.patchFile q path) := by
  unfold patchFile
  rw [h]
  split
  · exact ⟨h, rfl⟩
  · dsimp only
    split
    · exact ⟨by simpa using h, rfl⟩
    · rename_i file _
      refine job.matches_deliver ?_ file
      rw [(job.alike_account _ file).store, (job.alike_account _ file).store]
      simpa using h

theorem matches_patchFiles (h : p.store = q.store) (files : List String) :
    Progress.Matches (job.patchFiles p files) (job.patchFiles q files) := by
  induction files generalizing p q with
  | nil => exact ⟨h, rfl⟩
  | cons path rest ih =>
    obtain ⟨hstore, herror⟩ := job.matches_patchFile h path
    unfold patchFiles
    revert hstore herror
    generalize job.patchFile p path = r
    generalize job.patchFile q path = r'
    obtain ⟨p', e⟩ := r
    obtain ⟨q', e'⟩ := r'
    rintro hstore ⟨⟩
    cases e with
    | none => exact ih hstore
    | some e => exact ⟨hstore, rfl⟩

theorem matches_patchPath (h : p.store = q.store) (path : String) :
    Progress.Matches (job.patchPath p path) (job.patchPath q path) := by
  unfold patchPath
  rw [h]
  split
  · refine job.matches_patchFiles ?_ _
    rw [(p.alike_foldl_debugIf _ _ _).store, (q.alike_foldl_debugIf _ _ _).store, h]
  · exact ⟨h, rfl⟩
  · exact ⟨h, rfl⟩

end Job

/-! ### One file -/

namespace Job

variable {job : Job}

/-- The patched text of a file, if it is another one. -/
def newText? (job : Job) (bytes : ByteArray) : Option (List Char) :=
  match patch job.rules job.insertHeader (Encoding.decode bytes).1 with
  | .ok o => if o.text = (Encoding.decode bytes).1 then none else some o.text
  | .error _ => none

/-- The content that takes the place of another one, if the text changes. -/
def newBytes? (job : Job) (bytes : ByteArray) : Option ByteArray :=
  (job.newText? bytes).bind fun text => (Encoding.encode text (Encoding.decode bytes).2).toOption

/-- The store after a file has been patched. -/
def visit (job : Job) (s : Store) (loc : Location) : Store :=
  match job.mode, s.node? loc with
  | .inPlace, some (.file bytes mode) =>
    match job.newBytes? bytes with
    | some new =>
      if job.keepBackups then s.swap loc (.file bytes mode) (.file new mode)
      else s.amend loc (.withContent new)
    | none => s
  | _, _ => s

/-- What a file contributes to the standard output. -/
def printed (job : Job) (path : String) (bytes : ByteArray) : ByteArray :=
  match job.mode with
  | .inPlace => .empty
  | .stdout => (job.newBytes? bytes).getD bytes
  | .diff => (job.newText? bytes).elim .empty fun text =>
    (String.ofList (Diff.unified path (Encoding.decode bytes).1 text)).toUTF8

/-- A file that can be dealt with: it can be read and patched, no directory stands in the place of
its backup, and nothing keeps it from being replaced or written if its text changes. -/
structure Accepts (job : Job) (s : Store) (loc : Location) (bytes : ByteArray) (mode : Nat) :
    Prop where
  /-- The file stands there. -/
  node : s.node? loc = some (.file bytes mode)
  /-- It may be read. -/
  readable : (Node.file bytes mode).isReadable = true
  /-- It can be patched. -/
  patched : ∃ o, patch job.rules job.insertHeader (Encoding.decode bytes).1 = .ok o
  /-- No directory stands in the place of its backup. -/
  backup : s.node? (backupOf loc) ≠ some .directory
  /-- With a backup, nothing keeps it from being replaced if its text changes. -/
  replaceable : job.mode = .inPlace → job.keepBackups = true →
    (job.newBytes? bytes).isSome = true → s.IsReplaceable loc
  /-- Without a backup, it may and can be written if its text changes. -/
  writable : job.mode = .inPlace → job.keepBackups = false → (job.newBytes? bytes).isSome = true →
    (Node.file bytes mode).isWritable = true ∧ s.faults.opening loc = none ∧
      s.faults.writing loc = none

section File

variable {selection : String} {p : Progress} {path : String} {loc : Location} {bytes : ByteArray}
  {mode : Nat}

/-- The new content of a file is its patched text, if that is another one. -/
theorem newBytes?_eq (hrules : Catalog.all.select selection = .ok job.rules) {o : PatchOutcome}
    (h : patch job.rules job.insertHeader (Encoding.decode bytes).1 = .ok o) :
    ∃ new, Encoding.encode o.text (Encoding.decode bytes).2 = .ok new ∧
      job.newText? bytes = (if o.text = (Encoding.decode bytes).1 then none else some o.text) ∧
      job.newBytes? bytes = (if o.text = (Encoding.decode bytes).1 then none else some new) ∧
      new = (job.newBytes? bytes).getD bytes := by
  obtain ⟨new, hnew, -⟩ := exists_encode_of_patch hrules h
  have htext : job.newText? bytes =
      if o.text = (Encoding.decode bytes).1 then none else some o.text := by
    rw [newText?, h]
  have hbytes : job.newBytes? bytes =
      if o.text = (Encoding.decode bytes).1 then none else some new := by
    rw [newBytes?, htext]
    split_ifs
    · rfl
    · simp [hnew, Except.toOption]
  refine ⟨new, hnew, htext, hbytes, ?_⟩
  rw [hbytes]
  split_ifs with hsame
  · -- An unchanged text is written as it was read.
    rw [hsame, Encoding.encode_decode, Except.ok.injEq] at hnew
    exact hnew.symm
  · rfl

/-- A file that can be dealt with is replaced by its new content. -/
theorem replaceFile_eq (h : p.store.Reaches path loc) (hfile : job.Accepts p.store loc bytes mode)
    (hmode : job.mode = .inPlace) {file : PatchedFile} (hpath : file.path = path) {new : ByteArray}
    (hbytes : job.newBytes? bytes = some new) (hnew : file.newBytes = .ok new) :
    ∃ q, job.replaceFile p file = (q, none) ∧ q.store = job.visit p.store loc ∧ q.out = p.out ∧
      q.summary.warnings = p.summary.warnings := by
  have hwrite : Backup.writeFile job.keepBackups p.store path new =
      (job.visit p.store loc, none) := by
    rw [Backup.writeFile, visit, hmode, hfile.node]
    simp only [hbytes]
    cases hkeep : job.keepBackups with
    | true =>
      exact Backup.replace_of_reaches h hfile.node hfile.backup
        (hfile.replaceable hmode hkeep (by simp [hbytes])) new
    | false =>
      obtain ⟨hwritable, hopening, hwriting⟩ := hfile.writable hmode hkeep (by simp [hbytes])
      exact Backup.overwrite_eq h hfile.node hwritable hopening hwriting new
  subst hpath
  rw [replaceFile, hnew]
  simp only [hwrite]
  have htold := (Progress.alike_debugIf { p with store := job.visit p.store loc }
    (job.verbose && job.keepBackups) ("original saved backup=" ++ Backup.pathOf file.path)).trans
    (Progress.alike_tellIf _ (!job.quiet) (Report.patchedFile file.path file.outcome.applied))
  exact ⟨_, rfl, htold.store, htold.out, htold.warnings⟩

/-- **Patching a file** that can be dealt with changes its location and the one of its backup at
most, prints what the mode asks for and meets no error. -/
theorem patchFile_eq (hrules : Catalog.all.select selection = .ok job.rules)
    (h : p.store.Reaches path loc) (hfile : job.Accepts p.store loc bytes mode) :
    ∃ q, job.patchFile p path = (q, none) ∧ q.store = job.visit p.store loc ∧
      q.out = p.out ++ job.printed path bytes ∧ q.summary.warnings = p.summary.warnings := by
  obtain ⟨o, ho⟩ := hfile.patched
  obtain ⟨new, hnew, htext, hbytes, hgetD⟩ := newBytes?_eq hrules ho
  have hread : p.store.read path = .ok bytes := by
    rw [Store.read, h.stat_eq hfile.node (by simp)]
    simp [bind, Except.bind, hfile.readable, pure, Except.pure]
  -- What precedes the delivery is told only.
  let file : PatchedFile := ⟨⟨path, (Encoding.decode bytes).1, (Encoding.decode bytes).2⟩, o⟩
  obtain ⟨q, hq, hpatch⟩ : ∃ q, p.Alike q ∧ job.patchFile p path = job.deliver q file := by
    have hp := p.alike_debugIf (job.verbose && (Encoding.decode bytes).2 == .latin1)
      ("not valid UTF-8, reading as Latin-1 path=" ++ path)
    refine ⟨_, hp.trans (job.alike_account _ file), ?_⟩
    simp only [patchFile, SourceFile.read, hread, SourceFile.patch, ho]
    rfl
  have hchanged : file.isChanged = true ↔ o.text ≠ (Encoding.decode bytes).1 := bne_iff_ne
  rw [hpatch]
  unfold deliver
  cases hmode : job.mode with
  | stdout =>
    have hfileBytes : file.newBytes = .ok new := hnew
    simp only [hfileBytes]
    refine ⟨_, rfl, ?_, ?_, hq.warnings⟩
    · rw [visit, hmode]
      exact hq.store
    · rw [printed, hmode, ← hgetD]
      exact congrArg (· ++ new) hq.out
  | diff =>
    simp only [visit, printed, hmode, htext]
    split_ifs with hsame hsame'
    · exact absurd hsame' (hchanged.mp hsame)
    · exact ⟨_, rfl, hq.store, congrArg (· ++ _) hq.out, hq.warnings⟩
    · exact ⟨q, rfl, hq.store, by rw [hq.out, Option.elim_none, ByteArray.append_empty],
        hq.warnings⟩
    · exact absurd (hchanged.mpr ‹_›) hsame
  | inPlace =>
    have hprinted : job.printed path bytes = .empty := by rw [printed, hmode]
    rw [hprinted, ByteArray.append_empty]
    dsimp only
    split_ifs with hsame
    · rw [if_neg (hchanged.mp hsame)] at hbytes
      have hfileBytes : file.newBytes = .ok new := hnew
      obtain ⟨r, hr, hstore, hout, hwarnings⟩ := replaceFile_eq (hq.store ▸ h) (hq.store ▸ hfile)
        hmode rfl hbytes hfileBytes
      exact ⟨r, hr, hq.store ▸ hstore, hout.trans hq.out, hwarnings.trans hq.warnings⟩
    · rw [if_pos (not_not.mp (mt hchanged.mpr hsame))] at hbytes
      refine ⟨q, rfl, ?_, hq.out, hq.warnings⟩
      simp only [visit, hmode, hfile.node, hbytes, hq.store]

end File

/-! ### Visited locations -/

section Locations

variable {s : Store} {loc : Location}

/-- A visit in place with a backup. -/
theorem visit_inPlace (hmode : job.mode = .inPlace) (hkeep : job.keepBackups = true)
    {bytes : ByteArray} {mode : Nat} (hnode : s.node? loc = some (.file bytes mode)) :
    job.visit s loc =
      match job.newBytes? bytes with
      | some new => s.swap loc (.file bytes mode) (.file new mode)
      | none => s := by
  simp only [visit, hmode, hnode, hkeep, ↓reduceIte]

/-- A visit changes no location but the visited one and the one of its backup.  Without a backup it
changes the visited file under all its names. -/
theorem node?_visit_of_ne (hloc : loc ≠ []) {l : Location} (hl : l ≠ loc)
    (hbackup : l ≠ backupOf loc)
    (hsame : job.mode = .inPlace → job.keepBackups = false → s.isSame loc l = false) :
    (job.visit s loc).node? l = s.node? l := by
  unfold visit
  split
  · rename_i hmode _
    split
    · split_ifs with hkeep
      · rw [node?_swap hloc, if_neg hl, if_neg hbackup]
      · rw [node?_amend hloc, hsame hmode (eq_false_of_ne_true hkeep)]
        rfl
    · rfl
  · rfl

/-- A visit leaves every file its names, save those that it takes the old file from and to. -/
theorem number?_visit (hloc : loc ≠ []) {l : Location}
    (h : job.keepBackups = true → l ≠ loc ∧ l ≠ backupOf loc) :
    (job.visit s loc).number? l = s.number? l := by
  unfold visit
  split
  · split
    · split_ifs with hkeep
      · exact number?_swap_of_ne hloc (h hkeep).1 (h hkeep).2 _ _
      · exact number?_amend hloc (by rintro (_ | _ | _) <;> rfl) l
    · rfl
  · rfl

theorem sameDirectories_visit (hloc : loc ≠ [])
    (hbackup : s.node? (backupOf loc) ≠ some .directory) :
    s.SameDirectories (job.visit s loc) := by
  unfold visit
  split
  · rename_i bytes mode _ hnode
    split
    · split_ifs
      · exact sameDirectories_swap hloc hnode hbackup _ _
      · exact sameDirectories_amend hloc _
    · exact .refl s
  · exact .refl s

/-- Many visits leave a file its names, if they do not take the old files from and to there. -/
theorem number?_foldl_visit {locs : List Location} (hlocs : ∀ d ∈ locs, d ≠ []) {l : Location}
    (h : job.keepBackups = true → ∀ d ∈ locs, l ≠ d ∧ l ≠ backupOf d) :
    (locs.foldl job.visit s).number? l = s.number? l := by
  induction locs generalizing s with
  | nil => rfl
  | cons d rest ih =>
    rw [List.foldl_cons, ih (fun e he => hlocs e (List.mem_cons_of_mem d he))
      fun hkeep e he => h hkeep e (List.mem_cons_of_mem d he)]
    exact number?_visit (hlocs d List.mem_cons_self) fun hkeep => h hkeep d List.mem_cons_self

/-- Locations that are not visited and are not those of backups stay as they are.  Without backups
they have to be those of other files, too. -/
theorem node?_foldl_visit_of_notMem {locs : List Location} (hlocs : ∀ d ∈ locs, d ≠ [])
    {l : Location} (hl : l ∉ locs) (hbackup : ∀ d ∈ locs, l ≠ backupOf d)
    (hsame : job.mode = .inPlace → job.keepBackups = false → ∀ d ∈ locs, s.isSame d l = false) :
    (locs.foldl job.visit s).node? l = s.node? l := by
  induction locs generalizing s with
  | nil => rfl
  | cons d rest ih =>
    rw [List.mem_cons, not_or] at hl
    have hd := hlocs d List.mem_cons_self
    have hnumber : job.keepBackups = false → ∀ l, (job.visit s d).number? l = s.number? l :=
      fun hkeep _ => number?_visit hd fun hkeep' => by simp [hkeep] at hkeep'
    rw [List.foldl_cons, ih (fun e he => hlocs e (List.mem_cons_of_mem d he)) hl.2
      (fun e he => hbackup e (List.mem_cons_of_mem d he))
      fun hmode hkeep e he => by
        rw [isSame, hnumber hkeep, hnumber hkeep]
        exact hsame hmode hkeep e (List.mem_cons_of_mem d he)]
    exact node?_visit_of_ne hd hl.1 (hbackup d List.mem_cons_self)
      fun hmode hkeep => hsame hmode hkeep d List.mem_cons_self

theorem sameDirectories_foldl_visit {locs : List Location}
    (hlocs : ∀ d ∈ locs, d ≠ [] ∧ s.node? (backupOf d) ≠ some .directory) :
    s.SameDirectories (locs.foldl job.visit s) := by
  induction locs generalizing s with
  | nil => exact .refl s
  | cons d rest ih =>
    obtain ⟨hd, hbackup⟩ := hlocs d List.mem_cons_self
    have hvisit : s.SameDirectories (job.visit s d) := sameDirectories_visit hd hbackup
    refine hvisit.trans (ih fun e he => ?_)
    obtain ⟨he, hfree⟩ := hlocs e (List.mem_cons_of_mem d he)
    exact ⟨he, fun h => hfree ((hvisit.directory _).mpr h)⟩

end Locations

/-! ### Runs -/

end Job

/-- A file that a run patches: the path name and the location that it reaches. -/
structure Visit where
  /-- The path name. -/
  path : String
  /-- The location. -/
  loc : Location

namespace Job

variable {job : Job}

/-- What the path names of a run stand for, each when its turn comes: in the store that the files
before it left. -/
def lookups (job : Job) : Progress → List String → List Discovered
  | _, [] => []
  | p, path :: rest =>
    discover p.store job.exclude path ::
      match job.patchPath p path with
      | (p, none) => lookups job p rest
      | (_, some _) => []

theorem lookups_congr {p q : Progress} (h : p.store = q.store) (paths : List String) :
    job.lookups p paths = job.lookups q paths := by
  induction paths generalizing p q with
  | nil => rfl
  | cons path rest ih =>
    obtain ⟨hstore, herror⟩ := job.matches_patchPath h path
    unfold lookups
    rw [h]
    revert hstore herror
    generalize job.patchPath p path = r
    generalize job.patchPath q path = r'
    obtain ⟨p', e⟩ := r
    obtain ⟨q', e'⟩ := r'
    rintro hstore ⟨⟩
    cases e with
    | none => exact congrArg _ (ih hstore)
    | some e => rfl

/-- Files that a run can deal with one after another: they are reached without links, they stand at
different locations, and none of them is the backup of another.  Without backups they are different
files: then a file is changed under all its names. -/
structure Orderly (job : Job) (s : Store) (vs : List Visit) : Prop where
  /-- No link is on the way to a file. -/
  reached : ∀ v ∈ vs, s.Reaches v.path v.loc
  /-- Each of them can be dealt with. -/
  accepted : ∀ v ∈ vs, ∃ bytes mode, job.Accepts s v.loc bytes mode
  /-- They stand at different locations. -/
  distinct : (vs.map Visit.loc).Nodup
  /-- None of them is the backup of another. -/
  apart : ∀ v ∈ vs, ∀ w ∈ vs, v.loc ≠ backupOf w.loc
  /-- Without backups, they are different files. -/
  different : job.mode = .inPlace → job.keepBackups = false →
    vs.Pairwise fun v w => s.isSame v.loc w.loc = false

/-- What a visited file contributes to the standard output. -/
def prints (job : Job) (s : Store) (v : Visit) : ByteArray :=
  match s.node? v.loc with
  | some (.file bytes _) => job.printed v.path bytes
  | _ => .empty

section Run

variable {selection : String} {s : Store} {p : Progress} {done vs : List Visit}

theorem Orderly.left (h : job.Orderly s (done ++ vs)) : job.Orderly s done where
  reached v hv := h.reached v (List.mem_append_left vs hv)
  accepted v hv := h.accepted v (List.mem_append_left vs hv)
  distinct := by
    have hdistinct := h.distinct
    rw [List.map_append] at hdistinct
    exact (List.nodup_append.mp hdistinct).1
  apart v hv w hw := h.apart v (List.mem_append_left vs hv) w (List.mem_append_left vs hw)
  different hmode hkeep := (List.pairwise_append.mp (h.different hmode hkeep)).1

theorem Orderly.perm {vs' : List Visit} (h : job.Orderly s vs) (hperm : vs'.Perm vs) :
    job.Orderly s vs' where
  reached v hv := h.reached v (hperm.mem_iff.mp hv)
  accepted v hv := h.accepted v (hperm.mem_iff.mp hv)
  distinct := (hperm.map Visit.loc).nodup_iff.mpr h.distinct
  apart v hv w hw := h.apart v (hperm.mem_iff.mp hv) w (hperm.mem_iff.mp hw)
  different hmode hkeep := (hperm.pairwise_iff fun hvw => (s.isSame_comm _ _).trans hvw).mpr
    (h.different hmode hkeep)

theorem Orderly.ne_nil (h : job.Orderly s vs) : ∀ d ∈ vs.map Visit.loc, d ≠ [] := by
  intro d hd
  obtain ⟨v, hv, rfl⟩ := List.mem_map.mp hd
  exact (h.reached v hv).ne_nil

theorem Orderly.sameDirectories (h : job.Orderly s vs) :
    s.SameDirectories ((vs.map Visit.loc).foldl job.visit s) := by
  refine sameDirectories_foldl_visit fun d hd => ?_
  obtain ⟨v, hv, rfl⟩ := List.mem_map.mp hd
  obtain ⟨bytes, mode, hfile⟩ := h.accepted v hv
  exact ⟨(h.reached v hv).ne_nil, hfile.backup⟩

/-- A file whose turn has not come stands at no location that was visited. -/
theorem Orderly.ne_of_mem {v : Visit} (h : job.Orderly s (done ++ v :: vs)) :
    ∀ w ∈ done, v.loc ≠ w.loc := by
  intro w hw heq
  have hdistinct := h.distinct
  rw [List.map_append, List.map_cons] at hdistinct
  exact (List.nodup_append.mp hdistinct).2.2 _ (List.mem_map_of_mem hw)
    _ List.mem_cons_self heq.symm

/-- A file whose turn has not come is as it was at the start. -/
theorem Orderly.node?_eq {v : Visit} (h : job.Orderly s (done ++ v :: vs)) :
    ((done.map Visit.loc).foldl job.visit s).node? v.loc = s.node? v.loc := by
  have hv : v ∈ done ++ v :: vs := List.mem_append_right done List.mem_cons_self
  refine node?_foldl_visit_of_notMem h.left.ne_nil ?_ ?_ fun hmode hkeep d hd => ?_
  · intro hmem
    obtain ⟨w, hw, heq⟩ := List.mem_map.mp hmem
    exact h.ne_of_mem w hw heq.symm
  · intro d hd
    obtain ⟨w, hw, rfl⟩ := List.mem_map.mp hd
    exact h.apart v hv w (List.mem_append_left _ hw)
  · obtain ⟨w, hw, rfl⟩ := List.mem_map.mp hd
    exact (List.pairwise_append.mp (h.different hmode hkeep)).2.2 w hw v List.mem_cons_self

/-- Nothing keeps a file whose turn has not come from being replaced, if nothing did at the
start. -/
theorem Orderly.isReplaceable {v : Visit} (h : job.Orderly s (done ++ v :: vs))
    (hfree : s.IsReplaceable v.loc) :
    ((done.map Visit.loc).foldl job.visit s).IsReplaceable v.loc := by
  have hv : v ∈ done ++ v :: vs := List.mem_append_right done List.mem_cons_self
  have hdirs := h.left.sameDirectories
  have hnumber : ∀ l, l = v.loc ∨ l = backupOf v.loc →
      ((done.map Visit.loc).foldl job.visit s).number? l = s.number? l := by
    intro l hl
    refine number?_foldl_visit h.left.ne_nil fun _ d hd => ?_
    obtain ⟨w, hw, rfl⟩ := List.mem_map.mp hd
    have hw' : w ∈ done ++ v :: vs := List.mem_append_left _ hw
    rcases hl with rfl | rfl
    · exact ⟨h.ne_of_mem w hw, h.apart v hv w hw'⟩
    · exact ⟨(h.apart w hw' v hv).symm, fun heq => h.ne_of_mem w hw
        (backupOf_inj (h.reached v hv).ne_nil (h.reached w hw').ne_nil heq)⟩
  refine ⟨hdirs.isOpen _ ▸ hfree.isOpen, ?_, hdirs.faults ▸ hfree.lookUp,
    hdirs.faults ▸ hfree.rename, hdirs.faults ▸ hfree.opening, hdirs.faults ▸ hfree.writing,
    hdirs.faults ▸ hfree.setting⟩
  rw [isSame, hnumber _ (.inl rfl), hnumber _ (.inr rfl)]
  exact hfree.apart

/-- Files that a run can deal with are patched one after another, each as it was at the start. -/
theorem patchFiles_eq (hrules : Catalog.all.select selection = .ok job.rules)
    (h : job.Orderly s (done ++ vs)) (hp : p.store = (done.map Visit.loc).foldl job.visit s) :
    ∃ q, job.patchFiles p (vs.map Visit.path) = (q, none) ∧
      q.store = ((done ++ vs).map Visit.loc).foldl job.visit s ∧
      q.out = vs.foldl (fun out v => out ++ job.prints s v) p.out ∧
      q.summary.warnings = p.summary.warnings := by
  induction vs generalizing done p with
  | nil => exact ⟨p, rfl, by rw [List.append_nil, hp], rfl, rfl⟩
  | cons v vs ih =>
    have hv : v ∈ done ++ v :: vs := List.mem_append_right done List.mem_cons_self
    have hdirs := h.left.sameDirectories
    obtain ⟨bytes, mode, hfile⟩ := h.accepted v hv
    have hnow : job.Accepts p.store v.loc bytes mode :=
      { hfile with
        node := by rw [hp, h.node?_eq, hfile.node]
        backup := by rw [hp]; exact fun hd => hfile.backup ((hdirs.directory _).mpr hd)
        replaceable := fun hmode hkeep hnew =>
          hp ▸ h.isReplaceable (hfile.replaceable hmode hkeep hnew)
        writable := fun hmode hkeep hnew => by
          rw [hp, ← hdirs.faults]
          exact hfile.writable hmode hkeep hnew }
    obtain ⟨q, hq, hstore, hout, hwarnings⟩ :=
      patchFile_eq hrules (hp ▸ (h.reached v hv).congr hdirs) hnow
    have hdone : q.store = ((done ++ [v]).map Visit.loc).foldl job.visit s := by
      rw [hstore, hp, List.map_append, List.foldl_append]
      rfl
    have horderly : job.Orderly s (done ++ [v] ++ vs) := by simpa using h
    obtain ⟨r, hr, hrstore, hrout, hrwarnings⟩ := ih horderly hdone
    refine ⟨r, ?_, by simpa using hrstore, ?_, hrwarnings.trans hwarnings⟩
    · rw [List.map_cons, patchFiles, hq]
      exact hr
    · rw [hrout, hout, List.foldl_cons, prints, hfile.node]

theorem patchPath_eq (hrules : Catalog.all.select selection = .ok job.rules)
    (h : job.Orderly s (done ++ vs)) (hp : p.store = (done.map Visit.loc).foldl job.visit s)
    {path : String} (hvs : (discover p.store job.exclude path).files = vs.map Visit.path) :
    ∃ q, job.patchPath p path = (q, none) ∧
      q.store = ((done ++ vs).map Visit.loc).foldl job.visit s ∧
      q.out = vs.foldl (fun out v => out ++ job.prints s v) p.out ∧
      q.summary.warnings = p.summary.warnings +
        if (discover p.store job.exclude path).isSources then 0 else 1 := by
  unfold patchPath
  cases hd : discover p.store job.exclude path with
  | sources files excluded =>
    rw [hd] at hvs
    have htold := p.alike_foldl_debugIf job.verbose (fun file => "excluded by config path=" ++ file)
      excluded
    obtain ⟨q, hq, hstore, hout, hwarnings⟩ := patchFiles_eq hrules h (htold.store.trans hp)
    rw [← hvs] at hq
    exact ⟨q, hq, hstore, hout.trans (by rw [htold.out]), hwarnings.trans htold.warnings⟩
  | noSources | missing =>
    rw [hd] at hvs
    obtain rfl : vs = [] := List.map_eq_nil_iff.mp hvs.symm
    exact ⟨_, rfl, by rw [List.append_nil]; exact hp, rfl, rfl⟩

/-- **A run over files that it can deal with** meets no error.  It visits their locations one after
another, prints what each of them contributes and warns of the path names without source files. -/
theorem patchPaths_eq (hrules : Catalog.all.select selection = .ok job.rules)
    (h : job.Orderly s (done ++ vs)) (hp : p.store = (done.map Visit.loc).foldl job.visit s)
    {paths : List String}
    (hvs : (job.lookups p paths).flatMap Discovered.files = vs.map Visit.path) :
    ∃ q, job.patchPaths p paths = (q, none) ∧
      q.store = ((done ++ vs).map Visit.loc).foldl job.visit s ∧
      q.out = vs.foldl (fun out v => out ++ job.prints s v) p.out ∧
      q.summary.warnings =
        p.summary.warnings + (job.lookups p paths).countP (!·.isSources) := by
  induction paths generalizing p done vs with
  | nil =>
    obtain rfl : vs = [] := List.map_eq_nil_iff.mp hvs.symm
    exact ⟨p, rfl, by rw [List.append_nil, hp], rfl, rfl⟩
  | cons path rest ih =>
    rw [lookups, List.flatMap_cons] at hvs
    obtain ⟨us, ws, rfl, hus, hws⟩ := List.append_eq_map_iff.mp hvs
    rw [← List.append_assoc] at h
    obtain ⟨q, hq, hstore, hout, hwarnings⟩ := patchPath_eq hrules h.left hp hus.symm
    rw [hq] at hws
    obtain ⟨r, hr, hrstore, hrout, hrwarnings⟩ := ih h hstore hws.symm
    refine ⟨r, ?_, by rw [hrstore, List.append_assoc], ?_, ?_⟩
    · rw [patchPaths, hq]
      exact hr
    · rw [hrout, hout, List.foldl_append]
    · rw [hrwarnings, hwarnings, lookups, hq, List.countP_cons]
      cases (discover p.store job.exclude path).isSources with
      | true => simp
      | false =>
        simp only [Bool.false_eq_true, ↓reduceIte, Bool.not_false]
        omega

/-- What a visit leaves at a location depends on what stood there and at the visited one, and on
whether the two are names of one file. -/
theorem node?_visit_congr {t : Store} {loc l : Location} (hloc : loc ≠ [])
    (h : s.node? loc = t.node? loc) (hl : s.node? l = t.node? l)
    (hsame : job.keepBackups = false → s.isSame loc l = t.isSame loc l) :
    (job.visit s loc).node? l = (job.visit t loc).node? l := by
  unfold visit
  rw [h]
  split
  · split
    · split_ifs with hkeep
      · rw [node?_swap hloc, node?_swap hloc, hl]
      · rw [node?_amend hloc, node?_amend hloc, hl, hsame (eq_false_of_ne_true hkeep)]
    · exact hl
  · exact hl

/-- What a visit leaves of the names of a file depends on the names that it had before, and on
those of the visited one. -/
theorem number?_visit_congr {t : Store} {loc l : Location} (hloc : loc ≠ [])
    (hkeep : job.keepBackups = true) (h : s.node? loc = t.node? loc)
    (hnumber : s.number? loc = t.number? loc) (hl : s.number? l = t.number? l) :
    (job.visit s loc).number? l = (job.visit t loc).number? l := by
  unfold visit
  rw [h]
  split
  · rename_i bytes mode _ hnode
    split
    · rw [if_pos hkeep, if_pos hkeep]
      by_cases hself : l = loc
      · rw [hself, swap, swap, number?_insert_self, number?_insert_self]
      · by_cases hbackup : l = backupOf loc
        · rw [hbackup, number?_swap_backupOf hloc (h.trans hnode), number?_swap_backupOf hloc hnode,
            hnumber]
        · rw [number?_swap_of_ne hloc hself hbackup, number?_swap_of_ne hloc hself hbackup, hl]
    · exact hl
  · exact hl

/-- No other visit touches a visited file or its backup. -/
theorem Orderly.others {v : Visit} {before after : List Visit}
    (h : job.Orderly s (before ++ v :: after)) {l : Location}
    (hl : l = v.loc ∨ l = backupOf v.loc) :
    ∀ w ∈ before ++ after, w ∈ before ++ v :: after ∧ l ≠ w.loc ∧ l ≠ backupOf w.loc := by
  intro w hw
  have hv : v ∈ before ++ v :: after := List.mem_append_right before List.mem_cons_self
  have hmem : w ∈ before ++ v :: after := by
    simpa [or_left_comm] using Or.inr (List.mem_append.mp hw)
  have hdistinct := h.distinct
  rw [List.map_append, List.map_cons, List.perm_middle.nodup_iff, List.nodup_cons,
    ← List.map_append] at hdistinct
  have hne : v.loc ≠ w.loc := fun heq => hdistinct.1 (heq ▸ List.mem_map_of_mem hw)
  refine ⟨hmem, ?_⟩
  rcases hl with rfl | rfl
  · exact ⟨hne, h.apart v hv w hmem⟩
  · exact ⟨(h.apart w hmem v hv).symm,
      fun heq => hne (backupOf_inj (h.reached v hv).ne_nil (h.reached w hmem).ne_nil heq)⟩

/-- The visits of the other files leave the names of a visited file and of its backup alone. -/
theorem Orderly.number?_foldl_others {before after : List Visit} {v : Visit}
    (h : job.Orderly s (before ++ v :: after)) {l : Location} (hl : l = v.loc ∨ l = backupOf v.loc)
    {ws : List Visit} (hws : ∀ w ∈ ws, w ∈ before ++ after) (t : Store) :
    ((ws.map Visit.loc).foldl job.visit t).number? l = t.number? l := by
  refine number?_foldl_visit (List.forall_mem_map.mpr fun w hw => ?_)
    fun _ => List.forall_mem_map.mpr fun w hw => (h.others hl w (hws w hw)).2
  exact (h.reached w (h.others hl w (hws w hw)).1).ne_nil

/-- A visited file and its backup end up with the names that its own visit leaves them. -/
theorem Orderly.number?_of_mem (h : job.Orderly s vs) (hkeep : job.keepBackups = true) {v : Visit}
    (hv : v ∈ vs) {l : Location} (hl : l = v.loc ∨ l = backupOf v.loc) :
    ((vs.map Visit.loc).foldl job.visit s).number? l = (job.visit s v.loc).number? l := by
  obtain ⟨before, after, rfl⟩ := List.append_of_mem hv
  have hbefore : ∀ w ∈ before, w ∈ before ++ after := fun w hw => List.mem_append_left after hw
  rw [List.map_append, List.map_cons, List.foldl_append, List.foldl_cons,
    h.number?_foldl_others hl fun w hw => List.mem_append_right before hw]
  exact number?_visit_congr (h.reached v hv).ne_nil hkeep h.node?_eq
    (h.number?_foldl_others (.inl rfl) hbefore s) (h.number?_foldl_others hl hbefore s)

/-- Without backups all files keep their names. -/
theorem Orderly.number?_overwritten (h : job.Orderly s vs) (hkeep : job.keepBackups = false)
    {ws : List Visit} (hws : ws ⊆ vs) (l : Location) :
    ((ws.map Visit.loc).foldl job.visit s).number? l = s.number? l :=
  number?_foldl_visit (List.forall_mem_map.mpr fun w hw => (h.reached w (hws hw)).ne_nil)
    fun hkeep' => by simp [hkeep] at hkeep'

/-- The visits of the other files leave a visited file and its backup alone. -/
theorem Orderly.node?_foldl_others {before after : List Visit} {v : Visit}
    (h : job.Orderly s (before ++ v :: after)) {l : Location}
    (hl : l = v.loc ∨ job.keepBackups = true ∧ l = backupOf v.loc) {ws : List Visit}
    (hws : ∀ w ∈ ws, w ∈ before ++ after) {t : Store}
    (ht : job.keepBackups = false → ∀ l, t.number? l = s.number? l) :
    ((ws.map Visit.loc).foldl job.visit t).node? l = t.node? l := by
  have hothers := h.others (hl.imp_right And.right)
  refine node?_foldl_visit_of_notMem ?_ ?_ ?_ fun hmode hkeep => ?_
  · exact List.forall_mem_map.mpr fun w hw => (h.reached w (hothers w (hws w hw)).1).ne_nil
  · intro hmem
    obtain ⟨w, hw, heq⟩ := List.mem_map.mp hmem
    exact (hothers w (hws w hw)).2.1 heq.symm
  · exact List.forall_mem_map.mpr fun w hw => (hothers w (hws w hw)).2.2
  · refine List.forall_mem_map.mpr fun w hw => ?_
    obtain rfl := hl.resolve_right fun h => by simp [hkeep] at h
    rw [isSame, ht hkeep, ht hkeep, ← isSame]
    have hpairs := h.different hmode hkeep
    rw [List.pairwise_append, List.pairwise_cons] at hpairs
    rcases List.mem_append.mp (hws w hw) with hw | hw
    · exact hpairs.2.2 w hw v List.mem_cons_self
    · rw [isSame_comm]
      exact hpairs.2.1.1 w hw

/-- **A visited file** ends up as its own visit leaves it, and so does its backup. -/
theorem Orderly.node?_of_mem (h : job.Orderly s vs) {v : Visit} (hv : v ∈ vs) {l : Location}
    (hl : l = v.loc ∨ job.keepBackups = true ∧ l = backupOf v.loc) :
    ((vs.map Visit.loc).foldl job.visit s).node? l = (job.visit s v.loc).node? l := by
  obtain ⟨before, after, rfl⟩ := List.append_of_mem hv
  have hbefore : before ⊆ before ++ v :: after := List.subset_append_left _ _
  have hhere : before ++ [v] ⊆ before ++ v :: after := by simp
  have hvisited : ((before ++ [v]).map Visit.loc).foldl job.visit s =
      job.visit ((before.map Visit.loc).foldl job.visit s) v.loc := by
    rw [List.map_append, List.foldl_append]
    rfl
  rw [List.map_append, List.map_cons, List.foldl_append, List.foldl_cons, ← hvisited,
    h.node?_foldl_others hl (fun w hw => List.mem_append_right before hw)
      fun hkeep => h.number?_overwritten hkeep hhere, hvisited]
  refine node?_visit_congr (h.reached v hv).ne_nil h.node?_eq
    (h.node?_foldl_others hl (fun w hw => List.mem_append_left after hw) fun _ _ => rfl)
    fun hkeep => ?_
  rw [isSame, h.number?_overwritten hkeep hbefore, h.number?_overwritten hkeep hbefore]
  rfl

/-- Every other location ends up as it was. -/
theorem Orderly.number?_of_notMem (h : job.Orderly s vs) {l : Location}
    (hl : ∀ v ∈ vs, l ≠ v.loc ∧ l ≠ backupOf v.loc) :
    ((vs.map Visit.loc).foldl job.visit s).number? l = s.number? l := by
  refine number?_foldl_visit h.ne_nil fun _ d hd => ?_
  obtain ⟨v, hv, rfl⟩ := List.mem_map.mp hd
  exact hl v hv

/-- Every other location ends up as it was. -/
theorem Orderly.node?_of_notMem (h : job.Orderly s vs) (hkeep : job.keepBackups = true)
    {l : Location} (hl : ∀ v ∈ vs, l ≠ v.loc ∧ l ≠ backupOf v.loc) :
    ((vs.map Visit.loc).foldl job.visit s).node? l = s.node? l := by
  refine node?_foldl_visit_of_notMem h.ne_nil ?_ ?_ fun _ hnot => by simp [hkeep] at hnot
  · intro hmem
    obtain ⟨v, hv, heq⟩ := List.mem_map.mp hmem
    exact (hl v hv).1 heq.symm
  · intro d hd
    obtain ⟨v, hv, rfl⟩ := List.mem_map.mp hd
    exact (hl v hv).2

/-- The end of a run tells a little more and makes a status of the warnings. -/
theorem conclude_eq (job : Job) (p : Progress) : ∃ q, p.Alike q ∧
    job.conclude p = q.finish (if q.summary.warnings = 0 then .success else .failure) :=
  ⟨_, (p.alike_tellIf _ _).trans (Progress.alike_debugIf _ _ _), rfl⟩

/-- **A run over files that it can deal with**, from its start to its end. -/
theorem perform_eq (hrules : Catalog.all.select selection = .ok job.rules)
    (h : job.Orderly p.store vs) {paths : List String}
    (hvs : (job.lookups p paths).flatMap Discovered.files = vs.map Visit.path) :
    (job.perform p paths).store = (vs.map Visit.loc).foldl job.visit p.store ∧
      (job.perform p paths).out = vs.foldl (fun out v => out ++ job.prints p.store v) p.out ∧
      ((job.perform p paths).status = .success ↔
        p.summary.warnings = 0 ∧ ∀ d ∈ job.lookups p paths, d.isSources = true) := by
  have htold := (p.alike_debugIf job.verbose
    ("operations: " ++ ", ".intercalate (job.rules.map Rule.name))).trans
    (Progress.alike_debugIf _ job.verbose
      ("starting mode=" ++ job.mode.name ++ " backups=" ++ toString job.keepBackups))
  rw [← lookups_congr htold.store paths] at hvs
  obtain ⟨q, hq, hstore, hout, hwarnings⟩ :=
    @patchPaths_eq job selection p.store _ [] vs hrules h htold.store paths hvs
  rw [lookups_congr htold.store paths, htold.warnings] at hwarnings
  rw [htold.out] at hout
  obtain ⟨r, hr, hconclude⟩ := job.conclude_eq q
  rw [perform, hq]
  simp only [hconclude, Progress.finish]
  refine ⟨hr.store.trans hstore, hr.out.trans hout, ?_⟩
  rw [hr.warnings, hwarnings]
  simp [List.countP_eq_zero]

end Run

end Job

end CApiUpgrade
