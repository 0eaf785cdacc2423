import CApiUpgrade.Proofs.Links

/-!
# The old content of a file

A file with a backup is replaced in steps (`Backup.steps`), any of which may fail: its permission
bits are looked up, what stands at the path name is renamed, the new content is written, as much of
it as goes, and the bits are set.  The path name may lead to the file through links; then it is the
link that is renamed.

`replacement_keeps_content` says that the old content is in full at the path name or at that of the
backup after each of the steps, provided that the backup has no part in what the path name holds
(`Backup.IsApart`): it is neither another name of the file nor on the way there.  Nothing checks
this, and if it is not so the old content may be lost (`replacement_loses_content`).
-/

namespace CApiUpgrade

namespace Store

variable {s t : Store} {loc place : Location} {own : Node}

/-! ### Renaming to the backup -/

/-- The store in which an entry has been renamed to its backup. -/
def saved (s : Store) (place : Location) (own : Node) : Store :=
  s.transfer place (backupOf place) own

/-- Puts a new node in place of an old one, which is kept as the backup. -/
def swap (s : Store) (place : Location) (own new : Node) : Store :=
  (s.saved place own).insert place new

theorem node?_saved (hplace : place ≠ []) (other : Location) : (s.saved place own).node? other =
    if other = backupOf place then some own else if other = place then none else s.node? other :=
  node?_transfer hplace (backupOf_ne_nil place)

theorem node?_swap (hplace : place ≠ []) (own new : Node) (other : Location) :
    (s.swap place own new).node? other =
      if other = place then some new
      else if other = backupOf place then some own else s.node? other := by
  rw [swap, node?_insert hplace, node?_saved hplace]
  split_ifs <;> rfl

/-- A replacement leaves all other files their names. -/
theorem number?_swap_of_ne (hplace : place ≠ []) {other : Location} (hother : other ≠ place)
    (hbackup : other ≠ backupOf place) (own new : Node) :
    (s.swap place own new).number? other = s.number? other := by
  have hnode : (s.swap place own new).node? other = s.node? other := by
    rw [node?_swap hplace, if_neg hother, if_neg hbackup]
  have hne : (other == backupOf place) = false := by simpa using hbackup
  have hnumbers : (s.swap place own new).numbers.lookup other = s.numbers.lookup other := by
    have hmoved : (((s.erase place).insert (backupOf place) own).numbers).lookup other =
        s.numbers.lookup other := lookup_filter_ne hbackup
    rw [swap, insert, lookup_filter_ne hother, saved, transfer]
    cases s.number? place with
    | none => exact hmoved
    | some number =>
      rw [List.lookup_cons, hne]
      exact hmoved
  rw [number?, number?, hnode, hnumbers]

/-- The backup has the other names that the file had. -/
theorem number?_swap_backupOf (hplace : place ≠ []) (hnode : s.node? place = some own)
    (new : Node) : (s.swap place own new).number? (backupOf place) = s.number? place := by
  have hsaved : (s.swap place own new).node? (backupOf place) = s.node? place := by
    rw [node?_swap hplace, if_neg (backupOf_ne_self place), if_pos rfl, hnode]
  have hnone : ((s.erase place).insert (backupOf place) own).numbers.lookup (backupOf place) =
      none := lookup_filter_self _ _
  have hnumbers : (s.swap place own new).numbers.lookup (backupOf place) = s.number? place := by
    rw [swap, insert, lookup_filter_ne (backupOf_ne_self place), saved, transfer]
    cases s.number? place with
    | none => exact hnone
    | some number => simp
  rw [number?, hsaved, hnumbers, number?]
  split_ifs <;> rfl

/-- An entry and its backup stand in one directory, so that neither is above the other. -/
theorem isPrefixOf_backupOf (hplace : place ≠ []) : (backupOf place).isPrefixOf place = false := by
  rw [Bool.eq_false_iff, ne_eq, List.isPrefixOf_iff_prefix]
  intro hfront
  refine backupOf_ne_self place (hfront.eq_of_length ?_)
  simp [backupOf, Nat.sub_add_cancel (List.length_pos_iff.mpr hplace)]

/-- What the renaming to the backup asks for, and what it does. -/
theorem relocate_backup (hplace : place ≠ []) (hown : own.isDirectory = false)
    (hname : s.isSame place (backupOf place) = false) :
    s.relocate place (backupOf place) own =
      if s.isOpen place.dropLast then
        match s.faults.rename place (backupOf place) with
        | some cause => .error cause
        | none =>
          if s.node? (backupOf place) = some .directory then .error .isADirectory
          else .ok (s.saved place own)
      else .error .permissionDenied := by
  have hdir : (backupOf place).dropLast = place.dropLast := by simp [backupOf]
  rw [relocate, hname, hown, isPrefixOf_backupOf hplace, mayRelocate, hdir, hown]
  simp only [Bool.false_and, Bool.false_eq_true, if_false, Bool.and_self, Bool.not_false,
    Bool.true_or, Bool.and_true]
  split_ifs with hopen hold
  · cases s.faults.rename place (backupOf place) <;> simp [settle, hown, hold]
  · cases s.faults.rename place (backupOf place) with
    | some cause => rfl
    | none =>
      simp only [settle, hown, Bool.false_eq_true, if_false]
      cases hnode : s.node? (backupOf place) with
      | none => rfl
      | some node =>
        cases node with
        | directory => exact absurd hnode hold
        | file _ _ | link _ => rfl
  · rfl

theorem eq_saved_of_relocate (hplace : place ≠ []) (hown : own.isDirectory = false)
    (hname : s.isSame place (backupOf place) = false)
    (h : s.relocate place (backupOf place) own = .ok t) :
    t = s.saved place own ∧ s.node? (backupOf place) ≠ some .directory := by
  rw [relocate_backup hplace hown hname] at h
  cases hfault : s.faults.rename place (backupOf place) with
  | some cause =>
    simp only [hfault] at h
    split_ifs at h
  | none =>
    simp only [hfault] at h
    split_ifs at h with hopen hold
    exact ⟨(Except.ok.inj h).symm, hold⟩

/-- Nothing keeps an entry from being replaced: entries of its directory may be changed, its backup
is no other name of it, and nothing goes wrong from outside. -/
structure IsReplaceable (s : Store) (place : Location) : Prop where
  /-- Entries of the directory may be changed. -/
  isOpen : s.isOpen place.dropLast = true
  /-- The backup is no other name of the file. -/
  apart : s.isSame place (backupOf place) = false
  /-- The permission bits can be looked up. -/
  lookUp : s.faults.lookUp place = none
  /-- The entry can be renamed. -/
  rename : s.faults.rename place (backupOf place) = none
  /-- The new file can be opened. -/
  opening : s.faults.opening place = none
  /-- The new content can be written. -/
  writing : s.faults.writing place = none
  /-- The permission bits can be set. -/
  setting : s.faults.setting place = none

/-! ### Writing the new file -/

variable {path : String} {content bytes : ByteArray} {mode : Nat}

/-- The permission bits of a file are looked up, if that does not fail from outside. -/
theorem mode_eq (h : s.stat path = .ok (loc, .file bytes mode)) : s.mode path =
    match s.faults.lookUp loc with
    | some cause => .error cause
    | none => .ok mode := by
  rw [Store.mode, h]
  rfl

/-- A path name that leads to a place where nothing stands leads there when there is a file. -/
theorem Names.insert_file (h : s.Names path place) (hnode : s.node? place = none)
    (content : ByteArray) (mode : Nat) :
    (s.insert place (.file content mode)).Names path place := by
  have hplace := h.ne_nil
  obtain ⟨hne, above, left, dir, name, hsteps, hdot, hdots, hleads, rfl⟩ := h
  refine ⟨hne, above, left, dir, name, hsteps, hdot, hdots,
    hleads.congr fun l node hl _ => ?_, rfl⟩
  have hother : l ≠ dir ++ [name] := by
    rintro rfl
    simp [hnode] at hl
  rw [node?_insert hplace, if_neg hother, hl]

/-- A new file is made, if entries of its directory may be changed. -/
theorem openEmpty_eq (h : s.Names path place) (hnode : s.node? place = none) :
    s.openEmpty path =
      if s.isOpen place.dropLast then
        match s.faults.opening place with
        | some cause => .error cause
        | none => .ok (place, s.insert place (.file .empty Node.newFileMode))
      else .error .permissionDenied := by
  rw [openEmpty, h.ending.2.1, h.resolve_eq true (by simp [hnode])]
  simp only [Bool.false_eq_true, if_false, bind, Except.bind, hnode]
  cases s.isOpen place.dropLast <;> rfl

/-- The content of a new file, or a part of it. -/
theorem write_cases (h : s.Names path place) (hnode : s.node? place = none)
    (content : ByteArray) :
    (∃ cause, s.write path content = (s, some cause)) ∨
      ∃ part fault, s.write path content =
          (s.insert place (.file part Node.newFileMode), fault) ∧
        (fault = none → part = content) := by
  rw [write, openEmpty_eq h hnode]
  split_ifs
  · cases s.faults.opening place with
    | some cause => exact .inl ⟨cause, rfl⟩
    | none =>
      right
      simp only [fill, amend_insert, Node.withContent]
      split
      · exact ⟨_, _, rfl, by simp⟩
      · exact ⟨_, _, rfl, fun _ => rfl⟩
  · exact .inl ⟨_, rfl⟩

/-- A new file gets permission bits, if that does not fail from outside. -/
theorem setMode_insert (h : s.Names path place) (hnode : s.node? place = none)
    (content : ByteArray) (newMode mode : Nat) :
    (s.insert place (.file content newMode)).setMode path mode =
      match s.faults.setting place with
      | some cause => .error cause
      | none => .ok (s.insert place (.file content mode)) := by
  have hnew :
      (s.insert place (.file content newMode)).node? place = some (.file content newMode) := by
    rw [node?_insert h.ne_nil, if_pos rfl]
  rw [setMode, (h.insert_file hnode content newMode).stat_eq hnew (by simp)]
  simp only [bind, Except.bind, Node.isDirectory, amend_insert, Node.withMode]
  rfl

end Store

open Store

namespace Backup

variable {s : Store} {path : String} {content : ByteArray} {place loc : Location} {own : Node}
  {bytes : ByteArray} {mode : Nat}

/-! ### The steps one after another -/

section Steps

variable {step : Step} {rest : List Step} {stage next : Stage} {e : BackupError}

theorem takeSteps_cons_of_ok (h : step.take path content stage = (next, none)) :
    takeSteps path content (step :: rest) stage = takeSteps path content rest next := by
  rw [takeSteps, h]

theorem takeSteps_cons_of_error (h : step.take path content stage = (next, some e)) :
    takeSteps path content (step :: rest) stage = (next, some e) := by
  rw [takeSteps, h]

theorem take_lookUp_of_error (stage : Stage) {cause : OsError}
    (h : stage.store.mode path = .error cause) :
    Step.lookUp.take path content stage = (stage, some (.noMetadata path cause)) := by
  simp only [Step.take, h]

theorem take_lookUp_of_ok (stage : Stage) (h : stage.store.mode path = .ok mode) :
    Step.lookUp.take path content stage = ({ stage with mode }, none) := by
  simp only [Step.take, h]

theorem take_save_of_error (stage : Stage) {cause : OsError}
    (h : stage.store.rename path (pathOf path) = .error cause) :
    Step.save.take path content stage = (stage, some (.notSaved path (pathOf path) cause)) := by
  simp only [Step.take, h]

theorem take_save_of_ok (stage : Stage) {store : Store}
    (h : stage.store.rename path (pathOf path) = .ok store) :
    Step.save.take path content stage = ({ stage with store }, none) := by
  simp only [Step.take, h]

/-- What a replacement may leave: the store as it was, or with the old entry as the backup, alone or
beside a new file. -/
def MayLeave (s : Store) (place : Location) (own : Node) (t : Store) : Prop :=
  t = s ∨ t = s.saved place own ∨ ∃ part bits, t = s.swap place own (.file part bits)

/-- Behind the renaming: the old entry is the backup, alone or beside a new file, and after success
the new file is complete. -/
theorem takeSteps_write (content : ByteArray) (stage : Stage)
    (hsaved : (s.saved place own).Names path place) (hstage : stage.store = s.saved place own)
    (n : Nat) :
    MayLeave s place own (takeSteps path content ([.write, .restore].take n) stage).1.store ∧
      ((takeSteps path content ([.write, .restore].take n) stage).2 = none → 2 ≤ n →
        (takeSteps path content ([.write, .restore].take n) stage).1.store =
          s.swap place own (.file content stage.mode)) := by
  have hgone : (s.saved place own).node? place = none := by
    rw [node?_saved hsaved.ne_nil, if_neg (backupOf_ne_self place).symm, if_pos rfl]
  match n with
  | 0 => exact ⟨.inr (.inl hstage), fun _ h => by omega⟩
  | n + 1 =>
    rw [List.take_succ_cons]
    obtain ⟨cause, hwrite⟩ | ⟨part, fault, hwrite, hpart⟩ := write_cases hsaved hgone content
    · have htake : Step.write.take path content stage =
          (stage, some (.notWritten path cause)) := by
        rw [Step.take, hstage, hwrite, ← hstage]
        rfl
      rw [takeSteps_cons_of_error htake]
      exact ⟨.inr (.inl hstage), by simp⟩
    have htake : Step.write.take path content stage =
        ({ stage with store := s.swap place own (.file part Node.newFileMode) },
          fault.map (.notWritten path)) := by
      rw [Step.take, hstage, hwrite]
      rfl
    cases fault with
    | some cause =>
      rw [takeSteps_cons_of_error htake]
      exact ⟨.inr (.inr ⟨part, _, rfl⟩), by simp⟩
    | none =>
      obtain rfl := hpart rfl
      rw [takeSteps_cons_of_ok htake]
      match n with
      | 0 => exact ⟨.inr (.inr ⟨part, _, rfl⟩), fun _ h => by omega⟩
      | n + 1 =>
        rw [List.take_succ_cons, List.take_nil, takeSteps, Step.take, swap,
          setMode_insert hsaved hgone]
        cases (s.saved place own).faults.setting place with
        | some cause => exact ⟨.inr (.inr ⟨part, _, rfl⟩), by simp⟩
        | none => exact ⟨.inr (.inr ⟨part, _, rfl⟩), fun _ _ => rfl⟩

/-- **The steps of a replacement** leave one of the stores that they may leave, whichever of them
are taken, and after success the new file is complete. -/
theorem takeSteps_take (content : ByteArray) (hfile : s.stat path = .ok (loc, .file bytes mode))
    (hnames : s.Names path place) (hnode : s.node? place = some own)
    (hown : own.isDirectory = false) (hname : s.isSame place (backupOf place) = false)
    (hsaved : (s.saved place own).Names path place) (n : Nat) :
    MayLeave s place own (takeSteps path content (steps.take n) { store := s }).1.store ∧
      ((takeSteps path content (steps.take n) { store := s }).2 = none → 4 ≤ n →
        (takeSteps path content (steps.take n) { store := s }).1.store =
          s.swap place own (.file content mode)) := by
  match n with
  | 0 => exact ⟨.inl rfl, fun _ h => by omega⟩
  | n + 1 =>
    rw [steps, List.take_succ_cons]
    cases hmode : s.mode path with
    | error cause =>
      rw [takeSteps_cons_of_error (take_lookUp_of_error { store := s } hmode)]
      exact ⟨.inl rfl, by simp⟩
    | ok bits =>
      obtain rfl : bits = mode := by
        rw [mode_eq hfile] at hmode
        split at hmode
        · simp at hmode
        · exact (Except.ok.inj hmode).symm
      rw [takeSteps_cons_of_ok (take_lookUp_of_ok { store := s } hmode)]
      match n with
      | 0 => exact ⟨.inl rfl, fun _ h => by omega⟩
      | n + 1 =>
        rw [List.take_succ_cons]
        cases hrename : s.rename path (pathOf path) with
        | error cause =>
          rw [takeSteps_cons_of_error (take_save_of_error { store := s, mode := bits } hrename)]
          exact ⟨.inl rfl, by simp⟩
        | ok saved =>
          rw [takeSteps_cons_of_ok (take_save_of_ok { store := s, mode := bits } hrename)]
          rw [hnames.rename_pathOf hnode hown] at hrename
          obtain ⟨rfl, -⟩ := eq_saved_of_relocate hnames.ne_nil hown hname hrename
          obtain ⟨hleft, hdone⟩ :=
            takeSteps_write content { store := s.saved place own, mode := bits } hsaved rfl n
          exact ⟨hleft, fun hnone hn => hdone hnone (by omega)⟩

/-- **A replacement succeeds** if nothing keeps the entry from being replaced. -/
theorem replace_eq (hfile : s.stat path = .ok (loc, .file bytes mode))
    (hlookUp : s.faults.lookUp loc = none) (hnames : s.Names path place)
    (hnode : s.node? place = some own) (hown : own.isDirectory = false)
    (hdir : s.node? (backupOf place) ≠ some .directory)
    (hsaved : (s.saved place own).Names path place) (h : s.IsReplaceable place) :
    replace s path content = (s.swap place own (.file content mode), none) := by
  have hgone : (s.saved place own).node? place = none := by
    rw [node?_saved hnames.ne_nil, if_neg (backupOf_ne_self place).symm, if_pos rfl]
  have hrename : s.rename path (pathOf path) = .ok (s.saved place own) := by
    rw [hnames.rename_pathOf hnode hown, relocate_backup hnames.ne_nil hown h.apart, h.isOpen,
      h.rename]
    simp only [if_true, if_neg hdir]
  have hopen : (s.saved place own).isOpen place.dropLast = true := h.isOpen
  have hopening : (s.saved place own).faults.opening place = none := h.opening
  have hwriting : ((s.saved place own).insert place
      (.file .empty Node.newFileMode)).faults.writing place = none := h.writing
  have hsetting : (s.saved place own).faults.setting place = none := h.setting
  have hwrite : (s.saved place own).write path content =
      (s.swap place own (.file content Node.newFileMode), none) := by
    rw [Store.write, openEmpty_eq hsaved hgone, if_pos hopen, hopening]
    simp only [fill, hwriting, amend_insert]
    rfl
  have hmode : s.mode path = .ok mode := by rw [mode_eq hfile, hlookUp]
  have hsteps : takeSteps path content steps { store := s } =
      ({ store := s.swap place own (.file content mode), mode }, none) := by
    rw [steps, takeSteps_cons_of_ok (take_lookUp_of_ok { store := s } hmode),
      takeSteps_cons_of_ok (take_save_of_ok { store := s, mode } hrename)]
    simp only [takeSteps, Step.take, hwrite, Option.map_none, swap, setMode_insert hsaved hgone,
      hsetting]
  rw [replace, hsteps]

end Steps

/-! ### Backups that have no part in what they save -/

/-- The backup has no part in what a path name holds, a regular file with the given content and
permission bits: `place` is where the path name itself leads and `loc` where the file stands. -/
structure IsApart (s : Store) (path : String) (place loc : Location) (bytes : ByteArray)
    (mode : Nat) : Prop where
  /-- What stands at the path name itself is the file or a link. -/
  own : ∃ node, s.linkStat path = .ok (place, node) ∧ node ≠ .directory
  /-- The backup is not on the way to the file: the path name leads there without it. -/
  way : (s.erase (backupOf place)).stat path = .ok (loc, .file bytes mode)
  /-- The backup is no other name of the file. -/
  name : s.isSame place (backupOf place) = false

namespace IsApart

variable {t : Store} {dir : Location} {name target : String} {above : List String} {left : Nat}

theorem stat_eq (h : IsApart s path place loc bytes mode) :
    s.stat path = .ok (loc, .file bytes mode) :=
  stat_of_extends (extends_erase (backupOf_ne_nil place)) h.way

/-- The way to the file in the store without the backup: the names in front of the last one lead to
the directory, and the walk goes on from there. -/
theorem exists_way (h : IsApart s path place loc bytes mode) (htree : s.IsTree) :
    ∃ above left dir name, path ≠ "" ∧ Path.steps path = above ++ [name] ∧ name ≠ "." ∧
    name ≠ ".." ∧
      (s.erase (backupOf place)).Leads maxLinks (s.base path) above left dir ∧
      place = dir ++ [name] ∧ s.node? dir = some .directory ∧
      (s.erase (backupOf place)).walkLinks true left dir [name] = .ok loc := by
  obtain ⟨own, hown, hdir⟩ := h.own
  obtain ⟨hne, above, left, dir, name, hsteps, hdot, hdots, hleads, hplace⟩ :=
    names_of_linkStat htree hown hdir
  have hwalk := (stat_eq_ok h.way).1
  rw [resolve, if_neg hne, hsteps] at hwalk
  obtain ⟨left', dir', hleads', hlast⟩ := exists_leads true (by simp) hwalk
  have hback := hleads'.congr fun l node hl _ =>
    (extends_erase (backupOf_ne_nil place)).node l node hl
  obtain ⟨rfl, rfl⟩ := hleads.unique hback
  exact ⟨above, left, dir, name, hne, hsteps, hdot, hdots, hleads', hplace,
    hleads.node?_eq_directory htree (htree.base path), hlast⟩

/-- The last name on the way is that of the link, and the way goes on from there. -/
theorem exists_target (hplace : place = dir ++ [name]) (hdot : name ≠ ".") (hdots : name ≠ "..")
    (hlink : t.node? place = some (.link target))
    (hlast : t.walkLinks true left dir [name] = .ok loc) :
    ∃ fewer, left = fewer + 1 ∧
      t.walkLinks true fewer (linkStart place target) (Path.steps target) = .ok loc := by
  rw [walkLinks_eq, walk, if_neg hdot, if_neg hdots] at hlast
  simp only [← hplace, hlink, Bool.not_true, Bool.and_false, Bool.false_eq_true, if_false,
    List.append_nil] at hlast
  cases left with
  | zero => simp [afterLink] at hlast
  | succ fewer =>
    have hstart : linkStart place target = if Path.isAbsolute target then [] else dir := by
      rw [linkStart, hplace, List.dropLast_concat]
    exact ⟨fewer, rfl, hstart ▸ hlast⟩

/-- A link at the path name itself leads to the file without the link and the backup, and so does
the way to it. -/
theorem leads_of_link (h : IsApart s path place loc bytes mode) (htree : s.IsTree)
    (hplace : place = dir ++ [name]) (hdot : name ≠ ".") (hdots : name ≠ "..")
    (hlink : s.node? place = some (.link target)) (hdir : s.node? dir = some .directory)
    (hleads : (s.erase (backupOf place)).Leads maxLinks (s.base path) above left dir)
    (hlast : (s.erase (backupOf place)).walkLinks true left dir [name] = .ok loc) :
    ((s.erase (backupOf place)).erase place).Leads maxLinks (s.base path) above left dir ∧
      ∃ fewer, left = fewer + 1 ∧
        ((s.erase (backupOf place)).erase place).walkLinks true fewer (linkStart place target)
          (Path.steps target) = .ok loc := by
  have hsmaller := extends_erase (s := s) (backupOf_ne_nil place)
  have hfile := (stat_eq_ok h.way).2
  have hlink' : (s.erase (backupOf place)).node? place = some (.link target) := by
    rw [node?_erase (backupOf_ne_nil place), if_neg (backupOf_ne_self place).symm, hlink]
  have hstart : s.node? (linkStart place target) = some .directory := by
    rw [linkStart, hplace, List.dropLast_concat]
    split_ifs
    · rfl
    · exact hdir
  obtain ⟨fewer, rfl, htarget⟩ := exists_target hplace hdot hdots hlink' hlast
  refine ⟨?_, fewer, rfl, walkLinks_erase_link hsmaller htree hlink' hstart hfile htarget⟩
  -- The way to the directory does not lead through the link either: behind a file there is nothing.
  have hnotBehind : ∀ {n : Nat} {rest : List String},
      (s.erase (backupOf place)).walkLinks true n (linkStart place target)
        (Path.steps target ++ rest) ≠ .ok dir := by
    intro n rest hwalk
    by_cases hrest : rest = []
    · have hother : dir ≠ backupOf place := by
        intro heq
        have hlen := congrArg List.length heq
        simp [hplace, backupOf] at hlen
      have hdir' : (s.erase (backupOf place)).node? dir = some .directory := by
        rw [node?_erase (backupOf_ne_nil place), if_neg hother, hdir]
      rw [hrest, List.append_nil] at hwalk
      obtain rfl := walkLinks_unique (by simp [hfile]) (by simp [hdir']) htarget hwalk
      simp [hfile] at hdir'
    · exact not_walkLinks_of_leads_to_file hsmaller htree hstart hfile htarget hrest hwalk
  have hhere : (s.erase (backupOf place)).walkLinks true maxLinks (s.base path) (above ++ ["."]) =
      .ok dir := by
    rw [hleads.walkLinks_append (.inl rfl), walkLinks_eq, walk, if_pos rfl, walk]
  obtain hhere | ⟨n, rest, -, hwalk⟩ := walkLinks_erase_or hlink' hhere
  · obtain ⟨left', dir', hleads', hstop⟩ := exists_leads true (by simp) hhere
    rw [walkLinks_eq, walk, if_pos rfl, walk, Except.ok.injEq] at hstop
    subst hstop
    have hplace' : place ≠ [] := by simp [hplace]
    have hback := hleads'.congr fun l node hl _ => (extends_erase hplace').node l node hl
    obtain ⟨rfl, -⟩ := hleads.unique hback
    exact hleads'
  · exact absurd hwalk hnotBehind

/-- What stands elsewhere without the backup still does when only the two entries have changed. -/
theorem node?_of_erase (hrest : ∀ l, l ≠ place → l ≠ backupOf place → t.node? l = s.node? l)
    {l : Location} {node : Node} (hl : (s.erase (backupOf place)).node? l = some node)
    (hne : l ≠ place) : t.node? l = some node := by
  rw [node?_erase (backupOf_ne_nil place)] at hl
  split_ifs at hl with hbackup
  rw [hrest l hne hbackup, hl]

/-- A file is found at its backup. -/
theorem later_of_file (h : IsApart s path place loc bytes mode) (htree : s.IsTree)
    {b : ByteArray} {m : Nat} (hnode : s.node? place = some (.file b m))
    (hold : t.node? (backupOf place) = s.node? place)
    (hrest : ∀ l, l ≠ place → l ≠ backupOf place → t.node? l = s.node? l)
    (hwork : t.workDir = s.workDir) :
    t.Names path place ∧ ∃ l, t.stat (pathOf path) = .ok (l, .file bytes mode) := by
  obtain ⟨above, left, dir, name, hne, hsteps, hdot, hdots, hleads, hplace, -, hlast⟩ :=
    h.exists_way htree
  have hself : place ≠ backupOf place := (backupOf_ne_self place).symm
  obtain rfl : loc = place := by
    rw [walkLinks_eq, walk, if_neg hdot, if_neg hdots] at hlast
    simp only [← hplace, node?_erase (backupOf_ne_nil place), if_neg hself, hnode,
      List.isEmpty_nil, if_true, Except.ok.injEq] at hlast
    exact hlast.symm
  obtain ⟨rfl, rfl⟩ : b = bytes ∧ m = mode := by
    have hfile := (stat_eq_ok h.stat_eq).2
    rw [hnode] at hfile
    simpa using hfile
  have hbase : t.base path = s.base path := by rw [Store.base, Store.base, hwork]
  have hnames : t.Names path loc := by
    refine ⟨hne, above, left, dir, name, hsteps, hdot, hdots, hbase ▸ hleads.congr ?_, hplace⟩
    intro l node hl hother
    refine node?_of_erase hrest hl ?_
    rintro rfl
    rw [node?_erase (backupOf_ne_nil l), if_neg hself, hnode] at hl
    simp [← Option.some.inj hl, Node.isFile] at hother
  exact ⟨hnames, _, hnames.backup.stat_eq (hold.trans hnode) (by simp)⟩

/-- A link leads from its backup to where it led before. -/
theorem later_of_link (h : IsApart s path place loc bytes mode) (htree : s.IsTree)
    (hnode : s.node? place = some (.link target))
    (hold : t.node? (backupOf place) = s.node? place)
    (hrest : ∀ l, l ≠ place → l ≠ backupOf place → t.node? l = s.node? l)
    (hwork : t.workDir = s.workDir) :
    t.Names path place ∧ ∃ l, t.stat (pathOf path) = .ok (l, .file bytes mode) := by
  obtain ⟨above, left, dir, name, hne, hsteps, hdot, hdots, hleads, hplace, hdir, hlast⟩ :=
    h.exists_way htree
  obtain ⟨hleads, fewer, rfl, htarget⟩ :=
    h.leads_of_link htree hplace hdot hdots hnode hdir hleads hlast
  have hplace' : place ≠ [] := by simp [hplace]
  have hext : ((s.erase (backupOf place)).erase place).Extends t := by
    refine ⟨fun l node hl => ?_, hwork.symm⟩
    rw [node?_erase hplace'] at hl
    split_ifs at hl with hother
    exact node?_of_erase hrest hl hother
  have hfile : ((s.erase (backupOf place)).erase place).node? loc = some (.file bytes mode) := by
    have hother : loc ≠ place := by
      rintro rfl
      simp [(stat_eq_ok h.stat_eq).2] at hnode
    rw [node?_erase hplace', if_neg hother, (stat_eq_ok h.way).2]
  have hbase : t.base path = s.base path := by rw [Store.base, Store.base, hwork]
  have hleads' := hleads.congr fun l node hl _ => hext.node l node hl
  rw [← hbase] at hleads'
  have hbackup : t.node? (dir ++ [name ++ ".old"]) = some (.link target) := by
    rw [← backupOf_append, ← hplace, hold, hnode]
  obtain ⟨-, hends⟩ := Path.endsIn_backup hsteps hdot hdots
  have hresolve : t.resolve true (pathOf path) = .ok loc := by
    have hne' : pathOf path ≠ "" := append_old_ne_of_length_lt (by decide)
    have hdot' : name ++ ".old" ≠ "." := append_old_ne_of_length_lt (by decide)
    have hdots' : name ++ ".old" ≠ ".." := append_old_ne_of_length_lt (by decide)
    rw [resolve, if_neg hne', hends.steps, t.base_pathOf hne,
      hleads'.walkLinks_append (.inl rfl), walkLinks_eq, walk, if_neg hdot', if_neg hdots']
    simp only [hbackup, Bool.not_true, Bool.and_false, Bool.false_eq_true, if_false,
      List.append_nil, afterLink]
    have hwalk := walkLinks_of_extends hext (by simp [hfile]) htarget
    rwa [linkStart, hplace, List.dropLast_concat] at hwalk
  refine ⟨⟨hne, above, _, dir, name, hsteps, hdot, hdots, hleads', hplace⟩, loc, ?_⟩
  simp [Store.stat, hresolve, hext.node _ _ hfile, bind, Except.bind, pure, Except.pure]

/-- **Once the entry is the backup**, the path name leads to its place still, and that of the backup
to the old content.  Something else may stand in its place by then. -/
theorem later (h : IsApart s path place loc bytes mode) (htree : s.IsTree)
    (hold : t.node? (backupOf place) = s.node? place)
    (hrest : ∀ l, l ≠ place → l ≠ backupOf place → t.node? l = s.node? l)
    (hwork : t.workDir = s.workDir) :
    t.Names path place ∧ ∃ l, t.stat (pathOf path) = .ok (l, .file bytes mode) := by
  obtain ⟨own, hown, hkind⟩ := h.own
  have hnode := (linkStat_eq_ok hown).2
  cases own with
  | directory => exact absurd rfl hkind
  | file b m => exact h.later_of_file htree hnode hold hrest hwork
  | link target => exact h.later_of_link htree hnode hold hrest hwork

/-- After the first change. -/
theorem later_saved (h : IsApart s path place loc bytes mode) (htree : s.IsTree)
    (hnode : s.node? place = some own) (hplace : place ≠ []) :
    (s.saved place own).Names path place ∧
      ∃ l, (s.saved place own).stat (pathOf path) = .ok (l, .file bytes mode) := by
  refine h.later htree ?_ (fun l hl hbackup => ?_) rfl
  · rw [node?_saved hplace, if_pos rfl, hnode]
  · rw [node?_saved hplace, if_neg hbackup, if_neg hl]

/-- When a file stands in its place. -/
theorem later_swap (h : IsApart s path place loc bytes mode) (htree : s.IsTree)
    (hnode : s.node? place = some own) (hplace : place ≠ []) (new : Node) :
    (s.swap place own new).Names path place ∧
      ∃ l, (s.swap place own new).stat (pathOf path) = .ok (l, .file bytes mode) := by
  refine h.later htree ?_ (fun l hl hbackup => ?_) rfl
  · rw [node?_swap hplace, if_neg (backupOf_ne_self place), if_pos rfl, hnode]
  · rw [node?_swap hplace, if_neg hl, if_neg hbackup]

end IsApart

/-- A store that a replacement may leave keeps the old content, and the rest as it was. -/
theorem MayLeave.keeps {t : Store} (ht : MayLeave s place own t) (htree : s.IsTree)
    (h : IsApart s path place loc bytes mode) (hnode : s.node? place = some own)
    (hplace : place ≠ []) :
    ((∃ l, t.stat path = .ok (l, .file bytes mode)) ∨
      ∃ l, t.stat (pathOf path) = .ok (l, .file bytes mode)) ∧
    ∀ l, l ≠ place → l ≠ backupOf place → t.node? l = s.node? l := by
  obtain rfl | rfl | ⟨part, bits, rfl⟩ := ht
  · exact ⟨.inl ⟨loc, h.stat_eq⟩, fun _ _ _ => rfl⟩
  · refine ⟨.inr (h.later_saved htree hnode hplace).2, fun l hl hbackup => ?_⟩
    rw [node?_saved hplace, if_neg hbackup, if_neg hl]
  · refine ⟨.inr (h.later_swap htree hnode hplace _).2, fun l hl hbackup => ?_⟩
    rw [node?_swap hplace, if_neg hl, if_neg hbackup]

/-- **A directory in the place of the backup** makes the replacement fail at its first change. -/
theorem replace_of_directory (hnames : s.Names path place) (hnode : s.node? place = some own)
    (hown : own.isDirectory = false) (hdir : s.node? (backupOf place) = some .directory) :
    ∃ e, replace s path content = (s, some e) := by
  have hname : s.isSame place (backupOf place) = false := by
    have hnumber : s.number? (backupOf place) = none := by simp [number?, hdir, Node.isFile]
    have hne : (place == backupOf place) = false := by simpa using (backupOf_ne_self place).symm
    cases hplace : s.number? place <;> simp [isSame, hnumber, hne, hplace]
  obtain ⟨cause, hrename⟩ : ∃ cause, s.rename path (pathOf path) = .error cause := by
    cases hrename : s.rename path (pathOf path) with
    | error cause => exact ⟨cause, rfl⟩
    | ok t =>
      rw [hnames.rename_pathOf hnode hown] at hrename
      exact absurd hdir (eq_saved_of_relocate hnames.ne_nil hown hname hrename).2
  rw [replace, steps]
  cases hmode : s.mode path with
  | error cause =>
    rw [takeSteps_cons_of_error (take_lookUp_of_error { store := s } hmode)]
    exact ⟨_, rfl⟩
  | ok mode =>
    rw [takeSteps_cons_of_ok (take_lookUp_of_ok { store := s } hmode),
      takeSteps_cons_of_error (take_save_of_error { store := s, mode } hrename)]
    exact ⟨_, rfl⟩

end Backup

/-- **The old content is never lost** if the backup has no part in it.  A path name holds a regular
file; its backup is neither another name of the file nor on the way to it.  Then, whichever of the
steps have been taken and wherever the replacement has stopped, the old content is in full at the
path name or at that of the backup, and nothing has changed but the two entries.  After success the
new content is at the path name, with the old permission bits, and the old content at that of the
backup, whatever stood there; and success it is, unless a directory stands there, entries of the
directory above may not be changed or something goes wrong from outside.

A directory in the place of the backup, or no file at all, makes the replacement fail and leaves the
store as it was. -/
theorem replacement_keeps_content {s : Store} (htree : s.IsTree) (path : String)
    (content : ByteArray) :
    (∀ place loc bytes mode, Backup.IsApart s path place loc bytes mode →
      (∀ n, let t := (Backup.takeSteps path content (Backup.steps.take n) { store := s }).1.store
        ((∃ l, t.stat path = .ok (l, .file bytes mode)) ∨
          ∃ l, t.stat (Backup.pathOf path) = .ok (l, .file bytes mode)) ∧
        ∀ l, l ≠ place → l ≠ backupOf place → t.node? l = s.node? l) ∧
      (∀ t, Backup.writeFile true s path content = (t, none) →
        t.stat path = .ok (place, .file content mode) ∧
        ∃ l, t.stat (Backup.pathOf path) = .ok (l, .file bytes mode)) ∧
      (s.node? (backupOf place) ≠ some .directory → s.faults.lookUp loc = none →
        s.IsReplaceable place → (Backup.writeFile true s path content).2 = none)) ∧
    (∀ place node, s.linkStat path = .ok (place, node) → node ≠ .directory →
      s.node? (backupOf place) = some .directory →
      ∃ e, Backup.writeFile true s path content = (s, some e)) ∧
    ∀ cause, s.stat path = .error cause →
      Backup.writeFile true s path content = (s, some (.noMetadata path cause)) := by
  refine ⟨fun place loc bytes mode h => ?_, fun place node hown hkind hdir => ?_,
    fun cause hcause => ?_⟩
  · obtain ⟨own, hown, hkind⟩ := h.own
    have hnode := (linkStat_eq_ok hown).2
    have hnames := names_of_linkStat htree hown hkind
    have hown' : own.isDirectory = false := by cases own <;> simp_all [Node.isDirectory]
    have hsaved := (h.later_saved htree hnode hnames.ne_nil).1
    have hsteps :=
      Backup.takeSteps_take content h.stat_eq hnames hnode hown' h.name hsaved
    refine ⟨fun n => (hsteps n).1.keeps htree h hnode hnames.ne_nil, fun t ht => ?_,
      fun hdir hlookUp hreplace => ?_⟩
    · obtain ⟨-, hdone⟩ := hsteps 4
      rw [Backup.writeFile, if_pos rfl, Backup.replace, Prod.mk.injEq] at ht
      obtain rfl : t = s.swap place own (.file content mode) := by
        rw [← ht.1]
        exact hdone ht.2 (Nat.le_refl 4)
      obtain ⟨hlater, hbackup⟩ := h.later_swap htree hnode hnames.ne_nil (.file content mode)
      exact ⟨hlater.stat_eq (by rw [node?_swap hnames.ne_nil, if_pos rfl]) (by simp), hbackup⟩
    · rw [Backup.writeFile, if_pos rfl,
        Backup.replace_eq h.stat_eq hlookUp hnames hnode hown' hdir hsaved hreplace]
  · have hnames := names_of_linkStat htree hown hkind
    have hnode := (linkStat_eq_ok hown).2
    have hown' : node.isDirectory = false := by cases node <;> simp_all [Node.isDirectory]
    rw [Backup.writeFile, if_pos rfl]
    exact Backup.replace_of_directory hnames hnode hown' hdir
  · have hmode : s.mode path = .error cause := by
      rw [Store.mode, hcause]
      rfl
    rw [Backup.writeFile, if_pos rfl, Backup.replace, Backup.steps,
      Backup.takeSteps_cons_of_error (Backup.take_lookUp_of_error { store := s } hmode)]

/-- A file whose backup is a link to it, a link to a file, a file whose backup is a directory and
one that is missing, all of them behind a link to their directory. -/
theorem replacement_keeps_content_link :
    let old : Node := .file "old".toUTF8 0o640
    let s : Store := { entries := [(["d"], .directory), (["l"], .link "d"), (["d", "a.c"], old),
      (["d", "a.c.old"], .link "a.c"), (["d", "p.c"], .link "a.c"), (["d", "q.c"], old),
      (["d", "q.c.old"], .directory)] }
    let new := "new".toUTF8
    let after (path : String) (n : Nat) :=
      (Backup.takeSteps path new (Backup.steps.take n) { store := s }).1.store
    (∀ n, ((∃ l, (after "l/a.c" n).stat "l/a.c" = .ok (l, old)) ∨
        ∃ l, (after "l/a.c" n).stat "l/a.c.old" = .ok (l, old)) ∧
      (after "l/a.c" n).node? ["d", "q.c"] = some old) ∧
    (∀ n, (∃ l, (after "l/p.c" n).stat "l/p.c" = .ok (l, old)) ∨
      ∃ l, (after "l/p.c" n).stat "l/p.c.old" = .ok (l, old)) ∧
    (∃ t, Backup.writeFile true s "l/p.c" new = (t, none) ∧
      t.stat "l/p.c" = .ok (["d", "p.c"], .file new 0o640) ∧
      ∃ l, t.stat "l/p.c.old" = .ok (l, old)) ∧
    (∃ e, Backup.writeFile true s "l/q.c" new = (s, some e)) ∧
    Backup.writeFile true s "l/b.h" new = (s, some (.noMetadata "l/b.h" .notFound)) := by
  intro old s new after
  have htree : s.IsTree := isTree_of_entries (by decide +kernel) (by decide +kernel)
  have hfile : Backup.IsApart s "l/a.c" ["d", "a.c"] ["d", "a.c"] "old".toUTF8 0o640 :=
    ⟨⟨old, by decide +kernel, by decide⟩, by decide +kernel, by decide +kernel⟩
  have hlink : Backup.IsApart s "l/p.c" ["d", "p.c"] ["d", "a.c"] "old".toUTF8 0o640 :=
    ⟨⟨.link "a.c", by decide +kernel, by decide⟩, by decide +kernel, by decide +kernel⟩
  have hfree : s.IsReplaceable ["d", "p.c"] :=
    ⟨by decide, by decide +kernel, rfl, rfl, rfl, rfl, rfl⟩
  obtain ⟨hkept, -⟩ := (replacement_keeps_content htree "l/a.c" new).1 _ _ _ _ hfile
  obtain ⟨hkept', hdone, hends⟩ := (replacement_keeps_content htree "l/p.c" new).1 _ _ _ _ hlink
  have hnone := hends (by decide +kernel) rfl hfree
  refine ⟨fun n => ⟨(hkept n).1, (hkept n).2 _ (by decide) (by decide)⟩, fun n => (hkept' n).1, ?_,
    (replacement_keeps_content htree "l/q.c" new).2.1 ["d", "q.c"] old (by decide +kernel)
      (by decide) (by decide +kernel),
    (replacement_keeps_content htree "l/b.h" new).2.2 _ (by decide +kernel)⟩
  cases hend : Backup.writeFile true s "l/p.c" new with
  | mk t e =>
    rw [hend] at hnone
    obtain rfl : e = none := hnone
    exact ⟨t, rfl, hdone t hend⟩

-- A disk that is full when the new content is written.
example :
    let s : Store := { entries := [(["a.c"], .file "old".toUTF8 0o640)]
                       faults := { writing := fun _ => some (1, .other "No space left" 28) } }
    let after := Backup.writeFile true s "a.c" "new".toUTF8
    after.2 = some (.notWritten "a.c" (.other "No space left" 28)) ∧
      after.1.node? ["a.c"] = some (.file "n".toUTF8 0o644) ∧
      after.1.node? ["a.c.old"] = some (.file "old".toUTF8 0o640) := by decide +kernel

/-- If the backup is another name of the file, the renaming does nothing and the new content is
written over the old one.  If a link leads to its own backup, the link takes the place of the file.
Either way the replacement succeeds, and the old content is gone. -/
theorem replacement_loses_content :
    (let old : Node := .file "b".toUTF8 0o644
    let s : Store := { entries := [(["a.c"], old), (["a.c.old"], old)]
                       numbers := [(["a.c"], 1), (["a.c.old"], 1)] }
    let after := Backup.writeFile true s "a.c" "c".toUTF8
    s.stat "a.c" = .ok (["a.c"], old) ∧ after.2 = none ∧
      after.1.stat "a.c" = .ok (["a.c"], .file "c".toUTF8 0o644) ∧
      after.1.stat "a.c.old" = .ok (["a.c.old"], .file "c".toUTF8 0o644)) ∧
    let old : Node := .file "b".toUTF8 0o644
    let s : Store := { entries := [(["a.c"], .link "a.c.old"), (["a.c.old"], old)] }
    let after := Backup.writeFile true s "a.c" "c".toUTF8
    s.stat "a.c" = .ok (["a.c.old"], old) ∧ after.2 = none ∧
      after.1.stat "a.c" = .ok (["a.c"], .file "c".toUTF8 0o644) ∧
      after.1.stat "a.c.old" = .error .tooManyLinks := by decide +kernel

end CApiUpgrade
