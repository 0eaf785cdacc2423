import CApiUpgrade.Discovery
import CApiUpgrade.Job
import Mathlib.Data.List.Basic

/-!
# Path names that lead nowhere else

A path name without links on its way leads to one location, and only the directories of the store
decide to which: files may come, change and go meanwhile.  `Store.Reaches` is this reading of a path
name.  It says what stands at a path name (`Store.Reaches.stat_eq`), it is the same in all stores
with the same directories (`Store.Reaches.congr`), and the backup of what a path name reaches stands
beside it (`Store.Reaches.backup`).
-/

namespace CApiUpgrade

/-! ### The parts of a path name -/

namespace Path

/-- The texts between the slashes of a path name. -/
def segments (path : String) : List (List Char) := path.toList.splitOnP (· == '/')

/-- The names among texts between slashes. -/
def names (segments : List (List Char)) : List String :=
  (segments.map String.ofList).filter fun part => part != "" && part != "."

theorem components_eq (path : String) : components path = names (segments path) := rfl

theorem names_append (a b : List (List Char)) : names (a ++ b) = names a ++ names b := by
  rw [names, List.map_append, List.filter_append]
  rfl

theorem names_singleton {segment : List Char} (h : segment ≠ []) (h' : segment ≠ ['.']) :
    names [segment] = [String.ofList segment] := by
  have hne : String.ofList segment ≠ "" := fun heq => h (by simpa using congrArg String.toList heq)
  have hne' : String.ofList segment ≠ "." := fun heq =>
    h' (by simpa using congrArg String.toList heq)
  simp [names, hne, hne']

/-- A path name is cut at its last slash, if it has one. -/
theorem segments_cases (path : String) : ∃ front last, segments path = front ++ [last] ∧
    (∀ c ∈ last, c ≠ '/') ∧ (front = [] ∧ path.toList = last ∨
      ∃ above, path.toList = above ++ '/' :: last ∧ front = above.splitOnP (· == '/')) := by
  have hcut : ∀ cs : List Char, (∀ c ∈ cs, c ≠ '/') ∨
      ∃ above last, cs = above ++ '/' :: last ∧ ∀ c ∈ last, c ≠ '/' := by
    intro cs
    induction cs with
    | nil => exact .inl (by simp)
    | cons c cs ih =>
      rcases ih with ih | ⟨above, last, rfl, hlast⟩
      · by_cases hc : c = '/'
        · exact .inr ⟨[], cs, by rw [hc]; rfl, ih⟩
        · exact .inl (by simpa [hc] using ih)
      · exact .inr ⟨c :: above, last, rfl, hlast⟩
  rcases hcut path.toList with h | ⟨above, last, heq, hlast⟩
  · exact ⟨[], path.toList, List.splitOnP_eq_singleton (by simpa using h), h, .inl ⟨rfl, rfl⟩⟩
  · refine ⟨above.splitOnP (· == '/'), last, ?_, hlast, .inr ⟨above, heq, rfl⟩⟩
    have hclean : last.splitOnP (· == '/') = [last] :=
      List.splitOnP_eq_singleton (by simpa using hlast)
    rw [segments, heq, List.splitOnP_append_cons _ _ (by simp), hclean]

/-- A path name with more behind its last slash is cut at the same slash. -/
theorem segments_append {path : String} {front : List (List Char)} {last : List Char}
    (h : front = [] ∧ path.toList = last ∨
      ∃ above, path.toList = above ++ '/' :: last ∧ front = above.splitOnP (· == '/'))
    (hlast : ∀ c ∈ last, c ≠ '/') {ending : String} (hending : ∀ c ∈ ending.toList, c ≠ '/') :
    segments (path ++ ending) = front ++ [last ++ ending.toList] := by
  have hclean : ∀ c ∈ last ++ ending.toList, (c == '/') = false := by
    intro c hc
    rw [beq_eq_false_iff_ne]
    exact (List.mem_append.mp hc).elim (hlast c) (hending c)
  rcases h with ⟨rfl, rfl⟩ | ⟨above, heq, rfl⟩
  · rw [segments, String.toList_append, List.splitOnP_eq_singleton hclean, List.nil_append]
  · rw [segments, String.toList_append, heq, List.append_assoc, List.cons_append,
      List.splitOnP_append_cons _ _ (by simp), List.splitOnP_eq_singleton hclean]

/-- The last name of a path name is one of its own: neither `.` nor `..`, and no slash behind it. -/
structure EndsIn (path : String) (above : List String) (name : String) : Prop where
  /-- The names on the way and the last one are the components. -/
  components : components path = above ++ [name]
  /-- The path name may be that of a file. -/
  notDirectory : isDirectoryName path = false
  /-- There is no slash at the end. -/
  noSlash : endsInSlash path = false
  /-- There are no dots at the end. -/
  noDots : endsInDots path = false

theorem EndsIn.steps {path : String} {above : List String} {name : String}
    (h : EndsIn path above name) : steps path = above ++ [name] := by
  rw [Path.steps, h.components, h.notDirectory]
  simp

/-- What the last segment of a path name has to be for its last name to be one of its own. -/
theorem endsIn_of_segments {path : String} {front : List (List Char)} {last : List Char}
    (h : segments path = front ++ [last]) (hne : last ≠ []) (hdot : last ≠ ['.'])
    (hdots : last ≠ ['.', '.']) (hslash : path.toList.getLast? ≠ some '/') :
    EndsIn path (names front) (String.ofList last) where
  components := by rw [components_eq, h, names_append, names_singleton hne hdot]
  notDirectory := by
    unfold isDirectoryName
    rw [← segments, h, List.reverse_append]
    simp only [List.reverse_singleton, List.singleton_append]
    split <;> simp_all
  noSlash := by simpa [endsInSlash] using hslash
  noDots := by
    have hlast : ((segments path).filter (!·.isEmpty)).getLast? = some last := by
      have hempty : last.isEmpty = false := by simpa using hne
      rw [h, List.filter_append, List.filter_singleton, hempty]
      simp
    unfold endsInDots
    rw [← segments, hlast]
    simp [hdot, hdots]

/-- A path name whose last step is a name ends in that name. -/
theorem exists_segments_of_steps {path : String} {above : List String} {name : String}
    (h : steps path = above ++ [name]) (hdot : name ≠ ".") (hdots : name ≠ "..") :
    ∃ front last, segments path = front ++ [last] ∧ above = names front ∧
      name = String.ofList last ∧ last ≠ [] ∧ last ≠ ['.'] ∧ last ≠ ['.', '.'] := by
  obtain ⟨front, last, hsegments, -, -⟩ := segments_cases path
  -- The last step of a name with a slash at its end is the one to the directory itself.
  have hdir : isDirectoryName path = false := by
    by_contra hdir
    rw [steps, Bool.of_not_eq_false hdir, if_pos rfl] at h
    exact hdot (by simpa using (List.append_inj_right' h rfl).symm)
  rw [steps, hdir, components_eq, hsegments] at h
  unfold isDirectoryName at hdir
  rw [← segments, hsegments, List.reverse_append] at hdir
  simp only [List.reverse_singleton, List.singleton_append] at hdir
  have hlastDot : last ≠ ['.'] := by
    rintro rfl
    simp at hdir
  have hne : last ≠ [] := by
    rintro rfl
    cases front with
    | nil => simp [names] at h
    | cons segment rest =>
      obtain ⟨x, xs, hrev⟩ := List.exists_cons_of_ne_nil
        (List.reverse_ne_nil_iff.mpr (List.cons_ne_nil segment rest))
      simp [hrev] at hdir
  rw [names_append, names_singleton hne hlastDot] at h
  simp only [Bool.false_eq_true, ↓reduceIte, List.append_nil] at h
  obtain ⟨habove, hname⟩ := List.append_inj' h rfl
  obtain rfl := List.singleton_inj.mp hname
  exact ⟨front, last, hsegments, habove.symm, rfl, hne, hlastDot,
    fun heq => hdots (by rw [heq])⟩

/-- A path name whose last step is a name ends in that name, and so does the one of its backup. -/
theorem endsIn_backup {path : String} {above : List String} {name : String}
    (h : steps path = above ++ [name]) (hdot : name ≠ ".") (hdots : name ≠ "..") :
    EndsIn path above name ∧ EndsIn (Backup.pathOf path) above (name ++ ".old") := by
  obtain ⟨front, last, hsegments, rfl, rfl, hne, hlastDot, hlastDots⟩ :=
    exists_segments_of_steps h hdot hdots
  obtain ⟨front', last', hsegments', hclean, hcases⟩ := segments_cases path
  obtain ⟨rfl, hlast⟩ := List.append_inj' (hsegments.symm.trans hsegments') rfl
  obtain rfl := List.singleton_inj.mp hlast
  -- The name ends as its last segment does, and a segment has no slash in it.
  have hslash : path.toList.getLast? ≠ some '/' := by
    have hend : path.toList.getLast? = last.getLast? := by
      rcases hcases with ⟨-, heq⟩ | ⟨above, heq, -⟩
      · rw [heq]
      · rw [heq, List.getLast?_append, List.getLast?_cons, List.getLast?_eq_some_getLast hne]
        rfl
    rw [hend]
    exact fun hlast => hclean '/' (List.mem_of_getLast? hlast) rfl
  refine ⟨endsIn_of_segments hsegments hne hlastDot hlastDots hslash, ?_⟩
  have hold : ".old".toList = ['.', 'o', 'l', 'd'] := by decide
  have hsplit : segments (Backup.pathOf path) = front ++ [last ++ ".old".toList] :=
    segments_append hcases hclean fun c hc => by
      rw [hold] at hc
      simp only [List.mem_cons, List.not_mem_nil, or_false] at hc
      rcases hc with rfl | rfl | rfl | rfl <;> decide
  have hname : String.ofList (last ++ ".old".toList) = String.ofList last ++ ".old" := by
    rw [String.ofList_append, String.ofList_toList]
  rw [← hname]
  refine endsIn_of_segments hsplit ?_ ?_ ?_ ?_
  · simp [hold]
  · intro heq
    have := congrArg List.length heq
    simp [hold] at this
  · intro heq
    have := congrArg List.length heq
    simp [hold] at this
  · rw [Backup.pathOf, String.toList_append, hold]
    simp

end Path

/-! ### Ways through directories -/

namespace Store

/-! #### Listed entries -/

theorem node?_ne_none_of_mem {s : Store} {entry : Location × Node} (h : entry ∈ s.entries) :
    s.node? entry.1 ≠ none := by
  unfold node?
  split_ifs
  · simp
  · intro hnone
    simpa using List.lookup_eq_none_iff.mp hnone entry h

theorem exists_mem_of_node? {s : Store} {loc : Location} {node : Node} (hloc : loc ≠ [])
    (h : s.node? loc = some node) : (loc, node) ∈ s.entries := by
  rw [node?, if_neg hloc] at h
  obtain ⟨front, back, heq, -⟩ := List.lookup_eq_some_iff.mp h
  simp [heq]

/-! #### Directories on the way -/

/-- Names that lead from one location to another through directories only. -/
inductive Descends (s : Store) : Location → List String → Location → Prop where
  | here (loc : Location) : Descends s loc [] loc
  | stay {loc stop : Location} {rest : List String} : Descends s loc rest stop →
    Descends s loc ("." :: rest) stop
  | up {loc stop : Location} {rest : List String} : Descends s loc.dropLast rest stop →
    Descends s loc (".." :: rest) stop
  | down {loc stop : Location} {name : String} {rest : List String} : name ≠ "." → name ≠ ".." →
    s.node? (loc ++ [name]) = some .directory → Descends s (loc ++ [name]) rest stop →
    Descends s loc (name :: rest) stop

/-- Two stores with the same directories, seen from the same one, and with the same disk around
them. -/
structure SameDirectories (s t : Store) : Prop where
  /-- What is a directory in one store is one in the other. -/
  directory : ∀ loc, s.node? loc = some .directory ↔ t.node? loc = some .directory
  /-- The working directories agree. -/
  workDir : s.workDir = t.workDir
  /-- The permission bits of the directories agree. -/
  directoryModes : s.directoryModes = t.directoryModes
  /-- The same goes wrong from outside. -/
  faults : s.faults = t.faults

namespace SameDirectories

theorem refl (s : Store) : s.SameDirectories s := ⟨fun _ => Iff.rfl, rfl, rfl, rfl⟩

theorem trans {s t u : Store} (h : s.SameDirectories t) (h' : t.SameDirectories u) :
    s.SameDirectories u :=
  ⟨fun loc => (h.directory loc).trans (h'.directory loc), h.workDir.trans h'.workDir,
    h.directoryModes.trans h'.directoryModes, h.faults.trans h'.faults⟩

theorem symm {s t : Store} (h : s.SameDirectories t) : t.SameDirectories s :=
  ⟨fun loc => (h.directory loc).symm, h.workDir.symm, h.directoryModes.symm, h.faults.symm⟩

theorem isOpen {s t : Store} (h : s.SameDirectories t) (loc : Location) :
    s.isOpen loc = t.isOpen loc := by
  rw [Store.isOpen, Store.isOpen, Store.directoryMode, Store.directoryMode, h.directoryModes]

theorem base {s t : Store} (h : s.SameDirectories t) (path : String) :
    s.base path = t.base path := by
  rw [Store.base, Store.base, h.workDir]

end SameDirectories

namespace Descends

variable {s t : Store} {loc mid stop : Location} {names names' : List String}

theorem congr (h : s.Descends loc names stop) (hst : s.SameDirectories t) :
    t.Descends loc names stop := by
  induction h with
  | here loc => exact .here loc
  | stay _ ih => exact .stay ih
  | up _ ih => exact .up ih
  | down hdot hdots hdir _ ih => exact .down hdot hdots ((hst.directory _).mp hdir) ih

theorem append (h : s.Descends loc names mid) (h' : s.Descends mid names' stop) :
    s.Descends loc (names ++ names') stop := by
  induction h with
  | here loc => exact h'
  | stay _ ih => exact .stay (ih h')
  | up _ ih => exact .up (ih h')
  | down hdot hdots hdir _ ih => exact .down hdot hdots hdir (ih h')

theorem of_append (h : s.Descends loc (names ++ names') stop) :
    ∃ mid, s.Descends loc names mid ∧ s.Descends mid names' stop := by
  induction names generalizing loc with
  | nil => exact ⟨loc, .here loc, h⟩
  | cons name rest ih =>
    cases h with
    | stay h =>
      obtain ⟨mid, h₁, h₂⟩ := ih h
      exact ⟨mid, .stay h₁, h₂⟩
    | up h =>
      obtain ⟨mid, h₁, h₂⟩ := ih h
      exact ⟨mid, .up h₁, h₂⟩
    | down hdot hdots hdir h =>
      obtain ⟨mid, h₁, h₂⟩ := ih h
      exact ⟨mid, .down hdot hdots hdir h₁, h₂⟩

/-- Directories are passed whatever follows and whatever is done at links. -/
theorem walk_append (h : s.Descends loc names mid) (follow : Bool)
    (onLink : Location → List String → Except OsError Location) (rest : List String) :
    s.walk follow onLink loc (names ++ rest) = s.walk follow onLink mid rest := by
  induction h with
  | here loc => rfl
  | stay _ ih => simpa [walk] using ih
  | up _ ih => simpa [walk] using ih
  | down hdot hdots hdir _ ih => simpa [walk, hdot, hdots, hdir] using ih

end Descends

/-- A walk with some number of links is a walk. -/
theorem exists_walkLinks_eq (s : Store) (follow : Bool) (links : Nat) :
    ∃ onLink, s.walkLinks follow links = s.walk follow onLink := by
  cases links with
  | zero => exact ⟨_, rfl⟩
  | succ n => exact ⟨_, rfl⟩

/-! ### What a path name reaches -/

/-- A path name leads to a location without a link on the way: the names in front of the last one
are those of directories, and the last one is a name of its own. -/
def Reaches (s : Store) (path : String) (loc : Location) : Prop :=
  path ≠ "" ∧ ∃ above dir name, Path.steps path = above ++ [name] ∧ name ≠ "." ∧ name ≠ ".." ∧
    s.Descends (s.base path) above dir ∧ loc = dir ++ [name]

/-- A single name reaches what bears it where the lookup starts. -/
theorem reaches_of_steps {s : Store} {path name : String} (hne : path ≠ "")
    (hsteps : Path.steps path = [name]) (hdot : name ≠ ".") (hdots : name ≠ "..") :
    s.Reaches path (s.base path ++ [name]) :=
  ⟨hne, [], _, name, hsteps, hdot, hdots, .here _, rfl⟩

theorem backupOf_append (dir : Location) (name : String) :
    backupOf (dir ++ [name]) = dir ++ [name ++ ".old"] := by
  simp [backupOf, Backup.pathOf]

theorem append_old_inj {a b : String} (h : a ++ ".old" = b ++ ".old") : a = b := by
  have hlist := congrArg String.toList h
  rw [String.toList_append, String.toList_append] at hlist
  exact String.toList_inj.mp (List.append_cancel_right hlist)

theorem append_old_ne (a : String) : a ++ ".old" ≠ a := by
  intro h
  have hlen := congrArg (fun s => s.toList.length) h
  simp [String.toList_append] at hlen

/-- The name of a backup is longer than `.` and `..`. -/
theorem append_old_ne_of_length_lt {a b : String} (h : b.toList.length < 4) : a ++ ".old" ≠ b := by
  rintro rfl
  have hold : ".old".toList.length = 4 := by decide
  rw [String.toList_append, List.length_append, hold] at h
  omega

/-- Two files do not share a backup. -/
theorem backupOf_inj {l l' : Location} (hl : l ≠ []) (hl' : l' ≠ [])
    (h : backupOf l = backupOf l') : l = l' := by
  obtain ⟨dir, name, rfl⟩ := List.eq_nil_or_concat' l |>.resolve_left hl
  obtain ⟨dir', name', rfl⟩ := List.eq_nil_or_concat' l' |>.resolve_left hl'
  rw [backupOf_append, backupOf_append] at h
  obtain ⟨rfl, hname⟩ := List.append_inj' h rfl
  rw [append_old_inj (List.singleton_inj.mp hname)]

theorem backupOf_ne_self (l : Location) : backupOf l ≠ l := by
  rcases List.eq_nil_or_concat' l with rfl | ⟨dir, name, rfl⟩
  · simp [backupOf]
  · rw [backupOf_append]
    intro h
    exact append_old_ne name (List.singleton_inj.mp (List.append_cancel_left h))

theorem backupOf_ne_nil (l : Location) : backupOf l ≠ [] := by simp [backupOf]

/-- The name of a backup starts where the name of the file starts. -/
theorem base_pathOf (s : Store) {path : String} (hne : path ≠ "") :
    s.base (Backup.pathOf path) = s.base path := by
  have hhead : (path.toList ++ ".old".toList).head? = path.toList.head? := by
    cases hlist : path.toList with
    | nil => exact absurd (String.toList_eq_nil_iff.mp hlist) hne
    | cons c cs => rfl
  rw [Store.base, Store.base, Path.isAbsolute, Path.isAbsolute, Backup.pathOf, String.toList_append,
    hhead]

namespace Reaches

variable {s t : Store} {path : String} {loc : Location}

theorem ne_nil (h : s.Reaches path loc) : loc ≠ [] := by
  obtain ⟨-, above, dir, name, -, -, -, -, rfl⟩ := h
  simp

/-- Only the directories decide what a path name reaches. -/
theorem congr (h : s.Reaches path loc) (hst : s.SameDirectories t) : t.Reaches path loc := by
  obtain ⟨hne, above, dir, name, hsteps, hdot, hdots, hdesc, rfl⟩ := h
  exact ⟨hne, above, dir, name, hsteps, hdot, hdots, hst.base path ▸ hdesc.congr hst, rfl⟩

/-- The name of a backup reaches the place beside the file. -/
theorem backup (h : s.Reaches path loc) : s.Reaches (Backup.pathOf path) (backupOf loc) := by
  obtain ⟨hne, above, dir, name, hsteps, hdot, hdots, hdesc, rfl⟩ := h
  obtain ⟨-, hold⟩ := Path.endsIn_backup hsteps hdot hdots
  exact ⟨append_old_ne_of_length_lt (by decide), above, dir, name ++ ".old", hold.steps,
    append_old_ne_of_length_lt (by decide), append_old_ne_of_length_lt (by decide),
    s.base_pathOf hne ▸ hdesc, backupOf_append ..⟩

/-- A path name reaches one location. -/
theorem resolve_eq (h : s.Reaches path loc) (hlink : ∀ target, s.node? loc ≠ some (.link target))
    (follow : Bool) : s.resolve follow path = .ok loc := by
  obtain ⟨hne, above, dir, name, hsteps, hdot, hdots, hdesc, rfl⟩ := h
  obtain ⟨onLink, hwalk⟩ := s.exists_walkLinks_eq follow maxLinks
  rw [resolve, if_neg hne, hwalk, hsteps, hdesc.walk_append]
  simp only [walk, if_neg hdot, if_neg hdots]
  cases hnode : s.node? (dir ++ [name]) with
  | none => simp
  | some node =>
    cases node with
    | file _ _ => simp
    | directory => simp
    | link target => exact absurd hnode (hlink target)

/-- What stands at a path name stands at the location that it reaches. -/
theorem stat_eq (h : s.Reaches path loc) {node : Node} (hnode : s.node? loc = some node)
    (hlink : ∀ target, node ≠ .link target) : s.stat path = .ok (loc, node) := by
  have hresolve := h.resolve_eq (fun target => by simpa [hnode] using hlink target) true
  simp [stat, hresolve, hnode, bind, Except.bind, pure, Except.pure]

end Reaches

end Store

end CApiUpgrade
