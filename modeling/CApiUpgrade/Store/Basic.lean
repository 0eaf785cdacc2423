import CApiUpgrade.Path

/-!
# File stores

A store is what a run finds on disk and what it leaves there, as a value: files, directories and
symbolic links, each at its *location*, the list of names that leads to it from the root.  It also
knows the directory in which the program works, the permission bits of the directories, which
locations are names of one file, and what goes wrong from outside.

All that can be asked of a store is asked through `Store.node?`, `Store.number?` and
`Store.directoryMode`.  `insert` and `erase` change one location: `node?_insert` and `node?_erase`
say what `node?` answers afterwards.  `amend` changes a file under all its names, and `transfer`
gives an entry another location.  `move` is for directories, whose entries move with them.

The program is the owner of all entries, without the privileges of a superuser, and nothing else
changes the store while it runs.  The bits for listing and for searching a directory are left out:
every directory may be listed and passed through.
-/

namespace CApiUpgrade

/-- The names of the directories on the way from the root to an entry, and its own name. -/
abbrev Location := List String

/-! ### Entries -/

/-- What stands at a location. -/
inductive Node where
  /-- A regular file, with its permission bits. -/
  | file (content : ByteArray) (mode : Nat)
  /-- A directory. -/
  | directory
  /-- A symbolic link. -/
  | link (target : String)

namespace Node

/-- Files are compared by the arrays that hold their bytes. -/
instance : DecidableEq Node
  | file bytes mode, file bytes' mode' =>
    decidable_of_iff (bytes.data = bytes'.data ∧ mode = mode') (by simp [ByteArray.ext_iff])
  | link target, link target' => decidable_of_iff (target = target') (by simp)
  | directory, directory => isTrue rfl
  | file .., directory | file .., link _ | directory, file .. => isFalse nofun
  | directory, link _ | link _, file .. | link _, directory => isFalse nofun

/-- Whether it is a regular file. -/
def isFile : Node → Bool
  | file .. => true
  | _ => false

/-- Whether it is a directory. -/
def isDirectory : Node → Bool
  | directory => true
  | _ => false

/-- The permission bits of a new file. -/
def newFileMode : Nat := 0o644

/-- The permission bits that a directory usually has. -/
def directoryMode : Nat := 0o755

/-- The permission bits. -/
def mode : Node → Nat
  | file _ mode => mode
  | directory => directoryMode
  | link _ => 0o777

/-- Whether the owner may read. -/
def isReadable (n : Node) : Bool := n.mode / 0o400 % 2 == 1

/-- Whether the owner may write. -/
def isWritable (n : Node) : Bool := n.mode / 0o200 % 2 == 1

/-- A file with other content. -/
def withContent (content : ByteArray) : Node → Node
  | file _ mode => file content mode
  | node => node

/-- A file with other permission bits. -/
def withMode (mode : Nat) : Node → Node
  | file content _ => file content mode
  | node => node

end Node

/-! ### Errors -/

/-- Why an operation on a store fails. -/
inductive OsError where
  /-- Nothing stands at the location. -/
  | notFound
  /-- The permission bits forbid the operation. -/
  | permissionDenied
  /-- The entry is in use: the working directory has no other name. -/
  | busy
  /-- A directory is needed and something else stands there. -/
  | notADirectory
  /-- A directory stands where none may. -/
  | isADirectory
  /-- A directory would come to stand below itself. -/
  | invalidArgument
  /-- A directory that has entries would be replaced. -/
  | notEmpty
  /-- Too many links had to be followed. -/
  | tooManyLinks
  /-- Something that has nothing to do with the entries: the disk is full, a name is too long. -/
  | other (text : String) (number : Nat)
  deriving DecidableEq, Repr

/-- What an error says. -/
def OsError.message : OsError → String
  | .notFound => "No such file or directory (os error 2)"
  | .permissionDenied => "Permission denied (os error 13)"
  | .busy => "Device or resource busy (os error 16)"
  | .notADirectory => "Not a directory (os error 20)"
  | .isADirectory => "Is a directory (os error 21)"
  | .invalidArgument => "Invalid argument (os error 22)"
  | .notEmpty => "Directory not empty (os error 39)"
  | .tooManyLinks => "Too many levels of symbolic links (os error 40)"
  | .other text number => text ++ " (os error " ++ toString number ++ ")"

/-- What goes wrong from outside, each time that it is tried: the disk fails or is full, a name is
too long, the file system may only be read. -/
structure Faults where
  /-- The permission bits of an entry cannot be looked up. -/
  lookUp : Location → Option OsError := fun _ => none
  /-- An entry cannot be given another name. -/
  rename : Location → Location → Option OsError := fun _ _ => none
  /-- A file cannot be opened for writing. -/
  opening : Location → Option OsError := fun _ => none
  /-- Only so many bytes can be written to a file. -/
  writing : Location → Option (Nat × OsError) := fun _ => none
  /-- The permission bits of a file cannot be set. -/
  setting : Location → Option OsError := fun _ => none

/-! ### Stores -/

/-- Files, directories and links, seen from a working directory. -/
structure Store where
  /-- The entries below the root, each with its location. -/
  entries : List (Location × Node) := []
  /-- The working directory. -/
  workDir : Location := []
  /-- The permission bits of the directories that do not have the usual ones. -/
  directoryModes : List (Location × Nat) := []
  /-- The numbers of the files that have several names.  All names of a file have its number. -/
  numbers : List (Location × Nat) := []
  /-- What goes wrong from outside. -/
  faults : Faults := {}

namespace Store

/-- What stands at a location.  The root is a directory. -/
def node? (s : Store) (loc : Location) : Option Node :=
  if loc = [] then some .directory else s.entries.lookup loc

/-- The permission bits of the directory at a location. -/
def directoryMode (s : Store) (loc : Location) : Nat :=
  (s.directoryModes.lookup loc).getD Node.directoryMode

/-- Whether entries of the directory at a location may be made, renamed and taken away. -/
def isOpen (s : Store) (loc : Location) : Bool := s.directoryMode loc / 0o200 % 2 == 1

/-- The number of the file at a location, if the file has several names. -/
def number? (s : Store) (loc : Location) : Option Nat :=
  if (s.node? loc).any Node.isFile then s.numbers.lookup loc else none

/-- Whether two locations are names of one file. -/
def isSame (s : Store) (a b : Location) : Bool :=
  a == b || (s.number? a).isSome && s.number? a == s.number? b

/-- Puts a node at a location, in place of the one that may stand there.  A file that is put there
has no other name. -/
def insert (s : Store) (loc : Location) (node : Node) : Store :=
  { s with
    entries := (loc, node) :: s.entries.filter (·.1 ≠ loc)
    numbers := s.numbers.filter (·.1 ≠ loc) }

/-- Takes away what stands at a location. -/
def erase (s : Store) (loc : Location) : Store :=
  { s with entries := s.entries.filter (·.1 ≠ loc) }

/-- Changes the file at a location, under all its names. -/
def amend (s : Store) (loc : Location) (change : Node → Node) : Store :=
  { s with
    entries := s.entries.map fun (other, node) =>
      (other, if s.isSame loc other then change node else node) }

/-- Gives a node that is no directory another location, in place of what may stand there.  The other
names of a file are names of it still. -/
def transfer (s : Store) (source target : Location) (node : Node) : Store :=
  let moved := (s.erase source).insert target node
  { moved with
    numbers := match s.number? source with
      | some number => (target, number) :: moved.numbers
      | none => moved.numbers }

/-- The location below `target` that corresponds to one at or below `source`. -/
def rebase (source target loc : Location) : Location := target ++ loc.drop source.length

/-- Moves what is listed for a directory and for all that is below it to another location. -/
def rebaseAll {α : Type} (source target : Location) (listed : List (Location × α)) :
    List (Location × α) :=
  listed.map fun (loc, value) =>
    (if source.isPrefixOf loc then rebase source target loc else loc, value)

/-- Moves a directory and all entries below it to another location.  Nothing may stand there or
below it. -/
def move (s : Store) (source target : Location) : Store :=
  { s with
    entries := rebaseAll source target s.entries
    directoryModes := rebaseAll source target (s.directoryModes.filter (·.1 ≠ target))
    numbers := rebaseAll source target s.numbers }

/-- Whether a directory has an entry. -/
def hasEntries (s : Store) (loc : Location) : Bool :=
  s.entries.any fun (other, _) => other ≠ loc && loc.isPrefixOf other

/-! ### What the changes do -/

theorem lookup_filter_ne {α : Type} {listed : List (Location × α)} {loc other : Location}
    (h : other ≠ loc) : (listed.filter (·.1 ≠ loc)).lookup other = listed.lookup other := by
  induction listed with
  | nil => rfl
  | cons entry rest ih =>
    obtain ⟨l, value⟩ := entry
    by_cases hl : l = loc
    · have hne : (other == l) = false := by simpa [hl] using h
      simpa [hl, List.lookup_cons, hl ▸ hne] using ih
    · by_cases ho : other = l
      · simp [hl, ho]
      · have hne : (other == l) = false := by simpa using ho
        simpa [hl, List.lookup_cons, hne] using ih

theorem lookup_filter_self {α : Type} (listed : List (Location × α)) (loc : Location) :
    (listed.filter (·.1 ≠ loc)).lookup loc = none := by
  induction listed with
  | nil => rfl
  | cons entry rest ih =>
    obtain ⟨l, value⟩ := entry
    by_cases hl : l = loc
    · simpa [hl] using ih
    · have hne : (loc == l) = false := by simpa using fun h => hl h.symm
      simpa [hl, List.lookup_cons, hne] using ih

theorem lookup_map {α : Type} (change : Location → α → α) (listed : List (Location × α))
    (loc : Location) :
    (listed.map fun (l, value) => (l, change l value)).lookup loc =
      (listed.lookup loc).map (change loc) := by
  induction listed with
  | nil => rfl
  | cons entry rest ih =>
    obtain ⟨l, value⟩ := entry
    by_cases hl : loc = l
    · simp [hl]
    · have hne : (loc == l) = false := by simpa using hl
      simpa [List.lookup_cons, hne] using ih

/-- **Insertion** changes one location and no other. -/
theorem node?_insert {s : Store} {loc other : Location} {node : Node} (h : loc ≠ []) :
    (s.insert loc node).node? other = if other = loc then some node else s.node? other := by
  by_cases ho : other = loc
  · subst ho
    simp [node?, insert, h]
  · have hne : (other == loc) = false := by simpa using ho
    simp only [node?, insert, List.lookup_cons, hne, ho, if_false]
    rw [lookup_filter_ne ho]

/-- **Erasure** clears one location and changes no other. -/
theorem node?_erase {s : Store} {loc other : Location} (h : loc ≠ []) :
    (s.erase loc).node? other = if other = loc then none else s.node? other := by
  by_cases ho : other = loc
  · subst ho
    simp only [node?, erase, h, if_false, if_true]
    exact lookup_filter_self _ _
  · simp only [node?, erase, ho, if_false]
    rw [lookup_filter_ne ho]

/-- **A transfer** takes a node to one location and away from another. -/
theorem node?_transfer {s : Store} {source target other : Location} {node : Node}
    (hsource : source ≠ []) (htarget : target ≠ []) :
    (s.transfer source target node).node? other =
      if other = target then some node else if other = source then none else s.node? other := by
  have hnumbers : (s.transfer source target node).node? other =
      ((s.erase source).insert target node).node? other := rfl
  rw [hnumbers, node?_insert htarget, node?_erase hsource]

/-- The root is no file. -/
theorem number?_nil (s : Store) : s.number? [] = none := by
  simp [number?, node?, Node.isFile]

theorem isSame_self (s : Store) (loc : Location) : s.isSame loc loc = true := by simp [isSame]

theorem isSame_comm (s : Store) (a b : Location) : s.isSame a b = s.isSame b a := by
  have hnumbers : ∀ m n : Option Nat, (m.isSome && m == n) = (n.isSome && n == m) := by
    intro m n
    cases m <;> cases n <;> simp [BEq.comm]
  rw [isSame, isSame, BEq.comm, hnumbers]

/-- **An amendment** changes a file under all its names and no other entry. -/
theorem node?_amend {s : Store} {loc : Location} (h : loc ≠ []) (change : Node → Node)
    (other : Location) : (s.amend loc change).node? other =
      if s.isSame loc other then (s.node? other).map change else s.node? other := by
  by_cases hroot : other = []
  · have hother : s.isSame loc [] = false := by
      have hne : (loc == []) = false := by simpa using h
      cases hnumber : s.number? loc <;> simp [isSame, hne, hnumber, number?_nil]
    subst hroot
    rw [hother]
    rfl
  · simp only [node?, if_neg hroot]
    rw [amend, lookup_map fun l node => if s.isSame loc l then change node else node]
    cases s.isSame loc other <;> simp

/-- A file that has just been put somewhere has no other name. -/
theorem number?_insert_self (s : Store) (loc : Location) (node : Node) :
    (s.insert loc node).number? loc = none := by
  have hlookup : (s.insert loc node).numbers.lookup loc = none := lookup_filter_self _ _
  simp [number?, hlookup]

/-- A file that has just been put somewhere is amended there only. -/
theorem amend_insert (s : Store) (loc : Location) (node : Node) (change : Node → Node) :
    (s.insert loc node).amend loc change = s.insert loc (change node) := by
  have hrest : (s.entries.filter (·.1 ≠ loc)).map
      (fun e => (e.1, if (s.insert loc node).isSame loc e.1 then change e.2 else e.2)) =
      s.entries.filter (·.1 ≠ loc) := by
    refine (List.map_congr_left fun e he => ?_).trans (List.map_id _)
    have hne : e.1 ≠ loc := by simpa using (List.mem_filter.mp he).2
    simp [isSame, number?_insert_self, hne.symm]
  have hentries : ((s.insert loc node).amend loc change).entries =
      (loc, change node) :: s.entries.filter (·.1 ≠ loc) := by
    rw [← hrest]
    simp [amend, insert, isSame]
  exact congrArg (fun entries => { s.insert loc node with entries }) hentries

/-- An amendment of the content leaves every file its names. -/
theorem number?_amend {s : Store} {loc : Location} (h : loc ≠ []) {change : Node → Node}
    (hkind : ∀ node, (change node).isFile = node.isFile) (other : Location) :
    (s.amend loc change).number? other = s.number? other := by
  have hfile : ((s.amend loc change).node? other).any Node.isFile =
      (s.node? other).any Node.isFile := by
    rw [node?_amend h]
    cases s.isSame loc other <;> cases s.node? other <;> simp [hkind]
  rw [number?, number?, hfile]
  rfl

theorem isSame_amend {s : Store} {loc : Location} (h : loc ≠ []) {change : Node → Node}
    (hkind : ∀ node, (change node).isFile = node.isFile) (a b : Location) :
    (s.amend loc change).isSame a b = s.isSame a b := by
  rw [isSame, isSame, number?_amend h hkind, number?_amend h hkind]

/-- Two amendments of a file are one. -/
theorem amend_amend {s : Store} {loc : Location} (h : loc ≠ []) {change change' : Node → Node}
    (hkind : ∀ node, (change node).isFile = node.isFile) :
    (s.amend loc change).amend loc change' = s.amend loc fun node => change' (change node) := by
  have hentries : ((s.amend loc change).amend loc change').entries =
      (s.amend loc fun node => change' (change node)).entries := by
    rw [amend]
    simp only [isSame_amend h hkind]
    simp only [amend, List.map_map]
    refine List.map_congr_left fun e _ => ?_
    cases hloc : s.isSame loc e.1 <;> simp [hloc]
  exact congrArg (fun entries => { s with entries }) hentries

end Store

end CApiUpgrade
