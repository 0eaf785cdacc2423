import CApiUpgrade.Proofs.Modes
import CApiUpgrade.Proofs.SafeReplacement
import CApiUpgrade.Proofs.Selection
import Mathlib.Data.Char

/-!
# Discovery finds just the source files

In a tree of directories and regular files, what a directory stands for is said in two ways.

* **By the files** (`discover_exact`): all source files below it that no directory of a skipped name
  holds, each once, in the order of the bytes of the names on the way.  If there is none, the
  directory stands for no sources, and if there are some, but all of them are excluded, it stands
  for an empty list.
* **By the way to find them** (`Discovery.sourceFiles_eq_walk`): `Discovery.walk` goes through the
  directories one after another, the entries of each in the order of their names, and leaves out a
  directory of a skipped name with all that is in it.
-/

namespace CApiUpgrade

open Store

/-! ### The order of the bytes -/

namespace Path

/-- The bytes of a name. -/
def bytes (name : String) : List UInt8 := name.toUTF8.data.toList

/-- Whether a path name comes before another one: the bytes of the first components that differ
decide, and a directory comes before what is in it. -/
def Precedes (a b : String) : Prop :=
  List.Lex (fun x y => bytes x < bytes y) (components a) (components b)

theorem cons_ofNat_lt {x y : Nat} {u v : List UInt8} (hx : x < 256) (hy : y < 256) (hle : x ≤ y)
    (heq : x = y → u < v) : UInt8.ofNat x :: u < UInt8.ofNat y :: v := by
  rw [List.cons_lt_cons_iff]
  rcases Nat.lt_or_eq_of_le hle with hlt | rfl
  · left
    rwa [UInt8.lt_iff_toNat_lt, UInt8.toNat_ofNat', UInt8.toNat_ofNat', Nat.mod_eq_of_lt hx,
      Nat.mod_eq_of_lt hy]
  · exact .inr ⟨rfl, heq rfl⟩

/-- The bytes of a character come before those of a later one, whatever follows. -/
theorem utf8EncodeChar_append_lt {c d : Char} (h : c < d) (u v : List UInt8) :
    String.utf8EncodeChar c ++ u < String.utf8EncodeChar d ++ v := by
  have hlt : c.val.toNat < d.val.toNat := h
  have hd : d.val.toNat < 0x110000 := by
    have hvalid := d.valid
    simp only [UInt32.isValidChar, Nat.isValidChar] at hvalid
    omega
  unfold String.utf8EncodeChar
  generalize c.val.toNat = m at *
  generalize d.val.toNat = n at *
  dsimp only
  -- More bytes start with a larger one; as many bytes are digits, and the first digits that differ
  -- decide.
  split_ifs
  all_goals simp only [List.cons_append, List.nil_append]
  all_goals
    repeat' refine cons_ofNat_lt (by omega) (by omega) (by omega) fun _ => ?_
    exfalso
    omega

theorem flatMap_utf8EncodeChar_lt {a b : List Char} (h : a < b) :
    a.flatMap String.utf8EncodeChar < b.flatMap String.utf8EncodeChar := by
  induction h with
  | @nil d b =>
    have hne : String.utf8EncodeChar d ≠ [] := by
      unfold String.utf8EncodeChar
      dsimp only
      split_ifs <;> simp
    obtain ⟨x, xs, hx⟩ := List.exists_cons_of_ne_nil hne
    rw [List.flatMap_nil, List.flatMap_cons, hx]
    exact List.nil_lt_cons _ _
  | cons _ ih =>
    rw [List.flatMap_cons, List.flatMap_cons]
    exact List.append_left_lt ih
  | rel h =>
    rw [List.flatMap_cons, List.flatMap_cons]
    exact utf8EncodeChar_append_lt h _ _

/-- **The order of the characters** of names is that of their bytes. -/
theorem bytes_lt {a b : String} (h : a < b) : bytes a < bytes b := by
  have hbytes : ∀ s : String, bytes s = s.toList.flatMap String.utf8EncodeChar := by
    intro s
    rw [bytes, String.toUTF8]
    conv_lhs => rw [← String.ofList_toList (s := s), String.toByteArray_ofList]
    simp [List.utf8Encode]
  rw [hbytes, hbytes]
  exact flatMap_utf8EncodeChar_lt h

theorem Precedes.ne {a b : String} (h : Precedes a b) : a ≠ b := by
  have hirrefl : ∀ {xs ys : List String}, List.Lex (fun x y => bytes x < bytes y) xs ys →
      xs ≠ ys := by
    intro xs ys hlex
    induction hlex with
    | nil => simp
    | cons _ ih => simpa using ih
    | rel hlt =>
      intro heq
      rw [(List.cons.inj heq).1] at hlt
      exact List.lt_irrefl _ hlt
  rintro rfl
  exact hirrefl h rfl

/-- Below one directory the names on the way decide. -/
theorem precedes_foldl_join {directory : String} (hd : directory ≠ "") {names names' : List String}
    (h : ∀ name ∈ names, IsName name) (h' : ∀ name ∈ names', IsName name) (hlt : names < names') :
    Precedes (names.foldl join directory) (names'.foldl join directory) := by
  rw [Precedes, (components_foldl_join hd h).1, (components_foldl_join hd h').1]
  exact List.Lex.append_left _ (List.Lex.imp (fun _ _ => bytes_lt) _ _ hlt) _

/-- A joined path name ends in its last name. -/
theorem endsIn_foldl_join {directory : String} (hd : directory ≠ "") {names : List String}
    {last : String} (h : ∀ name ∈ names, IsName name) (hlast : IsName last) :
    EndsIn ((names ++ [last]).foldl join directory) (components directory ++ names) last := by
  have hne : names.foldl join directory ≠ "" := by
    induction names generalizing directory with
    | nil => exact hd
    | cons name names ih =>
      exact ih (components_join hd (h name List.mem_cons_self)).2.2 fun n hn =>
        h n (List.mem_cons_of_mem _ hn)
  obtain ⟨front, hfront, -, hjoin⟩ := exists_front_of_join hne hlast
  have hsegments : segments (join (names.foldl join directory) last) =
      front.splitOnP (· == '/') ++ [last.toList] := by
    rw [segments, hjoin, List.splitOnP_append_cons _ _ (by simp), ← segments, hlast.segments]
  have hchars : last.toList ≠ [] := fun heq => hlast.ne_empty (String.toList_eq_nil_iff.mp heq)
  rw [List.foldl_append, ← (components_foldl_join hd h).1, hfront]
  have hends :=
    endsIn_of_segments hsegments hchars (fun heq => hlast.ne_dot (String.toList_inj.mp heq))
    (fun heq => hlast.ne_dots (String.toList_inj.mp heq)) (fun heq => ?_)
  · rwa [String.ofList_toList] at hends
  · rw [hjoin, List.getLast?_append, List.getLast?_cons,
      List.getLast?_eq_some_getLast hchars] at heq
    exact hlast.noSlash (Option.some.inj heq ▸ List.getLast_mem hchars)

end Path

/-! ### Trees of directories and files -/

namespace Store

/-- A tree of directories and regular files, each of which is listed once and has a name. -/
structure IsPlain (s : Store) : Prop extends s.IsTree where
  /-- The entries have names. -/
  proper : s.Proper
  /-- There are no links. -/
  noLinks : ∀ loc target, s.node? loc ≠ some (.link target)
  /-- No location is listed twice. -/
  distinct : (s.entries.map Prod.fst).Nodup

variable {s : Store} {loc stop : Location} {path : String}

/-- Without links, names that lead to a directory lead through directories. -/
theorem descends_of_walk (hlinks : ∀ loc target, s.node? loc ≠ some (.link target)) {follow : Bool}
    {onLink : Location → List String → Except OsError Location} {names : List String}
    (h : s.walk follow onLink loc names = .ok stop) (hstop : s.node? stop = some .directory) :
    s.Descends loc names stop := by
  induction names generalizing loc with
  | nil =>
    obtain rfl : loc = stop := Except.ok.inj h
    exact .here loc
  | cons name rest ih =>
    rw [walk] at h
    by_cases hdot : name = "."
    · subst hdot
      exact .stay (ih h)
    by_cases hdots : name = ".."
    · subst hdots
      exact .up (ih h)
    rw [if_neg hdot, if_neg hdots] at h
    have hleaf : s.node? (loc ++ [name]) ≠ some .directory → loc ++ [name] ≠ stop := fun hne heq =>
      hne (heq ▸ hstop)
    cases hnode : s.node? (loc ++ [name]) with
    | none =>
      simp only [hnode] at h
      split_ifs at h
      exact absurd (Except.ok.inj h) (hleaf (by simp [hnode]))
    | some node =>
      cases node with
      | directory =>
        simp only [hnode] at h
        exact .down hdot hdots hnode (ih h)
      | link target => exact absurd hnode (hlinks _ target)
      | file bytes mode =>
        simp only [hnode] at h
        split_ifs at h
        exact absurd (Except.ok.inj h) (hleaf (by simp [hnode]))

/-- A directory is reached through directories. -/
theorem IsPlain.descends (hs : s.IsPlain) (h : s.stat path = .ok (stop, .directory)) :
    path ≠ "" ∧ s.Descends (s.base path) (Path.steps path) stop := by
  have hpath := Discovery.ne_empty_of_stat h
  obtain ⟨hresolve, hstop⟩ : s.resolve true path = .ok stop ∧ s.node? stop = some .directory := by
    unfold stat at h
    cases hr : s.resolve true path with
    | error e => simp [hr, bind, Except.bind] at h
    | ok l =>
      cases hn : s.node? l with
      | none => simp [hr, hn, bind, Except.bind] at h
      | some n =>
        simp only [hr, hn, bind, Except.bind, pure, Except.pure, Except.ok.injEq,
          Prod.mk.injEq] at h
        obtain ⟨rfl, rfl⟩ := h
        exact ⟨rfl, hn⟩
  obtain ⟨onLink, hwalk⟩ := s.exists_walkLinks_eq true maxLinks
  rw [resolve, if_neg hpath, hwalk] at hresolve
  exact ⟨hpath, descends_of_walk hs.noLinks hresolve hstop⟩

/-- What stands below a location stands in directories. -/
theorem IsTree.node?_of_append (hs : s.IsTree) {names : List String} (hne : names ≠ [])
    (h : s.node? (loc ++ names) ≠ none) : s.node? loc = some .directory := by
  induction names using List.reverseRecOn with
  | nil => exact absurd rfl hne
  | append_singleton names name ih =>
    have habove := hs.above _ h
    rw [← List.append_assoc, List.dropLast_concat] at habove
    by_cases hnil : names = []
    · simpa [hnil] using habove
    · exact ih hnil (by simp [habove])

theorem IsTree.descends (hs : s.IsTree) {names : List String}
    (hnames : ∀ name ∈ names, Path.IsName name) (h : s.node? (loc ++ names) = some .directory) :
    s.Descends loc names (loc ++ names) := by
  induction names generalizing loc with
  | nil =>
    rw [List.append_nil]
    exact .here loc
  | cons name names ih =>
    have hname := hnames name List.mem_cons_self
    have hsplit : loc ++ name :: names = (loc ++ [name]) ++ names := by simp
    rw [hsplit] at h ⊢
    refine .down hname.ne_dot hname.ne_dots ?_
      (ih (fun n hn => hnames n (List.mem_cons_of_mem _ hn)) h)
    by_cases hnil : names = []
    · simpa [hnil] using h
    · exact hs.node?_of_append hnil (by rw [h]; exact Option.some_ne_none _)

/-- What stands below a directory is reached by the joined path name. -/
theorem IsPlain.reaches (hs : s.IsPlain) {start : Location}
    (h : s.stat path = .ok (start, .directory)) {names : List String} (hne : names ≠ [])
    (hnode : s.node? (start ++ names) ≠ none) :
    s.Reaches (names.foldl Path.join path) (start ++ names) := by
  obtain ⟨hpath, hdesc⟩ := hs.descends h
  have hproper : ∀ name ∈ names, Path.IsName name := fun name hname =>
    hs.proper _ hnode name (List.mem_append_right start hname)
  obtain ⟨front, last, rfl⟩ := (List.eq_nil_or_concat' names).resolve_left hne
  have hfront : ∀ name ∈ front, Path.IsName name :=
    fun n hn => hproper n (List.mem_append_left _ hn)
  have hlast : Path.IsName last := hproper last (by simp)
  have habove := hs.above _ hnode
  rw [← List.append_assoc, List.dropLast_concat] at habove
  have hbase : s.base ((front ++ [last]).foldl Path.join path) = s.base path := by
    rw [Store.base, Store.base, (Path.components_foldl_join hpath hproper).2]
  -- A slash at the end of the path name makes no difference.
  have hstart : s.Descends (s.base path) (Path.components path) start := by
    unfold Path.steps at hdesc
    split_ifs at hdesc
    · obtain ⟨mid, hmid, hend⟩ := hdesc.of_append
      obtain rfl := hend.unique (.stay (.here mid))
      exact hmid
    · simpa using hdesc
  refine ⟨fun heq => ?_, Path.components path ++ front, start ++ front, last,
    (Path.endsIn_foldl_join hpath hfront hlast).steps, hlast.ne_dot, hlast.ne_dots, ?_, by simp⟩
  · have hcomponents := (Path.endsIn_foldl_join hpath hfront hlast).components
    rw [heq] at hcomponents
    simp [Path.components] at hcomponents
  · rw [hbase]
    exact hstart.append (hs.toIsTree.descends hfront habove)

/-- It is a regular file iff one stands there. -/
theorem IsPlain.isFile_iff (hs : s.IsPlain) {start : Location}
    (h : s.stat path = .ok (start, .directory)) {names : List String} (hne : names ≠ [])
    (hnode : s.node? (start ++ names) ≠ none) :
    s.isFile (names.foldl Path.join path) = true ↔
      ∃ bytes mode, s.node? (start ++ names) = some (.file bytes mode) := by
  obtain ⟨node, hsome⟩ := Option.ne_none_iff_exists'.mp hnode
  have hstat := (hs.reaches h hne hnode).stat_eq hsome fun target heq =>
    hs.noLinks _ target (heq ▸ hsome)
  rw [Store.isFile, hstat, hsome]
  cases node <;> simp [Node.isFile]

/-- The names of the entries of a directory, in order. -/
def children (s : Store) (dir : Location) : List String :=
  (s.entries.filterMap fun (loc, _) => if loc.dropLast = dir then loc.getLast? else none).mergeSort
    (· ≤ ·)

theorem mem_children {dir : Location} {name : String} :
    name ∈ s.children dir ↔ s.node? (dir ++ [name]) ≠ none := by
  rw [children, List.mem_mergeSort, List.mem_filterMap]
  constructor
  · rintro ⟨⟨loc, node⟩, hmem, h⟩
    obtain ⟨hdir, front, rfl⟩ :=
      (Option.ite_none_right_eq_some.mp h).imp_right List.getLast?_eq_some_iff.mp
    rw [List.dropLast_concat] at hdir
    exact hdir ▸ node?_ne_none_of_mem hmem
  · intro h
    obtain ⟨node, hnode⟩ := Option.ne_none_iff_exists'.mp h
    exact ⟨_, exists_mem_of_node? (by simp) hnode, by simp⟩

/-- The entries of a directory come each once and in order. -/
theorem IsPlain.pairwise_children (hs : s.IsPlain) (dir : Location) :
    (s.children dir).Pairwise (· < ·) := by
  let named (loc : Location) : Option String := if loc.dropLast = dir then loc.getLast? else none
  have hnodup : ((s.entries.map Prod.fst).filterMap named).Nodup := by
    refine List.Nodup.filterMap (fun loc loc' name h h' => ?_) hs.distinct
    simp only [named, Option.mem_def, Option.ite_none_right_eq_some] at h h'
    obtain ⟨hdir, front, rfl⟩ := h.imp_right List.getLast?_eq_some_iff.mp
    obtain ⟨hdir', front', rfl⟩ := h'.imp_right List.getLast?_eq_some_iff.mp
    rw [List.dropLast_concat] at hdir hdir'
    rw [hdir, hdir']
  rw [List.filterMap_map] at hnodup
  exact RuleSet.pairwise_lt_mergeSort hnodup

end Store

/-! ### The walk -/

namespace Discovery

variable {s : Store} {path : String} {start : Location} {names rest : List String} {depth : Nat}

/-- The part of a walk that is about one entry: the names on the way to it, followed by what is
below it if it is a directory.  A directory of a skipped name is left out with all that is in it. -/
def entryWalk (s : Store) (start : Location) (way : List String) (below : List (List String)) :
    List (List String) :=
  match s.node? (start ++ way) with
  | some .directory => if way.getLast? = some skippedName then [] else way :: below
  | _ => [way]

/-- The names on the way to each entry below a directory, in the order of a walk: the entries of a
directory come in the order of their names, each followed by what is below it.  The walk goes down
to some depth. -/
def walk (s : Store) (start : Location) : (depth : Nat) → (names : List String) → List (List String)
  | 0, _ => []
  | depth + 1, names => (s.children (start ++ names)).flatMap fun name =>
    entryWalk s start (names ++ [name]) (walk s start depth (names ++ [name]))

theorem entryWalk_of_directory {name : String}
    (h : s.node? (start ++ (names ++ [name])) = some .directory) (below : List (List String)) :
    entryWalk s start (names ++ [name]) below =
      if name = skippedName then [] else (names ++ [name]) :: below := by
  rw [entryWalk, h, List.getLast?_concat]
  simp

theorem entryWalk_sublist (s : Store) (start : Location) (way : List String)
    (below : List (List String)) : (entryWalk s start way below).Sublist (way :: below) := by
  unfold entryWalk
  split
  · split_ifs
    · exact List.nil_sublist _
    · exact List.Sublist.refl _
  · exact (List.nil_sublist below).cons_cons way

/-- A walk leads further down. -/
theorem exists_rest_of_mem_walk {way : List String} (h : way ∈ walk s start depth names) :
    ∃ rest, rest ≠ [] ∧ way = names ++ rest := by
  induction depth generalizing names with
  | zero => simp [walk] at h
  | succ depth ih =>
    obtain ⟨name, -, h⟩ := List.mem_flatMap.mp h
    rcases List.mem_cons.mp ((entryWalk_sublist s start _ _).subset h) with rfl | h
    · exact ⟨[name], by simp, rfl⟩
    · obtain ⟨rest, -, rfl⟩ := ih h
      exact ⟨name :: rest, by simp, by simp⟩

/-- The part of a walk that is about one entry starts with its name. -/
theorem exists_rest_of_mem_entryWalk {name : String} {way : List String}
    (h : way ∈ entryWalk s start (names ++ [name]) (walk s start depth (names ++ [name]))) :
    ∃ rest, way = names ++ name :: rest := by
  rcases List.mem_cons.mp ((entryWalk_sublist s start _ _).subset h) with rfl | h
  · exact ⟨[], rfl⟩
  · obtain ⟨rest, -, rfl⟩ := exists_rest_of_mem_walk h
    exact ⟨rest, by simp⟩

/-- A walk meets entries only. -/
theorem node?_of_mem_walk {way : List String} (h : way ∈ walk s start depth names) :
    s.node? (start ++ way) ≠ none := by
  induction depth generalizing names with
  | zero => simp [walk] at h
  | succ depth ih =>
    obtain ⟨name, hchild, h⟩ := List.mem_flatMap.mp h
    rcases List.mem_cons.mp ((entryWalk_sublist s start _ _).subset h) with rfl | h
    · rw [← List.append_assoc]
      exact mem_children.mp hchild
    · exact ih h

/-- **A file is met on a walk** that goes deep enough iff no directory of a skipped name is on the
way. -/
theorem mem_walk (hs : s.IsTree) {bytes : ByteArray} {mode : Nat}
    (hfile : s.node? (start ++ (names ++ rest)) = some (.file bytes mode)) (hne : rest ≠ [])
    (hdepth : rest.length ≤ depth) :
    names ++ rest ∈ walk s start depth names ↔ skippedName ∉ rest.dropLast := by
  induction depth generalizing names rest with
  | zero => simp_all
  | succ depth ih =>
    obtain ⟨name, rest, rfl⟩ := List.exists_cons_of_ne_nil hne
    have hsplit : names ++ name :: rest = (names ++ [name]) ++ rest := by simp
    rw [hsplit] at hfile
    -- Only the entry of the first name can lead to the file.
    have hentry : names ++ name :: rest ∈ walk s start (depth + 1) names ↔
        name ∈ s.children (start ++ names) ∧ names ++ name :: rest ∈
          entryWalk s start (names ++ [name]) (walk s start depth (names ++ [name])) := by
      rw [walk, List.mem_flatMap]
      constructor
      · rintro ⟨other, hchild, h⟩
        obtain ⟨back, hback⟩ := exists_rest_of_mem_entryWalk h
        obtain rfl := (List.cons.inj (List.append_cancel_left hback)).1
        exact ⟨hchild, h⟩
      · exact fun ⟨hchild, h⟩ => ⟨name, hchild, h⟩
    rw [hentry, mem_children, List.append_assoc]
    by_cases hnil : rest = []
    · subst hnil
      rw [List.append_nil] at hfile
      simp [hfile, entryWalk]
    · have hdir : s.node? (start ++ (names ++ [name])) = some .directory := by
        rw [← List.append_assoc] at hfile
        exact hs.node?_of_append hnil (by rw [hfile]; exact Option.some_ne_none _)
      have hlength : rest.length ≤ depth := by simpa using hdepth
      have hlonger : names ++ name :: rest ≠ names ++ [name] := by simpa using hnil
      rw [hdir, entryWalk_of_directory hdir, List.dropLast_cons_of_ne_nil hnil,
        List.mem_cons, not_or]
      split_ifs with hskip
      · simp [hskip]
      · rw [List.mem_cons, or_iff_right hlonger, hsplit, ih hfile hnil hlength]
        simp [Ne.symm hskip]

/-- **A walk is in order.** -/
theorem pairwise_walk (hs : s.IsPlain) (start : Location) (depth : Nat) (names : List String) :
    (walk s start depth names).Pairwise (· < ·) := by
  induction depth generalizing names with
  | zero => exact List.Pairwise.nil
  | succ depth ih =>
    rw [walk, List.pairwise_flatMap]
    constructor
    · intro name _
      refine List.Pairwise.sublist (entryWalk_sublist s start _ _)
        (List.pairwise_cons.mpr ⟨fun way hway => ?_, ih _⟩)
      obtain ⟨rest, hne, rfl⟩ := exists_rest_of_mem_walk hway
      obtain ⟨x, xs, rfl⟩ := List.exists_cons_of_ne_nil hne
      have hlt : names ++ [name] ++ [] < names ++ [name] ++ x :: xs :=
        List.append_left_lt (List.nil_lt_cons x xs)
      simpa using hlt
    · refine (hs.pairwise_children (start ++ names)).imp fun hlt way hway way' hway' => ?_
      obtain ⟨rest, rfl⟩ := exists_rest_of_mem_entryWalk hway
      obtain ⟨rest', rfl⟩ := exists_rest_of_mem_entryWalk hway'
      exact List.append_left_lt (List.Lex.rel hlt)

/-! ### What is found -/

/-- A source file below a directory: a regular file with the extension of a source file.  No
directory on the way to it has a skipped name, the one at which the search starts included. -/
def IsSourceBelow (s : Store) (path : String) (start : Location) (file : String) : Prop :=
  ∃ names, names ≠ [] ∧ file = names.foldl Path.join path ∧
    (∃ bytes mode, s.node? (start ++ names) = some (.file bytes mode)) ∧ isSourceName file = true ∧
    Path.fileName? path ≠ some skippedName ∧ skippedName ∉ names.dropLast

/-- Whether the directory at which the search starts has a skipped name. -/
theorem isSkippedStart_iff (hs : s.IsPlain) (h : s.stat path = .ok (start, .directory)) :
    isSkippedStart s path = true ↔ Path.fileName? path = some skippedName := by
  obtain ⟨hpath, hdesc⟩ := hs.descends h
  have hdir : s.node? start = some .directory := by
    rw [Store.stat, hdesc.resolve_eq hpath] at h
    cases hn : s.node? start with
    | none => simp [bind, Except.bind, hn] at h
    | some n => simpa [bind, Except.bind, hn, pure, Except.pure] using h
  rw [isSkippedStart, Store.linkStat, hdesc.resolve_eq hpath]
  simp [bind, Except.bind, hdir, pure, Except.pure, Node.isDirectory]

theorem mem_sourceWays_iff (hs : s.IsPlain) (h : s.stat path = .ok (start, .directory)) :
    names ∈ sourceWays s path start ↔ names ≠ [] ∧
      (∃ bytes mode, s.node? (start ++ names) = some (.file bytes mode)) ∧
      isSourceName (names.foldl Path.join path) = true ∧ skippedName ∉ names.dropLast := by
  rw [mem_sourceWays, mem_below]
  constructor
  · rintro ⟨⟨hne, node, hmem⟩, hskip, hfile, hname⟩
    rw [hs.isFile_iff h hne (node?_ne_none_of_mem hmem)] at hfile
    exact ⟨hne, hfile, hname, by simpa [isSkipped] using hskip⟩
  · rintro ⟨hne, ⟨bytes, mode, hfile⟩, hname, hskip⟩
    have hsome : s.node? (start ++ names) ≠ none := by simp [hfile]
    refine ⟨⟨hne, _, exists_mem_of_node? (by simp [hne]) hfile⟩, by simpa [isSkipped] using hskip,
      ?_, hname⟩
    exact (hs.isFile_iff h hne hsome).mpr ⟨bytes, mode, hfile⟩

/-- The ways to the source files are in order. -/
theorem pairwise_sourceWays (hs : s.IsPlain) (path : String) (start : Location) :
    (sourceWays s path start).Pairwise (· < ·) := by
  have hlt : ∀ {a b : List String}, notAfter a b = true → a ≠ b → a < b := by
    intro a b h hne
    induction a generalizing b with
    | nil =>
      obtain ⟨y, ys, rfl⟩ := List.exists_cons_of_ne_nil (Ne.symm hne)
      exact List.nil_lt_cons y ys
    | cons x xs ih =>
      cases b with
      | nil => simp [notAfter] at h
      | cons y ys =>
        rw [List.cons_lt_cons_iff]
        by_cases hxy : x = y
        · subst hxy
          exact .inr ⟨rfl, ih (by simpa [notAfter] using h) (by simpa using hne)⟩
        · exact .inl (by simpa [notAfter, hxy] using h)
  have hpairs := (pairwise_below s start).and (nodup_below hs.distinct start)
  exact (hpairs.imp fun h => hlt h.1 h.2).filter _

theorem mem_sourceFiles_iff (hs : s.IsPlain) (h : s.stat path = .ok (start, .directory))
    {file : String} : file ∈ sourceFiles s path start ↔ IsSourceBelow s path start file := by
  rw [sourceFiles_eq_map]
  split_ifs with hskip
  · rw [isSkippedStart_iff hs h] at hskip
    simp [IsSourceBelow, hskip]
  · rw [isSkippedStart_iff hs h] at hskip
    rw [List.mem_map]
    constructor
    · rintro ⟨names, hnames, rfl⟩
      obtain ⟨hne, hfile, hname, hclean⟩ := (mem_sourceWays_iff hs h).mp hnames
      exact ⟨names, hne, rfl, hfile, hname, hskip, hclean⟩
    · rintro ⟨names, hne, rfl, hfile, hname, -, hclean⟩
      exact ⟨names, (mem_sourceWays_iff hs h).mpr ⟨hne, hfile, hname, hclean⟩, rfl⟩

/-- The source files are in order. -/
theorem pairwise_sourceFiles (hs : s.IsPlain) (h : s.stat path = .ok (start, .directory)) :
    (sourceFiles s path start).Pairwise Path.Precedes := by
  have hpath := (hs.descends h).1
  have hproper : ∀ names ∈ sourceWays s path start, ∀ name ∈ names, Path.IsName name := by
    intro names hnames name hname
    obtain ⟨-, ⟨bytes, mode, hfile⟩, -⟩ := (mem_sourceWays_iff hs h).mp hnames
    exact hs.proper _ (by simp [hfile]) name (List.mem_append_right start hname)
  rw [sourceFiles_eq_map]
  split_ifs
  · exact List.Pairwise.nil
  · refine List.pairwise_map.mpr ((pairwise_sourceWays hs path start).imp_of_mem fun ha hb hlt =>
      ?_)
    exact Path.precedes_foldl_join hpath (hproper _ ha) (hproper _ hb) hlt

/-- **The source files are those that a walk meets,** if it goes deep enough. -/
theorem sourceFiles_eq_walk (hs : s.IsPlain) (h : s.stat path = .ok (start, .directory))
    (hdepth : ∀ e ∈ s.entries, e.1.length ≤ depth) :
    sourceFiles s path start = if Path.fileName? path = some skippedName then [] else
      ((walk s start depth []).map (·.foldl Path.join path)).filter fun file =>
        s.isFile file && isSourceName file := by
  rw [sourceFiles_eq_map]
  simp only [isSkippedStart_iff hs h]
  split_ifs
  · rfl
  rw [List.filter_map]
  congr 1
  refine List.Pairwise.eq_of_mem_iff (r := (· < ·)) (pairwise_sourceWays hs path start)
    ((pairwise_walk hs start depth []).filter _) fun names => ?_
  rw [mem_sourceWays_iff hs h, List.mem_filter, Function.comp_apply, Bool.and_eq_true]
  have hmet : ∀ {bytes mode}, s.node? (start ++ names) = some (.file bytes mode) → names ≠ [] →
      (names ∈ walk s start depth [] ↔ skippedName ∉ names.dropLast) := by
    intro bytes mode hfile hne
    have hlength : (start ++ names).length ≤ depth :=
      hdepth _ (exists_mem_of_node? (by simp [hne]) hfile)
    rw [List.length_append] at hlength
    exact mem_walk hs.toIsTree (by simpa using hfile) hne (by omega)
  constructor
  · rintro ⟨hne, ⟨bytes, mode, hfile⟩, hname, hclean⟩
    refine ⟨(hmet hfile hne).mpr hclean,
      (hs.isFile_iff h hne (by simp [hfile])).mpr ⟨bytes, mode, hfile⟩, hname⟩
  · rintro ⟨hwalk, hisFile, hname⟩
    obtain ⟨rest, hne, heq⟩ := exists_rest_of_mem_walk hwalk
    obtain rfl : names = rest := heq
    obtain ⟨bytes, mode, hfile⟩ := (hs.isFile_iff h hne (node?_of_mem_walk hwalk)).mp hisFile
    exact ⟨hne, ⟨bytes, mode, hfile⟩, hname, (hmet hfile hne).mp hwalk⟩

end Discovery

open Discovery

/-- **Discovery is exact.**  In a tree of directories and regular files, a directory stands for no
sources iff there is no source file below it that no directory of a skipped name holds.  Otherwise
it stands for just those of these files that no pattern excludes, each once and in the order of the
bytes of their components.  They are found on a walk through the directories that is deep enough. -/
theorem discover_exact {s : Store} (hs : s.IsPlain) {path : String} {start : Location}
    (h : s.stat path = .ok (start, .directory)) (exclude : List String) :
    (discover s exclude path = .noSources ↔ ∀ file, ¬ IsSourceBelow s path start file) ∧
    ((∃ file, IsSourceBelow s path start file) →
      ∃ files excluded, discover s exclude path = .sources files excluded ∧
        (∀ file, file ∈ files ↔
          IsSourceBelow s path start file ∧ Exclusion.anyExcludes exclude file = false) ∧
        files.Nodup ∧ files.Pairwise Path.Precedes) ∧
    ∀ depth, (∀ e ∈ s.entries, e.1.length ≤ depth) →
      sourceFiles s path start = if Path.fileName? path = some skippedName then [] else
        ((walk s start depth []).map (·.foldl Path.join path)).filter fun file =>
          s.isFile file && isSourceName file := by
  have hmem : ∀ file, file ∈ sourceFiles s path start ↔ IsSourceBelow s path start file :=
    fun file => mem_sourceFiles_iff hs h
  rw [discover_of_directory h]
  refine ⟨?_, ?_, fun depth => sourceFiles_eq_walk hs h⟩
  · rw [← forall_congr' fun file => not_congr (hmem file), ← List.eq_nil_iff_forall_not_mem]
    cases sourceFiles s path start <;> simp [ofFiles]
  · rintro ⟨file, hfile⟩
    have hne : sourceFiles s path start ≠ [] := List.ne_nil_of_mem ((hmem file).mpr hfile)
    obtain ⟨first, rest, hfiles⟩ := List.exists_cons_of_ne_nil hne
    have hpairs := pairwise_sourceFiles hs h
    rw [hfiles] at hpairs hmem ⊢
    refine ⟨_, _, rfl, fun file => ?_, ?_, hpairs.filter _⟩
    · rw [List.mem_filter, hmem, Bool.not_eq_true']
    · exact (hpairs.imp Path.Precedes.ne).filter _

/-- A file, a file that is excluded, a file in a skipped directory, and a directory without source
files. -/
theorem discover_exact_tree :
    let s : Store := { entries := [(["p"], .directory), (["p", "z.c"], .file .empty 0o644),
      (["p", "é"], .directory), (["p", "é", "b.h"], .file .empty 0o644), (["p", "m"], .directory),
      (["p", "m", "gen.c"], .file .empty 0o644), (["p", ".tox"], .directory),
      (["p", ".tox", "c.c"], .file .empty 0o644), (["q"], .directory),
      (["q", "a.txt"], .file .empty 0o644)] }
    s.stat "p" = .ok (["p"], .directory) ∧ s.stat "q" = .ok (["q"], .directory) ∧
      (∃ files excluded, discover s ["gen.c"] "p" = .sources files excluded ∧
        "p/z.c" ∈ files ∧ "p/é/b.h" ∈ files ∧ "p/m/gen.c" ∉ files ∧ files.Pairwise Path.Precedes) ∧
      ∀ file, ¬ IsSourceBelow s "q" ["q"] file := by
  intro s
  have hs : s.IsPlain := by
    refine ⟨isTree_of_entries (by decide +kernel) (by decide +kernel),
      proper_of_entries (by decide +kernel), ?_, by decide +kernel⟩
    intro loc target hlink
    have hall : ∀ e ∈ s.entries, e.2.isFile || e.2.isDirectory := by decide +kernel
    by_cases hroot : loc = []
    · subst hroot
      cases hlink
    · simpa [Node.isFile, Node.isDirectory] using hall _ (exists_mem_of_node? hroot hlink)
  have hp : s.stat "p" = .ok (["p"], .directory) := by decide +kernel
  have hq : s.stat "q" = .ok (["q"], .directory) := by decide +kernel
  have hnone : discover s [] "q" = .noSources := by decide +kernel
  have hz : IsSourceBelow s "p" ["p"] "p/z.c" :=
    ⟨["z.c"], by decide, by decide +kernel,
      ⟨.empty, 0o644, by decide +kernel⟩, by decide +kernel, by decide +kernel, by decide⟩
  have hb : IsSourceBelow s "p" ["p"] "p/é/b.h" :=
    ⟨["é", "b.h"], by decide, by decide +kernel,
      ⟨.empty, 0o644, by decide +kernel⟩, by decide +kernel, by decide +kernel, by decide⟩
  obtain ⟨files, excluded, heq, hmem, -, hpairs⟩ := (discover_exact hs hp ["gen.c"]).2.1 ⟨_, hz⟩
  refine ⟨hp, hq, ⟨files, excluded, heq, ?_, ?_, ?_, hpairs⟩, (discover_exact hs hq []).1.mp hnone⟩
  · exact (hmem _).mpr ⟨hz, by decide +kernel⟩
  · exact (hmem _).mpr ⟨hb, by decide +kernel⟩
  · exact fun h => absurd ((hmem _).mp h).2 (by decide +kernel)

end CApiUpgrade
