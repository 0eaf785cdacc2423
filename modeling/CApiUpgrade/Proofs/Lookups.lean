import CApiUpgrade.Discovery
import CApiUpgrade.Proofs.Places
import Mathlib.Data.List.Nodup
import Mathlib.Data.List.Sort
import Mathlib.Data.String.Basic

/-!
# Looking up path names

What a path name stands for, in a store that has changed since.

A file that is reached without links is found again in every store with the same directories in
which it is a file (`Discovery.mem_sourceWays_congr`).  The files below a directory come in an order
that their names decide, so that two stores with the same source files list them in the same way
(`Discovery.sourceWays_congr`).

A run puts files in the places of backups.  A path name that does not lead to or through such a
place leads to the same entry with and without them (`Store.Ignores`), and if this holds for all
path names that are tried, the same files are found (`Discovery.files_discover_of_filled`).
-/

namespace CApiUpgrade

open Store

/-! ### Joined path names -/

namespace Path

/-- What an entry of a directory may be called. -/
structure IsName (name : String) : Prop where
  /-- It is not empty. -/
  ne_empty : name ≠ ""
  /-- It is not that of the directory itself. -/
  ne_dot : name ≠ "."
  /-- It is not that of the directory above. -/
  ne_dots : name ≠ ".."
  /-- It has no slash. -/
  noSlash : '/' ∉ name.toList

instance (name : String) : Decidable (IsName name) :=
  decidable_of_iff (name ≠ "" ∧ name ≠ "." ∧ name ≠ ".." ∧ '/' ∉ name.toList)
    ⟨fun ⟨h₁, h₂, h₃, h₄⟩ => ⟨h₁, h₂, h₃, h₄⟩,
      fun h => ⟨h.ne_empty, h.ne_dot, h.ne_dots, h.noSlash⟩⟩

theorem IsName.segments {name : String} (h : IsName name) : segments name = [name.toList] :=
  List.splitOnP_eq_singleton fun c hc => by
    rw [beq_eq_false_iff_ne]
    rintro rfl
    exact h.noSlash hc

theorem IsName.backup {name : String} (h : IsName name) : IsName (name ++ ".old") where
  ne_empty := append_old_ne_of_length_lt (by decide)
  ne_dot := append_old_ne_of_length_lt (by decide)
  ne_dots := append_old_ne_of_length_lt (by decide)
  noSlash hmem := by
    rw [String.toList_append, List.mem_append] at hmem
    exact hmem.elim h.noSlash (by decide)

theorem IsName.names {name : String} (h : IsName name) : names [name.toList] = [name] := by
  rw [names_singleton, String.ofList_toList]
  · exact fun heq => h.ne_empty (String.toList_eq_nil_iff.mp heq)
  · exact fun heq => h.ne_dot (String.toList_inj.mp heq)

/-- A joined path name: the first part up to a slash at its end, a slash, and the name. -/
theorem exists_front_of_join {directory name : String} (hd : directory ≠ "") (h : IsName name) :
    ∃ front, components directory = names (front.splitOnP (· == '/')) ∧
      (front ++ ['/']).head? = directory.toList.head? ∧
      (join directory name).toList = front ++ '/' :: name.toList := by
  have habsolute : isAbsolute name = false := by
    cases hlist : name.toList with
    | nil => simp [isAbsolute, hlist]
    | cons c cs =>
      have hc : c ≠ '/' := fun hc => h.noSlash (by simp [hlist, hc])
      simp [isAbsolute, hlist, hc]
  have hlist : directory.toList ≠ [] := fun heq => hd (String.toList_eq_nil_iff.mp heq)
  unfold join
  rw [habsolute, beq_eq_false_iff_ne.mpr hd]
  simp only [Bool.or_self, Bool.false_eq_true, ↓reduceIte]
  split_ifs with hslash
  · -- The slash at the end of the first part divides the two.
    obtain ⟨front, hfront⟩ := List.getLast?_eq_some_iff.mp (beq_iff_eq.mp hslash)
    refine ⟨front, ?_, by rw [hfront], by rw [String.toList_append, hfront]; simp⟩
    rw [components_eq, segments, hfront, List.splitOnP_append_cons _ _ (by simp), names_append]
    simp [names]
  · exact ⟨directory.toList, rfl,
      List.head?_append_of_ne_nil _ hlist, by simp [String.toList_append]⟩

/-- A joined path name has the components of both parts, and it is absolute if the first one is. -/
theorem components_join {directory name : String} (hd : directory ≠ "") (h : IsName name) :
    components (join directory name) = components directory ++ [name] ∧
      isAbsolute (join directory name) = isAbsolute directory ∧ join directory name ≠ "" := by
  obtain ⟨front, hfront, hhead, hjoin⟩ := exists_front_of_join hd h
  refine ⟨?_, ?_, ?_⟩
  · rw [components_eq, segments, hjoin, List.splitOnP_append_cons _ _ (by simp),
      names_append, hfront, ← segments, h.segments, h.names]
  · rw [isAbsolute, hjoin, isAbsolute, ← hhead]
    cases front <;> rfl
  · intro heq
    simp [heq] at hjoin

theorem components_foldl_join {directory : String} (hd : directory ≠ "") {names : List String}
    (h : ∀ name ∈ names, IsName name) :
    components (names.foldl join directory) = components directory ++ names ∧
      isAbsolute (names.foldl join directory) = isAbsolute directory := by
  induction names generalizing directory with
  | nil => simp
  | cons name rest ih =>
    obtain ⟨hcomponents, habsolute, hne⟩ := components_join hd (h name List.mem_cons_self)
    obtain ⟨ihc, iha⟩ := ih hne fun n hn => h n (List.mem_cons_of_mem name hn)
    exact ⟨by rw [List.foldl_cons, ihc, hcomponents]; simp, by rw [List.foldl_cons, iha, habsolute]⟩

end Path

namespace Store

/-- A store whose entries have names. -/
def Proper (s : Store) : Prop := ∀ loc, s.node? loc ≠ none → ∀ name ∈ loc, Path.IsName name

variable {s t : Store}

/-- Whether the entries of a store have names. -/
theorem proper_of_entries (h : ∀ e ∈ s.entries, ∀ name ∈ e.1, Path.IsName name) : s.Proper := by
  intro loc hloc name hname
  by_cases hroot : loc = []
  · simp [hroot] at hname
  · obtain ⟨node, hnode⟩ := Option.ne_none_iff_exists'.mp hloc
    exact h _ (exists_mem_of_node? hroot hnode) name hname

/-- Names lead down one directory after another. -/
theorem Descends.eq_append {loc stop : Location} {names : List String}
    (h : s.Descends loc names stop) (hnames : ∀ name ∈ names, Path.IsName name) :
    stop = loc ++ names := by
  induction h with
  | here loc => simp
  | stay _ _ => exact absurd rfl (hnames "." List.mem_cons_self).ne_dot
  | up _ _ => exact absurd rfl (hnames ".." List.mem_cons_self).ne_dots
  | down _ _ _ _ ih =>
    rw [ih fun n hn => hnames n (List.mem_cons_of_mem _ hn)]
    simp

theorem Descends.unique {loc stop stop' : Location} {names : List String}
    (h : s.Descends loc names stop) (h' : s.Descends loc names stop') : stop = stop' := by
  have hwalk := (h.walk_append true (fun _ _ => .error .tooManyLinks) []).symm.trans
    (h'.walk_append true (fun _ _ => .error .tooManyLinks) [])
  exact Except.ok.inj hwalk

/-- A path name reaches one location at most. -/
theorem Reaches.unique {path : String} {loc loc' : Location} (h : s.Reaches path loc)
    (h' : s.Reaches path loc') : loc = loc' := by
  obtain ⟨-, above, dir, name, hsteps, -, -, hdesc, rfl⟩ := h
  obtain ⟨-, above', dir', name', hsteps', -, -, hdesc', rfl⟩ := h'
  obtain ⟨rfl, hname⟩ := List.append_inj' (hsteps.symm.trans hsteps') rfl
  rw [hdesc.unique hdesc', List.singleton_inj.mp hname]

/-- A way through directories resolves a path name. -/
theorem Descends.resolve_eq {path : String} {loc : Location} (hpath : path ≠ "")
    (h : s.Descends (s.base path) (Path.steps path) loc) (follow : Bool) :
    s.resolve follow path = .ok loc := by
  obtain ⟨onLink, hwalk⟩ := s.exists_walkLinks_eq follow maxLinks
  rw [resolve, if_neg hpath, hwalk, ← List.append_nil (Path.steps path), h.walk_append]
  rfl

end Store

/-! ### Finding a file again -/

/-- The source files that a path name stands for. -/
def Discovered.files : Discovered → List String
  | sources files _ => files
  | _ => []

/-- Whether a path name stands for source files. -/
def Discovered.isSources : Discovered → Bool
  | sources .. => true
  | _ => false

namespace Discovery

variable {s t : Store} {path file : String} {loc : Location}

/-- A file below a directory is reached through the directory. -/
theorem reaches_below {names : List String} (hpath : path ≠ "")
    (hnames : ∀ name ∈ names, Path.IsName name) (h : s.Reaches (names.foldl Path.join path) loc)
    (hne : names ≠ []) : ∃ start, s.Descends (s.base path) (Path.steps path) start ∧
      loc = start ++ names := by
  obtain ⟨-, above, dir, name, hsteps, hdot, hdots, hdesc, rfl⟩ := h
  obtain ⟨hcomponents, habsolute⟩ := Path.components_foldl_join hpath hnames
  have hends := (Path.endsIn_backup hsteps hdot hdots).1.components
  obtain ⟨names', last, rfl⟩ := (List.eq_nil_or_concat' names).resolve_left hne
  rw [hends, ← List.append_assoc] at hcomponents
  obtain ⟨rfl, hlast⟩ := List.append_inj' hcomponents rfl
  obtain rfl := List.singleton_inj.mp hlast
  have hbase : s.base ((names' ++ [name]).foldl Path.join path) = s.base path := by
    rw [Store.base, Store.base, habsolute]
  rw [hbase] at hdesc
  obtain ⟨start, hstart, hrest⟩ := hdesc.of_append
  refine ⟨start, ?_, ?_⟩
  · -- A slash at the end of the path name makes no difference.
    unfold Path.steps
    split_ifs
    · exact hstart.append (.stay (.here start))
    · simpa using hstart
  · rw [hrest.eq_append fun n hn => hnames n (List.mem_append_left _ hn), List.append_assoc]

theorem mem_below {start : Location} {names : List String} :
    names ∈ below s start ↔ names ≠ [] ∧ ∃ node, (start ++ names, node) ∈ s.entries := by
  unfold below
  rw [List.mem_mergeSort, List.mem_filterMap]
  constructor
  · rintro ⟨⟨l, node⟩, hmem, h⟩
    simp only [Bool.and_eq_true, bne_iff_ne, ne_eq, Option.ite_none_right_eq_some,
      Option.some.injEq, List.isPrefixOf_iff_prefix] at h
    obtain ⟨⟨⟨rest, rfl⟩, hne⟩, rfl⟩ := h
    rw [List.drop_left]
    exact ⟨fun hnil => hne (by rw [hnil, List.append_nil]), node, hmem⟩
  · rintro ⟨hne, node, hmem⟩
    refine ⟨_, hmem, ?_⟩
    simp [hne]

/-- The ways to the source files below a directory. -/
def sourceWays (s : Store) (path : String) (start : Location) : List (List String) :=
  (below s start).filter fun names => !isSkipped names &&
    (s.isFile (names.foldl Path.join path) && isSourceName (names.foldl Path.join path))

theorem mem_sourceWays {start : Location} {names : List String} :
    names ∈ sourceWays s path start ↔ names ∈ below s start ∧ isSkipped names = false ∧
      s.isFile (names.foldl Path.join path) = true ∧
      isSourceName (names.foldl Path.join path) = true := by
  simp [sourceWays, List.mem_filter]

theorem sourceFiles_eq_map (s : Store) (path : String) (start : Location) :
    sourceFiles s path start = if isSkippedStart s path then [] else
      (sourceWays s path start).map (·.foldl Path.join path) := by
  rw [sourceFiles, sourceWays]
  split_ifs
  · rfl
  · rw [List.filter_map, List.filter_filter]
    congr 2
    funext names
    simp [Bool.and_comm]

/-- What a directory with the given source files stands for. -/
def ofFiles (exclude : List String) : List String → Discovered
  | [] => .noSources
  | files => .sources (files.filter (!Exclusion.anyExcludes exclude ·))
      (files.filter (Exclusion.anyExcludes exclude ·))

theorem discover_of_directory {start : Location} (h : s.stat path = .ok (start, .directory))
    (exclude : List String) :
    discover s exclude path = ofFiles exclude (sourceFiles s path start) := by
  rw [discover, h]
  dsimp only
  cases sourceFiles s path start <;> rfl

theorem discover_of_file {node : Node} (h : s.stat path = .ok (loc, node))
    (hnode : node ≠ .directory) (exclude : List String) :
    discover s exclude path = .sources [path] [] := by
  rw [discover, h]
  cases node with
  | directory => exact absurd rfl hnode
  | file _ _ => rfl
  | link _ => rfl

theorem discover_of_error {e : OsError} (h : s.stat path = .error e) (exclude : List String) :
    discover s exclude path = .missing := by
  rw [discover, h]

theorem ne_empty_of_stat {start : Location} {node : Node} (h : s.stat path = .ok (start, node)) :
    path ≠ "" := by
  rintro rfl
  simp [Store.stat, Store.resolve, bind, Except.bind] at h

theorem isFile_of_reaches {bytes : ByteArray} {mode : Nat} (h : s.Reaches file loc)
    (hnode : s.node? loc = some (.file bytes mode)) : s.isFile file = true := by
  rw [Store.isFile, h.stat_eq hnode (by simp)]
  rfl

/-- A source file that is reached without links is found again in a store with the same directories
in which it is a file. -/
theorem mem_sourceWays_congr (hst : s.SameDirectories t) (hproper : s.Proper) {start : Location}
    (hstart : s.stat path = .ok (start, .directory)) (hskip : isSkippedStart s path = false)
    {names : List String} (h : names ∈ sourceWays s path start)
    (hreach : s.Reaches (names.foldl Path.join path) loc) {bytes : ByteArray} {mode : Nat}
    (hnode : t.node? loc = some (.file bytes mode)) :
    t.stat path = .ok (start, .directory) ∧ isSkippedStart t path = false ∧
      names ∈ sourceWays t path start := by
  obtain ⟨hbelow, hnames, -, hname⟩ := mem_sourceWays.mp h
  obtain ⟨hne, node, hmem⟩ := mem_below.mp hbelow
  have hpath := ne_empty_of_stat hstart
  have hproperNames : ∀ name ∈ names, Path.IsName name := fun name hn =>
    hproper _ (node?_ne_none_of_mem hmem) name (List.mem_append_right start hn)
  obtain ⟨start', hdesc, rfl⟩ := reaches_below hpath hproperNames hreach hne
  -- The directory is reached without links too, so both stores find it at the same location.
  have hresolve := hdesc.resolve_eq hpath
  have hdesc' : t.Descends (t.base path) (Path.steps path) start' :=
    hst.base path ▸ hdesc.congr hst
  have hresolve' := hdesc'.resolve_eq hpath
  obtain ⟨rfl, hdir⟩ : start' = start ∧ s.node? start' = some .directory := by
    rw [Store.stat, hresolve] at hstart
    cases hn : s.node? start' with
    | none => simp [bind, Except.bind, hn] at hstart
    | some n =>
      simp only [bind, Except.bind, hn, pure, Except.pure, Except.ok.injEq, Prod.mk.injEq] at hstart
      exact ⟨hstart.1, by rw [hstart.2]⟩
  have hdir' := (hst.directory start').mp hdir
  refine ⟨?_, ?_,
    mem_sourceWays.mpr ⟨?_, hnames, isFile_of_reaches (hreach.congr hst) hnode, hname⟩⟩
  · simp [Store.stat, hresolve', bind, Except.bind, hdir', pure, Except.pure]
  · rw [isSkippedStart, Store.linkStat, hresolve] at hskip
    rw [isSkippedStart, Store.linkStat, hresolve']
    simpa [bind, Except.bind, pure, Except.pure, hdir, hdir'] using hskip
  · exact mem_below.mpr ⟨hne, _, exists_mem_of_node? (hreach.congr hst).ne_nil hnode⟩

end Discovery

/-! ### The order of the files -/

namespace Discovery

theorem notAfter_total (a b : List String) : (notAfter a b || notAfter b a) = true := by
  induction a generalizing b with
  | nil => rfl
  | cons x xs ih =>
    cases b with
    | nil => simp [notAfter]
    | cons y ys =>
      by_cases hxy : x = y
      · subst hxy
        simpa [notAfter] using ih ys
      · rcases lt_or_gt_of_ne hxy with h | h
        · simp [notAfter, hxy, h]
        · simp [notAfter, hxy, Ne.symm hxy, h]

theorem notAfter_antisymm {a b : List String} (h : notAfter a b = true) (h' : notAfter b a = true) :
    a = b := by
  induction a generalizing b with
  | nil =>
    cases b with
    | nil => rfl
    | cons y ys => simp [notAfter] at h'
  | cons x xs ih =>
    cases b with
    | nil => simp [notAfter] at h
    | cons y ys =>
      by_cases hxy : x = y
      · subst hxy
        simp only [notAfter, ↓reduceIte] at h h'
        rw [ih h h']
      · simp only [notAfter, hxy, Ne.symm hxy, ↓reduceIte, decide_eq_true_eq] at h h'
        exact absurd h' (lt_asymm h)

theorem notAfter_trans {a b c : List String} (h : notAfter a b = true) (h' : notAfter b c = true) :
    notAfter a c = true := by
  induction a generalizing b c with
  | nil => rfl
  | cons x xs ih =>
    cases b with
    | nil => simp [notAfter] at h
    | cons y ys =>
      cases c with
      | nil => simp [notAfter] at h'
      | cons z zs =>
        -- The first names decide, unless two of them are the same.
        by_cases hxy : x = y
        · subst hxy
          by_cases hxz : x = z
          · subst hxz
            simp only [notAfter, ↓reduceIte] at h h' ⊢
            exact ih h h'
          · simpa [notAfter, hxz] using h'
        · simp only [notAfter, hxy, ↓reduceIte, decide_eq_true_eq] at h
          by_cases hyz : y = z
          · subst hyz
            simp [notAfter, hxy, h]
          · simp only [notAfter, hyz, ↓reduceIte, decide_eq_true_eq] at h'
            have hxz := lt_trans h h'
            simp [notAfter, hxz.ne, hxz]

variable {s t : Store} {path : String} {start : Location}

theorem pairwise_below (s : Store) (start : Location) :
    (below s start).Pairwise fun a b => notAfter a b = true := by
  refine List.pairwise_mergeSort ?_ notAfter_total _
  exact fun a b c h h' => notAfter_trans h h'

/-- Entries at different locations are found once each. -/
theorem nodup_below (h : (s.entries.map Prod.fst).Nodup) (start : Location) :
    (below s start).Nodup := by
  let way (loc : Location) : Option (List String) :=
    if start.isPrefixOf loc && loc != start then some (loc.drop start.length) else none
  have hways : below s start = ((s.entries.map Prod.fst).filterMap way).mergeSort notAfter := by
    rw [List.filterMap_map]
    rfl
  rw [hways, (List.mergeSort_perm _ _).nodup_iff]
  refine List.Nodup.filterMap (fun loc loc' names hmem hmem' => ?_) h
  simp only [way, Option.mem_def, Option.ite_none_right_eq_some, Bool.and_eq_true,
    List.isPrefixOf_iff_prefix, Option.some.injEq] at hmem hmem'
  obtain ⟨⟨⟨rest, rfl⟩, -⟩, rfl⟩ := hmem
  obtain ⟨⟨⟨rest', rfl⟩, -⟩, heq⟩ := hmem'
  rw [List.drop_left, List.drop_left] at heq
  rw [heq]

/-- Two stores in which the same ways lead to source files list them in the same order.  It is
enough to look at those that are wanted. -/
theorem sourceWays_congr (hs : (s.entries.map Prod.fst).Nodup)
    (ht : (t.entries.map Prod.fst).Nodup) (wanted : List String → Bool)
    (h : ∀ names, wanted names = true →
      (names ∈ sourceWays s path start ↔ names ∈ sourceWays t path start)) :
    (sourceWays s path start).filter wanted = (sourceWays t path start).filter wanted := by
  have hpairs : ∀ u : Store, ((sourceWays u path start).filter wanted).Pairwise
      fun a b => notAfter a b = true :=
    fun u => ((pairwise_below u start).filter _).filter _
  have honce : ∀ u : Store, (u.entries.map Prod.fst).Nodup →
      ((sourceWays u path start).filter wanted).Nodup :=
    fun u hu => ((nodup_below hu start).filter _).filter _
  refine List.Perm.eq_of_pairwise (fun _ _ _ _ => notAfter_antisymm) (hpairs s) (hpairs t) ?_
  refine (List.perm_ext_iff_of_nodup (honce s hs) (honce t ht)).mpr fun names => ?_
  rw [List.mem_filter, List.mem_filter]
  exact and_congr_left (h names)

end Discovery

/-! ### Files in other places -/

/-- An entry without what is in it. -/
def Node.blank : Node → Node
  | .file .. => .file .empty 0
  | node => node

theorem Node.isFile_blank (node : Node) : node.blank.isFile = node.isFile := by cases node <;> rfl

theorem Node.isDirectory_blank (node : Node) : node.blank.isDirectory = node.isDirectory := by
  cases node <;> rfl

namespace Store

/-- A store in which files may have other contents and in which some places may have been given
files.  The directories are the same. -/
structure Filled (s : Store) (places : List Location) (t : Store) : Prop extends
    s.SameDirectories t where
  /-- The entries are of the same kind, save for files in the places. -/
  nodes : ∀ l, (t.node? l).map Node.blank = (s.node? l).map Node.blank ∨
    l ∈ places ∧ (t.node? l).any Node.isFile

/-- What a path name leads to, or what stands at it itself, without what is in it. -/
def found? (s : Store) (follow : Bool) (path : String) : Option (Location × Node) :=
  (if follow then s.stat path else s.linkStat path).toOption.map fun (loc, node) =>
    (loc, node.blank)

/-- A path name leads to the same entry whether or not some places are given files: it leads neither
to such a place nor through one. -/
def Ignores (s : Store) (places : List Location) (path : String) : Prop :=
  ∀ t, s.Filled places t → ∀ follow, t.found? follow path = s.found? follow path

variable {s t : Store} {places : List Location} {path : String} {loc : Location} {node : Node}

theorem Filled.refl (s : Store) (places : List Location) : s.Filled places s :=
  ⟨.refl s, fun _ => .inl rfl⟩

theorem Filled.trans {u : Store} (h : s.Filled places t) (h' : t.Filled places u) :
    s.Filled places u where
  toSameDirectories := h.toSameDirectories.trans h'.toSameDirectories
  nodes l := by
    rcases h'.nodes l with heq | hfile
    · rw [heq]
      refine (h.nodes l).imp_right fun ⟨hl, hfile⟩ => ⟨hl, ?_⟩
      have hkind : ∀ o : Option Node, o.any Node.isFile = (o.map Node.blank).any Node.isFile := by
        rintro (_ | node) <;> simp [Node.isFile_blank]
      rwa [hkind, heq, ← hkind]
    · exact .inr hfile

/-- An entry at another place is there still. -/
theorem Filled.exists_node? (h : s.Filled places t) (hnode : s.node? loc = some node)
    (hloc : loc ∉ places) : ∃ node', t.node? loc = some node' ∧ node'.blank = node.blank := by
  have heq := (h.nodes loc).resolve_right fun hfile => hloc hfile.1
  rw [hnode, Option.map_some, Option.map_eq_some_iff] at heq
  exact heq

/-- Nothing is taken away. -/
theorem Filled.node?_ne_none (h : s.Filled places t) (hnode : s.node? loc ≠ none) :
    t.node? loc ≠ none := by
  intro hnone
  rcases h.nodes loc with heq | ⟨-, hfile⟩
  · rw [hnone, Option.map_none, eq_comm, Option.map_eq_none_iff] at heq
    exact hnode heq
  · simp [hnone] at hfile

/-- What is new is a file in one of the places. -/
theorem Filled.mem_places (h : s.Filled places t) (hnode : t.node? loc ≠ none)
    (hold : s.node? loc = none) : loc ∈ places := by
  rcases h.nodes loc with heq | ⟨hloc, -⟩
  · rw [hold, Option.map_none, Option.map_eq_none_iff] at heq
    exact absurd heq hnode
  · exact hloc

/-- The entries have names still, if the places are made of names. -/
theorem Filled.proper (h : s.Filled places t) (hproper : s.Proper)
    (hplaces : ∀ l ∈ places, ∀ name ∈ l, Path.IsName name) : t.Proper := by
  intro l hl name hname
  by_cases hold : s.node? l = none
  · exact hplaces l (h.mem_places hl hold) name hname
  · exact hproper l hold name hname

/-- A file is a file still. -/
theorem Filled.isFile (h : s.Filled places t) {bytes : ByteArray} {mode : Nat}
    (hnode : s.node? loc = some (.file bytes mode)) :
    ∃ bytes mode, t.node? loc = some (.file bytes mode) := by
  have hfile : ∀ o : Option Node, o.any Node.isFile →
      ∃ bytes mode, o = some (.file bytes mode) := by
    rintro (_ | _ | _ | _) <;> simp [Node.isFile]
  rcases h.nodes loc with heq | ⟨-, hnew⟩
  · rw [hnode, Option.map_some, Option.map_eq_some_iff] at heq
    obtain ⟨node, hnode', hblank⟩ := heq
    refine hfile _ ?_
    rw [hnode', Option.any_some, ← node.isFile_blank, hblank]
    rfl
  · exact hfile _ hnew

theorem found?_of_stat (h : s.stat path = .ok (loc, node)) :
    s.found? true path = some (loc, node.blank) := by
  simp [found?, h, Except.toOption]

theorem stat_of_found? {kind : Node} (h : s.found? true path = some (loc, kind)) :
    ∃ node, s.stat path = .ok (loc, node) ∧ node.blank = kind := by
  unfold found? at h
  cases hstat : s.stat path with
  | error e => simp [hstat, Except.toOption] at h
  | ok found =>
    obtain ⟨l, node⟩ := found
    simp only [hstat, if_true, Except.toOption, Option.map_some, Option.some.injEq,
      Prod.mk.injEq] at h
    exact ⟨node, by rw [h.1], h.2⟩

theorem isFile_eq_of_found? (h : t.found? true path = s.found? true path) :
    t.isFile path = s.isFile path := by
  have hfound : ∀ u : Store, u.isFile path = (u.found? true path).any fun (_, kind) =>
      kind.isFile := by
    intro u
    unfold Store.isFile found?
    cases u.stat path <;> simp [Except.toOption, Node.isFile_blank]
  rw [hfound, hfound, h]

/-- A path name that reaches an entry without links, and not in one of the places, leads there with
and without files in the places. -/
theorem Reaches.ignores (h : s.Reaches path loc) (hnode : s.node? loc = some node)
    (hlink : ∀ target, node ≠ .link target) (hloc : loc ∉ places) : s.Ignores places path := by
  intro t hst follow
  obtain ⟨node', hnode', hblank⟩ := hst.exists_node? hnode hloc
  have hlink' : ∀ target, node' ≠ .link target := by
    rintro target rfl
    cases node with
    | link target => exact hlink target rfl
    | file _ _ | directory => simp [Node.blank] at hblank
  have hfound : ∀ {u : Store} {n : Node}, u.Reaches path loc → u.node? loc = some n →
      (∀ target, n ≠ .link target) → u.found? follow path = some (loc, n.blank) := by
    intro u n hreach hn hl
    have hresolve := hreach.resolve_eq (fun target => by simpa [hn] using hl target)
    cases follow <;>
      simp [found?, stat, linkStat, hresolve, hn, bind, Except.bind, pure, Except.pure,
        Except.toOption]
  rw [hfound (h.congr hst.toSameDirectories) hnode' hlink', hfound h hnode hlink, hblank]

end Store

namespace Discovery

variable {s t : Store} {places : List Location} {path : String} {exclude : List String}

/-- Files in some places do not change which files a path name stands for: neither what it leads to
nor, if that is a directory, what the names of source files below it lead to.  Names that a pattern
keeps out may lead anywhere. -/
structure Settled (s : Store) (places : List Location) (exclude : List String) (path : String) :
    Prop where
  /-- The path name leads to the same entry. -/
  start : s.Ignores places path
  /-- So do those of the source files below a directory, and of what is called like one. -/
  entries : ∀ start, s.stat path = .ok (start, .directory) → ∀ names ∈ below s start,
    isSkipped names = false → isSourceName (names.foldl Path.join path) = true →
      Exclusion.anyExcludes exclude (names.foldl Path.join path) = false →
        s.Ignores places (names.foldl Path.join path)

theorem isSkippedStart_eq_of_found? (h : t.found? false path = s.found? false path) :
    isSkippedStart t path = isSkippedStart s path := by
  have hfound : ∀ u : Store, isSkippedStart u path = (Path.fileName? path == some skippedName &&
      (u.found? false path).any fun (_, kind) => kind.isDirectory) := by
    intro u
    unfold isSkippedStart found?
    cases u.linkStat path <;> simp [Except.toOption, Node.isDirectory_blank]
  rw [hfound, hfound, h]

/-- A backup is not called like a source file. -/
theorem isSourceName_backup {directory name : String} {names : List String} (hd : directory ≠ "")
    (h : ∀ n ∈ names ++ [name ++ ".old"], Path.IsName n) :
    isSourceName ((names ++ [name ++ ".old"]).foldl Path.join directory) = false := by
  have hname : Path.fileName? ((names ++ [name ++ ".old"]).foldl Path.join directory) =
      some (name ++ ".old") := by
    rw [Path.fileName?, (Path.components_foldl_join hd h).1, ← List.append_assoc,
      List.getLast?_concat]
    have hdots := (h _ (List.mem_append_right names List.mem_cons_self)).ne_dots
    split <;> simp_all
  have hparts : (name ++ ".old").toList.splitOnP (· == '.') =
      name.toList.splitOnP (· == '.') ++ [['o', 'l', 'd']] := by
    have hold : ".old".toList = ['.', 'o', 'l', 'd'] := by decide
    rw [String.toList_append, hold]
    exact List.splitOnP_append_cons _ _ (by simp)
  rw [isSourceName, Path.extension?, hname]
  simp only [Option.bind_eq_bind, Option.bind_some, hparts, List.reverse_append,
    List.reverse_singleton, List.singleton_append]
  split
  · rfl
  · rename_i heq
    obtain ⟨rfl, -⟩ := List.cons.inj heq
    decide
  · rfl

/-- With and without files in the places of backups, the same ways lead to source files. -/
theorem mem_sourceWays_iff_of_filled (hst : s.Filled places t) (hproper : t.Proper)
    (hplaces : ∀ l ∈ places, ∃ loc, l = backupOf loc) (h : Settled s places exclude path)
    {start : Location} (hstart : s.stat path = .ok (start, .directory)) {names : List String}
    (hexclude : Exclusion.anyExcludes exclude (names.foldl Path.join path) = false) :
    names ∈ sourceWays s path start ↔ names ∈ sourceWays t path start := by
  have hsame : names ∈ below s start → isSkipped names = false →
      isSourceName (names.foldl Path.join path) = true →
      t.isFile (names.foldl Path.join path) = s.isFile (names.foldl Path.join path) :=
    fun hbelow hskip hname =>
      isFile_eq_of_found? (h.entries start hstart names hbelow hskip hname hexclude t hst true)
  rw [mem_sourceWays, mem_sourceWays]
  constructor
  · rintro ⟨hbelow, hskip, hfile, hname⟩
    obtain ⟨hne, node, hmem⟩ := mem_below.mp hbelow
    obtain ⟨node', hnode'⟩ := Option.ne_none_iff_exists'.mp
      (hst.node?_ne_none (node?_ne_none_of_mem hmem))
    have hbelow' : names ∈ below t start :=
      mem_below.mpr ⟨hne, node', exists_mem_of_node? (by simp [hne]) hnode'⟩
    exact ⟨hbelow', hskip, (hsame hbelow hskip hname).trans hfile, hname⟩
  · rintro ⟨hbelow, hskip, hfile, hname⟩
    obtain ⟨hne, node, hmem⟩ := mem_below.mp hbelow
    have hnode := node?_ne_none_of_mem hmem
    obtain ⟨node', hnode'⟩ : ∃ node', s.node? (start ++ names) = some node' := by
      rw [← Option.ne_none_iff_exists']
      intro hnone
      -- What is new is called like a backup, and no source file is.
      obtain ⟨loc, hloc⟩ := hplaces _ (hst.mem_places hnode hnone)
      obtain ⟨front, last, rfl⟩ := (List.eq_nil_or_concat' names).resolve_left hne
      rw [backupOf, ← List.append_assoc] at hloc
      obtain rfl := List.singleton_inj.mp (List.append_inj' hloc rfl).2
      have hnames := isSourceName_backup (ne_empty_of_stat hstart) fun n hn =>
        hproper _ hnode n (List.mem_append_right start hn)
      rw [Backup.pathOf] at hname
      exact absurd (hname.symm.trans hnames) (by decide)
    have hbelow' : names ∈ below s start :=
      mem_below.mpr ⟨hne, node', exists_mem_of_node? (by simp [hne]) hnode'⟩
    exact ⟨hbelow', hskip, (hsame hbelow' hskip hname).symm.trans hfile, hname⟩

/-- The source files that a pattern keeps out are not those that a path name stands for. -/
theorem files_ofFiles (exclude files : List String) :
    (ofFiles exclude files).files = files.filter (!Exclusion.anyExcludes exclude ·) := by
  cases files <;> rfl

/-- **Finding the same again.**  A path name stands for the same files with and without files in the
places of backups, if it does not lead there. -/
theorem files_discover_of_filled (hst : s.Filled places t) (hproper : t.Proper)
    (hs : (s.entries.map Prod.fst).Nodup) (ht : (t.entries.map Prod.fst).Nodup)
    (hplaces : ∀ l ∈ places, ∃ loc, l = backupOf loc) (h : Settled s places exclude path) :
    (discover t exclude path).files = (discover s exclude path).files := by
  have hfound := h.start t hst true
  cases hstat : s.stat path with
  | error e =>
    have hnone : t.found? true path = none := by
      rw [hfound]
      simp [found?, hstat, Except.toOption]
    cases hstat' : t.stat path with
    | error e' => rw [discover_of_error hstat, discover_of_error hstat']
    | ok place => simp [found?, hstat', Except.toOption] at hnone
  | ok place =>
    obtain ⟨start, node⟩ := place
    obtain ⟨node', hstat', hblank⟩ := stat_of_found? (hfound.trans (found?_of_stat hstat))
    -- A file may stand in for a file, but a directory stays one.
    have hkind : node'.isDirectory = node.isDirectory := by
      rw [← node.isDirectory_blank, ← hblank, node'.isDirectory_blank]
    cases hdir : node.isDirectory with
    | true =>
      have hdirectory : ∀ n : Node, n.isDirectory = true → n = .directory := by
        rintro (_ | _ | _) <;> simp [Node.isDirectory]
      obtain rfl := hdirectory node hdir
      obtain rfl := hdirectory node' (hkind.trans hdir)
      let wanted (names : List String) :=
        !Exclusion.anyExcludes exclude (names.foldl Path.join path)
      have hways : (sourceWays s path start).filter wanted =
          (sourceWays t path start).filter wanted :=
        sourceWays_congr hs ht wanted fun names hnames =>
          mem_sourceWays_iff_of_filled hst hproper hplaces h hstat (by simpa [wanted] using hnames)
      have hfiles : ∀ u : Store, u.stat path = .ok (start, .directory) →
          (discover u exclude path).files = if isSkippedStart u path then [] else
            ((sourceWays u path start).filter wanted).map (·.foldl Path.join path) := by
        intro u hu
        rw [discover_of_directory hu, files_ofFiles, sourceFiles_eq_map]
        split_ifs
        · rfl
        · exact List.filter_map
      rw [hfiles s hstat, hfiles t hstat', isSkippedStart_eq_of_found? (h.start t hst false), hways]
    | false =>
      have hother : ∀ n : Node, n.isDirectory = false → n ≠ .directory := by
        rintro _ hn rfl
        simp [Node.isDirectory] at hn
      rw [discover_of_file hstat (hother node hdir),
        discover_of_file hstat' (hother node' (hkind.trans hdir))]

end Discovery

end CApiUpgrade
