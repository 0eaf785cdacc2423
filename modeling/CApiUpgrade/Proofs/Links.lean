import CApiUpgrade.Proofs.Places

/-!
# Path names with links on the way

A path name may lead through links, and each of them is followed on from where it stands.
`Store.Leads` is such a way, with the number of links that may still be followed, and `Store.Names`
says of a path name where it leads, a link at its end not followed.

What a run changes are files and links, and a way may be cut by that.  Three facts say when it is
not:

* a walk that ends at an entry ends there in every store with more entries
  (`walkLinks_of_extends`);
* more links that may be followed do no harm (`walkLinks_of_extends`);
* a link that leads to a file does not stand on its own way (`walkLinks_erase_link`): it would lead
  in a circle.
-/

namespace CApiUpgrade

namespace Store

/-! ### Trees -/

/-- A store that is a tree: every entry stands in a directory, and the program works in one. -/
structure IsTree (s : Store) : Prop where
  /-- Above an entry there is a directory. -/
  above : ∀ loc, s.node? loc ≠ none → s.node? loc.dropLast = some .directory
  /-- The working directory is a directory. -/
  workDir : s.node? s.workDir = some .directory

/-- Whether a store is a tree. -/
theorem isTree_of_entries {s : Store}
    (h : ∀ e ∈ s.entries, (s.node? e.1.dropLast).any Node.isDirectory = true)
    (hwork : (s.node? s.workDir).any Node.isDirectory = true) : s.IsTree := by
  have hdir : ∀ {loc : Location}, (s.node? loc).any Node.isDirectory = true →
      s.node? loc = some .directory := by
    intro loc hany
    obtain ⟨node, hnode, hnd⟩ := Option.any_eq_true _ _ |>.mp hany
    cases node with
    | directory => exact hnode
    | file _ _ | link _ => simp [Node.isDirectory] at hnd
  refine ⟨fun loc hloc => ?_, hdir hwork⟩
  by_cases hroot : loc = []
  · subst hroot
    rfl
  · obtain ⟨node, hnode⟩ := Option.ne_none_iff_exists'.mp hloc
    exact hdir (h _ (exists_mem_of_node? hroot hnode))

theorem IsTree.base {s : Store} (h : s.IsTree) (path : String) :
    s.node? (s.base path) = some .directory := by
  unfold Store.base
  split_ifs
  · rfl
  · exact h.workDir

/-! ### Ways -/

/-- Names that lead from one location to another through directories and links.  Of the links that
may be followed, some are left. -/
inductive Leads (s : Store) : Nat → Location → List String → Nat → Location → Prop where
  | here (links : Nat) (loc : Location) : Leads s links loc [] links loc
  | stay {links left : Nat} {loc stop : Location} {rest : List String} :
    Leads s links loc rest left stop → Leads s links loc ("." :: rest) left stop
  | up {links left : Nat} {loc stop : Location} {rest : List String} :
    Leads s links loc.dropLast rest left stop → Leads s links loc (".." :: rest) left stop
  | down {links left : Nat} {loc stop : Location} {name : String} {rest : List String} :
    name ≠ "." → name ≠ ".." → s.node? (loc ++ [name]) = some .directory →
    Leads s links (loc ++ [name]) rest left stop → Leads s links loc (name :: rest) left stop
  | follow {links left : Nat} {loc stop : Location} {name target : String} {rest : List String} :
    name ≠ "." → name ≠ ".." → s.node? (loc ++ [name]) = some (.link target) →
    Leads s links (if Path.isAbsolute target then [] else loc) (Path.steps target ++ rest) left
      stop →
    Leads s (links + 1) loc (name :: rest) left stop

/-- How a walk goes on at a link, if so many of them may still be followed. -/
def afterLink (s : Store) (follow : Bool) : Nat → Location → List String → Except OsError Location
  | 0 => fun _ _ => .error .tooManyLinks
  | links + 1 => s.walkLinks follow links

theorem walkLinks_eq (s : Store) (follow : Bool) (links : Nat) :
    s.walkLinks follow links = s.walk follow (s.afterLink follow links) := by
  cases links <;> rfl

section Walks

variable {s t : Store} {follow : Bool} {links left : Nat} {loc dir stop : Location}
  {names rest : List String}

/-- A way with something behind it is passed.  At its very end a link has to be followed. -/
theorem Leads.walkLinks_append (h : s.Leads links loc names left dir)
    (hrest : follow = true ∨ rest ≠ []) :
    s.walkLinks follow links loc (names ++ rest) = s.walkLinks follow left dir rest := by
  induction h with
  | here => rfl
  | stay _ ih | up _ ih => simpa [walkLinks_eq, walk] using ih
  | down hdot hdots hnode _ ih => simpa [walkLinks_eq, walk, hdot, hdots, hnode] using ih
  | @follow _ _ _ _ _ target names hdot hdots hnode _ ih =>
    rw [List.append_assoc] at ih
    have hmore : ((names ++ rest).isEmpty && !follow) = false := by
      rcases hrest with rfl | hrest
      · simp
      · simp [hrest]
    rw [walkLinks_eq, List.cons_append]
    simp only [walk, if_neg hdot, if_neg hdots, hnode, hmore, Bool.false_eq_true, if_false,
      afterLink, ih]

/-- A walk that ends passes every name but the last one on a way. -/
theorem exists_leads (follow : Bool) (hrest : rest ≠ [])
    (h : s.walkLinks follow links loc (names ++ rest) = .ok stop) :
    ∃ left dir, s.Leads links loc names left dir ∧
      s.walkLinks follow left dir rest = .ok stop := by
  induction links using Nat.strongRecOn generalizing loc names with
  | _ links ihLinks =>
  induction names generalizing loc with
  | nil => exact ⟨links, loc, .here links loc, h⟩
  | cons name names ih =>
    have hmore : (names ++ rest).isEmpty = false := by simpa using fun _ => hrest
    rw [walkLinks_eq, List.cons_append, walk, ← walkLinks_eq] at h
    simp only [hmore, Bool.false_and, Bool.false_eq_true, if_false] at h
    split_ifs at h with hdot hdots
    · subst hdot
      obtain ⟨left, dir, hleads, hstop⟩ := ih h
      exact ⟨left, dir, .stay hleads, hstop⟩
    · subst hdots
      obtain ⟨left, dir, hleads, hstop⟩ := ih h
      exact ⟨left, dir, .up hleads, hstop⟩
    · cases hnode : s.node? (loc ++ [name]) with
      | none => simp [hnode] at h
      | some node =>
        cases node with
        | file _ _ => simp [hnode] at h
        | directory =>
          simp only [hnode] at h
          obtain ⟨left, dir, hleads, hstop⟩ := ih h
          exact ⟨left, dir, .down hdot hdots hnode hleads, hstop⟩
        | link target =>
          simp only [hnode] at h
          cases links with
          | zero => simp [afterLink] at h
          | succ links =>
            rw [afterLink, ← List.append_assoc] at h
            obtain ⟨left, dir, hleads, hstop⟩ := ihLinks links (Nat.lt_succ_self links) h
            exact ⟨left, dir, .follow hdot hdots hnode hleads, hstop⟩

/-- How a way begins: at a name, only one thing can be done. -/
theorem Leads.cons_cases {name : String} (h : s.Leads links loc (name :: rest) left stop) :
    name = "." ∧ s.Leads links loc rest left stop ∨
    name = ".." ∧ s.Leads links loc.dropLast rest left stop ∨
    name ≠ "." ∧ name ≠ ".." ∧ (s.node? (loc ++ [name]) = some .directory ∧
        s.Leads links (loc ++ [name]) rest left stop ∨
      ∃ fewer target, links = fewer + 1 ∧ s.node? (loc ++ [name]) = some (.link target) ∧
        s.Leads fewer (if Path.isAbsolute target then [] else loc) (Path.steps target ++ rest) left
          stop) := by
  cases h with
  | stay h => exact .inl ⟨rfl, h⟩
  | up h => exact .inr (.inl ⟨rfl, h⟩)
  | down hdot hdots hnode h => exact .inr (.inr ⟨hdot, hdots, .inl ⟨hnode, h⟩⟩)
  | follow hdot hdots hnode h => exact .inr (.inr ⟨hdot, hdots, .inr ⟨_, _, rfl, hnode, h⟩⟩)

/-- There is one way. -/
theorem Leads.unique {left' : Nat} {dir' : Location} (h : s.Leads links loc names left dir)
    (h' : s.Leads links loc names left' dir') : left = left' ∧ dir = dir' := by
  induction h with
  | here => cases h' with | here => exact ⟨rfl, rfl⟩
  | stay _ ih =>
    obtain ⟨-, h'⟩ | ⟨heq, -⟩ | ⟨hne, -⟩ := h'.cons_cases
    · exact ih h'
    · exact absurd heq (by decide)
    · exact absurd rfl hne
  | up _ ih =>
    obtain ⟨heq, -⟩ | ⟨-, h'⟩ | ⟨-, hne, -⟩ := h'.cons_cases
    · exact absurd heq (by decide)
    · exact ih h'
    · exact absurd rfl hne
  | down hdot hdots hnode _ ih =>
    obtain ⟨heq, -⟩ | ⟨heq, -⟩ | ⟨-, -, ⟨-, h'⟩ | ⟨_, _, -, hnode', -⟩⟩ := h'.cons_cases
    · exact absurd heq hdot
    · exact absurd heq hdots
    · exact ih h'
    · simp [hnode] at hnode'
  | follow hdot hdots hnode _ ih =>
    obtain ⟨heq, -⟩ | ⟨heq, -⟩ | ⟨-, -, ⟨hnode', -⟩ | ⟨_, _, hlinks, hnode', h'⟩⟩ := h'.cons_cases
    · exact absurd heq hdot
    · exact absurd heq hdots
    · simp [hnode] at hnode'
    · obtain rfl := Nat.succ.inj hlinks
      obtain rfl := Node.link.inj (Option.some.inj (hnode.symm.trans hnode'))
      exact ih h'

/-- In a tree, a way that starts at a directory ends at one. -/
theorem Leads.node?_eq_directory (h : s.Leads links loc names left stop) (htree : s.IsTree)
    (hloc : s.node? loc = some .directory) : s.node? stop = some .directory := by
  induction h with
  | here => exact hloc
  | stay _ ih => exact ih hloc
  | up _ ih => exact ih (htree.above _ (by simp [hloc]))
  | down _ _ hnode _ ih => exact ih hnode
  | @follow _ _ _ _ _ target _ _ _ _ _ ih =>
    refine ih ?_
    split_ifs
    · rfl
    · exact hloc

/-- Only the directories and the links decide where a way leads. -/
theorem Leads.congr (h : s.Leads links loc names left stop)
    (hst : ∀ l node, s.node? l = some node → node.isFile = false → t.node? l = some node) :
    t.Leads links loc names left stop := by
  induction h with
  | here links loc => exact .here links loc
  | stay _ ih => exact .stay ih
  | up _ ih => exact .up ih
  | down hdot hdots hnode _ ih => exact .down hdot hdots (hst _ _ hnode rfl) ih
  | follow hdot hdots hnode _ ih => exact .follow hdot hdots (hst _ _ hnode rfl) ih

/-- Directories alone lead on as they are. -/
theorem Descends.leads (h : s.Descends loc names stop) (links : Nat) :
    s.Leads links loc names links stop := by
  induction h with
  | here loc => exact .here links loc
  | stay _ ih => exact .stay ih
  | up _ ih => exact .up ih
  | down hdot hdots hdir _ ih => exact .down hdot hdots hdir ih

/-! ### Walks in larger stores -/

/-- A store with everything that another one has, seen from the same directory. -/
structure Extends (s t : Store) : Prop where
  /-- What stands in one store stands in the other. -/
  node : ∀ loc node, s.node? loc = some node → t.node? loc = some node
  /-- The working directories agree. -/
  workDir : s.workDir = t.workDir

theorem Extends.refl (s : Store) : s.Extends s := ⟨fun _ _ hnode => hnode, rfl⟩

/-- An entry less makes a smaller store. -/
theorem extends_erase (hloc : loc ≠ []) : (s.erase loc).Extends s where
  node l node hnode := by
    rw [node?_erase hloc] at hnode
    split_ifs at hnode
    exact hnode
  workDir := rfl

/-- A walk that ends at an entry ends there in every store with more entries, and if more links may
be followed. -/
theorem walkLinks_of_extends_of_le (hst : s.Extends t) (hstop : s.node? stop ≠ none) {more : Nat}
    (hle : links ≤ more) (h : s.walkLinks follow links loc names = .ok stop) :
    t.walkLinks follow more loc names = .ok stop := by
  induction links using Nat.strongRecOn generalizing loc names more with
  | _ links ihLinks =>
  induction names generalizing loc with
  | nil =>
    rw [walkLinks_eq, walk] at h ⊢
    exact h
  | cons name names ih =>
    rw [walkLinks_eq, walk, ← walkLinks_eq] at h ⊢
    by_cases hdot : name = "."
    · rw [if_pos hdot] at h ⊢
      exact ih h
    by_cases hdots : name = ".."
    · rw [if_neg hdot, if_pos hdots] at h ⊢
      exact ih h
    rw [if_neg hdot, if_neg hdots] at h ⊢
    cases hnode : s.node? (loc ++ [name]) with
    | none =>
      -- Only the end of a walk may be missing, and this one ends at an entry.
      simp only [hnode] at h
      split_ifs at h
      obtain rfl := Except.ok.inj h
      exact absurd hnode hstop
    | some node =>
      have hnode' := hst.node _ _ hnode
      cases node with
      | file _ _ =>
        simp only [hnode, hnode'] at h ⊢
        exact h
      | directory =>
        simp only [hnode, hnode'] at h ⊢
        exact ih h
      | link target =>
        simp only [hnode, hnode'] at h ⊢
        by_cases hend : (names.isEmpty && !follow) = true
        · rw [if_pos hend] at h ⊢
          exact h
        · rw [if_neg hend] at h ⊢
          cases links with
          | zero => simp [afterLink] at h
          | succ links =>
            obtain ⟨more, rfl⟩ : ∃ n, more = n + 1 := ⟨more - 1, by omega⟩
            exact ihLinks links (Nat.lt_succ_self links) (by omega) h

theorem walkLinks_of_extends (hst : s.Extends t) (hstop : s.node? stop ≠ none)
    (h : s.walkLinks follow links loc names = .ok stop) :
    t.walkLinks follow links loc names = .ok stop :=
  walkLinks_of_extends_of_le hst hstop (Nat.le_refl links) h

/-- Walks from one place end at one entry, however many links they may follow. -/
theorem walkLinks_unique {links' : Nat} {stop' : Location} (hstop : s.node? stop ≠ none)
    (hstop' : s.node? stop' ≠ none) (h : s.walkLinks follow links loc names = .ok stop)
    (h' : s.walkLinks follow links' loc names = .ok stop') : stop = stop' := by
  rcases Nat.le_total links links' with hle | hle
  · exact Except.ok.inj ((walkLinks_of_extends_of_le (.refl s) hstop hle h).symm.trans h')
  · exact Except.ok.inj (h.symm.trans (walkLinks_of_extends_of_le (.refl s) hstop' hle h'))

/-! ### Links do not stand on their own way -/

section Link

variable {place : Location} {target : String}

/-- Where the way of a link starts. -/
def linkStart (place : Location) (target : String) : Location :=
  if Path.isAbsolute target then [] else place.dropLast

/-- A walk that ends either does without a link, or it follows the link somewhere, with fewer links
left to follow. -/
theorem walkLinks_erase_or (hlink : s.node? place = some (.link target))
    (h : s.walkLinks true links loc names = .ok stop) :
    (s.erase place).walkLinks true links loc names = .ok stop ∨
      ∃ fewer rest, fewer < links ∧
        s.walkLinks true fewer (linkStart place target) (Path.steps target ++ rest) = .ok stop := by
  have hplace : place ≠ [] := by
    rintro rfl
    simp [node?] at hlink
  induction links using Nat.strongRecOn generalizing loc names with
  | _ links ihLinks =>
  induction names generalizing loc with
  | nil =>
    rw [walkLinks_eq, walk] at h ⊢
    exact .inl h
  | cons name names ih =>
    rw [walkLinks_eq, walk, ← walkLinks_eq] at h ⊢
    by_cases hdot : name = "."
    · rw [if_pos hdot] at h ⊢
      exact ih h
    by_cases hdots : name = ".."
    · rw [if_neg hdot, if_pos hdots] at h ⊢
      exact ih h
    rw [if_neg hdot, if_neg hdots] at h ⊢
    by_cases hhere : loc ++ [name] = place
    · -- The link itself.
      simp only [hhere, hlink, Bool.not_true, Bool.and_false, Bool.false_eq_true, if_false] at h
      cases links with
      | zero => simp [afterLink] at h
      | succ links =>
        refine .inr ⟨links, names, Nat.lt_succ_self links, ?_⟩
        have hloc : loc = place.dropLast := by rw [← hhere, List.dropLast_concat]
        rw [linkStart, ← hloc]
        exact h
    · have hnode' : (s.erase place).node? (loc ++ [name]) = s.node? (loc ++ [name]) := by
        rw [node?_erase hplace, if_neg hhere]
      simp only [hnode']
      cases hnode : s.node? (loc ++ [name]) with
      | none =>
        simp only [hnode] at h ⊢
        exact .inl h
      | some node =>
        cases node with
        | file _ _ =>
          simp only [hnode] at h ⊢
          exact .inl h
        | directory =>
          simp only [hnode] at h ⊢
          exact ih h
        | link other =>
          simp only [hnode, Bool.not_true, Bool.and_false, Bool.false_eq_true, if_false] at h ⊢
          cases links with
          | zero => simp [afterLink] at h
          | succ links =>
            refine (ihLinks links (Nat.lt_succ_self links) h).imp_right ?_
            rintro ⟨fewer, rest, hfewer, hstop⟩
            exact ⟨fewer, rest, by omega, hstop⟩

/-- What a link that leads to a file leads to is not a way: nothing lies behind a file. -/
theorem not_walkLinks_of_leads_to_file {u : Store} (hsu : s.Extends u) (htree : u.IsTree)
    (hstart : u.node? loc = some .directory) {bytes : ByteArray} {mode : Nat}
    (hstop : s.node? stop = some (.file bytes mode))
    (h : s.walkLinks true links loc names = .ok stop) {fewer : Nat} {stop' : Location}
    (hrest : rest ≠ []) : s.walkLinks true fewer loc (names ++ rest) ≠ .ok stop' := by
  intro hmore
  obtain ⟨left, dir, hleads, -⟩ := exists_leads true hrest hmore
  have hu := hleads.congr fun l node hnode _ => hsu.node l node hnode
  have hdir := hu.node?_eq_directory htree hstart
  have hfile := hsu.node _ _ hstop
  -- In the larger store the same walk ends at a directory and at a file.
  have hend : u.walkLinks true fewer loc names = .ok dir := by
    have hpassed : u.walkLinks true fewer loc (names ++ []) = u.walkLinks true left dir [] :=
      hu.walkLinks_append (.inl rfl)
    rw [List.append_nil] at hpassed
    rw [hpassed, walkLinks_eq, walk]
  have hwalk := walkLinks_of_extends hsu (by simp [hstop]) h
  obtain rfl := walkLinks_unique (by simp [hfile]) (by simp [hdir]) hwalk hend
  simp [hfile] at hdir

/-- **A link to a file does not stand on its own way**: without it, its target leads to the file. -/
theorem walkLinks_erase_link {u : Store} (hsu : s.Extends u) (htree : u.IsTree)
    (hlink : s.node? place = some (.link target))
    (hstart : u.node? (linkStart place target) = some .directory) {bytes : ByteArray} {mode : Nat}
    (hstop : s.node? stop = some (.file bytes mode))
    (h : s.walkLinks true links (linkStart place target) (Path.steps target) = .ok stop) :
    (s.erase place).walkLinks true links (linkStart place target) (Path.steps target) =
      .ok stop := by
  have hplace : place ≠ [] := by
    rintro rfl
    simp [node?] at hlink
  have hother : stop ≠ place := by
    rintro rfl
    simp [hlink] at hstop
  have hstop' : (s.erase place).node? stop ≠ none := by
    rw [node?_erase hplace, if_neg hother, hstop]
    simp
  induction links using Nat.strongRecOn with
  | _ links ih =>
    rcases walkLinks_erase_or hlink h with hdone | ⟨fewer, rest, hfewer, hagain⟩
    · exact hdone
    · by_cases hrest : rest = []
      · rw [hrest, List.append_nil] at hagain
        exact walkLinks_of_extends_of_le (.refl _) hstop' (Nat.le_of_lt hfewer)
          (ih fewer hfewer hagain)
      · exact absurd hagain
          (not_walkLinks_of_leads_to_file hsu htree hstart hstop h hrest)

end Link

end Walks

/-! ### Where a path name leads -/

/-- A path name leads to a location: links on the way are followed, but not one at the end, and the
last name is one of its own. -/
def Names (s : Store) (path : String) (loc : Location) : Prop :=
  path ≠ "" ∧ ∃ above left dir name, Path.steps path = above ++ [name] ∧ name ≠ "." ∧ name ≠ ".." ∧
    s.Leads maxLinks (s.base path) above left dir ∧ loc = dir ++ [name]

variable {s t : Store} {path : String} {loc : Location} {node : Node}

theorem Reaches.names (h : s.Reaches path loc) : s.Names path loc := by
  obtain ⟨hne, above, dir, name, hsteps, hdot, hdots, hdesc, rfl⟩ := h
  exact ⟨hne, above, maxLinks, dir, name, hsteps, hdot, hdots, hdesc.leads maxLinks, rfl⟩

/-- What stands at a path name, behind all links, stands where the path name resolves to. -/
theorem stat_eq_ok (h : s.stat path = .ok (loc, node)) :
    s.resolve true path = .ok loc ∧ s.node? loc = some node := by
  unfold stat at h
  cases hr : s.resolve true path with
  | error e => simp [hr, bind, Except.bind] at h
  | ok l =>
    cases hn : s.node? l with
    | none => simp [hr, hn, bind, Except.bind] at h
    | some n =>
      simp only [hr, hn, bind, Except.bind, pure, Except.pure, Except.ok.injEq, Prod.mk.injEq] at h
      obtain ⟨rfl, rfl⟩ := h
      exact ⟨rfl, hn⟩

/-- What stands at a path name itself stands where it leads. -/
theorem linkStat_eq_ok (h : s.linkStat path = .ok (loc, node)) :
    s.resolve false path = .ok loc ∧ s.node? loc = some node := by
  unfold linkStat at h
  cases hr : s.resolve false path with
  | error e => simp [hr, bind, Except.bind] at h
  | ok l =>
    cases hn : s.node? l with
    | none => simp [hr, hn, bind, Except.bind] at h
    | some n =>
      simp only [hr, hn, bind, Except.bind, pure, Except.pure, Except.ok.injEq, Prod.mk.injEq] at h
      obtain ⟨rfl, rfl⟩ := h
      exact ⟨rfl, hn⟩

/-- What stands at a path name stands there in every store with more entries. -/
theorem stat_of_extends (hst : s.Extends t) (h : s.stat path = .ok (loc, node)) :
    t.stat path = .ok (loc, node) := by
  obtain ⟨hresolve, hnode⟩ := stat_eq_ok h
  have hne : path ≠ "" := by
    rintro rfl
    simp [resolve] at hresolve
  have hbase : s.base path = t.base path := by rw [Store.base, Store.base, hst.workDir]
  rw [resolve, if_neg hne, hbase] at hresolve
  have hwalk := walkLinks_of_extends hst (by simp [hnode]) hresolve
  have hresolve' : t.resolve true path = .ok loc := by rw [resolve, if_neg hne, hwalk]
  simp [stat, hresolve', hst.node _ _ hnode, bind, Except.bind, pure, Except.pure]

/-- A path name that leads to something other than a directory. -/
theorem names_of_linkStat (htree : s.IsTree) (h : s.linkStat path = .ok (loc, node))
    (hnode : node ≠ .directory) : s.Names path loc := by
  obtain ⟨hresolve, hloc⟩ := linkStat_eq_ok h
  have hne : path ≠ "" := by
    rintro rfl
    simp [resolve] at hresolve
  have hdir : ∀ {l : Location}, s.node? l = some .directory → loc ≠ l := by
    rintro l hl rfl
    exact hnode (Option.some.inj (hloc.symm.trans hl))
  rw [resolve, if_neg hne] at hresolve
  rcases List.eq_nil_or_concat' (Path.steps path) with hnil | ⟨above, name, hsteps⟩
  · rw [hnil, walkLinks_eq, walk, Except.ok.injEq] at hresolve
    exact absurd hresolve.symm (hdir (htree.base path))
  · rw [hsteps] at hresolve
    obtain ⟨left, dir, hleads, hlast⟩ := exists_leads false (by simp) hresolve
    have hstop := hleads.node?_eq_directory htree (htree.base path)
    rw [walkLinks_eq, walk] at hlast
    by_cases hdot : name = "."
    · rw [if_pos hdot, walk, Except.ok.injEq] at hlast
      exact absurd hlast.symm (hdir hstop)
    by_cases hdots : name = ".."
    · rw [if_neg hdot, if_pos hdots, walk, Except.ok.injEq] at hlast
      exact absurd hlast.symm (hdir (htree.above dir (by simp [hstop])))
    refine ⟨hne, above, left, dir, name, hsteps, hdot, hdots, hleads, ?_⟩
    rw [if_neg hdot, if_neg hdots] at hlast
    cases hn : s.node? (dir ++ [name]) with
    | none => simpa [hn] using hlast.symm
    | some n => cases n <;> simpa [hn, walk] using hlast.symm

namespace Names

theorem ne_nil (h : s.Names path loc) : loc ≠ [] := by
  obtain ⟨-, above, left, dir, name, -, -, -, -, rfl⟩ := h
  simp

/-- The name of a backup leads to the place beside the file. -/
theorem backup (h : s.Names path loc) : s.Names (Backup.pathOf path) (backupOf loc) := by
  obtain ⟨hne, above, left, dir, name, hsteps, hdot, hdots, hleads, rfl⟩ := h
  obtain ⟨-, hold⟩ := Path.endsIn_backup hsteps hdot hdots
  exact ⟨append_old_ne_of_length_lt (by decide), above, left, dir, name ++ ".old", hold.steps,
    append_old_ne_of_length_lt (by decide), append_old_ne_of_length_lt (by decide),
    s.base_pathOf hne ▸ hleads, backupOf_append ..⟩

/-- A path name leads to one location, whether a link there would be followed or not. -/
theorem resolve_eq (h : s.Names path loc) (follow : Bool)
    (hlink : follow = true → ∀ target, s.node? loc ≠ some (.link target)) :
    s.resolve follow path = .ok loc := by
  obtain ⟨hne, above, left, dir, name, hsteps, hdot, hdots, hleads, rfl⟩ := h
  rw [resolve, if_neg hne, hsteps, hleads.walkLinks_append (.inr (by simp)), walkLinks_eq]
  simp only [walk, if_neg hdot, if_neg hdots]
  cases hnode : s.node? (dir ++ [name]) with
  | none => simp
  | some node =>
    cases node with
    | file _ _ | directory => simp
    | link target =>
      cases follow with
      | false => simp
      | true => exact absurd hnode (hlink rfl target)

/-- What stands where a path name leads, if that is no link. -/
theorem stat_eq (h : s.Names path loc) (hnode : s.node? loc = some node)
    (hlink : ∀ target, node ≠ .link target) : s.stat path = .ok (loc, node) := by
  have hresolve := h.resolve_eq true fun _ target => by simpa [hnode] using hlink target
  simp [stat, hresolve, hnode, bind, Except.bind, pure, Except.pure]

/-- The directory above is the one in which the location stands. -/
theorem resolveParent_eq (h : s.Names path loc) : s.resolveParent path = .ok loc.dropLast := by
  obtain ⟨hne, above, left, dir, name, hsteps, hdot, hdots, hleads, rfl⟩ := h
  rw [resolveParent, if_neg hne, (Path.endsIn_backup hsteps hdot hdots).1.components,
    List.dropLast_concat, hleads.walkLinks_append (.inl rfl), walkLinks_eq]
  simp [walk]

/-- What the last name of the path name is, and that it is one of its own. -/
theorem ending (h : s.Names path loc) : (Path.components path).getLast? = loc.getLast? ∧
    Path.endsInSlash path = false ∧ Path.endsInDots path = false := by
  obtain ⟨-, above, left, dir, name, hsteps, hdot, hdots, -, rfl⟩ := h
  obtain ⟨hcomponents, -, hslash, hend⟩ := (Path.endsIn_backup hsteps hdot hdots).1
  exact ⟨by simp [hcomponents], hslash, hend⟩

/-- The renaming to the backup puts a node beside its place, if it can stand there. -/
theorem rename_pathOf (h : s.Names path loc) (hnode : s.node? loc = some node)
    (hdir : node.isDirectory = false) :
    s.rename path (Backup.pathOf path) = s.relocate loc (backupOf loc) node := by
  have hb := h.backup
  obtain ⟨hname, hslash, hdots⟩ := h.ending
  obtain ⟨hold, hslash', hdots'⟩ := hb.ending
  have hplace : ∀ {l : Location}, l ≠ [] →
      ∃ name, l.getLast? = some name ∧ l.dropLast ++ [name] = l :=
    fun {l} hl => ⟨l.getLast hl, List.getLast?_eq_some_getLast hl, List.dropLast_concat_getLast hl⟩
  obtain ⟨name, hlast, hloc⟩ := hplace h.ne_nil
  obtain ⟨old, hlast', hbloc⟩ := hplace (backupOf_ne_nil loc)
  rw [rename, h.resolveParent_eq, hb.resolveParent_eq]
  simp only [bind, Except.bind, hdots, hdots', hslash, hslash', Bool.or_self, Bool.false_eq_true,
    ↓reduceIte, hname, hold, hlast, hlast', hloc, hbloc, hnode, hdir, Bool.not_false,
    Bool.and_false]

end Names

end Store

end CApiUpgrade
