import CApiUpgrade.RuleSet
import Mathlib.Data.List.Induction
import Mathlib.Data.List.Nodup
import Mathlib.Data.String.Basic

/-!
# Sets of rules and selections

What `RuleSet.ofRules` accepts and what `RuleSet.select` answers, said without the way they go about
it.

* **Order.**  A set of rules is accepted iff no two rules have one name and every predecessor that a
  rule names stands in front of it or is the rule itself (`ofRules_ok_iff`).  Every selection keeps
  this order.  A rule that names itself as its predecessor is not refused, although it cannot come
  after itself (`ofRules_accepts_own_predecessor`).
* **Selections.**  The last word about a name decides whether the rule of that name is selected
  (`select_last_word`).  The words are read one by one into a list of wanted names, so this is a
  statement about a run over the words: `mem_want` says what one word does to a name, and
  `mem_foldl_want` what all of them do.
-/

namespace CApiUpgrade.RuleSet

/-! ### What a set of rules has to satisfy -/

/-- No name is found twice iff the names are distinct and none was seen before. -/
theorem firstDuplicate?_eq_none {seen names : List String} :
    firstDuplicate? seen names = none ↔ names.Nodup ∧ ∀ name ∈ names, name ∉ seen := by
  fun_induction firstDuplicate? seen names with
  | case1 seen => simp
  | case2 seen name rest hmem =>
    refine ⟨fun h => by simp at h, fun h => ?_⟩
    exact absurd hmem (h.2 name List.mem_cons_self)
  | case3 seen name rest hmem ih =>
    rw [ih, List.nodup_cons, List.forall_mem_cons]
    constructor
    · rintro ⟨hnodup, hfresh⟩
      refine ⟨⟨fun hin => hfresh name hin List.mem_cons_self, hnodup⟩, hmem, fun n hn hseen => ?_⟩
      exact hfresh n hn (List.mem_cons_of_mem name hseen)
    · rintro ⟨⟨hnew, hnodup⟩, -, hfresh⟩
      refine ⟨hnodup, fun n hn hseen => ?_⟩
      rcases List.mem_cons.mp hseen with rfl | hseen
      · exact hnew hn
      · exact hfresh n hn hseen

/-- A rule is well placed iff its predecessors are among the names up to its own. -/
theorem misplaced?_eq_none {all earlier : List String} {rule : Rule} :
    misplaced? all earlier rule = none ↔ ∀ d ∈ rule.runsAfter, d ∈ earlier := by
  rw [misplaced?, List.findSome?_eq_none_iff]
  refine forall₂_congr fun d _ => ?_
  split_ifs <;> simp_all

/-- The predecessors of each rule are among the names in front of the list and those in the list up
to the rule itself. -/
theorem firstMisplaced?_eq_none {all earlier : List String} {rules : List Rule} :
    firstMisplaced? all earlier rules = none ↔
      ∀ front rule back, rules = front ++ rule :: back →
        ∀ d ∈ rule.runsAfter, d ∈ earlier ∨ d ∈ (front ++ [rule]).map Rule.name := by
  induction rules generalizing earlier with
  | nil => simp [firstMisplaced?]
  | cons first rest ih =>
    rw [firstMisplaced?, Option.or_eq_none_iff, misplaced?_eq_none, ih]
    constructor
    · rintro ⟨hfirst, hrest⟩ front rule back heq d hd
      cases front with
      | nil =>
        obtain ⟨rfl, rfl⟩ := List.cons.inj heq
        have hin := hfirst d hd
        simp only [List.mem_cons] at hin
        simpa [or_comm] using hin
      | cons r front =>
        obtain ⟨rfl, hback⟩ := List.cons.inj heq
        have hin := hrest front rule back hback d hd
        simp only [List.mem_cons] at hin
        rw [List.cons_append, List.map_cons, List.mem_cons]
        tauto
    · intro h
      refine ⟨fun d hd => ?_, fun front rule back heq d hd => ?_⟩
      · have hin := h [] first rest rfl d hd
        simpa [or_comm] using hin
      · have hin := h (first :: front) rule back (by rw [heq]; rfl) d hd
        rw [List.cons_append, List.map_cons, List.mem_cons] at hin
        rw [List.mem_cons]
        tauto

/-- The rules of a set in order: a predecessor of a rule stands in front of it, or is the rule
itself. -/
def IsOrdered (rules : List Rule) : Prop :=
  ∀ (i : Nat) (rule : Rule), rules[i]? = some rule → ∀ d ∈ rule.runsAfter,
    ∃ (j : Nat) (earlier : Rule), j ≤ i ∧ rules[j]? = some earlier ∧ earlier.name = d

theorem isOrdered_iff {rules : List Rule} :
    IsOrdered rules ↔ ∀ front rule back, rules = front ++ rule :: back →
      ∀ d ∈ rule.runsAfter, d ∈ (front ++ [rule]).map Rule.name := by
  constructor
  · intro h front rule back heq d hd
    obtain ⟨j, earlier, hj, hget, rfl⟩ := h front.length rule (by simp [heq]) d hd
    refine List.mem_map_of_mem (List.mem_of_getElem? (i := j) ?_)
    rw [heq, ← List.singleton_append, ← List.append_assoc, List.getElem?_append_left] at hget
    · exact hget
    · simpa using Nat.lt_succ_of_le hj
  · intro h i rule hget d hd
    have hlt : i < rules.length := (List.getElem?_eq_some_iff.mp hget).1
    have hsplit : rules = rules.take i ++ rule :: rules.drop (i + 1) := by
      rw [← (List.getElem?_eq_some_iff.mp hget).2, List.getElem_cons_drop, List.take_append_drop]
    obtain ⟨earlier, hmem, hname⟩ := List.mem_map.mp (h _ rule _ hsplit d hd)
    obtain ⟨j, hj⟩ := List.getElem?_of_mem hmem
    have hjlt := (List.getElem?_eq_some_iff.mp hj).1
    rw [List.length_append, List.length_take, List.length_singleton, min_eq_left hlt.le] at hjlt
    refine ⟨j, earlier, Nat.le_of_lt_succ hjlt, ?_, hname⟩
    rw [hsplit, ← List.singleton_append, ← List.append_assoc, List.getElem?_append_left]
    · exact hj
    · rw [List.length_append, List.length_take, List.length_singleton, min_eq_left hlt.le]
      exact hjlt

/-- What is accepted, and what becomes of it. -/
theorem ofRules_eq_ok_iff {rules : List Rule} {set : RuleSet} :
    ofRules rules = .ok set ↔ set = ⟨rules⟩ ∧ (rules.map Rule.name).Nodup ∧ IsOrdered rules := by
  have hnames : firstDuplicate? [] (rules.map Rule.name) = none ↔ (rules.map Rule.name).Nodup := by
    rw [firstDuplicate?_eq_none]
    simp
  have horder : firstMisplaced? (rules.map Rule.name) [] rules = none ↔ IsOrdered rules := by
    rw [firstMisplaced?_eq_none, isOrdered_iff]
    simp only [List.not_mem_nil, false_or]
  rw [← hnames, ← horder, ofRules]
  cases firstDuplicate? [] (rules.map Rule.name) with
  | some name => simp
  | none =>
    cases firstMisplaced? (rules.map Rule.name) [] rules with
    | some fault => simp
    | none => simp [eq_comm]

/-- In a set in order, a rule that is named by another one stands in front of it. -/
theorem IsOrdered.pairwise {rules : List Rule} (h : IsOrdered rules)
    (hnodup : (rules.map Rule.name).Nodup) :
    rules.Pairwise fun rule later => later.name ∉ rule.runsAfter := by
  rw [List.pairwise_iff_getElem]
  intro i j hi hj hij hmem
  obtain ⟨k, earlier, hk, hget, hname⟩ := h i rules[i] (List.getElem?_eq_getElem hi) _ hmem
  obtain ⟨hklt, rfl⟩ := List.getElem?_eq_some_iff.mp hget
  -- Two rules of one name are the same rule.
  have hsame : k = j := by
    refine (@List.Nodup.getElem_inj_iff _ _ hnodup k ?_ j ?_).mp ?_
    · simpa using hklt
    · simpa using hj
    · simpa using hname
  omega

/-! ### What a selection wants -/

/-- The words of a selection as they are written: what stands between commas and blanks. -/
def tokens (selection : String) : List (List Char) :=
  (selection.toList.splitOnP isSeparator).filter (!·.isEmpty)

/-- A word adds a name: `all` adds every name of the set, and any other word that does not start
with a dash adds itself. -/
def Adds (set : RuleSet) (token : List Char) (name : String) : Prop :=
  (token = "all".toList ∧ name ∈ set.names) ∨
    (token ≠ "all".toList ∧ token.head? ≠ some '-' ∧ token = name.toList)

/-- A word removes a name: a dash, then the name. -/
def Removes (token : List Char) (name : String) : Prop := token = '-' :: name.toList

/-- A name is wanted if some word adds or removes it and the last such word adds it. -/
def Wanted (set : RuleSet) (tokens : List (List Char)) (name : String) : Prop :=
  ∃ front token back, tokens = front ++ token :: back ∧ set.Adds token name ∧
    ∀ later ∈ back, ¬ set.Adds later name ∧ ¬ Removes later name

variable {set : RuleSet} {token : List Char} {name : String} {wanted : List String}

theorem mem_addName {new : String} : name ∈ addName wanted new ↔ name ∈ wanted ∨ name = new := by
  unfold addName
  split_ifs with h
  · constructor
    · exact .inl
    · rintro (hin | rfl)
      · exact hin
      · exact h
  · simp

theorem mem_foldl_addName {names : List String} :
    name ∈ names.foldl addName wanted ↔ name ∈ wanted ∨ name ∈ names := by
  induction names generalizing wanted with
  | nil => simp
  | cons new names ih => rw [List.foldl_cons, ih, mem_addName, List.mem_cons, or_assoc]

/-- **One word.**  A name is wanted after a word iff the word adds it, or it was wanted before and
the word does not remove it. -/
theorem mem_want (set : RuleSet) (wanted : List String) (token : List Char) (name : String) :
    name ∈ set.want wanted (.ofList token) ↔
      set.Adds token name ∨ (name ∈ wanted ∧ ¬ Removes token name) := by
  unfold SelectionWord.ofList
  split_ifs with hall
  · rw [beq_iff_eq] at hall
    have hkeeps : ¬ Removes token name := by
      rw [hall]
      simp [Removes]
    have hadds : set.Adds token name ↔ name ∈ set.names := by simp [Adds, hall]
    rw [want, mem_foldl_addName, hadds]
    tauto
  · rw [beq_iff_eq] at hall
    split
    · rename_i rest
      have hadds : ¬ set.Adds ('-' :: rest) name := by simp [Adds]
      have hremoves : Removes ('-' :: rest) name ↔ name = String.ofList rest := by
        rw [Removes, List.cons.injEq, String.ext_iff, String.toList_ofList]
        simp [eq_comm]
      simp [want, hadds, hremoves]
    · rename_i hdash
      have hhead : token.head? ≠ some '-' := by
        intro h
        obtain ⟨rest, rfl⟩ := List.head?_eq_some_iff.mp h
        exact hdash rest rfl
      have hname : name = String.ofList token ↔ token = name.toList :=
        ⟨fun h => by rw [h, String.toList_ofList], fun h => by rw [h, String.ofList_toList]⟩
      have hadds : set.Adds token name ↔ name = String.ofList token := by
        rw [Adds, hname]
        tauto
      have hkeeps : ¬ Removes token name := fun h => hdash _ h
      rw [want, mem_addName, hadds]
      tauto

theorem wanted_concat {tokens : List (List Char)} :
    set.Wanted (tokens ++ [token]) name ↔
      set.Adds token name ∨ (set.Wanted tokens name ∧ ¬ Removes token name) := by
  constructor
  · rintro ⟨front, adding, back, heq, hadds, hback⟩
    rcases List.eq_nil_or_concat back with rfl | ⟨back, last, rfl⟩
    · obtain ⟨-, hlast⟩ := List.append_inj' heq rfl
      rw [List.singleton_inj.mp hlast]
      exact .inl hadds
    · rw [List.concat_eq_append, ← List.cons_append, ← List.append_assoc] at heq
      rw [List.concat_eq_append] at hback
      obtain ⟨rfl, hlast⟩ := List.append_inj' heq rfl
      rw [List.singleton_inj.mp hlast]
      refine .inr ⟨⟨front, adding, back, rfl, hadds, fun later hl => ?_⟩, ?_⟩
      · exact hback later (List.mem_append_left _ hl)
      · exact (hback last (by simp)).2
  · intro h
    by_cases hnow : set.Adds token name
    · exact ⟨tokens, token, [], rfl, hnow, by simp⟩
    · obtain ⟨⟨front, adding, back, rfl, hadds, hback⟩, hkeeps⟩ := h.resolve_left hnow
      refine ⟨front, adding, back ++ [token], by simp, hadds, fun later hl => ?_⟩
      rcases List.mem_append.mp hl with hl | hl
      · exact hback later hl
      · rw [List.mem_singleton.mp hl]
        exact ⟨hnow, hkeeps⟩

/-- **All words.**  What has been read into the list of wanted names is what the last words about
them say. -/
theorem mem_foldl_want (set : RuleSet) (tokens : List (List Char)) (name : String) :
    name ∈ (tokens.map SelectionWord.ofList).foldl set.want [] ↔ set.Wanted tokens name := by
  -- Word by word from the front: the last one is read last.
  induction tokens using List.reverseRecOn with
  | nil => simp [Wanted]
  | append_singleton tokens token ih =>
    rw [List.map_append, List.foldl_append, List.map_singleton, List.foldl_cons, List.foldl_nil,
      mem_want, ih, wanted_concat]

theorem nodup_addName (h : wanted.Nodup) (new : String) : (addName wanted new).Nodup := by
  unfold addName
  split_ifs with hin
  · exact h
  · rw [List.nodup_append]
    refine ⟨h, List.nodup_singleton new, fun a ha b hb => ?_⟩
    rw [List.mem_singleton.mp hb]
    exact fun heq => hin (heq ▸ ha)

theorem nodup_want (h : wanted.Nodup) (word : SelectionWord) : (set.want wanted word).Nodup := by
  cases word with
  | all =>
    rw [want]
    generalize set.names = names
    induction names generalizing wanted with
    | nil => exact h
    | cons new names ih => exact ih (nodup_addName h new)
  | add name => exact nodup_addName h name
  | remove name => exact h.filter _

/-- No name is wanted twice. -/
theorem nodup_foldl_want (words : List SelectionWord) (h : wanted.Nodup) :
    (words.foldl set.want wanted).Nodup := by
  induction words generalizing wanted with
  | nil => exact h
  | cons word words ih => exact ih (nodup_want h word)

/-- Distinct names, sorted, are in ascending order. -/
theorem pairwise_lt_mergeSort {names : List String} (h : names.Nodup) :
    (names.mergeSort (· ≤ ·)).Pairwise (· < ·) := by
  have hsorted : (names.mergeSort (· ≤ ·)).Pairwise (fun a b => decide (a ≤ b) = true) :=
    List.pairwise_mergeSort (by simpa using fun a b c => String.le_trans)
      (by simpa using String.le_total) names
  have hnodup : (names.mergeSort (· ≤ ·)).Nodup := (List.mergeSort_perm names _).nodup_iff.mpr h
  refine (hsorted.and hnodup).imp ?_
  rintro a b ⟨hle, hne⟩
  exact lt_of_le_of_ne (of_decide_eq_true hle) hne

/-- The names that the words of a selection leave wanted. -/
def wantedNames (set : RuleSet) (selection : String) : List String :=
  (selectionWords selection).foldl set.want []

theorem mem_wantedNames (selection : String) :
    name ∈ set.wantedNames selection ↔ set.Wanted (tokens selection) name :=
  mem_foldl_want set (tokens selection) name

theorem nodup_wantedNames (set : RuleSet) (selection : String) :
    (set.wantedNames selection).Nodup :=
  nodup_foldl_want _ List.nodup_nil

/-- **A selection that is accepted** selects the rules of the wanted names. -/
theorem select_of_known {selection : String}
    (h : ∀ name, set.Wanted (tokens selection) name → name ∈ set.names) :
    set.select selection = .ok (set.rules.filter (·.name ∈ set.wantedNames selection)) := by
  have hnone : (set.wantedNames selection).filter (· ∉ set.names) = [] := by
    rw [List.filter_eq_nil_iff]
    intro name hname
    simpa using h name ((mem_wantedNames selection).mp hname)
  rw [wantedNames] at hnone
  rw [select, wantedNames, hnone]

/-- **A selection that is refused** is refused with the wanted names that are not in the set. -/
theorem select_of_unknown {selection : String} (hwanted : set.Wanted (tokens selection) name)
    (hunknown : name ∉ set.names) :
    set.select selection = .error (.unknownOperations
      (((set.wantedNames selection).filter (· ∉ set.names)).mergeSort (· ≤ ·))) := by
  have hsome : (set.wantedNames selection).filter (· ∉ set.names) ≠ [] := by
    refine List.ne_nil_of_mem (a := name) ?_
    rw [List.mem_filter]
    exact ⟨(mem_wantedNames selection).mpr hwanted, by simpa using hunknown⟩
  rw [wantedNames] at hsome
  simp only [select, wantedNames]

/-- What was selected, if anything was: rules of the set, in the order of the set. -/
theorem eq_filter_of_select {selection : String} {selected : List Rule}
    (h : set.select selection = .ok selected) :
    selected = set.rules.filter (·.name ∈ set.wantedNames selection) := by
  by_cases hknown : ∀ name, set.Wanted (tokens selection) name → name ∈ set.names
  · rw [select_of_known hknown] at h
    exact (Except.ok.inj h).symm
  · push Not at hknown
    obtain ⟨name, hwanted, hunknown⟩ := hknown
    rw [select_of_unknown hwanted hunknown] at h
    cases h

/-! ### The two results -/

/-- **The last word about a name decides.**  If a name is wanted that is not in the set, the
selection is refused, and what it is refused with are these names, ascending.  Otherwise the
selected rules are those of the wanted names, each once and in the order of the set. -/
theorem select_last_word {rules : List Rule} {set : RuleSet} (h : ofRules rules = .ok set)
    (selection : String) :
    ((∃ name, set.Wanted (tokens selection) name ∧ name ∉ rules.map Rule.name) →
      ∃ unknown, set.select selection = .error (.unknownOperations unknown) ∧
        unknown.Pairwise (· < ·) ∧
        ∀ name, name ∈ unknown ↔
          set.Wanted (tokens selection) name ∧ name ∉ rules.map Rule.name) ∧
    ((∀ name, set.Wanted (tokens selection) name → name ∈ rules.map Rule.name) →
      ∃ selected, set.select selection = .ok selected ∧
        selected.Sublist rules ∧ (selected.map Rule.name).Nodup ∧
        ∀ name, name ∈ selected.map Rule.name ↔ set.Wanted (tokens selection) name) := by
  obtain ⟨rfl, hnodup, -⟩ := ofRules_eq_ok_iff.mp h
  have hnames : RuleSet.names ⟨rules⟩ = rules.map Rule.name := rfl
  refine ⟨?_, fun hknown => ⟨_, select_of_known hknown, List.filter_sublist, ?_, fun name => ?_⟩⟩
  · rintro ⟨name, hwanted, hunknown⟩
    refine ⟨_, select_of_unknown hwanted hunknown, ?_, fun name => ?_⟩
    · exact pairwise_lt_mergeSort ((nodup_wantedNames _ selection).filter _)
    · rw [(List.mergeSort_perm _ _).mem_iff, List.mem_filter, mem_wantedNames, hnames]
      simp
  · exact hnodup.sublist (List.filter_sublist.map _)
  · simp only [List.mem_map, List.mem_filter, decide_eq_true_eq, mem_wantedNames]
    constructor
    · rintro ⟨rule, ⟨-, hwanted⟩, rfl⟩
      exact hwanted
    · intro hwanted
      obtain ⟨rule, hmem, rfl⟩ := List.mem_map.mp (hknown name hwanted)
      exact ⟨rule, ⟨hmem, hwanted⟩, rfl⟩

/-- Two rules, the second one after the first. -/
def twoRules : List Rule :=
  [{ name := "a", description := "", patterns := [] },
    { name := "b", description := "", patterns := [], runsAfter := ["a"] }]

theorem ofRules_twoRules : ofRules twoRules = .ok ⟨twoRules⟩ := by
  have hnames : firstDuplicate? [] (twoRules.map Rule.name) = none := rfl
  have horder : firstMisplaced? (twoRules.map Rule.name) [] twoRules = none := rfl
  rw [ofRules, hnames, horder]

/-- The word that takes `a` back is overruled by `all`, the one that takes `b` back is the last
about `b`; and a name that no rule has is refused. -/
theorem select_last_word_two :
    (∃ selected, RuleSet.select ⟨twoRules⟩ "-a,all -b" = .ok selected ∧
      selected.Sublist twoRules ∧ ∀ name, name ∈ selected.map Rule.name ↔ name = "a") ∧
    ∃ unknown, RuleSet.select ⟨twoRules⟩ "all,c" = .error (.unknownOperations unknown) ∧
      unknown.Pairwise (· < ·) ∧ ∀ name, name ∈ unknown ↔ name = "c" := by
  have hknown : ∀ name, Wanted ⟨twoRules⟩ (tokens "-a,all -b") name ↔ name = "a" := by
    have hlist : wantedNames ⟨twoRules⟩ "-a,all -b" = ["a"] := rfl
    simp [← mem_wantedNames, hlist]
  have hunknown : ∀ name, Wanted ⟨twoRules⟩ (tokens "all,c") name ↔
      name = "a" ∨ name = "b" ∨ name = "c" := by
    have hlist : wantedNames ⟨twoRules⟩ "all,c" = ["a", "b", "c"] := rfl
    simp [← mem_wantedNames, hlist]
  have hnames : twoRules.map Rule.name = ["a", "b"] := rfl
  constructor
  · obtain ⟨selected, hselect, hsub, -, hmem⟩ :=
      (select_last_word ofRules_twoRules "-a,all -b").2 (by simp [hknown, hnames])
    exact ⟨selected, hselect, hsub, fun name => (hmem name).trans (hknown name)⟩
  · obtain ⟨unknown, hselect, hsorted, hmem⟩ :=
      (select_last_word ofRules_twoRules "all,c").1 ⟨"c", by simp [hunknown, hnames]⟩
    refine ⟨unknown, hselect, hsorted, fun name => (hmem name).trans ?_⟩
    rw [hunknown, hnames]
    constructor
    · rintro ⟨rfl | rfl | rfl, h⟩ <;> simp_all
    · rintro rfl
      simp

/-- **Order.**  A set is accepted iff its names are distinct and every predecessor of a rule stands
in front of the rule or is the rule itself.  In what is selected from it, a rule comes strictly
after every other rule that it names as its predecessor. -/
theorem ofRules_ok_iff (rules : List Rule) :
    ((∃ set, ofRules rules = .ok set) ↔ (rules.map Rule.name).Nodup ∧ IsOrdered rules) ∧
    ∀ (set : RuleSet) (selection : String) (selected : List Rule), ofRules rules = .ok set →
      set.select selection = .ok selected →
      ∀ (i j : Nat) (rule earlier : Rule), selected[i]? = some rule → selected[j]? = some earlier →
        earlier.name ∈ rule.runsAfter → j < i ∨ earlier = rule := by
  constructor
  · simp only [ofRules_eq_ok_iff, exists_eq_left]
  · intro set selection selected hset hselect i j rule earlier hi hj hafter
    obtain ⟨rfl, hnodup, hordered⟩ := ofRules_eq_ok_iff.mp hset
    have hpairs : selected.Pairwise fun rule later => later.name ∉ rule.runsAfter := by
      rw [eq_filter_of_select hselect]
      exact (hordered.pairwise hnodup).sublist List.filter_sublist
    rw [List.pairwise_iff_getElem] at hpairs
    obtain ⟨hilt, rfl⟩ := List.getElem?_eq_some_iff.mp hi
    obtain ⟨hjlt, rfl⟩ := List.getElem?_eq_some_iff.mp hj
    rcases lt_trichotomy j i with hlt | rfl | hgt
    · exact .inl hlt
    · exact .inr rfl
    · exact absurd hafter (hpairs i j hilt hjlt hgt)

/-- Both rules are selected, and the first one stands in front. -/
theorem ofRules_ok_iff_two :
    ((twoRules.map Rule.name).Nodup ∧ IsOrdered twoRules) ∧
    ∃ selected, RuleSet.select ⟨twoRules⟩ "b,a" = .ok selected ∧
      ∀ (i j : Nat) (rule earlier : Rule), selected[i]? = some rule → selected[j]? = some earlier →
        earlier.name ∈ rule.runsAfter → j < i ∨ earlier = rule := by
  have hlist : wantedNames ⟨twoRules⟩ "b,a" = ["b", "a"] := rfl
  have hselect : RuleSet.select ⟨twoRules⟩ "b,a" = .ok twoRules := by
    rw [select_of_known, hlist]
    · rfl
    · simp only [← mem_wantedNames, hlist]
      simp [names, twoRules]
  exact ⟨(ofRules_ok_iff twoRules).1.mp ⟨_, ofRules_twoRules⟩, twoRules, hselect,
    (ofRules_ok_iff twoRules).2 _ _ _ ofRules_twoRules hselect⟩

/-- **A rule that comes after itself** is accepted, although nothing stands in front of it. -/
theorem ofRules_accepts_own_predecessor :
    let rule : Rule := { name := "a", description := "", patterns := [], runsAfter := ["a"] }
    ofRules [rule] = .ok ⟨[rule]⟩ ∧ RuleSet.select ⟨[rule]⟩ "a" = .ok [rule] ∧
      ¬ ∀ (i : Nat) (rule' : Rule), [rule][i]? = some rule' → ∀ d ∈ rule'.runsAfter,
        ∃ (j : Nat) (earlier : Rule), j < i ∧ [rule][j]? = some earlier ∧ earlier.name = d := by
  intro rule
  have hlist : wantedNames ⟨[rule]⟩ "a" = ["a"] := rfl
  refine ⟨?_, ?_, fun h => ?_⟩
  · rw [ofRules_eq_ok_iff, isOrdered_iff]
    refine ⟨rfl, List.nodup_singleton _, fun front other back heq d hd => ?_⟩
    obtain ⟨rfl, rfl, rfl⟩ : front = [] ∧ rule = other ∧ back = [] := by
      cases front <;> simp_all
    exact hd
  · rw [select_of_known, hlist]
    · rfl
    · simp [← mem_wantedNames, hlist, names, rule]
  · obtain ⟨j, -, hj, -⟩ := h 0 rule rfl "a" List.mem_cons_self
    exact absurd hj (Nat.not_lt_zero j)

end CApiUpgrade.RuleSet
