import CApiUpgrade.Proofs.Locality
import CApiUpgrade.Proofs.Selection

/-!
# Replaying a patch

A rule that does not fire leaves the session as it is, so the rules that fire lead from the same
start to the same end when they are applied alone (`Patch.Session.exists_fired`).  Their names, with
commas between them, are a selection of just these rules (`RuleSet.select_intercalate`).  So what a
patch reports as applied is a recipe for the same patch: `patch_replay`.
-/

namespace CApiUpgrade

namespace RuleSet

/-! ### Names as a selection -/

/-- A name that stands for itself in a selection. -/
structure IsWord (name : String) : Prop where
  /-- It is not empty. -/
  ne_nil : name.toList ≠ []
  /-- No comma and no blank splits it. -/
  unsplit : ∀ c ∈ name.toList, isSeparator c = false
  /-- It is neither `all` nor a name that is taken back. -/
  ofList_eq : SelectionWord.ofList name.toList = .add name

/-- Whether a name stands for itself in a selection. -/
def isWord (name : String) : Bool :=
  !name.toList.isEmpty && name.toList.all (!isSeparator ·) &&
    decide (SelectionWord.ofList name.toList = .add name)

theorem isWord_iff {name : String} : isWord name = true ↔ IsWord name := by
  simp only [isWord, Bool.and_eq_true, List.all_eq_true, Bool.not_eq_true', decide_eq_true_eq,
    List.isEmpty_eq_false_iff]
  exact ⟨fun ⟨⟨hne, hsep⟩, hadd⟩ => ⟨hne, hsep, hadd⟩, fun ⟨hne, hsep, hadd⟩ => ⟨⟨hne, hsep⟩, hadd⟩⟩

/-- The words of a selection that lists names are these names. -/
theorem tokens_intercalate {names : List String} (h : ∀ name ∈ names, IsWord name) :
    tokens (",".intercalate names) = names.map String.toList := by
  rw [tokens, String.toList_intercalate]
  induction names with
  | nil => rfl
  | cons name names ih =>
    rw [List.forall_mem_cons] at h
    obtain ⟨hname, hnames⟩ := h
    cases names with
    | nil =>
      rw [List.map_singleton, List.intercalate_singleton, List.splitOnP_eq_singleton hname.unsplit,
        List.filter_cons_of_pos (by simpa using hname.ne_nil), List.filter_nil]
    | cons next names =>
      -- The comma behind a name is the first place where the text is split, since a word has no
      -- separator in it.
      have hsplit :
          (name.toList ++ ",".toList ++ ",".toList.intercalate
            ((next :: names).map String.toList)).splitOnP
          isSeparator = name.toList ::
            (",".toList.intercalate ((next :: names).map String.toList)).splitOnP isSeparator := by
        rw [List.append_assoc]
        exact List.splitOnP_append_cons_of_forall_mem hname.unsplit ',' rfl _
      rw [List.map_cons, List.map_cons, List.intercalate_cons_cons, ← List.map_cons, hsplit,
        List.filter_cons_of_pos (by simpa using hname.ne_nil), ih hnames]

variable {set : RuleSet}

/-- The names of some rules, in the order of the set, pick out these rules. -/
theorem filter_mem_map_name {fired rules : List Rule} (h : fired.Sublist rules)
    (hnodup : (rules.map Rule.name).Nodup) :
    rules.filter (fun rule => decide (rule.name ∈ fired.map Rule.name)) = fired := by
  induction h with
  | slnil => rfl
  | @cons fired rules rule h ih =>
    rw [List.map_cons, List.nodup_cons] at hnodup
    have hout : rule.name ∉ fired.map Rule.name :=
      fun hin => hnodup.1 ((h.map Rule.name).subset hin)
    rw [List.filter_cons_of_neg (by simpa using hout), ih hnodup.2]
  | @cons_cons fired rules rule h ih =>
    rw [List.map_cons, List.nodup_cons] at hnodup
    have hrest : ∀ r ∈ rules, decide (r.name ∈ (rule :: fired).map Rule.name) =
        decide (r.name ∈ fired.map Rule.name) := by
      intro r hr
      have hne : r.name ≠ rule.name := fun heq => hnodup.1 (heq ▸ List.mem_map_of_mem hr)
      simp [hne]
    rw [List.filter_cons_of_pos (by simp), List.filter_congr hrest, ih hnodup.2]

/-- **A list of names** selects the rules of these names. -/
theorem select_intercalate (hnodup : set.names.Nodup) (hwords : ∀ name ∈ set.names, IsWord name)
    {fired : List Rule} (h : fired.Sublist set.rules) :
    set.select (",".intercalate (fired.map Rule.name)) = .ok fired := by
  have hsub : fired.map Rule.name ⊆ set.names := (h.map Rule.name).subset
  have hmem : ∀ name, name ∈ set.wantedNames (",".intercalate (fired.map Rule.name)) ↔
      name ∈ fired.map Rule.name := by
    intro name
    have hadd : (tokens (",".intercalate (fired.map Rule.name))).map SelectionWord.ofList =
        (fired.map Rule.name).map .add := by
      rw [tokens_intercalate fun name hname => hwords name (hsub hname), List.map_map]
      exact List.map_congr_left fun name hname => (hwords name (hsub hname)).ofList_eq
    have hwanted : set.wantedNames (",".intercalate (fired.map Rule.name)) =
        (fired.map Rule.name).foldl addName [] := by
      rw [wantedNames, selectionWords, ← tokens, hadd, List.foldl_map]
      rfl
    rw [hwanted, mem_foldl_addName]
    simp
  rw [select_of_known fun name hname => hsub ((hmem name).mp ((mem_wantedNames _).mpr hname))]
  simp only [hmem]
  rw [filter_mem_map_name h hnodup]

end RuleSet

/-- Every name of the catalog stands for itself in a selection. -/
theorem Catalog.isWord_name {name : String} (h : name ∈ all.names) : RuleSet.IsWord name := by
  have hall : all.names.all RuleSet.isWord = true := by decide +kernel
  exact RuleSet.isWord_iff.mp (List.all_eq_true.mp hall name h)

/-! ### The rules that fire -/

/-- **The rules that fire** lead to the same end when they are applied alone. -/
theorem Patch.Session.exists_fired {rules : List Rule} {s s' : Session}
    (h : rules.foldlM step s = .ok s') :
    ∃ fired : List Rule, fired.Sublist rules ∧ s'.applied = s.applied ++ fired.map Rule.name ∧
      fired.foldlM step s = .ok s' := by
  induction rules generalizing s with
  | nil =>
    obtain rfl : s = s' := Except.ok.inj h
    exact ⟨[], .slnil, by simp, rfl⟩
  | cons rule rules ih =>
    obtain ⟨s₁, hstep, hrest⟩ := foldlM_step_cons.mp h
    obtain ⟨fired, hsub, happlied, hfold⟩ := ih hrest
    obtain ⟨changed, -, ⟨-, rfl⟩ | ⟨-, rfl⟩⟩ := step_cases hstep
    · exact ⟨fired, hsub.cons rule, happlied, hfold⟩
    · refine ⟨rule :: fired, hsub.cons_cons rule, ?_, foldlM_step_cons.mpr ⟨_, hstep, hfold⟩⟩
      rw [happlied, applied_fire, List.map_cons, List.append_assoc, List.singleton_append]

open Patch

/-- **The report can be replayed.**  The rules that a patch reports as applied are some of the
selected ones, in the order of the catalog, and their names, with commas between them, select just
these rules.  Patching the same text with them has the same outcome. -/
theorem patch_replay {selection : String} {selected : List Rule}
    (hs : Catalog.all.select selection = .ok selected) {insertHeader : Bool} {text : List Char}
    {o : PatchOutcome} (h : patch selected insertHeader text = .ok o) :
    (o.applied.Sublist (selected.map Rule.name) ∧ selected.Sublist Catalog.rules) ∧
      ∃ replayed : List Rule, Catalog.all.select (",".intercalate o.applied) = .ok replayed ∧
        replayed.map Rule.name = o.applied ∧ patch replayed insertHeader text = .ok o := by
  obtain ⟨s, hfold, rfl⟩ := patch_eq_ok.mp h
  obtain ⟨fired, hsub, happlied, hfired⟩ := Session.exists_fired hfold
  have hnames : s.outcome.applied = fired.map Rule.name := happlied
  have hcatalog : selected.Sublist Catalog.rules := Catalog.sublist_of_select hs
  rw [hnames]
  refine ⟨⟨hsub.map Rule.name, hcatalog⟩, fired, ?_, rfl, patch_eq_ok.mpr ⟨s, hfired, rfl⟩⟩
  exact RuleSet.select_intercalate Catalog.nodup_names (fun _ => Catalog.isWord_name)
    (hsub.trans hcatalog)

/-- Of three rules two fire, the second of them with the header. -/
theorem patch_replay_two :
    let text := "t = a->ob_type;\nPy_INCREF(x);\ny = x;".toList
    let o : PatchOutcome :=
      ⟨"#include \"pythoncapi_compat.h\"\n\nt = Py_TYPE(a);\ny = Py_NewRef(x);".toList,
        ["Py_TYPE", "Py_NewRef"], true⟩
    Catalog.all.select "Py_NewRef Py_TYPE,Py_SIZE" = .ok [Catalog.readType, Catalog.readSize,
      Catalog.newRef] ∧
      patch [Catalog.readType, Catalog.readSize, Catalog.newRef] true text = .ok o ∧
      ∃ replayed : List Rule, Catalog.all.select "Py_TYPE,Py_NewRef" = .ok replayed ∧
        replayed.map Rule.name = ["Py_TYPE", "Py_NewRef"] ∧ patch replayed true text = .ok o := by
  intro text o
  have hselect : Catalog.all.select "Py_NewRef Py_TYPE,Py_SIZE" =
      .ok [Catalog.readType, Catalog.readSize, Catalog.newRef] := rfl
  have hpatch : patch [Catalog.readType, Catalog.readSize, Catalog.newRef] true text = .ok o :=
    Evaluation.patch_eq_ok (by decide +kernel)
  exact ⟨hselect, hpatch, (patch_replay hselect hpatch).2⟩

end CApiUpgrade
