import CApiUpgrade.Proofs.Evaluation
import CApiUpgrade.Proofs.Patching
import CApiUpgrade.Proofs.Payment
import CApiUpgrade.Report
import CApiUpgrade.SourceFile

/-!
# Patching again and again

Patching lowers the debt of a text by every rule that fires, and the header adds none
(`patch_cases`).  So patching never leads back to a text that it has changed:

* `isChanged_iff_text_ne`: a rule has fired iff the text is another one in the end.
* `patchTimes_converges`: a text that is patched over and over changes at most as often as its debt
  says, and then never again.

One patch need not be enough: a template may leave a match of its own pattern.
`patch_eq_self_iff_hits` says when it is.
-/

namespace CApiUpgrade

open Text Patch

/-! ### Sessions -/

theorem Header.debt_insert_le (text : List Char) : debt (Header.insert text) ≤ debt text := by
  have hlines : due [] Header.lines = 0 := by decide +kernel
  have hshut : isShutBehind Header.lines.reverse = true := by decide +kernel
  have heases : Eases (Header.lines.reverse ++ []) [] text :=
    (shut_of_isShutBehind hshut []).eases rfl text
  rw [debt_eq_due, debt_eq_due, Header.insert, due_append, hlines, Nat.zero_add]
  exact heases.due_le

namespace Patch.Session

theorem debt_fire_le (s : Session) (rule : Rule) (changed : List Char) :
    debt (s.fire rule changed).text ≤ debt changed := by
  unfold fire
  dsimp only
  split_ifs
  · exact Header.debt_insert_le changed
  · exact le_rfl

/-- Every rule that fires lowers the debt. -/
theorem debt_of_foldlM {rules : List Rule} (hrules : ∀ rule ∈ rules, rule ∈ Catalog.rules)
    {s s' : Session} (h : rules.foldlM step s = .ok s') :
    debt s'.text + s'.applied.length ≤ debt s.text + s.applied.length := by
  induction rules generalizing s with
  | nil =>
    rw [List.foldlM_nil] at h
    rw [Except.ok.inj h]
  | cons rule rules ih =>
    obtain ⟨s₁, hs₁, hrest⟩ := foldlM_step_cons.mp h
    have hrest := ih (fun r hr => hrules r (List.mem_cons_of_mem _ hr)) hrest
    obtain ⟨changed, ha, ⟨-, rfl⟩ | ⟨hne, rfl⟩⟩ := step_cases hs₁
    · exact hrest
    · have hrule := Rule.debt_lt_of_apply (hrules rule List.mem_cons_self) ha hne
      have hfire := debt_fire_le s rule changed
      rw [applied_fire, List.length_append, List.length_singleton] at hrest
      omega

end Patch.Session

section Selection

variable {selection : String} {selected : List Rule} {insertHeader : Bool}

/-- **One patch.**  Either no rule fires and nothing changes, or the debt is lowered. -/
theorem patch_cases (hs : Catalog.all.select selection = .ok selected) {text : List Char}
    {o : PatchOutcome} (h : patch selected insertHeader text = .ok o) :
    o = ⟨text, [], false⟩ ∨ (o.applied ≠ [] ∧ debt o.text < debt text) := by
  obtain ⟨s, hfold, rfl⟩ := patch_eq_ok.mp h
  have hsub : ∀ rule ∈ selected, rule ∈ Catalog.rules := fun _ hr =>
    (Catalog.sublist_of_select hs).subset hr
  have hdebt := Session.debt_of_foldlM hsub hfold
  obtain ⟨names, hnames, hnil⟩ := Session.applied_of_foldlM hfold
  have happlied : s.applied = names := by simpa [Session.start] using hnames
  by_cases hempty : names = []
  · exact .inl (by rw [(hnil hempty).1]; rfl)
  · refine .inr ⟨by simpa [Session.outcome, happlied] using hempty, ?_⟩
    have hpos := List.length_pos_iff.mpr hempty
    simp only [Session.start, List.length_nil, happlied] at hdebt
    simp only [Session.outcome]
    omega

/-! ### Changes -/

theorem applied_ne_nil_iff (hs : Catalog.all.select selection = .ok selected) {text : List Char}
    {o : PatchOutcome} (h : patch selected insertHeader text = .ok o) :
    o.applied ≠ [] ↔ o.text ≠ text := by
  rcases patch_cases hs h with rfl | ⟨hfired, hlt⟩
  · simp
  · refine ⟨fun _ heq => ?_, fun _ => hfired⟩
    rw [heq] at hlt
    exact lt_irrefl _ hlt

theorem SourceFile.patch_eq_ok {rules : List Rule} {source : SourceFile} {file : PatchedFile}
    (h : source.patch rules insertHeader = .ok file) :
    CApiUpgrade.patch rules insertHeader source.text = .ok file.outcome ∧
      file.toSourceFile = source := by
  unfold SourceFile.patch at h
  split at h
  · simp at h
  · rename_i o ho
    obtain rfl := Except.ok.inj h
    exact ⟨ho, rfl⟩

/-- **Two notions of change.**  A rule has fired iff the text is another one in the end.  So what is
counted as patched is what is written back. -/
theorem isChanged_iff_text_ne (hs : Catalog.all.select selection = .ok selected) :
    (∀ (text : List Char) (o : PatchOutcome), patch selected insertHeader text = .ok o →
      (o.applied ≠ [] ↔ o.text ≠ text)) ∧
    ∀ (source : SourceFile) (file : PatchedFile),
      source.patch selected insertHeader = .ok file →
        file.outcome.isChanged = file.isChanged ∧
          ∀ summary : Summary,
            (summary.addFile file.outcome.applied file.outcome.headerAdded).patched =
              summary.patched + file.isChanged.toNat := by
  refine ⟨fun text o => applied_ne_nil_iff hs, fun source file h => ?_⟩
  obtain ⟨hpatch, rfl⟩ := SourceFile.patch_eq_ok h
  have hiff := applied_ne_nil_iff hs hpatch
  have hchanged : file.outcome.isChanged = file.isChanged := by
    rw [Bool.eq_iff_iff]
    simpa [PatchOutcome.isChanged, PatchedFile.isChanged] using hiff
  refine ⟨hchanged, fun summary => ?_⟩
  rw [← hchanged, PatchOutcome.isChanged]
  cases happlied : file.outcome.applied.isEmpty <;> simp [Summary.addFile, happlied]

/-- A read of a field. -/
theorem isChanged_iff_text_ne_read :
    patch [Catalog.readType] true "a->ob_type".toList
      = .ok ⟨"Py_TYPE(a)".toList, ["Py_TYPE"], false⟩ ∧
    (["Py_TYPE"] ≠ [] ↔ "Py_TYPE(a)".toList ≠ "a->ob_type".toList) := by
  have hpatch : patch [Catalog.readType] true "a->ob_type".toList
      = .ok ⟨"Py_TYPE(a)".toList, ["Py_TYPE"], false⟩ :=
    Evaluation.patch_eq_ok (by decide +kernel)
  exact ⟨hpatch, (@isChanged_iff_text_ne "Py_TYPE" _ true rfl).1 _ _ hpatch⟩

/-! ### Fixed points -/

/-- **Fixed points.**  Patching leaves a text as it is iff no selected rule finds a match in it. -/
theorem patch_eq_self_iff_hits (hs : Catalog.all.select selection = .ok selected)
    {text : List Char} :
    patch selected insertHeader text = .ok ⟨text, [], false⟩ ↔
      ∀ rule ∈ selected, ∀ p ∈ rule.patterns, p.hits text = .ok [] := by
  rw [patch_eq_self_iff]
  refine forall₂_congr fun rule hr => ?_
  exact Rule.apply_eq_self_iff ((Catalog.sublist_of_select hs).subset hr)

/-- What a read becomes is a fixed point. -/
theorem patch_eq_self_iff_hits_read :
    patch [Catalog.readType] true "a->ob_type".toList
      = .ok ⟨"Py_TYPE(a)".toList, ["Py_TYPE"], false⟩ ∧
    patch [Catalog.readType] true "Py_TYPE(a)".toList = .ok ⟨"Py_TYPE(a)".toList, [], false⟩ ∧
    ∀ rule ∈ [Catalog.readType], ∀ p ∈ rule.patterns, p.hits "Py_TYPE(a)".toList = .ok [] := by
  have hfixed : patch [Catalog.readType] true "Py_TYPE(a)".toList
      = .ok ⟨"Py_TYPE(a)".toList, [], false⟩ := Evaluation.patch_eq_ok (by decide +kernel)
  exact ⟨Evaluation.patch_eq_ok (by decide +kernel), hfixed,
    (@patch_eq_self_iff_hits "Py_TYPE" _ true rfl _).mp hfixed⟩

/-- What a read of a field of a field becomes is none: the expression of the replaced read is a read
itself, and only now does it stand where a chain may start and end. -/
theorem patch_not_idempotent :
    ∃ (text : List Char) (o o' : PatchOutcome),
      Catalog.all.select "Py_TYPE" = .ok [Catalog.readType] ∧
      patch [Catalog.readType] true text = .ok o ∧
      patch [Catalog.readType] true o.text = .ok o' ∧ o'.text ≠ o.text ∧ o'.applied ≠ [] :=
  ⟨"y = a->ob_type->ob_type;\n".toList,
    ⟨"y = Py_TYPE(a->ob_type);\n".toList, ["Py_TYPE"], false⟩,
    ⟨"y = Py_TYPE(Py_TYPE(a));\n".toList, ["Py_TYPE"], false⟩, rfl,
    Evaluation.patch_eq_ok (by decide +kernel), Evaluation.patch_eq_ok (by decide +kernel),
    by decide +kernel, by decide⟩

/-! ### Repetition -/

/-- What becomes of a text that is patched `n` times, step by step. -/
def patchTimes (rules : List Rule) (insertHeader : Bool) :
    (n : Nat) → (text : List Char) → Except RuleError (List PatchOutcome)
  | 0, _ => .ok []
  | n + 1, text => do
    let o ← patch rules insertHeader text
    return o :: (← patchTimes rules insertHeader n o.text)

theorem patchTimes_succ_eq_ok {rules : List Rule} {n : Nat} {text : List Char}
    {os : List PatchOutcome} (h : patchTimes rules insertHeader (n + 1) text = .ok os) :
    ∃ o rest, os = o :: rest ∧ patch rules insertHeader text = .ok o ∧
      patchTimes rules insertHeader n o.text = .ok rest := by
  rw [patchTimes, bind_eq_ok] at h
  obtain ⟨o, ho, h⟩ := h
  obtain ⟨rest, hrest, h⟩ := bind_eq_ok.mp h
  exact ⟨o, rest, (Except.ok.inj h).symm, ho, hrest⟩

theorem patchTimes_succ {rules : List Rule} {n : Nat} {text : List Char} {o : PatchOutcome}
    {rest : List PatchOutcome} (h : patch rules insertHeader text = .ok o)
    (hrest : patchTimes rules insertHeader n o.text = .ok rest) :
    patchTimes rules insertHeader (n + 1) text = .ok (o :: rest) :=
  bind_eq_ok.mpr ⟨o, h, bind_eq_ok.mpr ⟨rest, hrest, rfl⟩⟩

/-- A text that a patch leaves as it is stays as it is. -/
theorem patchTimes_of_fixed {rules : List Rule} {text : List Char}
    (h : patch rules insertHeader text = .ok ⟨text, [], false⟩) (n : Nat) :
    patchTimes rules insertHeader n text = .ok (List.replicate n ⟨text, [], false⟩) := by
  induction n with
  | zero => rfl
  | succ n ih =>
    simp only [patchTimes, h, ih, bind, Except.bind, pure, Except.pure, List.replicate_succ]

/-- **Convergence.**  A text that is patched over and over changes at most as often as its debt
says: the steps that change it come first, and from then on it stays the same and no rule fires. -/
theorem patchTimes_converges (hs : Catalog.all.select selection = .ok selected) {n : Nat}
    {text : List Char} {os : List PatchOutcome}
    (h : patchTimes selected insertHeader n text = .ok os) :
    ∃ (front : List PatchOutcome) (rest : Nat),
      os = front ++
        List.replicate rest ⟨(front.map PatchOutcome.text).getLastD text, [], false⟩ ∧
      (text :: front.map PatchOutcome.text).IsChain (· ≠ ·) ∧ front.length ≤ debt text := by
  induction n generalizing text os with
  | zero =>
    rw [patchTimes, Except.ok.injEq] at h
    exact ⟨[], 0, by simp [h], by simp, by simp⟩
  | succ n ih =>
    obtain ⟨o, tail, rfl, ho, htail⟩ := patchTimes_succ_eq_ok h
    rcases patch_cases hs ho with rfl | ⟨hfired, hlt⟩
    · rw [patchTimes_of_fixed ho n, Except.ok.injEq] at htail
      exact ⟨[], n + 1, by simp [← htail, List.replicate_succ], by simp, by simp⟩
    · obtain ⟨front, rest, rfl, hchain, hlen⟩ := ih htail
      refine ⟨o :: front, rest, ?_, ?_, by simp only [List.length_cons]; omega⟩
      · rw [List.map_cons, List.getLastD_cons, List.cons_append]
      · rw [List.map_cons, List.isChain_cons_cons]
        exact ⟨((applied_ne_nil_iff hs ho).mp hfired).symm, hchain⟩

/-- Two steps for a read of a field of a field. -/
theorem patchTimes_converges_chain :
    let text := "a->ob_type->ob_type".toList
    let os : List PatchOutcome := [⟨"Py_TYPE(a->ob_type)".toList, ["Py_TYPE"], false⟩,
      ⟨"Py_TYPE(Py_TYPE(a))".toList, ["Py_TYPE"], false⟩,
      ⟨"Py_TYPE(Py_TYPE(a))".toList, [], false⟩]
    debt text = 2 ∧ patchTimes [Catalog.readType] true 3 text = .ok os ∧
      ∃ (front : List PatchOutcome) (rest : Nat),
        os = front ++
          List.replicate rest ⟨(front.map PatchOutcome.text).getLastD text, [], false⟩ ∧
        (text :: front.map PatchOutcome.text).IsChain (· ≠ ·) ∧ front.length ≤ debt text := by
  intro text os
  have htimes : patchTimes [Catalog.readType] true 3 text = .ok os :=
    patchTimes_succ (Evaluation.patch_eq_ok (by decide +kernel))
      (patchTimes_succ (Evaluation.patch_eq_ok (by decide +kernel))
        (patchTimes_of_fixed (Evaluation.patch_eq_ok (by decide +kernel)) 1))
  exact ⟨by decide +kernel, htimes, @patchTimes_converges "Py_TYPE" _ true rfl 3 text os htimes⟩

end Selection

end CApiUpgrade
