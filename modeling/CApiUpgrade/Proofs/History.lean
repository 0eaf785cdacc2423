import CApiUpgrade.Proofs.Inclusion
import CApiUpgrade.Proofs.Repetition

/-!
# The header is included once

Over any history of patches of one text, with text added at either end in between, the header is
included at most once: it is included only where it is missing, and nothing removes it
(`isIncluded_of_apply_and_headerAdded_once`).
-/

namespace CApiUpgrade

open Patch

theorem Header.isIncluded_append {text : List Char} (h : isIncluded text = true)
    (front back : List Char) : isIncluded (front ++ text ++ back) = true := by
  rw [isIncluded_iff] at h ⊢
  obtain ⟨line, hl, hin⟩ := h
  exact ⟨line, hl, hin.trans (List.infix_append front text back)⟩

theorem Header.isIncluded_insert (text : List Char) : isIncluded (insert text) = true := by
  rw [isIncluded_iff]
  refine ⟨quotedInclude.toList, by simp [spellings], ?_⟩
  rw [insert, lines, String.toList_append, List.append_assoc]
  exact (List.prefix_append _ _).isInfix

namespace Patch.Session

/-- Where the header was included, it stays included, and it is included only where it was
missing. -/
theorem isIncluded_of_step {rule : Rule} (hr : rule ∈ Catalog.rules) {s s' : Session}
    (h : s.step rule = .ok s') :
    (Header.isIncluded s.text = true → Header.isIncluded s'.text = true) ∧
      (s'.headerMissing = true → s.headerMissing = true) ∧
      (s'.headerAdded = true →
        s.headerAdded = true ∨ (s.headerMissing = true ∧ Header.isIncluded s'.text = true)) := by
  obtain ⟨changed, ha, ⟨-, rfl⟩ | ⟨-, rfl⟩⟩ := step_cases h
  · exact ⟨id, id, .inl⟩
  · have hsame := Rule.isIncluded_of_apply hr ha
    unfold fire
    dsimp only
    split_ifs with hinsert
    · rw [Bool.and_eq_true] at hinsert
      have hnow := Header.isIncluded_insert changed
      exact ⟨fun _ => hnow, by simp, fun _ => .inr ⟨hinsert.2, hnow⟩⟩
    · exact ⟨fun hin => hsame.trans hin, id, .inl⟩

theorem isIncluded_of_foldlM {rules : List Rule} (hrules : ∀ rule ∈ rules, rule ∈ Catalog.rules)
    {s s' : Session} (h : rules.foldlM step s = .ok s') :
    (Header.isIncluded s.text = true → Header.isIncluded s'.text = true) ∧
      (s'.headerAdded = true →
        (s.headerAdded = true ∧ s'.headerAdded = s.headerAdded) ∨
          (s.headerMissing = true ∧ Header.isIncluded s'.text = true)) := by
  induction rules generalizing s with
  | nil =>
    rw [List.foldlM_nil] at h
    obtain rfl := Except.ok.inj h
    exact ⟨id, fun hadded => .inl ⟨hadded, rfl⟩⟩
  | cons rule rules ih =>
    obtain ⟨s₁, hs₁, hrest⟩ := foldlM_step_cons.mp h
    obtain ⟨hkeep, hmissing, hadded⟩ := isIncluded_of_step (hrules rule List.mem_cons_self) hs₁
    obtain ⟨hkeep', hadded'⟩ := ih (fun r hr => hrules r (List.mem_cons_of_mem _ hr)) hrest
    refine ⟨fun hin => hkeep' (hkeep hin), fun hend => ?_⟩
    rcases hadded' hend with ⟨h₁, -⟩ | ⟨h₁, hin⟩
    · rcases hadded h₁ with h₀ | ⟨h₀, hin⟩
      · exact .inl ⟨h₀, by rw [hend, h₀]⟩
      · exact .inr ⟨h₀, hkeep' hin⟩
    · exact .inr ⟨hmissing h₁, hin⟩

end Patch.Session

/-- A patch keeps the header where it is included, and includes it only where it is missing. -/
theorem isIncluded_of_patch {selection : String} {selected : List Rule} {insertHeader : Bool}
    (hs : Catalog.all.select selection = .ok selected) {text : List Char} {o : PatchOutcome}
    (h : patch selected insertHeader text = .ok o) :
    (Header.isIncluded text = true → Header.isIncluded o.text = true) ∧
      (o.headerAdded = true → Header.isIncluded text = false ∧
        Header.isIncluded o.text = true) := by
  obtain ⟨s, hfold, rfl⟩ := patch_eq_ok.mp h
  have hsub : ∀ rule ∈ selected, rule ∈ Catalog.rules := fun _ hr =>
    (Catalog.sublist_of_select hs).subset hr
  obtain ⟨hkeep, hadded⟩ := Session.isIncluded_of_foldlM hsub hfold
  refine ⟨hkeep, fun hend => ?_⟩
  rcases hadded hend with ⟨hstart, -⟩ | ⟨hmissing, hin⟩
  · simp [Session.start] at hstart
  · simp only [Session.start, Bool.and_eq_true, Bool.not_eq_true'] at hmissing
    exact ⟨hmissing.2, hin⟩

/-! ### Histories -/

/-- A patch of a text to which something has been added at either end. -/
structure PatchCall where
  /-- What has been added in front. -/
  prepended : List Char := []
  /-- What has been added at the end. -/
  appended : List Char := []
  /-- The selected rules. -/
  selection : String
  /-- Whether to include the header. -/
  insertHeader : Bool

/-- What becomes of a text. -/
def PatchCall.outcome (c : PatchCall) (text : List Char) : Except RuleError PatchOutcome := do
  patch (← Catalog.all.select c.selection) c.insertHeader (c.prepended ++ text ++ c.appended)

/-- What becomes of a text over a history of patches, step by step. -/
def patchHistory : List PatchCall → (text : List Char) → Except RuleError (List PatchOutcome)
  | [], _ => .ok []
  | c :: rest, text => do
    let o ← c.outcome text
    return o :: (← patchHistory rest o.text)

theorem patchHistory_cons_eq_ok {c : PatchCall} {rest : List PatchCall} {text : List Char}
    {os : List PatchOutcome} (h : patchHistory (c :: rest) text = .ok os) :
    ∃ selected o os', os = o :: os' ∧ Catalog.all.select c.selection = .ok selected ∧
      patch selected c.insertHeader (c.prepended ++ text ++ c.appended) = .ok o ∧
      patchHistory rest o.text = .ok os' := by
  rw [patchHistory, bind_eq_ok] at h
  obtain ⟨o, ho, h⟩ := h
  obtain ⟨selected, hs, ho⟩ := bind_eq_ok.mp ho
  obtain ⟨os', hrest, h⟩ := bind_eq_ok.mp h
  exact ⟨selected, o, os', (Except.ok.inj h).symm, hs, ho, hrest⟩

/-- Once the header is included, it is never included again. -/
theorem headerAdded_eq_false_of_isIncluded {calls : List PatchCall} {text : List Char}
    {os : List PatchOutcome} (h : patchHistory calls text = .ok os)
    (hin : Header.isIncluded text = true) : ∀ o ∈ os, o.headerAdded = false := by
  induction calls generalizing text os with
  | nil =>
    rw [patchHistory, Except.ok.injEq] at h
    simp [← h]
  | cons c rest ih =>
    obtain ⟨selected, o, os', rfl, hs, ho, hrest⟩ := patchHistory_cons_eq_ok h
    obtain ⟨hkeep, hadded⟩ := isIncluded_of_patch hs ho
    have hwhole := Header.isIncluded_append hin c.prepended c.appended
    rintro o' (_ | ⟨_, ho'⟩)
    · by_contra hnow
      have hmissing := (hadded (by simpa using hnow)).1
      rw [hwhole] at hmissing
      exact Bool.noConfusion hmissing
    · exact ih hrest (hkeep hwhole) o' ho'

/-- **The header is never lost and included once.**  No rule of the catalog makes or breaks a line
that includes the header, and over any history of patches at most one includes it. -/
theorem isIncluded_of_apply_and_headerAdded_once :
    (∀ rule ∈ Catalog.rules, ∀ text out : List Char, rule.apply text = .ok out →
      Header.isIncluded out = Header.isIncluded text) ∧
    ∀ (calls : List PatchCall) (text : List Char) (os : List PatchOutcome),
      patchHistory calls text = .ok os → os.countP (·.headerAdded) ≤ 1 := by
  refine ⟨fun rule hr text out => Rule.isIncluded_of_apply hr, fun calls => ?_⟩
  induction calls with
  | nil =>
    intro text os h
    rw [patchHistory, Except.ok.injEq] at h
    simp [← h]
  | cons c rest ih =>
    intro text os h
    obtain ⟨selected, o, os', rfl, hs, ho, hrest⟩ := patchHistory_cons_eq_ok h
    rw [List.countP_cons]
    split_ifs with hnow
    · have hnone := headerAdded_eq_false_of_isIncluded hrest ((isIncluded_of_patch hs ho).2 hnow).2
      rw [List.countP_eq_zero.mpr fun o ho => by simp [hnone o ho]]
    · exact ih o.text os' hrest

/-- A rule in a text that includes the header, and two patches that both ask for it, with a text
added on either side between them: the first includes it, the second finds it. -/
theorem isIncluded_of_apply_and_headerAdded_once_twice :
    let calls : List PatchCall :=
      [⟨[], [], "PyFrame_GetBack", true⟩,
        ⟨"int i;\n".toList, "g->f_back;\n".toList, "PyFrame_GetBack", true⟩]
    let call := "_PyFrame_GetBackBorrow(f);\n"
    let os : List PatchOutcome :=
      [⟨Header.insert call.toList, ["PyFrame_GetBack"], true⟩,
        ⟨"int i;\n".toList ++
          Header.insert (call ++ "_PyFrame_GetBackBorrow(g);\n").toList,
          ["PyFrame_GetBack"], false⟩]
    Catalog.readFrameBack.apply (Header.insert "f->f_back;\n".toList) =
        .ok (Header.insert call.toList) ∧
      Header.isIncluded (Header.insert call.toList) =
        Header.isIncluded (Header.insert "f->f_back;\n".toList) ∧
      patchHistory calls "f->f_back;\n".toList = .ok os ∧ os.countP (·.headerAdded) ≤ 1 := by
  intro calls call os
  have happly : Catalog.readFrameBack.apply (Header.insert "f->f_back;\n".toList) =
      .ok (Header.insert call.toList) :=
    eq_ok_of_toOption (by decide +kernel)
  have hhistory : patchHistory calls "f->f_back;\n".toList = .ok os :=
    eq_ok_of_toOption (by decide +kernel)
  exact ⟨happly,
    isIncluded_of_apply_and_headerAdded_once.1 _ (by simp [Catalog.rules]) _ _ happly, hhistory,
    isIncluded_of_apply_and_headerAdded_once.2 calls _ os hhistory⟩

end CApiUpgrade
