import CApiUpgrade.Patch
import CApiUpgrade.Proofs.Pass

/-!
# Patching, step by step

What one rule does to a session (`Patch.Session.step_cases`), what a selection selects
(`Catalog.sublist_of_select`), when patching does nothing (`patch_eq_self_iff`), and what it keeps
because every pass of a pattern keeps it (`related_of_patch`).
-/

namespace CApiUpgrade

/-- A computation in two steps succeeds iff both steps do. -/
theorem bind_eq_ok {ε α β : Type} {x : Except ε α} {f : α → Except ε β} {b : β} :
    (x >>= f) = .ok b ↔ ∃ a, x = .ok a ∧ f a = .ok b := by
  cases x <;> simp [bind, Except.bind]

/-- A computation in two steps fails iff one of them does. -/
theorem bind_eq_error {ε α β : Type} {x : Except ε α} {f : α → Except ε β} {e : ε} :
    (x >>= f) = .error e ↔ x = .error e ∨ ∃ a, x = .ok a ∧ f a = .error e := by
  cases x <;> simp [bind, Except.bind]

namespace Patch.Session

/-- **One step.**  A rule that can be applied either leaves the text and the session as they are, or
changes the text and fires. -/
theorem step_cases {s s' : Session} {rule : Rule} (h : s.step rule = .ok s') :
    ∃ changed, rule.apply s.text = .ok changed ∧
      ((changed = s.text ∧ s' = s) ∨ (changed ≠ s.text ∧ s' = s.fire rule changed)) := by
  unfold step at h
  cases ha : rule.apply s.text with
  | error e => simp [ha] at h
  | ok changed =>
    simp only [ha, Except.ok.injEq] at h
    refine ⟨changed, rfl, ?_⟩
    split_ifs at h with hc
    · exact .inl ⟨hc, h.symm⟩
    · exact .inr ⟨hc, h.symm⟩

theorem step_eq_self {s : Session} {rule : Rule} (h : rule.apply s.text = .ok s.text) :
    s.step rule = .ok s := by
  simp [step, h]

theorem applied_fire (s : Session) (rule : Rule) (changed : List Char) :
    (s.fire rule changed).applied = s.applied ++ [rule.name] := by
  unfold fire
  dsimp only
  split_ifs <;> rfl

/-- The rules of a list, one after another. -/
theorem foldlM_step_cons {s s' : Session} {rule : Rule} {rules : List Rule} :
    (rule :: rules).foldlM step s = .ok s' ↔
      ∃ s₁, s.step rule = .ok s₁ ∧ rules.foldlM step s₁ = .ok s' := by
  rw [List.foldlM_cons, bind_eq_ok]

/-- The names of the rules that fire are added at the end; if none fires, nothing changes. -/
theorem applied_of_foldlM {rules : List Rule} {s s' : Session}
    (h : rules.foldlM step s = .ok s') :
    ∃ names, s'.applied = s.applied ++ names ∧
      (names = [] → s' = s ∧ ∀ rule ∈ rules, rule.apply s.text = .ok s.text) := by
  induction rules generalizing s with
  | nil =>
    rw [List.foldlM_nil] at h
    obtain rfl := Except.ok.inj h
    exact ⟨[], by simp, by simp⟩
  | cons rule rules ih =>
    obtain ⟨s₁, hs₁, hrest⟩ := foldlM_step_cons.mp h
    obtain ⟨names, hnames, hnil⟩ := ih hrest
    obtain ⟨changed, ha, ⟨rfl, rfl⟩ | ⟨-, rfl⟩⟩ := step_cases hs₁
    · refine ⟨names, hnames, fun hn => ⟨(hnil hn).1, ?_⟩⟩
      rintro r (_ | ⟨_, hr⟩)
      · exact ha
      · exact (hnil hn).2 r hr
    · refine ⟨rule.name :: names, ?_, by simp⟩
      rw [hnames, applied_fire, List.append_assoc, List.singleton_append]

end Patch.Session

open Patch

theorem patch_eq_ok {rules : List Rule} {insertHeader : Bool} {text : List Char}
    {o : PatchOutcome} :
    patch rules insertHeader text = .ok o ↔
      ∃ s, rules.foldlM Session.step (.start text insertHeader) = .ok s ∧ s.outcome = o := by
  unfold patch
  cases rules.foldlM Session.step (.start text insertHeader) with
  | error e => simp [Functor.map, Except.map]
  | ok s => simp [Functor.map, Except.map]

theorem patch_eq_error {rules : List Rule} {insertHeader : Bool} {text : List Char}
    {e : RuleError} : patch rules insertHeader text = .error e ↔
      rules.foldlM Session.step (.start text insertHeader) = .error e := by
  unfold patch
  cases rules.foldlM Session.step (.start text insertHeader) with
  | error e => simp [Functor.map, Except.map]
  | ok s => simp [Functor.map, Except.map]

/-- Patching does nothing to a text iff every rule leaves it as it is. -/
theorem patch_eq_self_iff {rules : List Rule} {insertHeader : Bool} {text : List Char} :
    patch rules insertHeader text = .ok ⟨text, [], false⟩ ↔
      ∀ rule ∈ rules, rule.apply text = .ok text := by
  constructor
  · intro h
    obtain ⟨s, hs, ho⟩ := patch_eq_ok.mp h
    obtain ⟨names, hnames, hnil⟩ := Session.applied_of_foldlM hs
    have hempty : names = [] := by
      have happlied : s.applied = [] := congrArg PatchOutcome.applied ho
      rw [happlied] at hnames
      simpa [Session.start] using hnames.symm
    exact (hnil hempty).2
  · intro h
    refine patch_eq_ok.mpr ⟨.start text insertHeader, ?_, rfl⟩
    induction rules with
    | nil => rfl
    | cons rule rules ih =>
      refine Session.foldlM_step_cons.mpr ⟨_, Session.step_eq_self (h rule ?_), ih ?_⟩
      · exact List.mem_cons_self
      · exact fun r hr => h r (List.mem_cons_of_mem _ hr)

/-- A selection selects rules of the catalog, in the order of the catalog. -/
theorem Catalog.sublist_of_select {selection : String} {selected : List Rule}
    (h : all.select selection = .ok selected) : selected.Sublist rules := by
  unfold RuleSet.select at h
  dsimp only at h
  split at h
  · rw [Except.ok.injEq] at h
    rw [← h]
    exact List.filter_sublist
  · simp at h

/-! ### What patching keeps -/

section Keeping

variable {R : List Char → List Char → Prop}

/-- What every pass keeps, patterns that are applied one after another keep. -/
theorem Pattern.related_of_applyAll (hrefl : ∀ text, R text text)
    (htrans : ∀ {a b c}, R a b → R b c → R a c) {ps : List Pattern}
    (hps : ∀ p ∈ ps, p.Regular ∧ ∀ text hits out,
      p.Pass text.length (Cursor.ofText text) hits out → R text out)
    {text out : List Char} (h : applyAll ps text = .ok out) : R text out := by
  induction ps generalizing text with
  | nil =>
    rw [applyAll_nil, Except.ok.injEq] at h
    exact h ▸ hrefl text
  | cons p ps ih =>
    obtain ⟨o, ho, hrest⟩ := applyAll_cons_eq_ok.mp h
    obtain ⟨hp, hpass⟩ := hps p List.mem_cons_self
    obtain ⟨hits, -, -, h₁⟩ := hp.pass_of_apply ho
    exact htrans (hpass text hits _ h₁) (ih (fun q hq => hps q (List.mem_cons_of_mem _ hq)) hrest)

/-- **What every pass and the header keep, a patch keeps.** -/
theorem related_of_patch (hrefl : ∀ text, R text text) (htrans : ∀ {a b c}, R a b → R b c → R a c)
    {rules : List Rule} (hrules : ∀ rule ∈ rules, rule ∈ Catalog.rules)
    (hpass : ∀ rule ∈ rules, ∀ p ∈ rule.patterns, ∀ text hits out,
      p.Pass text.length (Cursor.ofText text) hits out → R text out)
    (hheader : ∀ text, R text (Header.insert text)) {insertHeader : Bool} {text : List Char}
    {o : PatchOutcome} (h : patch rules insertHeader text = .ok o) : R text o.text := by
  obtain ⟨s', hfold, rfl⟩ := patch_eq_ok.mp h
  -- From any session on, rule by rule.
  suffices hrun : ∀ {s : Session}, rules.foldlM Session.step s = .ok s' → R s.text s'.text from
    hrun hfold
  clear hfold h
  induction rules with
  | nil =>
    intro s hs
    rw [List.foldlM_nil] at hs
    exact Except.ok.inj hs ▸ hrefl s.text
  | cons rule rules ih =>
    intro s hs
    obtain ⟨s₁, hs₁, hrest⟩ := Session.foldlM_step_cons.mp hs
    have hlater := ih (fun r hr => hrules r (List.mem_cons_of_mem _ hr))
      (fun r hr => hpass r (List.mem_cons_of_mem _ hr)) hrest
    obtain ⟨changed, ha, ⟨-, rfl⟩ | ⟨-, rfl⟩⟩ := Session.step_cases hs₁
    · exact hlater
    · have hmem := hrules rule List.mem_cons_self
      have hrule : R s.text changed := Pattern.related_of_applyAll hrefl htrans
        (fun p hp => ⟨Catalog.regular hmem hp, hpass rule List.mem_cons_self p hp⟩) ha
      have hfire : R changed (s.fire rule changed).text := by
        unfold Session.fire
        dsimp only
        split_ifs
        · exact hheader changed
        · exact hrefl changed
      exact htrans hrule (htrans hfire hlater)

end Keeping

end CApiUpgrade
