/-!
# Texts inside texts

Whether a text occurs as a contiguous part of another one.
-/

namespace CApiUpgrade.Text

/-- Whether `part` occurs somewhere in a text. -/
def occursIn (part : List Char) : List Char → Bool
  | [] => part.isEmpty
  | c :: rest => part.isPrefixOf (c :: rest) || occursIn part rest

/-- **Occurrence.** A text occurs in another one iff that one splits around it. -/
theorem occursIn_iff {part text : List Char} :
    occursIn part text = true ↔ ∃ left right, text = left ++ part ++ right := by
  induction text with
  | nil =>
    simp only [occursIn, List.isEmpty_iff]
    constructor
    · rintro rfl
      exact ⟨[], [], rfl⟩
    · rintro ⟨left, right, h⟩
      simp only [List.nil_eq, List.append_eq_nil_iff] at h
      exact h.1.2
  | cons c rest ih =>
    simp only [occursIn, Bool.or_eq_true, List.isPrefixOf_iff_prefix, ih]
    constructor
    · rintro (⟨right, h⟩ | ⟨left, right, rfl⟩)
      · exact ⟨[], right, by simpa using h.symm⟩
      · exact ⟨c :: left, right, by simp⟩
    · rintro ⟨left, right, h⟩
      cases left with
      | nil => exact .inl ⟨right, by simpa using h.symm⟩
      | cons d left =>
        simp only [List.cons_append, List.cons.injEq] at h
        exact .inr ⟨left, right, h.2⟩

end CApiUpgrade.Text
