import CApiUpgrade.Proofs.Preference

/-!
# Places where a pattern matches, and places where it does not

What a pattern does to a text is a pass over it, and there is only one.  So it is enough to give a
pass: say where matches start, and that none starts anywhere else.

* No match starts where no text stands that the expression spells.  Often it is enough to count the
  occurrences of one character (`Regex.least_le_count`).
* A search skips a text if no match starts inside of it (`Regex.Skips.of_attempts`).
* A pattern whose expression spells no part of a text leaves the text as it is
  (`Pattern.Regular.getD_of_idle`).
-/

namespace CApiUpgrade

/-! ### Counting -/

namespace Regex

/-- How often a character occurs at least in what an expression spells. -/
def least (x : Char) : Regex → Nat
  | char c => if c = x then 1 else 0
  | cat a b => a.least x + b.least x
  | alt a b => min (a.least x) (b.least x)
  | group _ body => body.least x
  | repeated body n _ _ => n * body.least x
  | _ => 0

theorem least_le_count {r : Regex} (x : Char) {ρ : Reading} {w : List Char} (h : r.Spells ρ w) :
    r.least x ≤ w.count x := by
  induction r generalizing w with
  | char c =>
    obtain rfl : w = [c] := h
    by_cases hc : c = x <;> simp [least, hc]
  | cat a b iha ihb =>
    obtain ⟨u, v, rfl, hu, hv⟩ := h
    rw [least, List.count_append]
    exact Nat.add_le_add (iha hu) (ihb hv)
  | alt a b iha ihb =>
    rw [least]
    rcases h with ⟨h, -⟩ | ⟨h, -⟩
    · exact (Nat.min_le_left _ _).trans (iha h)
    · exact (Nat.min_le_right _ _).trans (ihb h)
  | group name body ih => exact ih h.2
  | repeated body n most greedy ih =>
    obtain ⟨ws, rfl, hws, hleast, -, -⟩ := h
    -- Every round holds as many of the character as a match of the body must.
    have hrounds : ws.length * body.least x ≤ ws.flatten.count x := by
      clear hleast
      induction ws with
      | nil => simp
      | cons u ws ihws =>
        have hu := ih (hws u List.mem_cons_self)
        have hrest := ihws fun v hv => hws v (List.mem_cons_of_mem u hv)
        rw [List.length_cons, Nat.succ_mul, List.flatten_cons, List.count_append]
        omega
    exact (Nat.mul_le_mul_right _ hleast).trans hrounds
  | _ => exact Nat.zero_le _

/-! ### Skipping -/

/-- A search skips a text if no match starts inside of it. -/
theorem Skips.of_attempts {r : Regex} {bound : Nat} {c d : Cursor} {w : List Char}
    (hl : c.Leads w d)
    (hnone : ∀ u v e, w = u ++ v → v ≠ [] → c.Leads u e → r.attempt bound e = none) :
    r.Skips bound c w d := by
  induction w generalizing c with
  | nil =>
    rw [hl.eq_of_nil]
    exact .refl c
  | cons x w ih =>
    rw [← List.singleton_append] at hl
    obtain ⟨e, hx, hrest⟩ := hl.split
    refine .step (hnone [] (x :: w) c rfl (by simp) (.refl c)) hx.next? (ih hrest ?_)
    intro u v e' hw hv hu
    exact hnone (x :: u) v e' (by rw [hw, List.cons_append]) hv (hx.trans hu)

end Regex

namespace Pattern

variable {p : Pattern}

namespace Regular

/-- No match starts where no text stands that the expression spells. -/
theorem attempt_eq_none (hp : p.Regular) {bound : Nat} {c : Cursor}
    (h : ∀ m d caps, (d, caps) ∈ p.regex.ways ⟨none, bound, none⟩ c [] → c.Leads m d →
      ¬ p.regex.Spells (.of caps.textOf) m) : p.attempt bound c = none := by
  rw [Option.eq_none_iff_forall_ne_some]
  rintro ⟨d, caps⟩ ha
  obtain ⟨m, hl, hm⟩ := hp.reads ha
  exact h m d caps (List.mem_of_head? ha) hl hm

/-- A pattern whose expression spells no part of a text leaves the text as it is. -/
theorem getD_of_idle (hp : p.Regular) {text : List Char}
    (h : ∀ m texts, m <:+: text → ¬ p.regex.Spells (.of texts) m) {o : Option (List Char)}
    (ho : p.apply text = .ok o) : o.getD text = text := by
  obtain ⟨hits, -, hnone, hpass⟩ := hp.pass_of_apply ho
  have hnil : hits = [] := by
    refine List.eq_nil_iff_forall_not_mem.mpr fun hit hhit => ?_
    obtain ⟨m, hm, hspells⟩ := hp.reads (hpass.attempt_of_mem hhit)
    obtain ⟨u, hu⟩ := hpass.leads_of_mem hp hhit
    have htext := hu.after
    rw [hm.after] at htext
    exact h m _ ⟨u, hit.stop.after, by rw [List.append_assoc]; exact htext.symm⟩ hspells
  rw [hnone.mpr hnil, Option.getD_none]

/-- The text that an application leaves is the one that a pass leaves. -/
theorem getD_of_pass (hp : p.Regular) {text out : List Char} {hits : List Hit}
    (h : p.Pass text.length (Cursor.ofText text) hits out) {o : Option (List Char)}
    (ho : p.apply text = .ok o) : o.getD text = out := by
  obtain ⟨hits', -, -, hpass⟩ := hp.pass_of_apply ho
  exact (hpass.unique h).2

end Regular

end Pattern

/-- Patterns whose expressions spell no part of a text leave the text as it is. -/
theorem Pattern.applyAll_of_idle {ps : List Pattern} (hps : ∀ p ∈ ps, p.Regular) {text : List Char}
    (h : ∀ p ∈ ps, ∀ m texts, m <:+: text → ¬ p.regex.Spells (.of texts) m) {out : List Char}
    (hout : applyAll ps text = .ok out) : out = text := by
  induction ps with
  | nil => exact (Except.ok.inj hout).symm
  | cons p ps ih =>
    rw [List.forall_mem_cons] at hps h
    obtain ⟨o, ho, hrest⟩ := applyAll_cons_eq_ok.mp hout
    rw [hps.1.getD_of_idle h.1 ho] at hrest
    exact ih hps.2 h.2 hrest

end CApiUpgrade
