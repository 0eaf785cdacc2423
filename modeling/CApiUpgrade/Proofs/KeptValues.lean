import CApiUpgrade.Proofs.Spelled

/-!
# The old value of a slot

Code that replaces the value of a slot may keep the old value in a variable and drop it last:
`old = slot; slot = value; Py_DECREF(old);`.  The fold of such statements into one call takes the
variable away.  `kept_value_fold` says what the statements are and what is left of them, and that
the call still reads the variable exactly if the slot or the value mentions it.

Nothing in the pattern asks for that, so a value that is made from the old one is left without it
(`kept_value_read`).
-/

namespace CApiUpgrade

open Text

namespace Catalog

open Regex

/-! ### The words of a text -/

/-- The words of a text, its longest runs of characters of identifiers.  Where no word is, the empty
one stands. -/
def words (text : List Char) : List (List Char) := text.splitOnP fun c => !isIdentifierChar c

theorem words_append_cons (u v : List Char) {c : Char} (hc : isIdentifierChar c = false) :
    words (u ++ c :: v) = words u ++ words v :=
  List.splitOnP_append_cons u v (by rw [hc]; rfl)

/-- Behind what stands in front of it and belongs to no word, a text has the same words. -/
theorem mem_words_append {word front v : List Char} (hword : word ≠ [])
    (hfront : ∀ c ∈ front, isIdentifierChar c = false) :
    word ∈ words (front ++ v) ↔ word ∈ words v := by
  induction front with
  | nil => rfl
  | cons c front ih =>
    have hhead := words_append_cons [] (front ++ v) (hfront c List.mem_cons_self)
    have hnil : words [] = [[]] := rfl
    rw [List.cons_append, ← List.nil_append (c :: _), hhead, hnil, List.singleton_append,
      List.mem_cons, ih fun d hd => hfront d (List.mem_cons_of_mem c hd)]
    exact or_iff_right hword

theorem words_of_identifier {u : List Char} (h : ∀ c ∈ u, isIdentifierChar c = true) :
    words u = [u] :=
  List.splitOnP_eq_singleton fun c hc => by rw [h c hc]; rfl

/-! ### Runs of statements -/

/-- A text is a run of statements: each statement spells its part, and nothing but blanks stands in
between. -/
inductive Runs (ρ : Reading) : List Regex → List Char → Prop where
  | one {r : Regex} {w : List Char} : r.Spells ρ w → Runs ρ [r] w
  | next {r r' : Regex} {rs : List Regex} {w gap run : List Char} : r.Spells ρ w →
    (∀ c ∈ gap, isBlank c = true) → Runs ρ (r' :: rs) run → Runs ρ (r :: r' :: rs) (w ++ gap ++ run)

theorem runs_of_spells_joined {ρ : Reading} {separator : Regex}
    (hblank : ∀ u, separator.Spells ρ u → ∀ c ∈ u, isBlank c = true) {statements : List Regex}
    (hne : statements ≠ []) {run : List Char} (h : (joined separator statements).Spells ρ run) :
    Runs ρ statements run := by
  induction statements generalizing run with
  | nil => exact absurd rfl hne
  | cons r rest ih =>
    cases rest with
    | nil => exact .one h
    | cons r' rest =>
      obtain ⟨_, v, rfl, ⟨w, gap, rfl, hw, hgap⟩, hv⟩ := h
      exact .next hw (hblank gap hgap) (ih (List.cons_ne_nil r' rest) hv)

theorem blank_of_isGap {c : Char} (h : Scan.isGap c = true) :
    isBlank c = true ∧ isIdentifierChar c = false := by
  have hc : c = ' ' ∨ c = '\t' := by simpa [Scan.isGap] using h
  rcases hc with rfl | rfl <;> decide

/-- A match of a fold is what stands in front of the run, and the run. -/
theorem exists_run_of_spells {statements : List Regex} (hne : statements ≠ [])
    {replacement : Template} {p : Pattern} (hp : p ∈ adjacent statements replacement)
    {texts : String → Option (List Char)} {m : List Char} (hm : p.regex.Spells (.of texts) m) :
    ∃ name lead run, p.regex.leadingGroup? = some name ∧
      p.template = .group name :: replacement ∧ texts name = some lead ∧ m = lead ++ run ∧
      (∀ c ∈ lead, isIdentifierChar c = false) ∧ Runs (.of texts) statements run := by
  have hgaps : ∀ {ρ : Reading} {w : List Char}, (many gap).Spells ρ w →
      ∀ c ∈ w, isBlank c = true ∧ isIdentifierChar c = false :=
    fun h c hc => blank_of_isGap (gaps_of_spells h c hc)
  rcases List.mem_pair.mp hp with rfl | rfl
  -- On lines of their own the statements are joined by a line end and the same indentation again.
  · obtain ⟨_, run, rfl, ⟨start, lead, rfl, hstart, hset, hlead⟩, hrun⟩ := hm
    obtain rfl := spells_of_isStill rfl hstart
    refine ⟨"indent", lead, run, rfl, rfl, hset, rfl, fun c hc => (hgaps hlead c hc).2, ?_⟩
    refine runs_of_spells_joined ?_ hne hrun
    rintro _ ⟨_, again, rfl, ⟨_, _, rfl, ⟨trailing, ret, rfl, htrailing, hret⟩, rfl⟩, hagain⟩ c hc
    obtain rfl : again = lead := Option.some.inj (Eq.trans (Eq.symm hagain) hset)
    have hreturn : ∀ c ∈ ret, isBlank c = true := by
      rcases (spells_optional rfl).mp hret with rfl | rfl
      · simp
      · simp [isBlank]
    simp only [List.mem_append, List.mem_singleton] at hc
    rcases hc with ((hc | hc) | rfl) | hc
    · exact (hgaps htrailing c hc).1
    · exact hreturn c hc
    · rfl
    · exact (hgaps hlead c hc).1
  -- On one line they are joined by gaps.
  · obtain ⟨lead, run, rfl, ⟨hset, hlead⟩, hrun⟩ := hm
    refine ⟨"lead", lead, run, rfl, rfl, hset, rfl, ?_,
      runs_of_spells_joined (fun u hu c hc => (hgaps hu c hc).1) hne hrun⟩
    rcases hlead with ⟨⟨start, gaps, rfl, hstart, hlead⟩,
      -⟩ | ⟨⟨_, gaps, rfl, ⟨mark, hmark, rfl⟩, hlead⟩, -⟩
    · obtain rfl := spells_of_isStill rfl hstart
      exact fun c hc => (hgaps hlead c hc).2
    · intro c hc
      rcases List.mem_cons.mp hc with rfl | hc
      · have hc : c = '\x7b' ∨ c = ';' := by
          simpa [CharClass.contains, ClassItem.contains] using hmark
        rcases hc with rfl | rfl <;> decide
      · exact (hgaps hlead c hc).2

/-! ### Statements that keep the old value -/

/-- A text assigns a value to a target. -/
def Assigns (target value statement : List Char) : Prop :=
  ∃ gap gap' gap'', (∀ c ∈ gap ++ gap' ++ gap'', isBlank c = true) ∧
    statement = target ++ gap ++ '=' :: gap' ++ value ++ gap'' ++ [';']

/-- A text calls a function with one argument. -/
def Calls (function argument statement : List Char) : Prop :=
  ∃ gap gap', (∀ c ∈ gap ++ gap', isBlank c = true) ∧
    statement = function ++ '(' :: gap ++ argument ++ gap' ++ ");".toList

/-- A call of a function whose argument an expression matches. -/
def callOf (function : String) (argument : Regex) : Regex :=
  wordEdge ++ literal function ++ char '(' ++ blanks ++ argument ++ blanks ++ literal ");"

/-- The statement that keeps the value of a slot in a variable. -/
def keepOld : Regex :=
  declaredPointer ++ group "old" Chain.identifier ++ blanks ++ char '=' ++ blanks ++
    optional pointerCast ++ group "slot" Chain.dereferenced ++ endOfStatement

/-- The statement that drops the value in the variable. -/
def dropOld (decrement : String) : Regex :=
  wordEdge ++ literal decrement ++ char '(' ++ blanks ++ backReference "old" ++
  blanks ++ literal ");"

theorem keptRefFolds_eq (decrement setRef : String) : keptRefFolds decrement setRef =
    adjacent [keepOld, slotStore, dropOld decrement] (replaceSlot setRef [.group "value"]) := rfl

section
variable {texts : String → Option (List Char)} {w : List Char}

theorem assigns_of_spells_keepOld (h : keepOld.Spells (.of texts) w) :
    ∃ type old cast slot, texts "old" = some old ∧ texts "slot" = some slot ∧
      declaredPointer.Spells (.of texts) type ∧ Chain.identifier.Spells (.of texts) old ∧
      (optional pointerCast).Spells (.of texts) cast ∧ Assigns (type ++ old) (cast ++ slot) w := by
  obtain ⟨_, _, rfl, ⟨_, slot, rfl, ⟨_, cast, rfl, ⟨_, gap', rfl, ⟨_, _, rfl, ⟨_, gap, rfl,
    ⟨type, old, rfl, htype, hold, hname⟩, hgap⟩, rfl⟩, hgap'⟩, hcast⟩, hslot, -⟩,
    ⟨gap'', _, rfl, hgap'', rfl⟩⟩ := h
  refine ⟨type, old, cast, slot, hold, hslot, htype, hname, hcast, gap, gap', gap'', ?_, by simp⟩
  simp only [List.forall_mem_append]
  exact ⟨⟨spells_blanks.mp hgap, spells_blanks.mp hgap'⟩, spells_blanks.mp hgap''⟩

theorem assigns_of_spells_slotStore (h : slotStore.Spells (.of texts) w) :
    ∃ slot value, texts "slot" = some slot ∧ texts "value" = some value ∧ Assigns slot value w := by
  obtain ⟨_, _, rfl, ⟨_, value, rfl, ⟨_, gap', rfl, ⟨_, _, rfl, ⟨slot, gap, rfl, hslot, hgap⟩,
    rfl⟩, hgap'⟩, hvalue, -⟩, ⟨gap'', _, rfl, hgap'', rfl⟩⟩ := h
  refine ⟨slot, value, hslot, hvalue, gap, gap', gap'', ?_, by simp⟩
  simp only [List.forall_mem_append]
  exact ⟨⟨spells_blanks.mp hgap, spells_blanks.mp hgap'⟩, spells_blanks.mp hgap''⟩

theorem calls_of_spells_callOf {ρ : Reading} {function : String} {argument : Regex}
    (h : (callOf function argument).Spells ρ w) :
    ∃ u, argument.Spells ρ u ∧ Calls function.toList u w := by
  obtain ⟨_, close, rfl, ⟨_, gap', rfl, ⟨_, u, rfl, ⟨_, gap, rfl, ⟨_, _, rfl,
    ⟨edge, name, rfl, hedge, hname⟩, rfl⟩, hgap⟩, hu⟩, hgap'⟩, hclose⟩ := h
  obtain rfl := spells_of_isStill rfl hedge
  obtain rfl := spells_literal.mp hname
  obtain rfl := spells_literal.mp hclose
  refine ⟨u, hu, gap, gap', ?_, by simp⟩
  exact List.forall_mem_append.mpr ⟨spells_blanks.mp hgap, spells_blanks.mp hgap'⟩

theorem calls_of_spells_dropOld {decrement : String}
    (h : (dropOld decrement).Spells (.of texts) w) :
    ∃ old, texts "old" = some old ∧ Calls decrement.toList old w := by
  have hcall : (callOf decrement (backReference "old")).Spells (.of texts) w := h
  exact calls_of_spells_callOf hcall

end

/-- What a fold of a kept value replaces: a statement that keeps the value of a slot in a variable,
which it may declare, one that stores a new value in the slot, and one that drops the kept value. -/
def KeepsOld (decrement old slot value text : List Char) : Prop :=
  ∃ type cast keep gap store gap' drop : List Char, text = keep ++ gap ++ (store ++ gap' ++ drop) ∧
    (∀ c ∈ gap ++ gap', isBlank c = true) ∧
    declaredPointer.Spells (.of fun _ => none) type ∧
    (optional pointerCast).Spells (.of fun _ => none) cast ∧
    Assigns (type ++ old) (cast ++ slot) keep ∧ Assigns slot value store ∧
    Calls decrement old drop

theorem keepsOld_of_runs {texts : String → Option (List Char)} {decrement : String}
    {run : List Char} (h : Runs (.of texts) [keepOld, slotStore, dropOld decrement] run) :
    ∃ old slot value, texts "old" = some old ∧ texts "slot" = some slot ∧
      texts "value" = some value ∧ Chain.identifier.Spells (.of texts) old ∧
      KeepsOld decrement.toList old slot value run := by
  obtain - | ⟨hkeep, hgap, hrest⟩ := h
  obtain - | ⟨hstore, hgap', hrest⟩ := hrest
  obtain hdrop | - := hrest
  obtain ⟨type, old, cast, slot, hold, hslot, htype, hname, hcast, hkeep⟩ :=
    assigns_of_spells_keepOld hkeep
  obtain ⟨slot', value, hslot', hvalue, hstore⟩ := assigns_of_spells_slotStore hstore
  obtain ⟨old', hold', hdrop⟩ := calls_of_spells_dropOld hdrop
  obtain rfl : slot' = slot := Option.some.inj (hslot'.symm.trans hslot)
  obtain rfl : old' = old := Option.some.inj (hold'.symm.trans hold)
  exact ⟨old', slot', value, hold, hslot, hvalue, hname, type, cast, _, _, _, _, _, rfl,
    List.forall_mem_append.mpr ⟨hgap, hgap'⟩, htype.of_isText rfl, hcast.of_isText rfl, hkeep,
    hstore, hdrop⟩

/-! ### The folded call -/

/-- Which words are left of the statements. -/
theorem mem_words_replaceSlot {lead setRef slot value word : List Char} (hword : word ≠ [])
    (hlead : ∀ c ∈ lead, isIdentifierChar c = false)
    (hset : ∀ c ∈ setRef, isIdentifierChar c = true) :
    word ∈ words (lead ++ (setRef ++ '(' :: (slot ++ ", ".toList ++ value ++ ");".toList))) ↔
      word = setRef ∨ word ∈ words slot ∨ word ∈ words value := by
  have hclose : words ");".toList = [[], [], []] := by decide
  -- The marks of the call split the text into words: those of the function, the slot and the value.
  have hvalue : word ∈ words (value ++ ");".toList) ↔ word ∈ words value := by
    have hsplit := words_append_cons value [';'] (c := ')') (by decide)
    rw [show ");".toList = ')' :: [';'] from rfl, hsplit, List.mem_append]
    refine or_iff_left fun h => hword ?_
    simpa [show words [';'] = [[], []] by decide] using h
  have hslot : words (slot ++ ", ".toList ++ value ++ ");".toList) =
      words slot ++ words (" ".toList ++ (value ++ ");".toList)) := by
    have hsplit :=
      words_append_cons slot (" ".toList ++ (value ++ ");".toList)) (c := ',') (by decide)
    simpa using hsplit
  have hspace : ∀ c ∈ " ".toList, isIdentifierChar c = false := by
    intro c hc
    obtain rfl := List.mem_singleton.mp hc
    decide
  rw [mem_words_append hword hlead, words_append_cons _ _ (by decide),
    words_of_identifier hset, hslot,
    List.singleton_append, List.mem_cons, List.mem_append, mem_words_append hword hspace, hvalue]

end Catalog

open Catalog

/-- **The fold of a kept value.**  What a match replaces keeps the value of a slot in a variable,
stores a new value in the slot and drops the variable.  What it leaves is a call on the slot and the
value, and the variable is read in it exactly if one of the two mentions it, or if the variable has
the name of the function that is called. -/
theorem kept_value_fold {decrement function : String}
    (hd : (decrement, function) ∈ decrements.take 2) {p : Pattern}
    (hp : p ∈ keptRefFolds decrement function) {text : List Char} {hits : List Hit}
    (h : p.hits text = .ok hits) {hit : Hit} (hhit : hit ∈ hits) :
    ∃ old slot value run, hit.group? "old" = some old ∧ hit.group? "slot" = some slot ∧
      hit.group? "value" = some value ∧ hit.text = p.lead hit ++ run ∧
      KeepsOld decrement.toList old slot value run ∧
      p.template.expand p.groups hit =
        p.lead hit ++ (function.toList ++ '(' :: (slot ++ ", ".toList ++ value ++ ");".toList)) ∧
      (old ∈ words (p.template.expand p.groups hit) ↔
        old = function.toList ∨ old ∈ words slot ∨ old ∈ words value) := by
  have hmem : p ∈ setRef.patterns :=
    List.mem_append_right _ (List.mem_flatMap.mpr ⟨_, hd, hp⟩)
  have hregular := Catalog.regular (show setRef ∈ rules by simp [rules]) hmem
  have ha := (hregular.pass_of_hits h).attempt_of_mem hhit
  obtain ⟨m, hl, hm⟩ := hregular.reads ha
  rw [keptRefFolds_eq] at hp
  obtain ⟨name, lead, run, hname, htemplate, htext, rfl, hlead, hruns⟩ :=
    exists_run_of_spells (by simp) hp hm
  obtain ⟨old, slot, value, hold, hslot, hvalue, hidentifier, hkeeps⟩ := keepsOld_of_runs hruns
  -- What the template writes in front of the call is what the match has in front of the statements.
  have hleads : p.lead hit = lead := by
    rw [Pattern.lead, hname, Option.bind_some]
    exact congrArg (·.getD []) htext
  have hexpand : p.template.expand p.groups hit =
      lead ++ (function.toList ++ '(' :: (slot ++ ", ".toList ++ value ++ ");".toList)) := by
    refine (hregular.expand_eq_fill hit.start hit.stop hit.captures).trans ?_
    rw [htemplate]
    simp [Template.fill, replaceSlot, htext, hslot, hvalue]
  have hset : ∀ c ∈ function.toList, isIdentifierChar c = true := by
    rcases List.mem_pair.mp hd with heq | heq <;> obtain ⟨-, rfl⟩ := Prod.mk.inj heq <;>
      exact List.all_eq_true.mp (by decide)
  have hword := (word_of_spells_identifier hidentifier).1
  refine ⟨old, slot, value, run, hold, hslot, hvalue, hleads ▸ hl.upTo, hkeeps,
    hleads ▸ hexpand, ?_⟩
  rw [hexpand]
  exact mem_words_replaceSlot hword hlead hset

/-- A value that does not mention the variable. -/
theorem kept_value_fold_fresh :
    ∃ p ∈ keptRefFolds "Py_DECREF" "Py_SETREF", ∃ hits,
      p.hits "old = self->x;\nself->x = v;\nPy_DECREF(old);\n".toList = .ok hits ∧ ∃ hit ∈ hits,
        ∃ slot value, hit.group? "slot" = some slot ∧ hit.group? "value" = some value ∧
          ("old".toList ∈ words (p.template.expand p.groups hit) ↔
            "old".toList = "Py_SETREF".toList ∨
            "old".toList ∈ words slot ∨ "old".toList ∈ words value) := by
  have hany : (keptRefFolds "Py_DECREF" "Py_SETREF").any (fun p =>
      (p.hits "old = self->x;\nself->x = v;\nPy_DECREF(old);\n".toList).toOption.any fun hits =>
        hits.any fun hit => decide (hit.group? "old" = some "old".toList)) = true := by
    rw [← Evaluation.hits_eq]
    decide +kernel
  simp only [List.any_eq_true, Option.any_eq_true, decide_eq_true_eq] at hany
  obtain ⟨p, hp, hits, hok, hit, hhit, hold⟩ := hany
  have hhits := eq_ok_of_toOption hok
  have hd : ("Py_DECREF", "Py_SETREF") ∈ decrements.take 2 := by simp [decrements]
  obtain ⟨old, slot, value, -, hold', hslot, hvalue, -, -, -, hwords⟩ :=
    kept_value_fold hd hp hhits hhit
  obtain rfl : "old".toList = old := Option.some.inj (hold.symm.trans hold')
  exact ⟨p, hp, hits, hhits, hit, hhit, slot, value, hslot, hvalue, hwords⟩

/-- **A value made from the old one** is left without the variable that it mentions, and so is a
slot that is reached through the variable. -/
theorem kept_value_read :
    Pattern.applyAll (keptRefFolds "Py_XDECREF" "Py_XSETREF")
        "PyObject *old = self->x;\nself->x = f(old);\nPy_XDECREF(old);\n".toList =
        .ok "Py_XSETREF(self->x, f(old));\n".toList ∧
      Pattern.applyAll (keptRefFolds "Py_DECREF" "Py_SETREF")
        "x = x->next;\nx->next = v;\nPy_DECREF(x);\n".toList =
        .ok "Py_SETREF(x->next, v);\n".toList :=
  ⟨Evaluation.applyAll_eq_ok (by decide +kernel), Evaluation.applyAll_eq_ok (by decide +kernel)⟩

end CApiUpgrade
