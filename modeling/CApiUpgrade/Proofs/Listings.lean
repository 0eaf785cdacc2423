import CApiUpgrade.Proofs.Folding
import Mathlib.Data.List.Nodup

/-!
# Listings of idioms are folded

Whatever idioms a listing has, the rules that clear, add and replace references fold each of them to
one statement and leave the rest of the listing as it is (`patch_listing`).

For each idiom there is one fold that takes its statements to the folded one (`folds_returned`,
`folds_added` and so on).  The three rules act one after another, so the statements of an idiom pass
through stages: `Idiom.statements`, `Idiom.behindClear`, `Idiom.behindNewRef` and the folded
statement.  In each stage either one fold of the rule reads them and none that is tried before it
does, or all folds are idle.  One idiom takes two stages: where a value is dropped in front of the
new reference, the second rule folds the last two statements of three, and the third rule what is
left.
-/

namespace CApiUpgrade.Ownership

open Text Catalog Regex Fold

/-! ### Statements that a fold finds -/

section Finds

variable {bound : Nat} {texts : String → Option (List Char)} {before behind : List Char}
  {names : List String}

theorem uncalled_close (behind : List Char) : Uncalled (");".toList ++ behind) :=
  ⟨[], ')', ';' :: behind, rfl, by simp, by decide, by decide⟩

theorem goes_addVariable (add : Increment) (v : Variable) (hv : texts "var" = some v.name.1)
    (hbefore : Apart before) :
    (addVariable add).Goes bound texts before (Statement.call add.1.1 v.name.1).text behind names
      ("var" :: names) :=
  goes_callOf (isIdentifier_add add) (fun _ => .group (goes_identifier v.name.2) hv) hbefore

theorem goes_addEither (add : Increment) {w : List Char} (hnames : "var" ∈ names ∧ "lvalue" ∈ names)
    (hw : texts "var" = some w ∨ texts "lvalue" = some w) (hbefore : Apart before) :
    (addEither add).Goes bound texts before (Statement.call add.1.1 w).text behind names names := by
  refine goes_callOf (isIdentifier_add add) (fun before => ?_) hbefore
  obtain hvar | hlvalue := hw
  · exact .alt_left (.backReference hnames.1 hvar)
  · exact .alt_right (.backReference hnames.2 hlvalue)

theorem goes_dropSlot {function : String} (hfunction : isIdentifier function.toList = true)
    (slot : Slot) (hs : texts "slot" = some slot.text) (hbefore : Apart before) :
    (callOf function (group "slot" Chain.dereferenced)).Goes bound texts before
      (Statement.call function slot.text).text behind names ("slot" :: names) :=
  goes_callOf hfunction (fun _ => .group (goes_slot slot (uncalled_close behind)) hs) hbefore

end Finds

/-! ### One fold for each idiom -/

/-- Groups can capture what they have to. -/
theorem exists_texts (indent var slot value target lvalue : List Char) :
    ∃ texts : String → Option (List Char), texts "indent" = some indent ∧ texts "var" = some var ∧
      texts "slot" = some slot ∧ texts "value" = some value ∧ texts "target" = some target ∧
        texts "lvalue" = some lvalue ∧ texts "eq" = some " = ".toList := by
  let entries :=
    [("indent", indent), ("var", var), ("slot", slot), ("value", value), ("target", target),
    ("lvalue", lvalue), ("eq", " = ".toList)]
  exact ⟨fun name => entries.lookup name, by simp [entries, List.lookup_cons]⟩

/-- What a fold writes for a new reference. -/
theorem fill_newReference {texts : String → Option (List Char)} {add : Increment} {v : Variable}
    (hcast : texts "cast" = none) (hvar : texts "var" = some v.name.1) :
    Template.fill texts (newReference add) = Idiom.newRef add v ++ [';'] := by
  rw [Template.fill_group, Template.fill_plain, Template.fill_group,
    Template.fill_plain, hcast, hvar, String.toList_append, Idiom.newRef, Statement.body_call]
  simp [Template.fill]

theorem folds_returned (add : Increment) (v : Variable) :
    (returnFold add).Folds (Idiom.returned add v).statements (Idiom.returned add v).folded where
  found indent := by
    obtain ⟨texts, hindent, hvar, -⟩ := exists_texts indent v.name.1 [] [] [] []
    exact ⟨texts, hindent,
      .next (goes_addVariable add v hvar) (by simp) (.one fun _ => goes_return (by simp) hvar)⟩
  filled texts hreads := by
    obtain ⟨_, _, hss, h, h'⟩ := reads_pair hreads
    cases hss
    have hvar := captured_of_spells (Idiom.sound_add add v) h
    obtain ⟨hcast, -⟩ := returned_of_spells ⟨v.isOperand.trimmed, v.isOperand.calm⟩ v.name.2
      (isIdentifier_of_spells_addVariable h) h'
    have hfill : (returnFold add).replacement.fill texts = "return ".toList ++
        Template.fill texts (newReference add) :=
      rfl
    rw [hfill, fill_newReference hcast hvar.1, Idiom.folded, Statement.text,
      Statement.body_giveBack, List.append_assoc]
  sound := Idiom.sound_folded _

/-- What a fold writes for an assignment. -/
theorem fill_assigned {texts : String → Option (List Char)} {add : Increment} {v : Variable}
    {t target eq : List Char} (htarget : texts "target" = some target) (heq : texts "eq" = some eq)
    (hfront : target ++ eq = t ++ " = ".toList) (hcast : texts "cast" = none)
    (hvar : texts "var" = some v.name.1) :
    Template.fill texts (.group "target" :: .group "eq" :: newReference add) =
      (Statement.assign t (Idiom.newRef add v)).text := by
  rw [Template.fill_group, Template.fill_group, fill_newReference hcast hvar, htarget, heq,
    Option.getD_some,
    Option.getD_some, ← List.append_assoc, hfront, text_assign, ← List.append_assoc]

theorem folds_added (add : Increment) (t : Target) (v : Variable) :
    (addFold add).Folds (Idiom.added add t v).statements (Idiom.added add t v).folded where
  found indent := by
    obtain ⟨texts, hindent, hvar, -, -, htarget, hlvalue, heq⟩ :=
      exists_texts indent v.name.1 [] [] t.text t.lvalue.text
    exact ⟨texts, hindent, .next (goes_addVariable add v hvar) (by simp)
      (.one fun _ => goes_assign htarget hlvalue heq (by simp) hvar)⟩
  filled texts hreads := by
    obtain ⟨_, _, hss, h, h'⟩ := reads_pair hreads
    cases hss
    have hvar := (captured_of_spells (Idiom.sound_add add v) h).1
    have hsame : ∀ u, (backReference "var").Spells (.of texts) u → isIdentifier u = true := by
      intro u hu
      obtain rfl : v.name.1 = u := Option.some.inj (hvar.symm.trans hu)
      exact v.name.2
    obtain ⟨target, eq, htarget, heq, hfront, hcast, -⟩ := assigned_of_spells
      (Idiom.sound_assign t v.isOperand.trimmed v.isOperand.calm) v.name.2 hsame h'
    exact fill_assigned htarget heq hfront hcast hvar
  sound := Idiom.sound_folded (.added add t v)

/-- Behind an assignment, either side of it may be named. -/
theorem folds_stored (add : Increment) (t : Target) (v : Variable) {w : List Char}
    (hw : w = v.name.1 ∨ w = t.lvalue.text) :
    (storeFold add).Folds [.assign t.text v.name.1, .call add.1.1 w]
      (Idiom.stored add t v).folded where
  found indent := by
    obtain ⟨texts, hindent, hvar, -, -, htarget, hlvalue, heq⟩ :=
      exists_texts indent v.name.1 [] [] t.text t.lvalue.text
    have hside : texts "var" = some w ∨ texts "lvalue" = some w := by
      rw [hvar, hlvalue]
      exact hw.imp (congrArg some ·.symm) (congrArg some ·.symm)
    exact ⟨texts, hindent, .next (fun _ => goes_store v htarget hlvalue heq hvar) (by simp)
      (.one (goes_addEither add (by simp) hside))⟩
  filled texts hreads := by
    obtain ⟨_, _, hss, h, -⟩ := reads_pair hreads
    cases hss
    have hname : ∀ u,
        (group "var" (notBefore (literal "NULL" ++ wordEdge) ++ Chain.identifier)).Spells
          (.of texts) u → texts "var" = some u ∧ isIdentifier u = true := by
      rintro u ⟨hvar, ahead, name, rfl, hahead, hname⟩
      obtain rfl := spells_of_isStill rfl hahead
      exact ⟨hvar, spells_identifier.mp hname⟩
    obtain ⟨target, eq, htarget, heq, hfront, hcast, hv⟩ := assigned_of_spells
      (Idiom.sound_assign t v.isOperand.trimmed v.isOperand.calm) v.name.2
        (fun u hu => (hname u hu).2) h
    exact fill_assigned htarget heq hfront hcast (hname _ hv).1
  sound := Idiom.sound_folded (.stored add t v)

theorem folds_cleared (slot : Slot) :
    clearFold.Folds (Idiom.cleared slot).statements (Idiom.cleared slot).folded where
  found indent := by
    obtain ⟨texts, hindent, -, hslot, -⟩ := exists_texts indent [] slot.text [] [] []
    exact ⟨texts, hindent, .next (goes_dropSlot (by decide) slot hslot) (by simp)
      (.one fun _ => goes_slotNull (by simp) hslot)⟩
  filled texts hreads := by
    obtain ⟨_, _, hss, h, -⟩ := reads_pair hreads
    cases hss
    have hslot :=
      (captured_of_spells (Idiom.sound_of_mem_statements (i := .cleared slot) List.mem_cons_self)
        h).1
    have hfill : clearFold.replacement.fill texts =
        "Py_CLEAR(".toList ++ ((texts "slot").getD [] ++ (");".toList ++ [])) := rfl
    rw [hfill, hslot, Option.getD_some, Idiom.folded, Statement.text, Statement.body_call]
    simp
  sound := Idiom.sound_folded _

/-- What a fold writes for the replacement of the value of a slot. -/
theorem fill_replaceSlot {texts : String → Option (List Char)} (drop : Decrement) {slot : Slot}
    (hslot : texts "slot" = some slot.text) {t : Template} {value : List Char}
    (ht : Template.fill texts t = value) :
    Template.fill texts (replaceSlot drop.1.2 t) = (Idiom.setRef drop slot value).text := by
  have hfill : Template.fill texts (replaceSlot drop.1.2 t) = (drop.1.2 ++ "(").toList ++
      ((texts "slot").getD [] ++ (", ".toList ++ Template.fill texts (t ++ [.plain ");"]))) := rfl
  rw [hfill, Template.fill, List.flatMap_append, ← Template.fill, ht, hslot, Option.getD_some,
    String.toList_append, Idiom.setRef, Statement.text, Statement.body_call]
  simp

/-- The value may be any that is no null pointer. -/
theorem folds_replaced (drop : Decrement) (slot : Slot) (value : Value) :
    (replaceFold drop).Folds (Idiom.replaced drop slot value).statements
      (Idiom.replaced drop slot value).folded where
  found indent := by
    obtain ⟨texts, hindent, -, hslot, hvalue, -⟩ :=
      exists_texts indent [] slot.text value.text [] []
    exact ⟨texts, hindent, .next (goes_dropSlot (isIdentifier_drop drop) slot hslot) (by simp)
      (.one fun _ => goes_slotStore value (by simp) hslot hvalue)⟩
  filled texts hreads := by
    obtain ⟨_, _, hss, h, h'⟩ := reads_pair hreads
    cases hss
    have hslot := (captured_of_spells (Idiom.sound_drop drop slot) h).1
    have hvalue := stored_of_spells (Idiom.sound_assign (.slot slot) value.trimmed value.calm) h'
    refine fill_replaceSlot drop hslot ?_
    rw [Template.fill_group, hvalue]
    exact List.append_nil _
  sound := Idiom.sound_folded _

/-- What is left of the assignment of a variable, once the reference is added there. -/
def newRefValue (add : Increment) (v : Variable) : Value where
  text := Idiom.newRef add v
  trimmed := Idiom.trimmed_newRef add v
  calm := Idiom.calm_newRef add v
  text_ne_null h := by
    have hin : '(' ∈ Idiom.newRef add v := by simp [Idiom.newRef, Statement.body_call]
    rw [h] at hin
    exact absurd hin (by decide)

theorem folds_addedFirst (drop : Decrement) (add : Increment) (slot : Slot) (v : Variable) :
    (addDropFold drop add).Folds (Idiom.addedFirst drop add slot v).statements
      (Idiom.addedFirst drop add slot v).folded where
  found indent := by
    obtain ⟨texts, hindent, hvar, hslot, -⟩ := exists_texts indent v.name.1 slot.text [] [] []
    exact ⟨texts, hindent, .next (goes_addVariable add v hvar) (by simp)
      (.next (goes_dropSlot (isIdentifier_drop drop) slot hslot) (by simp)
        (.one fun _ => goes_slotVariable (by simp) hslot (by simp) hvar))⟩
  filled texts hreads := by
    obtain ⟨_, _, _, hss, h, h', -⟩ := reads_triple hreads
    cases hss
    have hvar := (captured_of_spells (Idiom.sound_add add v) h).1
    have hslot := (captured_of_spells (Idiom.sound_drop drop slot) h').1
    refine fill_replaceSlot drop hslot ?_
    rw [Template.fill_plain, Template.fill_group, Template.fill_plain, hvar, String.toList_append,
      Idiom.newRef, Statement.body_call]
    simp [Template.fill]
  sound := Idiom.sound_folded _

/-! ### Rules -/

/-- A fold that stores the null pointer is idle where it is not stored. -/
theorem idle_clearFold {ss : List Statement} (hsound : ∀ s ∈ ss, s.Sound)
    (hvalue : ∀ t x, Statement.assign t x ∈ ss → x ≠ "NULL".toList) : clearFold.Idle ss := by
  intro texts matched hm hreads
  obtain ⟨s, s', rfl, -, h⟩ := reads_pair hreads
  have hmem : s' ∈ ss := hm.subset (by simp)
  have hshape := shape_of_spells_assignment (hsound s' hmem) (by decide) h
  cases s' with
  | assign t x => exact hvalue t x hmem (eq_null_of_spells (hsound _ hmem) h)
  | call | giveBack => cases hshape

theorem separate_newRefFolds : Separate newRefFolds := ⟨by decide +kernel, by decide +kernel⟩

theorem separate_tripleFolds : Separate tripleFolds := ⟨by decide +kernel, by decide +kernel⟩

theorem separate_pairFolds : Separate pairFolds := ⟨by decide +kernel, by decide +kernel⟩

namespace Idiom

/-- The statements of an idiom behind the first rule, which stores null pointers by one call. -/
def behindClear : Idiom → List Statement
  | cleared slot => [(cleared slot).folded]
  | i => i.statements

/-- The statements of an idiom behind the second rule, which adds references where they are
stored. -/
def behindNewRef : Idiom → List Statement
  | replaced drop slot value => (replaced drop slot value).statements
  | addedFirst drop add slot v => (addedFirst drop add slot v).statements
  -- What is left is the replacement of a value by a new reference.
  | droppedFirst drop add slot v => (replaced drop slot (newRefValue add v)).statements
  | i => [i.folded]

/-- No idiom but one stores a null pointer. -/
theorem chain_behindClear (i : Idiom) : Chain [clearFold] i.statements i.behindClear := by
  have hidle : (∀ t x, Statement.assign t x ∈ i.statements → x ≠ "NULL".toList) →
      Chain [clearFold] i.statements i.statements := fun hvalue =>
    .idle (List.forall_mem_singleton.mpr
      (idle_clearFold (fun _ hs => sound_of_mem_statements hs) hvalue))
  cases i with
  | cleared slot =>
    have hall : clearFold.FoldsTo ((cleared slot).statements ++ []) [(cleared slot).folded] :=
      .step (.fold (folds_cleared slot)) .done
    rw [List.append_nil] at hall
    exact .fold hall .done
  | returned add v => exact hidle (by simp [statements])
  | added add t v => exact hidle (by simpa [statements] using v.name_ne_null)
  | stored add t v => exact hidle (by simpa [statements] using v.name_ne_null)
  | kept add slot v => exact hidle (by simpa [statements] using v.name_ne_null)
  | replaced drop slot value => exact hidle (by simpa [statements] using value.text_ne_null)
  | addedFirst drop add slot v => exact hidle (by simpa [statements] using v.name_ne_null)
  | droppedFirst drop add slot v => exact hidle (by simpa [statements] using v.name_ne_null)

theorem chain_behindNewRef (i : Idiom) : Chain newRefFolds i.behindClear i.behindNewRef := by
  have hmem : ∀ (add : Increment) {F : Fold}, F ∈ [returnFold add, addFold add, storeFold add] →
      F ∈ newRefFolds :=
    fun add _ hF => List.mem_flatMap.mpr ⟨add, List.mem_attach _ _, hF⟩
  have hsound : ∀ s ∈ i.statements, s.Sound := fun _ hs => sound_of_mem_statements hs
  -- The kinds of statements that no fold of the rule looks for.
  have hpair : ∀ drop ∈ decrements, ∀ F ∈ newRefFolds, ¬ F.shapes <:+: [.call drop.1, .assign] := by
    decide +kernel
  have htriple : ∀ drop ∈ decrements, ∀ add ∈ increments, ∀ F ∈ newRefFolds,
      ¬ F.shapes <:+: [.call add.1, .call drop.1, .assign] := by decide +kernel
  cases i with
  | cleared slot => exact .idle fun F _ => F.idle_singleton _
  | returned add v =>
    exact .of_folds (hmem add (by simp)) separate_newRefFolds hsound rfl (folds_returned add v)
  | added add t v =>
    exact .of_folds (hmem add (by simp)) separate_newRefFolds hsound rfl (folds_added add t v)
  | stored add t v =>
    exact .of_folds (hmem add (by simp)) separate_newRefFolds hsound rfl
      (folds_stored add t v (.inl rfl))
  | kept add slot v =>
    exact .of_folds (hmem add (by simp)) separate_newRefFolds hsound rfl
      (folds_stored add (.slot slot) v (.inr rfl))
  | replaced drop slot value => exact .idle fun F hF => .of_shapes hsound (hpair _ drop.2 F hF)
  | addedFirst drop add slot v =>
    exact .idle fun F hF => .of_shapes hsound (htriple _ drop.2 _ add.2 F hF)
  | droppedFirst drop add slot v =>
    have hdone : ∀ s ∈ (replaced drop slot (newRefValue add v)).statements, s.Sound :=
      fun _ hs => sound_of_mem_statements hs
    have hothers : ∀ drop ∈ decrements, ∀ add ∈ increments, ∀ F ∈ newRefFolds,
        F.shapes <:+: [.call drop.1, .call add.1, .assign] → F.shapes = [.call add.1, .assign] := by
      decide +kernel
    have hkeep : ∀ drop ∈ decrements, ∀ add ∈ increments,
        ¬ [Shape.call add.1, .assign] <+: [.call drop.1, .call add.1, .assign] := by decide +kernel
    refine .of_mem (F := addFold add) (hmem add (by simp)) separate_newRefFolds.nodup
      (fun G hG => ?_) ?_ fun G hG => .of_shapes hdone (hpair _ drop.2 G hG)
    · by_cases hinfix : G.shapes <:+: [.call drop.1.1, .call add.1.1, .assign]
      · exact .inl (hothers _ drop.2 _ add.2 G hG hinfix)
      · exact .inr (.of_shapes hsound hinfix)
    · -- The decrement is kept, and what is behind it is folded.
      have hfirst :
          (addFold add).Step [.call drop.1.1 slot.text] (added add (.slot slot) v).statements
          (.call drop.1.1 slot.text) := by
        refine .keep fun texts matched hm hreads => hkeep _ drop.2 _ add.2 ?_
        have hshapes : matched.map Statement.shape = [.call add.1.1, .assign] :=
          (addFold add).asks (fun s hs => hsound s (hm.subset hs)) hreads
        have hprefix := hm.map Statement.shape
        rw [hshapes] at hprefix
        exact hprefix
      have hall : (addFold add).FoldsTo ((added add (.slot slot) v).statements ++ [])
          [(added add (.slot slot) v).folded] :=
        .step (.fold (folds_added add (.slot slot) v)) .done
      rw [List.append_nil] at hall
      exact .step hfirst hall

theorem chain_folded (i : Idiom) : Chain (tripleFolds ++ pairFolds) i.behindNewRef [i.folded] := by
  have hsingle : ∀ s, Chain (tripleFolds ++ pairFolds) [s] [s] :=
    fun s => .idle fun F _ => F.idle_singleton s
  have hreplaced :
      ∀ drop slot value, Chain (tripleFolds ++ pairFolds) (replaced drop slot value).statements
      [(replaced drop slot value).folded] := by
    intro drop slot value
    have hlength : ∀ F ∈ tripleFolds, F.statements.length = 3 := by decide +kernel
    have hmem : replaceFold drop ∈ pairFolds :=
      List.mem_append_left _ (List.mem_map_of_mem (List.mem_attach _ _))
    refine .append (.idle fun F hF => .of_length ?_) (.of_folds hmem separate_pairFolds
      (fun _ hs => sound_of_mem_statements hs) rfl (folds_replaced drop slot value))
    rw [hlength F hF]
    exact Nat.lt_succ_self 2
  cases i with
  | replaced drop slot value => exact hreplaced drop slot value
  | droppedFirst drop add slot v => exact hreplaced drop slot (newRefValue add v)
  | addedFirst drop add slot v =>
    have hmem : addDropFold drop add ∈ tripleFolds :=
      List.mem_flatMap.mpr ⟨drop, List.mem_attach _ _,
        List.mem_flatMap.mpr ⟨add, List.mem_attach _ _, by simp⟩⟩
    have hsound : ∀ s ∈ (addedFirst drop add slot v).statements, s.Sound :=
      fun _ hs => sound_of_mem_statements hs
    exact .append
      (.of_folds hmem separate_tripleFolds hsound rfl (folds_addedFirst drop add slot v))
      (.idle fun F _ => F.idle_singleton _)
  | returned | added | stored | kept | cleared => exact hsingle _

end Idiom

/-! ### Listings -/

/-- A block whose statements have become others. -/
def Block.at (statements : Idiom → List Statement) (b : Block) : Paragraph :=
  ⟨b.indent, statements b.idiom⟩

theorem Chain.sound {Fs : List Fold} {p p' : Paragraph} (h : Chain.On Fs p p') (hp : p.Sound) :
    p'.Sound := by
  obtain ⟨indent, ss⟩ := p
  obtain ⟨indent', ss'⟩ := p'
  obtain ⟨hindent, hfolds⟩ := h
  simp only at hindent hfolds
  subst hindent
  induction hfolds with
  | done => exact hp
  | @fold F _ ss ss' _ hfold _ ih =>
    have hon : F.On ⟨indent, ss⟩ ⟨indent, ss'⟩ := ⟨rfl, hfold⟩
    exact ih (hon.sound hp)

theorem Block.sound_paragraph (b : Block) : b.paragraph.Sound := by
  refine ⟨?_, fun _ hs => Idiom.sound_of_mem_statements hs⟩
  obtain ⟨indent, i⟩ := b
  cases i <;> simp [Block.paragraph, Idiom.statements]

section Stages

variable {stage stage' : Idiom → List Statement} {Fs : List Fold}

theorem on_at (h : ∀ i, Chain Fs (stage i) (stage' i)) (b : Block) :
    Chain.On Fs (b.at stage) (b.at stage') :=
  ⟨rfl, h b.idiom⟩

/-- **A rule of folds** makes of every block what its folds make of the statements, whatever the
budget is. -/
theorem apply_listing {rule : Rule} (hpatterns : rule.patterns = Fs.flatMap Fold.patterns)
    (hchain : ∀ i, Chain Fs (stage i) (stage' i)) (hsound : ∀ b : Block, (b.at stage).Sound)
    {blocks : List Block}
    {ending : List Char} (hending : ending = [] ∨ ending = ['\n']) {budget : Nat} {out : List Char}
    (hout : (rule.withBudget budget).apply
      (listing (blocks.map (Block.at stage)) ++ ending) = .ok out) :
    out = listing (blocks.map (Block.at stage')) ++ ending := by
  rw [Rule.apply_eq_applyAll, Rule.withBudget, hpatterns] at hout
  refine Chain.applyAll ?_ (List.forall_mem_map.mpr fun b _ => hsound b) hending hout
  rw [List.forall₂_map_left_iff, List.forall₂_map_right_iff, List.forall₂_same]
  exact fun b _ => on_at hchain b

end Stages

/-- A selection is known by the names of its rules. -/
theorem eq_of_names {selection : String} {selected : List Rule}
    (hs : Catalog.all.select selection = .ok selected)
    (hnames : selected.map Rule.name = ["Py_CLEAR", "Py_NewRef", "Py_SETREF"]) :
    selected = [clear, newRef, setRef] := by
  obtain ⟨wanted, hwanted⟩ := Catalog.eq_filter_of_select hs
  have hmem : ∀ rule ∈ selected, rule ∈ Catalog.rules := by
    intro rule hrule
    rw [hwanted] at hrule
    exact (List.mem_filter.mp hrule).1
  have hone : ∀ {r r'}, r ∈ Catalog.rules → r' ∈ Catalog.rules → r.name = r'.name → r = r' :=
    fun h h' => List.inj_on_of_nodup_map Catalog.nodup_names h h'
  clear hwanted hs
  obtain ⟨r₁, _, rfl, hname₁, hnames⟩ := List.map_eq_cons_iff.mp hnames
  obtain ⟨r₂, _, rfl, hname₂, hnames⟩ := List.map_eq_cons_iff.mp hnames
  obtain ⟨r₃, _, rfl, hname₃, hnames⟩ := List.map_eq_cons_iff.mp hnames
  obtain rfl := List.map_eq_nil_iff.mp hnames
  simp only [List.forall_mem_cons] at hmem
  rw [hone hmem.1 (show clear ∈ _ by simp [Catalog.rules]) hname₁,
    hone hmem.2.1 (show newRef ∈ _ by simp [Catalog.rules]) hname₂,
    hone hmem.2.2.1 (show setRef ∈ _ by simp [Catalog.rules]) hname₃]

open Patch in
/-- **Idioms are folded.**  Whatever blocks a listing has, with the three rules of reference counts
each of them is folded to one statement under its indentation, with any budget that is enough, and
some budget is enough. -/
theorem patch_listing {selection : String} {selected : List Rule}
    (hs : Catalog.all.select selection = .ok selected)
    (hnames : selected.map Rule.name = ["Py_CLEAR", "Py_NewRef", "Py_SETREF"]) (blocks : List Block)
    {ending : List Char} (hending : ending = [] ∨ ending = ['\n']) :
    (∀ budget o, patch (selected.map (Rule.withBudget budget)) false
        (listing (blocks.map Block.paragraph) ++ ending) = .ok o →
      o.text = listing (blocks.map Block.folded) ++ ending) ∧
    (∃ least, ∀ budget ≥ least, ∃ o, patch (selected.map (Rule.withBudget budget)) false
        (listing (blocks.map Block.paragraph) ++ ending) = .ok o) ∧
    ∀ o, patch selected false (listing (blocks.map Block.paragraph) ++ ending) = .ok o →
      o.text = listing (blocks.map Block.folded) ++ ending := by
  obtain rfl := eq_of_names hs hnames
  have hfolded : ∀ budget o, patch ([clear, newRef, setRef].map (Rule.withBudget budget)) false
      (listing (blocks.map Block.paragraph) ++ ending) = .ok o →
        o.text = listing (blocks.map Block.folded) ++ ending := by
    intro budget o ho
    obtain ⟨s₃, hrun, rfl⟩ := patch_eq_ok.mp ho
    obtain ⟨s₁, hclear, hrun⟩ := Session.foldlM_step_cons.mp hrun
    obtain ⟨s₂, hnewRef, hrun⟩ := Session.foldlM_step_cons.mp hrun
    obtain ⟨_, hsetRef, hdone⟩ := Session.foldlM_step_cons.mp hrun
    obtain rfl := Except.ok.inj hdone
    obtain ⟨hclear, hplain₁, -⟩ := Session.step_plain rfl hclear
    obtain ⟨hnewRef, hplain₂, -⟩ := Session.step_plain hplain₁ hnewRef
    obtain ⟨hsetRef, -, -⟩ := Session.step_plain hplain₂ hsetRef
    have hsound₁ : ∀ b : Block, (b.at Idiom.behindClear).Sound := fun b =>
      Chain.sound (on_at Idiom.chain_behindClear b) b.sound_paragraph
    have hsound₂ : ∀ b : Block, (b.at Idiom.behindNewRef).Sound := fun b =>
      Chain.sound (on_at Idiom.chain_behindNewRef b) (hsound₁ b)
    have htext₁ :=
      apply_listing clear_patterns Idiom.chain_behindClear Block.sound_paragraph hending hclear
    rw [htext₁] at hnewRef
    have htext₂ := apply_listing newRef_patterns Idiom.chain_behindNewRef hsound₁ hending hnewRef
    rw [htext₂] at hsetRef
    exact apply_listing setRef_patterns Idiom.chain_folded hsound₂ hending hsetRef
  have hrules : ∀ rule ∈ [clear, newRef, setRef], rule ∈ Catalog.rules := by simp [Catalog.rules]
  refine ⟨hfolded, ?_, fun o ho => hfolded Pattern.defaultBudget o ?_⟩
  · obtain ⟨o, least, hleast⟩ :=
      exists_budget _ false (listing (blocks.map Block.paragraph) ++ ending)
    exact ⟨least, fun budget hbudget => ⟨o, hleast budget hbudget⟩⟩
  · rwa [List.map_congr_left fun rule hr => Catalog.withBudget_default (hrules rule hr),
      List.map_id']

/-- A value that is replaced in three statements, and an object that is returned in two. -/
theorem patch_listing_two :
    let v : Variable := ⟨⟨['v'], by decide⟩, by decide⟩
    let slot : Slot := ⟨1, ⟨⟨['a'], by decide⟩, []⟩, []⟩
    let add : Increment := ⟨("Py_INCREF", "Py_NewRef"), by decide⟩
    let drop : Decrement := ⟨("Py_DECREF", "Py_SETREF"), by decide⟩
    let blocks : List Block :=
      [⟨⟨[], List.forall_mem_nil _⟩, .droppedFirst drop add slot v⟩,
        ⟨⟨['\t'], List.forall_mem_singleton.mpr rfl⟩, .returned add v⟩]
    let source := "Py_DECREF(*a);\nPy_INCREF(v);\n*a = v;\n\n\tPy_INCREF(v);\n\treturn v;".toList
    let o : PatchOutcome :=
      ⟨"Py_SETREF(*a, Py_NewRef(v));\n\n\treturn Py_NewRef(v);".toList,
        ["Py_NewRef", "Py_SETREF"], false⟩
    patch [clear, newRef, setRef] false source = .ok o ∧
    o.text = listing (blocks.map Block.folded) := by
  intro v slot add drop blocks source o
  have hselect : Catalog.all.select "Py_SETREF,Py_CLEAR Py_NewRef" = .ok [clear, newRef, setRef] :=
    rfl
  have hpatch : patch [clear, newRef, setRef] false source = .ok o :=
    Evaluation.patch_eq_ok (by decide +kernel)
  have htext : listing (blocks.map Block.paragraph) ++ [] = source := by decide +kernel
  refine ⟨hpatch, ?_⟩
  have hfolded := (patch_listing hselect rfl blocks (.inl rfl)).2.2 o (htext ▸ hpatch)
  rwa [List.append_nil] at hfolded

end CApiUpgrade.Ownership
