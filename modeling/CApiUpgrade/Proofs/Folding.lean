import CApiUpgrade.Proofs.Locality
import CApiUpgrade.Proofs.Paragraphs

/-!
# The folds of reference counts

The patterns of three rules are folds: one that clears a slot, three for each macro that adds a
reference, and those that replace the value of a slot.  Each of them is a `Fold` here, with the
kinds of statements that it asks for, and each rule is the list of its folds (`clear_patterns`,
`newRef_patterns`, `setRef_patterns`).
-/

namespace CApiUpgrade.Ownership

open Text Catalog Regex

/-! ### The folds of the catalog -/

/-- A decrement that may drop a value that was kept in a variable. -/
abbrev LateDecrement := { e : String × String // e ∈ decrements.take 2 }

section
variable (add : Increment) (drop : Decrement)

theorem isIdentifier_add : isIdentifier add.1.1.toList = true :=
  (isIdentifier_of_mem_increments add.2).1

theorem isIdentifier_drop : isIdentifier drop.1.1.toList = true :=
  (isIdentifier_of_mem_decrements drop.2).1

/-- A new reference to the object of the variable. -/
abbrev newReference : Template :=
  [.group "cast", .plain (add.1.2 ++ "("), .group "var", .plain ");"]

end

variable {texts : String → Option (List Char)}

/-- Two expressions read two statements, each its own. -/
theorem reads_pair {r r' : Regex} {ss : List Statement} (h : Reads texts [r, r'] ss) :
    ∃ s s', ss = [s, s'] ∧ r.Spells (.of texts) s.text ∧ r'.Spells (.of texts) s'.text := by
  cases h with
  | cons h hrest => cases hrest with
    | cons h' hrest => cases hrest with
      | nil => exact ⟨_, _, rfl, h, h'⟩

theorem reads_triple {r r' r'' : Regex} {ss : List Statement} (h : Reads texts [r, r', r''] ss) :
    ∃ s s' s'', ss = [s, s', s''] ∧ r.Spells (.of texts) s.text ∧ r'.Spells (.of texts) s'.text ∧
      r''.Spells (.of texts) s''.text := by
  cases h with
  | cons h hrest =>
    obtain ⟨s', s'', rfl, h', h''⟩ := reads_pair hrest
    exact ⟨_, s', s'', rfl, h, h', h''⟩

/-- What an expression matches is of one kind. -/
def Tells (texts : String → Option (List Char)) (r : Regex) (k : Shape) : Prop :=
  ∀ s : Statement, s.Sound → r.Spells (.of texts) s.text → s.shape = k

/-- If each expression matches one kind of statement, then the statements that they read are of
these kinds. -/
theorem shapes_of_reads {rs : List Regex} {ks : List Shape} {ss : List Statement}
    (h : List.Forall₂ (Tells texts) rs ks) (hsound : ∀ s ∈ ss, s.Sound)
    (hreads : Reads texts rs ss) : ss.map Statement.shape = ks := by
  -- Expression by expression, together with the statement that it reads.
  induction hreads generalizing ks with
  | nil =>
    cases h
    rfl
  | cons hr _ ih =>
    rw [List.forall_mem_cons] at hsound
    obtain _ | ⟨hk, hks⟩ := h
    rw [List.map_cons, hk _ hsound.1 hr, ih hks hsound.2]

/-- The expression for a call tells by the name of the function. -/
theorem tells_callOf {function : String} (argument : Regex)
    (hfunction : isIdentifier function.toList = true) :
    Tells texts (callOf function argument) (.call function) :=
  fun _ hs h => shape_of_spells_callOf hs hfunction h

/-- An expression without a match that lacks an equals sign matches assignments only. -/
theorem tells_assignment {r : Regex} (hr : 0 < r.least '=') : Tells texts r .assign :=
  fun _ hs h => shape_of_spells_assignment hs hr h

/-- The variable whose reference is added is an identifier. -/
theorem isIdentifier_of_spells_addVariable {add : Increment} {w : List Char}
    (h : (addVariable add).Spells (.of texts) w) (u : List Char) (hu : texts "var" = some u) :
    isIdentifier u = true := by
  obtain ⟨v, ⟨hv, hname⟩, -⟩ := calls_of_spells_callOf h
  obtain rfl : v = u := Option.some.inj (Eq.trans (Eq.symm hv) hu)
  exact spells_identifier.mp hname

theorem two_le_length_pair (r r' : Regex) : 2 ≤ [r, r'].length := le_rfl

theorem closing_clear :
    closing [callOf "Py_XDECREF" (group "slot" Chain.dereferenced), nullStore] = true := by
  decide +kernel

/-- `Py_XDECREF(slot); slot = NULL;` -/
def clearFold : Fold where
  statements := [callOf "Py_XDECREF" (group "slot" Chain.dereferenced), nullStore]
  replacement := [.plain "Py_CLEAR(", .group "slot", .plain ");"]
  two_le_length := two_le_length_pair _ _
  regular _ hp := Catalog.regular (show clear ∈ rules by simp [rules]) hp
  closing_statements := closing_clear
  shapes := [.call "Py_XDECREF", .assign]
  asks := shapes_of_reads
    (.cons (tells_callOf _ (by decide)) (.cons (tells_assignment (by decide)) .nil))

/-- `INC(var); return var;` -/
def returnFold (add : Increment) : Fold where
  statements := [addVariable add, returnVariable]
  replacement := .plain "return " :: newReference add
  two_le_length := two_le_length_pair _ _
  regular p hp := by
    refine Catalog.regular (show newRef ∈ rules by simp [rules])
      (List.mem_flatMap.mpr ⟨add.1, add.2, ?_⟩)
    exact List.mem_append_left _ (List.mem_append_left _ hp)
  closing_statements := by
    have hall : increments.attach.all (fun add => closing [addVariable add, returnVariable]) =
        true := by
      decide +kernel
    exact List.all_eq_true.mp hall add (List.mem_attach _ _)
  shapes := [.call add.1.1, .giveBack]
  asks hsound hreads := by
    obtain ⟨s, s', rfl, h, -⟩ := reads_pair hreads
    -- What is returned is the variable of the call, so that it is an identifier is known from
    -- there.
    refine shapes_of_reads
      (.cons (tells_callOf _ (isIdentifier_add add)) (.cons (fun t ht h' => ?_) .nil)) hsound hreads
    exact shape_of_spells_return ht (isIdentifier_of_spells_addVariable h) h'

/-- `INC(var); target = var;` -/
def addFold (add : Increment) : Fold where
  statements := [addVariable add, assignVariable]
  replacement := .group "target" :: .group "eq" :: newReference add
  two_le_length := two_le_length_pair _ _
  regular p hp := by
    refine Catalog.regular (show newRef ∈ rules by simp [rules])
      (List.mem_flatMap.mpr ⟨add.1, add.2, ?_⟩)
    exact List.mem_append_left _ (List.mem_append_right _ hp)
  closing_statements := by
    have hall : increments.attach.all (fun add => closing [addVariable add, assignVariable]) =
        true := by
      decide +kernel
    exact List.all_eq_true.mp hall add (List.mem_attach _ _)
  shapes := [.call add.1.1, .assign]
  asks := shapes_of_reads
    (.cons (tells_callOf _ (isIdentifier_add add)) (.cons (tells_assignment (by decide)) .nil))

/-- `target = var; INC(var);` or `target = var; INC(lvalue);` -/
def storeFold (add : Increment) : Fold where
  statements := [storeVariable, addEither add]
  replacement := .group "target" :: .group "eq" :: newReference add
  two_le_length := two_le_length_pair _ _
  regular p hp := by
    refine Catalog.regular (show newRef ∈ rules by simp [rules])
      (List.mem_flatMap.mpr ⟨add.1, add.2, ?_⟩)
    exact List.mem_append_right _ hp
  closing_statements := by
    have hall :
        increments.attach.all (fun add => closing [storeVariable, addEither add]) = true := by
      decide +kernel
    exact List.all_eq_true.mp hall add (List.mem_attach _ _)
  shapes := [.assign, .call add.1.1]
  asks := shapes_of_reads
    (.cons (tells_assignment (by decide)) (.cons (tells_callOf _ (isIdentifier_add add)) .nil))

/-- `INC(var); DEC(slot); slot = var;` -/
def addDropFold (drop : Decrement) (add : Increment) : Fold where
  statements := [addVariable add, dropSlot drop, variableStore]
  replacement := replaceSlot drop.1.2 [.plain (add.1.2 ++ "("), .group "var", .plain ")"]
  two_le_length := Nat.le_succ 2
  regular p hp := by
    refine Catalog.regular (show setRef ∈ rules by simp [rules])
      (List.mem_append_left _ (List.mem_append_left _
      (List.mem_flatMap.mpr ⟨drop.1, drop.2, List.mem_flatMap.mpr ⟨add.1, add.2, ?_⟩⟩)))
    exact List.mem_append_left _ hp
  closing_statements := by
    have hall : decrements.attach.all (fun drop => increments.attach.all fun add =>
        closing [addVariable add, dropSlot drop, variableStore]) = true := by
      decide +kernel
    exact List.all_eq_true.mp (List.all_eq_true.mp hall drop (List.mem_attach _ _)) add
      (List.mem_attach _ _)
  shapes := [.call add.1.1, .call drop.1.1, .assign]
  asks := shapes_of_reads (.cons (tells_callOf _ (isIdentifier_add add))
    (.cons (tells_callOf _ (isIdentifier_drop drop)) (.cons (tells_assignment (by decide)) .nil)))

/-- `DEC(slot); INC(var); slot = var;` -/
def dropAddFold (drop : Decrement) (add : Increment) : Fold where
  statements := [dropSlot drop, addVariable add, variableStore]
  replacement := replaceSlot drop.1.2 [.plain (add.1.2 ++ "("), .group "var", .plain ")"]
  two_le_length := Nat.le_succ 2
  regular p hp := by
    refine Catalog.regular (show setRef ∈ rules by simp [rules])
      (List.mem_append_left _ (List.mem_append_left _
      (List.mem_flatMap.mpr ⟨drop.1, drop.2, List.mem_flatMap.mpr ⟨add.1, add.2, ?_⟩⟩)))
    exact List.mem_append_right _ hp
  closing_statements := by
    have hall : decrements.attach.all (fun drop => increments.attach.all fun add =>
        closing [dropSlot drop, addVariable add, variableStore]) = true := by
      decide +kernel
    exact List.all_eq_true.mp (List.all_eq_true.mp hall drop (List.mem_attach _ _)) add
      (List.mem_attach _ _)
  shapes := [.call drop.1.1, .call add.1.1, .assign]
  asks := shapes_of_reads (.cons (tells_callOf _ (isIdentifier_drop drop))
    (.cons (tells_callOf _ (isIdentifier_add add)) (.cons (tells_assignment (by decide)) .nil)))

/-- `DEC(slot); slot = value;` -/
def replaceFold (drop : Decrement) : Fold where
  statements := [dropSlot drop, slotStore]
  replacement := replaceSlot drop.1.2 [.group "value"]
  two_le_length := two_le_length_pair _ _
  regular p hp := by
    refine Catalog.regular (show setRef ∈ rules by simp [rules])
      (List.mem_append_left _ (List.mem_append_right _ (List.mem_flatMap.mpr ⟨drop.1, drop.2, ?_⟩)))
    exact hp
  closing_statements := by
    have hall : decrements.attach.all (fun drop => closing [dropSlot drop, slotStore]) = true := by
      decide +kernel
    exact List.all_eq_true.mp hall drop (List.mem_attach _ _)
  shapes := [.call drop.1.1, .assign]
  asks := shapes_of_reads
    (.cons (tells_callOf _ (isIdentifier_drop drop)) (.cons (tells_assignment (by decide)) .nil))

/-- `old = slot; slot = value; DEC(old);` -/
def keptFold (drop : LateDecrement) : Fold where
  statements := [keepOld, slotStore, dropOld drop.1.1]
  replacement := replaceSlot drop.1.2 [.group "value"]
  two_le_length := Nat.le_succ 2
  regular p hp := by
    refine Catalog.regular (show setRef ∈ rules by simp [rules]) (List.mem_append_right _
      (List.mem_flatMap.mpr ⟨drop.1, drop.2, ?_⟩))
    exact hp
  closing_statements := by
    have hall : (decrements.take 2).attach.all
        (fun drop => closing [keepOld, slotStore, dropOld drop.1.1]) = true := by
      decide +kernel
    exact List.all_eq_true.mp hall drop (List.mem_attach _ _)
  shapes := [.assign, .assign, .call drop.1.1]
  asks := shapes_of_reads
    (.cons (tells_assignment (by decide)) (.cons (tells_assignment (by decide))
    (.cons (tells_callOf _ (isIdentifier_of_mem_decrements (List.mem_of_mem_take drop.2)).1) .nil)))

/-- The folds that add a reference. -/
def newRefFolds : List Fold :=
  increments.attach.flatMap fun add => [returnFold add, addFold add, storeFold add]

/-- The folds that replace the value of a slot by a variable. -/
def tripleFolds : List Fold :=
  decrements.attach.flatMap fun drop => increments.attach.flatMap fun add =>
    [addDropFold drop add, dropAddFold drop add]

/-- The folds that replace the value of a slot by any value. -/
def pairFolds : List Fold :=
  decrements.attach.map replaceFold ++ (decrements.take 2).attach.map keptFold

/-- The rule for cleared slots is one fold. -/
theorem clear_patterns : clear.patterns = [clearFold].flatMap Fold.patterns := rfl

theorem callStatement_increment (add : Increment) :
    callStatement add.1.1 "var" Chain.identifier = addVariable add := rfl

theorem callStatement_decrement (drop : Decrement) :
    callStatement drop.1.1 "slot" Chain.dereferenced = dropSlot drop := rfl

/-- The entries of a table can be gone through with the evidence that they stand in it. -/
theorem flatMap_attach {α β : Type} (l : List α) (f : α → List β) :
    (l.attach.flatMap fun a => f a.1) = l.flatMap f := by
  rw [← List.flatMap_map, List.attach_map_subtype_val]

/-- The rule for new references is its folds, in the order of the table of macros. -/
theorem newRef_patterns : newRef.patterns = newRefFolds.flatMap Fold.patterns := by
  have hrule : newRef.patterns = increments.flatMap fun add => Catalog.newRefFolds add.1 add.2 :=
    rfl
  have hfolds :
      ∀ add : Increment, [returnFold add, addFold add, storeFold add].flatMap Fold.patterns =
      Catalog.newRefFolds add.1.1 add.1.2 := by
    intro add
    rw [Catalog.newRefFolds, callStatement_increment, List.append_assoc, List.flatMap_cons,
      List.flatMap_cons, List.flatMap_singleton]
    rfl
  -- The table is gone through with evidence on one side and without on the other.
  rw [hrule, newRefFolds, List.flatMap_assoc]
  simp only [hfolds]
  rw [flatMap_attach increments fun add => Catalog.newRefFolds add.1 add.2]

/-- The rule for replaced values is its folds: first the ones that add a reference, macro by macro,
then those that take any value. -/
theorem setRef_patterns : setRef.patterns = (tripleFolds ++ pairFolds).flatMap Fold.patterns := by
  have hrule : setRef.patterns = (decrements.flatMap fun drop => increments.flatMap fun add =>
      setNewRefFolds drop.1 drop.2 add.1 add.2) ++
      (decrements.flatMap fun drop => setRefFolds drop.1 drop.2) ++
        (decrements.take 2).flatMap fun drop => keptRefFolds drop.1 drop.2 := rfl
  have htriples : ∀ (drop : Decrement) (add : Increment),
      [addDropFold drop add, dropAddFold drop add].flatMap
      Fold.patterns = setNewRefFolds drop.1.1 drop.1.2 add.1.1 add.1.2 := by
    intro drop add
    rw [setNewRefFolds, callStatement_increment, callStatement_decrement, List.flatMap_cons,
      List.flatMap_singleton]
    rfl
  have hpairs : ∀ drop : Decrement, (replaceFold drop).patterns = setRefFolds drop.1.1 drop.1.2 :=
    fun _ => rfl
  have hkept : ∀ drop : LateDecrement, (keptFold drop).patterns = keptRefFolds drop.1.1 drop.1.2 :=
    fun _ => rfl
  -- The inner table can be gone through without evidence for every entry of the outer one.
  have hinner : ∀ drop : String × String, (increments.attach.flatMap fun add =>
      setNewRefFolds drop.1 drop.2 add.1.1 add.1.2) =
        increments.flatMap fun add => setNewRefFolds drop.1 drop.2 add.1 add.2 :=
    fun drop => flatMap_attach increments fun add => setNewRefFolds drop.1 drop.2 add.1 add.2
  rw [hrule, List.flatMap_append, tripleFolds, pairFolds, List.flatMap_append]
  simp only [List.flatMap_assoc, List.flatMap_map, htriples, hpairs, hkept, hinner]
  rw [flatMap_attach decrements fun drop => increments.flatMap fun add =>
    setNewRefFolds drop.1 drop.2 add.1 add.2,
    flatMap_attach decrements fun drop => setRefFolds drop.1 drop.2,
    flatMap_attach (decrements.take 2) fun drop => keptRefFolds drop.1 drop.2, List.append_assoc]

end CApiUpgrade.Ownership
