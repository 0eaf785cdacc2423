import CApiUpgrade.Proofs.Repetition

/-!
# The characters of a patched text

Reading a file and writing it back gives the same bytes, in either encoding
(`Encoding.encode_decode`).  Patching brings no character into a text but ASCII characters
(`ascii_or_mem_of_patch`), so a patched text can always be written in the encoding in which the file
was read (`newBytes_of_patch`): UTF-8 writes every text, and Latin-1 writes every text of characters
below 256, one byte for each.
-/

namespace CApiUpgrade

/-! ### Encodings -/

namespace Encoding

/-- A byte read as a character keeps its number. -/
theorem toNat_ofNat_byte (b : UInt8) : (Char.ofNat b.toNat).toNat = b.toNat := by
  have hlt : b.toNat < 256 := b.toNat_lt
  have hvalid : b.toNat.isValidChar := .inl (by omega)
  rw [Char.ofNat, dif_pos hvalid]
  rfl

/-- A byte read as a character is written as the same byte. -/
theorem latin1Byte_ofNat (b : UInt8) : latin1Byte (Char.ofNat b.toNat) = .ok b := by
  rw [latin1Byte, toNat_ofNat_byte, if_pos b.toNat_lt]
  simp

/-- A text of characters below 256 is written in Latin-1, one byte for each character. -/
theorem exists_encode_latin1 {text : List Char} (h : ∀ c ∈ text, c.toNat < 256) :
    ∃ bytes, encode text latin1 = .ok bytes ∧ bytes.size = text.length := by
  have hmap : text.mapM latin1Byte = .ok (text.map fun c => c.toNat.toUInt8) := by
    induction text with
    | nil => rfl
    | cons c rest ih =>
      have hc : latin1Byte c = .ok c.toNat.toUInt8 := if_pos (h c List.mem_cons_self)
      rw [List.mapM_cons, hc, ih fun d hd => h d (List.mem_cons_of_mem c hd)]
      rfl
  refine ⟨⟨(text.map fun c => c.toNat.toUInt8).toArray⟩, ?_, ?_⟩
  · rw [encode, hmap]
    rfl
  · simp [ByteArray.size]

/-- What is read as Latin-1 has characters below 256 only. -/
theorem lt_of_mem_decode {bytes : ByteArray} (h : (decode bytes).2 = latin1) {c : Char}
    (hc : c ∈ (decode bytes).1) : c.toNat < 256 := by
  unfold decode at h hc
  cases htext : String.fromUTF8? bytes with
  | some text => simp [htext] at h
  | none =>
    simp only [htext, List.mem_map] at hc
    obtain ⟨b, -, rfl⟩ := hc
    rw [toNat_ofNat_byte]
    exact b.toNat_lt

/-- A character that is written as a byte is read back from it. -/
theorem eq_ofNat_of_latin1Byte {c : Char} {b : UInt8} (h : latin1Byte c = .ok b) :
    c = Char.ofNat b.toNat := by
  unfold latin1Byte at h
  split_ifs at h with hlt
  obtain rfl := Except.ok.inj h
  rw [Nat.toUInt8, UInt8.toNat_ofNat', Nat.mod_eq_of_lt hlt, Char.ofNat_toNat]

theorem eq_map_of_mapM_latin1Byte {text : List Char} {bytes : List UInt8}
    (h : text.mapM latin1Byte = .ok bytes) : text = bytes.map fun b => Char.ofNat b.toNat := by
  induction text generalizing bytes with
  | nil =>
    obtain rfl := Except.ok.inj h
    rfl
  | cons c rest ih =>
    rw [List.mapM_cons, bind_eq_ok] at h
    obtain ⟨b, hb, h⟩ := h
    obtain ⟨rest', hrest, h⟩ := bind_eq_ok.mp h
    obtain rfl := Except.ok.inj h
    rw [List.map_cons, ← eq_ofNat_of_latin1Byte hb, ← ih hrest]

/-- A text that is written in Latin-1 is read back from its bytes. -/
theorem eq_map_of_encode_latin1 {text : List Char} {bytes : ByteArray}
    (h : encode text latin1 = .ok bytes) :
    text = bytes.data.toList.map fun b => Char.ofNat b.toNat := by
  rw [encode] at h
  cases hmap : text.mapM latin1Byte with
  | error e => simp [hmap, Functor.map, Except.map] at h
  | ok bs =>
    rw [hmap] at h
    obtain rfl := Except.ok.inj h
    exact eq_map_of_mapM_latin1Byte hmap

/-- **Reading and writing back** gives the same bytes. -/
theorem encode_decode (bytes : ByteArray) :
    encode (decode bytes).1 (decode bytes).2 = .ok bytes := by
  unfold decode
  split
  · rename_i text htext
    unfold String.fromUTF8? at htext
    split_ifs at htext with hvalid
    obtain rfl := Option.some.inj htext
    rw [encode, String.ofList_toList]
    rfl
  · have hmap : (bytes.data.toList.map fun b => Char.ofNat b.toNat).mapM latin1Byte
        = .ok bytes.data.toList := by
      generalize bytes.data.toList = bs
      induction bs with
      | nil => rfl
      | cons b rest ih =>
        rw [List.map_cons, List.mapM_cons, latin1Byte_ofNat, ih]
        rfl
    rw [encode, hmap]
    rfl

end Encoding

/-! ### Templates and passes -/

/-- Whether the plain parts of a template are ASCII. -/
def Template.isAscii (t : Template) : Bool :=
  t.all fun
    | .plain text => text.toList.all fun c => decide (c.toNat < 128)
    | .group _ => true

/-- Every character of what replaces a match is an ASCII character or stands in the match. -/
theorem Pattern.Regular.ascii_or_mem_of_fill {p : Pattern} (hp : p.Regular)
    (ht : p.template.isAscii = true) {texts : String → Option (List Char)} {m : List Char}
    (hm : p.regex.Spells (.of texts) m) {c : Char} (hc : c ∈ p.template.fill texts) :
    c.toNat < 128 ∨ c ∈ m := by
  rcases Template.mem_fill hc with ⟨text, hmem, hc⟩ | ⟨n, hn, u, hu, hc⟩
  · have hplain := List.all_eq_true.mp ht _ hmem
    exact .inl (of_decide_eq_true (List.all_eq_true.mp hplain c hc))
  · obtain ⟨e, he, rfl⟩ := List.mem_map.mp (hp.named n hn)
    exact .inr ((hp.basic.spells_body hm he hu).1.subset hc)

theorem Pattern.Pass.ascii_or_mem {p : Pattern} {bound : Nat} {cur : Cursor} {hits : List Hit}
    {out : List Char} (h : p.Pass bound cur hits out) (hp : p.Regular)
    (ht : p.template.isAscii = true) : ∀ c ∈ out, c.toNat < 128 ∨ c ∈ cur.after := by
  induction h with
  | done => simp
  | skip _ hn _ ih =>
    rw [(Cursor.leads_of_next? hn).after]
    intro c hc
    rcases List.mem_cons.mp hc with rfl | hc
    · exact .inr List.mem_cons_self
    · exact (ih c hc).imp_right (List.mem_cons_of_mem _)
  | hit ha _ ih =>
    obtain ⟨m, hl, hm⟩ := hp.reads ha
    rw [hl.after]
    intro c hc
    rcases List.mem_append.mp hc with hc | hc
    · exact (hp.ascii_or_mem_of_fill ht hm hc).imp_right (List.mem_append_left _)
    · exact (ih c hc).imp_right (List.mem_append_right _)

/-- The templates of the catalog are ASCII. -/
theorem Catalog.isAscii_template {rule : Rule} (hr : rule ∈ rules) {p : Pattern}
    (hp : p ∈ rule.patterns) : p.template.isAscii = true := by
  have hall : rules.all (fun rule => rule.patterns.all (·.template.isAscii)) = true := by
    decide +kernel
  exact Rule.of_all_patterns hall hr hp

theorem Header.ascii_of_mem_lines {c : Char} (h : c ∈ lines) : c.toNat < 128 := by
  have hall : lines.all (fun c => decide (c.toNat < 128)) = true := by decide +kernel
  exact of_decide_eq_true (List.all_eq_true.mp hall c h)

/-! ### Patches -/

section Selection

variable {selection : String} {selected : List Rule} {insertHeader : Bool}

/-- Patching brings no character into a text but ASCII characters. -/
theorem ascii_or_mem_of_patch (hs : Catalog.all.select selection = .ok selected)
    {text : List Char} {o : PatchOutcome} (h : patch selected insertHeader text = .ok o) :
    ∀ c ∈ o.text, c.toNat < 128 ∨ c ∈ text := by
  have hsub : ∀ rule ∈ selected, rule ∈ Catalog.rules := fun _ hr =>
    (Catalog.sublist_of_select hs).subset hr
  refine related_of_patch (R := fun text out => ∀ c ∈ out, c.toNat < 128 ∨ c ∈ text)
    (fun _ c hc => .inr hc) ?_ hsub ?_ ?_ h
  · intro a b c hab hbc x hx
    rcases hbc x hx with hx | hx
    · exact .inl hx
    · exact hab x hx
  · intro rule hr p hp text hits out hpass
    exact hpass.ascii_or_mem (Catalog.regular (hsub rule hr) hp)
      (Catalog.isAscii_template (hsub rule hr) hp)
  · intro text c hc
    exact (List.mem_append.mp hc).imp_left Header.ascii_of_mem_lines

/-- A patched text can be written in the encoding of the file, in Latin-1 with one byte for each
character. -/
theorem exists_encode_of_patch (hs : Catalog.all.select selection = .ok selected)
    {bytes : ByteArray} {o : PatchOutcome}
    (h : patch selected insertHeader (Encoding.decode bytes).1 = .ok o) :
    ∃ new, Encoding.encode o.text (Encoding.decode bytes).2 = .ok new ∧
      ((Encoding.decode bytes).2 = .latin1 → new.size = o.text.length) := by
  have hchars := ascii_or_mem_of_patch hs h
  cases henc : (Encoding.decode bytes).2 with
  | utf8 => exact ⟨_, rfl, by simp⟩
  | latin1 =>
    have hlow : ∀ c ∈ o.text, c.toNat < 256 := by
      intro c hc
      rcases hchars c hc with h | h
      · omega
      · exact Encoding.lt_of_mem_decode henc h
    obtain ⟨new, hnew, hsize⟩ := Encoding.exists_encode_latin1 hlow
    exact ⟨new, hnew, fun _ => hsize⟩

/-- **Writing back never fails.**  What is read is written back byte by byte.  A patched text has
only ASCII characters and characters of the file, so it can be written in the encoding of the file,
in Latin-1 with one byte for each character. -/
theorem newBytes_of_patch (hs : Catalog.all.select selection = .ok selected) (bytes : ByteArray) :
    Encoding.encode (Encoding.decode bytes).1 (Encoding.decode bytes).2 = .ok bytes ∧
    ∀ (path : String) (file : PatchedFile),
      SourceFile.patch selected insertHeader
          ⟨path, (Encoding.decode bytes).1, (Encoding.decode bytes).2⟩ = .ok file →
        (∀ c ∈ file.outcome.text, c.toNat < 128 ∨ c ∈ (Encoding.decode bytes).1) ∧
          ∃ new, file.newBytes = .ok new ∧
            ((Encoding.decode bytes).2 = .latin1 → new.size = file.outcome.text.length) := by
  refine ⟨Encoding.encode_decode bytes, fun path file h => ?_⟩
  obtain ⟨hpatch, hfile⟩ := SourceFile.patch_eq_ok h
  have hencoding : file.encoding = (Encoding.decode bytes).2 :=
    congrArg SourceFile.encoding hfile
  refine ⟨ascii_or_mem_of_patch hs hpatch, ?_⟩
  rw [PatchedFile.newBytes, hencoding]
  exact exists_encode_of_patch hs hpatch

/-- A file that is not valid UTF-8: the byte 0xe9 survives beside a read that is replaced. -/
theorem newBytes_of_patch_latin1 :
    let bytes : ByteArray :=
      ⟨#[0xe9, 0x20, 0x61, 0x2d, 0x3e, 0x6f, 0x62, 0x5f, 0x74, 0x79, 0x70, 0x65]⟩
    let file : PatchedFile := ⟨⟨"a.c", Char.ofNat 0xe9 :: " a->ob_type".toList, .latin1⟩,
      ⟨Char.ofNat 0xe9 :: " Py_TYPE(a)".toList, ["Py_TYPE"], false⟩⟩
    SourceFile.patch [Catalog.readType] true
        ⟨"a.c", (Encoding.decode bytes).1, (Encoding.decode bytes).2⟩ = .ok file ∧
    (∀ c ∈ file.outcome.text, c.toNat < 128 ∨ c ∈ (Encoding.decode bytes).1) ∧
    ∃ new, file.newBytes = .ok new ∧
      ((Encoding.decode bytes).2 = .latin1 → new.size = file.outcome.text.length) := by
  intro bytes file
  have hdecode : Encoding.decode bytes = (file.text, .latin1) := by
    decide +kernel
  have hpatch : SourceFile.patch [Catalog.readType] true
      ⟨"a.c", (Encoding.decode bytes).1, (Encoding.decode bytes).2⟩ = .ok file := by
    have houtcome : patch [Catalog.readType] true file.text = .ok file.outcome :=
      Evaluation.patch_eq_ok (by decide +kernel)
    rw [hdecode, SourceFile.patch, houtcome]
  exact ⟨hpatch, (@newBytes_of_patch "Py_TYPE" _ true rfl bytes).2 "a.c" file hpatch⟩

end Selection

end CApiUpgrade
