import WordMachine.Proofs.FirstFault
import WordMachine.Proofs.Listing

/-!
# The two texts of a source

In a configuration a source is written as stored code in base 16, or as assembly. Here it is shown
that both of its texts say what they should:

* `Text.decodeHex_encodeHex`: bytes are read back from their digits;
* `Config.writes_hexText`: the text in base 16 writes the code of the source;
* `Config.writes_text`: the printed source writes the code of the source without the operands that
  are not printed.

A text is trimmed before its first two characters decide what it is, so each of the two facts has
a part about its ends (`Text.trim_eq_self`).
-/

namespace WordMachine

namespace Text

/-! ## 1. The bytes of a text -/

theorem toList_loop_eq (bytes : ByteArray) (i : Nat) (read : List UInt8) :
    ByteArray.toList.loop bytes i read = read.reverse ++ bytes.data.toList.drop i := by
  fun_induction ByteArray.toList.loop bytes i read with
  | case1 i read hlt ih =>
      have hlength : i < bytes.data.toList.length := by simpa using hlt
      have hget : bytes.get! i = bytes.data.toList[i] := by
        show bytes.data[i]! = _
        rw [getElem!_pos bytes.data i hlt, Array.getElem_toList]
      rw [ih, List.drop_eq_getElem_cons hlength, hget]
      simp
  | case2 i read hle =>
      have hlength : bytes.data.toList.length ≤ i := by simpa using Nat.le_of_not_lt hle
      rw [List.drop_eq_nil_of_le hlength, List.append_nil]

/-- A text of ASCII characters has one byte for each of them. -/
theorem toList_toUTF8_of_ascii {text : List Char} (h : ∀ c ∈ text, c.toNat < 128) :
    (String.ofList text).toUTF8.toList = text.map fun c => UInt8.ofNat c.toNat := by
  have hbytes : text.utf8Encode = (text.map fun c => UInt8.ofNat c.toNat).toByteArray := by
    induction text with
    | nil => rfl
    | cons c text ih =>
        have hc : c.toNat < 128 := h c List.mem_cons_self
        have hsize : c.utf8Size = 1 := by
          rw [Char.utf8Size_eq_one_iff, UInt32.le_iff_toNat_le]
          exact Nat.le_of_lt_succ hc
        have hchar : String.utf8EncodeChar c = [UInt8.ofNat c.toNat] :=
          String.utf8EncodeChar_eq_singleton hsize
        rw [List.utf8Encode_cons, List.utf8Encode_singleton, hchar,
          ih fun c' h' => h c' (List.mem_cons_of_mem _ h'), ← List.toByteArray_append]
        rfl
  unfold ByteArray.toList
  rw [toList_loop_eq, String.toUTF8_eq_toByteArray, String.toByteArray_ofList, hbytes,
    List.data_toByteArray]
  rfl

/-! ## 2. Base-16 digits -/

/-- **What a digit is read as**, and what it is not. -/
theorem hexDigit_read : ∀ value < 16, hexValue? (hexDigit value).toNat = some value ∧
    (hexDigit value).toNat < 128 ∧ isHexFiller (UInt8.ofNat (hexDigit value).toNat) = false ∧
    isBlank (hexDigit value) = false := by
  decide

/-- The code of a digit, as a byte. -/
def hexCode (value : Nat) : UInt8 := UInt8.ofNat (hexDigit value).toNat

theorem hexValue?_hexCode {value : Nat} (h : value < 16) :
    hexValue? (hexCode value).toNat = some value := by
  obtain ⟨hvalue, hascii, -⟩ := hexDigit_read value h
  have hcode : (hexCode value).toNat = (hexDigit value).toNat := by
    unfold hexCode
    rw [UInt8.toNat_ofNat']
    omega
  rw [hcode, hvalue]

theorem mem_encodeHex {bytes : List UInt8} {c : Char} (h : c ∈ encodeHex bytes) :
    ∃ value < 16, c = hexDigit value := by
  obtain ⟨b, -, hc⟩ := List.mem_flatMap.1 h
  have hb := b.toNat_lt
  simp only [List.mem_cons, List.not_mem_nil, or_false] at hc
  rcases hc with rfl | rfl
  · exact ⟨b.toNat / 16, by omega, rfl⟩
  · exact ⟨b.toNat % 16, by omega, rfl⟩

theorem readHexPairs_encodeHex (bytes read : List UInt8) :
    readHexPairs read ((encodeHex bytes).map fun c => UInt8.ofNat c.toNat) =
      .ok (read.reverse ++ bytes) := by
  induction bytes generalizing read with
  | nil => simp [encodeHex, readHexPairs]
  | cons b bytes ih =>
      have hb := b.toNat_lt
      have hhigh : b.toNat / 16 < 16 := by omega
      have hlow : b.toNat % 16 < 16 := by omega
      have hbyte : UInt8.ofNat (16 * (b.toNat / 16) + b.toNat % 16) = b := by
        rw [Nat.div_add_mod, UInt8.ofNat_toNat]
      show readHexPairs read (hexCode (b.toNat / 16) :: hexCode (b.toNat % 16) ::
        (encodeHex bytes).map fun c => UInt8.ofNat c.toNat) = _
      rw [readHexPairs, hexValue?_hexCode hhigh, hexValue?_hexCode hlow]
      dsimp only
      rw [hbyte, ih]
      simp

theorem length_encodeHex (bytes : List UInt8) : (encodeHex bytes).length = 2 * bytes.length := by
  induction bytes with
  | nil => rfl
  | cons b bytes ih =>
      show (encodeHex bytes).length + 1 + 1 = 2 * (bytes.length + 1)
      omega

/-- **Bytes are read back from their digits.** -/
theorem decodeHex_encodeHex (bytes : List UInt8) :
    decodeHex (String.ofList (encodeHex bytes)) = .ok bytes := by
  have hascii : ∀ c ∈ encodeHex bytes, c.toNat < 128 := by
    intro c hc
    obtain ⟨value, hvalue, rfl⟩ := mem_encodeHex hc
    exact (hexDigit_read value hvalue).2.1
  have hkept : ∀ b ∈ (encodeHex bytes).map (fun c => UInt8.ofNat c.toNat),
      (!isHexFiller b) = true := by
    intro b hb
    obtain ⟨c, hc, rfl⟩ := List.mem_map.1 hb
    obtain ⟨value, hvalue, rfl⟩ := mem_encodeHex hc
    rw [(hexDigit_read value hvalue).2.2.1]
    rfl
  unfold decodeHex
  dsimp only
  rw [toList_toUTF8_of_ascii hascii, List.filter_eq_self.2 hkept, List.length_map, length_encodeHex,
    if_pos (Nat.mul_mod_right 2 _), readHexPairs_encodeHex]
  rfl

/-! ## 3. The ends of a text -/

/-- A text that neither starts nor ends with a blank stays as it is. -/
theorem trim_eq_self {text : List Char} (hfirst : ∀ c ∈ text.head?, isBlank c = false)
    (hlast : ∀ c ∈ text.getLast?, isBlank c = false) : trim text = text := by
  have hkeep : ∀ {l : List Char}, (∀ c ∈ l.head?, isBlank c = false) → l.dropWhile isBlank = l := by
    intro l hl
    cases l with
    | nil => rfl
    | cons c l => rw [List.dropWhile_cons_of_neg (by simp [hl c rfl])]
  unfold trim
  rw [hkeep hfirst, hkeep (by rw [List.head?_reverse]; exact hlast), List.reverse_reverse]

end Text

/-! ## 4. Stored code -/

namespace Config

theorem toList_hexText (s : Source) : (hexText s).toList = '0' :: 'x' :: Text.encodeHex s.encode := by
  simp [hexText]

/-- **The text in base 16 writes the code of the source.** -/
theorem writes_hexText (s : Source) : Writes (hexText s) s.encode := by
  have hplain : ∀ c ∈ (hexText s).toList, Text.isBlank c = false := by
    intro c hc
    rw [toList_hexText] at hc
    simp only [List.mem_cons] at hc
    rcases hc with rfl | rfl | hc
    · decide
    · decide
    · obtain ⟨value, hvalue, rfl⟩ := Text.mem_encodeHex hc
      exact (Text.hexDigit_read value hvalue).2.2.2
  have htrim : Text.trim (hexText s).toList = (hexText s).toList :=
    Text.trim_eq_self (fun c hc => hplain c (List.mem_of_mem_head? hc))
      fun c hc => hplain c (List.mem_of_mem_getLast? hc)
  exact .hex (htrim.trans (toList_hexText s)) (Text.decodeHex_encodeHex s.encode)

end Config

/-! ## 5. Printed sources -/

namespace Instruction

/-- A printed instruction starts with its name, which is no number. -/
theorem head_text (i : Instruction) :
    ∃ c rest, i.text.toList = c :: rest ∧ Text.isBlank c = false ∧ c ≠ '0' := by
  have hzero : (i.name.toList.head?.all fun c => c != '0') = true := by
    unfold name
    cases i.opcode? with
    | none =>
        dsimp only
        rw [String.toList_append]
        rfl
    | some op =>
        dsimp only
        cases op with
        | scalar s => cases s <;> decide
        | apply f => cases f <;> decide
        | _ => decide
  obtain ⟨c, rest, hname⟩ := List.exists_cons_of_ne_nil i.isWord_name.ne_nil
  have hblank : Text.isBlank c = false := (i.isWord_name.plain c (by simp [hname])).2.2.1
  have hc : c ≠ '0' := by simpa [hname] using hzero
  rw [text_eq_spell]
  cases i.fields with
  | nil => exact ⟨c, rest, hname, hblank, hc⟩
  | cons field fields =>
      rw [toList_spell_cons, hname, List.cons_append]
      exact ⟨c, _, rfl, hblank, hc⟩

/-- A printed instruction ends with its name or with the `>` after its fields. -/
theorem getLast_text (i : Instruction) : ∀ c ∈ i.text.toList.getLast?, Text.isBlank c = false := by
  intro c hc
  rw [text_eq_spell] at hc
  cases hfields : i.fields with
  | nil =>
      rw [hfields] at hc
      exact (i.isWord_name.plain c (List.mem_of_mem_getLast? hc)).2.2.1
  | cons field fields =>
      have hclose : (spell i.name (field :: fields)).toList = (i.name.toList ++
          '<' :: [' '].intercalate ((field :: fields).map String.toList)) ++ ['>'] := by
        rw [toList_spell_cons, List.append_assoc, List.cons_append]
      rw [hfields, hclose, List.getLast?_concat] at hc
      cases hc
      decide

end Instruction

namespace Source

theorem toList_text_cons (i j : Instruction) (s : Source) :
    (text (i :: j :: s)).toList = i.text.toList ++ '\n' :: (text (j :: s)).toList := by
  rw [toList_text, toList_text]
  unfold lines
  rw [List.map_cons, List.map_cons, List.intercalate_cons_cons, List.append_assoc,
    List.singleton_append]

theorem head_text (i : Instruction) (s : Source) :
    ∃ c rest, (text (i :: s)).toList = c :: rest ∧ Text.isBlank c = false ∧ c ≠ '0' := by
  obtain ⟨c, rest, htext, hblank, hc⟩ := i.head_text
  cases s with
  | nil => exact ⟨c, rest, htext, hblank, hc⟩
  | cons j s =>
      rw [toList_text_cons, htext, List.cons_append]
      exact ⟨c, _, rfl, hblank, hc⟩

theorem getLast_text (s : Source) : ∀ c ∈ s.text.toList.getLast?, Text.isBlank c = false := by
  induction s with
  | nil => simp [text]
  | cons i s ih =>
      cases s with
      | nil => exact i.getLast_text
      | cons j s =>
          obtain ⟨c, rest, htext, -⟩ := head_text j s
          rw [toList_text_cons]
          rw [htext] at ih ⊢
          rw [List.getLast?_append_cons]
          simpa using ih

/-- A printed source is trimmed already. -/
theorem trim_text (s : Source) : Text.trim s.text.toList = s.text.toList := by
  refine Text.trim_eq_self (fun c hc => ?_) s.getLast_text
  cases s with
  | nil => simp [text] at hc
  | cons i s =>
      obtain ⟨c', rest, htext, hblank, -⟩ := head_text i s
      rw [htext] at hc
      cases hc
      exact hblank

end Source

/-- **The printed source writes its code**, but for the operands that are not printed. -/
theorem Config.writes_text {s : Source} (h : ∀ i ∈ s, ¬ i.Unreadable) :
    Writes s.text s.cleared.encode := by
  refine .assembly (fun digits hdigits => ?_) ?_
  · rw [Source.trim_text] at hdigits
    cases s with
    | nil => simp [Source.text] at hdigits
    | cons i s =>
        obtain ⟨c, rest, htext, -, hc⟩ := Source.head_text i s
        rw [htext] at hdigits
        exact hc (List.cons.inj hdigits).1
  · rw [Source.trim_text]
    exact Source.assemble_text_of_readable h

end WordMachine
