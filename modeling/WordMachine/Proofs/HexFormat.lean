import WordMachine.Proofs.SourceText

/-!
# Stored code in base 16

Which texts are read as stored code, what is read from them, and what is said of the others. A text
is read in three layers: its bytes without the fillers, the bytes that pairs of these write, and the
instructions that four bytes each are. Here they are put together:

* `hexBytes` lists the fillers, and `hexBytes_eq` says that these are the bytes that are dropped;
* `isHexDigit` says what a digit is, and `hexValue?_table` that these are the bytes with a value;
* `readHexPairs_of_digits` and `readHexPairs_of_other` go through the pairs, for a text of digits
  and for any other;
* `Source.decode?_eq_some_iff` says which bytes are read as a source;
* `hex_format` is about whole texts.
-/

namespace WordMachine

namespace Text

/-! ## 1. Digits -/

/-- The bytes of a text without the fillers: tab, line feed, form feed, carriage return, space and
underscore. -/
def hexBytes (text : String) : List UInt8 :=
  text.toUTF8.toList.filter fun b => !([9, 10, 12, 13, 32, 95].contains b.toNat)

theorem isHexFiller_table : ∀ n < 256,
    isHexFiller (UInt8.ofNat n) = [9, 10, 12, 13, 32, 95].contains n := by
  decide +kernel

/-- These are the bytes that reading drops. -/
theorem hexBytes_eq (text : String) :
    hexBytes text = text.toUTF8.toList.filter (!isHexFiller ·) := by
  refine List.filter_congr fun b _ => ?_
  rw [← isHexFiller_table b.toNat b.toNat_lt, UInt8.ofNat_toNat]

/-- Whether a byte is a base-16 digit, of either case. -/
def isHexDigit (b : UInt8) : Bool :=
  let c := Char.ofNat b.toNat
  ('0' ≤ c && c ≤ '9') || ('a' ≤ c && c ≤ 'f') || ('A' ≤ c && c ≤ 'F')

/-- The digit in lower case. -/
def lowerDigit (b : UInt8) : Char := (Char.ofNat b.toNat).toLower

/-- **A digit has the value that it is written for in lower case**, and no other byte has one. -/
theorem hexValue?_table : ∀ n < 256,
    (isHexDigit (UInt8.ofNat n) = true →
      ∃ value < 16, hexValue? n = some value ∧ hexDigit value = lowerDigit (UInt8.ofNat n)) ∧
    (isHexDigit (UInt8.ofNat n) = false → hexValue? n = none) := by
  decide +kernel

theorem exists_hexValue? {b : UInt8} (h : isHexDigit b = true) :
    ∃ value < 16, hexValue? b.toNat = some value ∧ hexDigit value = lowerDigit b := by
  have htable := (hexValue?_table b.toNat b.toNat_lt).1
  rw [UInt8.ofNat_toNat] at htable
  exact htable h

theorem hexValue?_eq_none {b : UInt8} (h : isHexDigit b = false) : hexValue? b.toNat = none := by
  have htable := (hexValue?_table b.toNat b.toNat_lt).2
  rw [UInt8.ofNat_toNat] at htable
  exact htable h

/-! ## 2. Pairs of digits -/

theorem encodeHex_cons {high low : Nat} (hhigh : high < 16) (hlow : low < 16) (bytes : List UInt8) :
    encodeHex (UInt8.ofNat (16 * high + low) :: bytes) =
      hexDigit high :: hexDigit low :: encodeHex bytes := by
  have hvalue : (UInt8.ofNat (16 * high + low)).toNat = 16 * high + low := by
    rw [UInt8.toNat_ofNat']
    omega
  have hdiv : (16 * high + low) / 16 = high := by omega
  have hmod : (16 * high + low) % 16 = low := by omega
  unfold encodeHex
  rw [List.flatMap_cons, hvalue, hdiv, hmod]
  rfl

/-- **Digits are read as the bytes that are written with them**, but for their case. -/
theorem readHexPairs_of_digits : ∀ {digits : List UInt8}, digits.length % 2 = 0 →
    (∀ b ∈ digits, isHexDigit b = true) →
    ∃ bytes, (∀ read, readHexPairs read digits = .ok (read.reverse ++ bytes)) ∧
      encodeHex bytes = digits.map lowerDigit
  | [], _, _ => ⟨[], fun read => by simp [readHexPairs], rfl⟩
  | [_], h, _ => absurd h (by simp)
  | high :: low :: rest, h, hdigits => by
      have hlength : rest.length % 2 = 0 := by
        simp only [List.length_cons] at h
        omega
      have hrest : ∀ b ∈ rest, isHexDigit b = true :=
        fun b hb => hdigits b (List.mem_cons_of_mem _ (List.mem_cons_of_mem _ hb))
      obtain ⟨bytes, hread, hwritten⟩ := readHexPairs_of_digits hlength hrest
      obtain ⟨v, hv, hhigh, hdigit⟩ := exists_hexValue? (hdigits high (by simp))
      obtain ⟨w, hw, hlow, hdigit'⟩ := exists_hexValue? (hdigits low (by simp))
      refine ⟨UInt8.ofNat (16 * v + w) :: bytes, fun read => ?_, ?_⟩
      · rw [readHexPairs, hhigh, hlow]
        dsimp only
        rw [hread]
        simp
      · rw [encodeHex_cons hv hw, hwritten, hdigit, hdigit']
        rfl

/-- **The first byte that is no digit is named**, be it the first or the second of its pair. -/
theorem readHexPairs_of_other : ∀ {digits : List UInt8} {b : UInt8}, digits.length % 2 = 0 →
    digits.find? (!isHexDigit ·) = some b →
    ∀ read, readHexPairs read digits = .error (.invalidDigit b)
  | [], _, _, h => by cases h
  | [_], _, h, _ => absurd h (by simp)
  | high :: low :: rest, b, h, hfirst => by
      intro read
      have hlength : rest.length % 2 = 0 := by
        simp only [List.length_cons] at h
        omega
      cases hhigh : isHexDigit high with
      | false =>
          rw [List.find?_cons_of_pos (by rw [hhigh]; rfl)] at hfirst
          cases hfirst
          rw [readHexPairs, hexValue?_eq_none hhigh]
      | true =>
          obtain ⟨v, -, hv, -⟩ := exists_hexValue? hhigh
          rw [List.find?_cons_of_neg (by rw [hhigh]; decide)] at hfirst
          cases hlow : isHexDigit low with
          | false =>
              rw [List.find?_cons_of_pos (by rw [hlow]; rfl)] at hfirst
              cases hfirst
              rw [readHexPairs, hv, hexValue?_eq_none hlow]
          | true =>
              obtain ⟨w, -, hw, -⟩ := exists_hexValue? hlow
              rw [List.find?_cons_of_neg (by rw [hlow]; decide)] at hfirst
              rw [readHexPairs, hv, hw]
              exact readHexPairs_of_other hlength hfirst _

/-! ## 3. Texts -/

theorem decodeHex_of_odd {text : String} (h : (hexBytes text).length % 2 ≠ 0) :
    decodeHex text = .error .oddLength := by
  unfold decodeHex
  rw [← hexBytes_eq]
  exact if_neg h

theorem decodeHex_of_even {text : String} (h : (hexBytes text).length % 2 = 0) :
    decodeHex text = readHexPairs [] (hexBytes text) := by
  unfold decodeHex
  rw [← hexBytes_eq]
  exact if_pos h

theorem decodeHex_eq_ok {text : String} {bytes : List UInt8} (h : decodeHex text = .ok bytes) :
    (∀ b ∈ hexBytes text, isHexDigit b = true) ∧
      encodeHex bytes = (hexBytes text).map lowerDigit := by
  have heven : (hexBytes text).length % 2 = 0 := by
    by_contra hodd
    rw [decodeHex_of_odd hodd] at h
    cases h
  rw [decodeHex_of_even heven] at h
  have hdigits : ∀ b ∈ hexBytes text, isHexDigit b = true := by
    cases hfirst : (hexBytes text).find? (!isHexDigit ·) with
    | none => simpa using hfirst
    | some b =>
        rw [readHexPairs_of_other heven hfirst] at h
        cases h
  obtain ⟨bytes', hread, hwritten⟩ := readHexPairs_of_digits heven hdigits
  have hbytes : bytes' = bytes := Except.ok.inj ((hread []).symm.trans h)
  exact ⟨hdigits, hbytes ▸ hwritten⟩

theorem exists_decodeHex {text : String} (hlength : (hexBytes text).length % 2 = 0)
    (hdigits : ∀ b ∈ hexBytes text, isHexDigit b = true) : ∃ bytes, decodeHex text = .ok bytes := by
  obtain ⟨bytes, hread, -⟩ := readHexPairs_of_digits hlength hdigits
  exact ⟨bytes, (decodeHex_of_even hlength).trans (hread [])⟩

theorem length_decodeHex {text : String} {bytes : List UInt8} (h : decodeHex text = .ok bytes) :
    (hexBytes text).length = 2 * bytes.length := by
  rw [← length_encodeHex, (decodeHex_eq_ok h).2, List.length_map]

/-- **What is wrong with a text**: its length, or the first byte that is no digit. -/
theorem decodeHex_eq_error {text : String} {f : HexFault} (h : decodeHex text = .error f) :
    ((hexBytes text).length % 2 = 1 ∧ f = .oddLength) ∨
      ((hexBytes text).length % 2 = 0 ∧
        ∃ b, (hexBytes text).find? (!isHexDigit ·) = some b ∧ f = .invalidDigit b) := by
  by_cases heven : (hexBytes text).length % 2 = 0
  · refine .inr ⟨heven, ?_⟩
    cases hfirst : (hexBytes text).find? (!isHexDigit ·) with
    | none =>
        obtain ⟨bytes, hbytes⟩ := exists_decodeHex heven (by simpa using hfirst)
        rw [hbytes] at h
        cases h
    | some b =>
        rw [decodeHex_of_even heven, readHexPairs_of_other heven hfirst] at h
        exact ⟨b, rfl, (Except.error.inj h).symm⟩
  · rw [decodeHex_of_odd heven] at h
    exact .inl ⟨by omega, (Except.error.inj h).symm⟩

/-- The two messages do not even start alike. -/
theorem message_invalidDigit_ne (b : UInt8) :
    (HexFault.invalidDigit b).message ≠ HexFault.oddLength.message := by
  intro h
  have htext : HexFault.oddLength.message.toList =
      "invalid hex digit '".toList ++ (String.singleton (Char.ofNat b.toNat) ++ "'").toList := by
    rw [← h, ← String.toList_append, ← String.append_assoc]
    rfl
  have hodd : HexFault.oddLength.message.toList.head? = some 'o' := by decide
  have hinvalid : "invalid hex digit '".toList.head? = some 'i' := by decide
  have hfirst := congrArg List.head? htext
  rw [List.head?_append, hodd, hinvalid, Option.some_or] at hfirst
  exact absurd (Option.some.inj hfirst) (by decide)

end Text

theorem Source.decode?_eq_some_iff {bytes : List UInt8} {s : Source} :
    decode? bytes = some s ↔ bytes = s.encode := by
  constructor
  · intro h
    have hlength : bytes.length % 4 = 0 := by
      by_contra hragged
      rw [decode?, decodeFrom_eq_none _ hragged] at h
      cases h
    obtain ⟨t, rfl⟩ := exists_encode hlength
    rw [decode?_encode] at h
    cases h
    rfl
  · intro h
    rw [h]
    exact decode?_encode s

namespace Text

/-- **Stored code in base 16.** Let the digits of a text be its bytes without blanks of ASCII and
underscores.

* Code is read from a text if and only if all of these are digits and their number is a multiple of
  eight. The source that it is of is written with the same digits, in lower case;
* if the bytes of a text cannot be read, this is for an odd number of digits if their number is odd,
  and otherwise for the first of them that is none;
* each source is read back from the text that it is written as. -/
theorem hex_format :
    (∀ text : String,
      ((∃ bytes s, decodeHex text = .ok bytes ∧ Source.decode? bytes = some s) ↔
        (∀ b ∈ hexBytes text, isHexDigit b = true) ∧ 8 ∣ (hexBytes text).length) ∧
      (∀ bytes s, decodeHex text = .ok bytes → Source.decode? bytes = some s →
        encodeHex s.encode = (hexBytes text).map lowerDigit) ∧
      ∀ f, decodeHex text = .error f →
        (f.message = "odd number of hex digits" ↔ (hexBytes text).length % 2 = 1) ∧
        ((hexBytes text).length % 2 = 0 →
          ∃ b, (hexBytes text).find? (!isHexDigit ·) = some b ∧ f.message =
            "invalid hex digit '" ++ String.singleton (Char.ofNat b.toNat) ++ "'")) ∧
    ∀ s : Source, ∃ bytes, decodeHex (String.ofList (encodeHex s.encode)) = .ok bytes ∧
      Source.decode? bytes = some s := by
  refine ⟨fun text => ⟨⟨?_, ?_⟩, ?_, ?_⟩, fun s => ?_⟩
  · rintro ⟨bytes, s, hbytes, hs⟩
    have hlength : bytes.length = 4 * s.length := by
      rw [Source.decode?_eq_some_iff.1 hs, Source.length_encode]
    have hdouble := length_decodeHex hbytes
    exact ⟨(decodeHex_eq_ok hbytes).1, by omega⟩
  · rintro ⟨hdigits, height⟩
    obtain ⟨bytes, hbytes⟩ := exists_decodeHex (by omega) hdigits
    have hdouble := length_decodeHex hbytes
    obtain ⟨s, hs⟩ := Source.exists_encode (by omega : bytes.length % 4 = 0)
    exact ⟨bytes, s, hbytes, Source.decode?_eq_some_iff.2 hs⟩
  · intro bytes s hbytes hs
    rw [← Source.decode?_eq_some_iff.1 hs]
    exact (decodeHex_eq_ok hbytes).2
  · intro f hf
    rcases decodeHex_eq_error hf with ⟨hodd, rfl⟩ | ⟨heven, b, hfirst, rfl⟩
    · exact ⟨⟨fun _ => hodd, fun _ => rfl⟩, fun heven => by omega⟩
    · refine ⟨⟨fun hmessage => ?_, fun hodd => by omega⟩, fun _ => ⟨b, hfirst, rfl⟩⟩
      exact absurd hmessage (message_invalidDigit_ne b)
  · exact ⟨s.encode, decodeHex_encodeHex s.encode, Source.decode?_encode s⟩

-- fillers stand anywhere, also inside a pair
example : decodeHex "00_0C\t0 0\x0c02\r\n" = .ok [0, 12, 0, 2] := by decide +kernel

-- the vertical tab is none of them
example : decodeHex "00\x0b0" = .error (.invalidDigit 11) := by decide +kernel

end Text

end WordMachine
