import SvmActivation.Proofs.NumberStyles
import SvmActivation.Register

namespace SvmActivation

namespace Text

theorem RecordStyle.cases_of_readRadix {style record : RecordStyle} {ending : List Char}
    (h : style.readRadix ending = some record) :
    ending = ['?'] ∨ ending = ['x', '?'] ∨ ending = ['X', '?'] := by
  rw [readRadix.eq_def] at h
  split at h
  · exact .inl rfl
  · exact .inr (.inl rfl)
  · exact .inr (.inr rfl)
  · cases h

theorem RecordStyle.parse?_eq_none_of_number {style : List Char} {layout : NumberLayout}
    (h : NumberLayout.parse? style = some layout) : RecordStyle.parse? style = none := by
  rw [← Option.not_isSome_iff_eq_none]
  intro hsome
  obtain ⟨record, hrecord⟩ := Option.isSome_iff_exists.1 hsome
  have hnone : NumberLayout.parse? style = none := by
    rw [RecordStyle.parse?.eq_def] at hrecord
    split at hrecord
    · rcases RecordStyle.cases_of_readRadix hrecord with rfl | rfl | rfl <;> rfl
    · rcases RecordStyle.cases_of_readRadix hrecord with rfl | rfl | rfl <;> rfl
  rw [hnone] at h
  cases h

end Text

namespace Register

open Text

section Halves

variable (high low : Half) (r : Register)

theorem high_ofHalves : (ofHalves high low).high = high :=
  BitVec.extractLsb'_append_eq_left

theorem low_ofHalves : (ofHalves high low).low = low :=
  BitVec.extractLsb'_append_eq_right

theorem ofHalves_high_low : ofHalves r.high r.low = r := by
  have hstart : 32 = 0 + 32 := rfl
  have hjoined : r.bits.extractLsb' 32 32 ++ r.bits.extractLsb' 0 32 = r.bits := by
    rw [BitVec.extractLsb'_append_extractLsb'_eq_extractLsb' hstart]
    exact BitVec.extractLsb'_eq_self
  exact Register.ext hjoined

theorem bit_ofHalves (i : Nat) :
    (ofHalves high low).bit i =
      if i < 32 then .ok (low.getLsbD i)
      else if i < 64 then .ok (high.getLsbD (i - 32))
      else .error .noSuchBit := by
  rw [bit, ofHalves, BitVec.getLsbD_append]
  by_cases hlow : i < 32
  · rw [if_pos hlow, if_pos hlow, if_pos (by omega)]
  · rw [if_neg hlow, if_neg hlow]

end Halves

variable (r : Register)

theorem toList_text :
    r.text.toList =
      '0' :: 'x' :: (padded 8 .hexadecimal r.high.toNat).toList ++
        ':' :: (padded 8 .hexadecimal r.low.toNat).toList := by
  simp [text, hex32, Radix.mark]

theorem length_half (half : Half) : (padded 8 .hexadecimal half.toNat).toList.length = 8 := by
  rw [String.length_toList]
  exact length_padded (by decide) half.isLt

theorem half_eq_of_padded_eq {half other : Half}
    (h : padded 8 .hexadecimal half.toNat = padded 8 .hexadecimal other.toNat) : half = other := by
  have hread := congrArg (fun text => Radix.hexadecimal.read? text.toList) h
  simp only [read?_padded, Option.some.injEq] at hread
  exact BitVec.eq_of_toNat_eq hread

/-- Registers with the same text are the same. -/
theorem text_injective : Function.Injective text := by
  intro r other h
  have hlists := congrArg String.toList h
  rw [toList_text, toList_text, List.cons_append, List.cons_append, List.cons_append,
    List.cons_append, List.cons_inj_right, List.cons_inj_right] at hlists
  obtain ⟨hhigh, hlow⟩ := List.append_inj hlists (by rw [length_half, length_half])
  rw [← ofHalves_high_low r, ← ofHalves_high_low other,
    half_eq_of_padded_eq (String.toList_injective hhigh),
    half_eq_of_padded_eq (String.toList_injective (List.cons_inj_right _ |>.1 hlow))]

theorem format?_hexStyle (style : HexStyle) :
    r.format? style.written = some (style.layout.render r.bits.toNat) := by
  have hnumber := style.parse?_written
  rw [format?, RecordStyle.parse?_eq_none_of_number hnumber, hnumber]
  rfl

/-- The halves, the bits and the texts of a register tell everything about it. -/
theorem halves_bits_texts_faithful (high low : Half) :
    ((ofHalves high low).high = high ∧ (ofHalves high low).low = low ∧
      ofHalves r.high r.low = r) ∧
    (∀ i, (ofHalves high low).bit i =
      if i < 32 then .ok (low.getLsbD i)
      else if i < 64 then .ok (high.getLsbD (i - 32))
      else .error .noSuchBit) ∧
    ["?", "#?", "x?", "#x?", "X?"].map (fun style => r.format? style.toList) =
      List.replicate 5 (some r.text) ∧
    (r.text.length = 19 ∧
      ∃ highDigits lowDigits, r.text.toList = '0' :: 'x' :: highDigits ++ ':' :: lowDigits ∧
        highDigits.length = 8 ∧ lowDigits.length = 8 ∧
        highDigits ++ lowDigits ⊆ "0123456789abcdef".toList ∧
        Radix.hexadecimal.read? highDigits = some r.high.toNat ∧
        Radix.hexadecimal.read? lowDigits = some r.low.toNat) ∧
    (∀ other : Register, other.text = r.text ↔ other = r) ∧
    ∀ style : HexStyle, ∃ text, r.format? style.written = some text ∧
      style.layout.Shows text r.bits.toNat := by
  have hhigh := read?_padded 8 .hexadecimal r.high.toNat
  have hlow := read?_padded 8 .hexadecimal r.low.toNat
  refine ⟨⟨high_ofHalves high low, low_ofHalves high low, r.ofHalves_high_low⟩,
    bit_ofHalves high low, rfl, ⟨?_, _, _, r.toList_text, length_half r.high, length_half r.low, ?_,
      hhigh, hlow⟩, fun other => text_injective.eq_iff, ?_⟩
  · rw [← String.length_toList, toList_text]
    simp [length_half]
  · intro c hc
    rcases List.mem_append.1 hc with hc | hc
    · exact Radix.mem_alphabet_of_read? hhigh hc
    · exact Radix.mem_alphabet_of_read? hlow hc
  · intro style
    exact ⟨_, r.format?_hexStyle style, style.layout.shows_render _ rfl⟩

example : (⟨0x1f⟩ : Register).format? "*^#24x".toList = some "**********0x1f**********" := by decide

end Register

end SvmActivation
