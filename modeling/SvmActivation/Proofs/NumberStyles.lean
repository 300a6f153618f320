import SvmActivation.Proofs.Numerals

namespace SvmActivation.Text

inductive Placement where
  | unsaid
  | aligned (alignment : Alignment)
  | filled (fill : Char) (alignment : Alignment)
  deriving DecidableEq, Repr

def Alignment.sign : Alignment → Char
  | left => '<'
  | centre => '^'
  | right => '>'

namespace Placement

def written : Placement → List Char
  | unsaid => []
  | aligned alignment => [alignment.sign]
  | filled fill alignment => [fill, alignment.sign]

def layout : Placement → NumberLayout
  | unsaid => {}
  | aligned alignment => { alignment }
  | filled fill alignment => { fill, alignment }

end Placement

/-- What a style for lowercase hexadecimal numbers can ask for; a width of zero is not written. -/
structure HexStyle where
  placement : Placement := .unsaid
  plus : Bool := false
  marked : Bool := false
  zeroFilled : Bool := false
  width : Nat := 0
  deriving DecidableEq, Repr

namespace HexStyle

def mark (c : Char) (present : Bool) : List Char :=
  if present then [c] else []

def widthDigits (width : Nat) : List Char :=
  if width = 0 then [] else Radix.decimal.digits width

variable (style : HexStyle)

def ending : List Char :=
  mark '0' style.zeroFilled ++ (widthDigits style.width ++ ['x'])

def marks : List Char :=
  mark '+' style.plus ++ (mark '#' style.marked ++ style.ending)

def written : List Char :=
  style.placement.written ++ style.marks

def layout : NumberLayout :=
  { style.placement.layout with
    radix := .hexadecimal
    uppercase := false
    plus := style.plus
    marked := style.marked
    zeroFilled := style.zeroFilled
    width := style.width }

end HexStyle

namespace NumberLayout

theorem readMark_mark {c : Char} {rest : List Char} (h : rest.head? ≠ some c) (present : Bool) :
    readMark c (HexStyle.mark c present ++ rest) = (present, rest) := by
  cases present with
  | true => simp [HexStyle.mark, readMark]
  | false =>
    cases rest with
    | nil => rfl
    | cons first rest =>
      have hne : first ≠ c := by simpa using h
      simp [HexStyle.mark, readMark, hne]

theorem readAlignment_written (placement : Placement) {rest : List Char}
    (h : ∀ c ∈ rest, Alignment.ofChar? c = none) :
    readAlignment {} (placement.written ++ rest) = (placement.layout, rest) := by
  cases placement with
  | unsaid =>
    cases rest with
    | nil => rfl
    | cons first rest =>
      have hfirst := h first List.mem_cons_self
      cases rest with
      | nil => simp [Placement.written, readAlignment, hfirst, Placement.layout]
      | cons second rest =>
        have hsecond := h second (List.mem_cons_of_mem _ List.mem_cons_self)
        simp [Placement.written, readAlignment, hfirst, hsecond, Placement.layout]
  | aligned alignment =>
    have hsign : Alignment.ofChar? alignment.sign = some alignment := by
      cases alignment <;> rfl
    cases rest with
    | nil => simp [Placement.written, readAlignment, hsign, Placement.layout]
    | cons first rest =>
      have hfirst := h first List.mem_cons_self
      simp [Placement.written, readAlignment, hsign, hfirst, Placement.layout]
  | filled fill alignment =>
    have hsign : Alignment.ofChar? alignment.sign = some alignment := by
      cases alignment <;> rfl
    simp [Placement.written, readAlignment, hsign, Placement.layout]

theorem decimalValue_widthDigits (width : Nat) :
    decimalValue (HexStyle.widthDigits width) = width := by
  rw [HexStyle.widthDigits]
  split
  · rename_i hzero
    exact hzero.symm
  · have hvalue : Nat.ofDigitChars 10 (Radix.decimal.digits width) 0 = width :=
      Nat.ofDigitChars_ten_toDigits
    rw [Nat.ofDigitChars_eq_foldl] at hvalue
    exact hvalue

end NumberLayout

namespace HexStyle

theorem mem_decimal_of_mem_widthDigits {width : Nat} {c : Char} (h : c ∈ widthDigits width) :
    c ∈ Radix.decimal.alphabet := by
  rw [widthDigits] at h
  split at h
  · cases h
  · exact Radix.mem_alphabet_of_read? (Radix.decimal.read?_digits width) h

theorem head?_widthDigits (width : Nat) :
    (widthDigits width ++ ['x']).head? ≠ some '0' := by
  rw [widthDigits]
  split
  · decide
  · rename_i hwidth
    rw [List.head?_append_of_ne_nil _ (Radix.decimal.digits_ne_nil width)]
    exact Radix.decimal.head?_digits hwidth

variable (style : HexStyle)

theorem eq_of_mem_mark {c d : Char} {present : Bool} (h : c ∈ mark d present) : c = d := by
  cases present with
  | true => exact List.mem_singleton.1 h
  | false => cases h

theorem mem_ending {c : Char} (h : c ∈ style.ending) : c ∈ 'x' :: Radix.decimal.alphabet := by
  rcases List.mem_append.1 h with hzero | h
  · rw [eq_of_mem_mark hzero]
    decide
  rcases List.mem_append.1 h with hwidth | hletter
  · exact List.mem_cons_of_mem _ (mem_decimal_of_mem_widthDigits hwidth)
  · rw [List.mem_singleton.1 hletter]
    exact List.mem_cons_self

theorem ofChar?_of_mem_marks {c : Char} (h : c ∈ style.marks) : Alignment.ofChar? c = none := by
  have hending : ('x' :: Radix.decimal.alphabet).all (Alignment.ofChar? · |>.isNone) = true := by
    decide
  rcases List.mem_append.1 h with hplus | h
  · rw [eq_of_mem_mark hplus]
    rfl
  rcases List.mem_append.1 h with hmarked | h
  · rw [eq_of_mem_mark hmarked]
    rfl
  · exact Option.isNone_iff_eq_none.1 (List.all_eq_true.1 hending c (style.mem_ending h))

theorem head?_ending : style.ending.head? ≠ some '#' := by
  intro h
  have hmem := style.mem_ending (List.mem_of_head? h)
  revert hmem
  decide

theorem head?_marked : (mark '#' style.marked ++ style.ending).head? ≠ some '+' := by
  intro h
  rcases List.mem_append.1 (List.mem_of_head? h) with hmem | hmem
  · cases eq_of_mem_mark hmem
  · have hending := style.mem_ending hmem
    revert hending
    decide

theorem parse?_written : NumberLayout.parse? style.written = some style.layout := by
  have hdigit : ∀ c ∈ widthDigits style.width, c.isDigit = true := by
    have hall : Radix.decimal.alphabet.all Char.isDigit = true := by decide
    exact fun c hc => List.all_eq_true.1 hall c (mem_decimal_of_mem_widthDigits hc)
  have htake : (widthDigits style.width ++ ['x']).takeWhile Char.isDigit =
      widthDigits style.width := by
    rw [List.takeWhile_append_of_pos hdigit, List.takeWhile_cons_of_neg (by decide),
      List.append_nil]
  have hdrop : (widthDigits style.width ++ ['x']).dropWhile Char.isDigit = ['x'] := by
    rw [List.dropWhile_append_of_pos hdigit, List.dropWhile_cons_of_neg (by decide)]
  rw [NumberLayout.parse?, written,
    NumberLayout.readAlignment_written _ fun c hc => style.ofChar?_of_mem_marks hc]
  simp only [marks, NumberLayout.readMark_mark style.head?_marked,
    NumberLayout.readMark_mark style.head?_ending]
  simp only [ending, NumberLayout.readMark_mark (head?_widthDigits style.width), htake, hdrop,
    NumberLayout.decimalValue_widthDigits]
  rw [NumberLayout.readRadix, layout]
  cases style.placement <;> rfl

end HexStyle

end SvmActivation.Text
