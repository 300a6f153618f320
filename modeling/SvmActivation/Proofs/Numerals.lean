import Mathlib.Data.List.DropRight
import Mathlib.Data.Nat.Digits.Defs
import SvmActivation.Text

namespace SvmActivation.Text

namespace Radix

variable (radix : Radix)

def alphabet : List Char :=
  ['0', '1', '2', '3', '4', '5', '6', '7', '8', '9', 'a', 'b', 'c', 'd', 'e', 'f'].take radix.base

def digit? (c : Char) : Option Nat :=
  radix.alphabet.idxOf? c

def extend? (n : Nat) (text : List Char) : Option Nat :=
  text.foldlM (fun n c => (radix.digit? c).map (radix.base * n + ·)) n

/-- The number that a run of digits stands for; nothing but digits is read. -/
def read? (text : List Char) : Option Nat :=
  if text = [] then none else radix.extend? 0 text

theorem one_lt_base : 1 < radix.base := by
  cases radix <;> decide

theorem digit?_digitChar {d : Nat} (h : d < radix.base) : radix.digit? d.digitChar = some d := by
  have hall : ∀ d < radix.base, radix.digit? d.digitChar = some d := by
    cases radix <;> decide
  exact hall d h

theorem digits_ne_nil (n : Nat) : radix.digits n ≠ [] :=
  Nat.toDigits_ne_nil

theorem head?_digits {n : Nat} (h : n ≠ 0) : (radix.digits n).head? ≠ some '0' := by
  induction n using Nat.strongRecOn with
  | ind n ih =>
    rw [digits, Nat.toDigits_eq_if radix.one_lt_base]
    split
    · rw [List.head?_singleton, ne_eq, Option.some.injEq, Nat.digitChar_eq_zero]
      exact h
    · rename_i hle
      have hpos : 0 < n / radix.base :=
        Nat.div_pos (Nat.le_of_not_lt hle) (Nat.lt_of_succ_lt radix.one_lt_base)
      rw [List.head?_append_of_ne_nil _ Nat.toDigits_ne_nil]
      exact ih _ (Nat.div_lt_self (Nat.pos_of_ne_zero h) radix.one_lt_base) (Nat.ne_of_gt hpos)

theorem extend?_cons (n : Nat) (c : Char) (rest : List Char) :
    radix.extend? n (c :: rest) =
      (radix.digit? c).bind fun d => radix.extend? (radix.base * n + d) rest := by
  rw [extend?, List.foldlM_cons]
  exact Option.bind_map

variable {radix} {text : List Char}

theorem read?_concat (h : text ≠ []) (c : Char) :
    radix.read? (text ++ [c]) =
      (radix.read? text).bind fun n => (radix.digit? c).map (radix.base * n + ·) := by
  rw [read?, if_neg (List.concat_ne_nil c text), read?, if_neg h, extend?, List.foldlM_append]
  simp only [List.foldlM_cons, List.foldlM_nil, bind_pure]
  rfl

theorem read?_zeros (h : text ≠ []) (k : Nat) :
    radix.read? (List.replicate k '0' ++ text) = radix.read? text := by
  have hzero : radix.digit? '0' = some 0 :=
    radix.digit?_digitChar (Nat.lt_of_succ_lt radix.one_lt_base)
  induction k with
  | zero => rfl
  | succ k ih =>
    have hne : List.replicate k '0' ++ text ≠ [] := List.append_ne_nil_of_right_ne_nil _ h
    rw [← ih, read?, read?, if_neg hne, List.replicate_succ, List.cons_append,
      if_neg (List.cons_ne_nil _ _), extend?_cons, hzero]
    rfl

theorem mem_alphabet_of_extend? {start n : Nat} (h : radix.extend? start text = some n) {c : Char}
    (hc : c ∈ text) : c ∈ radix.alphabet := by
  induction text generalizing start with
  | nil => cases hc
  | cons first rest ih =>
    rw [extend?_cons] at h
    obtain ⟨d, hd, hrest⟩ := Option.bind_eq_some_iff.1 h
    rcases List.mem_cons.1 hc with rfl | hc
    · rw [← List.isSome_idxOf?]
      exact Option.isSome_of_eq_some hd
    · exact ih hrest hc

theorem mem_alphabet_of_read? {n : Nat} (h : radix.read? text = some n) {c : Char}
    (hc : c ∈ text) : c ∈ radix.alphabet := by
  rw [read?] at h
  split at h
  · cases h
  · exact mem_alphabet_of_extend? h hc

variable (radix)

theorem read?_digits (n : Nat) : radix.read? (radix.digits n) = some n := by
  induction n using Nat.strongRecOn with
  | ind n ih =>
    rw [digits, Nat.toDigits_eq_if radix.one_lt_base]
    split
    · rename_i hlt
      rw [read?, if_neg (List.cons_ne_nil _ _), extend?_cons, radix.digit?_digitChar hlt]
      simp [extend?]
    · rename_i hle
      have hbase := radix.one_lt_base
      have hpos : 0 < n := by omega
      have hquotient : radix.read? (radix.digits (n / radix.base)) = some (n / radix.base) :=
        ih _ (Nat.div_lt_self hpos hbase)
      have hdigit : radix.digit? (n % radix.base).digitChar = some (n % radix.base) :=
        radix.digit?_digitChar (Nat.mod_lt _ (Nat.lt_of_succ_lt hbase))
      rw [read?_concat Nat.toDigits_ne_nil, ← digits, hquotient, hdigit]
      simp [Nat.div_add_mod]

end Radix

variable {radix : Radix} {width n : Nat}

theorem length_padded (hwidth : 0 < width) (h : n < radix.base ^ width) :
    (padded width radix n).length = width := by
  have hdigits : (radix.digits n).length ≤ width :=
    (Nat.length_toDigits_le_iff radix.one_lt_base hwidth).2 h
  rw [padded, String.length_ofList, List.length_leftpad]
  omega

theorem read?_padded (width : Nat) (radix : Radix) (n : Nat) :
    radix.read? (padded width radix n).toList = some n := by
  rw [padded, String.toList_ofList, List.leftpad, Radix.read?_zeros (radix.digits_ne_nil n),
    radix.read?_digits]

theorem toList_hex (n : Nat) : (hex n).toList = '0' :: 'x' :: Radix.hexadecimal.digits n := by
  rw [hex, String.toList_append, String.toList_ofList]
  rfl

def readHex? (text : List Char) : Option Nat :=
  (text.dropPrefix? ['0', 'x']).bind Radix.hexadecimal.read?

theorem readHex?_hex (n : Nat) : readHex? (hex n).toList = some n := by
  have hmark : (['0', 'x'] ++ Radix.hexadecimal.digits n).dropPrefix? ['0', 'x'] =
      some (Radix.hexadecimal.digits n) :=
    List.dropPrefix?_append_of_beq _ (beq_self_eq_true _)
  rw [readHex?, toList_hex]
  exact (congrArg (·.bind Radix.hexadecimal.read?) hmark).trans (Radix.hexadecimal.read?_digits n)

namespace NumberLayout

def strip (fill : Char) (text : List Char) : List Char :=
  (text.dropWhile (· = fill)).rdropWhile (· = fill)

theorem dropWhile_filler {fill : Char} {text : List Char} (h : text.head? ≠ some fill) (k : Nat) :
    (List.replicate k fill ++ text).dropWhile (· = fill) = text := by
  rw [List.dropWhile_append_of_pos (by simp)]
  cases text with
  | nil => rfl
  | cons c rest =>
    apply List.dropWhile_cons_of_neg
    simpa using h

theorem strip_filled {fill : Char} {text : List Char} (hne : text ≠ []) (h : fill ∉ text)
    (k l : Nat) : strip fill (List.replicate k fill ++ text ++ List.replicate l fill) = text := by
  have hhead : (text ++ List.replicate l fill).head? ≠ some fill := by
    rw [List.head?_append_of_ne_nil _ hne]
    intro hhead
    exact h (List.mem_of_head? hhead)
  have hlast : text.reverse.head? ≠ some fill := by
    intro hhead
    exact h (List.mem_reverse.1 (List.mem_of_head? hhead))
  rw [strip, List.append_assoc, dropWhile_filler hhead, List.rdropWhile, List.reverse_append,
    List.reverse_replicate, dropWhile_filler hlast, List.reverse_reverse]

variable (layout : NumberLayout)

def unpadded : NumberLayout :=
  { layout with width := 0 }

/-- The filler cannot be taken for a part of a number. -/
def Legible : Prop :=
  layout.zeroFilled = true ∨ layout.fill ∉ layout.lead ++ layout.radix.alphabet

instance : Decidable layout.Legible :=
  inferInstanceAs (Decidable (_ ∨ _))

/-- The number that a text shows, without the filler around it and the lead in front of it. -/
def read? (text : String) : Option Nat :=
  let shown := if layout.zeroFilled then text.toList else strip layout.fill text.toList
  (shown.dropPrefix? layout.lead).bind layout.radix.read?

/-- A text shows a number in a layout. -/
structure Shows (text : String) (n : Nat) : Prop where
  parts : ∃ before digits after,
    text.toList = List.replicate before layout.fill ++ (layout.lead ++ digits) ++
      List.replicate after layout.fill ∧
    layout.radix.read? digits = some n
  length : text.length = max layout.width (layout.unpadded.render n).length
  reads : layout.Legible → layout.read? text = some n

variable (n : Nat)

theorem chars_eq :
    ∃ before zeros after,
      layout.chars n = List.replicate before layout.fill ++
        (layout.lead ++ (List.replicate zeros '0' ++ layout.digits n)) ++
        List.replicate after layout.fill ∧
      before + zeros + after = layout.gap n ∧
      (layout.zeroFilled = true → before = 0 ∧ after = 0) := by
  rw [chars]
  cases hzero : layout.zeroFilled with
  | true => exact ⟨0, layout.gap n, 0, by simp, by simp, fun _ => ⟨rfl, rfl⟩⟩
  | false =>
    have hsplit (before : Nat) (h : before ≤ layout.gap n) :
        before + 0 + (layout.gap n - before) = layout.gap n := by
      rw [Nat.add_zero, Nat.add_sub_cancel' h]
    refine ⟨_, 0, _, rfl, hsplit _ ?_, nofun⟩
    cases layout.alignment with
    | left => exact Nat.zero_le _
    | centre => exact Nat.div_le_self _ _
    | right => exact Nat.le_refl _

theorem length_chars :
    (layout.chars n).length = layout.lead.length + (layout.digits n).length + layout.gap n := by
  obtain ⟨before, zeros, after, hchars, hgap, -⟩ := layout.chars_eq n
  rw [hchars, ← hgap]
  simp only [List.length_append, List.length_replicate]
  omega

theorem length_render :
    (layout.render n).length = max layout.width (layout.unpadded.render n).length := by
  have hgap : layout.unpadded.gap n = 0 := Nat.zero_sub _
  have hunpadded : (layout.unpadded.chars n).length =
      layout.lead.length + (layout.digits n).length := by
    rw [length_chars, hgap]
    rfl
  rw [render, render, String.length_ofList, String.length_ofList, hunpadded, length_chars, gap]
  omega

variable {n} in
/-- A number that can be told from its filler is read. -/
theorem read?_of_parts (h : layout.Legible) {digits : List Char} {before after : Nat}
    {text : String} (htext : text.toList = List.replicate before layout.fill ++
      (layout.lead ++ digits) ++ List.replicate after layout.fill)
    (hzero : layout.zeroFilled = true → before = 0 ∧ after = 0)
    (hread : layout.radix.read? digits = some n) : layout.read? text = some n := by
  have hlead : (layout.lead ++ digits).dropPrefix? layout.lead = some digits :=
    List.dropPrefix?_append_of_beq _ (beq_self_eq_true _)
  have hshown : (if layout.zeroFilled then text.toList else strip layout.fill text.toList) =
      layout.lead ++ digits := by
    rw [htext]
    split
    · rename_i hfilled
      obtain ⟨rfl, rfl⟩ := hzero hfilled
      simp
    · rename_i hfilled
      have hne : layout.lead ++ digits ≠ [] := by
        apply List.append_ne_nil_of_right_ne_nil
        rintro rfl
        cases hread
      have hfill : layout.fill ∉ layout.lead ++ digits := by
        intro hmem
        apply h.resolve_left hfilled
        rcases List.mem_append.1 hmem with hmem | hmem
        · exact List.mem_append_left _ hmem
        · exact List.mem_append_right _ (Radix.mem_alphabet_of_read? hread hmem)
      exact strip_filled hne hfill before after
  rw [read?, hshown, hlead]
  exact hread

theorem shows_render (h : layout.uppercase = false) : layout.Shows (layout.render n) n := by
  obtain ⟨before, zeros, after, hchars, -, hzero⟩ := layout.chars_eq n
  have hdigits : layout.digits n = layout.radix.digits n := by
    rw [digits, h]
    rfl
  have hread : layout.radix.read? (List.replicate zeros '0' ++ layout.digits n) = some n := by
    rw [hdigits, Radix.read?_zeros (layout.radix.digits_ne_nil n), layout.radix.read?_digits]
  have htext : (layout.render n).toList = layout.chars n := String.toList_ofList
  rw [hchars] at htext
  constructor
  case parts => exact ⟨before, _, after, htext, hread⟩
  case length => exact layout.length_render n
  case reads => exact fun hlegible => layout.read?_of_parts hlegible htext hzero hread

/-- A filler that is a digit hides where a number begins. -/
example : ({ fill := 'a', width := 8 } : NumberLayout).render 0xa =
    ({ fill := 'a', width := 8 } : NumberLayout).render 0xaa := by decide

end NumberLayout

end SvmActivation.Text
