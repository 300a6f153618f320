import Mathlib.Data.Nat.Digits.Defs
import SvmActivation.Machine.Memory

namespace SvmActivation

namespace Word

theorem toNat_append_byte {n : Nat} (high : BitVec n) (low : Byte) :
    (high ++ low).toNat = low.toNat + 256 * high.toNat := by
  rw [BitVec.toNat_append, ← Nat.shiftLeft_add_eq_or_of_lt low.isLt, Nat.shiftLeft_eq]
  omega

theorem toNat_ofBytes (bytes : Nat → Byte) :
    (ofBytes bytes).toNat = Nat.ofDigits 256 ((List.range 8).map fun i => (bytes i).toNat) := by
  simp only [ofBytes, toNat_append_byte]
  rfl

theorem toNat_byte (w : Word) (i : Nat) : (w.byte i).toNat = w.toNat / 256 ^ i % 256 := by
  have hbase : 2 ^ (8 * i) = 256 ^ i := Nat.pow_mul 2 8 i
  rw [byte, BitVec.extractLsb'_toNat, Nat.shiftRight_eq_div_pow, hbase]

theorem byte_ofBytes (bytes : Nat → Byte) {i : Nat} (h : i < 8) :
    (ofBytes bytes).byte i = bytes i := by
  let digits : List Nat := (List.range 8).map fun k => (bytes k).toNat
  have hlt : ∀ d ∈ digits, d < 256 := by
    intro d hd
    obtain ⟨k, -, rfl⟩ := List.mem_map.1 hd
    exact (bytes k).isLt
  have hdrop : digits.drop i = (bytes i).toNat :: digits.drop (i + 1) := by
    rw [List.drop_eq_getElem_cons (by simpa [digits] using h)]
    simp [digits]
  apply BitVec.eq_of_toNat_eq
  rw [toNat_byte, toNat_ofBytes, Nat.ofDigits_div_pow_eq_ofDigits_drop i (by decide) digits hlt,
    hdrop, Nat.ofDigits_cons, Nat.add_mul_mod_self_left]
  exact Nat.mod_eq_of_lt (bytes i).isLt

theorem eq_of_byte_eq {w w' : Word} (h : ∀ i < 8, w.byte i = w'.byte i) : w = w' := by
  apply BitVec.eq_of_getLsbD_eq
  intro i hi
  have hbit (w : Word) : w.getLsbD i = (w.byte (i / 8)).getLsbD (i % 8) := by
    rw [byte, BitVec.getLsbD_extractLsb', Nat.div_add_mod, decide_eq_true (Nat.mod_lt i (by decide)),
      Bool.true_and]
  rw [hbit, hbit, h (i / 8) (by omega)]

end Word

namespace PageBytes

variable (bytes : PageBytes) (offset : Nat)

/-- The number whose digits to the base 256 are eight bytes of a page, the lowest first. -/
def littleEndian : Nat :=
  Nat.ofDigits 256 ((List.range 8).map fun i => (bytes (offset + i)).toNat)

theorem toNat_loadWord : (bytes.loadWord offset).toNat = bytes.littleEndian offset :=
  Word.toNat_ofBytes fun i => bytes (offset + i)

theorem byte_loadWord {i : Nat} (h : i < 8) :
    (bytes.loadWord offset).byte i = bytes (offset + i) :=
  Word.byte_ofBytes (fun i => bytes (offset + i)) h

variable {bytes offset} {other : PageBytes}

theorem loadWord_congr (h : ∀ i < 8, bytes (offset + i) = other (offset + i)) :
    bytes.loadWord offset = other.loadWord offset := by
  apply Word.eq_of_byte_eq
  intro i hi
  rw [byte_loadWord _ _ hi, byte_loadWord _ _ hi, h i hi]

end PageBytes

inductive PageWrite where
  | word (offset : Nat) (w : Word)
  | byte (offset : Nat) (b : Byte)
  deriving DecidableEq, Repr

namespace PageWrite

def byte? (place : Nat) : PageWrite → Option Byte
  | word offset w =>
    if offset ≤ place ∧ place < offset + 8 then
      some (.ofNat 8 (w.toNat / 256 ^ (place - offset)))
    else none
  | byte offset b => if place = offset then some b else none

def apply (bytes : PageBytes) : PageWrite → PageBytes
  | word offset w => bytes.storeWord offset w
  | byte offset b => bytes.storeByte offset b

theorem apply_eq (write : PageWrite) (bytes : PageBytes) (place : Nat) :
    write.apply bytes place = (write.byte? place).getD (bytes place) := by
  cases write with
  | word offset w =>
    rw [apply, PageBytes.storeWord, byte?]
    split
    · apply BitVec.eq_of_toNat_eq
      rw [Word.toNat_byte, Option.getD_some, BitVec.toNat_ofNat]
    · rfl
  | byte offset b =>
    rw [apply, PageBytes.storeByte, byte?]
    split <;> rfl

end PageWrite

namespace PageBytes

/-- A place holds what the last write that covers it has left there. -/
def overlaid (bytes : PageBytes) (writes : List PageWrite) : PageBytes :=
  fun place => (writes.reverse.findSome? (·.byte? place)).getD (bytes place)

variable {bytes other : PageBytes}

theorem overlaid_cons (bytes : PageBytes) (write : PageWrite) (rest : List PageWrite) :
    bytes.overlaid (write :: rest) = (write.apply bytes).overlaid rest := by
  funext place
  rw [overlaid, overlaid, List.reverse_cons, List.findSome?_append, Option.getD_or,
    write.apply_eq bytes place]
  congr 1
  rw [List.findSome?_singleton]

theorem overlaid_congr {place : Nat} (h : bytes place = other place) (writes : List PageWrite) :
    bytes.overlaid writes place = other.overlaid writes place := by
  rw [overlaid, overlaid, h]

/-- Writes made one after the other leave the page with all of them laid over it. -/
theorem foldl_apply (bytes : PageBytes) (writes : List PageWrite) :
    writes.foldl (fun bytes write => write.apply bytes) bytes = bytes.overlaid writes := by
  induction writes generalizing bytes with
  | nil => rfl
  | cons write rest ih => rw [List.foldl_cons, ih, overlaid_cons]

theorem storeWords_eq (bytes : PageBytes) (stores : List (Nat × Word)) :
    bytes.storeWords stores = bytes.overlaid (stores.map fun store => .word store.1 store.2) := by
  rw [← foldl_apply, List.foldl_map]
  rfl

end PageBytes

end SvmActivation
