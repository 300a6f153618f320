import SvmActivation.Text

namespace SvmActivation

abbrev Byte := BitVec 8

abbrev Half := BitVec 32

abbrev Word := BitVec 64

/-- The bytes of a word stand in memory from the least significant on. -/
def Word.byte (w : Word) (i : Nat) : Byte :=
  w.extractLsb' (8 * i) 8

/-- The word whose bytes are the first eight of a sequence, the lowest first. -/
def Word.ofBytes (bytes : Nat → Byte) : Word :=
  bytes 7 ++ bytes 6 ++ bytes 5 ++ bytes 4 ++ bytes 3 ++ bytes 2 ++ bytes 1 ++ bytes 0

/-- Uses that break the contract of what they use; they change nothing. -/
inductive Fault where
  | noSuchBit
  | deadFrame
  deriving DecidableEq, Repr

def Fault.message : Fault → String
  | noSuchBit => "assertion failed: bit < Self::BIT_LENGTH"
  | deadFrame => "uninitialized PhysFrame"

/-- The contents of a 64-bit processor register. -/
@[ext]
structure Register where
  bits : Word
  deriving DecidableEq, Repr

namespace Register

def zero : Register := ⟨0⟩

def ofHalves (high low : Half) : Register :=
  ⟨high ++ low⟩

def high (r : Register) : Half :=
  r.bits.extractLsb' 32 32

def low (r : Register) : Half :=
  r.bits.extractLsb' 0 32

def bit (r : Register) (i : Nat) : Except Fault Bool :=
  if i < 64 then .ok (r.bits.getLsbD i) else .error .noSuchBit

def setBit (r : Register) (i : Nat) : Register :=
  ⟨r.bits ||| BitVec.twoPow 64 i⟩

def clearBit (r : Register) (i : Nat) : Register :=
  ⟨r.bits &&& ~~~BitVec.twoPow 64 i⟩

/-- The two halves with all their digits, the high one marked. -/
def text (r : Register) : String :=
  Text.hex32 r.high.toNat ++ ":" ++ Text.padded 8 .hexadecimal r.low.toNat

/-- The register in a style: a record style gives its halves, a number layout its value. -/
def format? (r : Register) (style : List Char) : Option String :=
  match Text.RecordStyle.parse? style with
  | some _ => some r.text
  | none => (Text.NumberLayout.parse? style).map (·.render r.bits.toNat)

end Register

@[ext]
structure Address where
  bits : Word
  deriving DecidableEq, Repr

def pageSize : Nat := 4096

namespace Address

def null : Address := ⟨0⟩

def toNat (a : Address) : Nat :=
  a.bits.toNat

def IsAligned (a : Address) : Prop :=
  a.toNat % pageSize = 0

instance (a : Address) : Decidable a.IsAligned :=
  inferInstanceAs (Decidable (a.toNat % pageSize = 0))

def toRegister (a : Address) : Register :=
  ⟨a.bits⟩

def hex (a : Address) : String :=
  Text.hex a.toNat

def text (a : Address) : String :=
  "PA:" ++ a.hex

def record (a : Address) : Text.Record :=
  .atom a.text

end Address

end SvmActivation
