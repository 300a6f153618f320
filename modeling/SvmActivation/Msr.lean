import SvmActivation.Register
import SvmActivation.Text

namespace SvmActivation

/-- The model-specific registers that take part in the activation. -/
inductive Msr where
  | efer
  | vmCr
  | hostSave
  deriving DecidableEq, Repr, Ord

namespace Msr

def all : List Msr := [efer, vmCr, hostSave]

def name : Msr → String
  | efer => "IA32_EFER"
  | vmCr => "VM_CR"
  | hostSave => "VM_HSAVE_PA"

def number : Msr → Half
  | efer => 0xc0000080
  | vmCr => 0xc0010114
  | hostSave => 0xc0010117

def ofName? (name : String) : Option Msr :=
  all.find? (·.name = name)

def ofNumber? (number : Half) : Option Msr :=
  all.find? (·.number = number)

end Msr

namespace Efer

def svmEnable : Nat := 12

def hasSvm (efer : Register) : Bool :=
  efer.bits.getLsbD svmEnable

def withSvm (efer : Register) : Register :=
  efer.setBit svmEnable

def withoutSvm (efer : Register) : Register :=
  efer.clearBit svmEnable

end Efer

/-- The contents of `VM_CR` as a set of flags; bits without a name are kept. -/
@[ext]
structure VmCr where
  bits : Word
  deriving DecidableEq, Repr

namespace VmCr

inductive Flag where
  | debugPortDisabled
  | initRedirected
  | a20MaskDisabled
  | locked
  | svmDisabled
  deriving DecidableEq, Repr

namespace Flag

def all : List Flag :=
  [debugPortDisabled, initRedirected, a20MaskDisabled, locked, svmDisabled]

def name : Flag → String
  | debugPortDisabled => "DPD"
  | initRedirected => "R_INIT"
  | a20MaskDisabled => "DIS_A20M"
  | locked => "LOCK"
  | svmDisabled => "SVMDIS"

def position : Flag → Nat
  | debugPortDisabled => 0
  | initRedirected => 1
  | a20MaskDisabled => 2
  | locked => 3
  | svmDisabled => 4

def mask (flag : Flag) : Word :=
  BitVec.twoPow 64 flag.position

def ofName? (name : String) : Option Flag :=
  all.find? (·.name = name)

end Flag

def empty : VmCr := ⟨0⟩

def all : VmCr :=
  ⟨Flag.all.foldr (·.mask ||| ·) 0⟩

instance : Union VmCr := ⟨fun a b => ⟨a.bits ||| b.bits⟩⟩

instance : Inter VmCr := ⟨fun a b => ⟨a.bits &&& b.bits⟩⟩

instance : SDiff VmCr := ⟨fun a b => ⟨a.bits &&& ~~~b.bits⟩⟩

def symmDiff (a b : VmCr) : VmCr :=
  ⟨a.bits ^^^ b.bits⟩

def declared (v : VmCr) : VmCr :=
  v ∩ all

def complement (v : VmCr) : VmCr :=
  declared ⟨~~~v.bits⟩

def ofDeclared? (bits : Word) : Option VmCr :=
  let v : VmCr := ⟨bits⟩
  if v.declared = v then some v else none

def contains (a b : VmCr) : Bool :=
  a ∩ b = b

def intersects (a b : VmCr) : Bool :=
  a ∩ b ≠ empty

def put (a b : VmCr) (present : Bool) : VmCr :=
  if present then a ∪ b else a \ b

def isEmpty (v : VmCr) : Bool :=
  v = empty

/-- Whether every declared flag is in a value, whatever else is in it. -/
def isAll (v : VmCr) : Bool :=
  v.contains all

def has (v : VmCr) (flag : Flag) : Bool :=
  v.contains ⟨flag.mask⟩

def flags (v : VmCr) : List Flag :=
  Flag.all.filter v.has

def residue (v : VmCr) : VmCr :=
  v \ all

/-- Each flag of a value, then the bits without a name if there are any. -/
def parts (v : VmCr) : List VmCr :=
  v.flags.map (⟨·.mask⟩) ++ if v.residue.isEmpty then [] else [v.residue]

/-- The names of the flags, then the other bits as one number; nothing at all is zero. -/
def terms (v : VmCr) : List String :=
  if v.isEmpty then [Text.hex 0]
  else v.flags.map Flag.name ++
    if v.residue.isEmpty then [] else [Text.hex v.residue.bits.toNat]

def record (v : VmCr) : Text.Record :=
  .wrap "VmCrFlags" (.atom (" | ".intercalate v.terms))

def text (v : VmCr) : String :=
  v.record.inline

end VmCr

end SvmActivation
