import SvmActivation.Msr
import SvmActivation.Register
import SvmActivation.Text

namespace SvmActivation

abbrev Leaf := Half

namespace Leaf

def features : Leaf := 0x00000001

def extendedFeatures : Leaf := 0x80000001

def svmIdentification : Leaf := 0x8000000a

end Leaf

@[ext]
structure CpuidWords where
  eax : Half
  ebx : Half
  ecx : Half
  edx : Half
  deriving DecidableEq, Repr

def CpuidWords.zero : CpuidWords := ⟨0, 0, 0, 0⟩

@[ext]
structure SvmIdentification where
  revision : Byte
  asidCount : Half
  features : Half
  deriving DecidableEq, Repr

namespace SvmIdentification

def ofWords (words : CpuidWords) : SvmIdentification where
  revision := words.eax.extractLsb' 0 8
  asidCount := words.ebx
  features := words.edx

def record (i : SvmIdentification) (style : Text.RecordStyle) : Text.Record :=
  .fields "SvmFeatures" [
    ("revision", style.number i.revision.toNat),
    ("nasid", style.number i.asidCount.toNat),
    ("features", style.number i.features.toNat)]

end SvmIdentification

inductive Ring where
  | ring0
  | ring1
  | ring2
  | ring3
  deriving DecidableEq, Repr

namespace Ring

def name : Ring → String
  | ring0 => "Ring0"
  | ring1 => "Ring1"
  | ring2 => "Ring2"
  | ring3 => "Ring3"

def ofNat? : Nat → Option Ring
  | 0 => some ring0
  | 1 => some ring1
  | 2 => some ring2
  | 3 => some ring3
  | _ => none

end Ring

/-- The state of a logical core as far as an activation can see or change it. -/
structure Core where
  cpuid : Leaf → CpuidWords
  msrs : Msr → Option Register
  /-- The registers that ignore what the core writes. -/
  readOnly : List Msr
  cr0 : Register
  ring : Ring

namespace Core

def fresh : Core where
  cpuid := fun _ => .zero
  msrs := fun _ => none
  readOnly := []
  cr0 := ⟨0x80000001⟩
  ring := .ring0

def setCpuid (core : Core) (leaf : Leaf) (words : CpuidWords) : Core :=
  { core with cpuid := fun l => if l = leaf then words else core.cpuid l }

def readMsr (core : Core) (msr : Msr) : Register :=
  (core.msrs msr).getD .zero

/-- Gives a register a value, be it read-only for the core or not. -/
def setMsr (core : Core) (msr : Msr) (value : Register) : Core :=
  { core with msrs := fun m => if m = msr then some value else core.msrs m }

def writeMsr (core : Core) (msr : Msr) (value : Register) : Core :=
  if msr ∈ core.readOnly then core else core.setMsr msr value

end Core

end SvmActivation
