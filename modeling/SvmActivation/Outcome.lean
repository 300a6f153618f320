import SvmActivation.Failure
import SvmActivation.Register
import SvmActivation.Text

namespace SvmActivation

/-- The fields of the control area in which the processor records why a guest stopped. -/
inductive ExitField where
  | code
  | info1
  | info2
  deriving DecidableEq, Repr

def ExitField.offset : ExitField → Nat
  | code => 0x70
  | info1 => 0x78
  | info2 => 0x80

def controlAreaSize : Nat := 0x400

/-- Why a guest stopped. -/
@[ext]
structure ExitRecord where
  code : Word
  info1 : Word
  info2 : Word
  deriving DecidableEq, Repr

namespace ExitRecord

/-- The exit code of a VMCB that the processor refused to enter. -/
def invalidCode : Word := BitVec.allOnes 64

def isInvalid (exit : ExitRecord) : Bool :=
  exit.code = invalidCode

def record (exit : ExitRecord) (style : Text.RecordStyle) : Text.Record :=
  .fields "SvmExitInfo" [
    ("exit_code", style.number exit.code.toNat),
    ("exit_info_1", style.number exit.info1.toNat),
    ("exit_info_2", style.number exit.info2.toNat)]

end ExitRecord

/-- What an activation that entered the guest observed; its pages are handed back by now. -/
@[ext]
structure Completion where
  vmcb : Address
  saveArea : Address
  efer : Register
  exit : ExitRecord
  deriving DecidableEq, Repr

def Completion.record (c : Completion) (style : Text.RecordStyle) : Text.Record :=
  .fields "EntryReport" [
    ("vmcb", c.vmcb.record),
    ("hsave", c.saveArea.record),
    ("efer", .atom c.efer.text),
    ("exit", c.exit.record style)]

abbrev Outcome := Except Failure Completion

namespace Outcome

def record (outcome : Outcome) (style : Text.RecordStyle) : Text.Record :=
  match outcome with
  | .ok completion => .wrap "Ok" (completion.record style)
  | .error failure => .wrap "Err" failure.record

def status : Outcome → Nat
  | .ok _ => 0
  | .error failure => failure.status

end Outcome

end SvmActivation
