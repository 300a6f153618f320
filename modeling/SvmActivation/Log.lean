import SvmActivation.Failure
import SvmActivation.Machine.Core
import SvmActivation.Msr
import SvmActivation.Outcome

namespace SvmActivation.Log

inductive Level where
  | error
  | warn
  | info
  | debug
  | trace
  deriving DecidableEq, Repr

namespace Level

def all : List Level := [error, warn, info, debug, trace]

def verbosity : Level → Nat
  | error => 0
  | warn => 1
  | info => 2
  | debug => 3
  | trace => 4

def label : Level → String
  | error => "ERROR"
  | warn => "WARN"
  | info => "INFO"
  | debug => "DEBUG"
  | trace => "TRACE"

def name : Level → String
  | error => "error"
  | warn => "warn"
  | info => "info"
  | debug => "debug"
  | trace => "trace"

end Level

/-- The most verbose level whose messages are kept; without one the log is off. -/
abbrev Threshold := Option Level

namespace Threshold

def admits (threshold : Threshold) (level : Level) : Bool :=
  threshold.any (level.verbosity ≤ ·.verbosity)

def ofName? (name : String) : Option Threshold :=
  if name = "off" then some none else (Level.all.find? (·.name = name)).map some

end Threshold

/-- Everything that is reported on the way. -/
inductive Message where
  | featureEdx (leaf : Leaf) (edx : Half)
  | featureEcx (leaf : Leaf) (ecx : Half)
  | stageChange (old new : Stage)
  | vmCr (value : VmCr)
  | processorMode (protectedMode : Bool) (ring : Ring)
  | frameReturned (frame : Address)
  | saveAreaRegistered (frame : Address)
  | identification (i : SvmIdentification)
  | availability (a : Availability)
  | eferBefore (efer : Register)
  | svmEnabled (efer : Register)
  | svmDisabled
  | pagesAllocated (vmcb saveArea : Address)
  | entryCompleted (exit : ExitRecord)
  | loaded
  | unloaded
  | alreadyEnabled
  | firmwareLocked
  | keyMayUnlock
  | entryRejected
  | hostError (e : HostError)
  | entryFailed (failure : Failure)
  deriving DecidableEq, Repr

namespace Message

def level : Message → Level
  | featureEdx .. | featureEcx .. | stageChange .. => .trace
  | vmCr _ | processorMode .. | frameReturned _ | saveAreaRegistered _ => .debug
  | identification _ | availability _ | eferBefore _ | svmEnabled _ | svmDisabled
  | pagesAllocated .. | entryCompleted _ | loaded | unloaded => .info
  | alreadyEnabled | firmwareLocked | keyMayUnlock | entryRejected | hostError _ => .warn
  | entryFailed _ => .error

def text : Message → String
  | featureEdx leaf edx =>
    "CPUID " ++ Text.hex leaf.toNat ++ ": edx=" ++ Text.hex32 edx.toNat
  | featureEcx leaf ecx =>
    "CPUID " ++ Text.hex leaf.toNat ++ ": ecx=" ++ Text.hex32 ecx.toNat
  | stageChange old new => "entry sequence: " ++ old.name ++ " -> " ++ new.name
  | vmCr value =>
    "VM_CR: " ++ value.text ++ ", lock=" ++ Text.truth (value.has .locked) ++
      " svmdis=" ++ Text.truth (value.has .svmDisabled)
  | processorMode protectedMode ring =>
    "CR0.PE=" ++ Text.truth protectedMode ++ " CPL=" ++ ring.name
  | frameReturned frame => "[AxVM] deallocated PhysFrame(" ++ frame.text ++ ")"
  | saveAreaRegistered frame => "VM_HSAVE_PA <- " ++ frame.text
  | identification i =>
    "SVM revision " ++ toString i.revision.toNat ++ ", " ++ toString i.asidCount.toNat ++ " ASIDs"
  | availability a => "SVM support: " ++ a.name
  | eferBefore efer =>
    "EFER before enable: " ++ Text.hex efer.bits.toNat ++
      " (SVME=" ++ Text.truth (Efer.hasSvm efer) ++ ")"
  | svmEnabled efer => "[AxVM] SVM enabled, EFER: " ++ Text.hex efer.bits.toNat
  | svmDisabled => "[AxVM] SVM disabled."
  | pagesAllocated vmcb saveArea =>
    "[AxVM] allocated VMCB @ " ++ vmcb.text ++ ", HSAVE @ " ++ saveArea.text
  | entryCompleted exit =>
    "[AxVM] SVM entry completed: " ++ (exit.record { radix := .hexadecimal }).inline
  | loaded => "==== LOADED HYPERVISOR DRIVER ===="
  | unloaded => "==== UNLOADED HYPERVISOR DRIVER ===="
  | alreadyEnabled => "SVM already enabled on this core"
  | firmwareLocked =>
    "SVM is locked at BIOS level, change the firmware setting to enable it"
  | keyMayUnlock =>
    "SVM lock may be unlockable, consult platform firmware or TPM for the key"
  | entryRejected =>
    "VMRUN rejected the VMCB (VMEXIT_INVALID), no guest state is set up"
  | hostError e => "[" ++ e.label ++ "]"
  | entryFailed failure =>
    "SVM entry failed at " ++ failure.stage.name ++ ": " ++ failure.message

def line (message : Message) : String :=
  message.level.label ++ ": " ++ message.text

end Message

end SvmActivation.Log
