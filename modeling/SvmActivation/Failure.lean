import SvmActivation.Register

namespace SvmActivation

/-- The kinds of error that the surrounding system knows. -/
inductive HostError where
  | badState
  | noMemory
  | permissionDenied
  | unsupported
  deriving DecidableEq, Repr

namespace HostError

def name : HostError → String
  | badState => "BadState"
  | noMemory => "NoMemory"
  | permissionDenied => "PermissionDenied"
  | unsupported => "Unsupported"

def label (e : HostError) : String :=
  "AxErrorKind::" ++ e.name

def description : HostError → String
  | badState => "Bad internal state"
  | noMemory => "Out of memory"
  | permissionDenied => "Permission denied"
  | unsupported => "Operation not supported"

def code : HostError → Nat
  | badState => 7
  | noMemory => 23
  | permissionDenied => 34
  | unsupported => 41

def errno : HostError → String
  | badState => "EFAULT"
  | noMemory => "ENOMEM"
  | permissionDenied => "EACCES"
  | unsupported => "ENOSYS"

end HostError

/-- The stages of an activation, in the order in which they are entered. -/
inductive Stage where
  | start
  | registerAccess
  | capability
  | enable
  | allocation
  | saveAreaSetup
  | entry
  | termination
  | cleanup
  | done
  deriving DecidableEq, Repr

namespace Stage

def all : List Stage :=
  [start, registerAccess, capability, enable, allocation, saveAreaSetup, entry, termination,
    cleanup, done]

def name : Stage → String
  | start => "Start"
  | registerAccess => "CheckRegisterAccess"
  | capability => "ProbeCapability"
  | enable => "Enable"
  | allocation => "AllocateBuffers"
  | saveAreaSetup => "RegisterSaveArea"
  | entry => "Entry"
  | termination => "Terminate"
  | cleanup => "Cleanup"
  | done => "Done"

def ofName? (name : String) : Option Stage :=
  all.find? (·.name = name)

def position (stage : Stage) : Nat :=
  all.idxOf stage

instance : Ord Stage := ⟨fun a b => compare a.position b.position⟩

instance : LT Stage := ⟨fun a b => a.position < b.position⟩

instance (a b : Stage) : Decidable (a < b) :=
  inferInstanceAs (Decidable (a.position < b.position))

end Stage

/-- The reasons for which an activation stops before the guest is entered. -/
inductive Failure where
  | noRegisterAccess
  | unavailable
  | firmwareLocked
  | firmwareLockedWithKey
  | noFrame
  | misaligned (frame : Address)
  deriving DecidableEq, Repr

namespace Failure

def stage : Failure → Stage
  | noRegisterAccess => .registerAccess
  | unavailable | firmwareLocked | firmwareLockedWithKey => .capability
  | noFrame | misaligned _ => .allocation

/-- The status that loading reports; zero is left for success. -/
def status : Failure → Nat
  | noRegisterAccess => 1
  | unavailable => 2
  | firmwareLocked => 3
  | firmwareLockedWithKey => 4
  | noFrame => 5
  | misaligned _ => 6

def name : Failure → String
  | noRegisterAccess => "NoRegisterAccess"
  | unavailable => "Unavailable"
  | firmwareLocked => "BiosLockedUnrecoverable"
  | firmwareLockedWithKey => "BiosLockedWithKey"
  | noFrame => "AllocationFailed"
  | misaligned _ => "AlignmentViolation"

def message : Failure → String
  | noRegisterAccess => "system does not have MSR support"
  | unavailable => "CPU does not support AMD-SVM"
  | firmwareLocked => "SVM is disabled at BIOS and not unlockable"
  | firmwareLockedWithKey => "SVM is disabled at BIOS, unlockable with key"
  | noFrame => "allocate physical frame failed"
  | misaligned frame => "physical frame " ++ frame.text ++ " is not 4K-aligned"

def record : Failure → Text.Record
  | misaligned frame => .fields (misaligned frame).name [("paddr", frame.record)]
  | failure => .atom failure.name

def hostError : Failure → HostError
  | noRegisterAccess | unavailable => .unsupported
  | firmwareLocked | firmwareLockedWithKey => .permissionDenied
  | noFrame => .noMemory
  | misaligned _ => .badState

def ofName? (name : String) (frame : Address) : Option Failure :=
  [noRegisterAccess, unavailable, firmwareLocked, firmwareLockedWithKey, noFrame,
    misaligned frame].find? (·.name = name)

end Failure

inductive Availability where
  | allowed
  | notAvailable
  | firmwareLocked
  | firmwareLockedWithKey
  deriving DecidableEq, Repr

namespace Availability

def all : List Availability :=
  [allowed, notAvailable, firmwareLocked, firmwareLockedWithKey]

def name : Availability → String
  | allowed => "Allowed"
  | notAvailable => "NotAvailable"
  | firmwareLocked => "DisabledAtBiosNotUnlockable"
  | firmwareLockedWithKey => "DisabledWithKey"

def ofName? (name : String) : Option Availability :=
  all.find? (·.name = name)

def isAllowed (a : Availability) : Bool :=
  a = allowed

def failure? : Availability → Option Failure
  | allowed => none
  | notAvailable => some .unavailable
  | firmwareLocked => some .firmwareLocked
  | firmwareLockedWithKey => some .firmwareLockedWithKey

end Availability

end SvmActivation
