import SvmActivation.Log
import SvmActivation.Machine.Core
import SvmActivation.Machine.Memory
import SvmActivation.Outcome

namespace SvmActivation

/-- What a guest does before it stops: words stored into the page of its VMCB, and registers set. -/
structure GuestExit where
  stores : List (Nat × Word)
  msrs : List (Msr × Register)

/-- The processor refuses a VMCB: only the exit code is recorded. -/
def GuestExit.refused : GuestExit where
  stores := [(ExitField.code.offset, ExitRecord.invalidCode)]
  msrs := []

/-- Everything around an activation. -/
structure Machine where
  core : Core
  allocator : Allocator
  memory : Memory
  /-- What the next guests do; a guest that is not among them is refused. -/
  guests : List GuestExit
  threshold : Log.Threshold

namespace Machine

def fresh : Machine where
  core := .fresh
  allocator := .fresh
  memory := .fresh
  guests := []
  threshold := some .trace

def nextGuest (m : Machine) : GuestExit :=
  m.guests.head?.getD .refused

/-- Lets the next guest run on a VMCB until it stops. -/
def enterGuest (m : Machine) (vmcb : Address) : Machine :=
  { m with
    core := m.nextGuest.msrs.foldl (fun core set => core.setMsr set.1 set.2) m.core
    memory := m.memory.update vmcb (·.storeWords m.nextGuest.stores)
    guests := m.guests.tail }

end Machine

/-- A change of the surroundings; what it does not name stays as it is. -/
structure Setup where
  cpuid : List (Leaf × CpuidWords) := []
  msrs : List (Msr × Register) := []
  readOnly : Option (List Msr) := none
  cr0 : Option Register := none
  ring : Option Ring := none
  frames : List (Option Address) := []
  recycle : Option Bool := none
  filler : Option Byte := none
  guests : List GuestExit := []
  threshold : Option Log.Threshold := none

namespace Setup

def applyCore (s : Setup) (core : Core) : Core :=
  let core := s.cpuid.foldl (fun core entry => core.setCpuid entry.1 entry.2) core
  let core := s.msrs.foldl (fun core entry => core.setMsr entry.1 entry.2) core
  { core with
    readOnly := s.readOnly.getD core.readOnly
    cr0 := s.cr0.getD core.cr0
    ring := s.ring.getD core.ring }

def applyAllocator (s : Setup) (a : Allocator) : Allocator :=
  { a with
    queue := a.queue ++ s.frames
    recycle := s.recycle.getD a.recycle }

def applyMemory (s : Setup) (memory : Memory) : Memory :=
  { memory with filler := s.filler.getD memory.filler }

def apply (s : Setup) (m : Machine) : Machine where
  core := s.applyCore m.core
  allocator := s.applyAllocator m.allocator
  memory := s.applyMemory m.memory
  guests := m.guests ++ s.guests
  threshold := s.threshold.getD m.threshold

end Setup

end SvmActivation
