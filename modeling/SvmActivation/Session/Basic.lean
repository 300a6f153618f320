import SvmActivation.Machine.Basic
import SvmActivation.Program.Run
import SvmActivation.Session.Objects

namespace SvmActivation

inductive CoreCommand where
  | hasRegisterAccess
  | probe
  | identification
  | hasHardwareSupport
  | isOn
  | turnOn
  | turnOff
  deriving DecidableEq, Repr

namespace CoreCommand

def program : CoreCommand → Program Reply
  | hasRegisterAccess => do return .flag (← Capability.hasRegisterAccess)
  | probe => do return .availability (← Capability.probe)
  | identification => do return .identification (← Capability.identification)
  | hasHardwareSupport => do return .flag (← Capability.hasHardwareSupport)
  | isOn => do return .flag (← Switch.isOn)
  | turnOn => do return .register (← Switch.turnOn)
  | turnOff => do
    Switch.turnOff
    return .nothing

end CoreCommand

inductive Operation where
  | core (command : CoreCommand)
  | create (h : Handle) (kind : ObjectKind)
  | drop (h : Handle)
  | act (h : Handle) (action : Action)
  deriving DecidableEq, Repr

namespace Objects

open Program

/-- Makes an object and drops the one it replaces; if none can be made, everything stays. -/
def create (objects : Objects) (h : Handle) (kind : ObjectKind) : Program (Reply × Objects) := do
  match ← Object.create kind with
  | .error failure => return (.failed failure, objects)
  | .ok o =>
    Frame.giveBackAll ((objects.find? h).elim [] Object.frames)
    return (.nothing, objects.insert h o)

def drop (objects : Objects) (h : Handle) : Program (Reply × Objects) :=
  match objects.find? h with
  | none => return (.misuse, objects)
  | some o => do
    o.discard
    return (.nothing, objects.erase h)

def act (objects : Objects) (h : Handle) (action : Action) : Program (Reply × Objects) :=
  match objects.find? h with
  | none => return (.misuse, objects)
  | some o => do
    let (reply, o) ← o.act action
    return (reply, objects.insert h o)

def perform (objects : Objects) : Operation → Program (Reply × Objects)
  | .core command => do return (← command.program, objects)
  | .create h kind => objects.create h kind
  | .drop h => objects.drop h
  | .act h action => objects.act h action

def dropAll (objects : Objects) : Program Unit :=
  Frame.giveBackAll objects.frames

end Objects

inductive Command where
  | setup (change : Setup)
  | dump (page : Address)
  | operate (operation : Operation)

structure Session where
  machine : Machine
  objects : Objects

/-- What a step answers, what it asked of the machine, and the session after it. -/
structure Step where
  reply : Reply
  timeline : List Moment
  session : Session

def Step.events (step : Step) : List Event :=
  step.timeline.flatMap Moment.events

namespace Session

def fresh : Session where
  machine := .fresh
  objects := .empty

def step (s : Session) : Command → Step
  | .setup change => ⟨.nothing, [], { s with machine := change.apply s.machine }⟩
  | .dump page =>
    let memory := s.machine.memory
    ⟨.memory (memory.runs page), [],
      { s with machine := { s.machine with memory := memory.touch page } }⟩
  | .operate operation =>
    let e := (s.objects.perform operation).run s.machine
    ⟨e.value.1, e.timeline, ⟨e.machine, e.value.2⟩⟩

def run (s : Session) : List Command → List Step
  | [] => []
  | command :: rest =>
    let step := s.step command
    step :: step.session.run rest

def after (s : Session) (steps : List Step) : Session :=
  steps.getLast?.elim s Step.session

/-- The end of a session: the objects that are left are dropped. -/
def finish (s : Session) : Execution Unit :=
  s.objects.dropAll.run s.machine

end Session

def Allocator.liveAscending (a : Allocator) : List Address :=
  a.live.mergeSort fun x y => x.toNat ≤ y.toNat

end SvmActivation
