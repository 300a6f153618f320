import SvmActivation.Activation.Escalation

namespace SvmActivation

/-- What a step of a session answers. -/
inductive Reply where
  | nothing
  | flag (value : Bool)
  | register (value : Register)
  | word (value : Word)
  | address (page : Address)
  | pages (pages : ControlPages)
  | availability (a : Availability)
  | identification (i : SvmIdentification)
  | exit (e : ExitRecord)
  | failed (failure : Failure)
  | outcome (o : Outcome)
  | activator (a : Activator)
  | status (code : Nat)
  | core (registerAccess svmOn : Bool)
  | memory (runs : List (Byte × Nat))
  | fault (f : Fault)
  | misuse

inductive ObjectKind where
  | frame
  | zeroedFrame
  | placeholder
  | vmcb
  | saveArea
  | pages
  | activator
  | loader
  deriving DecidableEq, Repr

/-- What a session keeps under a handle. Frames and pairs own nothing once they are released. -/
inductive Object where
  | frame (owned : Option Address)
  | vmcb (page : Address)
  | saveArea (page : Address)
  | pages (owned : Option ControlPages)
  | activator (a : Activator)
  | loader (l : Loader)

inductive Action where
  | isAllocated
  | address
  | fill (b : Byte)
  | release
  | poke (offset : Nat) (b : Byte)
  | readExit
  | setField (field : ExitField) (w : Word)
  | run
  | state
  | load
  | unload
  | lastOutcome
  | inspectCore
  deriving DecidableEq, Repr

namespace Object

open Program

/-- The frames that an object owns, in the order in which they are handed back. -/
def frames : Object → List Address
  | frame owned => owned.toList
  | vmcb page => [page]
  | saveArea page => [page]
  | pages owned => owned.elim [] ControlPages.frames
  | activator _ => []
  | loader _ => []

def discard (o : Object) : Program Unit :=
  Frame.giveBackAll o.frames

def create : ObjectKind → Program (Except Failure Object)
  | .frame => do return (← Frame.take).map fun page => frame (some page)
  | .zeroedFrame => do return (← Frame.takeZeroed).map fun page => frame (some page)
  | .placeholder => return .ok (frame none)
  | .vmcb => do return (← Frame.takeZeroed).map vmcb
  | .saveArea => do return (← Frame.takeZeroed).map saveArea
  | .pages => do return (← ControlPages.allocate).map fun owned => pages (some owned)
  | .activator => return .ok (activator .fresh)
  | .loader => return .ok (loader .fresh)

def withOwned {α : Type} (owned : Option α) (use : α → Program Reply) : Program Reply :=
  owned.elim (done (.fault .deadFrame)) use

def poke (page : Address) (offset : Nat) (b : Byte) : Program Reply := do
  request (.storeByte page offset b)
  return .nothing

def readExit (page : Address) : Program Reply := do
  return .exit (← Vmcb.readExit page)

def setField (page : Address) (field : ExitField) (w : Word) : Program Reply := do
  return .word (← Vmcb.setField page field w)

def fill (page : Address) (b : Byte) : Program Reply := do
  request (.fillPage page b)
  return .nothing

/-- The actions of a frame that leave it what it is. -/
def useFrame (owned : Option Address) : Action → Program Reply
  | .isAllocated => return .flag owned.isSome
  | .address => withOwned owned fun page => return .address page
  | .fill b => withOwned owned fun page => fill page b
  | .poke offset b => withOwned owned fun page => poke page offset b
  | _ => return .misuse

def useVmcb (page : Address) : Action → Program Reply
  | .address => return .address page
  | .poke offset b => poke page offset b
  | .readExit => readExit page
  | .setField field w => setField page field w
  | _ => return .misuse

def useSaveArea (page : Address) : Action → Program Reply
  | .address => return .address page
  | _ => return .misuse

def usePages (owned : Option ControlPages) : Action → Program Reply
  | .address => withOwned owned fun pages => return .pages pages
  | .poke offset b => withOwned owned fun pages => poke pages.vmcb offset b
  | .readExit => withOwned owned fun pages => readExit pages.vmcb
  | .setField field w => withOwned owned fun pages => setField pages.vmcb field w
  | _ => return .misuse

def useActivator (a : Activator) : Action → Program (Reply × Activator)
  | .run => do
    let (outcome, a) ← a.run
    return (.outcome outcome, a)
  | .state => return (.activator a, a)
  | _ => return (.misuse, a)

def useLoader (l : Loader) : Action → Program (Reply × Loader)
  | .load => do
    let (status, l) ← l.load
    return (.status status, l)
  | .unload => do
    let l ← l.unload
    return (.nothing, l)
  | .lastOutcome => return (l.lastOutcome.elim .nothing .outcome, l)
  | .inspectCore => do
    let registerAccess ← Capability.hasRegisterAccess
    let svmOn ← Switch.isOn
    return (.core registerAccess svmOn, l)
  | _ => return (.misuse, l)

/-- What an action answers, and the object after it. -/
def act (o : Object) (action : Action) : Program (Reply × Object) :=
  match o with
  | frame owned =>
    if action = .release then do
      o.discard
      return (.nothing, frame none)
    else do
      return (← useFrame owned action, o)
  | vmcb page => do return (← useVmcb page action, o)
  | saveArea page => do return (← useSaveArea page action, o)
  | pages owned =>
    if action = .release then do
      o.discard
      return (.nothing, pages none)
    else do
      return (← usePages owned action, o)
  | activator a => do
    let (reply, a) ← useActivator a action
    return (reply, activator a)
  | loader l => do
    let (reply, l) ← useLoader l action
    return (reply, loader l)

end Object

end SvmActivation
