import SvmActivation.Program.Basic

namespace SvmActivation

/-- What an observer of the machine sees. -/
inductive Event where
  | cpuid (leaf : Leaf)
  | readMsr (msr : Msr)
  | writeMsr (msr : Msr) (value : Register)
  | readCr0
  | readRing
  | enterGuest (vmcb : Address)
  | takeFrame (frame : Option Address)
  | giveBack (frame : Address)
  | message (message : Log.Message)
  deriving DecidableEq, Repr

namespace Event

def text : Event → String
  | cpuid leaf => "cpuid " ++ Text.hex leaf.toNat
  | readMsr msr => "rdmsr " ++ Text.hex msr.number.toNat
  | writeMsr msr value =>
    "wrmsr " ++ Text.hex msr.number.toNat ++ " " ++ Text.hex value.bits.toNat
  | readCr0 => "cr0"
  | readRing => "cpl"
  | enterGuest vmcb => "vmrun " ++ vmcb.hex
  | takeFrame none => "alloc none"
  | takeFrame (some frame) => "alloc " ++ frame.hex
  | giveBack frame => "dealloc " ++ frame.hex
  | message m => m.line

end Event

namespace Machine

/-- The event of a message that is kept, after those of what had to be looked up for it. -/
def report (m : Machine) (lookups : List Event) (message : Log.Message) : List Event :=
  if m.threshold.admits message.level then lookups ++ [.message message] else []

/-- What a request on a machine shows; accesses to page memory show nothing. -/
def events (m : Machine) : Request → List Event
  | .cpuid leaf => [.cpuid leaf]
  | .readMsr msr => [.readMsr msr]
  | .writeMsr msr value => [.writeMsr msr value]
  | .readCr0 => [.readCr0]
  | .enterGuest vmcb => [.enterGuest vmcb]
  | .takeFrame => [.takeFrame m.allocator.answer]
  | .giveBack frame => [.giveBack frame]
  | .fillPage .. | .storeByte .. | .loadWord .. | .storeWord .. => []
  | .log message => m.report [] message
  | .logMode protectedMode =>
    m.report [.readRing] (.processorMode protectedMode m.core.ring)

end Machine

/-- A request together with the machine on which it was made. -/
structure Moment where
  machine : Machine
  request : Request

namespace Moment

def events (moment : Moment) : List Event :=
  moment.machine.events moment.request

def after (moment : Moment) : Machine :=
  (moment.machine.serve moment.request).2

end Moment

/-- What a program leaves: its value, the machine, and everything it asked on the way. -/
structure Execution (α : Type) where
  value : α
  machine : Machine
  timeline : List Moment

namespace Execution

variable {α : Type}

def events (e : Execution α) : List Event :=
  e.timeline.flatMap Moment.events

def requests (e : Execution α) : List Request :=
  e.timeline.map Moment.request

def behind (e : Execution α) (earlier : List Moment) : Execution α :=
  { e with timeline := earlier ++ e.timeline }

end Execution

namespace Program

variable {α β : Type}

def run : Program α → Machine → Execution α
  | done value, m => ⟨value, m, []⟩
  | ask request next, m =>
    let (answer, after) := m.serve request
    ((next answer).run after).behind [⟨m, request⟩]

@[simp]
theorem run_done (value : α) (m : Machine) : (done value).run m = ⟨value, m, []⟩ := rfl

@[simp]
theorem run_ask (r : Request) (next : r.Answer → Program α) (m : Machine) :
    (ask r next).run m =
      ((next (m.serve r).1).run (m.serve r).2).behind [⟨m, r⟩] := rfl

theorem run_bind (p : Program α) (f : α → Program β) (m : Machine) :
    (p >>= f).run m = ((f (p.run m).value).run (p.run m).machine).behind (p.run m).timeline := by
  induction p generalizing m with
  | done value => rfl
  | ask r next ih => simp [ih, Execution.behind]

end Program

end SvmActivation
