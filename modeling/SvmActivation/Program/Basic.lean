import SvmActivation.Log
import SvmActivation.Machine.Basic

namespace SvmActivation

/-- What a program can ask of the machine it runs on. -/
inductive Request where
  | cpuid (leaf : Leaf)
  | readMsr (msr : Msr)
  | writeMsr (msr : Msr) (value : Register)
  | readCr0
  | enterGuest (vmcb : Address)
  | takeFrame
  | giveBack (frame : Address)
  | fillPage (page : Address) (b : Byte)
  | storeByte (page : Address) (offset : Nat) (b : Byte)
  | loadWord (page : Address) (offset : Nat)
  | storeWord (page : Address) (offset : Nat) (w : Word)
  | log (message : Log.Message)
  /-- The privilege level is looked up only for a report that is kept. -/
  | logMode (protectedMode : Bool)
  deriving DecidableEq, Repr

abbrev Request.Answer : Request → Type
  | cpuid _ => CpuidWords
  | readMsr _ => Register
  | writeMsr .. => Unit
  | readCr0 => Register
  | enterGuest _ => Unit
  | takeFrame => Option Address
  | giveBack _ => Unit
  | fillPage .. => Unit
  | storeByte .. => Unit
  | loadWord .. => Word
  | storeWord .. => Unit
  | log _ => Unit
  | logMode _ => Unit

namespace Machine

def serve (m : Machine) : (r : Request) → r.Answer × Machine
  | .cpuid leaf => (m.core.cpuid leaf, m)
  | .readMsr msr => (m.core.readMsr msr, m)
  | .writeMsr msr value => ((), { m with core := m.core.writeMsr msr value })
  | .readCr0 => (m.core.cr0, m)
  | .enterGuest vmcb => ((), m.enterGuest vmcb)
  | .takeFrame => (m.allocator.answer, { m with allocator := m.allocator.afterRequest })
  | .giveBack frame => ((), { m with allocator := m.allocator.giveBack frame })
  | .fillPage page b => ((), { m with memory := m.memory.update page (·.fill b) })
  | .storeByte page offset b =>
    ((), { m with memory := m.memory.update page (·.storeByte offset b) })
  | .loadWord page offset =>
    ((m.memory.bytes page).loadWord offset, { m with memory := m.memory.touch page })
  | .storeWord page offset w =>
    ((), { m with memory := m.memory.update page (·.storeWord offset w) })
  | .log _ => ((), m)
  | .logMode _ => ((), m)

end Machine

/-- A computation that asks the machine for everything it learns and does. -/
inductive Program (α : Type) where
  | done (value : α)
  | ask (request : Request) (next : request.Answer → Program α)

namespace Program

variable {α β γ : Type}

def bind : Program α → (α → Program β) → Program β
  | done value, f => f value
  | ask request next, f => ask request fun answer => (next answer).bind f

instance : Monad Program where
  pure := done
  bind := bind

def request (r : Request) : Program r.Answer :=
  ask r done

def log (message : Log.Message) : Program Unit :=
  request (.log message)

def when (condition : Bool) (p : Program Unit) : Program Unit :=
  if condition then p else done ()

@[simp]
theorem pure_eq (value : α) : (pure value : Program α) = done value := rfl

@[simp]
theorem done_bind (value : α) (f : α → Program β) : (done value >>= f) = f value := rfl

@[simp]
theorem ask_bind (r : Request) (next : r.Answer → Program α) (f : α → Program β) :
    (ask r next >>= f) = ask r fun answer => next answer >>= f := rfl

theorem bind_assoc (p : Program α) (f : α → Program β) (g : β → Program γ) :
    (p >>= f >>= g) = p >>= fun value => f value >>= g := by
  induction p with
  | done value => rfl
  | ask r next ih => simp [ih]

end Program

end SvmActivation
