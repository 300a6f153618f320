import SvmActivation.Program.Basic

namespace SvmActivation

namespace Frame

open Program

def giveBack (frame : Address) : Program Unit := do
  request (.giveBack frame)
  log (.frameReturned frame)

def giveBackAll : List Address → Program Unit
  | [] => return ()
  | frame :: rest => do
    giveBack frame
    giveBackAll rest

/-- Takes a frame in which a page can stand; one that is misaligned goes back at once. -/
def take : Program (Except Failure Address) := do
  match ← request .takeFrame with
  | none => return .error .noFrame
  | some frame =>
    if frame = .null then
      return .error .noFrame
    else if frame.IsAligned then
      return .ok frame
    else
      giveBack frame
      return .error (.misaligned frame)

def takeZeroed : Program (Except Failure Address) := do
  match ← take with
  | .error failure => return .error failure
  | .ok frame =>
    request (.fillPage frame 0)
    return .ok frame

end Frame

/-- The two pages that one entry of the guest needs. -/
@[ext]
structure ControlPages where
  vmcb : Address
  saveArea : Address
  deriving DecidableEq, Repr

namespace ControlPages

open Program

def frames (pages : ControlPages) : List Address :=
  [pages.vmcb, pages.saveArea]

/-- Takes both pages or none: without a page for the save area that of the VMCB goes back. -/
def allocate : Program (Except Failure ControlPages) := do
  match ← Frame.takeZeroed with
  | .error failure => return .error failure
  | .ok vmcb =>
    match ← Frame.takeZeroed with
    | .error failure =>
      Frame.giveBack vmcb
      return .error failure
    | .ok saveArea =>
      log (.pagesAllocated vmcb saveArea)
      return .ok { vmcb, saveArea }

end ControlPages

namespace Vmcb

open Program

def readExit (vmcb : Address) : Program ExitRecord := do
  let code ← request (.loadWord vmcb ExitField.code.offset)
  let info1 ← request (.loadWord vmcb ExitField.info1.offset)
  let info2 ← request (.loadWord vmcb ExitField.info2.offset)
  return { code, info1, info2 }

/-- Sets a field of a VMCB and ends with what it holds then. -/
def setField (vmcb : Address) (field : ExitField) (w : Word) : Program Word := do
  request (.storeWord vmcb field.offset w)
  request (.loadWord vmcb field.offset)

end Vmcb

end SvmActivation
