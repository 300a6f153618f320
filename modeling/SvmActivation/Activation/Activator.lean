import SvmActivation.Activation.Capability
import SvmActivation.Activation.ControlPages

namespace SvmActivation

/-- Carries out activations one after the other. -/
@[ext]
structure Activator where
  stage : Stage
  /-- Whether it has ever turned SVM on. -/
  turnedOn : Bool
  deriving DecidableEq, Repr

/-- How far an activation came before cleaning up. -/
structure Attempt where
  outcome : Outcome
  pages : Option ControlPages
  activator : Activator

namespace Activator

open Program

def fresh : Activator where
  stage := .start
  turnedOn := false

def advance (a : Activator) (next : Stage) : Program Activator := do
  log (.stageChange a.stage next)
  return { a with stage := next }

def enterGuest (a : Activator) (efer : Register) (pages : ControlPages) : Program Attempt := do
  let a ← a.advance .saveAreaSetup
  request (.writeMsr .hostSave pages.saveArea.toRegister)
  log (.saveAreaRegistered pages.saveArea)
  let a ← a.advance .entry
  request (.enterGuest pages.vmcb)
  let exit ← Vmcb.readExit pages.vmcb
  when exit.isInvalid (log .entryRejected)
  return {
    outcome := .ok { vmcb := pages.vmcb, saveArea := pages.saveArea, efer, exit }
    pages := some pages
    activator := a }

def activate (a : Activator) : Program Attempt := do
  let a ← a.advance .enable
  let efer ← Switch.turnOn
  let a ← { a with turnedOn := true }.advance .allocation
  match ← ControlPages.allocate with
  | .error failure => return { outcome := .error failure, pages := none, activator := a }
  | .ok pages => a.enterGuest efer pages

/-- Goes through the stages up to the entry, or to the first that fails. -/
def attempt (a : Activator) : Program Attempt := do
  let a ← a.advance .registerAccess
  if ← Capability.hasRegisterAccess then
    let a ← a.advance .capability
    let availability ← Capability.probe
    log (.availability availability)
    match availability.failure? with
    | some failure => return { outcome := .error failure, pages := none, activator := a }
    | none => a.activate
  else
    return { outcome := .error .noRegisterAccess, pages := none, activator := a }

def closing : Outcome → Log.Message
  | .ok completion => .entryCompleted completion.exit
  | .error failure => .entryFailed failure

/-- One activation: whatever comes of it, the pages are handed back. -/
def run (a : Activator) : Program (Outcome × Activator) := do
  let attempt ← a.attempt
  let a ← attempt.activator.advance .termination
  log (closing attempt.outcome)
  let a ← a.advance .cleanup
  Frame.giveBackAll (attempt.pages.elim [] ControlPages.frames)
  let a ← a.advance .done
  return (attempt.outcome, a)

end Activator

end SvmActivation
