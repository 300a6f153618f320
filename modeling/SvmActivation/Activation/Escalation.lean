import SvmActivation.Activation.Activator
import SvmActivation.Program.Basic

namespace SvmActivation

/-- The hooks around an activation: one for loading the hypervisor, one for unloading it. -/
structure Loader where
  /-- Whether SVM was turned on since it was unloaded last. -/
  turnedOn : Bool
  lastOutcome : Option Outcome

namespace Loader

open Program

def fresh : Loader where
  turnedOn := false
  lastOutcome := none

def load (l : Loader) : Program (Nat × Loader) := do
  log .loaded
  let (outcome, activator) ← Activator.fresh.run
  return (outcome.status, {
    turnedOn := l.turnedOn || activator.turnedOn
    lastOutcome := some outcome })

/-- Turns SVM off if an activation turned it on and it still is. -/
def unload (l : Loader) : Program Loader := do
  when l.turnedOn Switch.ensureOff
  log .unloaded
  return { l with turnedOn := false }

end Loader

/-- Hands a failure on to the surrounding system, with a warning that names what it becomes. -/
def Failure.escalate (failure : Failure) : Program HostError := do
  Program.log (.hostError failure.hostError)
  return failure.hostError

end SvmActivation
