import SvmActivation.Program.Basic

namespace SvmActivation

namespace Capability

open Program

def registerAccessBit : Nat := 5

def svmBit : Nat := 1

def keyBit : Nat := 1

def hasRegisterAccess : Program Bool := do
  let words ← request (.cpuid .features)
  log (.featureEdx .features words.edx)
  return words.edx.getLsbD registerAccessBit

def identification : Program SvmIdentification := do
  let words ← request (.cpuid .svmIdentification)
  return .ofWords words

def lockKind : Program Availability := do
  let words ← request (.cpuid .svmIdentification)
  log (.featureEdx .svmIdentification words.edx)
  if words.edx.getLsbD keyBit then
    log .keyMayUnlock
    return .firmwareLockedWithKey
  else
    log .firmwareLocked
    return .firmwareLocked

/-- `VM_CR` exists only where SVM does, so it is read only there. -/
def probe : Program Availability := do
  let words ← request (.cpuid .extendedFeatures)
  log (.featureEcx .extendedFeatures words.ecx)
  if words.ecx.getLsbD svmBit then
    let value ← request (.readMsr .vmCr)
    let vmCr : VmCr := ⟨value.bits⟩
    log (.vmCr vmCr)
    if vmCr.has .svmDisabled then
      lockKind
    else
      let i ← identification
      log (.identification i)
      return .allowed
  else
    return .notAvailable

/-- Whether an activation on this core would get as far as turning SVM on. -/
def hasHardwareSupport : Program Bool := do
  if ← hasRegisterAccess then
    return (← probe).isAllowed
  else
    return false

end Capability

namespace Switch

open Program

def isOn : Program Bool := do
  return Efer.hasSvm (← request (.readMsr .efer))

/-- Turns SVM on and ends with the value written; the other bits of the register stay. -/
def turnOn : Program Register := do
  let old ← request (.readMsr .efer)
  log (.eferBefore old)
  when (Efer.hasSvm old) (log .alreadyEnabled)
  let cr0 ← request .readCr0
  request (.logMode (cr0.bits.getLsbD 0))
  let new := Efer.withSvm old
  request (.writeMsr .efer new)
  log (.svmEnabled new)
  return new

/-- Turns SVM off and forgets the host save area. -/
def turnOff : Program Unit := do
  let old ← request (.readMsr .efer)
  request (.writeMsr .efer (Efer.withoutSvm old))
  request (.writeMsr .hostSave .zero)
  log .svmDisabled

def ensureOff : Program Unit := do
  when (← isOn) turnOff

end Switch

end SvmActivation
