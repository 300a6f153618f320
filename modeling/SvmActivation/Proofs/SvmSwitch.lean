import SvmActivation.Proofs.Effects

namespace SvmActivation

namespace Efer

@[simp]
theorem hasSvm_withSvm (efer : Register) : hasSvm (withSvm efer) = true := by
  simp [hasSvm, withSvm, Register.setBit, svmEnable]

@[simp]
theorem hasSvm_withoutSvm (efer : Register) : hasSvm (withoutSvm efer) = false := by
  simp [hasSvm, withoutSvm, Register.clearBit, svmEnable]

theorem getLsbD_withSvm (efer : Register) {i : Nat} (h : i ≠ svmEnable) :
    (withSvm efer).bits.getLsbD i = efer.bits.getLsbD i := by
  rw [withSvm, Register.setBit, BitVec.getLsbD_or, BitVec.getLsbD_twoPow]
  simp [Ne.symm h]

theorem getLsbD_withoutSvm (efer : Register) {i : Nat} (h : i ≠ svmEnable) (hi : i < 64) :
    (withoutSvm efer).bits.getLsbD i = efer.bits.getLsbD i := by
  rw [withoutSvm, Register.clearBit, BitVec.getLsbD_and, BitVec.getLsbD_not, BitVec.getLsbD_twoPow]
  simp [Ne.symm h, hi]

theorem ext_svm {a b : Register} (hsvm : hasSvm a = hasSvm b)
    (hrest : ∀ i < 64, i ≠ svmEnable → a.bits.getLsbD i = b.bits.getLsbD i) : a = b := by
  refine Register.ext (BitVec.eq_of_getLsbD_eq fun i hi => ?_)
  by_cases h : i = svmEnable
  · rw [h]
    exact hsvm
  · exact hrest i hi h

theorem withSvm_eq_self {efer : Register} (h : hasSvm efer = true) : withSvm efer = efer :=
  ext_svm (by rw [hasSvm_withSvm, h]) fun _ _ hi => getLsbD_withSvm efer hi

theorem withoutSvm_eq_self {efer : Register} (h : hasSvm efer = false) :
    withoutSvm efer = efer :=
  ext_svm (by rw [hasSvm_withoutSvm, h]) fun _ hlt hi => getLsbD_withoutSvm efer hi hlt

theorem withoutSvm_eq_self_iff (efer : Register) :
    withoutSvm efer = efer ↔ hasSvm efer = false := by
  refine ⟨fun h => ?_, withoutSvm_eq_self⟩
  rw [← h, hasSvm_withoutSvm]

theorem withSvm_withSvm (efer : Register) : withSvm (withSvm efer) = withSvm efer :=
  withSvm_eq_self (hasSvm_withSvm efer)

theorem withoutSvm_withSvm (efer : Register) : withoutSvm (withSvm efer) = withoutSvm efer := by
  refine ext_svm (by simp) fun i hlt hi => ?_
  rw [getLsbD_withoutSvm _ hi hlt, getLsbD_withSvm _ hi, getLsbD_withoutSvm _ hi hlt]

end Efer

namespace Core

variable (core : Core) {msr other : Msr} (value : Register)

@[simp]
theorem readMsr_setMsr_self : (core.setMsr msr value).readMsr msr = value := by
  simp [readMsr, setMsr]

theorem readMsr_setMsr_of_ne (h : other ≠ msr) :
    (core.setMsr msr value).readMsr other = core.readMsr other := by
  simp [readMsr, setMsr, h]

theorem readMsr_writeMsr_self (h : msr ∉ core.readOnly) :
    (core.writeMsr msr value).readMsr msr = value := by
  rw [writeMsr, if_neg h, readMsr_setMsr_self]

theorem readMsr_writeMsr_of_ne (h : other ≠ msr) :
    (core.writeMsr msr value).readMsr other = core.readMsr other := by
  rw [writeMsr]
  split
  · rfl
  · exact core.readMsr_setMsr_of_ne value h

@[simp]
theorem writeMsr_readOnly : (core.writeMsr msr value).readOnly = core.readOnly := by
  rw [writeMsr]
  split <;> rfl

theorem readMsr_foldl_setMsr (sets : List (Msr × Register)) (h : msr ∉ sets.map Prod.fst) :
    (sets.foldl (fun core set => core.setMsr set.1 set.2) core).readMsr msr =
      core.readMsr msr := by
  induction sets generalizing core with
  | nil => rfl
  | cons set rest ih =>
    rw [List.map_cons, List.mem_cons, not_or] at h
    rw [List.foldl_cons, ih _ h.2, core.readMsr_setMsr_of_ne set.2 h.1]

end Core

namespace Machine

def eferWithSvm (m : Machine) : Register :=
  Efer.withSvm (m.core.readMsr .efer)

def turnOn (m : Machine) : Machine :=
  { m with core := m.core.writeMsr .efer m.eferWithSvm }

def turnOff (m : Machine) : Machine :=
  { m with core :=
      (m.core.writeMsr .efer (Efer.withoutSvm (m.core.readMsr .efer))).writeMsr .hostSave .zero }

end Machine

namespace Switch

open Program

@[simp]
theorem isOn_value (m : Machine) : (isOn.run m).value = Efer.hasSvm (m.core.readMsr .efer) := rfl

@[simp]
theorem isOn_machine (m : Machine) : (isOn.run m).machine = m := rfl

@[simp]
theorem turnOn_value (m : Machine) : (turnOn.run m).value = m.eferWithSvm := by
  simp [turnOn, request, Machine.serve, run_when, apply_ite, Machine.eferWithSvm]

@[simp]
theorem turnOn_machine (m : Machine) : (turnOn.run m).machine = m.turnOn := by
  simp [turnOn, request, Machine.serve, run_when, apply_ite, Machine.turnOn, Machine.eferWithSvm]

@[simp]
theorem turnOff_machine (m : Machine) : (turnOff.run m).machine = m.turnOff := rfl

@[simp]
theorem ensureOff_machine (m : Machine) :
    (ensureOff.run m).machine =
      if Efer.hasSvm (m.core.readMsr .efer) then m.turnOff else m := by
  simp [ensureOff, run_when, apply_ite Execution.machine]

end Switch

namespace Core

def availability (core : Core) : Availability :=
  if (core.cpuid .extendedFeatures).ecx.getLsbD Capability.svmBit then
    if (core.readMsr .vmCr).bits.getLsbD VmCr.Flag.svmDisabled.position then
      if (core.cpuid .svmIdentification).edx.getLsbD Capability.keyBit then .firmwareLockedWithKey
      else .firmwareLocked
    else .allowed
  else .notAvailable

def obstacle? (core : Core) : Option Failure :=
  if (core.cpuid .features).edx.getLsbD Capability.registerAccessBit then
    core.availability.failure?
  else some .noRegisterAccess

end Core

theorem VmCr.has_eq (v : VmCr) (flag : Flag) : v.has flag = v.bits.getLsbD flag.position := by
  have hlt : flag.position < 64 := by cases flag <;> decide
  have hand : v ∩ ⟨flag.mask⟩ = (⟨v.bits &&& flag.mask⟩ : VmCr) := rfl
  rw [Bool.eq_iff_iff, has, contains, decide_eq_true_iff, hand, Flag.mask, BitVec.and_twoPow,
    VmCr.mk.injEq]
  by_cases h : v.bits.getLsbD flag.position = true
  · simp [h]
  · rw [if_neg h]
    refine ⟨fun he => absurd (congrArg (·.getLsbD flag.position) he) ?_, fun he => absurd he h⟩
    simp [hlt]

namespace Capability

open Program

@[simp]
theorem hasRegisterAccess_value (m : Machine) :
    (hasRegisterAccess.run m).value = (m.core.cpuid .features).edx.getLsbD registerAccessBit := by
  simp [hasRegisterAccess, request, Machine.serve]

@[simp]
theorem hasRegisterAccess_machine (m : Machine) : (hasRegisterAccess.run m).machine = m := rfl

theorem lockKind_value (m : Machine) :
    (lockKind.run m).value =
      if (m.core.cpuid .svmIdentification).edx.getLsbD keyBit then .firmwareLockedWithKey
      else .firmwareLocked := by
  simp only [lockKind, request, ask_bind, done_bind, run_ask, run_bind_value, run_log, run_ite,
    Execution.behind_value, apply_ite Execution.value]
  rfl

@[simp]
theorem probe_value (m : Machine) : (probe.run m).value = m.core.availability := by
  simp only [probe, request, ask_bind, done_bind, run_ask, run_bind_value, run_log, run_ite,
    Execution.behind_value, VmCr.has_eq, Core.availability, apply_ite Execution.value,
    lockKind_value]
  rfl

@[simp]
theorem probe_machine (m : Machine) : (probe.run m).machine = m :=
  probe_within.machine_eq (by decide) m

end Capability

end SvmActivation
