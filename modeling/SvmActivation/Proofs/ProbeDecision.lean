import SvmActivation.Proofs.StageTable

namespace SvmActivation

open Program

/-- The decision on SVM by its feature bit, the bit that disables it and the bit for a key. -/
def Availability.ofBits (svm disabled key : Bool) : Availability :=
  if svm = false then .notAvailable
  else if disabled = false then .allowed
  else if key = false then .firmwareLocked
  else .firmwareLockedWithKey

theorem Failure.stage_eq_allocation_iff (failure : Failure) :
    failure.stage = .allocation ↔ failure = .noFrame ∨ ∃ frame, failure = .misaligned frame := by
  cases failure <;> simp [stage]

theorem Availability.stage_of_failure? {availability : Availability} {failure : Failure}
    (h : availability.failure? = some failure) : failure.stage = .capability := by
  cases availability <;> cases h <;> rfl

namespace Core

variable {core : Core}

theorem obstacle?_eq_some_iff {failure : Failure} :
    core.obstacle? = some failure ↔
      ((core.cpuid .features).edx.getLsbD Capability.registerAccessBit = false ∧
          failure = .noRegisterAccess) ∨
        ((core.cpuid .features).edx.getLsbD Capability.registerAccessBit = true ∧
          core.availability.failure? = some failure) := by
  rw [obstacle?]
  cases (core.cpuid .features).edx.getLsbD Capability.registerAccessBit with
  | false => simp [eq_comm]
  | true => simp

theorem stage_of_obstacle? {failure : Failure} (h : core.obstacle? = some failure) :
    failure.stage ≠ .allocation := by
  rcases obstacle?_eq_some_iff.1 h with ⟨-, rfl⟩ | ⟨-, havailability⟩
  · decide
  · rw [Availability.stage_of_failure? havailability]
    decide

end Core

namespace Machine

variable {m : Machine} {failure : Failure}

theorem outcome_of_obstacle (h : m.core.obstacle? = some failure) : m.outcome = .error failure := by
  rw [outcome, course, h]

/-- Once SVM is turned on, only a page can be missing. -/
theorem stage_of_outcome (h : m.core.obstacle? = none) (houtcome : m.outcome = .error failure) :
    failure.stage = .allocation := by
  rw [outcome, course, h] at houtcome
  cases hoffered : m.pagesOffered with
  | error missing =>
    rw [hoffered] at houtcome
    cases houtcome
    exact ControlPages.stage_of_judge hoffered
  | ok pages =>
    rw [hoffered] at houtcome
    cases houtcome

theorem obstacle?_eq_some_iff :
    m.core.obstacle? = some failure ↔ m.outcome = .error failure ∧ failure.stage ≠ .allocation := by
  constructor
  · intro h
    exact ⟨outcome_of_obstacle h, Core.stage_of_obstacle? h⟩
  · rintro ⟨houtcome, hstage⟩
    cases hobstacle : m.core.obstacle? with
    | none => exact absurd (stage_of_outcome hobstacle houtcome) hstage
    | some other =>
      cases (outcome_of_obstacle hobstacle).symm.trans houtcome
      rfl

theorem obstacle?_eq_none_iff :
    m.core.obstacle? = none ↔
      (∃ completion, m.outcome = .ok completion) ∨ m.outcome = .error .noFrame ∨
        ∃ frame, m.outcome = .error (.misaligned frame) := by
  rw [Option.eq_none_iff_forall_ne_some]
  simp only [ne_eq, obstacle?_eq_some_iff]
  cases m.outcome with
  | ok completion => simp
  | error failure =>
    simp only [reduceCtorEq, exists_false, false_or, Except.error.injEq, forall_eq', not_and,
      Decidable.not_not, ← Failure.stage_eq_allocation_iff]

end Machine

theorem Core.availability_eq (core : Core) :
    core.availability = .ofBits ((core.cpuid .extendedFeatures).ecx.getLsbD 1)
      ((core.readMsr .vmCr).bits.getLsbD 4) ((core.cpuid .svmIdentification).edx.getLsbD 1) := by
  have hbits (svm disabled key : Bool) :
      (if svm then
        if disabled then if key then .firmwareLockedWithKey else .firmwareLocked else .allowed
      else .notAvailable) = Availability.ofBits svm disabled key := by
    cases svm <;> cases disabled <;> cases key <;> rfl
  exact hbits _ _ _

namespace Capability

@[simp]
theorem hasHardwareSupport_value (m : Machine) :
    (hasHardwareSupport.run m).value = m.core.obstacle?.isNone := by
  simp only [hasHardwareSupport, run_bind_value, run_ite, apply_ite Execution.value,
    hasRegisterAccess_value, hasRegisterAccess_machine, probe_value, pure_eq, run_done,
    Core.obstacle?]
  split
  · cases m.core.availability <;> rfl
  · rfl

/-- The probe decides by three bits, and an activation on the core comes to the same. -/
theorem probe_decides (a : Activator) (m : Machine) :
    let registers := (m.core.cpuid 0x00000001).edx.getLsbD 5
    let svm := (m.core.cpuid 0x80000001).ecx.getLsbD 1
    let disabled := (m.core.readMsr .vmCr).bits.getLsbD 4
    let key := (m.core.cpuid 0x8000000a).edx.getLsbD 1
    let probed := probe.run m
    let supported := (hasHardwareSupport.run m).value
    let outcome := (a.run.run m).value.1
    (probed.value = .ofBits svm disabled key ∧
      acts probed.timeline = .cpuid 0x80000001 ::
        (if svm then [.readMsr .vmCr, .cpuid 0x8000000a] else []) ∧
      probed.machine = m) ∧
    (supported = true ↔ (∃ completion, outcome = .ok completion) ∨ outcome = .error .noFrame ∨
      ∃ frame, outcome = .error (.misaligned frame)) ∧
    (supported = false ↔ ∃ failure, outcome = .error failure ∧
      ((registers = false ∧ failure = .noRegisterAccess) ∨
        (registers = true ∧ probed.value.failure? = some failure))) := by
  intro registers svm disabled key probed supported outcome
  have hsupported : supported = m.core.obstacle?.isNone := hasHardwareSupport_value m
  have houtcome : outcome = m.outcome := by
    simp only [outcome, Activator.run_value]
  have hprobed : probed.value = m.core.availability := probe_value m
  refine ⟨⟨?_, probe_acts m, probe_machine m⟩, ?_, ?_⟩
  · rw [hprobed]
    exact m.core.availability_eq
  · rw [hsupported, houtcome, Option.isNone_iff_eq_none]
    exact Machine.obstacle?_eq_none_iff
  · rw [hsupported, houtcome, hprobed, Option.isNone_eq_false_iff, Option.isSome_iff_exists]
    constructor
    · rintro ⟨failure, hobstacle⟩
      exact ⟨failure, Machine.outcome_of_obstacle hobstacle, Core.obstacle?_eq_some_iff.1 hobstacle⟩
    · rintro ⟨failure, -, hcause⟩
      exact ⟨failure, Core.obstacle?_eq_some_iff.2 hcause⟩

end Capability

end SvmActivation
