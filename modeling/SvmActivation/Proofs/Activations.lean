import SvmActivation.Proofs.PageSupply
import SvmActivation.Proofs.SvmSwitch
import SvmActivation.Proofs.Timelines

namespace SvmActivation

open Program

/-- How far an activation comes. -/
inductive Course where
  | refused (failure : Failure)
  | unsupplied (failure : Failure)
  | entered (pages : ControlPages)

namespace Machine

def pagesOffered (m : Machine) : Except Failure ControlPages :=
  ControlPages.judge m.allocator.answer m.allocator.afterRequest.answer

def course (m : Machine) : Course :=
  match m.core.obstacle? with
  | some failure => .refused failure
  | none =>
    match m.pagesOffered with
    | .error failure => .unsupplied failure
    | .ok pages => .entered pages

def supplied (m : Machine) (pages : ControlPages) : Machine :=
  (m.turnOn.afterRequest.zero pages.vmcb).afterRequest.zero pages.saveArea

def registerSaveArea (m : Machine) (page : Address) : Machine :=
  { m with core := m.core.writeMsr .hostSave page.toRegister }

def prepared (m : Machine) (pages : ControlPages) : Machine :=
  (m.supplied pages).registerSaveArea pages.saveArea

def exitRecord (m : Machine) (vmcb : Address) : ExitRecord where
  code := (m.memory.bytes vmcb).loadWord ExitField.code.offset
  info1 := (m.memory.bytes vmcb).loadWord ExitField.info1.offset
  info2 := (m.memory.bytes vmcb).loadWord ExitField.info2.offset

def outcome (m : Machine) : Outcome :=
  match m.course with
  | .refused failure => .error failure
  | .unsupplied failure => .error failure
  | .entered pages => .ok {
      vmcb := pages.vmcb
      saveArea := pages.saveArea
      efer := m.eferWithSvm
      exit := ((m.prepared pages).enterGuest pages.vmcb).exitRecord pages.vmcb }

def activatedCore (m : Machine) : Core :=
  match m.course with
  | .refused _ => m.core
  | .unsupplied _ => m.turnOn.core
  | .entered pages => ((m.prepared pages).enterGuest pages.vmcb).core

/-- The moments at which an activation on a machine writes a register or enters the guest. -/
def activationActions (m : Machine) : List Moment :=
  match m.course with
  | .refused _ => []
  | .unsupplied _ => [⟨m, .writeMsr .efer m.eferWithSvm⟩]
  | .entered pages =>
    [⟨m, .writeMsr .efer m.eferWithSvm⟩,
      ⟨m.supplied pages, .writeMsr .hostSave pages.saveArea.toRegister⟩,
      ⟨m.prepared pages, .enterGuest pages.vmcb⟩]

theorem course_eq_entered {m : Machine} {pages : ControlPages} :
    m.course = .entered pages ↔ m.core.obstacle? = none ∧ m.pagesOffered = .ok pages := by
  rw [course]
  cases m.core.obstacle? with
  | some failure => simp
  | none => cases m.pagesOffered <;> simp

theorem obstacle?_of_entered {m : Machine} {pages : ControlPages} (h : m.course = .entered pages) :
    m.core.obstacle? = none :=
  (course_eq_entered.1 h).1

theorem obstacle?_eq (m : Machine) :
    m.core.obstacle? =
      match m.course with
      | .refused failure => some failure
      | _ => none := by
  rw [course]
  cases m.core.obstacle? with
  | some failure => rfl
  | none => cases m.pagesOffered <;> rfl

theorem pagesOffered_of_entered {m : Machine} {pages : ControlPages}
    (h : m.course = .entered pages) : m.pagesOffered = .ok pages :=
  (course_eq_entered.1 h).2

theorem obstacle?_of_mem_activationActions {m : Machine} {moment : Moment}
    (hm : moment ∈ m.activationActions) : m.core.obstacle? = none := by
  cases hobstacle : m.core.obstacle? with
  | none => rfl
  | some failure =>
    rw [activationActions, course, hobstacle] at hm
    cases hm

theorem writeEfer_mem_activationActions {m : Machine} (h : m.core.obstacle? = none) :
    ⟨m, .writeMsr .efer m.eferWithSvm⟩ ∈ m.activationActions := by
  rw [activationActions, course, h]
  cases m.pagesOffered <;> exact List.mem_cons_self

/-- An activation enters a guest only once its pages and the core are ready. -/
theorem exists_pages_of_mem_activationActions {m : Machine} {moment : Moment} {vmcb : Address}
    (hm : moment ∈ m.activationActions) (hentry : moment.request = .enterGuest vmcb) :
    ∃ pages, m.course = .entered pages ∧ vmcb = pages.vmcb ∧
      moment.machine = m.prepared pages := by
  rw [activationActions] at hm
  cases hcourse : m.course with
  | refused failure =>
    rw [hcourse] at hm
    cases hm
  | unsupplied failure =>
    rw [hcourse] at hm
    cases List.mem_singleton.1 hm
    cases hentry
  | entered pages =>
    rw [hcourse] at hm
    simp only [List.mem_cons, List.not_mem_nil, or_false] at hm
    rcases hm with rfl | rfl | rfl
    · cases hentry
    · cases hentry
    · cases hentry
      exact ⟨pages, rfl, rfl, rfl⟩

end Machine

namespace Activator

@[simp]
theorem advance_value (a : Activator) (next : Stage) (m : Machine) :
    ((a.advance next).run m).value = { a with stage := next } := rfl

@[simp]
theorem advance_machine (a : Activator) (next : Stage) (m : Machine) :
    ((a.advance next).run m).machine = m := rfl

/-- The part of an activation that changes nothing: it ends with what stands against going on. -/
def inspect (a : Activator) : Program (Option Failure) := do
  let a ← a.advance .registerAccess
  if ← Capability.hasRegisterAccess then
    let _ ← a.advance .capability
    let availability ← Capability.probe
    log (.availability availability)
    return availability.failure?
  else
    return some .noRegisterAccess

theorem inspect_within (a : Activator) : a.inspect.Within [.look, .stage, .report] := by
  refine .bind ((a.advance_within _).mono (by decide)) fun a => ?_
  refine .bind (Capability.hasRegisterAccess_within.mono (by decide)) fun _ => .ite ?_ trivial
  refine .bind ((a.advance_within _).mono (by decide)) fun _ => ?_
  refine .bind (Capability.probe_within.mono (by decide)) fun _ => ?_
  exact .bind (.request (by simp)) fun _ => trivial

@[simp]
theorem inspect_machine (a : Activator) (m : Machine) : (a.inspect.run m).machine = m :=
  a.inspect_within.machine_eq (by decide) m

@[simp]
theorem inspect_value (a : Activator) (m : Machine) :
    (a.inspect.run m).value = m.core.obstacle? := by
  simp [inspect, run_ite, apply_ite Execution.value, Core.obstacle?]

theorem attempt_eq (a : Activator) :
    a.attempt = a.inspect >>= fun
      | some failure =>
        done ⟨.error failure, none, { a with stage := failure.stage }⟩
      | none => activate { a with stage := .capability } := by
  simp only [attempt, inspect, advance, bind_assoc, log, request, ask_bind, done_bind, pure_eq]
  congr 1
  funext _
  congr 1
  funext registerAccess
  cases registerAccess with
  | false => rfl
  | true =>
    simp only [↓reduceIte, bind_assoc, ask_bind, done_bind]
    congr 1
    funext _
    congr 1
    funext availability
    cases availability <;> rfl

theorem enterGuest_within (a : Activator) (efer : Register) (pages : ControlPages) :
    (a.enterGuest efer pages).Within [.stage, .report, .register, .guest, .page] := by
  refine .bind ((a.advance_within _).mono (by decide)) fun a => ?_
  refine .bind (.request (by simp)) fun _ => .bind (.request (by simp)) fun _ => ?_
  refine .bind ((a.advance_within _).mono (by decide)) fun a => ?_
  refine .bind (.request (by simp)) fun _ => ?_
  refine .bind ((Vmcb.readExit_within _).mono (by decide)) fun exit => ?_
  exact .bind (.when _ (.request (by simp))) fun _ => trivial

theorem enterGuest_actions (a : Activator) (efer : Register) (pages : ControlPages) (m : Machine) :
    actions ((a.enterGuest efer pages).run m).timeline =
      [⟨m, .writeMsr .hostSave pages.saveArea.toRegister⟩,
        ⟨m.registerSaveArea pages.saveArea, .enterGuest pages.vmcb⟩] := by
  have hread (m : Machine) := (Vmcb.readExit_within pages.vmcb).actions_eq_nil (by decide) m
  have hreject (c : Bool) (m : Machine) :
      actions ((when c (log .entryRejected)).run m).timeline = [] := by
    cases c <;> rfl
  simp only [enterGuest, request, ask_bind, done_bind, run_bind_timeline, run_ask, actions_append,
    Execution.behind_timeline, hread, hreject]
  rfl

theorem readExit_value (vmcb : Address) (m : Machine) :
    ((Vmcb.readExit vmcb).run m).value = m.exitRecord vmcb := by
  simp only [Vmcb.readExit, request, ask_bind, done_bind, run_ask, Execution.behind_value,
    Machine.serve, Memory.bytes_touch]
  rfl

theorem enterGuest_value (a : Activator) (efer : Register) (pages : ControlPages) (m : Machine) :
    ((a.enterGuest efer pages).run m).value = {
      outcome := .ok {
        vmcb := pages.vmcb
        saveArea := pages.saveArea
        efer
        exit := ((m.registerSaveArea pages.saveArea).enterGuest pages.vmcb).exitRecord pages.vmcb }
      pages := some pages
      activator := ⟨.entry, a.turnedOn⟩ } := by
  simp only [enterGuest, run_bind_value, readExit_value]
  rfl

theorem enterGuest_core (a : Activator) (efer : Register) (pages : ControlPages) (m : Machine) :
    ((a.enterGuest efer pages).run m).machine.core =
      ((m.registerSaveArea pages.saveArea).enterGuest pages.vmcb).core := by
  have hread (m : Machine) := (Vmcb.readExit_within pages.vmcb).core_eq (by decide) m
  have hreject (c : Bool) (m : Machine) :
      ((when c (log .entryRejected)).run m).machine.core = m.core := by
    cases c <;> rfl
  simp only [enterGuest, run_bind_machine, pure_eq, run_done, hreject, hread]
  rfl

/-- Turning SVM on is one write, whose value keeps every other bit. -/
theorem turnOn_actions (m : Machine) :
    actions (Switch.turnOn.run m).timeline = [⟨m, .writeMsr .efer m.eferWithSvm⟩] := by
  simp only [Switch.turnOn, request, log, ask_bind, done_bind, run_bind_timeline, run_ask, run_when,
    apply_ite Execution.timeline, actions_append, Execution.behind_timeline]
  split <;> rfl

/-- The part of an activation that turns SVM on and takes the pages for the entry. -/
def supply (a : Activator) : Program (Register × Except Failure ControlPages) := do
  let a ← a.advance .enable
  let efer ← Switch.turnOn
  let _ ← a.advance .allocation
  return (efer, ← ControlPages.allocate)

@[simp]
theorem supply_value (a : Activator) (m : Machine) :
    (a.supply.run m).value = (m.eferWithSvm, m.pagesOffered) := by
  simp only [supply, run_bind_value, advance_value, advance_machine, Switch.turnOn_value,
    Switch.turnOn_machine, ControlPages.allocate_value, pure_eq, run_done]
  rfl

theorem supply_machine (a : Activator) (m : Machine) :
    (a.supply.run m).machine = (ControlPages.allocate.run m.turnOn).machine := by
  simp only [supply, run_bind_machine, advance_value, advance_machine, Switch.turnOn_machine,
    pure_eq, run_done]

theorem supply_machine_of_ok (a : Activator) {m : Machine} {pages : ControlPages}
    (h : m.pagesOffered = .ok pages) : (a.supply.run m).machine = m.supplied pages := by
  rw [supply_machine]
  exact ControlPages.allocate_machine_of_ok h

theorem supply_actions (a : Activator) (m : Machine) :
    actions (a.supply.run m).timeline = [⟨m, .writeMsr .efer m.eferWithSvm⟩] := by
  simp only [supply, run_bind_timeline, actions_append, advance_machine, turnOn_actions,
    ControlPages.allocate_within.actions_eq_nil (by decide)]
  rfl

theorem supply_stageChanges (a : Activator) (m : Machine) :
    stageChanges (a.supply.run m).timeline = [(a.stage, .enable), (.enable, .allocation)] := by
  simp only [supply, run_bind_timeline, stageChanges_append,
    Switch.turnOn_within.stageChanges_eq_nil (by decide),
    ControlPages.allocate_within.stageChanges_eq_nil (by decide)]
  rfl

theorem activate_eq (a : Activator) :
    a.activate = a.supply >>= fun
      | (_, .error failure) => done ⟨.error failure, none, ⟨.allocation, true⟩⟩
      | (efer, .ok pages) => enterGuest ⟨.allocation, true⟩ efer pages := by
  simp only [activate, supply, advance, log, request, bind_assoc, ask_bind, done_bind, pure_eq]
  congr 1
  funext _
  congr 1
  funext efer
  congr 1
  funext _
  congr 1
  funext offer
  cases offer <;> rfl

def preparation (a : Activator) (m : Machine) : List Moment :=
  (a.inspect.run m).timeline ++ ((supply ⟨.capability, a.turnedOn⟩).run m).timeline

/-- How far an activation comes decides what it does. -/
theorem attempt_run (a : Activator) (m : Machine) :
    a.attempt.run m =
      match m.course with
      | .refused failure =>
        ⟨⟨.error failure, none, ⟨failure.stage, a.turnedOn⟩⟩, m, (a.inspect.run m).timeline⟩
      | .unsupplied failure =>
        ⟨⟨.error failure, none, ⟨.allocation, true⟩⟩,
          ((supply ⟨.capability, a.turnedOn⟩).run m).machine, a.preparation m⟩
      | .entered pages =>
        ((enterGuest ⟨.allocation, true⟩ m.eferWithSvm pages).run (m.supplied pages)).behind
          (a.preparation m) := by
  rw [attempt_eq, run_bind, inspect_value, inspect_machine, Machine.course]
  cases m.core.obstacle? with
  | some failure => simp only [run_done, Execution.behind, List.append_nil]
  | none =>
    simp only [activate_eq, run_bind, supply_value]
    cases hoffered : m.pagesOffered with
    | error failure => simp only [run_done, Execution.behind, List.append_nil, preparation]
    | ok pages =>
      simp only [supply_machine_of_ok _ hoffered, Execution.behind, preparation, List.append_assoc]

theorem preparation_actions (a : Activator) (m : Machine) :
    actions (a.preparation m) = [⟨m, .writeMsr .efer m.eferWithSvm⟩] := by
  rw [preparation, actions_append, a.inspect_within.actions_eq_nil (by decide), supply_actions,
    List.nil_append]

theorem attempt_actions (a : Activator) (m : Machine) :
    actions (a.attempt.run m).timeline = m.activationActions := by
  rw [attempt_run, Machine.activationActions]
  cases m.course with
  | refused failure => exact a.inspect_within.actions_eq_nil (by decide) m
  | unsupplied failure => exact a.preparation_actions m
  | entered pages =>
    rw [Execution.behind_timeline, actions_append, preparation_actions, enterGuest_actions]
    rfl

theorem attempt_outcome (a : Activator) (m : Machine) :
    (a.attempt.run m).value.outcome = m.outcome := by
  rw [attempt_run, Machine.outcome]
  cases m.course with
  | refused failure => rfl
  | unsupplied failure => rfl
  | entered pages =>
    rw [Execution.behind_value, enterGuest_value]
    rfl

theorem attempt_turnedOn (a : Activator) (m : Machine) :
    (a.attempt.run m).value.activator.turnedOn = (a.turnedOn || m.core.obstacle?.isNone) := by
  rw [attempt_run, m.obstacle?_eq]
  cases m.course with
  | refused failure => simp
  | unsupplied failure => simp
  | entered pages => simp [enterGuest_value]

theorem attempt_core (a : Activator) (m : Machine) :
    (a.attempt.run m).machine.core = m.activatedCore := by
  rw [attempt_run, Machine.activatedCore]
  cases m.course with
  | refused failure => rfl
  | unsupplied failure =>
    simp only [supply_machine, ControlPages.allocate_within.core_eq (by decide)]
  | entered pages =>
    rw [Execution.behind_machine, enterGuest_core]
    rfl

theorem inspect_stageChanges (a : Activator) (m : Machine) :
    stageChanges (a.inspect.run m).timeline =
      if (m.core.cpuid .features).edx.getLsbD Capability.registerAccessBit then
        [(a.stage, .registerAccess), (.registerAccess, .capability)]
      else [(a.stage, .registerAccess)] := by
  have haccess := Capability.hasRegisterAccess_within.stageChanges_eq_nil (by decide) m
  have hprobe := Capability.probe_within.stageChanges_eq_nil (by decide) m
  rw [inspect, run_bind_timeline, run_bind_timeline, stageChanges_append, stageChanges_append,
    advance_machine, haccess, Capability.hasRegisterAccess_value,
    Capability.hasRegisterAccess_machine]
  cases (m.core.cpuid .features).edx.getLsbD Capability.registerAccessBit with
  | false => rfl
  | true =>
    simp only [↓reduceIte, run_bind_timeline, stageChanges_append, advance_machine, hprobe]
    rfl

theorem attempt_supply_stageChanges (a : Activator) {m : Machine} (h : m.core.obstacle? = none) :
    [(.capability, .enable), (.enable, .allocation)] ⊆
      stageChanges (a.attempt.run m).timeline := by
  have hpreparation : [(.capability, .enable), (.enable, .allocation)] ⊆
      stageChanges (a.preparation m) := by
    rw [preparation, stageChanges_append, supply_stageChanges]
    exact List.subset_append_right _ _
  rw [m.obstacle?_eq] at h
  rw [attempt_run]
  cases hcourse : m.course with
  | refused failure =>
    rw [hcourse] at h
    cases h
  | unsupplied failure => exact hpreparation
  | entered pages =>
    rw [Execution.behind_timeline, stageChanges_append]
    exact List.subset_append_of_subset_left _ hpreparation

theorem mem_attempt_stageChanges (a : Activator) (m : Machine) :
    (.enable, .allocation) ∈ stageChanges (a.attempt.run m).timeline ↔
      m.core.obstacle? = none := by
  refine ⟨fun hmem => ?_, fun h => a.attempt_supply_stageChanges h (by simp)⟩
  rw [attempt_run] at hmem
  rw [m.obstacle?_eq]
  cases hcourse : m.course with
  | refused failure =>
    rw [hcourse] at hmem
    dsimp only at hmem
    rw [inspect_stageChanges] at hmem
    split at hmem <;> simp at hmem
  | unsupplied failure => rfl
  | entered pages => rfl

/-- The part of an activation after the attempt: a report, and the pages go back. -/
def settle (attempt : Attempt) : Program (Outcome × Activator) := do
  let a ← attempt.activator.advance .termination
  log (closing attempt.outcome)
  let a ← a.advance .cleanup
  Frame.giveBackAll (attempt.pages.elim [] ControlPages.frames)
  let a ← a.advance .done
  return (attempt.outcome, a)

theorem run_eq (a : Activator) : a.run = a.attempt >>= settle := rfl

theorem settle_within (attempt : Attempt) : (settle attempt).Within [.stage, .report, .frame] := by
  have hclosing : (Request.log (closing attempt.outcome)).effect ∈ [.stage, .report, .frame] := by
    cases attempt.outcome <;> simp [closing]
  refine .bind ((advance_within _ _).mono (by decide)) fun _ => ?_
  refine .bind (.request hclosing) fun _ => ?_
  refine .bind ((advance_within _ _).mono (by decide)) fun _ => ?_
  refine .bind ((Frame.giveBackAll_within _).mono (by decide)) fun _ => ?_
  exact .bind ((advance_within _ _).mono (by decide)) fun _ => trivial

theorem settle_stageChanges (attempt : Attempt) (m : Machine) :
    stageChanges ((settle attempt).run m).timeline =
      [(attempt.activator.stage, .termination), (.termination, .cleanup), (.cleanup, .done)] := by
  have hback (frames : List Address) (m : Machine) :=
    (Frame.giveBackAll_within frames).stageChanges_eq_nil (by decide) m
  have hclosing (outcome : Outcome) (m : Machine) :
      stageChanges ((log (closing outcome)).run m).timeline = [] := by
    cases outcome <;> rfl
  simp only [settle, run_bind_timeline, stageChanges_append, hback, hclosing]
  rfl

@[simp]
theorem run_value (a : Activator) (m : Machine) :
    (a.run.run m).value = (m.outcome, ⟨.done, a.turnedOn || m.core.obstacle?.isNone⟩) := by
  simp only [run, run_bind_value, advance_value, attempt_outcome, attempt_turnedOn, pure_eq,
    run_done]

theorem run_core (a : Activator) (m : Machine) : (a.run.run m).machine.core = m.activatedCore := by
  rw [run_eq, run_bind_machine, (settle_within _).core_eq (by decide), attempt_core]

theorem run_actions (a : Activator) (m : Machine) :
    actions (a.run.run m).timeline = m.activationActions := by
  rw [run_eq, run_bind_timeline, actions_append, attempt_actions,
    (settle_within _).actions_eq_nil (by decide), List.append_nil]

theorem mem_run_stageChanges (a : Activator) (m : Machine) :
    (.enable, .allocation) ∈ stageChanges (a.run.run m).timeline ↔ m.core.obstacle? = none := by
  rw [run_eq, run_bind_timeline, stageChanges_append, settle_stageChanges, List.mem_append,
    mem_attempt_stageChanges]
  simp

/-- A policy is kept by an activation if each of its parts keeps it. -/
theorem run_kept {concerns : List Request.Effect} {policy : Policy concerns} (a : Activator)
    {m : Machine} {history : List Moment}
    (hquiet : ∀ effect ∈ [.stage, .report, .frame], effect ∉ concerns)
    (hinspect : policy.Kept history (a.inspect.run m).timeline)
    (hsupply : m.core.obstacle? = none →
      policy.Kept (history ++ (a.inspect.run m).timeline)
        ((supply ⟨.capability, a.turnedOn⟩).run m).timeline)
    (henter : ∀ pages, m.course = .entered pages →
      policy.Kept (history ++ a.preparation m)
        ((enterGuest ⟨.allocation, true⟩ m.eferWithSvm pages).run (m.supplied pages)).timeline) :
    policy.Kept history (a.run.run m).timeline := by
  have hpreparation (h : m.core.obstacle? = none) : policy.Kept history (a.preparation m) :=
    hinspect.append (hsupply h)
  rw [run_eq]
  refine .bind ?_ (.of_within (settle_within _) hquiet _)
  rw [attempt_run]
  cases hcourse : m.course with
  | refused failure => exact hinspect
  | unsupplied failure => exact hpreparation (by rw [m.obstacle?_eq, hcourse])
  | entered pages =>
    exact (hpreparation (Machine.obstacle?_of_entered hcourse)).append (henter pages hcourse)

/-- What goes from part to part of an activation, with the pages that are out, goes through it. -/
theorem run_of_parts {κ : Type} (Holds : ∀ {α : Type}, κ → Program α → (α → κ) → Prop)
    (owned : Option ControlPages → κ)
    (hbind : ∀ {α β : Type} {p : Program α} {f : α → Program β} {given : κ} {mid : α → κ}
      {left : β → κ}, Holds given p mid → (∀ value, Holds (mid value) (f value) left) →
        Holds given (p >>= f) left)
    (hdone : ∀ attempt : Attempt, Holds (owned attempt.pages) (done attempt) (owned ·.pages))
    (hinspect : ∀ a, Holds (owned none) (inspect a) fun _ => owned none)
    (hsupply : ∀ a, Holds (owned none) (supply a) fun supplied => owned supplied.2.toOption)
    (henter : ∀ a efer pages, Holds (owned (some pages)) (enterGuest a efer pages) (owned ·.pages))
    (hsettle : ∀ attempt : Attempt,
      Holds (owned attempt.pages) (settle attempt) fun _ => owned none)
    (a : Activator) : Holds (owned none) a.run fun _ => owned none := by
  rw [run_eq, attempt_eq]
  refine hbind (hbind (hinspect a) fun obstacle => ?_) hsettle
  cases obstacle with
  | some failure => exact hdone ⟨.error failure, none, _⟩
  | none =>
    rw [activate_eq]
    refine hbind (hsupply _) fun supplied => ?_
    obtain ⟨efer, offered⟩ := supplied
    cases offered with
    | error failure => exact hdone ⟨.error failure, none, _⟩
    | ok pages => exact henter _ efer pages

end Activator

end SvmActivation
