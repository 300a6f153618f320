import SvmActivation.Proofs.Activations

namespace SvmActivation

open Program

namespace Memory

variable (m : Memory) (page : Address)

theorem put_put (first second : PageBytes) :
    (m.put page first).put page second = m.put page second := by
  simp only [put, Memory.mk.injEq, and_true]
  funext a
  split <;> rfl

theorem touch_update_self (change : PageBytes → PageBytes) :
    (m.update page change).touch page = m.update page change := by
  rw [touch, bytes_update_self, update, put_put]

end Memory

namespace Activator

theorem readExit_memory (vmcb : Address) (m : Machine) :
    ((Vmcb.readExit vmcb).run m).machine.memory =
      ((m.memory.touch vmcb).touch vmcb).touch vmcb := rfl

theorem enterGuest_memory (a : Activator) (efer : Register) (pages : ControlPages) (m : Machine) :
    ((a.enterGuest efer pages).run m).machine.memory =
      ((m.registerSaveArea pages.saveArea).enterGuest pages.vmcb).memory := by
  have hreject (c : Bool) (m : Machine) :
      ((when c (log .entryRejected)).run m).machine.memory = m.memory := by
    cases c <;> rfl
  have hserve (m : Machine) (page : Address) :
      (m.serve (.enterGuest page)).2.memory =
        m.memory.update page (·.storeWords m.nextGuest.stores) := rfl
  simp only [enterGuest, run_bind_machine, pure_eq, run_done, hreject, readExit_memory, request,
    ask_bind, done_bind, run_ask, Execution.behind_machine, hserve, Memory.touch_update_self]
  rfl

theorem run_memory_of_entered (a : Activator) {m : Machine} {pages : ControlPages}
    (h : m.course = .entered pages) :
    (a.run.run m).machine.memory = ((m.prepared pages).enterGuest pages.vmcb).memory := by
  rw [run_eq, run_bind_machine, (settle_within _).memory_eq (by decide), attempt_run, h]
  dsimp only
  rw [Execution.behind_machine, enterGuest_memory]
  rfl

end Activator

/-- Whether an event is more than a look at the core or a report. -/
def Event.isDeed : Event → Bool
  | writeMsr .. | enterGuest _ | takeFrame _ | giveBack _ => true
  | cpuid _ | readMsr _ | readCr0 | readRing | message _ => false

/-- What was done in a timeline: registers written, frames taken and handed back, guests entered. -/
def deeds (timeline : List Moment) : List Event :=
  (timeline.flatMap Moment.events).filter Event.isDeed

@[simp]
theorem deeds_append (earlier later : List Moment) :
    deeds (earlier ++ later) = deeds earlier ++ deeds later := by
  rw [deeds, List.flatMap_append, List.filter_append, deeds, deeds]

theorem Machine.report_deeds (m : Machine) {lookups : List Event} (message : Log.Message)
    (h : lookups.filter Event.isDeed = []) :
    (m.report lookups message).filter Event.isDeed = [] := by
  rw [report]
  split
  · rw [List.filter_append, h]
    rfl
  · rfl

theorem Moment.deeds_eq_nil {moment : Moment}
    (h : moment.request.effect ∉ [.register, .guest, .frame]) :
    moment.events.filter Event.isDeed = [] := by
  obtain ⟨m, r⟩ := moment
  cases r with
  | writeMsr => exact absurd (by simp) h
  | enterGuest => exact absurd (by simp) h
  | takeFrame => exact absurd (by simp) h
  | giveBack => exact absurd (by simp) h
  | log message => exact m.report_deeds message rfl
  | logMode protectedMode => exact m.report_deeds _ rfl
  | _ => rfl

theorem Program.Within.deeds_eq_nil {α : Type} {effects : List Request.Effect} {p : Program α}
    (hp : p.Within effects) (h : .register ∉ effects ∧ .guest ∉ effects ∧ .frame ∉ effects)
    (m : Machine) : deeds (p.run m).timeline = [] := by
  rw [deeds, List.filter_flatMap]
  apply List.flatMap_eq_nil_iff.2
  intro moment hm
  apply moment.deeds_eq_nil
  intro he
  simp only [List.mem_cons, List.not_mem_nil, or_false] at he
  rcases he with he | he | he
  · exact hp.effect_ne h.1 hm he
  · exact hp.effect_ne h.2.1 hm he
  · exact hp.effect_ne h.2.2 hm he

@[simp]
theorem log_deeds (message : Log.Message) (m : Machine) :
    deeds ((log message).run m).timeline = [] := by
  rw [run_log, deeds, List.flatMap_singleton]
  exact m.report_deeds message rfl

@[simp]
theorem when_log_deeds (c : Bool) (message : Log.Message) (m : Machine) :
    deeds ((when c (log message)).run m).timeline = [] := by
  cases c with
  | false => rfl
  | true => exact log_deeds message m

def Event.handedOut? : Event → Option Address
  | takeFrame frame => frame
  | _ => none

theorem handedOut_eq (timeline : List Moment) :
    handedOut timeline = (deeds timeline).filterMap Event.handedOut? := by
  induction timeline with
  | nil => rfl
  | cons x rest ih =>
    have hdeeds : deeds (x :: rest) = deeds [x] ++ deeds rest := deeds_append [x] rest
    have hout : handedOut (x :: rest) = handedOut [x] ++ handedOut rest := handedOut_append [x] rest
    have hfirst : handedOut [x] = (deeds [x]).filterMap Event.handedOut? := by
      obtain ⟨m, r⟩ := x
      cases r with
      | log message =>
        have hnone : deeds [⟨m, .log message⟩] = [] := log_deeds message m
        rw [hnone]
        rfl
      | logMode protectedMode =>
        have hnone : deeds [⟨m, .logMode protectedMode⟩] = [] := by
          rw [deeds, List.flatMap_singleton]
          exact Moment.deeds_eq_nil (by simp)
        rw [hnone]
        rfl
      | _ => rfl
    rw [hdeeds, hout, List.filterMap_append, ih, hfirst]

def Failure.returns : Failure → List Event
  | misaligned frame => [.giveBack frame]
  | _ => []

namespace Frame

theorem giveBack_deeds (frame : Address) (m : Machine) :
    deeds ((giveBack frame).run m).timeline = [.giveBack frame] := by
  rw [giveBack, run_bind_timeline, deeds_append, log_deeds]
  rfl

theorem giveBackAll_deeds (frames : List Address) (m : Machine) :
    deeds ((giveBackAll frames).run m).timeline = frames.map .giveBack := by
  induction frames generalizing m with
  | nil => rfl
  | cons frame rest ih =>
    rw [giveBackAll, run_bind_timeline, deeds_append, giveBack_deeds, ih]
    rfl

theorem take_deeds (m : Machine) :
    deeds (take.run m).timeline =
      .takeFrame m.allocator.answer ::
        match judge m.allocator.answer with
        | .error failure => failure.returns
        | .ok _ => [] := by
  have htake (later : List Moment) :
      deeds (⟨m, .takeFrame⟩ :: later) = .takeFrame m.allocator.answer :: deeds later := rfl
  simp only [take, request, ask_bind, done_bind, run_ask, Execution.behind_timeline,
    List.singleton_append, htake, Machine.serve]
  congr 1
  cases m.allocator.answer with
  | none => rfl
  | some frame =>
    simp only [judge, run_ite]
    split
    · rfl
    · split
      · rfl
      · rw [run_bind_timeline, deeds_append, giveBack_deeds]
        rfl

theorem takeZeroed_deeds (m : Machine) :
    deeds (takeZeroed.run m).timeline = deeds (take.run m).timeline := by
  rw [takeZeroed, run_bind_timeline, deeds_append, take_value]
  cases judge m.allocator.answer with
  | error failure => exact List.append_nil _
  | ok frame =>
    exact List.append_nil _

end Frame

/-- What is done to take two pages, by the answers of the allocator. -/
def supplyDeeds (first second : Option Address) : List Event :=
  .takeFrame first ::
    match Frame.judge first with
    | .error failure => failure.returns
    | .ok vmcb =>
      .takeFrame second ::
        match Frame.judge second with
        | .error failure => failure.returns ++ [.giveBack vmcb]
        | .ok _ => []

theorem supplyDeeds_of_offered {m : Machine} {pages : ControlPages}
    (h : m.pagesOffered = .ok pages) :
    supplyDeeds m.allocator.answer m.allocator.afterRequest.answer =
      [.takeFrame (some pages.vmcb), .takeFrame (some pages.saveArea)] := by
  obtain ⟨hfirst, hsecond⟩ := ControlPages.judge_eq_ok h
  obtain ⟨hvmcb, -, -⟩ := Frame.judge_eq_ok hfirst
  obtain ⟨hsaveArea, -, -⟩ := Frame.judge_eq_ok hsecond
  rw [supplyDeeds, hfirst, hsecond, hvmcb, hsaveArea]

theorem ControlPages.allocate_deeds (m : Machine) :
    deeds (allocate.run m).timeline =
      supplyDeeds m.allocator.answer m.allocator.afterRequest.answer := by
  rw [allocate, run_bind_timeline, deeds_append, Frame.takeZeroed_deeds, Frame.take_deeds,
    Frame.takeZeroed_value, Frame.takeZeroed_machine, supplyDeeds]
  cases Frame.judge m.allocator.answer with
  | error failure => exact List.append_nil _
  | ok vmcb =>
    have hanswer : (m.afterRequest.zero vmcb).allocator.answer = m.allocator.afterRequest.answer :=
      rfl
    simp only [run_bind_timeline, deeds_append, Frame.takeZeroed_deeds, Frame.take_deeds,
      Frame.takeZeroed_value, hanswer]
    cases Frame.judge m.allocator.afterRequest.answer with
    | error failure =>
      simp only [run_bind_timeline, deeds_append, Frame.giveBack_deeds]
      rfl
    | ok saveArea =>
      simp only [run_bind_timeline, deeds_append, log_deeds]
      rfl

namespace Activator

theorem turnOn_deeds (m : Machine) :
    deeds (Switch.turnOn.run m).timeline = [.writeMsr .efer m.eferWithSvm] := by
  have hmode (protectedMode : Bool) (m : Machine) :
      deeds ((request (.logMode protectedMode)).run m).timeline = [] := by
    have hreport : (request (.logMode protectedMode)).Within [.report] := .request (by simp)
    exact hreport.deeds_eq_nil (by decide) m
  simp only [Switch.turnOn, run_bind_timeline, deeds_append, log_deeds, hmode, when_log_deeds]
  simp only [run_when, apply_ite Execution.machine, run_log, ite_self]
  rfl

theorem supply_deeds (a : Activator) (m : Machine) :
    deeds (a.supply.run m).timeline =
      .writeMsr .efer m.eferWithSvm ::
        supplyDeeds m.allocator.answer m.allocator.afterRequest.answer := by
  simp only [supply, run_bind_timeline, deeds_append, (advance_within _ _).deeds_eq_nil (by decide),
    advance_machine, turnOn_deeds, Switch.turnOn_machine, ControlPages.allocate_deeds, pure_eq,
    run_done, List.append_nil]
  rfl

theorem supply_handedOut (a : Activator) {m : Machine} {pages : ControlPages}
    (h : m.pagesOffered = .ok pages) : handedOut (a.supply.run m).timeline = pages.frames := by
  rw [handedOut_eq, supply_deeds, supplyDeeds_of_offered h]
  rfl

theorem enterGuest_deeds (a : Activator) (efer : Register) (pages : ControlPages) (m : Machine) :
    deeds ((a.enterGuest efer pages).run m).timeline =
      [.writeMsr .hostSave pages.saveArea.toRegister, .enterGuest pages.vmcb] := by
  have hread (m : Machine) := (Vmcb.readExit_within pages.vmcb).deeds_eq_nil (by decide) m
  simp only [enterGuest, run_bind_timeline, deeds_append,
    (advance_within _ _).deeds_eq_nil (by decide), log_deeds, hread, when_log_deeds]
  rfl

def attemptDeeds (m : Machine) : List Event :=
  match m.course with
  | .refused _ => []
  | .unsupplied _ =>
    .writeMsr .efer m.eferWithSvm :: supplyDeeds m.allocator.answer m.allocator.afterRequest.answer
  | .entered pages =>
    .writeMsr .efer m.eferWithSvm ::
      supplyDeeds m.allocator.answer m.allocator.afterRequest.answer ++
        [.writeMsr .hostSave pages.saveArea.toRegister, .enterGuest pages.vmcb]

theorem attempt_deeds (a : Activator) (m : Machine) :
    deeds (a.attempt.run m).timeline = attemptDeeds m := by
  have hinspect := a.inspect_within.deeds_eq_nil (by decide) m
  have hpreparation : deeds (a.preparation m) =
      .writeMsr .efer m.eferWithSvm ::
        supplyDeeds m.allocator.answer m.allocator.afterRequest.answer := by
    rw [preparation, deeds_append, hinspect, supply_deeds, List.nil_append]
  rw [attempt_run, attemptDeeds]
  cases m.course with
  | refused failure => exact hinspect
  | unsupplied failure => exact hpreparation
  | entered pages =>
    rw [Execution.behind_timeline, deeds_append, hpreparation, enterGuest_deeds]

theorem attempt_pages (a : Activator) (m : Machine) :
    (a.attempt.run m).value.pages =
      match m.course with
      | .entered pages => some pages
      | _ => none := by
  rw [attempt_run]
  cases m.course with
  | refused failure => rfl
  | unsupplied failure => rfl
  | entered pages => rw [Execution.behind_value, enterGuest_value]

theorem settle_deeds (attempt : Attempt) (m : Machine) :
    deeds ((settle attempt).run m).timeline =
      (attempt.pages.elim [] ControlPages.frames).map .giveBack := by
  simp only [settle, run_bind_timeline, deeds_append, (advance_within _ _).deeds_eq_nil (by decide),
    log_deeds, Frame.giveBackAll_deeds, pure_eq, run_done, List.append_nil, List.nil_append]

end Activator

def supplyDecision (efer : Register) (first second : Option Address)
    (exit : Address → ExitRecord) : Outcome × List Event :=
  match Frame.judge first with
  | .error failure =>
    (.error failure, [.writeMsr .efer efer, .takeFrame first] ++ failure.returns)
  | .ok vmcb =>
    match Frame.judge second with
    | .error failure =>
      (.error failure, [.writeMsr .efer efer, .takeFrame first, .takeFrame second] ++
        failure.returns ++ [.giveBack vmcb])
    | .ok saveArea =>
      (.ok { vmcb, saveArea, efer, exit := exit vmcb },
        [.writeMsr .efer efer, .takeFrame first, .takeFrame second,
          .writeMsr .hostSave saveArea.toRegister, .enterGuest vmcb,
          .giveBack vmcb, .giveBack saveArea])

/-- What an activation comes to and does, as the core and two answers of the allocator decide it. -/
def decision (core : Core) (first second : Option Address) (exit : Address → ExitRecord) :
    Outcome × List Event :=
  if (core.cpuid .features).edx.getLsbD 5 = false then (.error .noRegisterAccess, [])
  else if (core.cpuid .extendedFeatures).ecx.getLsbD 1 = false then (.error .unavailable, [])
  else if (core.readMsr .vmCr).bits.getLsbD 4 = true then
    if (core.cpuid .svmIdentification).edx.getLsbD 1 = false then (.error .firmwareLocked, [])
    else (.error .firmwareLockedWithKey, [])
  else supplyDecision ⟨(core.readMsr .efer).bits ||| 0x1000⟩ first second exit

theorem decision_eq (m : Machine) (first second : Option Address) (exit : Address → ExitRecord) :
    decision m.core first second exit =
      match m.core.obstacle? with
      | some failure => (.error failure, [])
      | none => supplyDecision m.eferWithSvm first second exit := by
  have hefer : m.eferWithSvm = ⟨(m.core.readMsr .efer).bits ||| 0x1000⟩ := rfl
  rw [decision, Core.obstacle?, Core.availability, hefer]
  simp only [Capability.registerAccessBit, Capability.svmBit, Capability.keyBit,
    VmCr.Flag.position]
  rcases Bool.eq_false_or_eq_true ((m.core.cpuid .features).edx.getLsbD 5) with hmsr | hmsr
  · rcases Bool.eq_false_or_eq_true ((m.core.cpuid .extendedFeatures).ecx.getLsbD 1) with
      hsvm | hsvm
    · rcases Bool.eq_false_or_eq_true ((m.core.readMsr .vmCr).bits.getLsbD 4) with hlock | hlock
      · rcases Bool.eq_false_or_eq_true ((m.core.cpuid .svmIdentification).edx.getLsbD 1) with
          hkey | hkey
        · simp only [hmsr, hsvm, hlock, hkey, ↓reduceIte, Bool.true_eq_false, Availability.failure?]
        · simp only [hmsr, hsvm, hlock, hkey, ↓reduceIte, Bool.false_eq_true, Bool.true_eq_false,
            Availability.failure?]
      · simp only [hmsr, hsvm, hlock, ↓reduceIte, Bool.false_eq_true, Bool.true_eq_false,
          Availability.failure?]
    · simp only [hmsr, hsvm, ↓reduceIte, Bool.false_eq_true, Bool.true_eq_false,
        Availability.failure?]
  · simp only [hmsr, ↓reduceIte, Bool.false_eq_true]

theorem supplyDecision_eq (m : Machine) (efer : Register) (exit : Address → ExitRecord) :
    supplyDecision efer m.allocator.answer m.allocator.afterRequest.answer exit =
      match m.pagesOffered with
      | .error failure =>
        (.error failure,
          .writeMsr .efer efer :: supplyDeeds m.allocator.answer m.allocator.afterRequest.answer)
      | .ok pages =>
        (.ok { vmcb := pages.vmcb, saveArea := pages.saveArea, efer, exit := exit pages.vmcb },
          .writeMsr .efer efer ::
            supplyDeeds m.allocator.answer m.allocator.afterRequest.answer ++
              [.writeMsr .hostSave pages.saveArea.toRegister, .enterGuest pages.vmcb] ++
              pages.frames.map .giveBack) := by
  rw [supplyDecision, supplyDeeds, Machine.pagesOffered, ControlPages.judge]
  cases Frame.judge m.allocator.answer with
  | error failure => rfl
  | ok vmcb => cases Frame.judge m.allocator.afterRequest.answer <;> rfl

namespace Activator

theorem run_deeds (a : Activator) (m : Machine) :
    deeds (a.run.run m).timeline =
      attemptDeeds m ++
        match m.course with
        | .entered pages => pages.frames.map .giveBack
        | _ => [] := by
  rw [run_eq, run_bind_timeline, deeds_append, attempt_deeds, settle_deeds, attempt_pages]
  cases m.course <;> rfl

/-- The core and the allocator decide how an activation ends, and exactly what it does. -/
theorem run_decided (a : Activator) (m : Machine) :
    let e := a.run.run m
    (e.value.1, deeds e.timeline) =
      decision m.core m.allocator.answer m.allocator.afterRequest.answer e.machine.exitRecord ∧
    e.value.2.stage = .done := by
  intro e
  have hvalue : e.value = (m.outcome, ⟨.done, a.turnedOn || m.core.obstacle?.isNone⟩) :=
    a.run_value m
  refine ⟨?_, by rw [hvalue]⟩
  rw [hvalue, a.run_deeds m, attemptDeeds, Machine.outcome, decision_eq]
  cases hobstacle : m.core.obstacle? with
  | some failure =>
    have hcourse : m.course = .refused failure := by rw [Machine.course, hobstacle]
    rw [hcourse]
    rfl
  | none =>
    simp only [supplyDecision_eq]
    cases hoffered : m.pagesOffered with
    | error failure =>
      have hcourse : m.course = .unsupplied failure := by
        rw [Machine.course, hobstacle, hoffered]
      simp only [hcourse, List.append_nil]
    | ok pages =>
      have hcourse : m.course = .entered pages := by rw [Machine.course, hobstacle, hoffered]
      have hmemory : e.machine.memory = ((m.prepared pages).enterGuest pages.vmcb).memory :=
        a.run_memory_of_entered hcourse
      simp only [hcourse, Machine.exitRecord, hmemory]

end Activator

end SvmActivation
