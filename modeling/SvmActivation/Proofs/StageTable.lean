import SvmActivation.Proofs.StageVisits

namespace SvmActivation

open Program

namespace Stage

def ascent : List Stage :=
  [registerAccess, capability, enable, allocation, saveAreaSetup, entry]

def closing : List Stage :=
  [termination, cleanup, done]

/-- The stages of a list, cut off right after one of them. -/
def upTo (last : Stage) : List Stage → List Stage
  | [] => []
  | stage :: rest => if stage = last then [stage] else stage :: last.upTo rest

end Stage

/-- The stages that an activation with an outcome gets to before it ends. -/
def Outcome.reached : Outcome → List Stage
  | .ok _ => Stage.ascent
  | .error failure => failure.stage.upTo Stage.ascent

def Outcome.route (outcome : Outcome) : List Stage :=
  outcome.reached ++ Stage.closing

/-- What an activation with an outcome does in each stage. -/
def Machine.actsIn (m : Machine) (outcome : Outcome) : Stage → List Event
  | .registerAccess => [.cpuid .features]
  | .capability => Capability.probeActs m.core
  | .enable => [.readMsr .efer, .readCr0, .readRing, .writeMsr .efer m.eferWithSvm]
  | .allocation => supplyDeeds m.allocator.answer m.allocator.afterRequest.answer
  | .saveAreaSetup => outcome.toOption.elim [] fun c => [.writeMsr .hostSave c.saveArea.toRegister]
  | .entry => outcome.toOption.elim [] fun c => [.enterGuest c.vmcb]
  | .cleanup => outcome.toOption.elim [] fun c => [.giveBack c.vmcb, .giveBack c.saveArea]
  | .start | .termination | .done => []

def Visit.along (acts : Stage → List Event) : Stage → List Stage → List Visit
  | _, [] => []
  | left, stage :: rest => ⟨left, stage, acts stage⟩ :: along acts stage rest

theorem Visit.along_append (acts : Stage → List Event) (left : Stage) (stages later : List Stage) :
    along acts left (stages ++ later) =
      along acts left stages ++ along acts (stages.getLastD left) later := by
  induction stages generalizing left with
  | nil => rfl
  | cons stage rest ih =>
    rw [List.cons_append, along, ih, along, List.getLastD_cons, List.cons_append]

theorem Outcome.route_ascending (outcome : Outcome) : outcome.route.Pairwise (· < ·) := by
  have hcut (last : Stage) :
      (last.upTo Stage.ascent ++ Stage.closing).Pairwise (· < ·) := by
    cases last <;> decide
  cases outcome with
  | error failure => exact hcut failure.stage
  | ok completion => exact hcut .entry

theorem Frame.stage_of_judge {answer : Option Address} {failure : Failure}
    (h : judge answer = .error failure) : failure.stage = .allocation := by
  cases answer with
  | none =>
    cases h
    rfl
  | some frame =>
    rw [judge] at h
    split at h
    · cases h
      rfl
    · split at h
      · cases h
      · cases h
        rfl

theorem ControlPages.stage_of_judge {first second : Option Address} {failure : Failure}
    (h : judge first second = .error failure) : failure.stage = .allocation := by
  rw [judge] at h
  split at h
  · cases h
  · rename_i hsecond
    cases h
    exact Frame.stage_of_judge hsecond
  · rename_i hfirst
    cases h
    exact Frame.stage_of_judge hfirst

theorem Machine.stage_of_unsupplied {m : Machine} {failure : Failure}
    (h : m.course = .unsupplied failure) : failure.stage = .allocation := by
  rw [course] at h
  split at h
  · cases h
  · split at h
    · rename_i hoffered
      cases h
      exact ControlPages.stage_of_judge hoffered
    · cases h

namespace Activator

variable (a : Activator) (m : Machine)

theorem inspect_along :
    visits (a.inspect.run (m.logAt (some .trace))).events =
      ([], Visit.along (m.actsIn m.outcome) a.stage
        (m.core.obstacle?.elim [.registerAccess, .capability] (·.stage.upTo Stage.ascent))) := by
  rw [inspect_visits, Core.obstacle?]
  cases (m.core.cpuid .features).edx.getLsbD Capability.registerAccessBit with
  | false => rfl
  | true => cases m.core.availability <;> rfl

theorem attempt_stage :
    (a.attempt.run m).value.activator.stage = m.outcome.reached.getLastD a.stage := by
  rw [attempt_run, Machine.outcome]
  cases hcourse : m.course with
  | refused failure => cases failure <;> rfl
  | unsupplied failure =>
    simp only [Outcome.reached, Machine.stage_of_unsupplied hcourse]
    rfl
  | entered pages =>
    simp only [Execution.behind_value, enterGuest_value]
    rfl

theorem preparation_along (h : m.core.obstacle? = none) :
    visits ((a.preparation (m.logAt (some .trace))).flatMap Moment.events) =
      ([], Visit.along (m.actsIn m.outcome) a.stage
        [.registerAccess, .capability, .enable, .allocation]) := by
  have hsupply := supply_visits ⟨.capability, a.turnedOn⟩ m
  rw [preparation, List.flatMap_append, ← Execution.events, ← Execution.events,
    visits_append (by rw [hsupply]), hsupply, inspect_along, h]
  rfl

theorem attempt_visits :
    visits (a.attempt.run (m.logAt (some .trace))).events =
      ([], Visit.along (m.actsIn m.outcome) a.stage m.outcome.reached) := by
  have hlogged : (m.logAt (some .trace)).course = m.course := rfl
  rw [attempt_run, hlogged]
  cases hcourse : m.course with
  | refused failure =>
    have houtcome : m.outcome = .error failure := by rw [Machine.outcome, hcourse]
    have hinspect := inspect_along a m
    rw [m.obstacle?_eq, hcourse, houtcome] at hinspect
    rw [houtcome]
    exact hinspect
  | unsupplied failure =>
    have houtcome : m.outcome = .error failure := by rw [Machine.outcome, hcourse]
    have hpreparation := preparation_along a m (by rw [m.obstacle?_eq, hcourse])
    rw [houtcome] at hpreparation
    rw [houtcome, Outcome.reached, Machine.stage_of_unsupplied hcourse]
    exact hpreparation
  | entered pages =>
    have hpreparation := preparation_along a m (Machine.obstacle?_of_entered hcourse)
    have henter := enterGuest_visits ⟨.allocation, true⟩ (m.supplied pages) m.eferWithSvm pages
    have hefer : (m.logAt (some .trace)).eferWithSvm = m.eferWithSvm := rfl
    have hsupplied : (m.logAt (some .trace)).supplied pages =
        (m.supplied pages).logAt (some .trace) := rfl
    rw [Execution.events, Execution.behind_timeline, List.flatMap_append, ← Execution.events, hefer,
      hsupplied, visits_append (congrArg Prod.fst henter), hpreparation, henter, Machine.outcome,
      hcourse]
    rfl

theorem cleanup_acts :
    ((a.attempt.run m).value.pages.elim [] ControlPages.frames).map .giveBack =
      m.actsIn m.outcome .cleanup := by
  rw [attempt_pages, Machine.actsIn, Machine.outcome]
  cases m.course <;> rfl

theorem run_visits :
    visits (a.run.run (m.logAt (some .trace))).events =
      ([], Visit.along (m.actsIn m.outcome) a.stage m.outcome.route) := by
  rw [run_eq, run_bind_events, run_logAt_machine, visits_append (by rw [settle_visits]),
    attempt_visits, settle_visits, run_logAt_value, cleanup_acts, attempt_stage, Outcome.route,
    Visit.along_append]
  rfl

def afterRuns (a : Activator) : List Machine → Activator
  | [] => a
  | m :: rest => (a.run.run m).value.2.afterRuns rest

theorem afterRuns_stage (machines : List Machine) :
    (a.afterRuns machines).stage = if machines.isEmpty then a.stage else .done := by
  induction machines generalizing a with
  | nil => rfl
  | cons m rest ih =>
    rw [afterRuns, ih, run_value]
    cases rest <;> rfl

/-- The log of a run is a path through the table of stages, as far as the outcome says. -/
theorem run_follows_table (earlier : List Machine) (m : Machine) :
    let e := (fresh.afterRuns earlier).run.run (m.logAt (some .trace))
    let outcome := e.value.1
    let before := if earlier.isEmpty then Stage.start else .done
    visits e.events = ([], Visit.along (m.actsIn outcome) before outcome.route) ∧
      outcome.route.Pairwise (· < ·) ∧ e.value.2.stage = .done := by
  intro e outcome before
  have hbefore : (fresh.afterRuns earlier).stage = before := fresh.afterRuns_stage earlier
  have hvalue :=
    (run_logAt_value (some .trace) (fresh.afterRuns earlier).run m).trans (run_value _ m)
  have houtcome : outcome = m.outcome := congrArg Prod.fst hvalue
  have hdone : e.value.2.stage = .done := congrArg (fun value => value.2.stage) hvalue
  refine ⟨?_, outcome.route_ascending, hdone⟩
  rw [houtcome, ← hbefore]
  exact run_visits _ m

end Activator

end SvmActivation
