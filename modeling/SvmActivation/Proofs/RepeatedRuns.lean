import Mathlib.Data.List.Forall2
import SvmActivation.Proofs.ObjectActions
import SvmActivation.Proofs.StageTable

namespace SvmActivation

open Program

namespace Activator

variable (a : Activator) (m : Machine)

theorem run_machine : (a.run.run m).machine = (fresh.run.run m).machine := by
  rw [run_eq, run_eq, run_bind_machine, run_bind_machine, attempt_run, attempt_run]
  cases m.course <;> rfl

theorem run_timeline :
    (a.run.run m).timeline =
      ⟨m, .log (.stageChange a.stage .registerAccess)⟩ :: (fresh.run.run m).timeline.tail := by
  rw [run_eq, run_eq, run_bind_timeline, run_bind_timeline, attempt_run, attempt_run]
  cases m.course <;> rfl

end Activator

/-- The record of the first change of stages of a run, where that is kept, and what follows. -/
def Machine.showsFrom (m : Machine) (stage : Stage) (later : List Event) : List Event :=
  m.report [] (.stageChange stage .registerAccess) ++ later

namespace Activator

def sequel (m : Machine) : List Event :=
  (fresh.run.run m).timeline.tail.flatMap Moment.events

theorem run_events (a : Activator) (m : Machine) :
    (a.run.run m).events = m.showsFrom a.stage (sequel m) := by
  rw [Execution.events, run_timeline, List.flatMap_cons]
  rfl

/-- Runs of one activator, one after the other, with a change of its surroundings before each. -/
def consecutive (a : Activator) (m : Machine) : List Setup → List (Execution Outcome)
  | [] => []
  | change :: rest =>
    let e := a.run.run (change.apply m)
    ⟨e.value.1, e.machine, e.timeline⟩ :: e.value.2.consecutive e.machine rest

def separate (m : Machine) : List Setup → List (Execution Outcome)
  | [] => []
  | change :: rest =>
    let e := fresh.run.run (change.apply m)
    ⟨e.value.1, e.machine, e.timeline⟩ :: separate e.machine rest

/-- Executions that are the same, but for the stage from which the first record starts. -/
structure SameButStart (e other : Execution Outcome) : Prop where
  value : e.value = other.value
  machine : e.machine = other.machine
  events : ∃ (m : Machine) (stage : Stage) (later : List Event),
    e.events = m.showsFrom stage later ∧ other.events = m.showsFrom .start later

theorem consecutive_same (a : Activator) (m : Machine) (changes : List Setup) :
    List.Forall₂ SameButStart (a.consecutive m changes) (separate m changes) := by
  induction changes generalizing a m with
  | nil => exact .nil
  | cons change rest ih =>
    refine .cons ⟨?_, a.run_machine _, change.apply m, a.stage, sequel (change.apply m), ?_, ?_⟩ ?_
    · simp only [run_value]
    · exact a.run_events _
    · exact fresh.run_events _
    · rw [a.run_machine]
      exact ih _ _

end Activator

theorem Loader.load_machine (l : Loader) (m : Machine) :
    (l.load.run m).machine = (Activator.fresh.run.run m).machine := by
  simp only [load, run_bind_machine, run_log, pure_eq, run_done]

theorem Loader.load_events (l : Loader) (m : Machine) :
    (l.load.run m).events = m.report [] .loaded ++ (Activator.fresh.run.run m).events := by
  simp only [load, run_bind_events, run_log, pure_eq, run_done]
  simp [Execution.events, Moment.events, Machine.events]

namespace Activator

/-- A run does not depend on what was before it. -/
theorem run_independent (earlier : List Machine) (l : Loader) (m : Machine)
    (changes : List Setup) :
    let new := fresh.run.run m
    let reused := (fresh.afterRuns earlier).run.run m
    let loaded := l.load.run m
    let before := if earlier.isEmpty then Stage.start else .done
    (reused.value.1 = new.value.1 ∧ reused.machine = new.machine) ∧
    (loaded.value.2.lastOutcome = some new.value.1 ∧ loaded.value.1 = new.value.1.status ∧
      loaded.machine = new.machine) ∧
    (∃ later,
      new.events = m.showsFrom .start later ∧
      reused.events = m.showsFrom before later ∧
      loaded.events = m.report [] .loaded ++ m.showsFrom .start later) ∧
    List.Forall₂ SameButStart ((fresh.afterRuns earlier).consecutive m changes)
      (separate m changes) := by
  intro new reused loaded before
  have hnew : new.events = m.showsFrom .start (sequel m) := fresh.run_events m
  have hreused : reused.events = m.showsFrom before (sequel m) := by
    have hbefore : (fresh.afterRuns earlier).stage = before := fresh.afterRuns_stage earlier
    rw [← hbefore]
    exact run_events _ m
  have hloaded : loaded.events = m.report [] .loaded ++ m.showsFrom .start (sequel m) := by
    rw [← hnew]
    exact l.load_events m
  refine ⟨⟨?_, run_machine _ m⟩, ⟨?_, ?_, l.load_machine m⟩,
    ⟨sequel m, hnew, hreused, hloaded⟩, consecutive_same _ m changes⟩
  · simp only [reused, new, run_value]
  · simp only [loaded, new, Loader.load_value, run_value]
  · simp only [loaded, new, Loader.load_value, run_value]

end Activator

/-- In a timeline an activation comes to the stage `enable` and writes `IA32_EFER` with SVM set. -/
def TurnsOn (timeline : List Moment) : Prop :=
  (∃ before, (before, .enable) ∈ stageChanges timeline) ∧
    ∃ moment ∈ timeline, ∃ value,
      moment.request = .writeMsr .efer value ∧ Efer.hasSvm value = true

namespace Activator

theorem turnsOn_run_iff (a : Activator) (m : Machine) :
    TurnsOn (a.run.run m).timeline ↔ m.core.obstacle? = none := by
  constructor
  · rintro ⟨-, moment, hmoment, value, hwrite, -⟩
    have haction : moment ∈ actions (a.run.run m).timeline :=
      mem_actions.2 ⟨hmoment, by simp [hwrite]⟩
    rw [run_actions] at haction
    exact Machine.obstacle?_of_mem_activationActions haction
  · intro hobstacle
    have haction := Machine.writeEfer_mem_activationActions hobstacle
    rw [← a.run_actions m, mem_actions] at haction
    refine ⟨⟨.capability, ?_⟩, _, haction.1, _, rfl, Efer.hasSvm_withSvm _⟩
    rw [run_eq, run_bind_timeline, stageChanges_append]
    exact List.mem_append_left _ (a.attempt_supply_stageChanges hobstacle List.mem_cons_self)

theorem afterRuns_turnedOn (a : Activator) (machines : List Machine) :
    (a.afterRuns machines).turnedOn = true ↔
      a.turnedOn = true ∨ ∃ m ∈ machines, m.core.obstacle? = none := by
  induction machines generalizing a with
  | nil => simp [afterRuns]
  | cons m rest ih => simp [afterRuns, ih, or_assoc]

def TurnedOnIn (a : Activator) (machines : List Machine) : Prop :=
  ∃ before m after, machines = before ++ m :: after ∧
    TurnsOn ((a.afterRuns before).run.run m).timeline

theorem turnedOnIn_iff (a : Activator) (machines : List Machine) :
    a.TurnedOnIn machines ↔ ∃ m ∈ machines, m.core.obstacle? = none := by
  simp only [TurnedOnIn, turnsOn_run_iff]
  constructor
  · rintro ⟨before, m, after, rfl, hobstacle⟩
    exact ⟨m, by simp, hobstacle⟩
  · rintro ⟨m, hm, hobstacle⟩
    obtain ⟨before, after, rfl⟩ := List.append_of_mem hm
    exact ⟨before, m, after, rfl, hobstacle⟩

/-- An activator tells whether any run so far has turned SVM on, not only the last. -/
theorem turnedOn_of_any_run (earlier : List Machine) (m : Machine) :
    let a := fresh.afterRuns earlier
    let e := a.run.run m
    (e.value.2.turnedOn = true ↔ TurnsOn e.timeline ∨ fresh.TurnedOnIn earlier) ∧
      ((e.value.2.turnedOn = true ↔ TurnsOn e.timeline) ↔
        TurnsOn e.timeline ∨ ¬ fresh.TurnedOnIn earlier) := by
  intro a e
  have hflag : e.value.2.turnedOn = true ↔ TurnsOn e.timeline ∨ fresh.TurnedOnIn earlier := by
    have hearlier : a.turnedOn = true ↔ fresh.TurnedOnIn earlier := by
      rw [turnedOnIn_iff, afterRuns_turnedOn]
      simp [fresh]
    rw [← hearlier, turnsOn_run_iff]
    simp [e, or_comm]
  refine ⟨hflag, ?_⟩
  rw [hflag]
  tauto

/-- A run that is refused leaves an activator telling that an earlier one has turned SVM on. -/
theorem not_turnedOn_tells_last_run :
    ¬ ∀ (earlier : List Machine) (m : Machine),
      let e := (fresh.afterRuns earlier).run.run m
      e.value.2.turnedOn = true ↔ TurnsOn e.timeline := by
  intro hall
  let first := Setup.capable.apply .fresh
  let change : Setup := { cpuid := [(.features, .zero)] }
  let second := change.apply (fresh.run.run first).machine
  have hrefused : second.core.obstacle? ≠ none := by decide
  have htold := (hall [first] second).1 (by decide)
  exact hrefused ((turnsOn_run_iff _ second).1 htold)

end Activator

end SvmActivation
