import SvmActivation.Proofs.SessionRuns

namespace SvmActivation

/-- What a level leaves of all events: the messages that it admits, and the look-ups for these. -/
def Log.Threshold.keeps (threshold : Threshold) : Event → Bool
  | .message message => threshold.admits message.level
  | .readRing => threshold.admits .debug
  | _ => true

def Event.isForLog : Event → Bool
  | message _ | readRing => true
  | _ => false

section LogAt

variable (threshold : Log.Threshold)

def Machine.logAt (m : Machine) : Machine :=
  { m with threshold := threshold }

def Setup.logAt (change : Setup) : Setup :=
  { change with threshold := change.threshold.map fun _ => threshold }

def Command.logAt : Command → Command
  | .setup change => .setup (change.logAt threshold)
  | command => command

def Session.logAt (s : Session) : Session :=
  { s with machine := s.machine.logAt threshold }

def Moment.logAt (moment : Moment) : Moment :=
  { moment with machine := moment.machine.logAt threshold }

def Step.logAt (step : Step) : Step :=
  { step with
    timeline := step.timeline.map (·.logAt threshold)
    session := step.session.logAt threshold }

def Execution.logAt {α : Type} (e : Execution α) : Execution α :=
  { e with
    machine := e.machine.logAt threshold
    timeline := e.timeline.map (·.logAt threshold) }

theorem Machine.serve_logAt (m : Machine) (r : Request) :
    (m.logAt threshold).serve r = ((m.serve r).1, (m.serve r).2.logAt threshold) := by
  cases r <;> rfl

/-- A program cannot tell at which level the log is. -/
theorem Program.run_logAt {α : Type} (p : Program α) (m : Machine) :
    p.run (m.logAt threshold) = (p.run m).logAt threshold := by
  induction p generalizing m with
  | done value => rfl
  | ask r next ih =>
    rw [run_ask, m.serve_logAt threshold r, ih]
    rfl

theorem Program.run_logAt_value {α : Type} (p : Program α) (m : Machine) :
    (p.run (m.logAt threshold)).value = (p.run m).value := by
  rw [p.run_logAt threshold m]
  rfl

theorem Program.run_logAt_machine {α : Type} (p : Program α) (m : Machine) :
    (p.run (m.logAt threshold)).machine = (p.run m).machine.logAt threshold := by
  rw [p.run_logAt threshold m]
  rfl

theorem Setup.apply_logAt (change : Setup) (m : Machine) :
    (change.logAt threshold).apply (m.logAt threshold) = (change.apply m).logAt threshold := by
  have hlevel : (change.threshold.map fun _ => threshold).getD threshold = threshold := by
    cases change.threshold <;> rfl
  exact congrArg (Machine.logAt · (change.apply m)) hlevel

namespace Session

variable (s : Session)

theorem step_logAt (command : Command) :
    (s.logAt threshold).step (command.logAt threshold) = (s.step command).logAt threshold := by
  cases command with
  | setup change =>
    have hmachine := change.apply_logAt threshold s.machine
    exact congrArg (fun m => Step.mk .nothing [] { s with machine := m }) hmachine
  | dump page => rfl
  | operate operation =>
    have hrun := (s.objects.perform operation).run_logAt threshold s.machine
    have hobjects : (s.logAt threshold).objects = s.objects := rfl
    have hmachine : (s.logAt threshold).machine = s.machine.logAt threshold := rfl
    simp only [Command.logAt, step, hobjects, hmachine, hrun]
    rfl

theorem run_logAt (commands : List Command) :
    (s.logAt threshold).run (commands.map (·.logAt threshold)) =
      (s.run commands).map (·.logAt threshold) := by
  induction commands generalizing s with
  | nil => rfl
  | cons command rest ih =>
    rw [List.map_cons, run, s.step_logAt threshold command, run, List.map_cons]
    exact congrArg _ (ih _)

theorem after_logAt (steps : List Step) :
    (s.logAt threshold).after (steps.map (·.logAt threshold)) =
      (s.after steps).logAt threshold := by
  rw [after, after, List.getLast?_map]
  cases steps.getLast? <;> rfl

theorem finish_logAt : (s.logAt threshold).finish = s.finish.logAt threshold :=
  s.objects.dropAll.run_logAt threshold s.machine

end Session

/-- At any level a request shows what that level keeps of everything. -/
theorem Moment.events_logAt (moment : Moment) :
    (moment.logAt threshold).events =
      (moment.logAt (some .trace)).events.filter threshold.keeps := by
  obtain ⟨m, r⟩ := moment
  have hall (level : Log.Level) : Log.Threshold.admits (some .trace) level = true := by
    cases level <;> rfl
  cases r with
  | log message =>
    cases hkept : threshold.admits message.level <;>
      simp [Moment.events, Moment.logAt, Machine.logAt, Machine.events, Machine.report, hall, hkept,
        Log.Threshold.keeps]
  | logMode protectedMode =>
    cases hkept : threshold.admits .debug <;>
      simp [Moment.events, Moment.logAt, Machine.logAt, Machine.events, Machine.report, hall, hkept,
        Log.Threshold.keeps, Log.Message.level]
  | _ => rfl

theorem flatMap_events_logAt (timeline : List Moment) :
    (timeline.map (·.logAt threshold)).flatMap Moment.events =
      ((timeline.map (·.logAt (some .trace))).flatMap Moment.events).filter threshold.keeps := by
  rw [List.flatMap_map, List.flatMap_map, List.filter_flatMap]
  exact congrArg (List.flatMap · timeline) (funext fun x => x.events_logAt threshold)

theorem filter_keeps (events : List Event) :
    (events.filter threshold.keeps).filter (!·.isForLog) = events.filter (!·.isForLog) := by
  rw [List.filter_filter]
  apply List.filter_congr
  intro event _
  cases event <;> rfl

end LogAt

namespace Session

/-- The level of the log changes nothing but what the log keeps. -/
theorem logging_unobtrusive (s : Session) (commands : List Command) (threshold : Log.Threshold) :
    let full := s.logAt (some .trace)
    let quiet := s.logAt threshold
    let fullSteps := full.run (commands.map (·.logAt (some .trace)))
    let quietSteps := quiet.run (commands.map (·.logAt threshold))
    quietSteps.map Step.reply = fullSteps.map Step.reply ∧
    quietSteps.map Step.session = fullSteps.map (·.session.logAt threshold) ∧
    quietSteps.map Step.events = fullSteps.map (·.events.filter threshold.keeps) ∧
    quietSteps.map (·.events.filter (!·.isForLog)) =
      fullSteps.map (·.events.filter (!·.isForLog)) ∧
    let fullEnd := (full.after fullSteps).finish
    let quietEnd := (quiet.after quietSteps).finish
    quietEnd.machine = fullEnd.machine.logAt threshold ∧
    quietEnd.events = fullEnd.events.filter threshold.keeps := by
  intro full quiet fullSteps quietSteps
  have hfull : fullSteps = (s.run commands).map (·.logAt (some .trace)) := s.run_logAt _ commands
  have hquiet : quietSteps = (s.run commands).map (·.logAt threshold) := s.run_logAt _ commands
  have hevents (step : Step) :
      (step.logAt threshold).events =
        (step.logAt (some .trace)).events.filter threshold.keeps :=
    flatMap_events_logAt threshold step.timeline
  rw [hfull, hquiet, after_logAt, after_logAt, finish_logAt, finish_logAt]
  simp only [List.map_map]
  refine ⟨rfl, rfl, ?_, ?_, rfl, ?_⟩
  · exact List.map_congr_left fun step _ => hevents step
  · refine List.map_congr_left fun step _ => ?_
    exact (congrArg _ (hevents step)).trans (filter_keeps threshold _)
  · exact flatMap_events_logAt threshold (s.after (s.run commands)).finish.timeline

end Session

end SvmActivation
