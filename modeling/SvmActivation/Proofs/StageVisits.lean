import SvmActivation.Proofs.ActivationDecision
import SvmActivation.Proofs.LogLevels

namespace SvmActivation

open Program

/-- Whether an event is an access to the hardware or to the allocator, and no message. -/
def Event.isAct : Event → Bool
  | message _ => false
  | _ => true

/-- A stage, the one that was left for it, and what was done until the stage changed again. -/
structure Visit where
  left : Stage
  stage : Stage
  acts : List Event

/-- Events, cut into visits where the log tells that the stage changes. -/
def visits : List Event → List Event × List Visit
  | [] => ([], [])
  | .message (.stageChange left stage) :: rest =>
    ([], ⟨left, stage, (visits rest).1⟩ :: (visits rest).2)
  | .message _ :: rest => visits rest
  | event :: rest => (event :: (visits rest).1, (visits rest).2)

def Event.IsStageChange : Event → Prop
  | message (.stageChange ..) => True
  | _ => False

/-- Events without a change of stages belong to the stage before them. -/
theorem visits_append_of_steady {events : List Event} (h : ∀ event ∈ events, ¬ event.IsStageChange)
    (later : List Event) :
    visits (events ++ later) =
      (events.filter Event.isAct ++ (visits later).1, (visits later).2) := by
  induction events with
  | nil => rfl
  | cons event rest ih =>
    have hrest := ih fun event hevent => h event (List.mem_cons_of_mem _ hevent)
    cases event with
    | message message =>
      cases message with
      | stageChange old new => exact absurd trivial (h _ List.mem_cons_self)
      | _ => exact hrest
    | _ => exact congrArg (fun v : List Event × List Visit => (_ :: v.1, v.2)) hrest

/-- Events that start with a change of stages are cut by themselves. -/
theorem visits_append {later : List Event} (h : (visits later).1 = []) (earlier : List Event) :
    visits (earlier ++ later) = ((visits earlier).1, (visits earlier).2 ++ (visits later).2) := by
  induction earlier with
  | nil => exact Prod.ext h rfl
  | cons event rest ih =>
    cases event with
    | message message =>
      cases message with
      | stageChange old new =>
        exact congrArg (fun v : List Event × List Visit => ([], ⟨old, new, v.1⟩ :: v.2)) ih
      | _ => exact ih
    | _ => exact congrArg (fun v : List Event × List Visit => (_ :: v.1, v.2)) ih

def acts (timeline : List Moment) : List Event :=
  (timeline.flatMap Moment.events).filter Event.isAct

@[simp]
theorem acts_nil : acts [] = [] := rfl

@[simp]
theorem acts_append (earlier later : List Moment) :
    acts (earlier ++ later) = acts earlier ++ acts later := by
  rw [acts, List.flatMap_append, List.filter_append, acts, acts]

theorem Moment.steady {moment : Moment} (h : moment.request.effect ≠ .stage) :
    ∀ event ∈ moment.events, ¬ event.IsStageChange := by
  obtain ⟨m, r⟩ := moment
  intro event hevent hchange
  cases r with
  | log message =>
    rw [events, Machine.events, Machine.report] at hevent
    split at hevent
    · obtain rfl := List.mem_singleton.1 hevent
      cases message with
      | stageChange old new => exact h rfl
      | _ => exact hchange
    · cases hevent
  | logMode protectedMode =>
    rw [events, Machine.events, Machine.report] at hevent
    split at hevent
    · simp only [List.singleton_append, List.mem_cons, List.not_mem_nil, or_false] at hevent
      rcases hevent with rfl | rfl <;> exact hchange
    · cases hevent
  | _ =>
    simp only [events, Machine.events, List.mem_singleton, List.not_mem_nil] at hevent
    all_goals
      subst hevent
      exact hchange

theorem Program.Within.visits_bind {α β : Type} {effects : List Request.Effect} {p : Program α}
    (hp : p.Within effects) (h : .stage ∉ effects) (f : α → Program β) (m : Machine) :
    let later := visits ((f (p.run m).value).run (p.run m).machine).events
    visits ((p >>= f).run m).events = (acts (p.run m).timeline ++ later.1, later.2) := by
  intro later
  rw [run_bind_events]
  refine visits_append_of_steady (fun event hevent => ?_) _
  obtain ⟨moment, hmoment, hevent⟩ := List.mem_flatMap.1 hevent
  exact moment.steady (hp.effect_ne h hmoment) event hevent

/-- A request that looks at nothing, and makes the log look at nothing. -/
def Request.IsBlind : Request → Prop
  | cpuid _ | readMsr _ | readCr0 | logMode _ => False
  | _ => True

theorem Moment.acts_eq {moment : Moment} (h : moment.request.IsBlind) :
    moment.events.filter Event.isAct = moment.events.filter Event.isDeed := by
  obtain ⟨m, r⟩ := moment
  cases r with
  | log message =>
    rw [events, Machine.events, Machine.report]
    split <;> rfl
  | cpuid | readMsr | readCr0 | logMode => exact h.elim
  | _ => rfl

/-- Without a look at anything, what is done is all that is to be seen. -/
theorem Program.Asks.acts_eq {α : Type} {p : Program α} (hp : p.Asks Request.IsBlind)
    (m : Machine) : acts (p.run m).timeline = deeds (p.run m).timeline := by
  rw [acts, deeds, List.filter_flatMap, List.filter_flatMap, List.flatMap_def, List.flatMap_def]
  refine congrArg _ (List.map_congr_left fun moment hmoment => ?_)
  exact Moment.acts_eq (hp.timeline hmoment)

@[simp]
theorem log_acts (message : Log.Message) (m : Machine) :
    acts ((log message).run m).timeline = [] := by
  have hblind : (log message).Asks Request.IsBlind := .request trivial
  rw [hblind.acts_eq, log_deeds]

@[simp]
theorem when_log_acts (c : Bool) (message : Log.Message) (m : Machine) :
    acts ((when c (log message)).run m).timeline = [] := by
  have hblind : (when c (log message)).Asks Request.IsBlind := .when c (.request trivial)
  rw [hblind.acts_eq, when_log_deeds]

theorem Program.done_visits {α : Type} (value : α) (m : Machine) :
    visits ((done value).run m).events = ([], []) := rfl

theorem Program.log_visits {α : Type} (message : Log.Message)
    (h : (Request.log message).effect = .report) (f : Unit → Program α) (m : Machine) :
    visits ((log message >>= f).run m).events = visits ((f ()).run m).events := by
  have hreport : (log message).Within [.report] := .request (h ▸ List.mem_cons_self)
  rw [hreport.visits_bind (by decide), log_acts]
  rfl

theorem Request.Supplies.isBlind {r : Request} (h : r.Supplies) : r.IsBlind := by
  cases r with
  | cpuid | readMsr | readCr0 | logMode => cases h
  | _ => trivial

theorem Frame.giveBackAll_blind (frames : List Address) :
    (giveBackAll frames).Asks Request.IsBlind :=
  (giveBackAll_supplies frames).mono fun _ hr => hr.isBlind

theorem ControlPages.allocate_blind : allocate.Asks Request.IsBlind :=
  allocate_supplies.mono fun _ hr => hr.isBlind

namespace Capability

theorem hasRegisterAccess_acts (m : Machine) :
    acts (hasRegisterAccess.run m).timeline = [.cpuid .features] := by
  simp only [hasRegisterAccess, run_bind_timeline, acts_append, log_acts]
  rfl

def probeActs (core : Core) : List Event :=
  .cpuid .extendedFeatures ::
    if (core.cpuid .extendedFeatures).ecx.getLsbD svmBit then
      [.readMsr .vmCr, .cpuid .svmIdentification]
    else []

theorem lockKind_acts (m : Machine) :
    acts (lockKind.run m).timeline = [.cpuid .svmIdentification] := by
  simp only [lockKind, run_bind_timeline, acts_append, log_acts, run_ite,
    apply_ite Execution.timeline, apply_ite acts, pure_eq, run_done]
  split <;> rfl

theorem probe_acts (m : Machine) : acts (probe.run m).timeline = probeActs m.core := by
  have hidentification (m : Machine) :
      acts (identification.run m).timeline = [.cpuid .svmIdentification] := rfl
  simp only [probe, run_bind_timeline, acts_append, log_acts, run_ite,
    apply_ite Execution.timeline, apply_ite acts, pure_eq, run_done, lockKind_acts, hidentification,
    acts_nil, List.nil_append, List.append_nil, ite_self]
  rfl

end Capability

namespace Activator

theorem turnOn_acts (m : Machine) :
    acts (Switch.turnOn.run (m.logAt (some .trace))).timeline =
      [.readMsr .efer, .readCr0, .readRing, .writeMsr .efer m.eferWithSvm] := by
  simp only [Switch.turnOn, run_bind_timeline, acts_append, log_acts, when_log_acts]
  simp only [run_when, apply_ite Execution.machine, run_log, ite_self]
  rfl

section Logged

variable (a : Activator) (m : Machine)

theorem advance_visits {α : Type} (next : Stage) (f : Activator → Program α) :
    let later := visits ((f { a with stage := next }).run (m.logAt (some .trace))).events
    visits ((a.advance next >>= f).run (m.logAt (some .trace))).events =
      ([], ⟨a.stage, next, later.1⟩ :: later.2) := rfl

theorem inspect_visits :
    visits (a.inspect.run (m.logAt (some .trace))).events =
      ([], ⟨a.stage, .registerAccess, [.cpuid .features]⟩ ::
        if (m.core.cpuid .features).edx.getLsbD Capability.registerAccessBit then
          [⟨.registerAccess, .capability, Capability.probeActs m.core⟩]
        else []) := by
  have hcore : (m.logAt (some .trace)).core = m.core := rfl
  rw [inspect, advance_visits, Capability.hasRegisterAccess_within.visits_bind (by decide),
    Capability.hasRegisterAccess_acts, Capability.hasRegisterAccess_value,
    Capability.hasRegisterAccess_machine, hcore]
  cases (m.core.cpuid .features).edx.getLsbD Capability.registerAccessBit with
  | false => rfl
  | true =>
    simp only [↓reduceIte, advance_visits, Capability.probe_within.visits_bind (by decide),
      Capability.probe_acts, Capability.probe_machine, log_visits (.availability _) rfl, hcore,
      pure_eq, done_visits, List.append_nil]

theorem supply_visits :
    visits (a.supply.run (m.logAt (some .trace))).events =
      ([], [
        ⟨a.stage, .enable, [.readMsr .efer, .readCr0, .readRing, .writeMsr .efer m.eferWithSvm]⟩,
        ⟨.enable, .allocation,
          supplyDeeds m.allocator.answer m.allocator.afterRequest.answer⟩]) := by
  rw [supply, advance_visits]
  simp only [Switch.turnOn_within.visits_bind (by decide), turnOn_acts, run_logAt_machine,
    advance_visits, ControlPages.allocate_within.visits_bind (by decide),
    ControlPages.allocate_blind.acts_eq, ControlPages.allocate_deeds, Switch.turnOn_machine,
    pure_eq, done_visits, List.append_nil]
  rfl

theorem enterGuest_visits (efer : Register) (pages : ControlPages) :
    visits ((a.enterGuest efer pages).run (m.logAt (some .trace))).events =
      ([], [
        ⟨a.stage, .saveAreaSetup, [.writeMsr .hostSave pages.saveArea.toRegister]⟩,
        ⟨.saveAreaSetup, .entry, [.enterGuest pages.vmcb]⟩]) := by
  have hwrite : (request (.writeMsr .hostSave pages.saveArea.toRegister)).Within [.register] :=
    .request List.mem_cons_self
  have henter : (request (.enterGuest pages.vmcb)).Within [.guest] := .request List.mem_cons_self
  have hread : (Vmcb.readExit pages.vmcb).Within [.page] := Vmcb.readExit_within pages.vmcb
  have hreject (c : Bool) : (when c (log .entryRejected)).Within [.report] :=
    .when c (.request List.mem_cons_self)
  simp only [enterGuest, advance_visits, hwrite.visits_bind (by decide),
    henter.visits_bind (by decide), log_visits (.saveAreaRegistered _) rfl, run_logAt_machine,
    hread.visits_bind (by decide), (hreject _).visits_bind (by decide), when_log_acts, pure_eq,
    done_visits, List.append_nil]
  rfl

theorem settle_visits (attempt : Attempt) :
    visits ((settle attempt).run (m.logAt (some .trace))).events =
      ([], [
        ⟨attempt.activator.stage, .termination, []⟩,
        ⟨.termination, .cleanup, (attempt.pages.elim [] ControlPages.frames).map .giveBack⟩,
        ⟨.cleanup, .done, []⟩]) := by
  have hclosing : (Request.log (closing attempt.outcome)).effect = .report := by
    cases attempt.outcome <;> rfl
  simp only [settle, advance_visits, log_visits _ hclosing,
    (Frame.giveBackAll_within _).visits_bind (by decide), (Frame.giveBackAll_blind _).acts_eq,
    Frame.giveBackAll_deeds, run_logAt_machine, pure_eq, done_visits, List.append_nil]

end Logged

end Activator

end SvmActivation
