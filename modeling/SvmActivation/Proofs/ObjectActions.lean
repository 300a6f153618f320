import SvmActivation.Proofs.Activations
import SvmActivation.Proofs.ObjectTable

namespace SvmActivation

open Program

namespace Loader

@[simp]
theorem load_value (l : Loader) (m : Machine) :
    (l.load.run m).value =
      (m.outcome.status, ⟨l.turnedOn || m.core.obstacle?.isNone, some m.outcome⟩) := by
  simp [load, Activator.fresh]

theorem load_core (l : Loader) (m : Machine) : (l.load.run m).machine.core = m.activatedCore := by
  simp only [load, run_bind_machine, run_log, Activator.run_core, pure_eq, run_done]

theorem load_actions (l : Loader) (m : Machine) :
    actions (l.load.run m).timeline = m.activationActions := by
  simp only [load, run_bind_timeline, actions_append, run_log, Activator.run_actions, pure_eq,
    run_done]
  simp [actions]

theorem mem_load_stageChanges (l : Loader) (m : Machine) :
    (.enable, .allocation) ∈ stageChanges (l.load.run m).timeline ↔ m.core.obstacle? = none := by
  simp only [load, run_bind_timeline, stageChanges_append, run_log, List.mem_append,
    Activator.mem_run_stageChanges, pure_eq, run_done]
  simp [stageChanges, Moment.stageChange?]

theorem unload_within (l : Loader) : l.unload.Within [.look, .report, .register] := by
  have hoff := Asks.when l.turnedOn Switch.ensureOff_within
  exact .bind hoff fun _ => .bind (.request (by simp)) fun _ => trivial

@[simp]
theorem unload_value (l : Loader) (m : Machine) :
    (l.unload.run m).value = { l with turnedOn := false } := by
  simp [unload]

theorem unload_machine (l : Loader) (m : Machine) :
    (l.unload.run m).machine =
      if l.turnedOn && Efer.hasSvm (m.core.readMsr .efer) then m.turnOff else m := by
  simp only [unload, run_bind_machine, run_when, run_log, pure_eq, run_done]
  cases l.turnedOn with
  | false => rfl
  | true => simp

end Loader

def Object.Activates : Object → Action → Prop
  | activator _, .run => True
  | loader _, .load => True
  | _, _ => False

/-- The objects that drive the core; the others hold pages. -/
def Object.Operates : Object → Prop
  | activator _ | loader _ => True
  | _ => False

namespace Object

variable {o : Object} {action : Action}

theorem Activates.cases (h : o.Activates action) :
    (∃ a, o = activator a ∧ action = .run) ∨ (∃ l, o = loader l ∧ action = .load) := by
  cases o with
  | activator a =>
    cases action with
    | run => exact .inl ⟨a, rfl, rfl⟩
    | _ => cases h
  | loader l =>
    cases action with
    | load => exact .inr ⟨l, rfl, rfl⟩
    | _ => cases h
  | _ => cases h

theorem useActivator_within (a : Activator) (h : ¬ (activator a).Activates action) :
    (useActivator a action).Within [] := by
  cases action with
  | run => exact absurd trivial h
  | _ => trivial

theorem useLoader_within (l : Loader) (h : ¬ (loader l).Activates action) :
    (useLoader l action).Within [.look, .report, .register] := by
  cases action with
  | load => exact absurd trivial h
  | unload => exact .bind l.unload_within fun _ => trivial
  | inspectCore =>
    have haccess := Capability.hasRegisterAccess_within
    refine .bind (haccess.mono (by decide)) fun _ => ?_
    exact .bind (Switch.isOn_within.mono (by decide)) fun _ => trivial
  | _ => trivial

theorem act_release_within (o : Object) : (o.act .release).Within [.frame, .report] := by
  cases o with
  | frame owned =>
    rw [act, if_pos rfl]
    exact .bind (discard_within _) fun _ => trivial
  | pages owned =>
    rw [act, if_pos rfl]
    exact .bind (discard_within _) fun _ => trivial
  | vmcb | saveArea | activator | loader => trivial

/-- What only holds pages turns nothing on or off, whatever is done with it. -/
theorem act_within_page (h : ¬ o.Operates) (hrelease : action ≠ .release) :
    (o.act action).Within [.page] := by
  cases o with
  | frame owned =>
    rw [act, if_neg hrelease]
    exact .bind (useFrame_within owned action) fun _ => trivial
  | vmcb page => exact .bind (useVmcb_within page action) fun _ => trivial
  | saveArea page => exact .bind (useSaveArea_within page action) fun _ => trivial
  | pages owned =>
    rw [act, if_neg hrelease]
    exact .bind (usePages_within owned action) fun _ => trivial
  | activator a => exact absurd trivial h
  | loader l => exact absurd trivial h

theorem act_within_of_not_operates (h : ¬ o.Operates) :
    (o.act action).Within [.frame, .report, .page] := by
  by_cases hrelease : action = .release
  · rw [hrelease]
    exact o.act_release_within.mono (by decide)
  · exact (act_within_page h hrelease).mono (by decide)

theorem act_within_of_ne_release (h : ¬ o.Activates action) (hrelease : action ≠ .release) :
    (o.act action).Within [.look, .report, .register, .page] := by
  by_cases hoperates : o.Operates
  · cases o with
    | activator a =>
      have huse := useActivator_within a h
      exact .bind (huse.mono (by decide)) fun _ => trivial
    | loader l =>
      have huse := useLoader_within l h
      exact .bind (huse.mono (by decide)) fun _ => trivial
    | _ => cases hoperates
  · exact (act_within_page hoperates hrelease).mono (by decide)

/-- Without an activation no guest is entered, and no stage is gone through. -/
theorem act_within (h : ¬ o.Activates action) :
    (o.act action).Within [.look, .report, .register, .frame, .page] := by
  by_cases hrelease : action = .release
  · rw [hrelease]
    exact o.act_release_within.mono (by decide)
  · exact (act_within_of_ne_release h hrelease).mono (by decide)

/-- An activation on an object is one of an activator, after no more than a report. -/
theorem exists_run_of_activates (h : o.Activates action) (m : Machine) :
    ∃ (a : Activator) (reports : List Moment),
      (∀ x ∈ reports, x.request.effect = .report) ∧
      ((o.act action).run m).machine = (a.run.run m).machine ∧
      ((o.act action).run m).timeline = reports ++ (a.run.run m).timeline := by
  obtain ⟨a, rfl, rfl⟩ | ⟨l, rfl, rfl⟩ := h.cases
  · refine ⟨a, [], fun _ hx => absurd hx List.not_mem_nil, ?_, ?_⟩
    · simp only [act, useActivator, run_bind_machine, pure_eq, run_done]
    · simp only [act, useActivator, run_bind_timeline, pure_eq, run_done, List.append_nil,
        List.nil_append]
  · refine ⟨.fresh, [⟨m, .log .loaded⟩], by simp, ?_, ?_⟩
    · simp only [act, useLoader, Loader.load, run_bind_machine, run_log, pure_eq, run_done]
    · simp only [act, useLoader, Loader.load, run_bind_timeline, run_log, pure_eq, run_done,
        List.append_nil]

theorem act_kept {concerns : List Request.Effect} {policy : Policy concerns}
    {history : List Moment} {m : Machine} (hreport : .report ∉ concerns) (h : o.Activates action)
    (hrun : ∀ (a : Activator) history, policy.Kept history (a.run.run m).timeline) :
    policy.Kept history ((o.act action).run m).timeline := by
  obtain ⟨a, reports, hreports, -, htimeline⟩ := exists_run_of_activates h m
  rw [htimeline]
  refine .append (.of_quiet fun x hx => ?_) (hrun a _)
  rw [hreports x hx]
  exact hreport

theorem act_actions (h : o.Activates action) (m : Machine) :
    actions ((o.act action).run m).timeline = m.activationActions := by
  obtain ⟨a, rfl, rfl⟩ | ⟨l, rfl, rfl⟩ := h.cases
  · simp only [act, useActivator, run_bind_timeline, actions_append, Activator.run_actions, pure_eq,
      run_done]
    simp [actions]
  · simp only [act, useLoader, run_bind_timeline, actions_append, Loader.load_actions, pure_eq,
      run_done]
    simp [actions]

end Object

namespace Objects

variable {objects : Objects} {m : Machine} {moment : Moment}

theorem core_within (objects : Objects) (command : CoreCommand) :
    (objects.perform (.core command)).Within [.look, .report, .register] :=
  .bind command.program_within fun _ => trivial

theorem create_within (objects : Objects) (h : Handle) (kind : ObjectKind) :
    (objects.create h kind).Within [.frame, .report, .page] := by
  refine .bind (Object.create_within kind) fun made => ?_
  cases made with
  | error failure => trivial
  | ok o => exact .bind ((Frame.giveBackAll_within _).mono (by decide)) fun _ => trivial

theorem drop_within (objects : Objects) (h : Handle) :
    (objects.drop h).Within [.frame, .report] := by
  rw [drop]
  cases objects.find? h with
  | none => trivial
  | some o => exact .bind o.discard_within fun _ => trivial

theorem create_objects (objects : Objects) (h : Handle) (kind : ObjectKind) (m : Machine) :
    ((objects.create h kind).run m).value.2 =
      match ((Object.create kind).run m).value with
      | .error _ => objects
      | .ok o => objects.insert h o := by
  rw [create, run_bind_value]
  cases ((Object.create kind).run m).value with
  | error failure => rfl
  | ok o => simp

theorem drop_objects (objects : Objects) (h : Handle) (m : Machine) :
    ((objects.drop h).run m).value.2 = (objects.find? h).elim objects fun _ => objects.erase h := by
  rw [drop]
  cases objects.find? h with
  | none => rfl
  | some o => simp

theorem act_none {h : Handle} (hfind : objects.find? h = none) (action : Action) :
    objects.act h action = done (.misuse, objects) := by
  rw [act, hfind]
  rfl

theorem act_some {h : Handle} {o : Object} (hfind : objects.find? h = some o) (action : Action) :
    objects.act h action =
      o.act action >>= fun answer => done (answer.1, objects.insert h answer.2) := by
  rw [act, hfind]
  rfl

/-- A guest is entered only by an activation, as that enters it. -/
theorem exists_of_guest {operation : Operation}
    (hm : moment ∈ ((objects.perform operation).run m).timeline)
    (hguest : moment.request.effect = .guest) :
    ∃ h action o, operation = .act h action ∧ objects.find? h = some o ∧
      o.Activates action ∧ moment ∈ m.activationActions := by
  cases operation with
  | core command => exact absurd hguest ((objects.core_within command).effect_ne (by decide) hm)
  | create h kind => exact absurd hguest ((objects.create_within h kind).effect_ne (by decide) hm)
  | drop h => exact absurd hguest ((objects.drop_within h).effect_ne (by decide) hm)
  | act h action =>
    cases hfind : objects.find? h with
    | none =>
      rw [perform, act_none hfind] at hm
      cases hm
    | some o =>
      rw [perform, act_some hfind, run_bind_timeline, run_done, List.append_nil] at hm
      by_cases hact : o.Activates action
      · refine ⟨h, action, o, rfl, hfind, hact, ?_⟩
        rw [← Object.act_actions hact, mem_actions, hguest]
        exact ⟨hm, by simp⟩
      · exact absurd hguest ((Object.act_within hact).effect_ne (by decide) hm)

end Objects

theorem Session.step_create (s : Session) (h : Handle) (kind : ObjectKind) :
    s.step (.operate (.create h kind)) =
      let made := (Object.create kind).run s.machine
      match made.value with
      | .error failure => ⟨.failed failure, made.timeline, ⟨made.machine, s.objects⟩⟩
      | .ok o =>
        let back := (Frame.giveBackAll (s.objects.framesAt h)).run made.machine
        ⟨.nothing, made.timeline ++ back.timeline, ⟨back.machine, s.objects.insert h o⟩⟩ := by
  rw [step, Objects.perform, Objects.create]
  simp only [run_bind, Execution.behind]
  cases ((Object.create kind).run s.machine).value with
  | error failure => simp only [pure_eq, run_done, List.append_nil]
  | ok o =>
    simp only [run_bind, pure_eq, run_done, Execution.behind, List.append_nil]
    rfl

theorem Session.step_act {s : Session} {h : Handle} {o : Object}
    (hfind : s.objects.find? h = some o) (action : Action) :
    s.step (.operate (.act h action)) =
      let e := (o.act action).run s.machine
      ⟨e.value.1, e.timeline, ⟨e.machine, s.objects.insert h e.value.2⟩⟩ := by
  rw [step, Objects.perform, Objects.act_some hfind]
  simp only [run_bind, run_done, Execution.behind, List.append_nil]

theorem Session.step_act_none {s : Session} {h : Handle} (hfind : s.objects.find? h = none)
    (action : Action) : s.step (.operate (.act h action)) = ⟨.misuse, [], s⟩ := by
  rw [step, Objects.perform, Objects.act_none hfind]
  rfl

/-- A policy is kept by a step if what the step does keeps it. -/
theorem Session.step_kept {concerns : List Request.Effect} {policy : Policy concerns} {s : Session}
    {command : Command} (hback : ∀ effect ∈ [.frame, .report], effect ∉ concerns)
    (hcore : ∀ c, command = .operate (.core c) →
      policy.Kept [] (c.program.run s.machine).timeline)
    (hcreate : ∀ kind, policy.Kept [] ((Object.create kind).run s.machine).timeline)
    (hact : ∀ h action o, command = .operate (.act h action) → s.objects.find? h = some o →
      policy.Kept [] ((o.act action).run s.machine).timeline) :
    policy.Kept [] (s.step command).timeline := by
  cases command with
  | setup change => exact .nil
  | dump page => exact .nil
  | operate operation =>
    cases operation with
    | core c => exact .bind (hcore c rfl) .nil
    | create h kind =>
      refine .bind (p := Object.create kind) (hcreate kind) ?_
      cases ((Object.create kind).run s.machine).value with
      | error failure => exact .nil
      | ok o => exact .bind (.of_within (Frame.giveBackAll_within _) hback _) .nil
    | drop h => exact .of_within (s.objects.drop_within h) hback s.machine
    | act h action =>
      cases hfind : s.objects.find? h with
      | none =>
        rw [step_act_none hfind]
        exact .nil
      | some o =>
        rw [step_act hfind]
        exact hact h action o rfl hfind

theorem Session.step_load {s : Session} {h : Handle} {l : Loader}
    (hfind : s.objects.find? h = some (.loader l)) :
    s.step (.operate (.act h .load)) =
      ⟨.status s.machine.outcome.status, (l.load.run s.machine).timeline,
        ⟨(l.load.run s.machine).machine, s.objects.insert h
          (.loader ⟨l.turnedOn || s.machine.core.obstacle?.isNone, some s.machine.outcome⟩)⟩⟩ := by
  rw [step_act hfind]
  simp only [Object.act, Object.useLoader, run_bind, pure_eq, run_done, Execution.behind,
    List.append_nil, Loader.load_value]

theorem Session.step_unload {s : Session} {h : Handle} {l : Loader}
    (hfind : s.objects.find? h = some (.loader l)) :
    s.step (.operate (.act h .unload)) =
      ⟨.nothing, (l.unload.run s.machine).timeline,
        ⟨(l.unload.run s.machine).machine,
          s.objects.insert h (.loader { l with turnedOn := false })⟩⟩ := by
  rw [step_act hfind]
  simp only [Object.act, Object.useLoader, run_bind, pure_eq, run_done, Execution.behind,
    List.append_nil, Loader.unload_value]

theorem Session.find?_load {s : Session} {h : Handle} {l : Loader}
    (hfind : s.objects.find? h = some (.loader l)) :
    (s.step (.operate (.act h .load))).session.objects.find? h =
      some (.loader ⟨l.turnedOn || s.machine.core.obstacle?.isNone, some s.machine.outcome⟩) := by
  rw [step_load hfind]
  exact Objects.find?_insert_self ..

end SvmActivation
