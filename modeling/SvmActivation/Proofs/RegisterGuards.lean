import SvmActivation.Proofs.Unloading

namespace SvmActivation

open Program

/-- What a core has to be found to have before its registers are used. -/
inductive Finding where
  | registers
  | svm
  | unlocked
  deriving DecidableEq

/-- `VM_CR` tells whether SVM is locked, so it is read without knowing that. -/
def Request.needs : Request → List Finding
  | readMsr .vmCr => [.registers, .svm]
  | readMsr _ | writeMsr .. | enterGuest _ => [.registers, .svm, .unlocked]
  | _ => []

/-- Something is found at a moment: it is asked for, and the answer confirms it. -/
def Moment.Finds (x : Moment) : Finding → Prop
  | .registers =>
    x.request = .cpuid .features ∧ (x.machine.core.cpuid .features).edx.getLsbD 5 = true
  | .svm =>
    x.request = .cpuid .extendedFeatures ∧
      (x.machine.core.cpuid .extendedFeatures).ecx.getLsbD 1 = true
  | .unlocked =>
    x.request = .readMsr .vmCr ∧ (x.machine.core.readMsr .vmCr).bits.getLsbD 4 = false

def Found (timeline : List Moment) (f : Finding) : Prop :=
  ∃ x ∈ timeline, x.Finds f

theorem Found.mono {earlier later : List Moment} {f : Finding} (h : Found earlier f)
    (hsub : earlier ⊆ later) : Found later f := by
  obtain ⟨x, hx, hfinds⟩ := h
  exact ⟨x, hsub hx, hfinds⟩

theorem Request.needs_eq_nil {r : Request} (h : r.effect ∉ [.look, .register, .guest]) :
    r.needs = [] := by
  cases r with
  | readMsr => exact absurd (by simp) h
  | writeMsr => exact absurd (by simp) h
  | enterGuest => exact absurd (by simp) h
  | _ => rfl

theorem Program.Within.needs_nothing {α : Type} {effects : List Request.Effect} {p : Program α}
    (hp : p.Within effects) (h : .look ∉ effects ∧ .register ∉ effects ∧ .guest ∉ effects) :
    p.Asks fun r => r.needs = [] := by
  apply Asks.mono hp
  intro r hr
  apply Request.needs_eq_nil
  simp only [List.mem_cons, List.not_mem_nil, or_false, not_or]
  exact ⟨fun he => h.1 (he ▸ hr), fun he => h.2.1 (he ▸ hr), fun he => h.2.2 (he ▸ hr)⟩

namespace Policy

/-- Before each moment everything has been found that is needed there. -/
def guards : Policy [.look, .register, .guest] where
  Allows before x _ := ∀ f ∈ x.request.needs, Found before f
  ignores hx f hf := by
    rw [Request.needs_eq_nil hx] at hf
    cases hf
  extend h _ := h

variable {history : List Moment}

theorem guards_of_found {timeline : List Moment} (h : ∀ f, Found history f) :
    guards.Kept history timeline :=
  fun _ _ _ _ f _ => (h f).mono (List.subset_append_left _ _)

theorem guards_of_quiet {α : Type} {p : Program α} (hp : p.Asks fun r => r.needs = [])
    (m : Machine) : guards.Kept history (p.run m).timeline := by
  refine .of_asks (hp.mono fun r hr => ?_) m
  intro before m after f hf
  rw [hr] at hf
  cases hf

end Policy

open Policy

namespace Capability

variable {history : List Moment} {m : Machine}

theorem hasRegisterAccess_quiet : hasRegisterAccess.Asks fun r => r.needs = [] :=
  .bind (.request rfl) fun _ => .bind (.request rfl) fun _ => trivial

theorem identification_quiet : identification.Asks fun r => r.needs = [] :=
  .bind (.request rfl) fun _ => trivial

theorem lockKind_quiet : lockKind.Asks fun r => r.needs = [] := by
  refine .bind (.request rfl) fun words => .bind (.request rfl) fun _ => .ite ?_ ?_
  · exact .bind (.request rfl) fun _ => trivial
  · exact .bind (.request rfl) fun _ => trivial

theorem hasRegisterAccess_found
    (h : (m.core.cpuid .features).edx.getLsbD registerAccessBit = true) :
    Found (hasRegisterAccess.run m).timeline .registers :=
  ⟨_, List.mem_cons_self, rfl, h⟩

theorem probe_guarded (hregisters : Found history .registers) :
    guards.Kept history (probe.run m).timeline := by
  refine .bind (guards_of_quiet (.request rfl) _) ?_
  refine .bind (guards_of_quiet (.request rfl) _) ?_
  rw [run_ite]
  split
  · rename_i hsvm
    refine .bind (.cons ?_ .nil) ?_
    · intro f hf
      simp only [Request.needs, List.mem_cons, List.not_mem_nil, or_false] at hf
      rcases hf with rfl | rfl
      · rw [List.append_assoc]
        exact hregisters.mono (List.subset_append_left _ _)
      · exact ⟨⟨m, .cpuid .extendedFeatures⟩, by simp [Program.request], rfl, hsvm⟩
    · refine .bind (guards_of_quiet (.request rfl) _) ?_
      rw [run_ite]
      split
      · exact guards_of_quiet lockKind_quiet _
      · refine .bind (guards_of_quiet identification_quiet _) ?_
        exact .bind (guards_of_quiet (.request rfl) _) .nil
  · exact .nil

theorem probe_found (h : m.core.availability = .allowed) :
    Found (probe.run m).timeline .svm ∧ Found (probe.run m).timeline .unlocked := by
  rw [Core.availability] at h
  split at h
  · rename_i hsvm
    split at h
    · split at h
      · cases h
      · cases h
    · rename_i hlock
      refine ⟨⟨_, List.mem_cons_self, rfl, hsvm⟩, ⟨m, .readMsr .vmCr⟩, ?_, rfl, ?_⟩
      · rw [probe, run_bind_timeline, run_bind_timeline, run_ite]
        apply List.mem_append_right
        apply List.mem_append_right
        rw [if_pos (by exact hsvm)]
        exact List.mem_cons_self
      · exact Bool.not_eq_true _ ▸ hlock
  · cases h

theorem hasHardwareSupport_guarded : guards.Kept history (hasHardwareSupport.run m).timeline := by
  refine .bind (guards_of_quiet hasRegisterAccess_quiet m) ?_
  rw [run_ite]
  split
  · rename_i hregisters
    rw [hasRegisterAccess_value] at hregisters
    have hfound := (hasRegisterAccess_found hregisters).mono (List.subset_append_right history _)
    exact .bind (probe_guarded hfound) .nil
  · exact .nil

end Capability

namespace Activator

variable (a : Activator) {history : List Moment} {m : Machine}

theorem inspect_guarded : guards.Kept history (a.inspect.run m).timeline := by
  refine .bind (.of_within (a.advance_within _) (by decide) m) ?_
  refine .bind (guards_of_quiet Capability.hasRegisterAccess_quiet _) ?_
  rw [run_ite]
  split
  · rename_i hregisters
    rw [Capability.hasRegisterAccess_value] at hregisters
    have hfound := Capability.hasRegisterAccess_found hregisters
    refine .bind (.of_within (advance_within _ _) (by decide) _) ?_
    refine .bind (Capability.probe_guarded ?_) ?_
    · exact hfound.mono fun x hx => List.mem_append_left _ (List.mem_append_right _ hx)
    · exact .bind (guards_of_quiet (.request rfl) _) .nil
  · exact .nil

/-- An activation that nothing stands against has found everything that it needs. -/
theorem inspect_found (h : m.core.obstacle? = none) (f : Finding) :
    Found (a.inspect.run m).timeline f := by
  rw [Core.obstacle?] at h
  split at h
  · rename_i hregisters
    have hallowed : m.core.availability = .allowed := by
      cases havailability : m.core.availability with
      | allowed => rfl
      | _ =>
        rw [havailability] at h
        cases h
    have hfirst := Capability.hasRegisterAccess_found hregisters
    obtain ⟨hsvm, hunlocked⟩ := Capability.probe_found hallowed
    have htimeline : (a.inspect.run m).timeline =
        ((a.advance .registerAccess).run m).timeline ++
          ((Capability.hasRegisterAccess.run m).timeline ++
            (((advance ⟨.registerAccess, a.turnedOn⟩ .capability).run m).timeline ++
              ((Capability.probe.run m).timeline ++
                ((log (.availability .allowed)).run m).timeline))) := by
      simp only [inspect, run_bind_timeline, advance_value, advance_machine,
        Capability.hasRegisterAccess_value, Capability.hasRegisterAccess_machine, hregisters,
        ↓reduceIte, Capability.probe_value, Capability.probe_machine, hallowed, pure_eq, run_done,
        List.append_nil]
    rw [htimeline]
    cases f with
    | registers => exact hfirst.mono fun x hx => by simp [hx]
    | svm => exact hsvm.mono fun x hx => by simp [hx]
    | unlocked => exact hunlocked.mono fun x hx => by simp [hx]
  · cases h

theorem run_guarded : guards.Kept history (a.run.run m).timeline := by
  have hinspect (f : Finding) (h : m.core.obstacle? = none) :
      Found (history ++ (a.inspect.run m).timeline) f :=
    (a.inspect_found h f).mono (List.subset_append_right _ _)
  refine a.run_kept (by decide) a.inspect_guarded ?_ ?_
  · intro hobstacle
    exact guards_of_found fun f => hinspect f hobstacle
  · intro pages hcourse
    apply guards_of_found
    intro f
    have hfound := hinspect f (Machine.obstacle?_of_entered hcourse)
    rw [preparation, ← List.append_assoc]
    exact hfound.mono (List.subset_append_left _ _)

theorem run_found (h : m.core.obstacle? = none) (f : Finding) :
    Found (a.run.run m).timeline f := by
  rw [run_eq, attempt_eq, bind_assoc, run_bind_timeline]
  exact (a.inspect_found h f).mono (List.subset_append_left _ _)

end Activator

/-- The commands that use the registers of a core without asking first whether they may. -/
def Command.Bare : Command → Prop
  | .operate (.core .probe) | .operate (.core .isOn) | .operate (.core .turnOn)
  | .operate (.core .turnOff) | .operate (.act _ .inspectCore) => True
  | _ => False

namespace Object

variable {o : Object} {action : Action} {history : List Moment} {m : Machine}

theorem act_guarded (hunload : action ≠ .unload) (hinspect : action ≠ .inspectCore) :
    guards.Kept history ((o.act action).run m).timeline := by
  by_cases hact : o.Activates action
  · exact act_kept (by decide) hact fun _ _ => Activator.run_guarded _
  · by_cases hoperates : o.Operates
    · cases o with
      | activator a => exact .bind (.of_within (useActivator_within a hact) (by decide) m) .nil
      | loader l =>
        cases action with
        | load => exact absurd trivial hact
        | unload => exact absurd rfl hunload
        | inspectCore => exact absurd rfl hinspect
        | _ => exact .nil
      | _ => cases hoperates
    · exact .of_within (act_within_of_not_operates hoperates) (by decide) m

theorem unload_needs_nothing (h : ∀ l, o = loader l → l.turnedOn = false) :
    (o.act .unload).Asks fun r => r.needs = [] := by
  by_cases hoperates : o.Operates
  · cases o with
    | activator a => exact .bind trivial fun _ => trivial
    | loader l =>
      have hoff : (when l.turnedOn Switch.ensureOff).Asks fun r => r.needs = [] := by
        rw [h l rfl]
        trivial
      have hunload : l.unload.Asks fun r => r.needs = [] :=
        .bind hoff fun _ => .bind (.request rfl) fun _ => trivial
      exact .bind (.bind hunload fun _ => trivial) fun _ => trivial
    | _ => cases hoperates
  · exact (act_within_of_not_operates hoperates).needs_nothing (by decide)

end Object

namespace Session

variable {s : Session} {command : Command} {h : Handle}

theorem step_guarded (hbare : ¬ command.Bare) (hunload : ∀ h, command ≠ .operate (.act h .unload)) :
    guards.Kept [] (s.step command).timeline := by
  refine step_kept (by decide) ?_ (fun kind => ?_) ?_
  · rintro c rfl
    cases c with
    | hasRegisterAccess =>
      exact .bind (guards_of_quiet Capability.hasRegisterAccess_quiet _) .nil
    | identification => exact .bind (guards_of_quiet Capability.identification_quiet _) .nil
    | hasHardwareSupport => exact .bind Capability.hasHardwareSupport_guarded .nil
    | _ => exact absurd trivial hbare
  · exact .of_within (Object.create_within kind) (by decide) s.machine
  · rintro h action o rfl _
    apply Object.act_guarded
    · rintro rfl
      exact hunload h rfl
    · rintro rfl
      exact hbare trivial

theorem found_of_passedEnable (hpassed : (s.step (.operate (.act h .load))).PassedEnable)
    (f : Finding) : Found (s.step (.operate (.act h .load))).timeline f := by
  cases hfind : s.objects.find? h with
  | none =>
    rw [step_act_none hfind] at hpassed
    cases hpassed
  | some o =>
    rw [step_act hfind] at hpassed ⊢
    by_cases hact : o.Activates .load
    · obtain ⟨a, reports, hreports, -, htimeline⟩ :=
        Object.exists_run_of_activates hact s.machine
      have hnone : stageChanges reports = [] := by
        apply List.filterMap_eq_nil_iff.2
        intro x hx
        apply Moment.stageChange?_eq_none
        rw [hreports x hx]
        decide
      simp only [Step.PassedEnable, htimeline, stageChanges_append, hnone, List.nil_append,
        a.mem_run_stageChanges] at hpassed
      dsimp only
      rw [htimeline]
      exact (a.run_found hpassed f).mono (List.subset_append_right _ _)
    · have hnone := (Object.act_within hact).stageChanges_eq_nil (by decide) s.machine
      simp only [Step.PassedEnable, hnone] at hpassed
      cases hpassed

theorem loader_of_unload
    (haccess : ∃ x ∈ (s.step (.operate (.act h .unload))).timeline, x.request.needs ≠ []) :
    ∃ l, s.objects.find? h = some (.loader l) ∧ l.turnedOn = true := by
  obtain ⟨x, hx, hneeds⟩ := haccess
  cases hfind : s.objects.find? h with
  | none =>
    rw [step_act_none hfind] at hx
    cases hx
  | some o =>
    rw [step_act hfind] at hx
    by_cases hpassed : ∃ l, o = .loader l ∧ l.turnedOn = true
    · obtain ⟨l, rfl, hflag⟩ := hpassed
      exact ⟨l, rfl, hflag⟩
    · refine absurd ((Object.unload_needs_nothing ?_).timeline hx) hneeds
      rintro l rfl
      cases hflag : l.turnedOn with
      | false => rfl
      | true => exact absurd ⟨l, rfl, hflag⟩ hpassed

/-- Registers are used only where the core was found to allow it. -/
theorem accesses_guarded (commands : List Command) {command : Command} (hbare : ¬ command.Bare) :
    let s := fresh.afterRun commands
    let step := s.step command
    ((∀ h, command ≠ .operate (.act h .unload)) →
      ∀ before x after, step.timeline = before ++ x :: after →
        ∀ f ∈ x.request.needs, Found before f) ∧
    (∀ h, command = .operate (.act h .unload) →
      (∃ x ∈ step.timeline, x.request.needs ≠ []) →
        ∃ earlier load later,
          fresh.history commands = earlier ++ (.operate (.act h .load), load) :: later ∧
          (∀ entry ∈ later, ¬ entry.1.Resets h) ∧ ∀ f, Found load.timeline f) ∧
    ∀ x ∈ s.finish.timeline, x.request.needs = [] := by
  intro s step
  refine ⟨step_guarded hbare, ?_, ?_⟩
  · rintro h rfl haccess
    obtain ⟨l, hfind, hflag⟩ := loader_of_unload haccess
    obtain ⟨earlier, load, later, hhistory, hpassed, hlater⟩ :=
      (afterRun_tracks (tracks_fresh h) commands l hfind).1 hflag
    refine ⟨earlier, load, later, hhistory, hlater, ?_⟩
    have hmem : (.operate (.act h .load), load) ∈ fresh.history commands := by
      rw [List.nil_append] at hhistory
      rw [hhistory]
      exact List.mem_append_right _ List.mem_cons_self
    obtain ⟨before, -, -, rfl⟩ := exists_of_mem_history hmem
    exact found_of_passedEnable hpassed
  · intro x hx
    exact ((Frame.giveBackAll_within s.objects.frames).needs_nothing (by decide)).timeline hx

theorem accesses_guarded_capable :
    let commands : List Command := [.setup .capable, .operate (.create 0 .loader)]
    let load := (fresh.afterRun commands).step (.operate (.act 0 .load))
    let loaded := commands ++ [.operate (.act 0 .load)]
    (∀ before x after, load.timeline = before ++ x :: after →
      ∀ f ∈ x.request.needs, Found before f) ∧
    ((∃ x ∈ ((fresh.afterRun loaded).step (.operate (.act 0 .unload))).timeline,
        x.request.needs ≠ []) ∧
      ∃ earlier load later,
        fresh.history loaded = earlier ++ (.operate (.act 0 .load), load) :: later ∧
        (∀ entry ∈ later, ¬ entry.1.Resets 0) ∧ ∀ f, Found load.timeline f) := by
  intro commands load loaded
  have hload : ¬ Command.Bare (.operate (.act 0 .load)) := id
  have hunload : ¬ Command.Bare (.operate (.act 0 .unload)) := id
  have haccess : ∃ x ∈ ((fresh.afterRun loaded).step (.operate (.act 0 .unload))).timeline,
      x.request.needs ≠ [] := by decide
  exact ⟨(accesses_guarded commands hload).1 (by simp), haccess,
    (accesses_guarded loaded hunload).2.1 0 rfl haccess⟩

end Session

end SvmActivation
