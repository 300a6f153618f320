import SvmActivation.Proofs.ObjectActions
import SvmActivation.Proofs.SessionRuns

namespace SvmActivation

open Program

/-- What has to hold where a guest is entered with a VMCB and a save area for the host. -/
structure Machine.EntryReady (m : Machine) (vmcb saveArea : Address) : Prop where
  vmcb_ne_null : vmcb ≠ .null
  vmcb_aligned : vmcb.IsAligned
  vmcb_zero : m.memory.IsZero vmcb
  saveArea_ne_null : saveArea ≠ .null
  saveArea_aligned : saveArea.IsAligned
  saveArea_zero : m.memory.IsZero saveArea
  live : ∃ others, m.allocator.live.Perm (vmcb :: saveArea :: others)
  registered : m.core.readMsr .hostSave = saveArea.toRegister
  svmOn : Efer.hasSvm (m.core.readMsr .efer) = true

namespace Machine

variable {m : Machine} {pages : ControlPages}

theorem pagesOffered_eq_ok (h : m.pagesOffered = .ok pages) :
    Frame.judge m.allocator.answer = .ok pages.vmcb ∧
      Frame.judge m.allocator.afterRequest.answer = .ok pages.saveArea :=
  ControlPages.judge_eq_ok h

theorem live_prepared (h : m.pagesOffered = .ok pages) :
    (m.prepared pages).allocator.live = pages.saveArea :: pages.vmcb :: m.allocator.live := by
  obtain ⟨hfirst, hsecond⟩ := pagesOffered_eq_ok h
  obtain ⟨hvmcb, _, _⟩ := Frame.judge_eq_ok hfirst
  obtain ⟨hsaveArea, _, _⟩ := Frame.judge_eq_ok hsecond
  have hlive : (m.prepared pages).allocator.live =
      m.allocator.afterRequest.answer.toList ++ (m.allocator.answer.toList ++ m.allocator.live) :=
    rfl
  rw [hlive, hvmcb, hsaveArea]
  rfl

theorem hasSvm_turnOn (hefer : .efer ∉ m.core.readOnly) :
    Efer.hasSvm (m.turnOn.core.readMsr .efer) = true := by
  rw [turnOn, Core.readMsr_writeMsr_self _ _ hefer, eferWithSvm, Efer.hasSvm_withSvm]

theorem prepared_entryReady (hefer : .efer ∉ m.core.readOnly)
    (hsave : .hostSave ∉ m.core.readOnly) (h : m.pagesOffered = .ok pages) :
    (m.prepared pages).EntryReady pages.vmcb pages.saveArea := by
  obtain ⟨hfirst, hsecond⟩ := pagesOffered_eq_ok h
  obtain ⟨_, hvmcb, hvmcb'⟩ := Frame.judge_eq_ok hfirst
  obtain ⟨_, hsaveArea, hsaveArea'⟩ := Frame.judge_eq_ok hsecond
  have hcore : (m.prepared pages).core =
      m.turnOn.core.writeMsr .hostSave pages.saveArea.toRegister := rfl
  have hwritable : .hostSave ∉ m.turnOn.core.readOnly := by
    rwa [turnOn, Core.writeMsr_readOnly]
  exact {
    vmcb_ne_null := hvmcb
    vmcb_aligned := hvmcb'
    vmcb_zero := (Memory.isZero_fill _ _).fill _
    saveArea_ne_null := hsaveArea
    saveArea_aligned := hsaveArea'
    saveArea_zero := Memory.isZero_fill _ _
    live := ⟨m.allocator.live, live_prepared h ▸ .swap _ _ _⟩
    registered := by rw [hcore, Core.readMsr_writeMsr_self _ _ hwritable]
    svmOn := by
      rw [hcore, Core.readMsr_writeMsr_of_ne _ _ (by decide)]
      exact hasSvm_turnOn hefer }

theorem outcome_of_entered (h : m.course = .entered pages) :
    ∃ completion, m.outcome = .ok completion ∧ completion.vmcb = pages.vmcb ∧
      completion.saveArea = pages.saveArea := by
  rw [outcome, h]
  exact ⟨_, rfl, rfl, rfl⟩

end Machine

def Reply.outcome? : Reply → Option Outcome
  | outcome o => some o
  | _ => none

def Object.lastOutcome? : Object → Option Outcome
  | loader l => l.lastOutcome
  | _ => none

/-- What the activation came to that a command has carried out. -/
def Step.activationOutcome? (step : Step) : Command → Option Outcome
  | .operate (.act _ .run) => step.reply.outcome?
  | .operate (.act h .load) => (step.session.objects.find? h).bind Object.lastOutcome?
  | _ => none

namespace Session

variable {commands : List Command}

theorem activationOutcome?_step {s : Session} {h : Handle} {o : Object} {action : Action}
    (hfind : s.objects.find? h = some o) (hact : o.Activates action) :
    (s.step (.operate (.act h action))).activationOutcome? (.operate (.act h action)) =
      some s.machine.outcome := by
  obtain ⟨a, rfl, rfl⟩ | ⟨l, rfl, rfl⟩ := hact.cases
  · have hvalue : (s.step (.operate (.act h .run))).reply = .outcome s.machine.outcome := by
      rw [step_act hfind]
      simp only [Object.act, Object.useActivator, run_bind_value, Activator.run_value, pure_eq,
        run_done]
    rw [Step.activationOutcome?, hvalue]
    rfl
  · rw [Step.activationOutcome?, find?_load hfind]
    rfl

/-- Wherever a session enters a guest, the pages and the core are ready for it. -/
theorem entryReady_of_mem_timeline
    (hefer : ∀ command ∈ commands, command.LeavesWritable .efer)
    (hsave : ∀ command ∈ commands, command.LeavesWritable .hostSave)
    {command : Command} {step : Step} (hstep : (command, step) ∈ fresh.history commands)
    {moment : Moment} (hm : moment ∈ step.timeline) {vmcb : Address}
    (hentry : moment.request = .enterGuest vmcb) :
    ∃ saveArea, moment.machine.EntryReady vmcb saveArea ∧
      ∃ completion, step.activationOutcome? command = some (.ok completion) ∧
        completion.vmcb = vmcb ∧ completion.saveArea = saveArea := by
  obtain ⟨earlier, later, rfl, rfl⟩ := exists_of_mem_history hstep
  have hwritable {msr : Msr} (hc : ∀ c ∈ earlier ++ command :: later, c.LeavesWritable msr) :
      msr ∉ (fresh.afterRun earlier).machine.core.readOnly :=
    afterRun_writable (s := fresh) List.not_mem_nil fun c hmem => hc c (List.mem_append_left _ hmem)
  cases command with
  | setup change => cases hm
  | dump page => cases hm
  | operate operation =>
    obtain ⟨h, action, o, rfl, hfind, hact, haction⟩ :=
      Objects.exists_of_guest hm (by rw [hentry]; rfl)
    obtain ⟨pages, hcourse, rfl, hmachine⟩ :=
      Machine.exists_pages_of_mem_activationActions haction hentry
    obtain ⟨completion, houtcome, hvmcb, hsaveArea⟩ := Machine.outcome_of_entered hcourse
    have hoffered := Machine.pagesOffered_of_entered hcourse
    refine ⟨pages.saveArea, ?_, completion, ?_, hvmcb, hsaveArea⟩
    · rw [hmachine]
      exact Machine.prepared_entryReady (hwritable hefer) (hwritable hsave) hoffered
    · rw [activationOutcome?_step hfind hact, houtcome]

theorem entryReady_of_mem_timeline_capable :
    ∃ step moment,
      (.operate (.act 0 .run), step) ∈ fresh.history
        [.setup .capable, .operate (.create 0 .activator), .operate (.act 0 .run)] ∧
      moment ∈ step.timeline ∧ moment.request = .enterGuest ⟨0x1000⟩ ∧
      ∃ saveArea, moment.machine.EntryReady ⟨0x1000⟩ saveArea ∧
        ∃ completion, step.activationOutcome? (.operate (.act 0 .run)) = some (.ok completion) ∧
          completion.vmcb = ⟨0x1000⟩ ∧ completion.saveArea = saveArea := by
  let commands : List Command :=
    [.setup .capable, .operate (.create 0 .activator), .operate (.act 0 .run)]
  let step := (fresh.afterRun (commands.take 2)).step (.operate (.act 0 .run))
  have hstep : (.operate (.act 0 .run), step) ∈ fresh.history commands := by
    simp [commands, step]
  have hsome : (step.timeline.find? (·.request = .enterGuest ⟨0x1000⟩)).isSome := by decide
  obtain ⟨moment, hmoment⟩ := Option.isSome_iff_exists.1 hsome
  have hm := List.mem_of_find?_eq_some hmoment
  have hentry : moment.request = .enterGuest ⟨0x1000⟩ := by
    simpa using List.find?_some hmoment
  refine ⟨step, moment, hstep, hm, hentry, ?_⟩
  exact entryReady_of_mem_timeline (by simp [commands, Command.LeavesWritable, Setup.capable])
    (by simp [commands, Command.LeavesWritable, Setup.capable]) hstep hm hentry

end Session

end SvmActivation
