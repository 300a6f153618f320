import SvmActivation.Proofs.ActivationDecision
import SvmActivation.Proofs.GuestEntry

namespace SvmActivation

open Program

def Request.msr? : Request → Option Msr
  | readMsr msr | writeMsr msr _ => some msr
  | _ => none

def LastAccess (timeline : List Moment) (access : Moment) : Prop :=
  access.request.msr? ≠ none ∧
    ∃ earlier later, timeline = earlier ++ access :: later ∧ ∀ x ∈ later, x.request.msr? = none

/-- Whether an action is there to turn SVM on or off; what it does is up to the object. -/
def Action.switches? : Action → Option Bool
  | run | load => some true
  | unload => some false
  | _ => none

def CoreCommand.switches? : CoreCommand → Option Bool
  | turnOn => some true
  | turnOff => some false
  | _ => none

def Command.switches? : Command → Option Bool
  | .operate (.core command) => command.switches?
  | .operate (.act _ action) => action.switches?
  | _ => none

/-- The last access was a read of `IA32_EFER`, and the value is that but for the SVM bit. -/
def SwitchesRead (on : Bool) (before : List Moment) (value : Register) : Prop :=
  ∃ read, LastAccess before read ∧ read.request = .readMsr .efer ∧
    ∀ i < 64, value.bits.getLsbD i =
      if i = 12 then on else (read.machine.core.readMsr .efer).bits.getLsbD i

def EndsWithTurnOff (before : List Moment) : Prop :=
  ∃ earlier cleared efer, before = earlier ++ [cleared] ∧
    cleared.request = .writeMsr .efer efer ∧ efer.bits.getLsbD 12 = false

/-- The second page of a pair is out, and but for reports the entry with that pair comes next. -/
structure AwaitsEntry (before : List Moment) (m : Machine) (after : List Moment) (page : Address) :
    Prop where
  ne_null : page ≠ .null
  aligned : page.IsAligned
  live : page ∈ m.allocator.live
  entry : ∃ vmcb reports entry rest, [vmcb, page] <:+ handedOut before ∧
    after = reports ++ entry :: rest ∧ (∀ x ∈ reports, ∃ message, x.request = .log message) ∧
    entry.request = .enterGuest vmcb

/-- What a write to a register has to do with what comes before and after it. -/
def Justified (on : Bool) (before : List Moment) (m : Machine) (after : List Moment) :
    Msr → Register → Prop
  | .vmCr, _ => False
  | .efer, value => SwitchesRead on before value
  | .hostSave, value =>
    value = .zero ∧ EndsWithTurnOff before ∨
      ∃ page, value = page.toRegister ∧ AwaitsEntry before m after page

theorem Justified.extend {on : Bool} {before after : List Moment} {m : Machine} {msr : Msr}
    {value : Register} (h : Justified on before m after msr value) (later : List Moment) :
    Justified on before m (after ++ later) msr value := by
  cases msr with
  | vmCr => exact h
  | efer => exact h
  | hostSave =>
    rcases h with hzero | ⟨page, hvalue, hawaits⟩
    · exact .inl hzero
    · obtain ⟨vmcb, reports, entry, rest, hout, rfl, hreports, hentry⟩ := hawaits.entry
      refine .inr ⟨page, hvalue, hawaits.ne_null, hawaits.aligned, hawaits.live, ?_⟩
      exact ⟨vmcb, reports, entry, rest ++ later, hout, List.append_assoc .., hreports, hentry⟩

/-- Every write is justified; `on?` is whether the timeline is there to turn SVM on or off. -/
def Policy.discipline (on? : Option Bool) : Policy [.register] where
  Allows before x after := ∀ msr value, x.request = .writeMsr msr value →
    ∃ on, on? = some on ∧ Justified on before x.machine after msr value
  ignores hx msr value hwrite := by
    rw [hwrite] at hx
    exact absurd List.mem_cons_self hx
  extend h later msr value hwrite := by
    obtain ⟨on, hon, hjustified⟩ := h msr value hwrite
    exact ⟨on, hon, hjustified.extend later⟩

namespace Efer

variable (efer : Register) {i : Nat}

theorem withSvm_bit :
    (withSvm efer).bits.getLsbD i = if i = 12 then true else efer.bits.getLsbD i := by
  by_cases h : i = 12
  · rw [if_pos h, h]
    exact hasSvm_withSvm efer
  · rw [if_neg h]
    exact getLsbD_withSvm efer h

theorem withoutSvm_bit (hi : i < 64) :
    (withoutSvm efer).bits.getLsbD i = if i = 12 then false else efer.bits.getLsbD i := by
  by_cases h : i = 12
  · rw [if_pos h, h]
    exact hasSvm_withoutSvm efer
  · rw [if_neg h]
    exact getLsbD_withoutSvm efer h hi

end Efer

namespace Switch

variable (history : List Moment) (m : Machine)

/-- Turning SVM on reads the register, looks around without another access, and writes it. -/
theorem turnOn_timeline :
    ∃ quiet, (∀ x ∈ quiet, x.request.effect ∈ [.look, .report] ∧ x.request.msr? = none) ∧
      (turnOn.run m).timeline = ⟨m, .readMsr .efer⟩ :: quiet ++
        [⟨m, .writeMsr .efer m.eferWithSvm⟩, ⟨m.turnOn, .log (.svmEnabled m.eferWithSvm)⟩] := by
  let before : Moment := ⟨m, .log (.eferBefore (m.core.readMsr .efer))⟩
  let looks : List Moment := [⟨m, .readCr0⟩, ⟨m, .logMode (m.core.cr0.bits.getLsbD 0)⟩]
  cases hon : Efer.hasSvm (m.core.readMsr .efer) with
  | false =>
    refine ⟨before :: looks, by simp [before, looks, Request.msr?], ?_⟩
    simp only [turnOn, run_bind_timeline, run_when, request, run_ask, Machine.serve,
      Execution.behind_value, Execution.behind_machine, run_done, hon]
    rfl
  | true =>
    let warning : Moment := ⟨m, .log .alreadyEnabled⟩
    refine ⟨before :: warning :: looks, by simp [before, warning, looks, Request.msr?], ?_⟩
    simp only [turnOn, run_bind_timeline, run_when, request, run_ask, Machine.serve,
      Execution.behind_value, Execution.behind_machine, run_done, hon]
    rfl

theorem turnOn_disciplined :
    (Policy.discipline (some true)).Kept history (turnOn.run m).timeline := by
  obtain ⟨quiet, hquiet, htimeline⟩ := turnOn_timeline m
  have hlook : (Policy.discipline (some true)).Kept history (⟨m, .readMsr .efer⟩ :: quiet) := by
    apply Policy.Kept.of_quiet
    intro x hx he
    rw [List.mem_singleton] at he
    rcases List.mem_cons.1 hx with rfl | hx
    · cases he
    · have hmem := (hquiet x hx).1
      rw [he] at hmem
      simp at hmem
  have hread : LastAccess (history ++ ⟨m, .readMsr .efer⟩ :: quiet) ⟨m, .readMsr .efer⟩ :=
    ⟨nofun, history, quiet, rfl, fun x hx => (hquiet x hx).2⟩
  rw [htimeline]
  apply hlook.append
  apply Policy.Kept.cons
  · intro msr value hwrite
    cases hwrite
    exact ⟨true, rfl, _, hread, rfl, fun i _ => Efer.withSvm_bit _⟩
  · exact .cons_quiet (by simp) .nil

theorem turnOff_disciplined :
    (Policy.discipline (some false)).Kept history (turnOff.run m).timeline := by
  let efer := Efer.withoutSvm (m.core.readMsr .efer)
  have hread : LastAccess (history ++ [⟨m, .readMsr .efer⟩]) ⟨m, .readMsr .efer⟩ :=
    ⟨nofun, history, [], rfl, fun _ hx => absurd hx List.not_mem_nil⟩
  apply Policy.Kept.cons_quiet (by simp)
  apply Policy.Kept.cons
  · intro msr value hwrite
    cases hwrite
    exact ⟨false, rfl, _, hread, rfl, fun i hi => Efer.withoutSvm_bit _ hi⟩
  apply Policy.Kept.cons
  · intro msr value hwrite
    cases hwrite
    exact ⟨false, rfl, .inl ⟨rfl, _, _, efer, rfl, rfl, Efer.hasSvm_withoutSvm _⟩⟩
  exact .cons_quiet (by simp) .nil

theorem ensureOff_disciplined :
    (Policy.discipline (some false)).Kept history (ensureOff.run m).timeline := by
  apply Policy.Kept.bind (.of_within isOn_within (by decide) m)
  rw [run_when, isOn_value, isOn_machine]
  split
  · exact turnOff_disciplined _ m
  · exact .nil

end Switch

namespace Activator

variable (a : Activator) {m : Machine} {pages : ControlPages} {history : List Moment}

/-- The save area is registered where its page was taken, and the entry comes next. -/
theorem enterGuest_disciplined (efer : Register) (hnull : pages.saveArea ≠ .null)
    (haligned : pages.saveArea.IsAligned) (hlive : pages.saveArea ∈ m.allocator.live)
    (hout : pages.frames <:+ handedOut history) :
    (Policy.discipline (some true)).Kept history ((a.enterGuest efer pages).run m).timeline := by
  apply Policy.Kept.bind (.of_within (a.advance_within _) (by decide) m)
  apply Policy.Kept.cons
  · intro msr value hwrite
    cases hwrite
    rw [advance_machine]
    refine ⟨true, rfl, .inr ⟨pages.saveArea, rfl, hnull, haligned, hlive, ?_⟩⟩
    refine ⟨pages.vmcb, [_, _], _, _, ?_, rfl, ?_, rfl⟩
    · have hquiet : handedOut ((a.advance .saveAreaSetup).run m).timeline = [] := rfl
      rw [handedOut_append, hquiet, List.append_nil]
      exact hout
    · intro x hx
      simp only [List.mem_cons, List.not_mem_nil, or_false] at hx
      rcases hx with rfl | rfl
      · exact ⟨_, rfl⟩
      · exact ⟨_, rfl⟩
  · refine .of_within (?_ : Program.Within [.stage, .report, .guest, .page] _) (by decide) _
    refine .bind trivial fun _ => .bind (.request (by simp)) fun _ => ?_
    refine .bind ((advance_within _ _).mono (by decide)) fun _ => ?_
    refine .bind (.request (by simp)) fun _ => ?_
    refine .bind ((Vmcb.readExit_within _).mono (by decide)) fun _ => ?_
    exact .bind (.when _ (.request (by simp))) fun _ => trivial

theorem run_disciplined (history : List Moment) (m : Machine) :
    (Policy.discipline (some true)).Kept history (a.run.run m).timeline := by
  refine a.run_kept (by decide) (.of_within a.inspect_within (by decide) m) (fun _ => ?_) ?_
  · refine .bind (.of_within (advance_within _ _) (by decide) m) ?_
    refine .bind (Switch.turnOn_disciplined _ _) ?_
    refine .bind (.of_within (advance_within _ _) (by decide) _) ?_
    exact .bind (.of_within ControlPages.allocate_within (by decide) _) .nil
  · intro pages hcourse
    have hoffered := Machine.pagesOffered_of_entered hcourse
    obtain ⟨-, hsecond⟩ := Machine.pagesOffered_eq_ok hoffered
    obtain ⟨-, hnull, haligned⟩ := Frame.judge_eq_ok hsecond
    have hlive : (m.supplied pages).allocator.live =
        pages.saveArea :: pages.vmcb :: m.allocator.live := Machine.live_prepared hoffered
    apply enterGuest_disciplined _ _ hnull haligned
    · rw [hlive]
      exact List.mem_cons_self
    · rw [preparation, ← List.append_assoc, handedOut_append, supply_handedOut _ hoffered]
      exact List.suffix_append _ _

end Activator

namespace Object

variable {o : Object} {action : Action} (history : List Moment) (m : Machine)

theorem useActivator_disciplined (a : Activator) :
    (Policy.discipline action.switches?).Kept history ((useActivator a action).run m).timeline := by
  cases action with
  | run => exact .bind (a.run_disciplined history m) .nil
  | _ => exact .nil

theorem useLoader_disciplined (l : Loader) :
    (Policy.discipline action.switches?).Kept history ((useLoader l action).run m).timeline := by
  cases action with
  | load =>
    have hlog : (log .loaded).Within [.report] := .request (by simp)
    have hload : (Policy.discipline (some true)).Kept history (l.load.run m).timeline := by
      apply Policy.Kept.bind (.of_within hlog (by decide) m)
      exact .bind (Activator.run_disciplined _ _ _) .nil
    exact .bind hload .nil
  | unload =>
    have hlog : (log .unloaded).Within [.report] := .request (by simp)
    have hoff : (Policy.discipline (some false)).Kept history
        ((when l.turnedOn Switch.ensureOff).run m).timeline := by
      rw [run_when]
      split
      · exact Switch.ensureOff_disciplined history m
      · exact .nil
    have hunload : (Policy.discipline (some false)).Kept history (l.unload.run m).timeline := by
      apply Policy.Kept.bind hoff
      exact .bind (.of_within hlog (by decide) _) .nil
    exact .bind hunload .nil
  | inspectCore =>
    apply Policy.Kept.bind (.of_within Capability.hasRegisterAccess_within (by decide) m)
    exact .bind (.of_within Switch.isOn_within (by decide) _) .nil
  | _ => exact .nil

theorem act_disciplined :
    (Policy.discipline action.switches?).Kept history ((o.act action).run m).timeline := by
  by_cases hoperates : o.Operates
  · cases o with
    | activator a => exact .bind (useActivator_disciplined history m a) .nil
    | loader l => exact .bind (useLoader_disciplined history m l) .nil
    | _ => cases hoperates
  · exact .of_within (act_within_of_not_operates hoperates) (by decide) m

end Object

theorem CoreCommand.program_disciplined (command : CoreCommand) (history : List Moment)
    (m : Machine) :
    (Policy.discipline command.switches?).Kept history (command.program.run m).timeline := by
  cases command with
  | turnOn => exact .bind (Switch.turnOn_disciplined history m) .nil
  | turnOff => exact .bind (Switch.turnOff_disciplined history m) .nil
  | hasRegisterAccess =>
    exact .bind (.of_within Capability.hasRegisterAccess_within (by decide) m) .nil
  | probe => exact .bind (.of_within Capability.probe_within (by decide) m) .nil
  | identification => exact .bind (.of_within Capability.identification_within (by decide) m) .nil
  | hasHardwareSupport =>
    exact .bind (.of_within Capability.hasHardwareSupport_within (by decide) m) .nil
  | isOn => exact .bind (.of_within Switch.isOn_within (by decide) m) .nil

theorem Session.step_disciplined (s : Session) (command : Command) :
    (Policy.discipline command.switches?).Kept [] (s.step command).timeline := by
  refine step_kept (by decide) ?_ (fun kind => ?_) ?_
  · rintro c rfl
    exact c.program_disciplined [] s.machine
  · exact .of_within (Object.create_within kind) (by decide) s.machine
  · rintro h action o rfl _
    exact Object.act_disciplined [] s.machine

end SvmActivation
