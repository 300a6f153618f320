import SvmActivation.Proofs.Executions
import SvmActivation.Session.Basic

namespace SvmActivation

inductive Request.Effect where
  | look
  | stage
  | report
  | register
  | guest
  | frame
  | page
  deriving DecidableEq, Repr

@[simp]
def Request.effect : Request → Effect
  | cpuid _ | readMsr _ | readCr0 => .look
  | log (.stageChange ..) => .stage
  | log _ | logMode _ => .report
  | writeMsr .. => .register
  | enterGuest _ => .guest
  | takeFrame | giveBack _ => .frame
  | fillPage .. | storeByte .. | loadWord .. | storeWord .. => .page

theorem foldl_keeps {α β γ : Type} (part : α → γ) (f : α → β → α)
    (h : ∀ a b, part (f a b) = part a) (a : α) (l : List β) : part (l.foldl f a) = part a := by
  induction l generalizing a with
  | nil => rfl
  | cons b rest ih => exact (ih (f a b)).trans (h a b)

namespace Machine

variable (m : Machine) (r : Request)

theorem serve_readOnly : (m.serve r).2.core.readOnly = m.core.readOnly := by
  cases r with
  | writeMsr msr value =>
    simp only [serve, Core.writeMsr]
    split <;> rfl
  | enterGuest vmcb =>
    exact foldl_keeps Core.readOnly (fun core set => core.setMsr set.1 set.2) (fun _ _ => rfl)
      m.core m.nextGuest.msrs
  | _ => rfl

theorem serve_core (h : r.effect ≠ .register ∧ r.effect ≠ .guest) :
    (m.serve r).2.core = m.core := by
  cases r with
  | writeMsr => exact absurd rfl h.1
  | enterGuest => exact absurd rfl h.2
  | _ => rfl

theorem serve_allocator (h : r.effect ≠ .frame) : (m.serve r).2.allocator = m.allocator := by
  cases r with
  | takeFrame => exact absurd rfl h
  | giveBack => exact absurd rfl h
  | _ => rfl

theorem serve_memory (h : r.effect ≠ .guest ∧ r.effect ≠ .page) :
    (m.serve r).2.memory = m.memory := by
  cases r with
  | enterGuest => exact absurd rfl h.1
  | fillPage => exact absurd rfl h.2
  | storeByte => exact absurd rfl h.2
  | loadWord => exact absurd rfl h.2
  | storeWord => exact absurd rfl h.2
  | _ => rfl

theorem serve_eq (h : r.effect ∈ [.look, .stage, .report]) : (m.serve r).2 = m := by
  cases r <;> first | rfl | simp at h

end Machine

/-- A program whose requests are all for one of some purposes. -/
def Program.Within {α : Type} (effects : List Request.Effect) (p : Program α) : Prop :=
  p.Asks (·.effect ∈ effects)

namespace Program.Within

variable {α : Type} {effects : List Request.Effect} {p : Program α}

theorem mono {wider : List Request.Effect} (hp : p.Within effects)
    (h : effects ⊆ wider) : p.Within wider :=
  Asks.mono hp fun _ hr => h hr

/-- No request is for a purpose that a program does not serve. -/
theorem effect_ne (hp : p.Within effects) {effect : Request.Effect} (h : effect ∉ effects)
    {m : Machine} {moment : Moment} (hm : moment ∈ (p.run m).timeline) :
    moment.request.effect ≠ effect := by
  rintro rfl
  exact h (hp.timeline hm)

theorem machine_eq (hp : p.Within effects) (h : effects ⊆ [.look, .stage, .report])
    (m : Machine) : (p.run m).machine = m :=
  Asks.keeps id hp (fun m r hr => m.serve_eq r (h hr)) m

theorem core_eq (hp : p.Within effects) (h : .register ∉ effects ∧ .guest ∉ effects)
    (m : Machine) : (p.run m).machine.core = m.core :=
  Asks.keeps Machine.core hp
    (fun m r hr => m.serve_core r ⟨fun he => h.1 (he ▸ hr), fun he => h.2 (he ▸ hr)⟩) m

theorem memory_eq (hp : p.Within effects) (h : .guest ∉ effects ∧ .page ∉ effects)
    (m : Machine) : (p.run m).machine.memory = m.memory :=
  Asks.keeps Machine.memory hp
    (fun m r hr => m.serve_memory r ⟨fun he => h.1 (he ▸ hr), fun he => h.2 (he ▸ hr)⟩) m

end Program.Within

open Program

theorem Switch.isOn_within : Switch.isOn.Within [.look] :=
  .bind (.request (by simp)) fun _ => trivial

theorem Switch.turnOn_within : Switch.turnOn.Within [.look, .report, .register] :=
  .bind (.request (by simp)) fun _ => .bind (.request (by simp)) fun _ =>
    .bind (.when _ (.request (by simp))) fun _ => .bind (.request (by simp)) fun _ =>
      .bind (.request (by simp)) fun _ => .bind (.request (by simp)) fun _ =>
        .bind (.request (by simp)) fun _ => trivial

theorem Switch.turnOff_within : Switch.turnOff.Within [.look, .report, .register] :=
  .bind (.request (by simp)) fun _ => .bind (.request (by simp)) fun _ =>
    .bind (.request (by simp)) fun _ => .request (by simp)

theorem Switch.ensureOff_within : Switch.ensureOff.Within [.look, .report, .register] :=
  .bind (isOn_within.mono (by decide)) fun _ => .when _ turnOff_within

namespace Capability

theorem hasRegisterAccess_within : hasRegisterAccess.Within [.look, .report] :=
  .bind (.request (by simp)) fun _ => .bind (.request (by simp)) fun _ => trivial

theorem identification_within : identification.Within [.look] :=
  .bind (.request (by simp)) fun _ => trivial

theorem lockKind_within : lockKind.Within [.look, .report] := by
  refine .bind (.request (by simp)) fun words => .bind (.request (by simp)) fun _ => .ite ?_ ?_
  · exact .bind (.request (by simp)) fun _ => trivial
  · exact .bind (.request (by simp)) fun _ => trivial

theorem probe_within : probe.Within [.look, .report] := by
  refine .bind (.request (by simp)) fun words => .bind (.request (by simp)) fun _ => .ite ?_ trivial
  refine .bind (.request (by simp)) fun value => .bind (.request (by simp)) fun _ =>
    .ite lockKind_within ?_
  refine .bind (identification_within.mono (by decide)) fun _ => ?_
  exact .bind (.request (by simp)) fun _ => trivial

theorem hasHardwareSupport_within : hasHardwareSupport.Within [.look, .report] :=
  .bind hasRegisterAccess_within fun _ => .ite (.bind probe_within fun _ => trivial) trivial

end Capability

namespace Frame

theorem giveBack_within (frame : Address) : (giveBack frame).Within [.frame, .report] :=
  .bind (.request (by simp)) fun _ => .request (by simp)

theorem giveBackAll_within (frames : List Address) :
    (giveBackAll frames).Within [.frame, .report] := by
  induction frames with
  | nil => trivial
  | cons frame rest ih => exact .bind (giveBack_within frame) fun _ => ih

theorem take_within : take.Within [.frame, .report] := by
  refine .bind (.request (by simp)) fun answer => ?_
  cases answer with
  | none => trivial
  | some frame => exact .ite trivial (.ite trivial (.bind (giveBack_within frame) fun _ => trivial))

theorem takeZeroed_within : takeZeroed.Within [.frame, .report, .page] := by
  refine .bind (take_within.mono (by decide)) fun taken => ?_
  cases taken with
  | error failure => trivial
  | ok frame => exact .bind (.request (by simp)) fun _ => trivial

end Frame

theorem ControlPages.allocate_within : allocate.Within [.frame, .report, .page] := by
  refine .bind Frame.takeZeroed_within fun first => ?_
  cases first with
  | error failure => trivial
  | ok vmcb =>
    refine .bind Frame.takeZeroed_within fun second => ?_
    cases second with
    | error failure => exact .bind ((Frame.giveBack_within vmcb).mono (by decide)) fun _ => trivial
    | ok saveArea => exact .bind (.request (by simp)) fun _ => trivial

theorem Vmcb.readExit_within (vmcb : Address) : (readExit vmcb).Within [.page] :=
  .bind (.request (by simp)) fun _ => .bind (.request (by simp)) fun _ =>
    .bind (.request (by simp)) fun _ => trivial

theorem Vmcb.setField_within (vmcb : Address) (field : ExitField) (w : Word) :
    (setField vmcb field w).Within [.page] :=
  .bind (.request (by simp)) fun _ => .request (by simp)

theorem Activator.advance_within (a : Activator) (next : Stage) :
    (a.advance next).Within [.stage] :=
  .bind (.request (by simp)) fun _ => trivial

namespace Object

theorem discard_within (o : Object) : o.discard.Within [.frame, .report] :=
  Frame.giveBackAll_within o.frames

theorem create_within (kind : ObjectKind) : (create kind).Within [.frame, .report, .page] := by
  cases kind with
  | frame => exact .bind (Frame.take_within.mono (by decide)) fun _ => trivial
  | zeroedFrame | vmcb | saveArea => exact .bind Frame.takeZeroed_within fun _ => trivial
  | pages => exact .bind ControlPages.allocate_within fun _ => trivial
  | placeholder | activator | loader => trivial

theorem withOwned_within {α : Type} {effects : List Request.Effect} (owned : Option α)
    {use : α → Program Reply} (h : ∀ value, (use value).Within effects) :
    (withOwned owned use).Within effects := by
  cases owned with
  | none => trivial
  | some value => exact h value

theorem fill_within (page : Address) (b : Byte) : (fill page b).Within [.page] :=
  .bind (.request (by simp)) fun _ => trivial

theorem poke_within (page : Address) (offset : Nat) (b : Byte) :
    (poke page offset b).Within [.page] :=
  .bind (.request (by simp)) fun _ => trivial

theorem readExit_within (page : Address) : (readExit page).Within [.page] :=
  .bind (Vmcb.readExit_within page) fun _ => trivial

theorem setField_within (page : Address) (field : ExitField) (w : Word) :
    (setField page field w).Within [.page] :=
  .bind (Vmcb.setField_within page field w) fun _ => trivial

theorem useFrame_within (owned : Option Address) (action : Action) :
    (useFrame owned action).Within [.page] := by
  cases action with
  | address => exact withOwned_within owned fun _ => trivial
  | fill b => exact withOwned_within owned fun page => fill_within page b
  | poke offset b => exact withOwned_within owned fun page => poke_within page offset b
  | _ => trivial

theorem useVmcb_within (page : Address) (action : Action) :
    (useVmcb page action).Within [.page] := by
  cases action with
  | poke offset b => exact poke_within page offset b
  | readExit => exact readExit_within page
  | setField field w => exact setField_within page field w
  | _ => trivial

theorem useSaveArea_within (page : Address) (action : Action) :
    (useSaveArea page action).Within [.page] := by
  cases action <;> trivial

theorem usePages_within (owned : Option ControlPages) (action : Action) :
    (usePages owned action).Within [.page] := by
  cases action with
  | address => exact withOwned_within owned fun _ => trivial
  | poke offset b => exact withOwned_within owned fun pages => poke_within pages.vmcb offset b
  | readExit => exact withOwned_within owned fun pages => readExit_within pages.vmcb
  | setField field w =>
    exact withOwned_within owned fun pages => setField_within pages.vmcb field w
  | _ => trivial

end Object

theorem CoreCommand.program_within (command : CoreCommand) :
    command.program.Within [.look, .report, .register] := by
  cases command with
  | hasRegisterAccess =>
    have hlook := Capability.hasRegisterAccess_within
    exact .bind (hlook.mono (by decide)) fun _ => trivial
  | probe =>
    have hlook := Capability.probe_within
    exact .bind (hlook.mono (by decide)) fun _ => trivial
  | identification =>
    have hlook := Capability.identification_within
    exact .bind (hlook.mono (by decide)) fun _ => trivial
  | hasHardwareSupport =>
    have hlook := Capability.hasHardwareSupport_within
    exact .bind (hlook.mono (by decide)) fun _ => trivial
  | isOn =>
    have hlook := Switch.isOn_within
    exact .bind (hlook.mono (by decide)) fun _ => trivial
  | turnOn => exact .bind Switch.turnOn_within fun _ => trivial
  | turnOff => exact .bind Switch.turnOff_within fun _ => trivial

end SvmActivation
