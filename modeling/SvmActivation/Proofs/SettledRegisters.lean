import SvmActivation.Proofs.EferRoundTrip
import SvmActivation.Proofs.RegisterWrites

namespace SvmActivation

open Program

def Command.settings : Command → List Msr
  | .setup change => change.msrs.map Prod.fst
  | .dump _ | .operate _ => []

/-- In a step neither the surroundings nor a guest give a register a value. -/
structure Spares (msr : Msr) (command : Command) (step : Step) : Prop where
  setup : msr ∉ command.settings
  guests : ∀ moment ∈ step.timeline, moment.request.effect = .guest → msr ∉ moment.settings

structure Core.SettledAs (core start : Core) : Prop where
  efer : ∀ i < 64, i ≠ 12 →
    (core.readMsr .efer).bits.getLsbD i = (start.readMsr .efer).bits.getLsbD i
  vmCr : core.readMsr .vmCr = start.readMsr .vmCr

namespace Core.SettledAs

variable {core other start : Core}

theorem refl (core : Core) : core.SettledAs core :=
  ⟨fun _ _ _ => rfl, rfl⟩

theorem congr (h : core.SettledAs start) (hefer : other.readMsr .efer = core.readMsr .efer)
    (hvmCr : other.readMsr .vmCr = core.readMsr .vmCr) : other.SettledAs start := by
  constructor
  · rw [hefer]
    exact h.efer
  · rw [hvmCr]
    exact h.vmCr

theorem writeEfer (h : core.SettledAs start) {value : Register}
    (hvalue : ∀ i < 64, i ≠ 12 → value.bits.getLsbD i = (start.readMsr .efer).bits.getLsbD i) :
    (core.writeMsr .efer value).SettledAs start := by
  by_cases hreadOnly : .efer ∈ core.readOnly
  · rw [writeMsr, if_pos hreadOnly]
    exact h
  · constructor
    · rw [core.readMsr_writeMsr_self value hreadOnly]
      exact hvalue
    · rw [core.readMsr_writeMsr_of_ne value (by decide)]
      exact h.vmCr

end Core.SettledAs

section Settled

variable {start : Core} {on? : Option Bool} {history later : List Moment}

/-- A write that is justified by what was read earlier keeps what was kept until then. -/
theorem Moment.after_settled {x : Moment} (hd : (Policy.discipline on?).Kept history (x :: later))
    (hhistory : ∀ y ∈ history, y.machine.core.SettledAs start)
    (hx : x.machine.core.SettledAs start)
    (hguest : x.request.effect = .guest → .efer ∉ x.settings ∧ .vmCr ∉ x.settings) :
    x.after.core.SettledAs start := by
  obtain ⟨m, r⟩ := x
  cases r with
  | writeMsr msr value =>
    obtain ⟨on, -, hjustified⟩ := hd.head msr value rfl
    cases msr with
    | vmCr => exact absurd hjustified id
    | efer =>
      obtain ⟨read, ⟨-, earlier, quiet, rfl, -⟩, -, hvalue⟩ := hjustified
      have hread : read.machine.core.SettledAs start :=
        hhistory read (List.mem_append_right _ List.mem_cons_self)
      apply hx.writeEfer
      intro i hi hne
      rw [hvalue i hi, if_neg hne]
      exact hread.efer i hi hne
    | hostSave =>
      exact hx.congr (readMsr_serve (by simp [settings])) (readMsr_serve (by simp [settings]))
  | enterGuest vmcb =>
    obtain ⟨hefer, hvmCr⟩ := hguest rfl
    exact hx.congr (readMsr_serve hefer) (readMsr_serve hvmCr)
  | _ => exact hx

theorem Program.run_settled {α : Type} (p : Program α) {m : Machine}
    (hd : (Policy.discipline on?).Kept history (p.run m).timeline)
    (hhistory : ∀ y ∈ history, y.machine.core.SettledAs start) (hm : m.core.SettledAs start)
    (hguest : ∀ x ∈ (p.run m).timeline, x.request.effect = .guest →
      .efer ∉ x.settings ∧ .vmCr ∉ x.settings) :
    (∀ x ∈ (p.run m).timeline, x.machine.core.SettledAs start) ∧
      (p.run m).machine.core.SettledAs start := by
  induction p generalizing m history with
  | done value => exact ⟨fun x hx => absurd hx List.not_mem_nil, hm⟩
  | ask r next ih =>
    have hafter := Moment.after_settled hd hhistory hm (hguest _ List.mem_cons_self)
    obtain ⟨hmoments, hend⟩ := ih _ hd.tail (by
      intro y hy
      rcases List.mem_append.1 hy with hy | hy
      · exact hhistory y hy
      · rw [List.mem_singleton.1 hy]
        exact hm) hafter fun x hx => hguest x (List.mem_cons_of_mem _ hx)
    refine ⟨fun x hx => ?_, hend⟩
    rcases List.mem_cons.1 hx with rfl | hx
    · exact hm
    · exact hmoments x hx

end Settled

namespace Session

variable {s : Session} {command : Command} {start : Core}

theorem step_settled (hs : s.machine.core.SettledAs start)
    (hefer : Spares .efer command (s.step command))
    (hvmCr : Spares .vmCr command (s.step command)) :
    (∀ x ∈ (s.step command).timeline, x.machine.core.SettledAs start) ∧
      (s.step command).session.machine.core.SettledAs start := by
  cases command with
  | setup change =>
    refine ⟨fun x hx => absurd hx List.not_mem_nil, hs.congr ?_ ?_⟩
    · exact change.applyCore_readMsr s.machine.core hefer.setup
    · exact change.applyCore_readMsr s.machine.core hvmCr.setup
  | dump page => exact ⟨fun x hx => absurd hx List.not_mem_nil, hs⟩
  | operate operation =>
    have hd : (Policy.discipline (Command.operate operation).switches?).Kept []
        ((s.objects.perform operation).run s.machine).timeline := s.step_disciplined _
    exact (s.objects.perform operation).run_settled hd (fun _ hy => absurd hy List.not_mem_nil) hs
      fun x hx hguest => ⟨hefer.guests x hx hguest, hvmCr.guests x hx hguest⟩

theorem history_settled {commands : List Command} (hs : s.machine.core.SettledAs start)
    (hspares : ∀ command step, (command, step) ∈ s.history commands →
      Spares .efer command step ∧ Spares .vmCr command step) :
    ∀ command step, (command, step) ∈ s.history commands →
      (∀ x ∈ step.timeline, x.machine.core.SettledAs start) ∧
        step.session.machine.core.SettledAs start := by
  induction commands generalizing s with
  | nil => exact fun command step hmem => absurd hmem List.not_mem_nil
  | cons first rest ih =>
    obtain ⟨hefer, hvmCr⟩ := hspares _ _ List.mem_cons_self
    have hfirst := step_settled hs hefer hvmCr
    have hrest := ih hfirst.2 fun command step hmem =>
      hspares command step (List.mem_cons_of_mem _ hmem)
    intro command step hmem
    rcases List.mem_cons.1 hmem with heq | hmem
    · cases heq
      exact hfirst
    · exact hrest command step hmem

/-- Every write to a register is justified by what surrounds it in the same step. -/
theorem writes_justified (s : Session) (commands : List Command) :
    (∀ command step, (command, step) ∈ s.history commands →
      ∀ before m msr value after, step.timeline = before ++ ⟨m, .writeMsr msr value⟩ :: after →
        ∃ on, command.switches? = some on ∧ Justified on before m after msr value) ∧
    (∀ x ∈ (s.afterRun commands).finish.timeline, x.request.effect ∉ [.register, .guest]) ∧
    ((∀ command step, (command, step) ∈ s.history commands →
        Spares .efer command step ∧ Spares .vmCr command step) →
      ∀ command step, (command, step) ∈ s.history commands →
        (∀ x ∈ step.timeline, x.machine.core.SettledAs s.machine.core) ∧
          step.session.machine.core.SettledAs s.machine.core) := by
  refine ⟨?_, ?_, history_settled (.refl _)⟩
  · intro command step hstep
    obtain ⟨earlier, later, -, rfl⟩ := exists_of_mem_history hstep
    intro before m msr value after heq
    exact step_disciplined _ command before ⟨m, .writeMsr msr value⟩ after heq msr value rfl
  · intro x hx
    have hback := Frame.giveBackAll_within (s.afterRun commands).objects.frames
    simp only [List.mem_cons, List.not_mem_nil, or_false, not_or]
    exact ⟨hback.effect_ne (by decide) hx, hback.effect_ne (by decide) hx⟩

theorem writes_justified_capable :
    let s := fresh.afterRun [.setup .capable]
    let commands : List Command :=
      [.operate (.create 0 .loader), .operate (.act 0 .load), .operate (.act 0 .unload)]
    (actions (s.timeline commands)).map Moment.request =
        [.writeMsr .efer ⟨0x1000⟩, .writeMsr .hostSave ⟨0x2000⟩, .enterGuest ⟨0x1000⟩,
          .writeMsr .efer .zero, .writeMsr .hostSave .zero] ∧
      (∀ command step, (command, step) ∈ s.history commands →
        ∀ before m msr value after, step.timeline = before ++ ⟨m, .writeMsr msr value⟩ :: after →
          ∃ on, command.switches? = some on ∧ Justified on before m after msr value) ∧
      ∀ command step, (command, step) ∈ s.history commands →
        step.session.machine.core.SettledAs s.machine.core := by
  intro s commands
  obtain ⟨hwrites, -, hsettled⟩ := writes_justified s commands
  have hspares : ∀ command step, (command, step) ∈ s.history commands →
      Spares .efer command step ∧ Spares .vmCr command step := by
    intro command step hmem
    simp only [commands, history_cons, history_nil, List.mem_cons, List.not_mem_nil, or_false]
      at hmem
    rcases hmem with heq | heq | heq
    · cases heq
      exact ⟨⟨nofun, by decide⟩, ⟨nofun, by decide⟩⟩
    · cases heq
      exact ⟨⟨nofun, by decide⟩, ⟨nofun, by decide⟩⟩
    · cases heq
      exact ⟨⟨nofun, by decide⟩, ⟨nofun, by decide⟩⟩
  exact ⟨by decide, hwrites, fun command step hmem => (hsettled hspares command step hmem).2⟩

end Session

end SvmActivation
