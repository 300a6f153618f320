import SvmActivation.Proofs.LoaderHistory

namespace SvmActivation

open Program

namespace Machine

variable {m : Machine}

theorem efer_turnOff (hefer : .efer ∉ m.core.readOnly) :
    m.turnOff.core.readMsr .efer = Efer.withoutSvm (m.core.readMsr .efer) := by
  rw [turnOff, Core.readMsr_writeMsr_of_ne _ _ (by decide), Core.readMsr_writeMsr_self _ _ hefer]

theorem hostSave_turnOff (hsave : .hostSave ∉ m.core.readOnly) :
    m.turnOff.core.readMsr .hostSave = .zero := by
  rw [turnOff, Core.readMsr_writeMsr_self]
  rwa [Core.writeMsr_readOnly]

end Machine

namespace Session

variable {s : Session} {h : Handle} {l : Loader}

theorem tracks_fresh (h : Handle) : fresh.Tracks h [] := nofun

theorem unload_machine (hfind : s.objects.find? h = some (.loader l)) :
    (s.step (.operate (.act h .unload))).session.machine =
      if l.turnedOn && Efer.hasSvm (s.machine.core.readMsr .efer) then s.machine.turnOff
      else s.machine := by
  rw [step_unload hfind]
  exact l.unload_machine s.machine

theorem efer_unload (hfind : s.objects.find? h = some (.loader l))
    (hefer : .efer ∉ s.machine.core.readOnly) :
    (s.step (.operate (.act h .unload))).session.machine.core.readMsr .efer =
      if l.turnedOn then Efer.withoutSvm (s.machine.core.readMsr .efer)
      else s.machine.core.readMsr .efer := by
  rw [unload_machine hfind]
  cases l.turnedOn with
  | false => rfl
  | true =>
    cases hon : Efer.hasSvm (s.machine.core.readMsr .efer) with
    | true => exact Machine.efer_turnOff hefer
    | false => exact (Efer.withoutSvm_eq_self hon).symm

theorem hostSave_unload (hfind : s.objects.find? h = some (.loader l))
    (hsave : .hostSave ∉ s.machine.core.readOnly) :
    (s.step (.operate (.act h .unload))).session.machine.core.readMsr .hostSave =
      if l.turnedOn && Efer.hasSvm (s.machine.core.readMsr .efer) then .zero
      else s.machine.core.readMsr .hostSave := by
  rw [unload_machine hfind]
  split
  · exact Machine.hostSave_turnOff hsave
  · rfl

/-- Unloading leaves SVM off, but may leave the host save area registered. -/
theorem unload_after_enable {commands : List Command}
    (hefer : ∀ command ∈ commands, command.LeavesWritable .efer)
    (hsave : ∀ command ∈ commands, command.LeavesWritable .hostSave)
    (hfind : (fresh.afterRun commands).objects.find? h = some (.loader l))
    (hpassed : PassedSince h (fresh.history commands)) :
    let core := (fresh.afterRun commands).machine.core
    let left := ((fresh.afterRun commands).step (.operate (.act h .unload))).session.machine.core
    Efer.hasSvm (left.readMsr .efer) = false ∧
      (left.readMsr .hostSave = .zero ↔
        Efer.hasSvm (core.readMsr .efer) = true ∨ core.readMsr .hostSave = .zero) := by
  intro core left
  have hwritable {msr : Msr} (hc : ∀ command ∈ commands, command.LeavesWritable msr) :
      msr ∉ core.readOnly :=
    afterRun_writable (s := fresh) List.not_mem_nil hc
  have hflag : l.turnedOn = true := (afterRun_tracks (tracks_fresh h) commands l hfind).2 hpassed
  have hoff := efer_unload hfind (hwritable hefer)
  have hforgotten := hostSave_unload hfind (hwritable hsave)
  rw [hflag, if_pos rfl] at hoff
  rw [hflag, Bool.true_and] at hforgotten
  constructor
  · rw [hoff, Efer.hasSvm_withoutSvm]
  · rw [hforgotten]
    cases Efer.hasSvm (core.readMsr .efer) with
    | true => simp [core]
    | false => simp [core]

theorem unload_after_enable_capable :
    let s := fresh.afterRun
      [.setup .capable, .operate (.create 0 .loader), .operate (.act 0 .load)]
    let left := (s.step (.operate (.act 0 .unload))).session.machine.core
    Efer.hasSvm (left.readMsr .efer) = false ∧
      (left.readMsr .hostSave = .zero ↔
        Efer.hasSvm (s.machine.core.readMsr .efer) = true ∨
          s.machine.core.readMsr .hostSave = .zero) := by
  let commands : List Command := [.setup .capable, .operate (.create 0 .loader)]
  have hfresh : (fresh.afterRun commands).objects.find? 0 = some (.loader .fresh) := rfl
  have hfind := find?_load hfresh
  rw [← afterRun_concat] at hfind
  exact unload_after_enable (by simp [Command.LeavesWritable, Setup.capable])
    (by simp [Command.LeavesWritable, Setup.capable]) hfind
    (passedSince_load hfresh (by decide))

/-- A guest that turns SVM off leaves the host save area behind. -/
theorem not_unload_forgets_saveArea :
    ¬ ∀ (commands : List Command) (h : Handle) (l : Loader),
      (∀ command ∈ commands, ∀ msr, command.LeavesWritable msr) →
      (fresh.afterRun commands).objects.find? h = some (.loader l) →
      PassedSince h (fresh.history commands) →
      let left := ((fresh.afterRun commands).step (.operate (.act h .unload))).session.machine.core
      Efer.hasSvm (left.readMsr .efer) = false ∧ left.readMsr .hostSave = .zero := by
  intro hall
  let surroundings := { Setup.capable with guests := [⟨[], [(.efer, .zero)]⟩] }
  let commands : List Command := [.setup surroundings, .operate (.create 0 .loader)]
  have hwritable : ∀ command ∈ commands ++ [.operate (.act 0 .load)], ∀ msr,
      command.LeavesWritable msr := by
    simp [commands, surroundings, Command.LeavesWritable, Setup.capable]
  have hfresh : (fresh.afterRun commands).objects.find? 0 = some (.loader .fresh) := rfl
  have hfind := find?_load hfresh
  rw [← afterRun_concat] at hfind
  have hpassed := passedSince_load hfresh (by decide)
  have hforgets := (hall _ 0 _ hwritable hfind hpassed).2
  exact absurd hforgets (by decide)

end Session

end SvmActivation
