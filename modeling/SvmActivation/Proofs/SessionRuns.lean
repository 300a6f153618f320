import SvmActivation.Proofs.Effects

namespace SvmActivation

namespace Session

variable (s : Session) (commands : List Command)

def afterRun : Session :=
  s.after (s.run commands)

def timeline : List Moment :=
  (s.run commands).flatMap Step.timeline

def history : List (Command × Step) :=
  commands.zip (s.run commands)

@[simp]
theorem afterRun_nil : s.afterRun [] = s := rfl

@[simp]
theorem afterRun_cons (command : Command) :
    s.afterRun (command :: commands) = (s.step command).session.afterRun commands := by
  rw [afterRun, afterRun, run, after, after, List.getLast?_cons]
  cases ((s.step command).session.run commands).getLast? <;> rfl

theorem afterRun_append (later : List Command) :
    s.afterRun (commands ++ later) = (s.afterRun commands).afterRun later := by
  induction commands generalizing s with
  | nil => rfl
  | cons command rest ih => simp [ih]

@[simp]
theorem timeline_nil : s.timeline [] = [] := rfl

@[simp]
theorem timeline_cons (command : Command) :
    s.timeline (command :: commands) =
      (s.step command).timeline ++ (s.step command).session.timeline commands := rfl

@[simp]
theorem history_nil : s.history [] = [] := rfl

@[simp]
theorem history_cons (command : Command) :
    s.history (command :: commands) =
      (command, s.step command) :: (s.step command).session.history commands := rfl

theorem history_append (later : List Command) :
    s.history (commands ++ later) =
      s.history commands ++ (s.afterRun commands).history later := by
  induction commands generalizing s with
  | nil => rfl
  | cons command rest ih => simp [ih]

theorem afterRun_concat (command : Command) :
    s.afterRun (commands ++ [command]) = ((s.afterRun commands).step command).session := by
  rw [afterRun_append, afterRun_cons, afterRun_nil]

variable {s commands}

theorem exists_of_mem_history {command : Command} {step : Step}
    (h : (command, step) ∈ s.history commands) :
    ∃ earlier later, commands = earlier ++ command :: later ∧
      step = (s.afterRun earlier).step command := by
  induction commands generalizing s with
  | nil => cases h
  | cons first rest ih =>
    rcases List.mem_cons.1 h with heq | hmem
    · cases heq
      exact ⟨[], rest, rfl, rfl⟩
    · obtain ⟨earlier, later, rfl, hstep⟩ := ih hmem
      refine ⟨first :: earlier, later, rfl, ?_⟩
      rw [afterRun_cons]
      exact hstep

/-- What every allowed step keeps, a session of such steps keeps. -/
theorem afterRun_keeps {allowed : Command → Prop} (kept : Session → Prop)
    (hstep : ∀ s command, allowed command → kept s → kept (s.step command).session)
    (hs : kept s) (hc : ∀ command ∈ commands, allowed command) : kept (s.afterRun commands) := by
  induction commands generalizing s with
  | nil => exact hs
  | cons command rest ih =>
    rw [afterRun_cons]
    exact ih (hstep s command (hc _ List.mem_cons_self) hs)
      fun c hmem => hc c (List.mem_cons_of_mem _ hmem)

end Session

/-- A core that lets SVM be turned on, and two frames for an entry. -/
def Setup.capable : Setup where
  cpuid := [
    (.features, { CpuidWords.zero with edx := .twoPow 32 Capability.registerAccessBit }),
    (.extendedFeatures, { CpuidWords.zero with ecx := .twoPow 32 Capability.svmBit })]
  frames := [some ⟨0x1000⟩, some ⟨0x2000⟩]

def Command.LeavesWritable (command : Command) (msr : Msr) : Prop :=
  match command with
  | .setup change => msr ∉ change.readOnly.getD []
  | .dump _ | .operate _ => True

theorem Program.run_readOnly {α : Type} (p : Program α) (m : Machine) :
    (p.run m).machine.core.readOnly = m.core.readOnly := by
  induction p generalizing m with
  | done value => rfl
  | ask r next ih => exact (ih _ _).trans (m.serve_readOnly r)

theorem Setup.applyCore_readOnly (change : Setup) (core : Core) :
    (change.applyCore core).readOnly = change.readOnly.getD core.readOnly := by
  have hmsrs (core : Core) := foldl_keeps Core.readOnly
    (fun core (set : Msr × Register) => core.setMsr set.1 set.2) (fun _ _ => rfl) core change.msrs
  have hcpuid := foldl_keeps Core.readOnly
    (fun core (entry : Leaf × CpuidWords) => core.setCpuid entry.1 entry.2) (fun _ _ => rfl) core
    change.cpuid
  simp only [applyCore, hmsrs, hcpuid]

theorem Session.step_writable {s : Session} {command : Command} {msr : Msr}
    (hs : msr ∉ s.machine.core.readOnly) (hc : command.LeavesWritable msr) :
    msr ∉ (s.step command).session.machine.core.readOnly := by
  cases command with
  | setup change =>
    simp only [step, Setup.apply, Setup.applyCore_readOnly]
    cases hr : change.readOnly with
    | none => exact hs
    | some readOnly =>
      rw [Command.LeavesWritable, hr] at hc
      exact hc
  | dump page => exact hs
  | operate operation =>
    simp only [step, Program.run_readOnly]
    exact hs

theorem Session.afterRun_writable {s : Session} {commands : List Command} {msr : Msr}
    (hs : msr ∉ s.machine.core.readOnly)
    (hc : ∀ command ∈ commands, command.LeavesWritable msr) :
    msr ∉ (s.afterRun commands).machine.core.readOnly :=
  afterRun_keeps (fun s => msr ∉ s.machine.core.readOnly)
    (fun _ _ hc hs => step_writable hs hc) hs hc

end SvmActivation
