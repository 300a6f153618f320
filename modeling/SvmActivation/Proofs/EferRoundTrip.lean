import SvmActivation.Proofs.Unloading

namespace SvmActivation

open Program

def Moment.settings (moment : Moment) : List Msr :=
  match moment.request with
  | .writeMsr msr _ => [msr]
  | .enterGuest _ => moment.machine.nextGuest.msrs.map Prod.fst
  | _ => []

namespace Program

variable {msr : Msr}

theorem readMsr_serve {m : Machine} {r : Request} (h : msr ∉ Moment.settings ⟨m, r⟩) :
    (m.serve r).2.core.readMsr msr = m.core.readMsr msr := by
  cases r with
  | writeMsr written value =>
    apply Core.readMsr_writeMsr_of_ne
    rintro rfl
    exact h (List.mem_singleton_self msr)
  | enterGuest vmcb => exact Core.readMsr_foldl_setMsr _ _ h
  | _ => rfl

theorem readMsr_run {α : Type} (p : Program α) {m : Machine}
    (h : ∀ moment ∈ (p.run m).timeline, msr ∉ moment.settings) :
    (p.run m).machine.core.readMsr msr = m.core.readMsr msr := by
  induction p generalizing m with
  | done value => rfl
  | ask r next ih =>
    have hfirst := readMsr_serve (h _ List.mem_cons_self)
    have hrest := ih _ fun moment hm => h moment (List.mem_cons_of_mem _ hm)
    exact hrest.trans hfirst

end Program

namespace Machine

variable {m : Machine}

theorem activatedCore_of_obstacle {failure : Failure} (h : m.core.obstacle? = some failure) :
    m.activatedCore = m.core := by
  rw [activatedCore, course, h]

theorem eferWithSvm_turnOn (hefer : .efer ∉ m.core.readOnly) :
    m.turnOn.core.readMsr .efer = m.eferWithSvm := by
  rw [turnOn, Core.readMsr_writeMsr_self _ _ hefer]

theorem efer_activatedCore (hefer : .efer ∉ m.core.readOnly) (h : m.core.obstacle? = none)
    (hquiet : ∀ moment ∈ m.activationActions, .efer ∈ moment.settings →
      moment.request.effect = .register) :
    m.activatedCore.readMsr .efer = m.eferWithSvm := by
  rw [activatedCore]
  rw [activationActions] at hquiet
  cases hcourse : m.course with
  | refused failure =>
    rw [course, h] at hcourse
    cases hoffered : m.pagesOffered with
    | error other =>
      rw [hoffered] at hcourse
      cases hcourse
    | ok pages =>
      rw [hoffered] at hcourse
      cases hcourse
  | unsupplied failure => exact eferWithSvm_turnOn hefer
  | entered pages =>
    rw [hcourse] at hquiet
    have hguest : .efer ∉ Moment.settings ⟨m.prepared pages, .enterGuest pages.vmcb⟩ := by
      intro hset
      cases hquiet _ (by simp) hset
    have hentered := readMsr_serve hguest
    have hprepared : (m.prepared pages).core.readMsr .efer = m.turnOn.core.readMsr .efer :=
      Core.readMsr_writeMsr_of_ne _ _ (by decide)
    exact hentered.trans (hprepared.trans (eferWithSvm_turnOn hefer))

end Machine

theorem Setup.applyCore_readMsr (change : Setup) (core : Core) {msr : Msr}
    (h : msr ∉ change.msrs.map Prod.fst) :
    (change.applyCore core).readMsr msr = core.readMsr msr := by
  have hmsrs (core : Core) := core.readMsr_foldl_setMsr change.msrs h
  have hcpuid := foldl_keeps (fun core : Core => core.readMsr msr)
    (fun core (entry : Leaf × CpuidWords) => core.setCpuid entry.1 entry.2) (fun _ _ => rfl) core
    change.cpuid
  exact (hmsrs _).trans hcpuid

def Command.LeavesEfer (command : Command) : Prop :=
  match command with
  | .setup change => .efer ∉ change.msrs.map Prod.fst ∧ .efer ∉ change.readOnly.getD []
  | .dump _ | .operate _ => True

/-- A command neither replaces, drops nor unloads the loader under a handle. -/
def Command.LeavesLoader (command : Command) (h : Handle) : Prop :=
  command ≠ .operate (.act h .unload) ∧ command ≠ .operate (.drop h) ∧
    ∀ kind, command ≠ .operate (.create h kind)

/-- In a step nothing gives `IA32_EFER` a value, but for a load of the loader under a handle. -/
structure Undisturbed (h : Handle) (command : Command) (step : Step) : Prop where
  leavesLoader : command.LeavesLoader h
  leavesEfer : command.LeavesEfer
  quiet : ∀ moment ∈ step.timeline, .efer ∈ moment.settings →
    command = .operate (.act h .load) ∧ moment.request.effect = .register

namespace Session

variable {s : Session} {h : Handle} {l : Loader} {command : Command}

theorem load_core (hfind : s.objects.find? h = some (.loader l)) :
    (s.step (.operate (.act h .load))).session.machine.core = s.machine.activatedCore := by
  rw [step_load hfind]
  exact l.load_core s.machine

theorem load_actions (hfind : s.objects.find? h = some (.loader l)) :
    actions (s.step (.operate (.act h .load))).timeline = s.machine.activationActions := by
  rw [step_load hfind]
  exact l.load_actions s.machine

theorem undisturbed_load (hfind : s.objects.find? h = some (.loader l))
    (hguest : .efer ∉ s.machine.nextGuest.msrs.map Prod.fst) :
    Undisturbed h (.operate (.act h .load)) (s.step (.operate (.act h .load))) := by
  refine ⟨by simp [Command.LeavesLoader], trivial, fun moment hm hset => ⟨rfl, ?_⟩⟩
  cases hr : moment.request with
  | writeMsr msr value => rfl
  | enterGuest vmcb =>
    have haction : moment ∈ s.machine.activationActions := by
      rw [← load_actions hfind, mem_actions, hr]
      exact ⟨hm, by simp⟩
    obtain ⟨pages, -, -, hmachine⟩ :=
      Machine.exists_pages_of_mem_activationActions haction hr
    have hnext : moment.machine.nextGuest = s.machine.nextGuest := by
      rw [hmachine]
      rfl
    rw [Moment.settings, hr] at hset
    rw [← hnext] at hguest
    exact absurd hset hguest
  | _ =>
    rw [Moment.settings, hr] at hset
    cases hset

/-- How `IA32_EFER` stands while a loader is there that was made when it had some value. -/
structure Follows (s : Session) (h : Handle) (before : Register)
    (history : List (Command × Step)) : Prop where
  writable : .efer ∉ s.machine.core.readOnly
  loader : ∃ l, s.objects.find? h = some (.loader l)
  passed : PassedSince h history → s.machine.core.readMsr .efer = Efer.withSvm before
  notPassed : ¬ PassedSince h history → s.machine.core.readMsr .efer = before

variable {before : Register} {history : List (Command × Step)}

theorem Follows.withSvm (hs : s.Follows h before history) :
    s.machine.eferWithSvm = Efer.withSvm before := by
  by_cases hpassed : PassedSince h history
  · rw [Machine.eferWithSvm, hs.passed hpassed, Efer.withSvm_withSvm]
  · rw [Machine.eferWithSvm, hs.notPassed hpassed]

theorem load_follows (hs : s.Follows h before history)
    (hu : Undisturbed h (.operate (.act h .load)) (s.step (.operate (.act h .load)))) :
    (s.step (.operate (.act h .load))).session.Follows h before
      (history ++ [(.operate (.act h .load), s.step (.operate (.act h .load)))]) := by
  obtain ⟨l, hfind⟩ := hs.loader
  have hquiet : ∀ moment ∈ s.machine.activationActions, .efer ∈ moment.settings →
      moment.request.effect = .register := by
    intro moment hm hset
    rw [← load_actions hfind, mem_actions] at hm
    exact (hu.quiet moment hm.1 hset).2
  refine ⟨step_writable hs.writable trivial, ⟨_, find?_load hfind⟩, ?_, ?_⟩
  · rw [passedSince_append_load, passedEnable_load hfind, load_core hfind]
    intro hpassed
    by_cases hobstacle : s.machine.core.obstacle? = none
    · rw [Machine.efer_activatedCore hs.writable hobstacle hquiet]
      exact hs.withSvm
    · obtain ⟨failure, hfailure⟩ := Option.ne_none_iff_exists'.1 hobstacle
      rw [Machine.activatedCore_of_obstacle hfailure]
      exact hs.passed (hpassed.resolve_left hobstacle)
  · rw [passedSince_append_load, passedEnable_load hfind, load_core hfind, not_or]
    rintro ⟨hobstacle, hnot⟩
    obtain ⟨failure, hfailure⟩ := Option.ne_none_iff_exists'.1 hobstacle
    rw [Machine.activatedCore_of_obstacle hfailure]
    exact hs.notPassed hnot

theorem exists_loader_step (hfind : ∃ l, s.objects.find? h = some (.loader l))
    (hc : command.LeavesLoader h) :
    ∃ l, (s.step command).session.objects.find? h = some (.loader l) := by
  obtain ⟨-, hdrop, hcreate⟩ := hc
  cases command with
  | setup change => exact hfind
  | dump page => exact hfind
  | operate operation =>
    by_cases hconcerns : operation.Concerns h
    · cases operation with
      | core command => cases hconcerns
      | create g kind =>
        cases hconcerns
        exact absurd rfl (hcreate kind)
      | drop g =>
        cases hconcerns
        exact absurd rfl hdrop
      | act g action =>
        cases hconcerns
        obtain ⟨l, hl⟩ := hfind
        refine ⟨((Object.useLoader l action).run s.machine).value.2, ?_⟩
        rw [step_act hl]
        simp only [Object.act, run_bind_value, pure_eq, run_done, Objects.find?_insert_self]
    · obtain ⟨l, hl⟩ := hfind
      exact ⟨l, (Objects.find?_perform_of_not_concerns hconcerns).trans hl⟩

theorem efer_step (hc : command.LeavesEfer)
    (hquiet : ∀ moment ∈ (s.step command).timeline, .efer ∉ moment.settings) :
    (s.step command).session.machine.core.readMsr .efer = s.machine.core.readMsr .efer := by
  cases command with
  | setup change => exact change.applyCore_readMsr s.machine.core hc.1
  | dump page => rfl
  | operate operation => exact readMsr_run _ hquiet

theorem step_follows (hs : s.Follows h before history)
    (hu : Undisturbed h command (s.step command)) :
    (s.step command).session.Follows h before (history ++ [(command, s.step command)]) := by
  by_cases hload : command = .operate (.act h .load)
  · subst hload
    exact load_follows hs hu
  · have hquiet : ∀ moment ∈ (s.step command).timeline, .efer ∉ moment.settings := by
      intro moment hm hset
      exact hload (hu.quiet moment hm hset).1
    have hefer := efer_step hu.leavesEfer hquiet
    have hkeep : ¬ command.Resets h := by
      rintro (rfl | rfl)
      · exact hu.leavesLoader.1 rfl
      · exact hu.leavesLoader.2.2 .loader rfl
    have hsince : PassedSince h (history ++ [(command, s.step command)]) ↔
        PassedSince h history :=
      passedSince_append_of_not hload hkeep
    have hwritable : command.LeavesWritable .efer := by
      cases command with
      | setup change => exact hu.leavesEfer.2
      | _ => trivial
    constructor
    · exact step_writable hs.writable hwritable
    · exact exists_loader_step hs.loader hu.leavesLoader
    · rw [hsince, hefer]
      exact hs.passed
    · rw [hsince, hefer]
      exact hs.notPassed

theorem afterRun_follows {commands : List Command} (hs : s.Follows h before history)
    (hu : ∀ command step, (command, step) ∈ s.history commands → Undisturbed h command step) :
    (s.afterRun commands).Follows h before (history ++ s.history commands) := by
  induction commands generalizing s history with
  | nil =>
    rw [history_nil, List.append_nil]
    exact hs
  | cons command rest ih =>
    have hfirst := step_follows hs (hu _ _ List.mem_cons_self)
    rw [afterRun_cons, history_cons, List.append_cons]
    exact ih hfirst fun c step hmem => hu c step (List.mem_cons_of_mem _ hmem)

theorem not_passedSince_nil : ¬ PassedSince h [] := by
  rintro ⟨before, step, after, heq, -⟩
  cases before <;> cases heq

theorem find?_create_loader (s : Session) (h : Handle) :
    (s.step (.operate (.create h .loader))).session.objects.find? h = some (.loader .fresh) := by
  have hobjects : (s.step (.operate (.create h .loader))).session.objects =
      s.objects.insert h (.loader .fresh) := by
    simp only [step, Objects.perform, Objects.create_objects]
    rfl
  rw [hobjects, Objects.find?_insert_self]

theorem create_loader_follows (hefer : .efer ∉ s.machine.core.readOnly) (h : Handle) :
    let made := (s.step (.operate (.create h .loader))).session
    made.Follows h (made.machine.core.readMsr .efer) [] := by
  intro made
  constructor
  · exact step_writable hefer trivial
  · exact ⟨_, find?_create_loader s h⟩
  · intro hpassed
    exact absurd hpassed not_passedSince_nil
  · intro _
    rfl

theorem create_loader_tracks (s : Session) (h : Handle) :
    (s.step (.operate (.create h .loader))).session.Tracks h [] := by
  intro l hl
  cases (find?_create_loader s h).symm.trans hl
  exact iff_of_false Bool.false_ne_true not_passedSince_nil

/-- Unloading restores `IA32_EFER`, unless SVM was on before and a load has turned it on again. -/
theorem efer_restored_iff (hefer : .efer ∉ s.machine.core.readOnly) (h : Handle)
    (commands : List Command)
    (hu : ∀ command step,
      (command, step) ∈ (s.step (.operate (.create h .loader))).session.history commands →
        Undisturbed h command step) :
    let made := (s.step (.operate (.create h .loader))).session
    let left := ((made.afterRun commands).step (.operate (.act h .unload))).session
    left.machine.core.readMsr .efer = made.machine.core.readMsr .efer ↔
      Efer.hasSvm (made.machine.core.readMsr .efer) = false ∨
        ¬ PassedSince h (made.history commands) := by
  intro made left
  have hfollows := afterRun_follows (create_loader_follows hefer h) hu
  obtain ⟨l, hfind⟩ := hfollows.loader
  have hflag := afterRun_tracks (create_loader_tracks s h) commands l hfind
  have hleft := efer_unload hfind hfollows.writable
  by_cases hpassed : PassedSince h (made.history commands)
  · have hoff : left.machine.core.readMsr .efer =
        Efer.withoutSvm (made.machine.core.readMsr .efer) := by
      rw [hflag.2 hpassed, if_pos rfl, hfollows.passed hpassed, Efer.withoutSvm_withSvm] at hleft
      exact hleft
    rw [hoff, Efer.withoutSvm_eq_self_iff]
    simp [hpassed]
  · have hsame : left.machine.core.readMsr .efer = made.machine.core.readMsr .efer := by
      rw [if_neg (mt hflag.1 hpassed), hfollows.notPassed hpassed] at hleft
      exact hleft
    simp [hsame, hpassed]

theorem efer_restored_iff_capable :
    let s := fresh.afterRun [.setup .capable]
    let made := (s.step (.operate (.create 0 .loader))).session
    let left := ((made.afterRun [.operate (.act 0 .load)]).step (.operate (.act 0 .unload))).session
    left.machine.core.readMsr .efer = made.machine.core.readMsr .efer ↔
      Efer.hasSvm (made.machine.core.readMsr .efer) = false ∨
        ¬ PassedSince 0 (made.history [.operate (.act 0 .load)]) := by
  refine efer_restored_iff (s := fresh.afterRun [.setup .capable]) List.not_mem_nil 0 _ ?_
  intro command step hmem
  cases List.mem_singleton.1 hmem
  exact undisturbed_load (find?_create_loader _ 0) List.not_mem_nil

/-- A core that has SVM on before a loader is made has it off when the loader is unloaded. -/
theorem not_unload_restores_efer :
    ¬ ∀ (s : Session) (h : Handle) (commands : List Command),
      (∀ msr, msr ∉ s.machine.core.readOnly) →
      (∀ command step,
        (command, step) ∈ (s.step (.operate (.create h .loader))).session.history commands →
          Undisturbed h command step) →
      let made := (s.step (.operate (.create h .loader))).session
      let left := ((made.afterRun commands).step (.operate (.act h .unload))).session
      left.machine.core.readMsr .efer = made.machine.core.readMsr .efer := by
  intro hall
  let surroundings := { Setup.capable with msrs := [(.efer, ⟨0x1d01⟩)] }
  have hrestored := hall (fresh.afterRun [.setup surroundings]) 0 [.operate (.act 0 .load)]
    (fun _ => List.not_mem_nil) fun command step hmem => by
      cases List.mem_singleton.1 hmem
      exact undisturbed_load (find?_create_loader _ 0) List.not_mem_nil
  exact absurd hrestored (by decide)

end Session

end SvmActivation
