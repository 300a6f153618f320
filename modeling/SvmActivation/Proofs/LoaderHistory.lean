import SvmActivation.Proofs.ObjectActions
import SvmActivation.Proofs.SessionRuns

namespace SvmActivation

open Program

def Step.PassedEnable (step : Step) : Prop :=
  (.enable, .allocation) ∈ stageChanges step.timeline

def Command.Resets (command : Command) (h : Handle) : Prop :=
  command = .operate (.act h .unload) ∨ command = .operate (.create h .loader)

/-- Since the loader under a handle was made or unloaded last, it has got past turning SVM on. -/
def PassedSince (h : Handle) (history : List (Command × Step)) : Prop :=
  ∃ before step after, history = before ++ (.operate (.act h .load), step) :: after ∧
    step.PassedEnable ∧ ∀ entry ∈ after, ¬ entry.1.Resets h

section Since

variable {h : Handle} {history : List (Command × Step)} {command : Command} {step : Step}

theorem passedSince_append :
    PassedSince h (history ++ [(command, step)]) ↔
      (command = .operate (.act h .load) ∧ step.PassedEnable) ∨
        (PassedSince h history ∧ ¬ command.Resets h) := by
  constructor
  · rintro ⟨before, load, after, heq, hpassed, hafter⟩
    rcases List.eq_nil_or_concat after with rfl | ⟨earlier, last, rfl⟩
    · obtain ⟨-, hlast⟩ := List.append_inj' heq rfl
      cases hlast
      exact .inl ⟨rfl, hpassed⟩
    · rw [List.concat_eq_append, ← List.cons_append, ← List.append_assoc] at heq
      obtain ⟨hhistory, hlast⟩ := List.append_inj' heq rfl
      cases hlast
      refine .inr ⟨⟨before, load, earlier, hhistory, hpassed, ?_⟩, hafter (command, step) (by simp)⟩
      intro entry hmem
      exact hafter entry (by simp [hmem])
  · rintro (⟨rfl, hpassed⟩ | ⟨⟨before, load, after, rfl, hpassed, hafter⟩, hkeep⟩)
    · exact ⟨history, step, [], rfl, hpassed, fun _ hmem => absurd hmem List.not_mem_nil⟩
    · refine ⟨before, load, after ++ [(command, step)], by simp, hpassed, ?_⟩
      intro entry hmem
      rcases List.mem_append.1 hmem with hmem | hmem
      · exact hafter entry hmem
      · rw [List.mem_singleton.1 hmem]
        exact hkeep

theorem passedSince_append_load :
    PassedSince h (history ++ [(.operate (.act h .load), step)]) ↔
      step.PassedEnable ∨ PassedSince h history := by
  have hkeep : ¬ (Command.operate (.act h .load)).Resets h := by simp [Command.Resets]
  simp only [passedSince_append, true_and, hkeep, not_false_eq_true, and_true]

theorem not_passedSince_append (hreset : command.Resets h) :
    ¬ PassedSince h (history ++ [(command, step)]) := by
  rw [passedSince_append]
  rintro (⟨rfl, -⟩ | ⟨-, hkeep⟩)
  · rcases hreset with he | he
    · cases he
    · cases he
  · exact hkeep hreset

theorem passedSince_append_of_not (hload : command ≠ .operate (.act h .load))
    (hkeep : ¬ command.Resets h) :
    PassedSince h (history ++ [(command, step)]) ↔ PassedSince h history := by
  simp only [passedSince_append, hload, false_and, false_or, hkeep, not_false_eq_true, and_true]

end Since

namespace Object

variable {m : Machine} {l : Loader}

theorem map_ne_loader {α : Type} (made : Except Failure α) {f : α → Object}
    (hf : ∀ value, f value ≠ loader l) : made.map f ≠ .ok (loader l) := by
  intro h
  cases made with
  | error failure => cases h
  | ok value => exact hf value (Except.ok.inj h)

theorem loader_of_create {kind : ObjectKind} (h : ((create kind).run m).value = .ok (loader l)) :
    kind = .loader ∧ l = .fresh := by
  cases kind with
  | loader =>
    cases h
    exact ⟨rfl, rfl⟩
  | placeholder | activator => cases h
  | frame | zeroedFrame | vmcb | saveArea | pages =>
    rw [create, run_bind_value] at h
    exact absurd h (map_ne_loader _ fun _ => Object.noConfusion)

theorem loader_of_act {o : Object} {action : Action}
    (h : ((o.act action).run m).value.2 = loader l) :
    ∃ before, o = loader before ∧ l = ((useLoader before action).run m).value.2 := by
  cases o with
  | loader before =>
    refine ⟨before, rfl, ?_⟩
    rw [act, run_bind_value] at h
    cases h
    rfl
  | frame owned | pages owned =>
    rw [act, run_ite] at h
    split at h
    · rw [run_bind_value] at h
      cases h
    · rw [run_bind_value] at h
      cases h
  | vmcb page | saveArea page | activator a =>
    rw [act, run_bind_value] at h
    cases h

end Object

def Operation.Concerns (operation : Operation) (h : Handle) : Prop :=
  match operation with
  | .core _ => False
  | .create g _ | .drop g | .act g _ => g = h

namespace Objects

variable {objects : Objects} {m : Machine} {h : Handle}

theorem find?_perform_of_not_concerns {operation : Operation} (hne : ¬ operation.Concerns h) :
    ((objects.perform operation).run m).value.2.find? h = objects.find? h := by
  cases operation with
  | core command => rw [perform, run_bind_value, pure_eq, run_done]
  | create g kind =>
    rw [perform, create_objects]
    cases ((Object.create kind).run m).value with
    | error failure => rfl
    | ok o => exact objects.find?_insert_of_ne o (Ne.symm hne)
  | drop g =>
    rw [perform, drop_objects]
    cases objects.find? g with
    | none => rfl
    | some o => exact objects.find?_erase_of_ne (Ne.symm hne)
  | act g action =>
    rw [perform]
    cases hfind : objects.find? g with
    | none =>
      rw [act_none hfind]
      rfl
    | some o =>
      rw [act_some hfind, run_bind_value]
      exact objects.find?_insert_of_ne _ (Ne.symm hne)

theorem loader_of_create {kind : ObjectKind} {l : Loader}
    (hfind : ((objects.create h kind).run m).value.2.find? h = some (.loader l)) :
    (kind = .loader ∧ l = .fresh) ∨ (kind ≠ .loader ∧ objects.find? h = some (.loader l)) := by
  rw [create_objects] at hfind
  cases hmade : ((Object.create kind).run m).value with
  | error failure =>
    rw [hmade] at hfind
    refine .inr ⟨?_, hfind⟩
    rintro rfl
    cases hmade
  | ok o =>
    rw [hmade] at hfind
    have hself : some o = some (.loader l) :=
      (objects.find?_insert_self o).symm.trans hfind
    cases hself
    exact .inl (Object.loader_of_create hmade)

theorem loader_of_act {action : Action} {l : Loader}
    (hfind : ((objects.act h action).run m).value.2.find? h = some (.loader l)) :
    ∃ before, objects.find? h = some (.loader before) ∧
      l = ((Object.useLoader before action).run m).value.2 := by
  cases hbefore : objects.find? h with
  | none =>
    rw [act_none hbefore, run_done] at hfind
    rw [hbefore] at hfind
    cases hfind
  | some o =>
    rw [act_some hbefore, run_bind_value] at hfind
    have hself := (objects.find?_insert_self _).symm.trans hfind
    obtain ⟨before, rfl, hl⟩ := Object.loader_of_act (Option.some.inj hself)
    exact ⟨before, rfl, hl⟩

end Objects

namespace Session

variable {s : Session} {h : Handle} {history : List (Command × Step)}

theorem passedEnable_load {l : Loader} (hfind : s.objects.find? h = some (.loader l)) :
    (s.step (.operate (.act h .load))).PassedEnable ↔ s.machine.core.obstacle? = none := by
  rw [Step.PassedEnable, step_load hfind]
  exact l.mem_load_stageChanges s.machine

theorem passedSince_load {commands : List Command} {l : Loader}
    (hfind : (s.afterRun commands).objects.find? h = some (.loader l))
    (hcore : (s.afterRun commands).machine.core.obstacle? = none) :
    PassedSince h (s.history (commands ++ [.operate (.act h .load)])) := by
  rw [history_append, history_cons, history_nil, passedSince_append_load, passedEnable_load hfind]
  exact .inl hcore

/-- What a step makes of the loader under a handle. -/
inductive LoaderStep (s : Session) (h : Handle) : Command → Loader → Prop
  | made : LoaderStep s h (.operate (.create h .loader)) .fresh
  | loaded {before : Loader} (hfind : s.objects.find? h = some (.loader before)) :
      LoaderStep s h (.operate (.act h .load))
        ⟨before.turnedOn || s.machine.core.obstacle?.isNone, some s.machine.outcome⟩
  | unloaded {before : Loader} (hfind : s.objects.find? h = some (.loader before)) :
      LoaderStep s h (.operate (.act h .unload)) { before with turnedOn := false }
  | kept {command : Command} {l : Loader} (hfind : s.objects.find? h = some (.loader l))
      (hload : command ≠ .operate (.act h .load)) (hkeep : ¬ command.Resets h) :
      LoaderStep s h command l

theorem loaderStep_create {kind : ObjectKind} {l : Loader}
    (hfind : (s.step (.operate (.create h kind))).session.objects.find? h = some (.loader l)) :
    s.LoaderStep h (.operate (.create h kind)) l := by
  rcases Objects.loader_of_create hfind with ⟨rfl, rfl⟩ | ⟨hkind, hbefore⟩
  · exact .made
  · refine .kept hbefore nofun ?_
    rintro (he | he)
    · cases he
    · cases he
      exact hkind rfl

theorem loaderStep_act {action : Action} {l : Loader}
    (hfind : (s.step (.operate (.act h action))).session.objects.find? h = some (.loader l)) :
    s.LoaderStep h (.operate (.act h action)) l := by
  obtain ⟨before, hbefore, rfl⟩ := Objects.loader_of_act hfind
  cases action with
  | load =>
    simp only [Object.useLoader, run_bind_value, Loader.load_value, pure_eq, run_done]
    exact .loaded hbefore
  | unload =>
    simp only [Object.useLoader, run_bind_value, Loader.unload_value, pure_eq, run_done]
    exact .unloaded hbefore
  | _ => exact .kept hbefore (by simp) (by simp [Command.Resets])

theorem loaderStep_of_find? {command : Command} {l : Loader}
    (hfind : (s.step command).session.objects.find? h = some (.loader l)) :
    s.LoaderStep h command l := by
  cases command with
  | setup change => exact .kept hfind nofun (by simp [Command.Resets])
  | dump page => exact .kept hfind nofun (by simp [Command.Resets])
  | operate operation =>
    by_cases hconcerns : operation.Concerns h
    · cases operation with
      | core command => cases hconcerns
      | create g kind =>
        cases hconcerns
        exact loaderStep_create hfind
      | drop g =>
        cases hconcerns
        have hobjects : (s.step (.operate (.drop h))).session.objects =
            (s.objects.find? h).elim s.objects fun _ => s.objects.erase h := Objects.drop_objects ..
        rw [hobjects] at hfind
        cases hbefore : s.objects.find? h with
        | none =>
          rw [hbefore] at hfind
          cases hbefore.symm.trans hfind
        | some o =>
          rw [hbefore] at hfind
          cases (s.objects.find?_erase_self).symm.trans hfind
      | act g action =>
        cases hconcerns
        exact loaderStep_act hfind
    · refine .kept ((Objects.find?_perform_of_not_concerns hconcerns).symm.trans hfind) ?_ ?_
      · rintro ⟨⟩
        exact hconcerns rfl
      · rintro (⟨⟨⟩⟩ | ⟨⟨⟩⟩)
        · exact hconcerns rfl
        · exact hconcerns rfl

/-- A loader remembers whether it has passed Enable since it was made or unloaded last. -/
def Tracks (s : Session) (h : Handle) (history : List (Command × Step)) : Prop :=
  ∀ l, s.objects.find? h = some (.loader l) → (l.turnedOn = true ↔ PassedSince h history)

theorem step_tracks (ht : s.Tracks h history) (command : Command) :
    (s.step command).session.Tracks h (history ++ [(command, s.step command)]) := by
  intro l hl
  cases loaderStep_of_find? hl with
  | made => exact iff_of_false Bool.false_ne_true (not_passedSince_append (.inr rfl))
  | loaded hbefore =>
    rw [passedSince_append_load, passedEnable_load hbefore, ← ht _ hbefore]
    simp [or_comm]
  | unloaded hbefore => exact iff_of_false Bool.false_ne_true (not_passedSince_append (.inl rfl))
  | kept hbefore hload hkeep =>
    rw [passedSince_append_of_not hload hkeep]
    exact ht l hbefore

theorem afterRun_tracks (ht : s.Tracks h history) (commands : List Command) :
    (s.afterRun commands).Tracks h (history ++ s.history commands) := by
  induction commands generalizing s history with
  | nil =>
    rw [history_nil, List.append_nil]
    exact ht
  | cons command rest ih =>
    rw [afterRun_cons, history_cons, List.append_cons]
    exact ih (step_tracks ht command)

end Session

end SvmActivation
