import SvmActivation.Proofs.LoaderHistory
import SvmActivation.Proofs.OwnedPages

namespace SvmActivation

open Program

def Action.NeedsFrame : Action → Prop
  | address | fill _ | poke .. => True
  | _ => False

def Action.NeedsPages : Action → Prop
  | address | poke .. | readExit | setField .. => True
  | _ => False

/-- The actions that need what an object of a kind owns. -/
def ObjectKind.Needs (kind : ObjectKind) (action : Action) : Prop :=
  match kind with
  | frame | zeroedFrame | placeholder => action.NeedsFrame
  | pages => action.NeedsPages
  | vmcb | saveArea | activator | loader => False

namespace Object

/-- What an object of a kind can be, by whether it was released since it was made. -/
inductive Accords (released : Prop) : ObjectKind → Object → Prop
  | frame {kind : ObjectKind} (hkind : kind = .frame ∨ kind = .zeroedFrame)
      {owned : Option Address} (h : owned = none ↔ released) : Accords released kind (.frame owned)
  | placeholder : Accords released .placeholder (.frame none)
  | vmcb (page : Address) : Accords released .vmcb (.vmcb page)
  | saveArea (page : Address) : Accords released .saveArea (.saveArea page)
  | pages {owned : Option ControlPages} (h : owned = none ↔ released) :
    Accords released .pages (.pages owned)
  | activator (a : Activator) : Accords released .activator (.activator a)
  | loader (l : Loader) : Accords released .loader (.loader l)

variable {o : Object} {kind : ObjectKind} {action : Action} {m : Machine} {released : Prop}

theorem exists_of_map_eq_ok {α : Type} {made : Except Failure α} {f : α → Object}
    (h : made.map f = .ok o) : ∃ value, o = f value := by
  cases made with
  | error failure => cases h
  | ok value =>
    cases h
    exact ⟨value, rfl⟩

theorem accords_of_create (h : ((create kind).run m).value = .ok o) : Accords False kind o := by
  cases kind with
  | frame =>
    rw [create, run_bind_value] at h
    obtain ⟨page, rfl⟩ := exists_of_map_eq_ok h
    exact .frame (.inl rfl) (iff_of_false (Option.some_ne_none page) id)
  | zeroedFrame =>
    rw [create, run_bind_value] at h
    obtain ⟨page, rfl⟩ := exists_of_map_eq_ok h
    exact .frame (.inr rfl) (iff_of_false (Option.some_ne_none page) id)
  | placeholder =>
    cases h
    exact .placeholder
  | vmcb =>
    rw [create, run_bind_value] at h
    obtain ⟨page, rfl⟩ := exists_of_map_eq_ok h
    exact .vmcb page
  | saveArea =>
    rw [create, run_bind_value] at h
    obtain ⟨page, rfl⟩ := exists_of_map_eq_ok h
    exact .saveArea page
  | pages =>
    rw [create, run_bind_value] at h
    obtain ⟨owned, rfl⟩ := exists_of_map_eq_ok h
    exact .pages (iff_of_false (Option.some_ne_none owned) id)
  | activator =>
    cases h
    exact .activator _
  | loader =>
    cases h
    exact .loader _

theorem Accords.act (ho : Accords released kind o) (action : Action) (m : Machine) :
    Accords (released ∨ action = .release) kind ((o.act action).run m).value.2 := by
  cases ho with
  | frame hkind h =>
    rw [Object.act, run_ite]
    split
    · rename_i hrelease
      rw [run_bind_value]
      exact .frame hkind (iff_of_true rfl (.inr hrelease))
    · rename_i hrelease
      rw [run_bind_value]
      exact .frame hkind (h.trans (or_iff_left hrelease).symm)
  | placeholder =>
    rw [Object.act, run_ite]
    split
    · rw [run_bind_value]
      exact .placeholder
    · rw [run_bind_value]
      exact .placeholder
  | pages h =>
    rw [Object.act, run_ite]
    split
    · rename_i hrelease
      rw [run_bind_value]
      exact .pages (iff_of_true rfl (.inr hrelease))
    · rename_i hrelease
      rw [run_bind_value]
      exact .pages (h.trans (or_iff_left hrelease).symm)
  | vmcb page =>
    rw [Object.act, run_bind_value]
    exact .vmcb page
  | saveArea page =>
    rw [Object.act, run_bind_value]
    exact .saveArea page
  | activator a =>
    rw [Object.act, run_bind_value]
    exact .activator _
  | loader l =>
    rw [Object.act, run_bind_value]
    exact .loader _

theorem useFrame_fault (owned : Option Address) (action : Action) (m : Machine) :
    ((useFrame owned action).run m).value = .fault .deadFrame ↔
      action.NeedsFrame ∧ owned = none := by
  constructor
  · intro h
    cases owned with
    | none =>
      cases action with
      | address | fill | poke => exact ⟨trivial, rfl⟩
      | _ => cases h
    | some page => cases action <;> cases h
  · rintro ⟨hneeds, rfl⟩
    cases action with
    | address | fill | poke => rfl
    | _ => cases hneeds

theorem usePages_fault (owned : Option ControlPages) (action : Action) (m : Machine) :
    ((usePages owned action).run m).value = .fault .deadFrame ↔
      action.NeedsPages ∧ owned = none := by
  constructor
  · intro h
    cases owned with
    | none =>
      cases action with
      | address | poke | readExit | setField => exact ⟨trivial, rfl⟩
      | _ => cases h
    | some taken => cases action <;> cases h
  · rintro ⟨hneeds, rfl⟩
    cases action with
    | address | poke | readExit | setField => rfl
    | _ => cases hneeds

theorem useVmcb_ne_fault (page : Address) (action : Action) (f : Fault) :
    ((useVmcb page action).run m).value ≠ .fault f := by
  intro h
  cases action <;> cases h

theorem useSaveArea_ne_fault (page : Address) (action : Action) (f : Fault) :
    ((useSaveArea page action).run m).value ≠ .fault f := by
  intro h
  cases action <;> cases h

theorem useActivator_ne_fault (a : Activator) (action : Action) (f : Fault) :
    ((useActivator a action).run m).value.1 ≠ .fault f := by
  intro h
  cases action with
  | run => simp [useActivator] at h
  | _ => cases h

theorem useLoader_ne_fault (l : Loader) (action : Action) (f : Fault) :
    ((useLoader l action).run m).value.1 ≠ .fault f := by
  intro h
  cases action with
  | load | unload | inspectCore => simp [useLoader] at h
  | lastOutcome =>
    rw [useLoader] at h
    cases hlast : l.lastOutcome with
    | none =>
      rw [hlast] at h
      cases h
    | some outcome =>
      rw [hlast] at h
      cases h
  | _ => cases h

theorem frame_fault (owned : Option Address) (action : Action) (m : Machine) :
    (((frame owned).act action).run m).value.1 = .fault .deadFrame ↔
      action.NeedsFrame ∧ owned = none := by
  rw [act, run_ite]
  split
  · rename_i hrelease
    rw [run_bind_value, hrelease]
    constructor
    · intro h
      cases h
    · rintro ⟨hneeds, -⟩
      cases hneeds
  · rw [run_bind_value]
    exact useFrame_fault owned action m

theorem pages_fault (owned : Option ControlPages) (action : Action) (m : Machine) :
    (((pages owned).act action).run m).value.1 = .fault .deadFrame ↔
      action.NeedsPages ∧ owned = none := by
  rw [act, run_ite]
  split
  · rename_i hrelease
    rw [run_bind_value, hrelease]
    constructor
    · intro h
      cases h
    · rintro ⟨hneeds, -⟩
      cases hneeds
  · rw [run_bind_value]
    exact usePages_fault owned action m

/-- An action faults exactly if it needs what the object was made without or has released. -/
theorem Accords.fault (ho : Accords released kind o) (action : Action) (m : Machine) :
    ((o.act action).run m).value.1 = .fault .deadFrame ↔
      kind.Needs action ∧ (kind = .placeholder ∨ released) := by
  cases ho with
  | frame hkind h =>
    rw [frame_fault, h]
    rcases hkind with rfl | rfl
    · simp [ObjectKind.Needs]
    · simp [ObjectKind.Needs]
  | placeholder =>
    rw [frame_fault]
    simp [ObjectKind.Needs]
  | pages h =>
    rw [pages_fault, h]
    simp [ObjectKind.Needs]
  | vmcb page =>
    rw [Object.act, run_bind_value]
    exact iff_of_false (useVmcb_ne_fault page action _) And.left
  | saveArea page =>
    rw [Object.act, run_bind_value]
    exact iff_of_false (useSaveArea_ne_fault page action _) And.left
  | activator a =>
    rw [Object.act, run_bind_value]
    exact iff_of_false (useActivator_ne_fault a action _) And.left
  | loader l =>
    rw [Object.act, run_bind_value]
    exact iff_of_false (useLoader_ne_fault l action _) And.left

theorem Accords.act_of_fault (ho : Accords released kind o) (action : Action)
    (h : ((o.act action).run m).value.1 = .fault .deadFrame) :
    (o.act action).run m = ⟨(.fault .deadFrame, o), m, []⟩ := by
  obtain ⟨hneeds, -⟩ := (ho.fault action m).1 h
  cases ho with
  | frame hkind howned =>
    obtain ⟨hframe, rfl⟩ := (frame_fault _ action m).1 h
    cases action with
    | address | fill | poke => rfl
    | _ => cases hframe
  | placeholder =>
    cases action with
    | address | fill | poke => rfl
    | _ => cases hneeds
  | pages howned =>
    obtain ⟨hpages, rfl⟩ := (pages_fault _ action m).1 h
    cases action with
    | address | poke | readExit | setField => rfl
    | _ => cases hpages
  | vmcb | saveArea | activator | loader => cases hneeds

end Object

namespace Objects

theorem place_of_lookup {h : Handle} {o : Object} {entries : List (Handle × Object)}
    (hascending : entries.Pairwise (·.1 < ·.1)) (hfind : entries.lookup h = some o) :
    place h o entries = entries := by
  induction entries with
  | nil => cases hfind
  | cons entry rest ih =>
    obtain ⟨g, o'⟩ := entry
    obtain ⟨hfirst, hrest⟩ := List.pairwise_cons.1 hascending
    rw [List.lookup_cons] at hfind
    by_cases heq : h = g
    · subst heq
      rw [beq_self_eq_true] at hfind
      cases hfind
      rw [place, if_neg (Nat.lt_irrefl h), if_pos rfl]
    · rw [beq_false_of_ne heq] at hfind
      have hlater : g < h := by
        obtain ⟨before, after, hentries, -⟩ := List.lookup_eq_some_iff.1 hfind
        apply hfirst (h, o)
        rw [hentries]
        exact List.mem_append_right _ List.mem_cons_self
      rw [place, if_neg (Nat.lt_asymm hlater), if_neg heq, ih hrest hfind]

theorem insert_of_find? {objects : Objects} {h : Handle} {o : Object}
    (hfind : objects.find? h = some o) : objects.insert h o = objects := by
  obtain ⟨entries, hascending⟩ := objects
  have hplace := place_of_lookup hascending hfind
  simp only [insert, hplace]

end Objects

theorem CoreCommand.program_ne_fault (command : CoreCommand) (m : Machine) (f : Fault) :
    (command.program.run m).value ≠ .fault f := by
  intro h
  cases command <;> rw [program, run_bind_value] at h <;> cases h

/-- A step ends the life of what was under a handle: it is dropped or made anew. -/
def Ends (h : Handle) (entry : Command × Step) : Prop :=
  entry.1 = .operate (.drop h) ∨
    ∃ kind, entry.1 = .operate (.create h kind) ∧ entry.2.reply = .nothing

/-- The object under a handle was made as one kind; `since` is what has happened from then on. -/
def MadeAs (h : Handle) (history : List (Command × Step)) (kind : ObjectKind)
    (since : List (Command × Step)) : Prop :=
  ∃ before step, history = before ++ (.operate (.create h kind), step) :: since ∧
    step.reply = .nothing ∧ ∀ entry ∈ since, ¬ Ends h entry

def ReleasedIn (h : Handle) (history : List (Command × Step)) : Prop :=
  ∃ step, (.operate (.act h .release), step) ∈ history

section History

variable {h : Handle} {history since : List (Command × Step)} {kind : ObjectKind}
  {command : Command} {step : Step}

theorem releasedIn_append :
    ReleasedIn h (history ++ [(command, step)]) ↔
      ReleasedIn h history ∨ command = .operate (.act h .release) := by
  constructor
  · rintro ⟨release, hmem⟩
    rcases List.mem_append.1 hmem with hmem | hmem
    · exact .inl ⟨release, hmem⟩
    · cases List.mem_singleton.1 hmem
      exact .inr rfl
  · rintro (⟨release, hmem⟩ | rfl)
    · exact ⟨release, List.mem_append_left _ hmem⟩
    · exact ⟨step, List.mem_append_right _ List.mem_cons_self⟩

theorem MadeAs.append (hmade : MadeAs h history kind since) (hends : ¬ Ends h (command, step)) :
    MadeAs h (history ++ [(command, step)]) kind (since ++ [(command, step)]) := by
  obtain ⟨before, create, rfl, hreply, hsince⟩ := hmade
  refine ⟨before, create, by simp, hreply, ?_⟩
  intro entry hmem
  rcases List.mem_append.1 hmem with hmem | hmem
  · exact hsince entry hmem
  · rw [List.mem_singleton.1 hmem]
    exact hends

theorem MadeAs.of_append (hmade : MadeAs h (history ++ [(command, step)]) kind since) :
    (command = .operate (.create h kind) ∧ step.reply = .nothing ∧ since = []) ∨
      ¬ Ends h (command, step) ∧
        ∃ earlier, since = earlier ++ [(command, step)] ∧ MadeAs h history kind earlier := by
  obtain ⟨before, create, heq, hreply, hsince⟩ := hmade
  rcases List.eq_nil_or_concat since with rfl | ⟨earlier, last, rfl⟩
  · obtain ⟨-, hlast⟩ := List.append_inj' heq rfl
    cases hlast
    exact .inl ⟨rfl, hreply, rfl⟩
  · rw [List.concat_eq_append] at heq hsince ⊢
    rw [← List.cons_append, ← List.append_assoc] at heq
    obtain ⟨hhistory, hlast⟩ := List.append_inj' heq rfl
    cases hlast
    refine .inr ⟨hsince _ (by simp), earlier, rfl, before, create, hhistory, hreply, ?_⟩
    intro entry hmem
    exact hsince entry (List.mem_append_left _ hmem)

/-- What is under a handle is what a history has made there and not ended. -/
structure Tells (h : Handle) (history : List (Command × Step)) (found : Option Object) :
    Prop where
  made : ∀ o, found = some o → ∃ kind since, MadeAs h history kind since
  accords : ∀ kind since, MadeAs h history kind since →
    ∃ o, found = some o ∧ o.Accords (ReleasedIn h since) kind

theorem tells_made {o : Object} (hreply : step.reply = .nothing) (ho : o.Accords False kind) :
    Tells h (history ++ [(.operate (.create h kind), step)]) (some o) := by
  constructor
  · intro _ _
    exact ⟨kind, [], history, _, rfl, hreply, fun _ hmem => absurd hmem List.not_mem_nil⟩
  · intro kind' since hsince
    rcases hsince.of_append with ⟨he, -, rfl⟩ | ⟨hends, -⟩
    · cases he
      have hnone : ReleasedIn h [] ↔ False :=
        iff_of_false (fun ⟨_, hmem⟩ => List.not_mem_nil hmem) id
      rw [hnone]
      exact ⟨o, rfl, ho⟩
    · exact absurd (.inr ⟨kind, rfl, hreply⟩) hends

theorem tells_ended : Tells h (history ++ [(.operate (.drop h), step)]) none := by
  constructor
  · intro o ho
    cases ho
  · intro kind since hsince
    rcases hsince.of_append with ⟨he, -⟩ | ⟨hends, -⟩
    · cases he
    · exact absurd (.inl rfl) hends

theorem Tells.used {o : Object} (ht : Tells h history (some o)) (action : Action) (m : Machine) :
    Tells h (history ++ [(.operate (.act h action), step)])
      (some ((o.act action).run m).value.2) := by
  have hends : ¬ Ends h (.operate (.act h action), step) := by
    rintro (he | ⟨_, he, -⟩)
    · cases he
    · cases he
  constructor
  · intro _ _
    obtain ⟨kind, since, hsince⟩ := ht.made o rfl
    exact ⟨kind, _, hsince.append hends⟩
  · intro kind since hsince
    rcases hsince.of_append with ⟨he, -⟩ | ⟨-, earlier, rfl, hearlier⟩
    · cases he
    · obtain ⟨_, ⟨⟩, haccords⟩ := ht.accords kind earlier hearlier
      have hrelease : Command.operate (.act h action) = .operate (.act h .release) ↔
          action = .release := by
        simp
      rw [releasedIn_append, hrelease]
      exact ⟨_, rfl, haccords.act action m⟩

theorem Tells.kept {found : Option Object} (ht : Tells h history found)
    (hends : ¬ Ends h (command, step))
    (hunused : ∀ action, command = .operate (.act h action) → found = none) :
    Tells h (history ++ [(command, step)]) found := by
  constructor
  · intro o ho
    obtain ⟨kind, since, hsince⟩ := ht.made o ho
    exact ⟨kind, _, hsince.append hends⟩
  · intro kind since hsince
    rcases hsince.of_append with ⟨he, hreply, -⟩ | ⟨-, earlier, rfl, hearlier⟩
    · exact absurd (.inr ⟨kind, he, hreply⟩) hends
    · obtain ⟨o, ho, haccords⟩ := ht.accords kind earlier hearlier
      have hunreleased : command ≠ .operate (.act h .release) := by
        intro he
        cases (hunused .release he).symm.trans ho
      rw [releasedIn_append, or_iff_left hunreleased]
      exact ⟨o, ho, haccords⟩

end History

namespace Session

/-- What a step leaves under a handle. -/
inductive HandleStep (s : Session) (h : Handle) (command : Command) : Option Object → Prop
  | made {kind : ObjectKind} {o : Object} (hcommand : command = .operate (.create h kind))
      (hreply : (s.step command).reply = .nothing) (ho : o.Accords False kind) :
      HandleStep s h command (some o)
  | ended (hcommand : command = .operate (.drop h)) : HandleStep s h command none
  | used {action : Action} {o : Object} (hcommand : command = .operate (.act h action))
      (hfind : s.objects.find? h = some o) :
      HandleStep s h command (some ((o.act action).run s.machine).value.2)
  | kept (hends : ¬ Ends h (command, s.step command))
      (hunused : ∀ action, command = .operate (.act h action) → s.objects.find? h = none) :
      HandleStep s h command (s.objects.find? h)

theorem handleStep_create (s : Session) (h : Handle) (kind : ObjectKind) :
    s.HandleStep h (.operate (.create h kind))
      ((s.step (.operate (.create h kind))).session.objects.find? h) := by
  have hstep := s.step_create h kind
  cases hmade : ((Object.create kind).run s.machine).value with
  | error failure =>
    simp only [hmade] at hstep
    rw [hstep]
    constructor
    · rintro (he | ⟨_, -, hreply⟩)
      · cases he
      · rw [hstep] at hreply
        cases hreply
    · intro action he
      cases he
  | ok o =>
    simp only [hmade] at hstep
    have hreply : (s.step (.operate (.create h kind))).reply = .nothing := by rw [hstep]
    rw [hstep]
    dsimp only
    rw [Objects.find?_insert_self]
    exact .made rfl hreply (Object.accords_of_create hmade)

theorem handleStep_drop (s : Session) (h : Handle) :
    s.HandleStep h (.operate (.drop h))
      ((s.step (.operate (.drop h))).session.objects.find? h) := by
  have hobjects : (s.step (.operate (.drop h))).session.objects =
      (s.objects.find? h).elim s.objects fun _ => s.objects.erase h := Objects.drop_objects ..
  have hnone : (s.step (.operate (.drop h))).session.objects.find? h = none := by
    rw [hobjects]
    cases hfind : s.objects.find? h with
    | none => exact hfind
    | some o => exact s.objects.find?_erase_self
  rw [hnone]
  exact .ended rfl

theorem handleStep_act (s : Session) (h : Handle) (action : Action) :
    s.HandleStep h (.operate (.act h action))
      ((s.step (.operate (.act h action))).session.objects.find? h) := by
  cases hfind : s.objects.find? h with
  | none =>
    rw [step_act_none hfind]
    refine .kept ?_ fun _ _ => hfind
    rintro (he | ⟨_, he, -⟩)
    · cases he
    · cases he
  | some o =>
    rw [step_act hfind]
    dsimp only
    rw [Objects.find?_insert_self]
    exact .used rfl hfind

theorem handleStep (s : Session) (h : Handle) (command : Command) :
    s.HandleStep h command ((s.step command).session.objects.find? h) := by
  have hkept (hoperate : ∀ operation, command = .operate operation → ¬ operation.Concerns h) :
      s.HandleStep h command (s.objects.find? h) := by
    refine .kept ?_ ?_
    · rintro (he | ⟨kind, he, -⟩)
      · exact hoperate _ he rfl
      · exact hoperate _ he rfl
    · intro action he
      exact absurd rfl (hoperate _ he)
  cases command with
  | setup change =>
    apply hkept
    intro operation he
    cases he
  | dump page =>
    apply hkept
    intro operation he
    cases he
  | operate operation =>
    by_cases hconcerns : operation.Concerns h
    · cases operation with
      | core command => cases hconcerns
      | create g kind =>
        cases hconcerns
        exact s.handleStep_create h kind
      | drop g =>
        cases hconcerns
        exact s.handleStep_drop h
      | act g action =>
        cases hconcerns
        exact s.handleStep_act h action
    · have hfind : (s.step (.operate operation)).session.objects.find? h = s.objects.find? h :=
        Objects.find?_perform_of_not_concerns hconcerns
      rw [hfind]
      apply hkept
      rintro _ ⟨⟩
      exact hconcerns

def Recalls (s : Session) (history : List (Command × Step)) : Prop :=
  ∀ h, Tells h history (s.objects.find? h)

theorem Recalls.accords {s : Session} {history : List (Command × Step)} (hs : s.Recalls history)
    {h : Handle} {o : Object} (hfind : s.objects.find? h = some o) :
    ∃ kind since, MadeAs h history kind since ∧ o.Accords (ReleasedIn h since) kind := by
  obtain ⟨kind, since, hsince⟩ := (hs h).made o hfind
  obtain ⟨o', hfind', haccords⟩ := (hs h).accords kind since hsince
  cases hfind.symm.trans hfind'
  exact ⟨kind, since, hsince, haccords⟩

theorem step_recalls {s : Session} {history : List (Command × Step)} (hs : s.Recalls history)
    (command : Command) :
    (s.step command).session.Recalls (history ++ [(command, s.step command)]) := by
  intro h
  have hbefore := hs h
  generalize hafter : (s.step command).session.objects.find? h = after
  have hhandle := s.handleStep h command
  rw [hafter] at hhandle
  cases hhandle with
  | made hcommand hreply ho =>
    subst hcommand
    exact tells_made hreply ho
  | ended hcommand =>
    subst hcommand
    exact tells_ended
  | used hcommand hfind =>
    subst hcommand
    rw [hfind] at hbefore
    exact hbefore.used _ s.machine
  | kept hends hunused => exact hbefore.kept hends hunused

theorem afterRun_recalls {s : Session} {history : List (Command × Step)} (hs : s.Recalls history)
    (commands : List Command) :
    (s.afterRun commands).Recalls (history ++ s.history commands) := by
  induction commands generalizing s history with
  | nil =>
    rw [history_nil, List.append_nil]
    exact hs
  | cons command rest ih =>
    rw [afterRun_cons, history_cons, List.append_cons]
    exact ih (step_recalls hs command)

theorem fresh_recalls : fresh.Recalls [] := by
  intro h
  constructor
  · intro o ho
    cases ho
  · rintro kind since ⟨before, step, heq, -⟩
    cases before <;> cases heq

theorem exists_act_of_fault {s : Session} {command : Command} {f : Fault}
    (hreply : (s.step command).reply = .fault f) :
    ∃ h action o, command = .operate (.act h action) ∧ s.objects.find? h = some o ∧
      ((o.act action).run s.machine).value.1 = .fault f := by
  cases command with
  | setup change => cases hreply
  | dump page => cases hreply
  | operate operation =>
    cases operation with
    | core command =>
      rw [step, Objects.perform, run_bind_value] at hreply
      exact absurd hreply (command.program_ne_fault s.machine f)
    | create h kind =>
      rw [s.step_create h kind] at hreply
      dsimp only at hreply
      split at hreply
      · cases hreply
      · cases hreply
    | drop h =>
      rw [step, Objects.perform, Objects.drop] at hreply
      cases hfind : s.objects.find? h with
      | none =>
        simp only [hfind] at hreply
        cases hreply
      | some o =>
        simp only [hfind, run_bind_value] at hreply
        cases hreply
    | act h action =>
      cases hfind : s.objects.find? h with
      | none =>
        rw [step_act_none hfind] at hreply
        cases hreply
      | some o =>
        rw [step_act hfind] at hreply
        exact ⟨h, action, o, rfl, hfind, hreply⟩

/-- A step faults exactly if it needs a page that was released or was never there. -/
theorem dead_frame_faults (commands : List Command) (command : Command) :
    let s := fresh.afterRun commands
    let step := s.step command
    (step.reply = .fault .deadFrame ↔
      ∃ h action kind since, command = .operate (.act h action) ∧
        MadeAs h (fresh.history commands) kind since ∧ kind.Needs action ∧
        (kind = .placeholder ∨ ReleasedIn h since)) ∧
    (step.reply = .fault .deadFrame → step.session = s ∧ step.timeline = []) ∧
    ∀ x ∈ step.timeline, ∀ page, x.written? = some page ∨ x.loaded? = some page →
      x.machine.Lends page := by
  intro s step
  have hrecalls : s.Recalls (fresh.history commands) := afterRun_recalls fresh_recalls commands
  refine ⟨⟨?_, ?_⟩, ?_, ?_⟩
  · intro hreply
    obtain ⟨h, action, o, hcommand, hfind, hfault⟩ := exists_act_of_fault hreply
    obtain ⟨kind, since, hsince, haccords⟩ := hrecalls.accords hfind
    obtain ⟨hneeds, hdead⟩ := (haccords.fault action s.machine).1 hfault
    exact ⟨h, action, kind, since, hcommand, hsince, hneeds, hdead⟩
  · rintro ⟨h, action, kind, since, rfl, hsince, hneeds, hdead⟩
    obtain ⟨o, hfind, haccords⟩ := (hrecalls h).accords kind since hsince
    have hstep : step = _ := step_act hfind action
    rw [hstep]
    exact (haccords.fault action s.machine).2 ⟨hneeds, hdead⟩
  · intro hreply
    obtain ⟨h, action, o, rfl, hfind, hfault⟩ := exists_act_of_fault hreply
    obtain ⟨kind, since, hsince, haccords⟩ := hrecalls.accords hfind
    have hstep : step = _ := step_act hfind action
    rw [hstep, haccords.act_of_fault action hfault]
    dsimp only
    rw [Objects.insert_of_find? hfind]
    exact ⟨rfl, rfl⟩
  · intro x hx page hpage
    have hlent := step_lent (lends_of_mem_frames commands) command
    rcases hpage with hwritten | hloaded
    · exact hlent.page hx (x.page?_of_written hwritten)
    · exact hlent.page hx (x.page?_of_loaded hloaded)

end Session

end SvmActivation
