import SvmActivation.Proofs.AgreeingMemory
import SvmActivation.Proofs.ObjectActions
import SvmActivation.Proofs.OwnedPages
import SvmActivation.Proofs.SessionRuns

namespace SvmActivation

open Program

namespace Frame

theorem takeZeroed_confined :
    takeZeroed.Confined [] fun taken => taken.toOption.toList := by
  refine .bind (.of_within take_within (by decide)) fun taken => ?_
  cases taken with
  | error failure => exact .done (List.nil_subset _)
  | ok frame =>
    exact .bind (.widen (.fillPage frame 0) (List.nil_subset _)) fun _ =>
      .done (List.subset_append_left _ _)

theorem giveBackAll_confined (frames known : List Address) :
    (giveBackAll frames).Confined known fun _ => [] :=
  .of_within (giveBackAll_within frames) (by decide)

end Frame

theorem ControlPages.allocate_confined :
    allocate.Confined [] fun offered => offered.toOption.elim [] frames := by
  refine .bind Frame.takeZeroed_confined fun first => ?_
  cases first with
  | error failure => exact .done (List.nil_subset _)
  | ok vmcb =>
    refine .bind (.widen Frame.takeZeroed_confined (List.nil_subset _)) fun second => ?_
    cases second with
    | error failure =>
      have hback := Frame.giveBack_within vmcb
      exact .bind (.of_within hback (by decide)) fun _ => .done (List.nil_subset _)
    | ok saveArea =>
      have hlog : (log (.pagesAllocated vmcb saveArea)).Within [.report] := .request (by simp)
      refine .bind (.of_within hlog (by decide)) fun _ => .done ?_
      intro page hpage
      rcases List.mem_cons.1 hpage with rfl | hpage
      · exact List.mem_cons_of_mem _ List.mem_cons_self
      · rw [List.mem_singleton.1 hpage]
        exact List.mem_cons_self

theorem Request.Handles.reads {r : Request} {edited : Option Address} {known : List Address}
    (h : r.Handles edited known) : r.Reads known := by
  cases r with
  | loadWord => exact h
  | _ => trivial

namespace Activator

variable (a : Activator)

theorem supply_confined :
    a.supply.Confined [] fun supplied => supplied.2.toOption.elim [] ControlPages.frames := by
  refine .bind (.of_within (a.advance_within _) (by decide)) fun a => ?_
  refine .bind (.of_within Switch.turnOn_within (by decide)) fun efer => ?_
  refine .bind (.of_within (advance_within _ _) (by decide)) fun _ => ?_
  exact .bind (.widen ControlPages.allocate_confined (List.nil_subset _)) fun _ =>
    .done (List.subset_append_left _ _)

/-- The only page that is read is the one that the guest was entered with. -/
theorem enterGuest_reads (efer : Register) (pages : ControlPages) :
    (a.enterGuest efer pages).Asks (·.Reads pages.frames) := by
  have hadvance (a : Activator) (next : Stage) : (a.advance next).Asks (·.Reads pages.frames) :=
    .bind (.request trivial) fun _ => trivial
  have hread : (Vmcb.readExit pages.vmcb).Asks (·.Reads pages.frames) :=
    (Vmcb.readExit_handles pages.vmcb none).mono fun r hr =>
      hr.reads.mono (List.cons_subset_cons _ (List.nil_subset _))
  refine .bind (hadvance a _) fun a => .bind (.request trivial) fun _ => ?_
  refine .bind (.request trivial) fun _ => .bind (hadvance a _) fun _ => ?_
  refine .bind (.request trivial) fun _ => .bind hread fun _ => ?_
  exact .bind (.when _ (.request trivial)) fun _ => trivial

theorem enterGuest_confined (efer : Register) (pages : ControlPages) :
    (a.enterGuest efer pages).Confined pages.frames
      fun attempt => attempt.pages.elim [] ControlPages.frames := by
  refine Confined.retain (.of_asks (a.enterGuest_reads efer pages)) fun m => ?_
  rw [enterGuest_value]
  exact List.subset_append_right _ _

theorem run_confined : a.run.Confined [] fun _ => [] := by
  have hinspect (a : Activator) : a.inspect.Confined [] fun _ => [] :=
    .of_within a.inspect_within (by decide)
  have hsettle (attempt : Attempt) :
      (settle attempt).Confined (attempt.pages.elim [] ControlPages.frames) fun _ => [] :=
    .of_within (settle_within attempt) (by decide)
  exact run_of_parts (fun known p learnt => p.Confined known learnt)
    (fun pages => pages.elim [] ControlPages.frames) (fun hp hf => hp.bind fun value =>
      (hf value).widen (List.subset_append_left _ _)) (fun _ => .done (List.Subset.refl _)) hinspect
    supply_confined enterGuest_confined hsettle a

end Activator

theorem Loader.load_confined (l : Loader) : l.load.Confined [] fun _ => [] := by
  have hlog : (log .loaded).Within [.report] := .request (by simp)
  refine .bind (.of_within hlog (by decide)) fun _ => ?_
  exact .bind (Activator.run_confined _) fun _ => .done (List.nil_subset _)

def Objects.vmcbs (objects : Objects) : List Address :=
  objects.entries.flatMap (·.2.vmcbs)

namespace Object

theorem create_confined (kind : ObjectKind) :
    (create kind).Confined [] fun made => made.toOption.elim [] vmcbs := by
  cases kind with
  | frame =>
    refine .bind (.of_within Frame.take_within (by decide)) fun taken => .done ?_
    cases taken <;> exact List.nil_subset _
  | zeroedFrame | saveArea =>
    refine .bind Frame.takeZeroed_confined fun taken => .done ?_
    cases taken <;> exact List.nil_subset _
  | vmcb =>
    refine .bind Frame.takeZeroed_confined fun taken => .done ?_
    cases taken with
    | error failure => exact List.nil_subset _
    | ok page => exact List.subset_append_left _ _
  | pages =>
    refine .bind ControlPages.allocate_confined fun offered => .done ?_
    cases offered with
    | error failure => exact List.nil_subset _
    | ok owned => exact List.cons_subset_cons _ (List.nil_subset _)
  | placeholder | activator | loader => exact .done (List.nil_subset _)

/-- An object reads no page but that of a VMCB that it owns. -/
theorem act_confined (o : Object) (action : Action) :
    (o.act action).Confined o.vmcbs fun answer => answer.2.vmcbs := by
  by_cases hact : o.Activates action
  · obtain ⟨a, rfl, rfl⟩ | ⟨l, rfl, rfl⟩ := hact.cases
    · have huse : (useActivator a .run).Confined [] fun _ => [] :=
        .bind a.run_confined fun _ => .done (List.nil_subset _)
      exact .bind huse fun _ => .done (List.nil_subset _)
    · have huse : (useLoader l .load).Confined [] fun _ => [] :=
        .bind l.load_confined fun _ => .done (List.nil_subset _)
      exact .bind huse fun _ => .done (List.nil_subset _)
  · have hreads := (act_handles hact).mono fun _ hr => hr.reads
    exact .retain (.of_asks hreads) fun m => (o.act_leaves action m).2

end Object

namespace Objects

variable {objects : Objects} {h : Handle} {o : Object}

theorem vmcbs_subset_of_find? (hfind : objects.find? h = some o) : o.vmcbs ⊆ objects.vmcbs := by
  obtain ⟨earlier, later, hentries, -⟩ := List.lookup_eq_some_iff.1 hfind
  intro page hpage
  refine List.mem_flatMap.2 ⟨(h, o), ?_, hpage⟩
  rw [hentries]
  exact List.mem_append_right _ List.mem_cons_self

theorem vmcbs_insert (objects : Objects) (h : Handle) (o : Object) :
    (objects.insert h o).vmcbs ⊆ o.vmcbs ++ objects.vmcbs := by
  intro page hpage
  obtain ⟨entry, hentry, hpage⟩ := List.mem_flatMap.1 hpage
  rcases mem_of_mem_place hentry with rfl | hentry
  · exact List.mem_append_left _ hpage
  · exact List.mem_append_right _ (List.mem_flatMap.2 ⟨entry, hentry, hpage⟩)

theorem vmcbs_erase (objects : Objects) (h : Handle) :
    (objects.erase h).vmcbs ⊆ objects.vmcbs := by
  intro page hpage
  obtain ⟨entry, hentry, hpage⟩ := List.mem_flatMap.1 hpage
  exact List.mem_flatMap.2 ⟨entry, (List.mem_filter.1 hentry).1, hpage⟩

/-- What the objects of a session do depends on no page but those of the VMCBs that they own. -/
theorem perform_confined (objects : Objects) (operation : Operation) :
    (objects.perform operation).Confined objects.vmcbs fun answer => answer.2.vmcbs := by
  cases operation with
  | core command =>
    exact .bind (.of_within command.program_within (by decide)) fun _ => .done (List.Subset.refl _)
  | create h kind =>
    refine .bind (.widen (Object.create_confined kind) (List.nil_subset _)) fun made => ?_
    cases made with
    | error failure => exact .done (List.Subset.refl _)
    | ok o =>
      exact .bind (Frame.giveBackAll_confined _ _) fun _ => .done (objects.vmcbs_insert h o)
  | drop h =>
    rw [perform, drop]
    cases objects.find? h with
    | none => exact .done (List.Subset.refl _)
    | some o =>
      exact .bind (Frame.giveBackAll_confined _ _) fun _ => .done (objects.vmcbs_erase h)
  | act h action =>
    rw [perform]
    cases hfind : objects.find? h with
    | none =>
      rw [act_none hfind]
      exact .done (List.Subset.refl _)
    | some o =>
      rw [act_some hfind]
      have hact := (o.act_confined action).widen (vmcbs_subset_of_find? hfind)
      exact .bind hact fun answer => .done (objects.vmcbs_insert h answer.2)

end Objects

def Command.withFiller (filler : Option Byte) : Command → Command
  | .setup change => .setup { change with filler := filler }
  | command => command

def Step.shown (step : Step) : Command → Option Reply × List Event
  | .dump _ => (none, step.events)
  | _ => (some step.reply, step.events)

namespace Session

/-- Two sessions that differ at most in memory, and there not on the pages of owned VMCBs. -/
structure Alike (s s' : Session) : Prop where
  objects : s'.objects = s.objects
  machine : s.machine.AgreeOn s'.machine s.objects.vmcbs

variable {s s' : Session}

theorem Alike.step (h : s.Alike s') (command : Command) (filler : Option Byte) :
    (s'.step (command.withFiller filler)).shown (command.withFiller filler) =
        (s.step command).shown command ∧
      (s.step command).session.Alike (s'.step (command.withFiller filler)).session := by
  obtain ⟨m, objects⟩ := s
  obtain ⟨m', objects'⟩ := s'
  obtain ⟨rfl, hmachine⟩ := h
  replace hmachine : m.AgreeOn m' objects'.vmcbs := hmachine
  cases command with
  | setup change =>
    obtain ⟨memory, rfl⟩ := hmachine.exists_memory
    exact ⟨rfl, rfl, rfl, hmachine.memory⟩
  | dump page =>
    obtain ⟨memory, rfl⟩ := hmachine.exists_memory
    refine ⟨?_, rfl, rfl, fun other hother => (hmachine.memory other hother).touch page⟩
    simp only [Command.withFiller, Step.shown, Session.step, Step.events]
  | operate operation =>
    obtain ⟨hvalue, hevents, hafter⟩ :=
      objects'.perform_confined operation m m' _ (List.Subset.refl _) hmachine
    refine ⟨?_, congrArg Prod.snd hvalue, hafter.mono (List.subset_append_left _ _)⟩
    have hreply := congrArg Prod.fst hvalue
    exact Prod.ext (congrArg some hreply) hevents

theorem Alike.run (h : s.Alike s') (changes : List (Command × Option Byte)) :
    let commands := changes.map Prod.fst
    let commands' := changes.map fun change => change.1.withFiller change.2
    (s'.history commands').map (fun entry => entry.2.shown entry.1) =
        (s.history commands).map (fun entry => entry.2.shown entry.1) ∧
      (s.afterRun commands).Alike (s'.afterRun commands') := by
  intro commands commands'
  induction changes generalizing s s' with
  | nil => exact ⟨rfl, h⟩
  | cons change rest ih =>
    obtain ⟨hshown, hafter⟩ := h.step change.1 change.2
    obtain ⟨hrest, hend⟩ := ih hafter
    simp only [commands, commands', List.map_cons, history_cons, afterRun_cons, hshown, hrest]
    exact ⟨trivial, hend⟩

theorem fresh_alike : fresh.Alike fresh :=
  ⟨rfl, rfl, fun _ hpage => absurd hpage List.not_mem_nil⟩

def Backed (s : Session) : Prop :=
  ∀ page ∈ s.objects.vmcbs, (s.machine.memory.touched page).isSome = true

theorem Alike.backed (h : s.Alike s') : s.Backed := by
  intro page hpage
  obtain ⟨bytes, _, hbytes, _, _⟩ := h.machine.memory page hpage
  rw [hbytes]
  rfl

theorem afterRun_backed (commands : List Command) : (fresh.afterRun commands).Backed := by
  let changes : List (Command × Option Byte) := commands.map fun command => (command, none)
  have hcommands : changes.map Prod.fst = commands := by
    rw [List.map_map]
    exact List.map_id' commands
  obtain ⟨-, h⟩ := fresh_alike.run changes
  rw [hcommands] at h
  exact h.backed

def withMemory (s : Session) (memory : Memory) : Session :=
  { s with machine := { s.machine with memory := memory } }

theorem alike_withMemory {memory : Memory} (hs : s.Backed) (hs' : (s.withMemory memory).Backed)
    (h : ∀ page ∈ s.objects.vmcbs, (s.machine.memory.bytes page).SamePage (memory.bytes page)) :
    s.Alike (s.withMemory memory) := by
  refine ⟨rfl, rfl, fun page hpage => ?_⟩
  obtain ⟨bytes, hbytes⟩ := Option.isSome_iff_exists.1 (hs page hpage)
  obtain ⟨other, hother⟩ := Option.isSome_iff_exists.1 (hs' page hpage)
  have hsame := h page hpage
  have hother' : memory.touched page = some other := hother
  rw [Memory.bytes, Memory.bytes, hbytes, hother'] at hsame
  exact ⟨bytes, other, hbytes, hother, hsame⟩

theorem Alike.eq_withMemory (h : s.Alike s') : s' = s.withMemory s'.machine.memory := by
  obtain ⟨m', objects'⟩ := s'
  obtain ⟨rfl, hmachine⟩ := h
  exact congrArg (Session.mk · s.objects) hmachine.rest

theorem Alike.finish (h : s.Alike s') :
    s'.finish.events = s.finish.events ∧
      s'.finish.machine = { s.finish.machine with memory := s'.finish.machine.memory } := by
  obtain ⟨m, objects⟩ := s
  obtain ⟨m', objects'⟩ := s'
  obtain ⟨rfl, hmachine⟩ := h
  have hdrop : objects'.dropAll.Confined [] fun _ => [] := Frame.giveBackAll_confined _ _
  obtain ⟨-, hevents, hend⟩ := hdrop m m' _ (List.nil_subset _) hmachine
  exact ⟨hevents, hend.rest⟩

/-- What memory held before reaches no result. -/
theorem stale_memory_hidden :
    (∀ commands, (fresh.afterRun commands).Backed) ∧
    ∀ (s : Session) (memory : Memory), s.Backed → (s.withMemory memory).Backed →
      (∀ page ∈ s.objects.vmcbs, (s.machine.memory.bytes page).SamePage (memory.bytes page)) →
      ∀ changes : List (Command × Option Byte),
        let s' := s.withMemory memory
        let commands := changes.map Prod.fst
        let commands' := changes.map fun change => change.1.withFiller change.2
        let last := s.afterRun commands
        let last' := s'.afterRun commands'
        (s'.history commands').map (fun entry => entry.2.shown entry.1) =
          (s.history commands).map (fun entry => entry.2.shown entry.1) ∧
        (∃ left, last' = last.withMemory left) ∧
        last'.finish.events = last.finish.events ∧
        ∃ left, last'.finish.machine = { last.finish.machine with memory := left } := by
  refine ⟨afterRun_backed, fun s memory hs hs' hsame changes => ?_⟩
  obtain ⟨hshown, hlast⟩ := (alike_withMemory hs hs' hsame).run changes
  obtain ⟨hevents, hmachine⟩ := hlast.finish
  exact ⟨hshown, ⟨_, hlast.eq_withMemory⟩, hevents, _, hmachine⟩

theorem stale_memory_hidden_capable :
    let threeFrames := [some ⟨0x1000⟩, some ⟨0x2000⟩, some ⟨0x3000⟩]
    let owned := fresh.afterRun
      [.setup { Setup.capable with frames := threeFrames }, .operate (.create 1 .vmcb)]
    let stale : Memory :=
      ⟨fun page => some fun i => if page = ⟨0x1000⟩ ∧ i < pageSize then 0 else 0x77, 0x13⟩
    let changes : List (Command × Option Byte) :=
      [(.setup {}, some 0xff), (.operate (.create 2 .activator), none),
        (.operate (.act 2 .run), none), (.operate (.act 1 .readExit), none)]
    owned.Backed ∧ (owned.withMemory stale).Backed ∧
    (∀ page ∈ owned.objects.vmcbs,
      (owned.machine.memory.bytes page).SamePage (stale.bytes page)) ∧
    ((owned.withMemory stale).history (changes.map fun change => change.1.withFiller change.2)).map
        (fun entry => entry.2.shown entry.1) =
      (owned.history (changes.map Prod.fst)).map (fun entry => entry.2.shown entry.1) := by
  intro threeFrames owned stale changes
  have howned : owned.Backed := afterRun_backed _
  have hstale : (owned.withMemory stale).Backed := fun _ _ => rfl
  have hsame : ∀ page ∈ owned.objects.vmcbs,
      (owned.machine.memory.bytes page).SamePage (stale.bytes page) := by
    intro page hpage i hi
    obtain rfl : page = ⟨0x1000⟩ := List.mem_singleton.1 hpage
    have hzero : owned.machine.memory.bytes ⟨0x1000⟩ = PageBytes.fill (fun _ => 0xa5) 0 := rfl
    rw [hzero, PageBytes.fill, if_pos hi]
    exact (if_pos ⟨rfl, hi⟩).symm
  exact ⟨howned, hstale, hsame, (stale_memory_hidden.2 owned stale howned hstale hsame changes).1⟩

end Session

end SvmActivation
