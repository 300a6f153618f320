import SvmActivation.Proofs.FrameConservation
import SvmActivation.Proofs.PageWrites

namespace SvmActivation

open Program

namespace Object

variable {o : Object} {m : Machine} {page : Address}

theorem usable_of_map {f : Address → Object} (hf : ∀ frame, (f frame).frames = [frame])
    {answer : Option Address} (h : (Frame.judge answer).map f = .ok o) (hpage : page ∈ o.frames) :
    page ≠ .null ∧ page.IsAligned := by
  cases hjudge : Frame.judge answer with
  | error failure =>
    rw [hjudge] at h
    cases h
  | ok frame =>
    rw [hjudge] at h
    cases h
    rw [hf] at hpage
    cases List.mem_singleton.1 hpage
    exact (Frame.judge_eq_ok hjudge).2

theorem usable_of_create {kind : ObjectKind} (h : ((create kind).run m).value = .ok o)
    (hpage : page ∈ o.frames) : page ≠ .null ∧ page.IsAligned := by
  cases kind with
  | frame =>
    rw [create, run_bind_value, Frame.take_value] at h
    exact usable_of_map (fun _ => rfl) h hpage
  | zeroedFrame | vmcb | saveArea =>
    rw [create, run_bind_value, Frame.takeZeroed_value] at h
    exact usable_of_map (fun _ => rfl) h hpage
  | pages =>
    rw [create, run_bind_value, ControlPages.allocate_value] at h
    cases hjudge : ControlPages.judge m.allocator.answer m.afterRequest.allocator.answer with
    | error failure =>
      rw [hjudge] at h
      cases h
    | ok owned =>
      rw [hjudge] at h
      cases h
      obtain ⟨hfirst, hsecond⟩ := ControlPages.judge_eq_ok hjudge
      rcases List.mem_pair.1 hpage with rfl | rfl
      · exact (Frame.judge_eq_ok hfirst).2
      · exact (Frame.judge_eq_ok hsecond).2
  | placeholder | activator | loader =>
    cases h
    cases hpage

theorem act_leaves (o : Object) (action : Action) (m : Machine) :
    ((o.act action).run m).value.2.frames ⊆ o.frames ∧
      ((o.act action).run m).value.2.vmcbs ⊆ o.vmcbs := by
  cases o with
  | frame owned | pages owned =>
    rw [act, run_ite]
    split
    · rw [run_bind_value]
      exact ⟨List.nil_subset _, List.nil_subset _⟩
    · rw [run_bind_value]
      exact ⟨List.Subset.refl _, List.Subset.refl _⟩
  | vmcb page | saveArea page | activator a | loader l =>
    rw [act, run_bind_value]
    exact ⟨List.Subset.refl _, List.Subset.refl _⟩

variable {action : Action} {pages : ControlPages}

theorem entered_iff (hact : o.Activates action) :
    (∃ x ∈ ((o.act action).run m).timeline, x.request = .enterGuest page) ↔
      ∃ taken, m.course = .entered taken ∧ page = taken.vmcb := by
  constructor
  · rintro ⟨x, hx, hentry⟩
    have haction : x ∈ m.activationActions := by
      rw [← act_actions hact, mem_actions, hentry]
      exact ⟨hx, by simp⟩
    obtain ⟨taken, hcourse, hpage, -⟩ :=
      Machine.exists_pages_of_mem_activationActions haction hentry
    exact ⟨taken, hcourse, hpage⟩
  · rintro ⟨taken, hcourse, rfl⟩
    have haction : ⟨m.prepared taken, .enterGuest taken.vmcb⟩ ∈ m.activationActions := by
      rw [Machine.activationActions, hcourse]
      simp
    rw [← act_actions hact] at haction
    exact ⟨_, (mem_actions.1 haction).1, rfl⟩

theorem usable_of_entered (h : m.course = .entered pages) :
    pages.vmcb ≠ .null ∧ pages.vmcb.IsAligned :=
  (Frame.judge_eq_ok (Machine.pagesOffered_eq_ok (Machine.pagesOffered_of_entered h)).1).2

theorem touched_of_entered (hact : o.Activates action) (h : m.course = .entered pages) :
    ((o.act action).run m).machine.memory.touched pages.vmcb =
      some (((m.memory.bytes pages.vmcb).fill 0).storeWords m.nextGuest.stores) := by
  have hmem : pages.vmcb ∈ usable pages.frames :=
    mem_usable.2 ⟨List.mem_cons_self, usable_of_entered h⟩
  have hzero := m.memory.touched_zeroAll hmem
  have hmemory := act_memory_of_activates hact m
  rw [act_handedOut_of_entered hact h, h] at hmemory
  rw [hmemory]
  dsimp only
  rw [Memory.touched_update_self, Memory.bytes, hzero]
  rfl

theorem touched_of_not_entered (hact : o.Activates action)
    (hentry : ∀ x ∈ ((o.act action).run m).timeline, x.request ≠ .enterGuest page) :
    ((o.act action).run m).machine.memory.touched page =
      (m.memory.zeroAll (usable (handedOut ((o.act action).run m).timeline))).touched page := by
  rw [act_memory_of_activates hact]
  cases hcourse : m.course with
  | refused failure => rfl
  | unsupplied failure => rfl
  | entered taken =>
    apply Memory.touched_update_of_ne
    rintro rfl
    obtain ⟨x, hx, hx'⟩ := (entered_iff hact).2 ⟨taken, hcourse, rfl⟩
    exact hentry x hx hx'

end Object

def Action.PokesInside : Action → Prop
  | poke offset _ => offset < 4096
  | _ => True

def Command.PokesInside : Command → Prop
  | .operate (.act _ action) => action.PokesInside
  | _ => True

theorem Action.edit?_behind {action : Action} {change : PageBytes → PageBytes}
    (h : action.edit? = some change) (hpoke : action.PokesInside) (bytes : PageBytes) {i : Nat}
    (hi : 4096 ≤ i) : change bytes i = bytes i := by
  cases action with
  | fill b =>
    cases h
    exact if_neg (Nat.not_lt.2 hi)
  | poke offset b =>
    cases h
    rw [PokesInside] at hpoke
    exact if_neg (by omega)
  | setField field w =>
    cases h
    have hfield := field.offset_lt
    exact if_neg (by omega)
  | _ => cases h

/-- Only pages are owned: frames that are not null and not misaligned. -/
def Objects.OwnPages (objects : Objects) : Prop :=
  ∀ page ∈ objects.frames, page ≠ .null ∧ page.IsAligned

theorem Objects.perform_ownPages {objects : Objects} (h : objects.OwnPages)
    (operation : Operation) (m : Machine) :
    ((objects.perform operation).run m).value.2.OwnPages := by
  cases operation with
  | core command =>
    rw [perform, run_bind_value]
    exact h
  | create g kind =>
    rw [perform, create_objects]
    cases hmade : ((Object.create kind).run m).value with
    | error failure => exact h
    | ok o =>
      intro page hpage
      rcases mem_frames_insert hpage with hpage | hpage
      · exact Object.usable_of_create hmade hpage
      · exact h page hpage
  | drop g =>
    rw [perform, drop_objects]
    cases objects.find? g with
    | none => exact h
    | some o => exact fun page hpage => h page (mem_frames_of_mem_erase hpage)
  | act g action =>
    rw [perform]
    cases hfind : objects.find? g with
    | none =>
      rw [act_none hfind]
      exact h
    | some o =>
      rw [act_some hfind, run_bind_value]
      intro page hpage
      rcases mem_frames_insert hpage with hpage | hpage
      · exact h page (mem_frames hfind ((o.act_leaves action m).1 hpage))
      · exact h page hpage

namespace Session

variable {s : Session} {command : Command} {page : Address} {change : PageBytes → PageBytes}

theorem step_ownPages (h : s.objects.OwnPages) (command : Command) :
    (s.step command).session.objects.OwnPages := by
  cases command with
  | setup change => exact h
  | dump page => exact h
  | operate operation => exact s.objects.perform_ownPages h operation s.machine

theorem afterRun_ownPages (commands : List Command) :
    (fresh.afterRun commands).objects.OwnPages :=
  afterRun_keeps (fun s => s.objects.OwnPages) (fun _ command _ h => step_ownPages h command)
    (fun _ hpage => absurd hpage List.not_mem_nil) fun _ _ => True.intro

theorem lends_of_mem_frames (commands : List Command) :
    ∀ page ∈ (fresh.afterRun commands).objects.frames,
      (fresh.afterRun commands).machine.Lends page := by
  intro page hpage
  have hlive := Multiset.coe_le.1 (frames_le_live commands)
  exact ⟨hlive.subset hpage, afterRun_ownPages commands page hpage⟩

/-- A page is rewritten through its owner, or after it has been handed out. -/
inductive Rewrites (s : Session) (page : Address) : Command → (PageBytes → PageBytes) → Prop
  | edit {h : Handle} {o : Object} {action : Action} {change : PageBytes → PageBytes}
      (hfind : s.objects.find? h = some o) (hpage : o.editable? action = some page)
      (hedit : action.edit? = some change) : s.Rewrites page (.operate (.act h action)) change
  | make {h : Handle} {kind : ObjectKind}
      (hkind : kind ∈ [.zeroedFrame, .vmcb, .saveArea, .pages])
      (hout : page ∈ handedOut (s.step (.operate (.create h kind))).timeline)
      (hnull : page ≠ .null) (haligned : page.IsAligned) :
      s.Rewrites page (.operate (.create h kind)) fun bytes i => if i < 4096 then 0 else bytes i
  | supply {h : Handle} {o : Object} {action : Action} (hfind : s.objects.find? h = some o)
      (hact : o.Activates action)
      (hout : page ∈ handedOut (s.step (.operate (.act h action))).timeline)
      (hnull : page ≠ .null) (haligned : page.IsAligned)
      (hentry : ∀ x ∈ (s.step (.operate (.act h action))).timeline, x.request ≠ .enterGuest page) :
      s.Rewrites page (.operate (.act h action)) fun bytes i => if i < 4096 then 0 else bytes i
  | enter {h : Handle} {o : Object} {action : Action} (hfind : s.objects.find? h = some o)
      (hact : o.Activates action) {x : Moment}
      (hx : x ∈ (s.step (.operate (.act h action))).timeline)
      (hentry : x.request = .enterGuest page) :
      s.Rewrites page (.operate (.act h action)) fun bytes =>
        PageBytes.storeWords (fun i => if i < 4096 then 0 else bytes i) s.machine.nextGuest.stores

theorem step_rewrites (h : s.Rewrites page command change) :
    (s.step command).session.machine.memory.touched page =
      some (change (s.machine.memory.bytes page)) := by
  cases h with
  | edit hfind hpage hedit =>
    obtain ⟨made, hmade, hmemory⟩ := Object.act_memory_of_editable s.machine hpage
    cases hmade.symm.trans hedit
    rw [step_act hfind]
    dsimp only
    rw [hmemory, Memory.touched_update_self]
  | @make g kind hkind hout hnull haligned =>
    have hne : kind ≠ .frame := by
      rintro rfl
      simp at hkind
    have hmemory := s.objects.create_zeroes g hne s.machine
    have hzero := s.machine.memory.touched_zeroAll (mem_usable.2 ⟨hout, hnull, haligned⟩)
    exact (congrArg (·.touched page) hmemory).trans hzero
  | supply hfind hact hout hnull haligned hentry =>
    rw [step_act hfind] at hout hentry ⊢
    have hzero := s.machine.memory.touched_zeroAll (mem_usable.2 ⟨hout, hnull, haligned⟩)
    exact (Object.touched_of_not_entered hact hentry).trans hzero
  | enter hfind hact hx hentry =>
    rw [step_act hfind] at hx ⊢
    obtain ⟨taken, hcourse, rfl⟩ := (Object.entered_iff hact).1 ⟨_, hx, hentry⟩
    exact Object.touched_of_entered hact hcourse

theorem create_keeps {g : Handle} {kind : ObjectKind}
    (h : ∀ change, ¬ s.Rewrites page (.operate (.create g kind)) change) :
    s.machine.memory.Keeps (s.step (.operate (.create g kind))).session.machine.memory page := by
  have hback (objects : Objects) (o : Object) : (do
      Frame.giveBackAll ((objects.find? g).elim [] Object.frames)
      return (Reply.nothing, objects.insert g o) :
        Program (Reply × Objects)).Within [.frame, .report] :=
    .bind (Frame.giveBackAll_within _) fun _ => trivial
  by_cases hkind : kind ∈ [.zeroedFrame, .vmcb, .saveArea, .pages]
  · have hne : kind ≠ .frame := by
      rintro rfl
      simp at hkind
    have hmemory := s.objects.create_zeroes g hne s.machine
    have hunused : page ∉ usable (handedOut (s.step (.operate (.create g kind))).timeline) := by
      intro hmem
      obtain ⟨hout, hnull, haligned⟩ := mem_usable.1 hmem
      exact h _ (.make hkind hout hnull haligned)
    have htouched := s.machine.memory.touched_zeroAll_of_not_mem hunused
    exact .inl ((congrArg (·.touched page) hmemory).trans htouched)
  · have hw : (s.objects.create g kind).Within [.frame, .report] := by
      cases kind with
      | frame =>
        refine .bind (.bind Frame.take_within fun _ => trivial) fun made => ?_
        cases made with
        | error failure => trivial
        | ok o => exact hback s.objects o
      | placeholder | activator | loader => exact hback s.objects _
      | _ => simp at hkind
    exact hw.keeps (by decide) s.machine

theorem act_keeps {g : Handle} {action : Action}
    (h : ∀ change, ¬ s.Rewrites page (.operate (.act g action)) change) :
    s.machine.memory.Keeps (s.step (.operate (.act g action))).session.machine.memory page := by
  cases hfind : s.objects.find? g with
  | none =>
    rw [step_act_none hfind]
    exact .inl rfl
  | some o =>
    by_cases hact : o.Activates action
    · have hentry : ∀ x ∈ (s.step (.operate (.act g action))).timeline,
          x.request ≠ .enterGuest page :=
        fun x hx hx' => h _ (.enter hfind hact hx hx')
      have hunused : page ∉ usable (handedOut (s.step (.operate (.act g action))).timeline) := by
        intro hmem
        obtain ⟨hout, hnull, haligned⟩ := mem_usable.1 hmem
        exact h _ (.supply hfind hact hout hnull haligned hentry)
      have htouched := s.machine.memory.touched_zeroAll_of_not_mem hunused
      rw [step_act hfind] at hentry htouched ⊢
      exact .inl ((Object.touched_of_not_entered hact hentry).trans htouched)
    · have hpage : o.editable? action ≠ some page := by
        intro hpage
        obtain ⟨change, hedit, -⟩ := Object.act_memory_of_editable s.machine hpage
        exact h change (.edit hfind hpage hedit)
      rw [step_act hfind]
      exact Object.act_keeps hact s.machine hpage

theorem step_keeps (h : ∀ change, ¬ s.Rewrites page command change) :
    s.machine.memory.Keeps (s.step command).session.machine.memory page := by
  cases command with
  | setup change => exact .inl rfl
  | dump other => exact s.machine.memory.keeps_touch page other
  | operate operation =>
    cases operation with
    | core command => exact (s.objects.core_within command).keeps (by decide) s.machine
    | create g kind => exact create_keeps h
    | drop g => exact (s.objects.drop_within g).keeps (by decide) s.machine
    | act g action => exact act_keeps h

/-- Only the owner of a page rewrites it, or who is handed it out. -/
theorem owned_of_rewrites (hs : s.objects.OwnPages) (h : s.Rewrites page command change) :
    page ≠ .null ∧ page.IsAligned ∧
      ((∃ g action o, command = .operate (.act g action) ∧ s.objects.find? g = some o ∧
        page ∈ o.frames) ∨ page ∈ handedOut (s.step command).timeline) := by
  cases h with
  | edit hfind hpage hedit =>
    have hmem := Object.mem_frames_of_editable? hpage
    obtain ⟨hnull, haligned⟩ := hs page (Objects.mem_frames hfind hmem)
    exact ⟨hnull, haligned, .inl ⟨_, _, _, rfl, hfind, hmem⟩⟩
  | make hkind hout hnull haligned => exact ⟨hnull, haligned, .inr hout⟩
  | supply hfind hact hout hnull haligned hentry => exact ⟨hnull, haligned, .inr hout⟩
  | enter hfind hact hx hentry =>
    rw [step_act hfind] at hx ⊢
    obtain ⟨taken, hcourse, rfl⟩ := (Object.entered_iff hact).1 ⟨_, hx, hentry⟩
    obtain ⟨hnull, haligned⟩ := Object.usable_of_entered hcourse
    refine ⟨hnull, haligned, .inr ?_⟩
    dsimp only
    rw [Object.act_handedOut_of_entered hact hcourse]
    exact List.mem_cons_self

/-- What lies behind a page is changed only by a guest. -/
theorem rewrites_behind (h : s.Rewrites page command change) (hpoke : command.PokesInside)
    (hentry : ∀ x ∈ (s.step command).timeline, x.request ≠ .enterGuest page) (bytes : PageBytes)
    {i : Nat} (hi : 4096 ≤ i) : change bytes i = bytes i := by
  cases h with
  | edit hfind hpage hedit => exact Action.edit?_behind hedit hpoke bytes hi
  | make | supply => exact if_neg (Nat.not_lt.2 hi)
  | enter hfind hact hx hx' => exact absurd hx' (hentry _ hx)

theorem step_lent (hs : ∀ page ∈ s.objects.frames, s.machine.Lends page) (command : Command) :
    Policy.lent.Kept [] (s.step command).timeline := by
  refine step_kept (by decide) ?_ (fun kind => Object.create_lent kind s.machine) ?_
  · intro c _
    exact .of_within c.program_within (by decide) s.machine
  · intro h action o _ hfind
    exact Object.act_lent fun page hmem => hs page (Objects.mem_frames hfind hmem)

end Session

theorem Machine.mem_live_serve {m : Machine} {r : Request} {page : Address}
    (h : page ∈ (m.serve r).2.allocator.live) :
    page ∈ handedOut [⟨m, r⟩] ∨ page ∈ m.allocator.live := by
  cases r with
  | takeFrame =>
    have hout : handedOut [⟨m, .takeFrame⟩] = m.allocator.answer.toList := by
      cases hanswer : m.allocator.answer <;> simp [handedOut, Moment.handedOut?, hanswer]
    rw [hout]
    exact List.mem_append.1 h
  | giveBack frame =>
    simp only [serve, Allocator.giveBack] at h
    split at h
    · exact .inr (List.mem_of_mem_erase h)
    · exact .inr h
  | _ => exact .inr h

/-- Only what was out, or is handed out in a run, is out after it. -/
theorem Program.mem_live_run {α : Type} (p : Program α) {m : Machine} {page : Address}
    (h : page ∈ (p.run m).machine.allocator.live) :
    page ∈ handedOut (p.run m).timeline ∨ page ∈ m.allocator.live := by
  induction p generalizing m with
  | done value => exact .inr h
  | ask r next ih =>
    rw [run_ask, Execution.behind_timeline, handedOut_append, List.mem_append]
    rcases ih _ h with hout | hlive
    · exact .inl (.inr hout)
    · exact (Machine.mem_live_serve hlive).imp_left .inl

namespace Session

variable {s : Session} {commands : List Command} {command : Command} {page : Address}

theorem mem_live_step (h : page ∈ (s.step command).session.machine.allocator.live) :
    page ∈ handedOut (s.step command).timeline ∨ page ∈ s.machine.allocator.live := by
  cases command with
  | setup change => exact .inr h
  | dump other => exact .inr h
  | operate operation => exact (s.objects.perform operation).mem_live_run h

/-- A page that is not out keeps what it holds until it is handed out again. -/
theorem touched_afterRun {later : List Command} {held : PageBytes}
    (hlive : page ∉ (fresh.afterRun commands).machine.allocator.live)
    (hout : page ∉ handedOut ((fresh.afterRun commands).timeline later))
    (hheld : (fresh.afterRun commands).machine.memory.touched page = some held) :
    ((fresh.afterRun commands).afterRun later).machine.memory.touched page = some held := by
  induction later generalizing commands with
  | nil => exact hheld
  | cons command rest ih =>
    let s := fresh.afterRun commands
    have hnext : (s.step command).session = fresh.afterRun (commands ++ [command]) :=
      (afterRun_concat fresh commands command).symm
    rw [timeline_cons, handedOut_append, List.mem_append, not_or] at hout
    have hkeeps : s.machine.memory.Keeps (s.step command).session.machine.memory page := by
      apply step_keeps
      intro change h
      obtain ⟨-, -, ⟨g, action, o, -, hfind, hmem⟩ | hmem⟩ :=
        owned_of_rewrites (afterRun_ownPages commands) h
      · exact hlive (lends_of_mem_frames commands page (Objects.mem_frames hfind hmem)).1
      · exact hout.1 hmem
    have hlive' : page ∉ (s.step command).session.machine.allocator.live := by
      intro hmem
      rcases mem_live_step hmem with hmem | hmem
      · exact hout.1 hmem
      · exact hlive hmem
    have hheld' := hkeeps.bytes hheld
    rw [hnext] at hlive' hheld'
    rw [afterRun_cons, hnext]
    exact ih hlive' (hnext ▸ hout.2) hheld'

/-- A step rewrites exactly the pages that it owns or is handed out. -/
theorem pages_rewritten (commands : List Command) (command : Command) (page : Address) :
    let s := fresh.afterRun commands
    let step := s.step command
    let before := s.machine.memory
    let after := step.session.machine.memory
    (∀ change, s.Rewrites page command change →
      after.touched page = some (change (before.bytes page)) ∧
      page ≠ .null ∧ page.IsAligned ∧
      ((∃ g action o, command = .operate (.act g action) ∧ s.objects.find? g = some o ∧
        page ∈ o.frames) ∨ page ∈ handedOut step.timeline) ∧
      (command.PokesInside → (∀ x ∈ step.timeline, x.request ≠ .enterGuest page) →
        ∀ bytes i, 4096 ≤ i → change bytes i = bytes i)) ∧
    ((∀ change, ¬ s.Rewrites page command change) →
      after.touched page = before.touched page ∨
        after.touched page = some (before.bytes page)) ∧
    (∀ x ∈ step.timeline, x.written? = some page →
      page ∈ x.machine.allocator.live ∧ page ≠ .null ∧ page.IsAligned) ∧
    (page ∉ s.machine.allocator.live → ∀ later, page ∉ handedOut (s.timeline later) →
      ∀ held, before.touched page = some held →
        (s.afterRun later).machine.memory.touched page = some held) ∧
    s.finish.machine.memory = before := by
  intro s step before after
  refine ⟨?_, step_keeps, ?_, ?_, ?_⟩
  · intro change h
    obtain ⟨hnull, haligned, howned⟩ := owned_of_rewrites (afterRun_ownPages commands) h
    refine ⟨step_rewrites h, hnull, haligned, howned, ?_⟩
    intro hpoke hentry bytes i hi
    exact rewrites_behind h hpoke hentry bytes hi
  · intro x hx hwritten
    exact (step_lent (lends_of_mem_frames commands) command).page hx (x.page?_of_written hwritten)
  · intro hlive later hout held hheld
    exact touched_afterRun hlive hout hheld
  · exact (Frame.giveBackAll_within s.objects.frames).memory_eq (by decide) s.machine

theorem pages_rewritten_capable :
    let commands : List Command :=
      [.setup .capable, .operate (.create 0 .frame), .operate (.act 0 (.poke 7 0x11))]
    let s := fresh.afterRun commands
    let filled := (s.step (.operate (.act 0 (.fill 3)))).session
    let released := fresh.afterRun (commands ++ [.operate (.act 0 .release)])
    filled.machine.memory.touched ⟨0x1000⟩ =
        some (fun i => if i < 4096 then 3 else s.machine.memory.bytes ⟨0x1000⟩ i) ∧
      ∃ held, released.machine.memory.touched ⟨0x1000⟩ = some held ∧ held 7 = 0x11 ∧
        (released.afterRun [.operate (.create 1 .vmcb)]).machine.memory.touched ⟨0x1000⟩ =
          some held := by
  intro commands s filled released
  have hfind : s.objects.find? 0 = some (.frame (some ⟨0x1000⟩)) := rfl
  obtain ⟨hfilled, -⟩ := pages_rewritten commands (.operate (.act 0 (.fill 3))) ⟨0x1000⟩
  obtain ⟨-, -, -, hkept, -⟩ :=
    pages_rewritten (commands ++ [.operate (.act 0 .release)]) (.dump .null) ⟨0x1000⟩
  refine ⟨(hfilled _ (.edit hfind rfl rfl)).1, _, rfl, by decide, ?_⟩
  exact hkept (by decide) [.operate (.create 1 .vmcb)] (by decide) _ rfl

end Session

end SvmActivation
