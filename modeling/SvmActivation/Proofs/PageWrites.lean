import SvmActivation.Proofs.PageZeroing

namespace SvmActivation

open Program

def Moment.written? (moment : Moment) : Option Address :=
  match moment.request with
  | .fillPage page _ | .storeByte page .. | .storeWord page .. | .enterGuest page => some page
  | _ => none

def Moment.loaded? (moment : Moment) : Option Address :=
  match moment.request with
  | .loadWord page _ => some page
  | _ => none

def Request.page? : Request → Option Address
  | fillPage page _ | storeByte page .. | storeWord page .. | enterGuest page => some page
  | loadWord page _ => some page
  | _ => none

theorem Request.page?_eq_none {r : Request} (h : r.effect ∉ [.page, .guest]) : r.page? = none := by
  cases r with
  | fillPage | storeByte | loadWord | storeWord | enterGuest => simp at h
  | _ => rfl

theorem Moment.page?_of_written {x : Moment} {page : Address} (h : x.written? = some page) :
    x.request.page? = some page := by
  obtain ⟨m, r⟩ := x
  cases r <;> first | exact h | cases h

theorem Moment.page?_of_loaded {x : Moment} {page : Address} (h : x.loaded? = some page) :
    x.request.page? = some page := by
  obtain ⟨m, r⟩ := x
  cases r <;> first | exact h | cases h

namespace Memory

/-- A page holds afterwards what it held before, whether it was touched or not. -/
def Keeps (before after : Memory) (page : Address) : Prop :=
  after.touched page = before.touched page ∨ after.touched page = some (before.bytes page)

variable {before mid after : Memory} {page : Address}

theorem Keeps.bytes (h : before.Keeps after page) {held : PageBytes}
    (hheld : before.touched page = some held) : after.touched page = some held := by
  rcases h with h | h
  · rw [h, hheld]
  · rw [h, Memory.bytes, hheld]
    rfl

theorem Keeps.trans (hfiller : mid.filler = before.filler) (h : before.Keeps mid page)
    (h' : mid.Keeps after page) : before.Keeps after page := by
  rcases h with h | h
  · rw [Keeps, Memory.bytes, ← h, ← hfiller]
    exact h'
  · exact .inr (h'.bytes h)

theorem keeps_touch (m : Memory) (page other : Address) : m.Keeps (m.touch other) page := by
  by_cases h : page = other
  · rw [h]
    exact .inr (if_pos rfl)
  · exact .inl (if_neg h)

theorem keeps_update (m : Memory) {page other : Address} (h : page ≠ other)
    (change : PageBytes → PageBytes) : m.Keeps (m.update other change) page :=
  .inl (m.touched_update_of_ne change h)

end Memory

section Kept

variable {page : Address}

theorem Machine.serve_filler (m : Machine) (r : Request) :
    (m.serve r).2.memory.filler = m.memory.filler := by
  cases r <;> rfl

theorem Machine.serve_keeps {m : Machine} {r : Request}
    (h : Moment.written? ⟨m, r⟩ ≠ some page) : m.memory.Keeps (m.serve r).2.memory page := by
  cases r with
  | fillPage other b =>
    exact m.memory.keeps_update (fun he => h (congrArg some he.symm)) (·.fill b)
  | storeByte other offset b =>
    exact m.memory.keeps_update (fun he => h (congrArg some he.symm)) (·.storeByte offset b)
  | storeWord other offset w =>
    exact m.memory.keeps_update (fun he => h (congrArg some he.symm)) (·.storeWord offset w)
  | enterGuest other =>
    exact m.memory.keeps_update (fun he => h (congrArg some he.symm))
      (·.storeWords m.nextGuest.stores)
  | loadWord other offset => exact m.memory.keeps_touch page other
  | _ => exact .inl rfl

theorem Program.run_keeps {α : Type} (p : Program α) {m : Machine}
    (h : ∀ x ∈ (p.run m).timeline, x.written? ≠ some page) :
    m.memory.Keeps (p.run m).machine.memory page := by
  induction p generalizing m with
  | done value => exact .inl rfl
  | ask r next ih =>
    have hfirst := Machine.serve_keeps (h _ List.mem_cons_self)
    have hrest := ih _ fun x hx => h x (List.mem_cons_of_mem _ hx)
    exact hfirst.trans (m.serve_filler r) hrest

theorem Program.Within.keeps {α : Type} {effects : List Request.Effect} {p : Program α}
    (hp : p.Within effects) (h : .guest ∉ effects ∧ .page ∉ effects) (m : Machine) :
    m.memory.Keeps (p.run m).machine.memory page :=
  .inl (congrArg (·.touched page) (hp.memory_eq h m))

end Kept

/-- A page is out: a frame that the allocator has handed out, in which a page can stand. -/
def Machine.Lends (m : Machine) (page : Address) : Prop :=
  page ∈ m.allocator.live ∧ page ≠ .null ∧ page.IsAligned

/-- Whatever page is read or written is out. -/
def Policy.lent : Policy [.page, .guest] :=
  .ofPages (·.request.page?) (fun _ => Request.page?_eq_none) Machine.Lends

theorem Program.Within.allocator_eq {α : Type} {p : Program α} {effects : List Request.Effect}
    (hp : p.Within effects) (h : .frame ∉ effects) {m : Machine} {x : Moment}
    (hx : x ∈ (p.run m).timeline) : x.machine.allocator = m.allocator := by
  induction p generalizing m with
  | done value => cases hx
  | ask r next ih =>
    have hserve : (m.serve r).2.allocator = m.allocator := by
      apply m.serve_allocator
      intro he
      apply h
      rw [← he]
      exact hp.1
    rcases List.mem_cons.1 hx with rfl | hx
    · rfl
    · exact (ih (m.serve r).1 (hp.2 _) hx).trans hserve

/-- What is out at first stays out until the allocator is asked for something. -/
theorem Policy.lent_of_known {α : Type} {p : Program α} {known : List Address}
    {effects : List Request.Effect} {m : Machine} {history : List Moment}
    (hp : p.Asks fun r => ∀ page, r.page? = some page → page ∈ known) (hw : p.Within effects)
    (h : .frame ∉ effects) (hknown : ∀ page ∈ known, m.Lends page) :
    lent.Kept history (p.run m).timeline := by
  apply Kept.of_forall
  intro x hx before after page hpage
  rw [Machine.Lends, hw.allocator_eq h hx]
  exact hknown page (hp.timeline hx page hpage)

section Lent

variable {history : List Moment}

theorem Frame.takeZeroed_lent (m : Machine) :
    Policy.lent.Kept history (takeZeroed.run m).timeline := by
  refine .bind (.of_within take_within (by decide) m) ?_
  rw [take_value, take_machine]
  cases hjudge : judge m.allocator.answer with
  | error failure => exact .nil
  | ok frame =>
    obtain ⟨hanswer, hnull, haligned⟩ := judge_eq_ok hjudge
    have hlive : frame ∈ m.afterRequest.allocator.live := by
      have hnew : m.afterRequest.allocator.live = m.allocator.answer.toList ++ m.allocator.live :=
        rfl
      rw [hnew, hanswer]
      exact List.mem_cons_self
    refine .cons ?_ .nil
    intro page hpage
    cases hpage
    exact ⟨hlive, hnull, haligned⟩

theorem ControlPages.allocate_lent (m : Machine) :
    Policy.lent.Kept history (allocate.run m).timeline := by
  refine .bind (Frame.takeZeroed_lent m) ?_
  cases (Frame.takeZeroed.run m).value with
  | error failure => exact .nil
  | ok vmcb =>
    refine .bind (Frame.takeZeroed_lent _) ?_
    cases (Frame.takeZeroed.run (Frame.takeZeroed.run m).machine).value with
    | error failure => exact .bind (.of_within (Frame.giveBack_within vmcb) (by decide) _) .nil
    | ok saveArea =>
      have hlog : (log (.pagesAllocated vmcb saveArea)).Within [.report] := .request (by simp)
      exact .bind (.of_within hlog (by decide) _) .nil

theorem Object.create_lent (kind : ObjectKind) (m : Machine) :
    Policy.lent.Kept history ((create kind).run m).timeline := by
  cases kind with
  | frame => exact .bind (.of_within Frame.take_within (by decide) m) .nil
  | zeroedFrame | vmcb | saveArea => exact .bind (Frame.takeZeroed_lent m) .nil
  | pages => exact .bind (ControlPages.allocate_lent m) .nil
  | placeholder | activator | loader => exact .nil

end Lent

namespace Activator

variable (a : Activator)

theorem enterGuest_page? (efer : Register) (pages : ControlPages) :
    (a.enterGuest efer pages).Asks fun r => ∀ page, r.page? = some page → page ∈ [pages.vmcb] := by
  have hadvance (a : Activator) (next : Stage) :
      (a.advance next).Asks fun r => ∀ page, r.page? = some page → page ∈ [pages.vmcb] :=
    .bind (.request nofun) fun _ => trivial
  have hvmcb {r : Request} (h : r.page? = some pages.vmcb) :
      ∀ page, r.page? = some page → page ∈ [pages.vmcb] := by
    intro page hpage
    cases h.symm.trans hpage
    exact List.mem_cons_self
  refine .bind (hadvance a _) fun a => .bind (.request nofun) fun _ => ?_
  refine .bind (.request nofun) fun _ => .bind (hadvance a _) fun _ => ?_
  refine .bind (.request (hvmcb rfl)) fun _ => .bind ?_ fun _ => ?_
  · exact .bind (.request (hvmcb rfl)) fun _ => .bind (.request (hvmcb rfl)) fun _ =>
      .bind (.request (hvmcb rfl)) fun _ => trivial
  · exact .bind (.when _ (.request nofun)) fun _ => trivial

/-- An activation uses no page but one that it has taken and not handed back yet. -/
theorem run_lent (m : Machine) (history : List Moment) :
    Policy.lent.Kept history (a.run.run m).timeline := by
  refine a.run_kept (by decide) (.of_within a.inspect_within (by decide) m) (fun _ => ?_) ?_
  · refine .bind (.of_within (advance_within _ _) (by decide) m) ?_
    refine .bind (.of_within Switch.turnOn_within (by decide) _) ?_
    refine .bind (.of_within (advance_within _ _) (by decide) _) ?_
    exact .bind (ControlPages.allocate_lent _) .nil
  · intro pages hcourse
    have hoffered := Machine.pagesOffered_of_entered hcourse
    obtain ⟨hfirst, -⟩ := Machine.pagesOffered_eq_ok hoffered
    obtain ⟨-, hvmcb⟩ := Frame.judge_eq_ok hfirst
    have hlive : (m.supplied pages).allocator.live =
        pages.saveArea :: pages.vmcb :: m.allocator.live := Machine.live_prepared hoffered
    have hwithin := enterGuest_within ⟨.allocation, true⟩ m.eferWithSvm pages
    apply Policy.lent_of_known (enterGuest_page? _ _ pages) hwithin (by decide)
    intro page hpage
    cases List.mem_singleton.1 hpage
    rw [Machine.Lends, hlive]
    exact ⟨List.mem_cons_of_mem _ List.mem_cons_self, hvmcb⟩

end Activator

/-- What an action makes of the bytes of a page, if it is there to change them. -/
def Action.edit? : Action → Option (PageBytes → PageBytes)
  | fill b => some fun bytes i => if i < 4096 then b else bytes i
  | poke offset b => some fun bytes i => if i = offset then b else bytes i
  | setField field w => some fun bytes i =>
    if field.offset ≤ i ∧ i < field.offset + 8 then w.byte (i - field.offset) else bytes i
  | _ => none

namespace Object

def editable? : Object → Action → Option Address
  | frame owned, .fill _ | frame owned, .poke .. => owned
  | vmcb page, .poke .. | vmcb page, .setField .. => some page
  | pages owned, .poke .. | pages owned, .setField .. => owned.map ControlPages.vmcb
  | _, _ => none

def vmcbs : Object → List Address
  | vmcb page => [page]
  | pages owned => owned.toList.map ControlPages.vmcb
  | frame _ | saveArea _ | activator _ | loader _ => []

variable {o : Object} {action : Action} {page : Address} {change : PageBytes → PageBytes}

theorem vmcbs_subset_frames (o : Object) : o.vmcbs ⊆ o.frames := by
  cases o with
  | pages owned =>
    cases owned with
    | none => exact List.nil_subset _
    | some taken => exact List.cons_subset_cons _ (List.nil_subset _)
  | vmcb page => exact List.Subset.refl _
  | _ => exact List.nil_subset _

theorem cases_of_editable? (h : o.editable? action = some page) :
    o = frame (some page) ∨ o = vmcb page ∨
      ∃ owned, o = pages (some owned) ∧ page = owned.vmcb := by
  cases o with
  | frame owned =>
    cases action with
    | fill | poke =>
      cases h
      exact .inl rfl
    | _ => cases h
  | vmcb other =>
    cases action with
    | poke | setField =>
      cases h
      exact .inr (.inl rfl)
    | _ => cases h
  | pages owned =>
    cases action with
    | poke | setField =>
      obtain ⟨owned, rfl, rfl⟩ := Option.map_eq_some_iff.1 h
      exact .inr (.inr ⟨owned, rfl, rfl⟩)
    | _ => cases h
  | _ => cases h

theorem mem_frames_of_editable? (h : o.editable? action = some page) : page ∈ o.frames := by
  rcases cases_of_editable? h with rfl | rfl | ⟨owned, rfl, rfl⟩
  · exact List.mem_cons_self
  · exact List.mem_cons_self
  · exact List.mem_cons_self

theorem setField_memory (page : Address) (field : ExitField) (w : Word) (m : Machine) :
    ((setField page field w).run m).machine.memory =
      m.memory.update page (·.storeWord field.offset w) := by
  have hmemory : ((setField page field w).run m).machine.memory =
      (m.memory.update page (·.storeWord field.offset w)).touch page := rfl
  rw [hmemory, Memory.touch_update_self]

theorem act_memory_of_editable (m : Machine) (hpage : o.editable? action = some page) :
    ∃ change, action.edit? = some change ∧
      ((o.act action).run m).machine.memory = m.memory.update page change := by
  rcases cases_of_editable? hpage with rfl | rfl | ⟨owned, rfl, rfl⟩
  · cases action with
    | fill | poke => exact ⟨_, rfl, rfl⟩
    | _ => cases hpage
  · cases action with
    | poke => exact ⟨_, rfl, rfl⟩
    | setField field w => exact ⟨_, rfl, setField_memory page field w m⟩
    | _ => cases hpage
  · cases action with
    | poke => exact ⟨_, rfl, rfl⟩
    | setField field w => exact ⟨_, rfl, setField_memory owned.vmcb field w m⟩
    | _ => cases hpage

end Object

/-- A request that writes at most one page and reads at most some, inside of them. -/
def Request.Handles (edited : Option Address) (known : List Address) : Request → Prop
  | fillPage page _ | storeByte page .. | storeWord page .. => edited = some page
  | enterGuest _ => False
  | loadWord page offset => page ∈ known ∧ offset + 8 ≤ pageSize
  | _ => True

theorem Request.handles_of_effect {r : Request} (h : r.effect ∉ [.page, .guest])
    (edited : Option Address) (known : List Address) : r.Handles edited known := by
  cases r with
  | fillPage | storeByte | loadWord | storeWord | enterGuest => simp at h
  | _ => trivial

theorem Program.Within.handles {α : Type} {p : Program α} {effects : List Request.Effect}
    (hp : p.Within effects) (h : ∀ effect ∈ effects, effect ∉ [.page, .guest])
    {edited : Option Address} {known : List Address} : p.Asks (·.Handles edited known) :=
  Asks.mono hp fun r hr => r.handles_of_effect (h _ hr) edited known

theorem ExitField.offset_lt (field : ExitField) : field.offset + 8 ≤ 4096 := by
  cases field <;> decide

theorem Vmcb.readExit_handles (vmcb : Address) (edited : Option Address) :
    (readExit vmcb).Asks (·.Handles edited [vmcb]) := by
  have hload (field : ExitField) :
      (Request.loadWord vmcb field.offset).Handles edited [vmcb] :=
    ⟨List.mem_cons_self, field.offset_lt⟩
  exact .bind (.request (hload .code)) fun _ => .bind (.request (hload .info1)) fun _ =>
    .bind (.request (hload .info2)) fun _ => trivial

theorem Vmcb.setField_handles (vmcb : Address) (field : ExitField) (w : Word) :
    (setField vmcb field w).Asks (·.Handles (some vmcb) [vmcb]) :=
  .bind (.request rfl) fun _ => .request ⟨List.mem_cons_self, field.offset_lt⟩

namespace Object

variable {o : Object} {action : Action} {page : Address}

theorem useFrame_handles (owned : Option Address) (action : Action) :
    (useFrame owned action).Asks (·.Handles ((frame owned).editable? action) []) := by
  cases action with
  | address => cases owned <;> trivial
  | fill | poke =>
    cases owned with
    | none => trivial
    | some page => exact .bind (.request rfl) fun _ => trivial
  | _ => trivial

theorem useVmcb_handles (page : Address) (action : Action) :
    (useVmcb page action).Asks (·.Handles ((vmcb page).editable? action) [page]) := by
  cases action with
  | poke => exact .bind (.request rfl) fun _ => trivial
  | readExit => exact .bind (Vmcb.readExit_handles page _) fun _ => trivial
  | setField field w => exact .bind (Vmcb.setField_handles page field w) fun _ => trivial
  | _ => trivial

theorem usePages_handles (owned : Option ControlPages) (action : Action) :
    (usePages owned action).Asks
      (·.Handles ((pages owned).editable? action) (pages owned).vmcbs) := by
  cases owned with
  | none => cases action <;> trivial
  | some taken =>
    cases action with
    | poke => exact .bind (.request rfl) fun _ => trivial
    | readExit => exact .bind (Vmcb.readExit_handles taken.vmcb _) fun _ => trivial
    | setField field w => exact .bind (Vmcb.setField_handles taken.vmcb field w) fun _ => trivial
    | _ => trivial

/-- Without an activation, only the page that an action is there to change is written. -/
theorem act_handles (hact : ¬ o.Activates action) :
    (o.act action).Asks (·.Handles (o.editable? action) o.vmcbs) := by
  cases o with
  | frame owned =>
    refine .ite ?_ (.bind (useFrame_handles owned action) fun _ => trivial)
    exact .bind ((discard_within _).handles (by decide)) fun _ => trivial
  | vmcb page => exact .bind (useVmcb_handles page action) fun _ => trivial
  | saveArea page => cases action <;> trivial
  | pages owned =>
    refine .ite ?_ (.bind (usePages_handles owned action) fun _ => trivial)
    exact .bind ((discard_within _).handles (by decide)) fun _ => trivial
  | activator a => exact .bind ((useActivator_within a hact).handles (by decide)) fun _ => trivial
  | loader l => exact .bind ((useLoader_within l hact).handles (by decide)) fun _ => trivial

theorem act_keeps (hact : ¬ o.Activates action) (m : Machine)
    (hpage : o.editable? action ≠ some page) :
    m.memory.Keeps ((o.act action).run m).machine.memory page := by
  apply (o.act action).run_keeps
  rintro ⟨after, r⟩ hx hw
  have hr := (act_handles hact).timeline hx
  cases r with
  | fillPage | storeByte | storeWord => exact hpage (hr.trans hw)
  | enterGuest => exact hr
  | _ => cases hw

theorem handedOut_of_activates (hact : o.Activates action) (m : Machine) :
    ∃ a : Activator, ((o.act action).run m).machine = (a.run.run m).machine ∧
      handedOut ((o.act action).run m).timeline = handedOut (a.run.run m).timeline := by
  obtain ⟨a, reports, hreports, hmachine, htimeline⟩ := exists_run_of_activates hact m
  have hnone : handedOut reports = [] := by
    apply List.filterMap_eq_nil_iff.2
    intro x hx
    apply x.handedOut?_eq_none
    rw [hreports x hx]
    decide
  refine ⟨a, hmachine, ?_⟩
  rw [htimeline, handedOut_append, hnone, List.nil_append]

theorem act_memory_of_activates (hact : o.Activates action) (m : Machine) :
    ((o.act action).run m).machine.memory =
      let zeroed := m.memory.zeroAll (usable (handedOut ((o.act action).run m).timeline))
      match m.course with
      | .entered taken => zeroed.update taken.vmcb (·.storeWords m.nextGuest.stores)
      | _ => zeroed := by
  obtain ⟨a, hmachine, hout⟩ := handedOut_of_activates hact m
  rw [hmachine, hout]
  exact a.run_memory m

theorem act_handedOut_of_entered (hact : o.Activates action) {m : Machine} {pages : ControlPages}
    (h : m.course = .entered pages) :
    handedOut ((o.act action).run m).timeline = pages.frames := by
  obtain ⟨a, -, hout⟩ := handedOut_of_activates hact m
  rw [hout]
  exact a.run_handedOut_of_entered m h

theorem act_lent {m : Machine} {history : List Moment} (ho : ∀ page ∈ o.frames, m.Lends page) :
    Policy.lent.Kept history ((o.act action).run m).timeline := by
  by_cases hact : o.Activates action
  · exact act_kept (by decide) hact fun a history => a.run_lent m history
  · by_cases hrelease : action = .release
    · rw [hrelease]
      exact .of_within o.act_release_within (by decide) m
    · have hwithin := act_within_of_ne_release hact hrelease
      refine Policy.lent_of_known ((act_handles hact).mono fun r hr => ?_) hwithin (by decide) ho
      intro page hpage
      cases r with
      | fillPage | storeByte | storeWord => exact mem_frames_of_editable? (hr.trans hpage)
      | enterGuest => exact hr.elim
      | loadWord other offset =>
        cases hpage
        exact o.vmcbs_subset_frames hr.1
      | _ => cases hpage

end Object

end SvmActivation
