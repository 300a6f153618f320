import SvmActivation.Proofs.FrameConservation
import SvmActivation.Proofs.ActivationDecision

namespace SvmActivation

open Program

def Event.returned? : Event → Option Address
  | giveBack frame => some frame
  | _ => none

def returned (timeline : List Moment) : List Address :=
  (deeds timeline).filterMap Event.returned?

@[simp]
theorem returned_append (earlier later : List Moment) :
    returned (earlier ++ later) = returned earlier ++ returned later := by
  rw [returned, deeds_append, List.filterMap_append, returned, returned]

theorem Machine.serve_freed (m : Machine) (r : Request) (h : (⟨m, r⟩ : Moment).ReturnsLive) :
    (m.serve r).2.allocator.freed = m.allocator.freed ++ returned [⟨m, r⟩] := by
  have hquiet (hr : r.effect ∉ [.register, .guest, .frame]) :
      (m.serve r).2.allocator.freed = m.allocator.freed ++ returned [⟨m, r⟩] := by
    have hserve : (m.serve r).2.allocator = m.allocator := by
      apply m.serve_allocator
      intro he
      apply hr
      rw [he]
      decide
    have hnone : deeds [⟨m, r⟩] = [] := by
      rw [deeds, List.flatMap_singleton]
      exact Moment.deeds_eq_nil hr
    rw [hserve, returned, hnone]
    exact (List.append_nil _).symm
  cases r with
  | giveBack frame =>
    rw [serve, Allocator.giveBack, if_pos (h frame rfl)]
    rfl
  | writeMsr | enterGuest | takeFrame => exact (List.append_nil _).symm
  | log message => exact hquiet (by cases message <;> simp)
  | _ => exact hquiet (by simp)

/-- Where only frames that are out are handed back, each of them is free afterwards. -/
theorem Program.run_freed {α : Type} (p : Program α) (m : Machine)
    (h : ∀ moment ∈ (p.run m).timeline, moment.ReturnsLive) :
    (p.run m).machine.allocator.freed = m.allocator.freed ++ returned (p.run m).timeline := by
  induction p generalizing m with
  | done value => exact (List.append_nil _).symm
  | ask r next ih =>
    have hfirst := m.serve_freed r (h _ List.mem_cons_self)
    have hrest := ih (m.serve r).1 (m.serve r).2 fun moment hm =>
      h moment (List.mem_cons_of_mem _ hm)
    rw [run_ask, Execution.behind_machine, Execution.behind_timeline, returned_append, hrest,
      hfirst, List.append_assoc]

namespace Frame

def Missing (answer : Option Address) : Prop :=
  answer = none ∨ answer = some .null

def Offers (answer : Option Address) (page : Address) : Prop :=
  answer = some page ∧ page ≠ .null ∧ page.toNat % 4096 = 0

def Misplaces (answer : Option Address) (frame : Address) : Prop :=
  answer = some frame ∧ frame.toNat % 4096 ≠ 0

variable {answer : Option Address} {frame : Address}

theorem Misplaces.ne_null (h : Misplaces answer frame) : frame ≠ .null := by
  rintro rfl
  exact h.2 rfl

theorem judge_of_missing (h : Missing answer) : judge answer = .error .noFrame := by
  rcases h with rfl | rfl
  · rfl
  · rfl

theorem judge_of_offers (h : Offers answer frame) : judge answer = .ok frame := by
  obtain ⟨rfl, hnull, haligned⟩ := h
  rw [judge, if_neg hnull]
  exact if_pos haligned

theorem judge_of_misplaces (h : Misplaces answer frame) :
    judge answer = .error (.misaligned frame) := by
  have hnull := h.ne_null
  obtain ⟨rfl, haligned⟩ := h
  rw [judge, if_neg hnull]
  exact if_neg haligned

theorem cases_answer (answer : Option Address) :
    Missing answer ∨ (∃ frame, Misplaces answer frame) ∨ ∃ page, Offers answer page := by
  cases answer with
  | none => exact .inl (.inl rfl)
  | some frame =>
    by_cases hnull : frame = .null
    · exact .inl (.inr (congrArg some hnull))
    · by_cases haligned : frame.toNat % 4096 = 0
      · exact .inr (.inr ⟨frame, rfl, hnull, haligned⟩)
      · exact .inr (.inl ⟨frame, rfl, haligned⟩)

end Frame

namespace ControlPages

/-- How a pair of pages is taken, by the answers to two requests for a frame. -/
inductive Taking (first second : Option Address) :
    Except Failure ControlPages → List Event → Prop
  | noVmcb (h : Frame.Missing first) :
    Taking first second (.error .noFrame) [.takeFrame first]
  | misplacedVmcb {vmcb : Address} (h : Frame.Misplaces first vmcb) :
    Taking first second (.error (.misaligned vmcb)) [.takeFrame first, .giveBack vmcb]
  | noSaveArea {vmcb : Address} (h : Frame.Offers first vmcb) (h' : Frame.Missing second) :
    Taking first second (.error .noFrame)
      [.takeFrame first, .takeFrame second, .giveBack vmcb]
  | misplacedSaveArea {vmcb saveArea : Address} (h : Frame.Offers first vmcb)
      (h' : Frame.Misplaces second saveArea) :
    Taking first second (.error (.misaligned saveArea))
      [.takeFrame first, .takeFrame second, .giveBack saveArea, .giveBack vmcb]
  | both {vmcb saveArea : Address} (h : Frame.Offers first vmcb)
      (h' : Frame.Offers second saveArea) :
    Taking first second (.ok { vmcb, saveArea }) [.takeFrame first, .takeFrame second]

namespace Taking

variable {first second : Option Address} {made : Except Failure ControlPages}
  {asked : List Event}

theorem made_eq (h : Taking first second made asked) : made = judge first second := by
  cases h with
  | noVmcb h => rw [judge, Frame.judge_of_missing h]
  | misplacedVmcb h => rw [judge, Frame.judge_of_misplaces h]
  | noSaveArea h h' => rw [judge, Frame.judge_of_offers h, Frame.judge_of_missing h']
  | misplacedSaveArea h h' => rw [judge, Frame.judge_of_offers h, Frame.judge_of_misplaces h']
  | both h h' => rw [judge, Frame.judge_of_offers h, Frame.judge_of_offers h']

theorem asked_eq (h : Taking first second made asked) : asked = supplyDeeds first second := by
  cases h with
  | noVmcb h =>
    rw [supplyDeeds, Frame.judge_of_missing h]
    rfl
  | misplacedVmcb h =>
    rw [supplyDeeds, Frame.judge_of_misplaces h]
    rfl
  | noSaveArea h h' =>
    rw [supplyDeeds, Frame.judge_of_offers h, Frame.judge_of_missing h']
    rfl
  | misplacedSaveArea h h' =>
    rw [supplyDeeds, Frame.judge_of_offers h, Frame.judge_of_misplaces h']
    rfl
  | both h h' => rw [supplyDeeds, Frame.judge_of_offers h, Frame.judge_of_offers h']

theorem exists_of_answers (first second : Option Address) :
    ∃ made asked, Taking first second made asked := by
  rcases Frame.cases_answer first with hfirst | ⟨vmcb, hfirst⟩ | ⟨vmcb, hfirst⟩
  · exact ⟨_, _, .noVmcb hfirst⟩
  · exact ⟨_, _, .misplacedVmcb hfirst⟩
  · rcases Frame.cases_answer second with hsecond | ⟨saveArea, hsecond⟩ | ⟨saveArea, hsecond⟩
    · exact ⟨_, _, .noSaveArea hfirst hsecond⟩
    · exact ⟨_, _, .misplacedSaveArea hfirst hsecond⟩
    · exact ⟨_, _, .both hfirst hsecond⟩

theorem iff_eq : Taking first second made asked ↔
    judge first second = made ∧ supplyDeeds first second = asked := by
  constructor
  · intro h
    exact ⟨h.made_eq.symm, h.asked_eq.symm⟩
  · rintro ⟨rfl, rfl⟩
    obtain ⟨made, asked, h⟩ := exists_of_answers first second
    have hmade := h.made_eq
    have hasked := h.asked_eq
    subst hmade hasked
    exact h

/-- The null frame ends a request for pages, so it is handed out at most once. -/
theorem count_null_le (h : Taking first second made asked) :
    (asked.filterMap Event.handedOut?).count .null ≤ 1 := by
  cases h with
  | noVmcb h =>
    rcases h with rfl | rfl
    · exact Nat.zero_le _
    · exact Nat.le_refl _
  | misplacedVmcb h =>
    have hnull := h.ne_null
    obtain ⟨rfl, -⟩ := h
    simp [List.filterMap_cons, Event.handedOut?, hnull]
  | noSaveArea h h' =>
    obtain ⟨rfl, hnull, -⟩ := h
    rcases h' with rfl | rfl
    · simp [List.filterMap_cons, Event.handedOut?, hnull]
    · simp [List.filterMap_cons, Event.handedOut?, hnull]
  | misplacedSaveArea h h' =>
    have hsecond := h'.ne_null
    obtain ⟨rfl, hfirst, -⟩ := h
    obtain ⟨rfl, -⟩ := h'
    simp [List.filterMap_cons, Event.handedOut?, hfirst, hsecond]
  | both h h' =>
    obtain ⟨rfl, hfirst, -⟩ := h
    obtain ⟨rfl, hsecond, -⟩ := h'
    simp [Event.handedOut?, hfirst, hsecond]

end Taking

end ControlPages

theorem ControlPages.allocate_live (m : Machine) :
    let e := allocate.run m
    (e.machine.allocator.live : Multiset Address) = framesMade frames e.value + ↑m.allocator.live +
      if .null ∈ handedOut e.timeline then {.null} else 0 := by
  intro e
  obtain ⟨made, asked, htaking⟩ :=
    Taking.exists_of_answers m.allocator.answer m.allocator.afterRequest.answer
  have hout : handedOut e.timeline = asked.filterMap Event.handedOut? := by
    rw [handedOut_eq, allocate_deeds, htaking.asked_eq]
  have hcount := htaking.count_null_le
  have hnulls : nullsHandedOut e.timeline =
      if .null ∈ handedOut e.timeline then {.null} else 0 := by
    rw [nullsHandedOut]
    rw [← hout] at hcount
    split
    · rename_i hmem
      have hone : (handedOut e.timeline).count .null = 1 :=
        Nat.le_antisymm hcount (List.count_pos_iff.2 hmem)
      rw [hone]
      rfl
    · rename_i hmem
      rw [List.count_eq_zero.2 hmem]
      rfl
  obtain ⟨hlive, -⟩ := allocate_trades m ↑m.allocator.live (zero_add _).symm
  rw [hlive, ← hnulls]
  abel

theorem ControlPages.isZero_of_allocated {m : Machine} {pages : ControlPages}
    (h : (allocate.run m).value = .ok pages) :
    (allocate.run m).machine.memory.IsZero pages.vmcb ∧
      (allocate.run m).machine.memory.IsZero pages.saveArea := by
  rw [allocate_value] at h
  have hmemory : (allocate.run m).machine.memory =
      (m.memory.update pages.vmcb (·.fill 0)).update pages.saveArea (·.fill 0) := by
    rw [allocate_machine_of_ok h]
    rfl
  rw [hmemory]
  constructor
  · exact (m.memory.isZero_fill pages.vmcb).fill pages.saveArea
  · exact Memory.isZero_fill _ pages.saveArea

/-- A pair of pages is made whole or not at all, and the answers of the allocator decide which. -/
theorem Session.pair_whole_or_none (s : Session) (h : Handle) :
    let m := s.machine
    let e := ControlPages.allocate.run m
    let step := s.step (.operate (.create h .pages))
    (∀ made asked,
      ControlPages.Taking m.allocator.answer m.allocator.afterRequest.answer made asked ↔
        e.value = made ∧ deeds e.timeline = asked) ∧
    (e.machine.allocator.live : Multiset Address) =
      framesMade ControlPages.frames e.value + ↑m.allocator.live +
        (if .null ∈ handedOut e.timeline then {.null} else 0) ∧
    e.machine.allocator.freed = m.allocator.freed ++ returned e.timeline ∧
    (∀ pages, e.value = .ok pages →
      step.reply = .nothing ∧
      step.session.objects = s.objects.insert h (.pages (some pages)) ∧
      step.session.machine.memory.IsZero pages.vmcb ∧
      step.session.machine.memory.IsZero pages.saveArea) ∧
    ∀ failure, e.value = .error failure →
      step = ⟨.failed failure, e.timeline, ⟨e.machine, s.objects⟩⟩ := by
  intro m e step
  have hcreate : (Object.create .pages).run m =
      ⟨e.value.map fun owned => .pages (some owned), e.machine, e.timeline⟩ := by
    simp only [Object.create, run_bind, pure_eq, run_done, Execution.behind, List.append_nil, e]
  have hstep : step = _ := s.step_create h .pages
  rw [hcreate] at hstep
  refine ⟨?_, ControlPages.allocate_live m, ?_, ?_, ?_⟩
  · intro made asked
    rw [ControlPages.allocate_value, ControlPages.allocate_deeds]
    exact ControlPages.Taking.iff_eq
  · obtain ⟨-, hreturns⟩ := ControlPages.allocate_trades m ↑m.allocator.live (zero_add _).symm
    exact ControlPages.allocate.run_freed m hreturns
  · intro pages hmade
    have hzero := ControlPages.isZero_of_allocated hmade
    rw [hmade] at hstep
    have hkept : step.session.machine.memory = e.machine.memory := by
      rw [hstep]
      exact (Frame.giveBackAll_within _).memory_eq (by decide) e.machine
    rw [hkept]
    refine ⟨?_, ?_, hzero⟩
    · rw [hstep]
      rfl
    · rw [hstep]
      rfl
  · intro failure hmade
    rw [hmade] at hstep
    exact hstep

end SvmActivation
