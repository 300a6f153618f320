import SvmActivation.Proofs.FrameTrades
import SvmActivation.Proofs.SessionRuns

namespace SvmActivation

/-- A frame that was handed out is out or was handed back. -/
theorem Machine.serve_ledger (m : Machine) (r : Request) :
    ((m.serve r).2.allocator.live : Multiset Address) + ↑(m.serve r).2.allocator.freed =
      ↑(handedOut [⟨m, r⟩]) + (↑m.allocator.live + ↑m.allocator.freed) := by
  have hnone (h : Moment.handedOut? ⟨m, r⟩ = none) : handedOut [⟨m, r⟩] = [] := by
    rw [handedOut, List.filterMap_cons, h]
    rfl
  cases r with
  | takeFrame =>
    have hout : handedOut [⟨m, .takeFrame⟩] = m.allocator.answer.toList := by
      cases h : m.allocator.answer <;> simp [handedOut, Moment.handedOut?, h]
    have hlive : (m.serve .takeFrame).2.allocator.live =
        m.allocator.answer.toList ++ m.allocator.live := rfl
    rw [hout, hlive, ← Multiset.coe_add, add_assoc]
    rfl
  | giveBack frame =>
    rw [hnone rfl, Multiset.coe_nil, zero_add]
    simp only [serve, Allocator.giveBack]
    split
    · rename_i hmem
      have hback := Multiset.cons_erase (Multiset.mem_coe.2 hmem)
      rw [← Multiset.coe_add, ← Multiset.coe_erase]
      nth_rewrite 2 [← hback]
      rw [← Multiset.singleton_add, Multiset.coe_singleton]
      abel
    · rfl
  | _ =>
    rw [hnone rfl, Multiset.coe_nil, zero_add]
    rfl

namespace Program

variable {α : Type} (p : Program α) (m : Machine)

theorem run_ledger :
    ((p.run m).machine.allocator.live : Multiset Address) + ↑(p.run m).machine.allocator.freed =
      ↑(handedOut (p.run m).timeline) + (↑m.allocator.live + ↑m.allocator.freed) := by
  induction p generalizing m with
  | done value => simp
  | ask r next ih =>
    rw [run_ask, Execution.behind_machine, Execution.behind_timeline, handedOut_append, ih,
      m.serve_ledger, ← Multiset.coe_add]
    abel

/-- Where only frames that are out are handed back, no return is a bad one. -/
theorem run_badReturns (h : ∀ moment ∈ (p.run m).timeline, moment.ReturnsLive) :
    (p.run m).machine.allocator.badReturns = m.allocator.badReturns := by
  induction p generalizing m with
  | done value => rfl
  | ask r next ih =>
    have hfirst : (⟨m, r⟩ : Moment).ReturnsLive := h _ List.mem_cons_self
    have hserve : (m.serve r).2.allocator.badReturns = m.allocator.badReturns := by
      cases r with
      | giveBack frame => rw [Machine.serve, Allocator.giveBack, if_pos (hfirst frame rfl)]
      | _ => rfl
    have hrest := ih _ (m.serve r).2 fun moment hm => h moment (List.mem_cons_of_mem _ hm)
    exact hrest.trans hserve

end Program

/-- What is out is owned or null, and what was handed out is out or was handed back. -/
structure Machine.Balanced (m : Machine) (owned : Multiset Address) (timeline : List Moment) :
    Prop where
  live : (m.allocator.live : Multiset Address) = owned + nullsHandedOut timeline
  ledger : (m.allocator.live : Multiset Address) + ↑m.allocator.freed = ↑(handedOut timeline)
  badReturns : m.allocator.badReturns = 0
  returnsLive : ∀ moment ∈ timeline, moment.ReturnsLive

namespace Machine.Balanced

variable {m : Machine} {owned : Multiset Address} {timeline : List Moment}

theorem run {α : Type} {p : Program α} {kept : α → Multiset Address}
    (h : m.Balanced owned timeline) (hp : p.Trades owned kept) :
    (p.run m).machine.Balanced (kept (p.run m).value) (timeline ++ (p.run m).timeline) := by
  obtain ⟨hlive, hreturns⟩ := hp m _ h.live
  constructor
  · rw [hlive, nullsHandedOut_append]
    abel
  · rw [p.run_ledger, h.ledger, handedOut_append, ← Multiset.coe_add, add_comm]
  · rw [p.run_badReturns m hreturns, h.badReturns]
  · intro moment hm
    rcases List.mem_append.1 hm with hm | hm
    · exact h.returnsLive moment hm
    · exact hreturns moment hm

theorem live_eq (h : m.Balanced 0 timeline) :
    m.allocator.live = .replicate ((handedOut timeline).count .null) .null := by
  have hlive := h.live
  rw [zero_add, nullsHandedOut, ← Multiset.coe_replicate] at hlive
  exact List.perm_replicate.1 (Multiset.coe_eq_coe.1 hlive)

theorem freed_perm (h : m.Balanced 0 timeline) :
    m.allocator.freed.Perm ((handedOut timeline).filter (· ≠ .null)) := by
  have hsplit : (handedOut timeline : Multiset Address) =
      nullsHandedOut timeline + ↑((handedOut timeline).filter (· ≠ .null)) := by
    rw [nullsHandedOut, ← Multiset.coe_count, ← Multiset.filter_eq', ← Multiset.filter_coe]
    exact (Multiset.filter_add_not _ _).symm
  have hledger := h.ledger
  rw [h.live, zero_add, hsplit] at hledger
  exact Multiset.coe_eq_coe.1 (add_left_cancel hledger)

end Machine.Balanced

namespace Session

theorem step_balanced {s : Session} {timeline : List Moment}
    (h : s.machine.Balanced ↑s.objects.frames timeline) (command : Command) :
    (s.step command).session.machine.Balanced ↑(s.step command).session.objects.frames
      (timeline ++ (s.step command).timeline) := by
  cases command with
  | setup change =>
    rw [step, List.append_nil]
    exact ⟨h.live, h.ledger, h.badReturns, h.returnsLive⟩
  | dump page =>
    rw [step, List.append_nil]
    exact ⟨h.live, h.ledger, h.badReturns, h.returnsLive⟩
  | operate operation => exact h.run (s.objects.perform_trades operation)

theorem afterRun_balanced {s : Session} {timeline : List Moment}
    (h : s.machine.Balanced ↑s.objects.frames timeline) (commands : List Command) :
    (s.afterRun commands).machine.Balanced ↑(s.afterRun commands).objects.frames
      (timeline ++ s.timeline commands) := by
  induction commands generalizing s timeline with
  | nil =>
    rw [timeline_nil, List.append_nil]
    exact h
  | cons command rest ih =>
    rw [afterRun_cons, timeline_cons, ← List.append_assoc]
    exact ih (step_balanced h command)

theorem fresh_balanced : fresh.machine.Balanced ↑fresh.objects.frames [] :=
  ⟨rfl, rfl, rfl, fun _ hm => absurd hm List.not_mem_nil⟩

theorem frames_le_live (commands : List Command) :
    let s := fresh.afterRun commands
    (s.objects.frames : Multiset Address) ≤ ↑s.machine.allocator.live := by
  intro s
  have hbalanced := afterRun_balanced fresh_balanced commands
  rw [hbalanced.live]
  exact Multiset.le_add_right _ _

/-- What is out is owned or null, and what is owned goes back when the objects are dropped. -/
theorem frames_conserved (commands : List Command) :
    let s := fresh.afterRun commands
    let timeline := fresh.timeline commands
    (s.machine.allocator.live : Multiset Address) =
      ↑s.objects.frames + .replicate ((handedOut timeline).count .null) .null ∧
    s.machine.allocator.badReturns = 0 ∧
    let e := s.finish
    let whole := timeline ++ e.timeline
    (∀ moment ∈ whole, moment.ReturnsLive) ∧
    e.machine.allocator.badReturns = 0 ∧
    e.machine.allocator.live = .replicate ((handedOut whole).count .null) .null ∧
    e.machine.allocator.freed.Perm ((handedOut whole).filter (· ≠ .null)) := by
  intro s timeline
  have hs : s.machine.Balanced ↑s.objects.frames timeline :=
    afterRun_balanced fresh_balanced commands
  have hend := hs.run (Frame.giveBackAll_trades s.objects.frames)
  refine ⟨hs.live, hs.badReturns, ?_⟩
  intro e whole
  exact ⟨hend.returnsLive, hend.badReturns, hend.live_eq, hend.freed_perm⟩

end Session

end SvmActivation
