import Mathlib.Data.List.ReduceOption
import SvmActivation.Proofs.FrameConservation
import SvmActivation.Proofs.GuestEntry

namespace SvmActivation

namespace Allocator

/-- The frames that can be handed out and those that are out. -/
def held (a : Allocator) : Multiset Address :=
  ↑a.queue.reduceOption + ↑a.live

theorem held_afterRequest (a : Allocator) : a.afterRequest.held = a.held := by
  obtain ⟨queue, recycle, live, freed, requests, badReturns⟩ := a
  cases queue with
  | nil => rfl
  | cons answer rest =>
    cases answer with
    | none => rfl
    | some frame =>
      change (↑rest.reduceOption + ↑(frame :: live) : Multiset Address) =
        ↑(frame :: rest.reduceOption) + ↑live
      rw [← Multiset.cons_coe, ← Multiset.cons_coe, Multiset.add_cons, Multiset.cons_add]

variable (a : Allocator) {frame : Address}

def recycled (frame : Address) : List Address :=
  if a.recycle then [frame] else []

theorem recycled_le (frame : Address) : (a.recycled frame : Multiset Address) ≤ {frame} := by
  rw [recycled]
  split
  · exact le_rfl
  · exact Multiset.zero_le _

theorem held_giveBack_of_mem (h : frame ∈ a.live) :
    (a.giveBack frame).held + {frame} = a.held + ↑(a.recycled frame) := by
  have hqueue : (a.giveBack frame).queue.reduceOption =
      a.queue.reduceOption ++ a.recycled frame := by
    rw [giveBack, if_pos h, List.reduceOption_append, recycled]
    split <;> rfl
  have hlive : (a.giveBack frame).live = a.live.erase frame := by rw [giveBack, if_pos h]
  have hback : ({frame} : Multiset Address) + ↑(a.live.erase frame) = ↑a.live := by
    rw [← Multiset.coe_erase, Multiset.singleton_add, Multiset.cons_erase (Multiset.mem_coe.2 h)]
  rw [held, held, hqueue, hlive, ← hback, ← Multiset.coe_add]
  abel

theorem giveBack_of_not_mem (h : frame ∉ a.live) :
    a.giveBack frame = { a with badReturns := a.badReturns + 1 } :=
  if_neg h

theorem held_giveBack_le (frame : Address) : (a.giveBack frame).held ≤ a.held := by
  by_cases hmem : frame ∈ a.live
  · apply le_of_add_le_add_right (a := ({frame} : Multiset Address))
    rw [a.held_giveBack_of_mem hmem]
    exact add_le_add_right (a.recycled_le frame) _
  · rw [a.giveBack_of_not_mem hmem]
    exact le_rfl

theorem held_giveBack_add_freed (h : a.recycle = false) (frame : Address) :
    (a.giveBack frame).held + ↑(a.giveBack frame).freed = a.held + ↑a.freed := by
  by_cases hmem : frame ∈ a.live
  · have hheld := a.held_giveBack_of_mem hmem
    have hfreed : (a.giveBack frame).freed = a.freed ++ [frame] := by rw [giveBack, if_pos hmem]
    rw [recycled, h, if_neg Bool.false_ne_true, Multiset.coe_nil, add_zero] at hheld
    rw [hfreed, ← Multiset.coe_add, ← hheld, Multiset.coe_singleton]
    abel
  · rw [a.giveBack_of_not_mem hmem]
    rfl

/-- An allocator that does not recycle has every frame of a supply in its books. -/
structure Spends (supply : Multiset Address) : Prop where
  recycle : a.recycle = false
  total : a.held + ↑a.freed = supply

theorem Spends.freed_nodup {a : Allocator} {supply : Multiset Address} (h : a.Spends supply)
    (hsupply : supply.Nodup) : a.freed.Nodup := by
  rw [← h.total] at hsupply
  exact Multiset.coe_nodup.1 (Multiset.nodup_of_le (Multiset.le_add_left _ _) hsupply)

end Allocator

namespace Machine

variable (m : Machine) (r : Request)

theorem serve_held_le : (m.serve r).2.allocator.held ≤ m.allocator.held := by
  cases r with
  | takeFrame => exact m.allocator.held_afterRequest.le
  | giveBack frame => exact m.allocator.held_giveBack_le frame
  | _ => exact le_rfl

variable {m} {supply : Multiset Address}

theorem serve_spends (h : m.allocator.Spends supply) : (m.serve r).2.allocator.Spends supply := by
  cases r with
  | takeFrame =>
    have hheld := m.allocator.held_afterRequest
    exact ⟨h.recycle, (congrArg (· + (↑m.allocator.freed : Multiset Address)) hheld).trans h.total⟩
  | giveBack frame =>
    constructor
    · rw [serve, Allocator.giveBack]
      split
      · exact h.recycle
      · exact h.recycle
    · exact (m.allocator.held_giveBack_add_freed h.recycle frame).trans h.total
  | _ => exact h

end Machine

namespace Program

variable {α : Type} (p : Program α)

theorem run_held_le (m : Machine) : (p.run m).machine.allocator.held ≤ m.allocator.held := by
  induction p generalizing m with
  | done value => exact le_rfl
  | ask r next ih => exact (ih _ _).trans (m.serve_held_le r)

theorem run_spends {m : Machine} {supply : Multiset Address} (h : m.allocator.Spends supply) :
    (p.run m).machine.allocator.Spends supply := by
  induction p generalizing m with
  | done value => exact h
  | ask r next ih => exact ih _ (Machine.serve_spends r h)

end Program

def Command.supplied : Command → List Address
  | .setup change => change.frames.reduceOption
  | .dump _ | .operate _ => []

def supplied (commands : List Command) : List Address :=
  commands.flatMap Command.supplied

def Command.LeavesRecyclingOff : Command → Prop
  | .setup change => change.recycle ≠ some true
  | .dump _ | .operate _ => True

namespace Session

variable {s : Session} {commands : List Command}

theorem step_held_le (s : Session) (command : Command) :
    (s.step command).session.machine.allocator.held ≤
      s.machine.allocator.held + ↑command.supplied := by
  cases command with
  | setup change =>
    apply le_of_eq
    change (↑(s.machine.allocator.queue ++ change.frames).reduceOption + _ : Multiset Address) = _
    rw [List.reduceOption_append, ← Multiset.coe_add, Allocator.held, Command.supplied]
    abel
  | dump page => exact (add_zero _).ge
  | operate operation =>
    exact ((s.objects.perform operation).run_held_le s.machine).trans (add_zero _).ge

theorem afterRun_held_le (s : Session) (commands : List Command) :
    (s.afterRun commands).machine.allocator.held ≤
      s.machine.allocator.held + ↑(supplied commands) := by
  induction commands generalizing s with
  | nil => exact (add_zero _).ge
  | cons command rest ih =>
    have hfirst := step_held_le s command
    have hsupplied : (↑(supplied (command :: rest)) : Multiset Address) =
        ↑command.supplied + ↑(supplied rest) := (Multiset.coe_add _ _).symm
    rw [afterRun_cons, hsupplied, ← add_assoc]
    exact (ih _).trans (add_le_add_left hfirst _)

theorem step_spends {supply : Multiset Address} (h : s.machine.allocator.Spends supply)
    {command : Command} (hc : command.LeavesRecyclingOff) :
    (s.step command).session.machine.allocator.Spends (supply + ↑command.supplied) := by
  cases command with
  | setup change =>
    constructor
    · change change.recycle.getD s.machine.allocator.recycle = false
      cases hrecycle : change.recycle with
      | none => exact h.recycle
      | some recycle =>
        rw [Command.LeavesRecyclingOff, hrecycle] at hc
        simpa using hc
    · change (↑(s.machine.allocator.queue ++ change.frames).reduceOption + _ + _ :
        Multiset Address) = _
      rw [List.reduceOption_append, ← Multiset.coe_add, ← h.total, Allocator.held,
        Command.supplied]
      abel
  | dump page =>
    rw [Command.supplied, Multiset.coe_nil, add_zero]
    exact h
  | operate operation =>
    rw [Command.supplied, Multiset.coe_nil, add_zero]
    exact (s.objects.perform operation).run_spends h

theorem afterRun_spends {supply : Multiset Address} (h : s.machine.allocator.Spends supply)
    (hc : ∀ command ∈ commands, command.LeavesRecyclingOff) :
    (s.afterRun commands).machine.allocator.Spends (supply + ↑(supplied commands)) := by
  induction commands generalizing s supply with
  | nil => exact (add_zero supply).symm ▸ h
  | cons command rest ih =>
    have hfirst := step_spends h (hc _ List.mem_cons_self)
    have hsupplied : (↑(supplied (command :: rest)) : Multiset Address) =
        ↑command.supplied + ↑(supplied rest) := (Multiset.coe_add _ _).symm
    rw [afterRun_cons, hsupplied, ← add_assoc]
    exact ih hfirst fun c hmem => hc c (List.mem_cons_of_mem _ hmem)

end Session

theorem Allocator.queue_of_answer {a : Allocator} {frame : Address} (h : a.answer = some frame) :
    a.queue = some frame :: a.afterRequest.queue := by
  obtain ⟨queue, recycle, live, freed, requests, badReturns⟩ := a
  cases queue with
  | nil => cases h
  | cons answer rest =>
    cases answer with
    | none => cases h
    | some other =>
      cases h
      rfl

/-- The pages that an activation takes are two, and neither is out before. -/
theorem Machine.offered_apart {m : Machine} {pages : ControlPages}
    (hdistinct : m.allocator.held.Nodup) (h : m.pagesOffered = .ok pages) :
    pages.vmcb ≠ pages.saveArea ∧ pages.vmcb ∉ m.allocator.live ∧
      pages.saveArea ∉ m.allocator.live := by
  obtain ⟨hfirst, hsecond⟩ := pagesOffered_eq_ok h
  have hqueue := Allocator.queue_of_answer (Frame.judge_eq_ok hfirst).1
  rw [Allocator.queue_of_answer (Frame.judge_eq_ok hsecond).1] at hqueue
  rw [Allocator.held, hqueue, List.reduceOption_cons_of_some, List.reduceOption_cons_of_some,
    Multiset.coe_add, Multiset.coe_nodup, List.cons_append, List.cons_append] at hdistinct
  obtain ⟨hvmcb, hrest⟩ := List.nodup_cons.1 hdistinct
  obtain ⟨hsaveArea, -⟩ := List.nodup_cons.1 hrest
  rw [List.mem_cons, not_or] at hvmcb
  exact ⟨hvmcb.1, fun hmem => hvmcb.2 (List.mem_append_right _ hmem),
    fun hmem => hsaveArea (List.mem_append_right _ hmem)⟩

theorem Machine.entered_of_outcome {m : Machine} {completion : Completion}
    (h : m.outcome = .ok completion) :
    ∃ pages, m.course = .entered pages ∧ completion.vmcb = pages.vmcb ∧
      completion.saveArea = pages.saveArea := by
  rw [outcome] at h
  cases hcourse : m.course with
  | refused failure =>
    rw [hcourse] at h
    cases h
  | unsupplied failure =>
    rw [hcourse] at h
    cases h
  | entered pages =>
    rw [hcourse] at h
    cases h
    exact ⟨pages, rfl, rfl, rfl⟩

namespace Object

open Program

variable {o : Object} {m : Machine}

theorem outcome?_run (h : ¬ o.Activates .run) : ((o.act .run).run m).value.1.outcome? = none := by
  cases o with
  | activator a => exact absurd trivial h
  | _ => rfl

theorem lastOutcome?_load (h : ¬ o.Activates .load) :
    ((o.act .load).run m).value.2.lastOutcome? = none := by
  cases o with
  | loader l => exact absurd trivial h
  | _ => rfl

theorem frames_activate {action : Action} (h : o.Activates action) :
    o.frames = [] ∧ ((o.act action).run m).value.2.frames = [] := by
  obtain ⟨a, rfl, rfl⟩ | ⟨l, rfl, rfl⟩ := h.cases
  · rw [act, run_bind_value]
    exact ⟨rfl, rfl⟩
  · rw [act, run_bind_value]
    exact ⟨rfl, rfl⟩

end Object

namespace Session

variable {s : Session} {command : Command}

theorem exists_of_activationOutcome? {outcome : Outcome}
    (h : (s.step command).activationOutcome? command = some outcome) :
    ∃ g action o, command = .operate (.act g action) ∧ s.objects.find? g = some o ∧
      o.Activates action ∧ outcome = s.machine.outcome := by
  cases command with
  | setup change => cases h
  | dump page => cases h
  | operate operation =>
    cases operation with
    | core command => cases h
    | create g kind => cases h
    | drop g => cases h
    | act g action =>
      cases hfind : s.objects.find? g with
      | none =>
        rw [step_act_none hfind] at h
        cases action with
        | load =>
          rw [Step.activationOutcome?, hfind] at h
          cases h
        | _ => cases h
      | some o =>
        by_cases hact : o.Activates action
        · rw [activationOutcome?_step hfind hact] at h
          exact ⟨g, action, o, rfl, hfind, hact, (Option.some.inj h).symm⟩
        · rw [step_act hfind] at h
          cases action with
          | run => exact absurd (h.symm.trans (Object.outcome?_run hact)) (by simp)
          | load =>
            rw [Step.activationOutcome?, Objects.find?_insert_self] at h
            exact absurd (h.symm.trans (Object.lastOutcome?_load hact)) (by simp)
          | _ => cases h

theorem frames_activate {h : Handle} {o : Object} {action : Action}
    (hfind : s.objects.find? h = some o) (hact : o.Activates action) :
    ((s.step (.operate (.act h action))).session.objects.frames : Multiset Address) =
      ↑s.objects.frames := by
  obtain ⟨hbefore, hafter⟩ := Object.frames_activate (m := s.machine) hact
  rw [step_act hfind, Objects.frames_insert, Objects.frames_of_find? hfind, hbefore, hafter]

/-- The pages of a completed activation are two, and no object owns one of them. -/
theorem completion_apart (hdistinct : s.machine.allocator.held.Nodup)
    (howned : s.objects.frames ⊆ s.machine.allocator.live) {completion : Completion}
    (h : (s.step command).activationOutcome? command = some (.ok completion)) :
    completion.vmcb ≠ completion.saveArea ∧
      ∀ frame ∈ s.objects.frames ++ (s.step command).session.objects.frames,
        frame ≠ completion.vmcb ∧ frame ≠ completion.saveArea := by
  obtain ⟨g, action, o, rfl, hfind, hact, houtcome⟩ := exists_of_activationOutcome? h
  obtain ⟨pages, hcourse, hvmcb, hsaveArea⟩ := Machine.entered_of_outcome houtcome.symm
  have hoffered := Machine.pagesOffered_of_entered hcourse
  obtain ⟨hne, hvmcb', hsaveArea'⟩ := Machine.offered_apart hdistinct hoffered
  rw [hvmcb, hsaveArea]
  refine ⟨hne, fun frame hframe => ?_⟩
  have hmem : frame ∈ s.machine.allocator.live := by
    rcases List.mem_append.1 hframe with hbefore | hafter
    · exact howned hbefore
    · rw [← Multiset.mem_coe, frames_activate hfind hact] at hafter
      exact howned hafter
  constructor
  · rintro rfl
    exact hvmcb' hmem
  · rintro rfl
    exact hsaveArea' hmem

theorem supplied_nodup {commands earlier : List Command} (hsupply : (supplied commands).Nodup)
    (hearlier : earlier <+: commands) : (supplied earlier).Nodup := by
  obtain ⟨later, rfl⟩ := hearlier
  rw [supplied, List.flatMap_append] at hsupply
  exact (List.nodup_append.1 hsupply).1

theorem held_nodup {commands : List Command} (hsupply : (supplied commands).Nodup) :
    (fresh.afterRun commands).machine.allocator.held.Nodup := by
  have hheld := afterRun_held_le fresh commands
  have hfresh : fresh.machine.allocator.held = 0 := rfl
  rw [hfresh, zero_add] at hheld
  exact Multiset.nodup_of_le hheld (Multiset.coe_nodup.2 hsupply)

/-- Where no frame is supplied twice, none is ever in two places. -/
theorem frames_distinct {commands : List Command} (hsupply : (supplied commands).Nodup)
    {earlier : List Command} (hearlier : earlier <+: commands) :
    let s := fresh.afterRun earlier
    (s.machine.allocator.queue.reduceOption ++ s.machine.allocator.live).Nodup ∧
    s.objects.frames.Nodup ∧
    (∀ h g o o', s.objects.find? h = some o → s.objects.find? g = some o' → h ≠ g →
      ∀ frame ∈ o.frames, frame ∉ o'.frames) ∧
    (∀ command completion,
      (s.step command).activationOutcome? command = some (.ok completion) →
      completion.vmcb ≠ completion.saveArea ∧
        ∀ frame ∈ s.objects.frames ++ (s.step command).session.objects.frames,
          frame ≠ completion.vmcb ∧ frame ≠ completion.saveArea) ∧
    ((∀ command ∈ commands, command.LeavesRecyclingOff) →
      s.machine.allocator.freed.Nodup ∧ s.finish.machine.allocator.freed.Nodup) := by
  intro s
  have hsupplied := supplied_nodup hsupply hearlier
  have hdistinct : s.machine.allocator.held.Nodup := held_nodup hsupplied
  have howned : (s.objects.frames : Multiset Address) ≤ ↑s.machine.allocator.live :=
    frames_le_live earlier
  have hlive : (s.machine.allocator.live : Multiset Address) ≤ s.machine.allocator.held :=
    Multiset.le_add_left _ _
  have hframes : s.objects.frames.Nodup :=
    Multiset.coe_nodup.1 (Multiset.nodup_of_le (howned.trans hlive) hdistinct)
  refine ⟨?_, hframes, ?_, ?_, ?_⟩
  · rw [Allocator.held, Multiset.coe_add, Multiset.coe_nodup] at hdistinct
    exact hdistinct
  · intro h g o o' hfind hother hne frame hframe
    exact Objects.disjoint_of_nodup hframes hfind hother hne hframe
  · intro command completion hcompleted
    exact completion_apart hdistinct (Multiset.coe_le.1 howned).subset hcompleted
  · intro hrecycling
    have hfresh : fresh.machine.allocator.Spends 0 := ⟨rfl, rfl⟩
    have hspends : s.machine.allocator.Spends (0 + ↑(supplied earlier)) :=
      afterRun_spends hfresh fun command hmem => hrecycling command (hearlier.mem hmem)
    have hend := s.objects.dropAll.run_spends hspends
    rw [zero_add] at hspends hend
    have hsupply := Multiset.coe_nodup.2 hsupplied
    exact ⟨hspends.freed_nodup hsupply, hend.freed_nodup hsupply⟩

theorem frames_distinct_capable :
    let commands : List Command := [
      .setup { Setup.capable with
        frames := [some ⟨0x1000⟩, none, some ⟨0x2000⟩, some ⟨0x3000⟩, some ⟨0x4000⟩] },
      .operate (.create 0 .vmcb), .operate (.create 1 .saveArea), .operate (.create 1 .frame),
      .operate (.create 2 .activator), .operate (.act 2 .run)]
    let s := fresh.afterRun (commands.take 5)
    (supplied commands).Nodup ∧
      (s.machine.allocator.queue.reduceOption ++ s.machine.allocator.live).Nodup ∧
      (∃ completion,
        (s.step (.operate (.act 2 .run))).activationOutcome? (.operate (.act 2 .run)) =
          some (.ok completion) ∧
        completion.vmcb ≠ completion.saveArea ∧
        ∀ frame ∈ s.objects.frames, frame ≠ completion.vmcb ∧ frame ≠ completion.saveArea) ∧
      s.finish.machine.allocator.freed.Nodup := by
  intro commands s
  have hsupply : (supplied commands).Nodup := by decide
  obtain ⟨hplaces, -, -, hcompleted, hfreed⟩ :=
    frames_distinct hsupply (List.take_prefix 5 commands)
  have hfind : s.objects.find? 2 = some (.activator .fresh) := rfl
  have houtcome : (s.step (.operate (.act 2 .run))).activationOutcome? (.operate (.act 2 .run)) =
      some s.machine.outcome := activationOutcome?_step hfind trivial
  have hobstacle : s.machine.core.obstacle? = none := by decide
  have hoffered : s.machine.pagesOffered = .ok ⟨⟨0x3000⟩, ⟨0x4000⟩⟩ := by decide
  have hcourse : s.machine.course = .entered ⟨⟨0x3000⟩, ⟨0x4000⟩⟩ := by
    rw [Machine.course, hobstacle, hoffered]
  obtain ⟨completion, hcompletion, -, -⟩ := Machine.outcome_of_entered hcourse
  rw [hcompletion] at houtcome
  obtain ⟨hne, hapart⟩ := hcompleted _ completion houtcome
  refine ⟨hsupply, hplaces, ⟨_, houtcome, hne, fun frame hmem => ?_⟩, (hfreed ?_).2⟩
  · exact hapart frame (List.mem_append_left _ hmem)
  · simp [commands, Command.LeavesRecyclingOff, Setup.capable]

end Session

end SvmActivation
