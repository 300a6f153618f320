import Mathlib.Algebra.Order.Group.Multiset
import Mathlib.Tactic.Abel
import SvmActivation.Proofs.ObjectActions

namespace SvmActivation

/-- The null frames that were handed out: nobody keeps them or hands them back. -/
def nullsHandedOut (timeline : List Moment) : Multiset Address :=
  .replicate ((handedOut timeline).count .null) .null

@[simp]
theorem nullsHandedOut_nil : nullsHandedOut [] = 0 := rfl

@[simp]
theorem nullsHandedOut_append (earlier later : List Moment) :
    nullsHandedOut (earlier ++ later) = nullsHandedOut earlier + nullsHandedOut later := by
  rw [nullsHandedOut, handedOut_append, List.count_append, Multiset.replicate_add]
  rfl

/-- A program turns the frames that it is given into those of its value, and moves no others. -/
def Program.Trades {α : Type} (p : Program α) (given : Multiset Address)
    (owned : α → Multiset Address) : Prop :=
  ∀ (m : Machine) (others : Multiset Address),
    (m.allocator.live : Multiset Address) = given + others →
      ((p.run m).machine.allocator.live : Multiset Address) =
        owned (p.run m).value + nullsHandedOut (p.run m).timeline + others ∧
      ∀ moment ∈ (p.run m).timeline, moment.ReturnsLive

open Program

namespace Program.Trades

variable {α β : Type} {p : Program α} {given : Multiset Address} {owned : α → Multiset Address}

theorem done {value : α} (h : given = owned value) :
    (Program.done value).Trades given owned := by
  intro m others hlive
  constructor
  · rw [run_done, nullsHandedOut_nil, add_zero, ← h]
    exact hlive
  · intro moment hm
    cases hm

theorem bind {f : α → Program β} {kept : β → Multiset Address} (hp : p.Trades given owned)
    (hf : ∀ value, (f value).Trades (owned value) kept) : (p >>= f).Trades given kept := by
  intro m others hlive
  obtain ⟨hmid, hfirst⟩ := hp m others hlive
  rw [add_assoc] at hmid
  obtain ⟨hend, hsecond⟩ := hf (p.run m).value (p.run m).machine _ hmid
  rw [run_bind_timeline]
  constructor
  · rw [run_bind_machine, run_bind_value, hend, nullsHandedOut_append]
    abel
  · intro moment hm
    rcases List.mem_append.1 hm with hm | hm
    · exact hfirst moment hm
    · exact hsecond moment hm

theorem beside (hp : p.Trades given owned) (extra : Multiset Address) :
    p.Trades (given + extra) fun value => owned value + extra := by
  intro m others hlive
  rw [add_assoc] at hlive
  obtain ⟨hend, hreturns⟩ := hp m _ hlive
  refine ⟨?_, hreturns⟩
  rw [hend]
  dsimp only
  abel

theorem ite {q : Program α} {c : Prop} [Decidable c] (hp : p.Trades given owned)
    (hq : q.Trades given owned) : (if c then p else q).Trades given owned := by
  split
  · exact hp
  · exact hq

theorem congr {kept : α → Multiset Address} (hp : p.Trades given owned)
    (h : ∀ m, owned (p.run m).value = kept (p.run m).value) : p.Trades given kept := by
  intro m others hlive
  rw [← h m]
  exact hp m others hlive

theorem of_within {effects : List Request.Effect} (hp : p.Within effects)
    (h : .frame ∉ effects) : p.Trades given fun _ => given := by
  intro m others hlive
  have hserve (m : Machine) (r : Request) (hr : r.effect ∈ effects) :
      (m.serve r).2.allocator = m.allocator := by
    apply m.serve_allocator
    intro he
    apply h
    rwa [← he]
  have hkeep : (p.run m).machine.allocator = m.allocator := hp.keeps Machine.allocator hserve m
  have hnone : handedOut (p.run m).timeline = [] := hp.handedOut_eq_nil h m
  constructor
  · rw [hkeep, nullsHandedOut, hnone]
    simpa using hlive
  · intro moment hm frame hr
    apply absurd _ (hp.effect_ne h hm)
    rw [hr]
    rfl

theorem takeFrame :
    (request .takeFrame).Trades 0 fun answer => ↑(answer.filter (· ≠ .null)).toList := by
  intro m others hlive
  constructor
  · have hnew : (((request .takeFrame).run m).machine.allocator.live : Multiset Address) =
        ↑m.allocator.answer.toList + ↑m.allocator.live := rfl
    have hout : handedOut ((request .takeFrame).run m).timeline = m.allocator.answer.toList := by
      cases h : m.allocator.answer <;> simp [request, handedOut, Moment.handedOut?, h]
    have hvalue : ((request .takeFrame).run m).value = m.allocator.answer := rfl
    rw [hnew, nullsHandedOut, hout, hvalue, hlive, zero_add]
    cases m.allocator.answer with
    | none => simp
    | some frame =>
      by_cases hnull : frame = .null
      · simp [hnull, Option.filter]
      · simp [hnull, Option.filter]
  · intro moment hm frame hr
    cases List.mem_singleton.1 hm
    cases hr

end Program.Trades

namespace Frame

theorem giveBack_trades (frame : Address) : (giveBack frame).Trades {frame} fun _ => 0 := by
  intro m others hlive
  have hmem : frame ∈ m.allocator.live := by
    rw [← Multiset.mem_coe, hlive]
    exact Multiset.mem_add.2 (.inl (Multiset.mem_singleton_self frame))
  constructor
  · have hnew : ((giveBack frame).run m).machine.allocator.live = m.allocator.live.erase frame := by
      simp [Machine.giveBack, Allocator.giveBack, hmem]
    have hnulls : nullsHandedOut ((giveBack frame).run m).timeline = 0 := rfl
    rw [hnew, hnulls, ← Multiset.coe_erase, hlive, Multiset.singleton_add, Multiset.erase_cons_head]
    simp
  · intro moment hm other hr
    rcases List.mem_cons.1 hm with rfl | hm
    · cases hr
      exact hmem
    · cases List.mem_singleton.1 hm
      cases hr

theorem giveBackAll_trades (frames : List Address) :
    (giveBackAll frames).Trades ↑frames fun _ => 0 := by
  induction frames with
  | nil => exact .done rfl
  | cons frame rest ih =>
    have hfirst := (giveBack_trades frame).beside ↑rest
    rw [Multiset.singleton_add, Multiset.cons_coe] at hfirst
    apply Trades.bind hfirst
    intro _
    rw [zero_add]
    exact ih

end Frame

def framesMade {α : Type} (frames : α → List Address) : Except Failure α → Multiset Address
  | .ok value => ↑(frames value)
  | .error _ => 0

theorem framesMade_map {α β : Type} (frames : β → List Address) (f : α → β)
    (made : Except Failure α) :
    framesMade (fun value => frames (f value)) made = framesMade frames (made.map f) := by
  cases made <;> rfl

namespace Frame

theorem take_trades : take.Trades 0 (framesMade fun page => [page]) := by
  apply Trades.bind .takeFrame
  intro answer
  cases answer with
  | none => exact .done rfl
  | some frame =>
    by_cases hnull : frame = .null
    · simp only [if_pos hnull]
      exact .done (by simp [hnull, Option.filter, framesMade])
    · have hkept : (((some frame).filter (· ≠ .null)).toList : Multiset Address) = {frame} := by
        simp [hnull, Option.filter]
      simp only [if_neg hnull, hkept]
      refine .ite (.done rfl) ?_
      exact .bind (giveBack_trades frame) fun _ => .done rfl

theorem takeZeroed_trades : takeZeroed.Trades 0 (framesMade fun page => [page]) := by
  apply Trades.bind take_trades
  intro taken
  cases taken with
  | error failure => exact .done rfl
  | ok frame =>
    have hfill : (request (.fillPage frame 0)).Within [.page] := .request (by simp)
    exact .bind (.of_within hfill (by decide)) fun _ => .done rfl

end Frame

theorem ControlPages.allocate_trades : allocate.Trades 0 (framesMade frames) := by
  apply Trades.bind Frame.takeZeroed_trades
  intro first
  cases first with
  | error failure => exact .done rfl
  | ok vmcb =>
    have hsecond := Frame.takeZeroed_trades.beside {vmcb}
    rw [zero_add] at hsecond
    apply Trades.bind hsecond
    intro second
    cases second with
    | error failure =>
      simp only [framesMade, zero_add]
      exact .bind (Frame.giveBack_trades vmcb) fun _ => .done rfl
    | ok saveArea =>
      have hlog : (log (.pagesAllocated vmcb saveArea)).Within [.report] := .request (by simp)
      refine .bind (.of_within hlog (by decide)) fun _ => .done ?_
      exact Multiset.coe_eq_coe.2 (.swap _ _ _)

namespace Activator

theorem advance_trades (a : Activator) (next : Stage) (given : Multiset Address) :
    (a.advance next).Trades given fun _ => given :=
  .of_within (a.advance_within next) (by decide)

theorem enterGuest_trades (a : Activator) (efer : Register) (pages : ControlPages) :
    (a.enterGuest efer pages).Trades ↑pages.frames
      fun attempt => ↑(attempt.pages.elim [] ControlPages.frames) := by
  refine Trades.congr (.of_within (a.enterGuest_within efer pages) (by decide)) fun m => ?_
  rw [enterGuest_value]
  rfl

theorem supply_trades (a : Activator) :
    a.supply.Trades 0 fun supplied => ↑(supplied.2.toOption.elim [] ControlPages.frames) := by
  apply Trades.bind (a.advance_trades _ _)
  intro a
  apply Trades.bind (.of_within Switch.turnOn_within (by decide))
  intro efer
  apply Trades.bind (a.advance_trades _ _)
  intro _
  apply Trades.bind ControlPages.allocate_trades
  intro offered
  cases offered <;> exact .done rfl

theorem settle_trades (attempt : Attempt) :
    (settle attempt).Trades ↑(attempt.pages.elim [] ControlPages.frames) fun _ => 0 := by
  apply Trades.bind (advance_trades _ _ _)
  intro a
  have hclosing : (log (closing attempt.outcome)).Within [.report] :=
    .request (by cases attempt.outcome <;> simp [closing])
  apply Trades.bind (.of_within hclosing (by decide))
  intro _
  apply Trades.bind (advance_trades _ _ _)
  intro a
  apply Trades.bind (Frame.giveBackAll_trades _)
  intro _
  exact .bind (advance_trades _ _ _) fun a => .done rfl

/-- Whatever an activation takes, it hands back. -/
theorem run_trades (a : Activator) : a.run.Trades 0 fun _ => 0 := by
  have hinspect (a : Activator) : a.inspect.Trades 0 fun _ => 0 :=
    .of_within a.inspect_within (by decide)
  exact run_of_parts (fun given p left => p.Trades given left)
    (fun pages => ↑(pages.elim [] ControlPages.frames)) Trades.bind (fun _ => .done rfl) hinspect
    supply_trades enterGuest_trades settle_trades a

end Activator

theorem Loader.load_trades (l : Loader) : l.load.Trades 0 fun _ => 0 := by
  have hlog : (log .loaded).Within [.report] := .request (by simp)
  apply Trades.bind (.of_within hlog (by decide))
  intro _
  exact .bind (Activator.run_trades _) fun _ => .done rfl

namespace Object

theorem create_trades (kind : ObjectKind) : (create kind).Trades 0 (framesMade frames) := by
  cases kind with
  | frame =>
    refine .bind Frame.take_trades fun made => .done ?_
    exact framesMade_map frames (fun page => frame (some page)) made
  | zeroedFrame =>
    refine .bind Frame.takeZeroed_trades fun made => .done ?_
    exact framesMade_map frames (fun page => frame (some page)) made
  | vmcb =>
    refine .bind Frame.takeZeroed_trades fun made => .done ?_
    exact framesMade_map frames vmcb made
  | saveArea =>
    refine .bind Frame.takeZeroed_trades fun made => .done ?_
    exact framesMade_map frames saveArea made
  | pages =>
    refine .bind ControlPages.allocate_trades fun made => .done ?_
    exact framesMade_map frames (fun owned => pages (some owned)) made
  | placeholder | activator | loader => exact .done rfl

theorem useActivator_trades (a : Activator) (action : Action) :
    (useActivator a action).Trades 0 fun _ => 0 := by
  cases action with
  | run => exact .bind a.run_trades fun _ => .done rfl
  | _ => exact .done rfl

theorem useLoader_trades (l : Loader) (action : Action) :
    (useLoader l action).Trades 0 fun _ => 0 := by
  by_cases hact : (loader l).Activates action
  · obtain ⟨a, ha, _⟩ | ⟨l, hl, rfl⟩ := hact.cases
    · cases ha
    · cases hl
      exact .bind l.load_trades fun _ => .done rfl
  · exact .of_within (useLoader_within l hact) (by decide)

/-- An action leaves an object with the frames that it owned before, or hands them back. -/
theorem act_trades (o : Object) (action : Action) :
    (o.act action).Trades ↑o.frames fun answer => ↑answer.2.frames := by
  cases o with
  | frame owned =>
    have huse := useFrame_within owned action
    refine .ite ?_ ?_
    · exact .bind (Frame.giveBackAll_trades _) fun _ => .done rfl
    · exact .bind (.of_within huse (by decide)) fun _ => .done rfl
  | vmcb page =>
    have huse := useVmcb_within page action
    exact .bind (.of_within huse (by decide)) fun _ => .done rfl
  | saveArea page =>
    have huse := useSaveArea_within page action
    exact .bind (.of_within huse (by decide)) fun _ => .done rfl
  | pages owned =>
    have huse := usePages_within owned action
    refine .ite ?_ ?_
    · exact .bind (Frame.giveBackAll_trades _) fun _ => .done rfl
    · exact .bind (.of_within huse (by decide)) fun _ => .done rfl
  | activator a => exact .bind (useActivator_trades a action) fun _ => .done rfl
  | loader l => exact .bind (useLoader_trades l action) fun _ => .done rfl

end Object

namespace Objects

theorem frames_eq (objects : Objects) (h : Handle) :
    (objects.frames : Multiset Address) = ↑(objects.framesAt h) + ↑(objects.erase h).frames :=
  Multiset.coe_eq_coe.2 (objects.frames_perm h)

theorem frames_insert (objects : Objects) (h : Handle) (o : Object) :
    ((objects.insert h o).frames : Multiset Address) = ↑o.frames + ↑(objects.erase h).frames := by
  rw [frames_eq _ h, framesAt, find?_insert_self, erase_insert]
  rfl

theorem frames_of_find? {objects : Objects} {h : Handle} {o : Object}
    (hfind : objects.find? h = some o) :
    (objects.frames : Multiset Address) = ↑o.frames + ↑(objects.erase h).frames := by
  rw [frames_eq objects h, framesAt, hfind]
  rfl

theorem create_trades (objects : Objects) (h : Handle) (kind : ObjectKind) :
    (objects.create h kind).Trades ↑objects.frames fun answer => ↑answer.2.frames := by
  have hmade := (Object.create_trades kind).beside ↑objects.frames
  rw [zero_add] at hmade
  apply Trades.bind hmade
  intro made
  cases made with
  | error failure => exact .done (zero_add _)
  | ok o =>
    have hback := (Frame.giveBackAll_trades (objects.framesAt h)).beside
      ↑(objects.insert h o).frames
    have hgiven : framesMade Object.frames (.ok o) + ↑objects.frames =
        ↑(objects.framesAt h) + ↑(objects.insert h o).frames := by
      rw [frames_insert, frames_eq objects h, framesMade]
      abel
    rw [hgiven]
    exact .bind hback fun _ => .done (zero_add _)

theorem drop_trades (objects : Objects) (h : Handle) :
    (objects.drop h).Trades ↑objects.frames fun answer => ↑answer.2.frames := by
  rw [drop]
  cases hfind : objects.find? h with
  | none => exact .done rfl
  | some o =>
    have hback := (Frame.giveBackAll_trades o.frames).beside ↑(objects.erase h).frames
    rw [frames_of_find? hfind]
    exact .bind hback fun _ => .done (zero_add _)

theorem act_trades (objects : Objects) (h : Handle) (action : Action) :
    (objects.act h action).Trades ↑objects.frames fun answer => ↑answer.2.frames := by
  cases hfind : objects.find? h with
  | none =>
    rw [act_none hfind]
    exact .done rfl
  | some o =>
    have huse := (o.act_trades action).beside ↑(objects.erase h).frames
    rw [act_some hfind, frames_of_find? hfind]
    exact .bind huse fun answer => .done (frames_insert objects h answer.2).symm

theorem perform_trades (objects : Objects) (operation : Operation) :
    (objects.perform operation).Trades ↑objects.frames fun answer => ↑answer.2.frames := by
  cases operation with
  | core command => exact .bind (.of_within command.program_within (by decide)) fun _ => .done rfl
  | create h kind => exact objects.create_trades h kind
  | drop h => exact objects.drop_trades h
  | act h action => exact objects.act_trades h action

end Objects

end SvmActivation
