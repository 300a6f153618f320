import SvmActivation.Proofs.ActivationDecision
import SvmActivation.Proofs.GuestEntry

namespace SvmActivation

open Program

theorem PageBytes.fill_fill (bytes : PageBytes) (b c : Byte) :
    (bytes.fill b).fill c = bytes.fill c := by
  funext i
  simp only [fill]
  split <;> rfl

namespace Memory

variable (m : Memory) {page other : Address} {pages : List Address}
  (change : PageBytes → PageBytes)

theorem touched_update_self : (m.update page change).touched page = some (change (m.bytes page)) :=
  if_pos rfl

theorem touched_update_of_ne (h : other ≠ page) :
    (m.update page change).touched other = m.touched other :=
  if_neg h

def zeroAll (m : Memory) (pages : List Address) : Memory :=
  pages.foldl (fun m page => m.update page (·.fill 0)) m

theorem zeroAll_append (later : List Address) :
    m.zeroAll (pages ++ later) = (m.zeroAll pages).zeroAll later :=
  List.foldl_append

theorem touched_zeroAll_of_not_mem (h : page ∉ pages) :
    (m.zeroAll pages).touched page = m.touched page := by
  induction pages generalizing m with
  | nil => rfl
  | cons first rest ih =>
    rw [List.mem_cons, not_or] at h
    exact (ih _ h.2).trans (m.touched_update_of_ne _ h.1)

theorem touched_zeroAll (h : page ∈ pages) :
    (m.zeroAll pages).touched page = some ((m.bytes page).fill 0) := by
  induction pages generalizing m with
  | nil => cases h
  | cons first rest ih =>
    have hrest : m.zeroAll (first :: rest) = (m.update first (·.fill 0)).zeroAll rest := rfl
    rw [hrest]
    by_cases hmem : page ∈ rest
    · rw [ih _ hmem]
      by_cases heq : page = first
      · rw [heq, bytes_update_self, PageBytes.fill_fill]
      · rw [m.bytes_update_of_ne _ heq]
    · rw [touched_zeroAll_of_not_mem _ hmem]
      cases (List.mem_cons.1 h).resolve_right hmem
      exact m.touched_update_self _

end Memory

def usable (frames : List Address) : List Address :=
  frames.filter fun frame => frame ≠ .null ∧ frame.IsAligned

theorem usable_append (earlier later : List Address) :
    usable (earlier ++ later) = usable earlier ++ usable later :=
  List.filter_append ..

theorem mem_usable {frames : List Address} {frame : Address} :
    frame ∈ usable frames ↔ frame ∈ frames ∧ frame ≠ .null ∧ frame.IsAligned := by
  rw [usable, List.mem_filter, decide_eq_true_iff]

theorem Frame.usable_toList (answer : Option Address) :
    usable answer.toList =
      match judge answer with
      | .ok frame => [frame]
      | .error _ => [] := by
  cases answer with
  | none => rfl
  | some frame =>
    by_cases hnull : frame = .null
    · simp [usable, judge, hnull]
    · by_cases haligned : frame.IsAligned
      · simp [usable, judge, hnull, haligned]
      · simp [usable, judge, hnull, haligned]

/-- A program zeroes all pages that it is handed out, and writes nothing else. -/
def Program.ZeroesTaken {α : Type} (p : Program α) : Prop :=
  ∀ m, (p.run m).machine.memory = m.memory.zeroAll (usable (handedOut (p.run m).timeline))

namespace Program.ZeroesTaken

variable {α β : Type} {p : Program α}

theorem bind {f : α → Program β} (hp : p.ZeroesTaken) (hf : ∀ value, (f value).ZeroesTaken) :
    (p >>= f).ZeroesTaken := by
  intro m
  rw [run_bind_machine, run_bind_timeline, hf, hp, handedOut_append, usable_append,
    Memory.zeroAll_append]

theorem done (value : α) : (Program.done value).ZeroesTaken :=
  fun _ => rfl

theorem of_within {effects : List Request.Effect} (hp : p.Within effects)
    (h : .guest ∉ effects ∧ .page ∉ effects ∧ .frame ∉ effects) : p.ZeroesTaken := by
  intro m
  rw [hp.memory_eq ⟨h.1, h.2.1⟩, hp.handedOut_eq_nil h.2.2]
  rfl

end Program.ZeroesTaken

namespace Frame

theorem giveBack_zeroes (frame : Address) : (giveBack frame).ZeroesTaken :=
  fun _ => rfl

theorem giveBackAll_zeroes (frames : List Address) : (giveBackAll frames).ZeroesTaken := by
  induction frames with
  | nil => exact .done ()
  | cons frame rest ih => exact .bind (giveBack_zeroes frame) fun _ => ih

theorem takeZeroed_zeroes : takeZeroed.ZeroesTaken := by
  intro m
  have hout : handedOut (takeZeroed.run m).timeline = m.allocator.answer.toList := by
    rw [handedOut_eq, takeZeroed_deeds, take_deeds]
    cases m.allocator.answer with
    | none => rfl
    | some frame =>
      cases judge (some frame) with
      | ok taken => rfl
      | error failure => cases failure <;> rfl
  rw [hout, usable_toList, takeZeroed_machine]
  cases judge m.allocator.answer with
  | ok frame => rfl
  | error failure => cases failure <;> rfl

end Frame

theorem ControlPages.allocate_zeroes : allocate.ZeroesTaken := by
  apply ZeroesTaken.bind Frame.takeZeroed_zeroes
  intro first
  cases first with
  | error failure => exact .done _
  | ok vmcb =>
    apply ZeroesTaken.bind Frame.takeZeroed_zeroes
    intro second
    cases second with
    | error failure => exact .bind (Frame.giveBack_zeroes vmcb) fun _ => .done _
    | ok saveArea =>
      have hlog : (log (.pagesAllocated vmcb saveArea)).Within [.report] := .request (by simp)
      exact .bind (.of_within hlog (by decide)) fun _ => .done _

theorem Object.create_zeroes {kind : ObjectKind} (h : kind ≠ .frame) :
    (create kind).ZeroesTaken := by
  cases kind with
  | frame => exact absurd rfl h
  | zeroedFrame | vmcb | saveArea => exact .bind Frame.takeZeroed_zeroes fun _ => .done _
  | pages => exact .bind ControlPages.allocate_zeroes fun _ => .done _
  | placeholder | activator | loader => exact .done _

theorem Objects.create_zeroes (objects : Objects) (h : Handle) {kind : ObjectKind}
    (hkind : kind ≠ .frame) : (objects.create h kind).ZeroesTaken := by
  apply ZeroesTaken.bind (Object.create_zeroes hkind)
  intro made
  cases made with
  | error failure => exact .done _
  | ok o => exact .bind (Frame.giveBackAll_zeroes _) fun _ => .done _

namespace Activator

variable (a : Activator) (m : Machine)

theorem supply_zeroes : a.supply.ZeroesTaken := by
  apply ZeroesTaken.bind (.of_within (a.advance_within _) (by decide))
  intro a
  apply ZeroesTaken.bind (.of_within Switch.turnOn_within (by decide))
  intro efer
  apply ZeroesTaken.bind (.of_within (a.advance_within _) (by decide))
  intro _
  exact .bind ControlPages.allocate_zeroes fun _ => .done _

theorem settle_handedOut (attempt : Attempt) :
    handedOut ((settle attempt).run m).timeline = [] := by
  rw [handedOut_eq, settle_deeds]
  simp [Event.handedOut?]

theorem enterGuest_handedOut (efer : Register) (pages : ControlPages) :
    handedOut ((a.enterGuest efer pages).run m).timeline = [] := by
  rw [handedOut_eq, enterGuest_deeds]
  rfl

/-- An activation zeroes the pages that it takes, and after that only the guest writes. -/
theorem run_memory :
    (a.run.run m).machine.memory =
      let zeroed := m.memory.zeroAll (usable (handedOut (a.run.run m).timeline))
      match m.course with
      | .entered pages => zeroed.update pages.vmcb (·.storeWords m.nextGuest.stores)
      | _ => zeroed := by
  have hinspect := a.inspect_within.handedOut_eq_nil (by decide) m
  have hzeroes := supply_zeroes ⟨.capability, a.turnedOn⟩ m
  rw [run_eq, run_bind_machine, run_bind_timeline, (settle_within _).memory_eq (by decide),
    handedOut_append, settle_handedOut, List.append_nil, attempt_run]
  cases hcourse : m.course with
  | refused failure =>
    simp only [hinspect]
    rfl
  | unsupplied failure =>
    simp only [preparation, handedOut_append, hinspect, List.nil_append]
    exact hzeroes
  | entered pages =>
    rw [supply_machine_of_ok _ (Machine.pagesOffered_of_entered hcourse)] at hzeroes
    simp only [Execution.behind_machine, Execution.behind_timeline, handedOut_append, preparation,
      hinspect, List.nil_append, enterGuest_memory, enterGuest_handedOut, List.append_nil,
      ← hzeroes]
    rfl

theorem run_handedOut_of_entered {pages : ControlPages} (h : m.course = .entered pages) :
    handedOut (a.run.run m).timeline = pages.frames := by
  have hoffered := Machine.pagesOffered_of_entered h
  rw [handedOut_eq, run_deeds, attemptDeeds, h, supplyDeeds_of_offered hoffered]
  rfl

end Activator

end SvmActivation
