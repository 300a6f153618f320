import SvmActivation.Proofs.Effects

namespace SvmActivation

namespace Memory

variable (m : Memory) {page other : Address} (change : PageBytes → PageBytes)

@[simp]
theorem bytes_update_self : (m.update page change).bytes page = change (m.bytes page) := by
  simp [bytes, update, put]

theorem bytes_update_of_ne (h : other ≠ page) :
    (m.update page change).bytes other = m.bytes other := by
  simp [bytes, update, put, h]

@[simp]
theorem bytes_touch : (m.touch page).bytes other = m.bytes other := by
  by_cases h : other = page
  · simp [bytes, touch, put, h]
  · simp [bytes, touch, put, h]

def IsZero (page : Address) : Prop :=
  ∀ i < pageSize, m.bytes page i = 0

theorem isZero_fill (page : Address) : (m.update page (·.fill 0)).IsZero page := by
  intro i hi
  simp [PageBytes.fill, hi]

theorem IsZero.fill {m : Memory} (h : m.IsZero other) (page : Address) :
    (m.update page (·.fill 0)).IsZero other := by
  by_cases he : other = page
  · rw [he]
    exact m.isZero_fill page
  · intro i hi
    rw [m.bytes_update_of_ne _ he]
    exact h i hi

end Memory

namespace Frame

def judge : Option Address → Except Failure Address
  | none => .error .noFrame
  | some frame =>
    if frame = .null then .error .noFrame
    else if frame.IsAligned then .ok frame
    else .error (.misaligned frame)

theorem judge_eq_ok {answer : Option Address} {frame : Address} (h : judge answer = .ok frame) :
    answer = some frame ∧ frame ≠ .null ∧ frame.IsAligned := by
  cases answer with
  | none => cases h
  | some other =>
    simp only [judge] at h
    split at h
    · cases h
    · rename_i hnull
      split at h
      · rename_i haligned
        cases h
        exact ⟨rfl, hnull, haligned⟩
      · cases h

end Frame

namespace Machine

def afterRequest (m : Machine) : Machine :=
  { m with allocator := m.allocator.afterRequest }

def giveBack (m : Machine) (frame : Address) : Machine :=
  { m with allocator := m.allocator.giveBack frame }

def zero (m : Machine) (page : Address) : Machine :=
  { m with memory := m.memory.update page (·.fill 0) }

@[simp]
theorem zero_allocator (m : Machine) (page : Address) : (m.zero page).allocator = m.allocator := rfl

end Machine

namespace Frame

open Program

@[simp]
theorem giveBack_machine (frame : Address) (m : Machine) :
    ((giveBack frame).run m).machine = m.giveBack frame := rfl

@[simp]
theorem giveBackAll_machine (frames : List Address) (m : Machine) :
    ((giveBackAll frames).run m).machine = frames.foldl Machine.giveBack m := by
  induction frames generalizing m with
  | nil => rfl
  | cons frame rest ih => simp [giveBackAll, ih]

@[simp]
theorem take_value (m : Machine) : (take.run m).value = judge m.allocator.answer := by
  simp only [take, request, ask_bind, done_bind, run_ask, Execution.behind_value,
    Machine.serve]
  cases m.allocator.answer with
  | none => rfl
  | some frame =>
    simp only [judge, run_ite, apply_ite Execution.value, run_bind_value]
    rfl

theorem take_machine (m : Machine) :
    (take.run m).machine =
      match judge m.allocator.answer with
      | .error (.misaligned frame) => m.afterRequest.giveBack frame
      | _ => m.afterRequest := by
  simp only [take, request, ask_bind, done_bind, run_ask, Execution.behind_machine,
    Machine.serve]
  cases m.allocator.answer with
  | none => rfl
  | some frame =>
    simp only [judge, run_ite, apply_ite Execution.machine, run_bind_machine]
    split
    · rfl
    · split <;> rfl

@[simp]
theorem takeZeroed_value (m : Machine) : (takeZeroed.run m).value = judge m.allocator.answer := by
  rw [takeZeroed, run_bind_value, take_value]
  cases judge m.allocator.answer <;> rfl

theorem takeZeroed_machine (m : Machine) :
    (takeZeroed.run m).machine =
      match judge m.allocator.answer with
      | .ok frame => m.afterRequest.zero frame
      | .error (.misaligned frame) => m.afterRequest.giveBack frame
      | .error _ => m.afterRequest := by
  rw [takeZeroed, run_bind_machine, take_value, take_machine]
  cases judge m.allocator.answer with
  | ok frame => rfl
  | error failure => cases failure <;> rfl

end Frame

namespace ControlPages

open Program

def judge (first second : Option Address) : Except Failure ControlPages :=
  match Frame.judge first, Frame.judge second with
  | .ok vmcb, .ok saveArea => .ok { vmcb, saveArea }
  | .ok _, .error failure => .error failure
  | .error failure, _ => .error failure

theorem judge_eq_ok {first second : Option Address} {pages : ControlPages}
    (h : judge first second = .ok pages) :
    Frame.judge first = .ok pages.vmcb ∧ Frame.judge second = .ok pages.saveArea := by
  simp only [judge] at h
  split at h
  · rename_i vmcb saveArea h₁ h₂
    cases h
    exact ⟨h₁, h₂⟩
  · cases h
  · cases h

@[simp]
theorem allocate_value (m : Machine) :
    (allocate.run m).value = judge m.allocator.answer m.afterRequest.allocator.answer := by
  rw [allocate, run_bind_value, Frame.takeZeroed_value, Frame.takeZeroed_machine, judge]
  cases Frame.judge m.allocator.answer with
  | error failure => rfl
  | ok vmcb =>
    simp only [run_bind_value, Frame.takeZeroed_value, Machine.zero_allocator]
    cases Frame.judge m.afterRequest.allocator.answer <;> rfl

theorem allocate_machine_of_ok {m : Machine} {pages : ControlPages}
    (h : judge m.allocator.answer m.afterRequest.allocator.answer = .ok pages) :
    (allocate.run m).machine =
      (m.afterRequest.zero pages.vmcb).afterRequest.zero pages.saveArea := by
  obtain ⟨hfirst, hsecond⟩ := judge_eq_ok h
  have hzero : (Frame.takeZeroed.run m).machine = m.afterRequest.zero pages.vmcb := by
    rw [Frame.takeZeroed_machine, hfirst]
  rw [allocate, run_bind_machine, Frame.takeZeroed_value, hfirst, hzero]
  simp only [run_bind_machine, Frame.takeZeroed_value, Frame.takeZeroed_machine,
    Machine.zero_allocator, hsecond]
  rfl

end ControlPages

/-- What is asked on the way to pages and back. -/
def Request.Supplies : Request → Prop
  | takeFrame | giveBack _ | fillPage .. | log (.frameReturned _) | log (.pagesAllocated ..) => True
  | _ => False

namespace Frame

theorem giveBack_supplies (frame : Address) : (giveBack frame).Asks Request.Supplies :=
  .bind (.request trivial) fun _ => .request trivial

theorem giveBackAll_supplies (frames : List Address) :
    (giveBackAll frames).Asks Request.Supplies := by
  induction frames with
  | nil => trivial
  | cons frame rest ih => exact .bind (giveBack_supplies frame) fun _ => ih

theorem takeZeroed_supplies : takeZeroed.Asks Request.Supplies := by
  have htake : take.Asks Request.Supplies := by
    refine .bind (.request trivial) fun answer => ?_
    cases answer with
    | none => trivial
    | some frame =>
      exact .ite trivial (.ite trivial (.bind (giveBack_supplies frame) fun _ => trivial))
  refine .bind htake fun taken => ?_
  cases taken with
  | error failure => trivial
  | ok frame => exact .bind (.request trivial) fun _ => trivial

end Frame

theorem ControlPages.allocate_supplies : allocate.Asks Request.Supplies := by
  refine .bind Frame.takeZeroed_supplies fun first => ?_
  cases first with
  | error failure => trivial
  | ok vmcb =>
    refine .bind Frame.takeZeroed_supplies fun second => ?_
    cases second with
    | error failure => exact .bind (Frame.giveBack_supplies vmcb) fun _ => trivial
    | ok saveArea => exact .bind (.request trivial) fun _ => trivial

end SvmActivation
