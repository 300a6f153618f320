import SvmActivation.Proofs.Effects

namespace SvmActivation

def Moment.stageChange? (moment : Moment) : Option (Stage × Stage) :=
  match moment.request with
  | .log (.stageChange old new) => some (old, new)
  | _ => none

def stageChanges (timeline : List Moment) : List (Stage × Stage) :=
  timeline.filterMap Moment.stageChange?

@[simp]
theorem stageChanges_nil : stageChanges [] = [] := rfl

@[simp]
theorem stageChanges_append (earlier later : List Moment) :
    stageChanges (earlier ++ later) = stageChanges earlier ++ stageChanges later :=
  List.filterMap_append

theorem Moment.stageChange?_eq_none {moment : Moment} (h : moment.request.effect ≠ .stage) :
    moment.stageChange? = none := by
  obtain ⟨m, r⟩ := moment
  cases r with
  | log message =>
    cases message with
    | stageChange => exact absurd rfl h
    | _ => rfl
  | _ => rfl

theorem Program.Within.stageChanges_eq_nil {α : Type} {effects : List Request.Effect}
    {p : Program α} (hp : p.Within effects) (h : .stage ∉ effects) (m : Machine) :
    stageChanges (p.run m).timeline = [] := by
  apply List.filterMap_eq_nil_iff.2
  intro moment hm
  exact Moment.stageChange?_eq_none (hp.effect_ne h hm)

/-- The moments of a timeline at which a register is written or a guest entered. -/
def actions (timeline : List Moment) : List Moment :=
  timeline.filter fun moment => moment.request.effect ∈ [.register, .guest]

@[simp]
theorem actions_append (earlier later : List Moment) :
    actions (earlier ++ later) = actions earlier ++ actions later :=
  List.filter_append ..

theorem mem_actions {timeline : List Moment} {moment : Moment} :
    moment ∈ actions timeline ↔
      moment ∈ timeline ∧ moment.request.effect ∈ [.register, .guest] := by
  rw [actions, List.mem_filter, decide_eq_true_iff]

theorem Program.Within.actions_eq_nil {α : Type} {effects : List Request.Effect}
    {p : Program α} (hp : p.Within effects) (h : .register ∉ effects ∧ .guest ∉ effects)
    (m : Machine) : actions (p.run m).timeline = [] := by
  refine List.filter_eq_nil_iff.2 fun moment hm ha => ?_
  simp only [List.mem_cons, List.not_mem_nil, or_false, decide_eq_true_eq] at ha
  rcases ha with he | he
  · exact hp.effect_ne h.1 hm he
  · exact hp.effect_ne h.2 hm he

def Moment.handedOut? (moment : Moment) : Option Address :=
  match moment.request with
  | .takeFrame => moment.machine.allocator.answer
  | _ => none

def handedOut (timeline : List Moment) : List Address :=
  timeline.filterMap Moment.handedOut?

@[simp]
theorem handedOut_nil : handedOut [] = [] := rfl

@[simp]
theorem handedOut_append (earlier later : List Moment) :
    handedOut (earlier ++ later) = handedOut earlier ++ handedOut later :=
  List.filterMap_append

theorem Moment.handedOut?_eq_none {moment : Moment} (h : moment.request.effect ≠ .frame) :
    moment.handedOut? = none := by
  obtain ⟨m, r⟩ := moment
  cases r with
  | takeFrame => exact absurd rfl h
  | _ => rfl

theorem Program.Within.handedOut_eq_nil {α : Type} {effects : List Request.Effect}
    {p : Program α} (hp : p.Within effects) (h : .frame ∉ effects) (m : Machine) :
    handedOut (p.run m).timeline = [] := by
  apply List.filterMap_eq_nil_iff.2
  intro moment hm
  exact Moment.handedOut?_eq_none (hp.effect_ne h hm)

def Moment.ReturnsLive (moment : Moment) : Prop :=
  ∀ frame, moment.request = .giveBack frame → frame ∈ moment.machine.allocator.live

/-- What is demanded of each moment of a timeline, by what comes before and after it. -/
structure Policy (concerns : List Request.Effect) where
  Allows (before : List Moment) (x : Moment) (after : List Moment) : Prop
  ignores {before after : List Moment} {x : Moment} (h : x.request.effect ∉ concerns) :
    Allows before x after
  extend {before after : List Moment} {x : Moment} (h : Allows before x after)
    (later : List Moment) : Allows before x (after ++ later)

namespace Policy

variable {concerns : List Request.Effect}

/-- A timeline that follows some history meets all demands. -/
def Kept (policy : Policy concerns) (history timeline : List Moment) : Prop :=
  ∀ before x after, timeline = before ++ x :: after → policy.Allows (history ++ before) x after

def Ignores (policy : Policy concerns) (r : Request) : Prop :=
  ∀ before m after, policy.Allows before ⟨m, r⟩ after

namespace Kept

variable {policy : Policy concerns} {history earlier later timeline : List Moment} {x : Moment}
  {α β : Type} {p : Program α} {m : Machine}

theorem of_forall (h : ∀ x ∈ timeline, ∀ before after, policy.Allows before x after) :
    policy.Kept history timeline := by
  rintro before x after rfl
  exact h x (List.mem_append_right _ List.mem_cons_self) _ _

theorem of_quiet (h : ∀ x ∈ timeline, x.request.effect ∉ concerns) :
    policy.Kept history timeline :=
  of_forall fun x hx _ _ => policy.ignores (h x hx)

theorem nil : policy.Kept history [] :=
  of_quiet fun _ hx => absurd hx List.not_mem_nil

theorem cons (hx : policy.Allows history x later) (h : policy.Kept (history ++ [x]) later) :
    policy.Kept history (x :: later) := by
  intro before y after heq
  cases before with
  | nil =>
    cases heq
    rw [List.append_nil]
    exact hx
  | cons z before =>
    cases heq
    rw [List.append_cons]
    exact h before y after rfl

theorem cons_quiet (hx : x.request.effect ∉ concerns)
    (h : policy.Kept (history ++ [x]) later) : policy.Kept history (x :: later) :=
  cons (policy.ignores hx) h

theorem head (h : policy.Kept history (x :: later)) : policy.Allows history x later := by
  have hfirst := h [] x later rfl
  rw [List.append_nil] at hfirst
  exact hfirst

theorem tail (h : policy.Kept history (x :: later)) : policy.Kept (history ++ [x]) later := by
  intro before y after heq
  rw [← List.append_cons]
  exact h (x :: before) y after (congrArg (x :: ·) heq)

theorem append (h : policy.Kept history earlier) (h' : policy.Kept (history ++ earlier) later) :
    policy.Kept history (earlier ++ later) := by
  induction earlier generalizing history with
  | nil =>
    rw [List.append_nil] at h'
    exact h'
  | cons x rest ih =>
    apply cons (policy.extend h.head later)
    apply ih h.tail
    rw [← List.append_cons]
    exact h'

theorem bind {f : α → Program β} (hp : policy.Kept history (p.run m).timeline)
    (hf : policy.Kept (history ++ (p.run m).timeline)
      ((f (p.run m).value).run (p.run m).machine).timeline) :
    policy.Kept history ((p >>= f).run m).timeline := by
  rw [Program.run_bind_timeline]
  exact hp.append hf

theorem of_asks (hp : p.Asks policy.Ignores) (m : Machine) :
    policy.Kept history (p.run m).timeline :=
  of_forall fun x hx before after => hp.timeline hx before x.machine after

theorem of_within {effects : List Request.Effect} (hp : p.Within effects)
    (h : ∀ effect ∈ effects, effect ∉ concerns) (m : Machine) :
    policy.Kept history (p.run m).timeline :=
  of_quiet fun _ hx => h _ (hp.timeline hx)

end Kept

/-- The pages that are used in some way may be used on the machine of that moment. -/
def ofPages (page? : Moment → Option Address)
    (hnone : ∀ x : Moment, x.request.effect ∉ concerns → page? x = none)
    (allowed : Machine → Address → Prop) : Policy concerns where
  Allows _ x _ := ∀ page, page? x = some page → allowed x.machine page
  ignores hx page hpage := by
    rw [hnone _ hx] at hpage
    cases hpage
  extend h _ := h

theorem Kept.page {page? : Moment → Option Address}
    {hnone : ∀ x : Moment, x.request.effect ∉ concerns → page? x = none}
    {allowed : Machine → Address → Prop} {history timeline : List Moment}
    (h : (ofPages page? hnone allowed).Kept history timeline) {x : Moment} (hx : x ∈ timeline)
    {page : Address} (hpage : page? x = some page) : allowed x.machine page := by
  obtain ⟨before, after, rfl⟩ := List.append_of_mem hx
  exact h before x after rfl page hpage

end Policy

end SvmActivation
