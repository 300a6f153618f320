import SvmActivation.Program.Run

namespace SvmActivation

namespace Execution

variable {α : Type} (e : Execution α) (earlier : List Moment)

@[simp]
theorem behind_value : (e.behind earlier).value = e.value := rfl

@[simp]
theorem behind_machine : (e.behind earlier).machine = e.machine := rfl

@[simp]
theorem behind_timeline : (e.behind earlier).timeline = earlier ++ e.timeline := rfl

end Execution

namespace Program

variable {α β : Type}

@[simp]
theorem run_log (message : Log.Message) (m : Machine) :
    (log message).run m = ⟨(), m, [⟨m, .log message⟩]⟩ := rfl

theorem run_ite (c : Prop) [Decidable c] (p q : Program α) (m : Machine) :
    (if c then p else q).run m = if c then p.run m else q.run m := by
  split <;> rfl

theorem run_when (condition : Bool) (p : Program Unit) (m : Machine) :
    (when condition p).run m = if condition then p.run m else ⟨(), m, []⟩ := by
  cases condition <;> rfl

section Bind

variable (p : Program α) (f : α → Program β) (m : Machine)

@[simp]
theorem run_bind_value :
    ((p >>= f).run m).value = ((f (p.run m).value).run (p.run m).machine).value := by
  rw [run_bind]
  rfl

@[simp]
theorem run_bind_machine :
    ((p >>= f).run m).machine = ((f (p.run m).value).run (p.run m).machine).machine := by
  rw [run_bind]
  rfl

@[simp]
theorem run_bind_timeline :
    ((p >>= f).run m).timeline =
      (p.run m).timeline ++ ((f (p.run m).value).run (p.run m).machine).timeline := by
  rw [run_bind]
  rfl

theorem run_bind_events :
    ((p >>= f).run m).events =
      (p.run m).events ++ ((f (p.run m).value).run (p.run m).machine).events := by
  rw [Execution.events, run_bind_timeline, List.flatMap_append]
  rfl

end Bind

/-- Everything a program can ask, whatever the answers are, is allowed. -/
def Asks (allowed : Request → Prop) : Program α → Prop
  | done _ => True
  | ask r next => allowed r ∧ ∀ answer, (next answer).Asks allowed

namespace Asks

variable {allowed : Request → Prop} {p : Program α}

theorem request {r : Request} (h : allowed r) : (Program.request r).Asks allowed :=
  ⟨h, fun _ => trivial⟩

theorem bind {f : α → Program β} (hp : p.Asks allowed) (hf : ∀ value, (f value).Asks allowed) :
    (p >>= f).Asks allowed := by
  induction p with
  | done value => exact hf value
  | ask r next ih => exact ⟨hp.1, fun answer => ih answer (hp.2 answer)⟩

theorem ite {q : Program α} {c : Prop} [Decidable c] (hp : p.Asks allowed)
    (hq : q.Asks allowed) : (if c then p else q).Asks allowed := by
  split
  · exact hp
  · exact hq

theorem when {p : Program Unit} (condition : Bool) (hp : p.Asks allowed) :
    (Program.when condition p).Asks allowed :=
  hp.ite trivial

theorem mono {wider : Request → Prop} (hp : p.Asks allowed) (h : ∀ r, allowed r → wider r) :
    p.Asks wider := by
  induction p with
  | done value => trivial
  | ask r next ih => exact ⟨h r hp.1, fun answer => ih answer (hp.2 answer)⟩

theorem timeline (hp : p.Asks allowed) {m : Machine} {moment : Moment}
    (hm : moment ∈ (p.run m).timeline) : allowed moment.request := by
  induction p generalizing m with
  | done value => simp at hm
  | ask r next ih =>
    rcases List.mem_cons.1 hm with rfl | hm
    · exact hp.1
    · exact ih _ (hp.2 _) hm

theorem keeps {γ : Type} (part : Machine → γ) (hp : p.Asks allowed)
    (hpart : ∀ m r, allowed r → part (m.serve r).2 = part m) (m : Machine) :
    part (p.run m).machine = part m := by
  induction p generalizing m with
  | done value => rfl
  | ask r next ih => exact (ih _ (hp.2 _) _).trans (hpart m r hp.1)

end Asks

end Program

end SvmActivation
