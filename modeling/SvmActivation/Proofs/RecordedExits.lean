import SvmActivation.Proofs.ActivationDecision
import SvmActivation.Proofs.DistinctFrames
import SvmActivation.Proofs.PageOverlay

namespace SvmActivation

open Program

def GuestExit.page (guest : GuestExit) : PageBytes :=
  PageBytes.overlaid (fun _ => 0) (guest.stores.map fun store => .word store.1 store.2)

theorem Machine.serve_threshold (m : Machine) (r : Request) :
    (m.serve r).2.threshold = m.threshold := by
  cases r <;> rfl

theorem Moment.message_mem_events (moment : Moment) {message : Log.Message}
    (h : ∀ protectedMode ring, message ≠ .processorMode protectedMode ring) :
    .message message ∈ moment.events ↔
      moment.machine.threshold.admits message.level = true ∧ moment.request = .log message := by
  obtain ⟨m, r⟩ := moment
  cases r with
  | log other =>
    rw [events, Machine.events, Machine.report]
    split
    · rename_i hadmits
      rw [List.nil_append, List.mem_singleton, Event.message.injEq, Request.log.injEq]
      constructor
      · rintro rfl
        exact ⟨hadmits, rfl⟩
      · rintro ⟨-, heq⟩
        exact heq.symm
    · rename_i hadmits
      constructor
      · intro hm
        cases hm
      · rintro ⟨hadmits', heq⟩
        cases heq
        exact absurd hadmits' hadmits
  | logMode protectedMode =>
    have hother :
        .message message ∉ m.report [.readRing] (.processorMode protectedMode m.core.ring) := by
      intro hm
      rw [Machine.report] at hm
      split at hm
      · simp only [List.singleton_append, List.mem_cons, List.not_mem_nil, or_false, reduceCtorEq,
          false_or, Event.message.injEq] at hm
        exact h _ _ hm
      · cases hm
    constructor
    · intro hm
      exact absurd hm hother
    · rintro ⟨-, heq⟩
      cases heq
  | _ =>
    simp [events, Machine.events]

theorem Program.message_mem_events {α : Type} (p : Program α) (m : Machine)
    {message : Log.Message} (h : ∀ protectedMode ring, message ≠ .processorMode protectedMode ring) :
    .message message ∈ (p.run m).events ↔
      m.threshold.admits message.level = true ∧ .log message ∈ (p.run m).requests := by
  induction p generalizing m with
  | done value => simp [Execution.events, Execution.requests]
  | ask r next ih =>
    have hfirst := (⟨m, r⟩ : Moment).message_mem_events h
    have hrest := ih (m.serve r).1 (m.serve r).2
    rw [m.serve_threshold] at hrest
    rw [Execution.events, Execution.requests] at hrest ⊢
    rw [run_ask, Execution.behind_timeline, List.flatMap_append, List.map_append,
      List.flatMap_singleton, List.mem_append, List.mem_append, hfirst, hrest, List.map_singleton,
      List.mem_singleton, ← and_or_left]
    exact ⟨fun hm => ⟨hm.1, hm.2.imp_left Eq.symm⟩, fun hm => ⟨hm.1, hm.2.imp_left Eq.symm⟩⟩

def Request.IsRejection : Request → Prop
  | log .entryRejected => True
  | _ => False

theorem Request.IsRejection.eq {r : Request} (h : r.IsRejection) : r = .log .entryRejected := by
  cases r with
  | log message =>
    cases message with
    | entryRejected => rfl
    | _ => cases h
  | _ => cases h

def Program.NeverRejects {α : Type} (p : Program α) : Prop :=
  p.Asks fun r => ¬ r.IsRejection

namespace Program.NeverRejects

variable {α : Type} {p : Program α}

theorem of_within {effects : List Request.Effect} (hp : p.Within effects)
    (h : .report ∉ effects) : p.NeverRejects := by
  apply Asks.mono hp
  intro r hr hrejection
  obtain rfl := hrejection.eq
  exact h hr

theorem not_mem (hp : p.NeverRejects) (m : Machine) :
    .log .entryRejected ∉ (p.run m).requests := by
  intro hm
  obtain ⟨moment, hmoment, hr⟩ := List.mem_map.1 hm
  apply hp.timeline hmoment
  rw [hr]
  trivial

end Program.NeverRejects

theorem Execution.requests_bind {α β : Type} (p : Program α) (f : α → Program β) (m : Machine) :
    ((p >>= f).run m).requests =
      (p.run m).requests ++ ((f (p.run m).value).run (p.run m).machine).requests := by
  rw [requests, run_bind_timeline, List.map_append]
  rfl

namespace Capability

theorem hasRegisterAccess_neverRejects : hasRegisterAccess.NeverRejects :=
  .bind (.request id) fun _ => .bind (.request id) fun _ => trivial

theorem lockKind_neverRejects : lockKind.NeverRejects := by
  refine .bind (.request id) fun words => .bind (.request id) fun _ => .ite ?_ ?_
  · exact .bind (.request id) fun _ => trivial
  · exact .bind (.request id) fun _ => trivial

theorem probe_neverRejects : probe.NeverRejects := by
  have hidentification : identification.NeverRejects :=
    .of_within identification_within (by decide)
  refine .bind (.request id) fun words => .bind (.request id) fun _ => .ite ?_ trivial
  refine .bind (.request id) fun value => .bind (.request id) fun _ => ?_
  refine .ite lockKind_neverRejects ?_
  refine .bind hidentification fun _ => ?_
  exact .bind (.request id) fun _ => trivial

end Capability

theorem Switch.turnOn_neverRejects : Switch.turnOn.NeverRejects := by
  refine .bind (.request id) fun old => .bind (.request id) fun _ => ?_
  refine .bind (.when _ (.request id)) fun _ => .bind (.request id) fun cr0 => ?_
  refine .bind (.request id) fun _ => .bind (.request id) fun _ => ?_
  exact .bind (.request id) fun _ => trivial

theorem Request.Supplies.not_isRejection {r : Request} (h : r.Supplies) : ¬ r.IsRejection := by
  intro hrejection
  obtain rfl := hrejection.eq
  exact h

theorem Frame.giveBackAll_neverRejects (frames : List Address) :
    (giveBackAll frames).NeverRejects :=
  (giveBackAll_supplies frames).mono fun _ hr => hr.not_isRejection

theorem ControlPages.allocate_neverRejects : allocate.NeverRejects :=
  allocate_supplies.mono fun _ hr => hr.not_isRejection

namespace Activator

theorem advance_neverRejects (a : Activator) (next : Stage) : (a.advance next).NeverRejects :=
  .of_within (a.advance_within next) (by decide)

theorem inspect_neverRejects (a : Activator) : a.inspect.NeverRejects := by
  refine .bind (a.advance_neverRejects _) fun a => ?_
  refine .bind Capability.hasRegisterAccess_neverRejects fun _ => .ite ?_ trivial
  refine .bind (a.advance_neverRejects _) fun _ => ?_
  refine .bind Capability.probe_neverRejects fun _ => ?_
  exact .bind (.request id) fun _ => trivial

theorem supply_neverRejects (a : Activator) : a.supply.NeverRejects := by
  refine .bind (a.advance_neverRejects _) fun _ => ?_
  refine .bind Switch.turnOn_neverRejects fun _ => ?_
  refine .bind (advance_neverRejects _ _) fun _ => ?_
  exact .bind ControlPages.allocate_neverRejects fun _ => trivial

theorem settle_neverRejects (attempt : Attempt) : (settle attempt).NeverRejects := by
  refine .bind (advance_neverRejects _ _) fun _ => ?_
  refine .bind (.request (by cases attempt.outcome <;> exact id)) fun _ => ?_
  refine .bind (advance_neverRejects _ _) fun _ => ?_
  refine .bind (Frame.giveBackAll_neverRejects _) fun _ => ?_
  exact .bind (advance_neverRejects _ _) fun _ => trivial

/-- Entering a guest reports a rejection exactly if the VMCB records one. -/
theorem enterGuest_requests (a : Activator) (efer : Register) (pages : ControlPages) (m : Machine) :
    let exit := ((m.registerSaveArea pages.saveArea).enterGuest pages.vmcb).exitRecord pages.vmcb
    ((a.enterGuest efer pages).run m).requests =
      [.log (.stageChange a.stage .saveAreaSetup),
        .writeMsr .hostSave pages.saveArea.toRegister,
        .log (.saveAreaRegistered pages.saveArea),
        .log (.stageChange .saveAreaSetup .entry),
        .enterGuest pages.vmcb,
        .loadWord pages.vmcb ExitField.code.offset,
        .loadWord pages.vmcb ExitField.info1.offset,
        .loadWord pages.vmcb ExitField.info2.offset] ++
      if exit.isInvalid then [.log .entryRejected] else [] := by
  intro exit
  have hreject (c : Bool) (m : Machine) : ((when c (log .entryRejected)).run m).requests =
      if c then [.log .entryRejected] else [] := by
    cases c <;> rfl
  have hdone (attempt : Attempt) (m : Machine) : ((done attempt).run m).requests = [] := rfl
  simp only [enterGuest, Execution.requests_bind, readExit_value, hreject, pure_eq, hdone,
    List.append_nil]
  rfl

theorem mem_requests_of_entered (a : Activator) {m : Machine} {pages : ControlPages}
    (h : m.course = .entered pages) :
    .log .entryRejected ∈ (a.run.run m).requests ↔
      (((m.prepared pages).enterGuest pages.vmcb).exitRecord pages.vmcb).isInvalid = true := by
  have hsettle (attempt : Attempt) (m : Machine) := (settle_neverRejects attempt).not_mem m
  have hpreparation : .log .entryRejected ∉ (a.preparation m).map Moment.request := by
    rw [preparation, List.map_append, List.mem_append, not_or]
    exact ⟨a.inspect_neverRejects.not_mem m, (supply_neverRejects _).not_mem m⟩
  rw [run_eq, Execution.requests_bind, List.mem_append, or_iff_left (hsettle _ _), attempt_run, h,
    Execution.requests, Execution.behind_timeline, List.map_append, List.mem_append,
    or_iff_right hpreparation, ← Execution.requests, enterGuest_requests, List.mem_append]
  have hprepared : m.prepared pages = (m.supplied pages).registerSaveArea pages.saveArea := rfl
  rw [hprepared]
  split
  · rename_i hinvalid
    simp [hinvalid]
  · rename_i hvalid
    simp [hvalid]

/-- The pages of an activation go back only when the record of the guest was read. -/
theorem exists_split_of_entered (a : Activator) {m : Machine} {pages : ControlPages}
    (h : m.course = .entered pages) :
    ∃ before after, (a.run.run m).timeline = before ++ after ∧
      (∀ x ∈ before, ∀ frame, x.request ≠ .giveBack frame) ∧
      (∀ x ∈ after, x.request.effect ∉ [.page, .guest]) ∧
      deeds after = [.giveBack pages.vmcb, .giveBack pages.saveArea] := by
  have hoffered := Machine.pagesOffered_of_entered h
  let attempt := a.attempt.run m
  refine ⟨attempt.timeline, ((settle attempt.value).run attempt.machine).timeline, ?_, ?_, ?_, ?_⟩
  · rw [run_eq, run_bind_timeline]
  · intro x hx frame hback
    have hdeed : .giveBack frame ∈ deeds attempt.timeline := by
      apply List.mem_filter.2
      constructor
      · apply List.mem_flatMap.2
        refine ⟨x, hx, ?_⟩
        rw [Moment.events, hback]
        exact List.mem_cons_self
      · rfl
    rw [a.attempt_deeds m, attemptDeeds, h] at hdeed
    simp [supplyDeeds_of_offered hoffered] at hdeed
  · intro x hx heffect
    simp only [List.mem_cons, List.not_mem_nil, or_false] at heffect
    rcases heffect with he | he
    · exact (settle_within _).effect_ne (by decide) hx he
    · exact (settle_within _).effect_ne (by decide) hx he
  · rw [settle_deeds, a.attempt_pages m, h]
    rfl

end Activator

namespace Machine

/-- When the guest has stopped, the page of the VMCB holds what the guest has written, and zeros. -/
theorem bytes_after_guest (m : Machine) (pages : ControlPages) {place : Nat}
    (hplace : place < pageSize) :
    ((m.prepared pages).enterGuest pages.vmcb).memory.bytes pages.vmcb place =
      m.nextGuest.page place := by
  have hzero : (m.prepared pages).memory.IsZero pages.vmcb := by
    exact (m.memory.isZero_fill pages.vmcb).fill pages.saveArea
  have hmemory : ((m.prepared pages).enterGuest pages.vmcb).memory =
      (m.prepared pages).memory.update pages.vmcb (·.storeWords m.nextGuest.stores) := rfl
  rw [hmemory, Memory.bytes_update_self, PageBytes.storeWords_eq]
  exact PageBytes.overlaid_congr (hzero place hplace) _

theorem loadWord_after_guest (m : Machine) (pages : ControlPages) {offset : Nat}
    (hoffset : offset + 8 ≤ pageSize) :
    (((m.prepared pages).enterGuest pages.vmcb).memory.bytes pages.vmcb |>.loadWord offset).toNat =
      m.nextGuest.page.littleEndian offset := by
  rw [← PageBytes.toNat_loadWord]
  congr 1
  apply PageBytes.loadWord_congr
  intro i hi
  exact m.bytes_after_guest pages (by omega)

end Machine

theorem ExitRecord.isInvalid_iff (exit : ExitRecord) :
    exit.isInvalid = true ↔ exit.code.toNat = 2 ^ 64 - 1 := by
  rw [isInvalid, decide_eq_true_iff, ← BitVec.toNat_inj]
  rfl

/-- A successful activation reports what the guest has left in the page of its VMCB. -/
theorem Activator.exit_recorded (a : Activator) (m : Machine) {completion : Completion}
    (h : (a.run.run m).value.1 = .ok completion) :
    let e := a.run.run m
    let exit := completion.exit
    let page := PageBytes.overlaid (fun _ => 0)
      (m.nextGuest.stores.map fun store => .word store.1 store.2)
    exit.code.toNat = page.littleEndian 0x70 ∧
    exit.info1.toNat = page.littleEndian 0x78 ∧
    exit.info2.toNat = page.littleEndian 0x80 ∧
    (m.guests = [] → exit = ⟨.allOnes 64, 0, 0⟩) ∧
    (exit.isInvalid = true ↔ exit.code.toNat = 2 ^ 64 - 1) ∧
    (.log .entryRejected ∈ e.requests ↔ exit.code.toNat = 2 ^ 64 - 1) ∧
    (.message .entryRejected ∈ e.events ↔
      m.threshold.admits .warn = true ∧ exit.code.toNat = 2 ^ 64 - 1) ∧
    (∀ guests, ∃ exit', (a.run.run { m with guests }).value.1 = .ok { completion with exit := exit' }) ∧
    ∃ before after, e.timeline = before ++ after ∧
      (∀ x ∈ before, ∀ frame, x.request ≠ .giveBack frame) ∧
      (∀ x ∈ after, x.request.effect ∉ [.page, .guest]) ∧
      deeds after = [.giveBack completion.vmcb, .giveBack completion.saveArea] := by
  intro e exit page
  have houtcome : m.outcome = .ok completion := by
    rw [← h, a.run_value]
  obtain ⟨pages, hcourse, hvmcb, hsaveArea⟩ := Machine.entered_of_outcome houtcome
  have hexit : exit = ((m.prepared pages).enterGuest pages.vmcb).exitRecord pages.vmcb := by
    rw [Machine.outcome, hcourse] at houtcome
    cases houtcome
    rfl
  have hrequests : .log .entryRejected ∈ e.requests ↔ exit.code.toNat = 2 ^ 64 - 1 := by
    rw [a.mem_requests_of_entered hcourse, ← hexit]
    exact exit.isInvalid_iff
  have hcode : exit.code.toNat = page.littleEndian 0x70 := by
    rw [hexit]
    exact m.loadWord_after_guest pages (by decide)
  have hinfo1 : exit.info1.toNat = page.littleEndian 0x78 := by
    rw [hexit]
    exact m.loadWord_after_guest pages (by decide)
  have hinfo2 : exit.info2.toNat = page.littleEndian 0x80 := by
    rw [hexit]
    exact m.loadWord_after_guest pages (by decide)
  refine ⟨hcode, hinfo1, hinfo2, ?_, exit.isInvalid_iff, hrequests, ?_, ?_, ?_⟩
  · intro hguests
    have hnext : m.nextGuest = .refused := by
      rw [Machine.nextGuest, hguests]
      rfl
    have hpage : page = GuestExit.refused.page := by
      rw [← hnext]
      rfl
    rw [hpage] at hcode hinfo1 hinfo2
    apply ExitRecord.ext
    · exact BitVec.eq_of_toNat_eq (hcode.trans rfl)
    · exact BitVec.eq_of_toNat_eq (hinfo1.trans rfl)
    · exact BitVec.eq_of_toNat_eq (hinfo2.trans rfl)
  · rw [← hrequests]
    exact a.run.message_mem_events m (by simp)
  · intro guests
    have hcourse' : ({ m with guests } : Machine).course = .entered pages := hcourse
    rw [Machine.outcome, hcourse] at houtcome
    cases houtcome
    rw [a.run_value, Machine.outcome, hcourse']
    exact ⟨_, rfl⟩
  · rw [hvmcb, hsaveArea]
    exact a.exists_split_of_entered hcourse

/-- A machine whose allocator hands out one frame twice, with a guest whose stores overlap. -/
def Machine.sharedPage : Machine where
  core := Setup.capable.applyCore .fresh
  allocator := { Allocator.fresh with queue := [some ⟨0x1000⟩, some ⟨0x1000⟩] }
  memory := .fresh
  guests := [{
    stores := [(0x70, BitVec.allOnes 64), (0x74, 0x1122334455667788), (0x7d, 0x0102030405060708)]
    msrs := [] }]
  threshold := some .trace

theorem Activator.exit_recorded_sharedPage :
    let exit : ExitRecord := ⟨0x55667788ffffffff, 0x0607080011223344, 0x0000000102030405⟩
    (fresh.run.run Machine.sharedPage).value.1 = .ok ⟨⟨0x1000⟩, ⟨0x1000⟩, ⟨0x1000⟩, exit⟩ ∧
    exit.code.toNat = PageBytes.littleEndian
      (PageBytes.overlaid (fun _ => 0)
        (Machine.sharedPage.nextGuest.stores.map fun store => .word store.1 store.2)) 0x70 := by
  intro exit
  have hrun : (fresh.run.run Machine.sharedPage).value.1 =
      .ok ⟨⟨0x1000⟩, ⟨0x1000⟩, ⟨0x1000⟩, exit⟩ := by rfl
  exact ⟨hrun, (exit_recorded fresh Machine.sharedPage hrun).1⟩

end SvmActivation
