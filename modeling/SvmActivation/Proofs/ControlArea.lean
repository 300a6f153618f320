import SvmActivation.Proofs.PageOverlay
import SvmActivation.Proofs.StaleMemory

namespace SvmActivation

open Program

namespace ExitField

def Covers (field : ExitField) (place : Nat) : Prop :=
  field.offset ≤ place ∧ place < field.offset + 8

theorem covers_offset (field : ExitField) {i : Nat} (hi : i < 8) :
    field.Covers (field.offset + i) :=
  ⟨Nat.le_add_right _ _, Nat.add_lt_add_left hi _⟩

theorem not_covers_of_ne {field other : ExitField} (h : field ≠ other) {place : Nat}
    (hplace : field.Covers place) : ¬ other.Covers place := by
  have hapart : field.offset + 8 ≤ other.offset ∨ other.offset + 8 ≤ field.offset := by
    cases field <;> cases other <;> first | exact absurd rfl h | decide
  rintro ⟨hlow, hhigh⟩
  obtain ⟨hlow', hhigh'⟩ := hplace
  omega

end ExitField

namespace ExitRecord

def get (exit : ExitRecord) : ExitField → Word
  | .code => exit.code
  | .info1 => exit.info1
  | .info2 => exit.info2

def put (exit : ExitRecord) (field : ExitField) (w : Word) : ExitRecord :=
  match field with
  | .code => { exit with code := w }
  | .info1 => { exit with info1 := w }
  | .info2 => { exit with info2 := w }

variable (exit : ExitRecord) {field other : ExitField} (w : Word)

theorem get_put_self : (exit.put field w).get field = w := by
  cases field <;> rfl

theorem get_put_of_ne (h : other ≠ field) : (exit.put field w).get other = exit.get other := by
  cases field <;> cases other <;> first | exact absurd rfl h | rfl

theorem eq_of_get_eq {a b : ExitRecord} (h : ∀ field, a.get field = b.get field) : a = b :=
  ExitRecord.ext (h .code) (h .info1) (h .info2)

end ExitRecord

def Word.withByte (w : Word) (j : Nat) (b : Byte) : Word :=
  .ofBytes fun i => if i = j then b else w.byte i

namespace PageBytes

variable (bytes : PageBytes) {field : ExitField}

/-- The record that a page of a VMCB holds. -/
def exit : ExitRecord where
  code := bytes.loadWord ExitField.code.offset
  info1 := bytes.loadWord ExitField.info1.offset
  info2 := bytes.loadWord ExitField.info2.offset

theorem exit_get (field : ExitField) : bytes.exit.get field = bytes.loadWord field.offset := by
  cases field <;> rfl

theorem exit_byte (field : ExitField) {i : Nat} (hi : i < 8) :
    (bytes.exit.get field).byte i = bytes (field.offset + i) := by
  rw [exit_get, byte_loadWord _ _ hi]

theorem exit_congr {other : PageBytes}
    (h : ∀ (field : ExitField) place, field.Covers place → bytes place = other place) :
    bytes.exit = other.exit := by
  apply ExitRecord.eq_of_get_eq
  intro field
  rw [exit_get, exit_get]
  apply loadWord_congr
  intro i hi
  exact h field _ (field.covers_offset hi)

/-- A record is determined by the bytes of one field and by all other fields. -/
theorem exit_eq_put {after : PageBytes} {w : Word}
    (hfield : ∀ i < 8, after (field.offset + i) = w.byte i)
    (hothers : ∀ place, ¬ field.Covers place → after place = bytes place) :
    after.exit = bytes.exit.put field w := by
  apply ExitRecord.eq_of_get_eq
  intro other
  by_cases h : other = field
  · subst h
    rw [ExitRecord.get_put_self]
    apply Word.eq_of_byte_eq
    intro i hi
    rw [exit_byte _ _ hi, hfield i hi]
  · rw [ExitRecord.get_put_of_ne _ _ h]
    apply Word.eq_of_byte_eq
    intro i hi
    rw [exit_byte _ _ hi, exit_byte _ _ hi]
    apply hothers
    exact ExitField.not_covers_of_ne h (other.covers_offset hi)

theorem storeWord_of_covers {place : Nat} (h : field.Covers place) (w : Word) :
    bytes.storeWord field.offset w place = w.byte (place - field.offset) :=
  if_pos h

theorem storeWord_of_not_covers {place : Nat} (h : ¬ field.Covers place) (w : Word) :
    bytes.storeWord field.offset w place = bytes place :=
  if_neg h

theorem exit_storeWord (w : Word) :
    (bytes.storeWord field.offset w).exit = bytes.exit.put field w := by
  apply exit_eq_put
  · intro i hi
    rw [storeWord_of_covers _ (field.covers_offset hi), Nat.add_sub_cancel_left]
  · intro place hplace
    exact bytes.storeWord_of_not_covers hplace w

theorem exit_storeByte {j : Nat} (hj : j < 8) (b : Byte) :
    (bytes.storeByte (field.offset + j) b).exit =
      bytes.exit.put field ((bytes.exit.get field).withByte j b) := by
  apply exit_eq_put
  · intro i hi
    rw [Word.withByte, Word.byte_ofBytes _ hi, exit_byte _ _ hi, storeByte]
    simp only [Nat.add_left_cancel_iff]
  · intro place hplace
    apply if_neg
    rintro rfl
    exact hplace (field.covers_offset hj)

theorem exit_storeByte_of_not_covers {offset : Nat} (h : ∀ field : ExitField, ¬ field.Covers offset)
    (b : Byte) : (bytes.storeByte offset b).exit = bytes.exit := by
  apply exit_congr
  intro field place hplace
  apply if_neg
  rintro rfl
  exact h field hplace

theorem storeWord_comm {other : ExitField} (h : field ≠ other) (w w' : Word) :
    (bytes.storeWord field.offset w).storeWord other.offset w' =
      (bytes.storeWord other.offset w').storeWord field.offset w := by
  funext place
  by_cases hfield : field.Covers place
  · have hother := ExitField.not_covers_of_ne h hfield
    rw [storeWord_of_not_covers _ hother, storeWord_of_covers _ hfield,
      storeWord_of_covers _ hfield]
  · rw [storeWord_of_not_covers _ hfield]
    by_cases hother : other.Covers place
    · rw [storeWord_of_covers _ hother, storeWord_of_covers _ hother]
    · rw [storeWord_of_not_covers _ hother, storeWord_of_not_covers _ hother,
        storeWord_of_not_covers _ hfield]

end PageBytes

theorem Memory.update_update (m : Memory) (page : Address) (first second : PageBytes → PageBytes) :
    (m.update page first).update page second = m.update page fun bytes => second (first bytes) := by
  rw [update, bytes_update_self, update, put_put, update]

def Machine.edit (m : Machine) (page : Address) (change : PageBytes → PageBytes) : Machine :=
  { m with memory := m.memory.update page change }

theorem Machine.edit_edit (m : Machine) (page : Address) (first second : PageBytes → PageBytes) :
    (m.edit page first).edit page second = m.edit page fun bytes => second (first bytes) :=
  congrArg (fun memory => { m with memory }) (m.memory.update_update page first second)

def Action.write? : Action → Option PageWrite
  | poke offset b => some (.byte offset b)
  | setField field w => some (.word field.offset w)
  | _ => none

namespace Object

variable {o : Object} {page : Address}

theorem cases_of_mem_vmcbs (h : page ∈ o.vmcbs) :
    o = vmcb page ∨ ∃ owned, o = pages (some owned) ∧ page = owned.vmcb := by
  cases o with
  | vmcb other =>
    cases List.mem_singleton.1 h
    exact .inl rfl
  | pages owned =>
    cases owned with
    | none => cases h
    | some owned =>
      cases List.mem_singleton.1 h
      exact .inr ⟨owned, rfl, rfl⟩
  | _ => cases h

theorem act_object (h : page ∈ o.vmcbs) {action : Action} (haction : action ≠ .release)
    (m : Machine) : ((o.act action).run m).value.2 = o := by
  rcases cases_of_mem_vmcbs h with rfl | ⟨owned, rfl, rfl⟩
  · cases action <;> rfl
  · cases action with
    | release => exact absurd rfl haction
    | _ => rfl

theorem act_bytes (h : page ∈ o.vmcbs) {action : Action} (haction : action ≠ .release)
    (m : Machine) :
    ((o.act action).run m).machine.memory.bytes page =
      action.write?.elim (m.memory.bytes page) (·.apply (m.memory.bytes page)) := by
  have hpoke (page : Address) (offset : Nat) (b : Byte) :
      ((poke page offset b).run m).machine.memory.bytes page =
        (m.memory.bytes page).storeByte offset b :=
    m.memory.bytes_update_self (·.storeByte offset b)
  have hset (page : Address) (field : ExitField) (w : Word) :
      ((setField page field w).run m).machine.memory.bytes page =
        (m.memory.bytes page).storeWord field.offset w := by
    rw [setField_memory, Memory.bytes_update_self]
  have hread (page : Address) :
      ((readExit page).run m).machine.memory.bytes page = m.memory.bytes page := by
    have hmemory : ((readExit page).run m).machine.memory =
        ((m.memory.touch page).touch page).touch page := rfl
    rw [hmemory, Memory.bytes_touch, Memory.bytes_touch, Memory.bytes_touch]
  rcases cases_of_mem_vmcbs h with rfl | ⟨owned, rfl, rfl⟩
  · cases action with
    | poke offset b => exact hpoke page offset b
    | setField field w => exact hset page field w
    | readExit => exact hread page
    | _ => rfl
  · cases action with
    | poke offset b => exact hpoke owned.vmcb offset b
    | setField field w => exact hset owned.vmcb field w
    | readExit => exact hread owned.vmcb
    | release => exact absurd rfl haction
    | _ => rfl

theorem act_readExit (h : page ∈ o.vmcbs) (m : Machine) :
    ((o.act .readExit).run m).value.1 = .exit (m.memory.bytes page).exit := by
  have hread (page : Address) :
      ((readExit page).run m).value = .exit (m.memory.bytes page).exit := by
    rw [readExit, run_bind_value, Activator.readExit_value]
    rfl
  rcases cases_of_mem_vmcbs h with rfl | ⟨owned, rfl, rfl⟩
  · exact hread page
  · exact hread owned.vmcb

theorem act_setField_value (h : page ∈ o.vmcbs) (field : ExitField) (w : Word) (m : Machine) :
    ((o.act (.setField field w)).run m).value = (.word w, o) := by
  have hback (bytes : PageBytes) :
      (bytes.storeWord field.offset w).loadWord field.offset = w := by
    rw [← PageBytes.exit_get, PageBytes.exit_storeWord, ExitRecord.get_put_self]
  have hset (page : Address) : ((setField page field w).run m).value = .word w := by
    have hvalue : ((setField page field w).run m).value =
        .word (((m.memory.update page (·.storeWord field.offset w)).bytes page).loadWord
          field.offset) := rfl
    rw [hvalue, Memory.bytes_update_self, hback]
  rcases cases_of_mem_vmcbs h with rfl | ⟨owned, rfl, rfl⟩
  · exact congrArg (·, vmcb page) (hset page)
  · exact congrArg (·, pages (some owned)) (hset owned.vmcb)

theorem act_setField_machine (h : page ∈ o.vmcbs) (field : ExitField) (w : Word) (m : Machine) :
    ((o.act (.setField field w)).run m).machine =
      m.edit page (·.storeWord field.offset w) := by
  have hset (page : Address) : ((setField page field w).run m).machine =
      m.edit page (·.storeWord field.offset w) := by
    rw [Machine.edit, ← m.memory.touch_update_self page (·.storeWord field.offset w)]
    rfl
  rcases cases_of_mem_vmcbs h with rfl | ⟨owned, rfl, rfl⟩
  · exact hset page
  · exact hset owned.vmcb

end Object

namespace Session

variable {s : Session} {h : Handle} {o : Object} {page : Address}

/-- The commands that do some things with one object, one after the other. -/
def doing (h : Handle) (actions : List Action) : List Command :=
  actions.map fun action => .operate (.act h action)

theorem find?_doing (hfind : s.objects.find? h = some o) (hpage : page ∈ o.vmcbs)
    {action : Action} (haction : action ≠ .release) :
    (s.step (.operate (.act h action))).session.objects.find? h = some o := by
  rw [step_act hfind]
  dsimp only
  rw [Object.act_object hpage haction, Objects.find?_insert_self]

theorem bytes_doing (hfind : s.objects.find? h = some o) (hpage : page ∈ o.vmcbs)
    {action : Action} (haction : action ≠ .release) :
    (s.step (.operate (.act h action))).session.machine.memory.bytes page =
      action.write?.elim (s.machine.memory.bytes page) (·.apply (s.machine.memory.bytes page)) := by
  rw [step_act hfind]
  exact Object.act_bytes hpage haction s.machine

/-- After any uses of a VMCB all that was written is laid over what its page held. -/
theorem afterRun_doing (hfind : s.objects.find? h = some o) (hpage : page ∈ o.vmcbs)
    {actions : List Action} (hactions : .release ∉ actions) :
    (s.afterRun (doing h actions)).objects.find? h = some o ∧
      (s.afterRun (doing h actions)).machine.memory.bytes page =
        (s.machine.memory.bytes page).overlaid (actions.filterMap Action.write?) := by
  induction actions generalizing s with
  | nil => exact ⟨hfind, rfl⟩
  | cons action rest ih =>
    have haction : action ≠ .release := by
      rintro rfl
      exact hactions List.mem_cons_self
    have hrest : .release ∉ rest := fun hmem => hactions (List.mem_cons_of_mem _ hmem)
    obtain ⟨hkept, hbytes⟩ := ih (find?_doing hfind hpage haction) hrest
    rw [doing, List.map_cons, afterRun_cons]
    refine ⟨hkept, hbytes.trans ?_⟩
    rw [bytes_doing hfind hpage haction, List.filterMap_cons]
    cases action.write? with
    | none => rfl
    | some write => exact (PageBytes.overlaid_cons _ write _).symm

theorem step_readExit (hfind : s.objects.find? h = some o) (hpage : page ∈ o.vmcbs) :
    (s.step (.operate (.act h .readExit))).reply = .exit (s.machine.memory.bytes page).exit := by
  rw [step_act hfind]
  exact Object.act_readExit hpage s.machine

theorem step_readExit_doing (hfind : s.objects.find? h = some o) (hpage : page ∈ o.vmcbs)
    {action : Action} (haction : action ≠ .release) :
    let next := (s.step (.operate (.act h action))).session
    (next.step (.operate (.act h .readExit))).reply =
      .exit (action.write?.elim (s.machine.memory.bytes page)
        (·.apply (s.machine.memory.bytes page))).exit := by
  intro next
  rw [step_readExit (find?_doing hfind hpage haction) hpage, bytes_doing hfind hpage haction]

theorem step_setField (hfind : s.objects.find? h = some o) (hpage : page ∈ o.vmcbs)
    (field : ExitField) (w : Word) :
    let next := s.step (.operate (.act h (.setField field w)))
    next.reply = .word w ∧
      next.session = ⟨s.machine.edit page (·.storeWord field.offset w), s.objects.insert h o⟩ := by
  intro next
  have hnext : next = _ := step_act hfind (.setField field w)
  rw [hnext]
  dsimp only
  rw [Object.act_setField_value hpage, Object.act_setField_machine hpage]
  exact ⟨rfl, rfl⟩

theorem setField_comm (hfind : s.objects.find? h = some o) (hpage : page ∈ o.vmcbs)
    {field other : ExitField} (hne : field ≠ other) (w w' : Word) :
    s.afterRun (doing h [.setField field w, .setField other w']) =
      s.afterRun (doing h [.setField other w', .setField field w]) := by
  have hpair (field other : ExitField) (w w' : Word) :
      s.afterRun (doing h [.setField field w, .setField other w']) =
        ⟨s.machine.edit page fun bytes =>
            (bytes.storeWord field.offset w).storeWord other.offset w',
          (s.objects.insert h o).insert h o⟩ := by
    have hkeeps : Action.setField field w ≠ .release := by simp
    have hkept := find?_doing hfind hpage hkeeps
    simp only [doing, List.map_cons, List.map_nil, afterRun_cons, afterRun_nil]
    rw [(step_setField hkept hpage other w').2, (step_setField hfind hpage field w).2,
      Machine.edit_edit]
  have hcomm : (fun bytes : PageBytes =>
      (bytes.storeWord field.offset w).storeWord other.offset w') =
      fun bytes => (bytes.storeWord other.offset w').storeWord field.offset w :=
    funext fun bytes => bytes.storeWord_comm hne w w'
  rw [hpair, hpair, hcomm]

/-- The fields of a VMCB and the bytes of its page are one store. -/
theorem control_area_is_page (s : Session) (h : Handle) {o : Object} {page : Address}
    (hfind : s.objects.find? h = some o) (hpage : page ∈ o.vmcbs) (actions : List Action)
    (hactions : .release ∉ actions) :
    let later := s.afterRun (doing h actions)
    let before := s.machine.memory.bytes page
    let writes := actions.filterMap Action.write?
    let bytes := before.overlaid writes
    let exitAfter (action : Action) : Reply :=
      ((later.step (.operate (.act h action))).session.step (.operate (.act h .readExit))).reply
    later.machine.memory.bytes page = bytes ∧
    ∃ exit : ExitRecord,
      (later.step (.operate (.act h .readExit))).reply = .exit exit ∧
      (∀ field, (exit.get field).toNat = bytes.littleEndian field.offset) ∧
      (∀ field, ∀ i < 8, (exit.get field).byte i =
        (writes.reverse.findSome? (·.byte? (field.offset + i))).getD (before (field.offset + i))) ∧
      (∀ field w,
        let next := later.step (.operate (.act h (.setField field w)))
        next.reply = .word w ∧
        exitAfter (.setField field w) = .exit (exit.put field w) ∧
        ∀ place, ¬ field.Covers place →
          next.session.machine.memory.bytes page place = bytes place) ∧
      (∀ field, ∀ j < 8, ∀ b, exitAfter (.poke (field.offset + j) b) =
        .exit (exit.put field ((exit.get field).withByte j b))) ∧
      (∀ offset b, (∀ field : ExitField, ¬ field.Covers offset) →
        exitAfter (.poke offset b) = .exit exit) ∧
      ∀ field other w w', field ≠ other →
        later.afterRun (doing h [.setField field w, .setField other w']) =
          later.afterRun (doing h [.setField other w', .setField field w]) := by
  intro later before writes bytes exitAfter
  obtain ⟨hkept, hbytes⟩ : later.objects.find? h = some o ∧
      later.machine.memory.bytes page = bytes := afterRun_doing hfind hpage hactions
  have hafter (action : Action) (haction : action ≠ .release) :
      exitAfter action = .exit (action.write?.elim bytes (·.apply bytes)).exit := by
    rw [← hbytes]
    exact step_readExit_doing hkept hpage haction
  refine ⟨hbytes, bytes.exit, ?_, ?_, ?_, ?_, ?_, ?_, ?_⟩
  · rw [← hbytes]
    exact step_readExit hkept hpage
  · intro field
    rw [bytes.exit_get, bytes.toNat_loadWord]
  · intro field i hi
    exact bytes.exit_byte field hi
  · intro field w next
    obtain ⟨hreply, hsession⟩ := step_setField hkept hpage field w
    refine ⟨hreply, ?_, ?_⟩
    · rw [hafter (.setField field w) (by simp), ← bytes.exit_storeWord]
      rfl
    · intro place hplace
      have hnext : next.session.machine.memory.bytes page = bytes.storeWord field.offset w := by
        rw [hsession, ← hbytes]
        exact later.machine.memory.bytes_update_self (·.storeWord field.offset w)
      rw [hnext, bytes.storeWord_of_not_covers hplace]
  · intro field j hj b
    rw [hafter (.poke (field.offset + j) b) (by simp), ← bytes.exit_storeByte hj]
    rfl
  · intro offset b hoffset
    rw [hafter (.poke offset b) (by simp)]
    exact congrArg Reply.exit (bytes.exit_storeByte_of_not_covers hoffset b)
  · intro field other w w' hne
    exact setField_comm hkept hpage hne w w'

theorem control_area_is_page_vmcb :
    let s := fresh.afterRun [.setup .capable, .operate (.create 0 .vmcb)]
    let actions : List Action := [.setField .info1 7, .poke 0x7f 0x80, .readExit]
    s.objects.find? 0 = some (.vmcb ⟨0x1000⟩) ∧
    (s.afterRun (doing 0 actions)).machine.memory.bytes ⟨0x1000⟩ =
      (s.machine.memory.bytes ⟨0x1000⟩).overlaid [.word 0x78 7, .byte 0x7f 0x80] := by
  intro s actions
  have hfind : s.objects.find? 0 = some (.vmcb ⟨0x1000⟩) := by rfl
  exact ⟨hfind, (control_area_is_page s 0 hfind List.mem_cons_self actions (by decide)).1⟩

end Session

end SvmActivation
