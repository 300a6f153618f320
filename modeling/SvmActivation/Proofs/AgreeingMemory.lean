import SvmActivation.Proofs.PageOverlay
import SvmActivation.Proofs.PageSupply

namespace SvmActivation

open Program

namespace PageBytes

/-- The same page; what lies behind it may differ. -/
def SamePage (bytes other : PageBytes) : Prop :=
  ∀ i < pageSize, bytes i = other i

variable {bytes other : PageBytes}

theorem samePage_fill (bytes other : PageBytes) (b : Byte) :
    (bytes.fill b).SamePage (other.fill b) := by
  intro i hi
  rw [fill, fill, if_pos hi, if_pos hi]

namespace SamePage

theorem storeByte (h : bytes.SamePage other) (offset : Nat) (b : Byte) :
    (bytes.storeByte offset b).SamePage (other.storeByte offset b) := by
  intro i hi
  rw [PageBytes.storeByte, PageBytes.storeByte, h i hi]

theorem storeWord (h : bytes.SamePage other) (offset : Nat) (w : Word) :
    (bytes.storeWord offset w).SamePage (other.storeWord offset w) := by
  intro i hi
  rw [PageBytes.storeWord, PageBytes.storeWord, h i hi]

theorem storeWords (h : bytes.SamePage other) (stores : List (Nat × Word)) :
    (bytes.storeWords stores).SamePage (other.storeWords stores) := by
  induction stores generalizing bytes other with
  | nil => exact h
  | cons store rest ih => exact ih (h.storeWord store.1 store.2)

theorem loadWord (h : bytes.SamePage other) {offset : Nat} (hoffset : offset + 8 ≤ pageSize) :
    bytes.loadWord offset = other.loadWord offset := by
  apply loadWord_congr
  intro i hi
  exact h (offset + i) (by omega)

end SamePage

end PageBytes

def Memory.AgreeAt (m m' : Memory) (page : Address) : Prop :=
  ∃ bytes other, m.touched page = some bytes ∧ m'.touched page = some other ∧ bytes.SamePage other

namespace Memory.AgreeAt

variable {m m' : Memory} {page : Address}

theorem update (h : m.AgreeAt m' page) (target : Address) {change : PageBytes → PageBytes}
    (hchange : ∀ bytes other, bytes.SamePage other → (change bytes).SamePage (change other)) :
    (m.update target change).AgreeAt (m'.update target change) page := by
  obtain ⟨bytes, other, hbytes, hother, hsame⟩ := h
  by_cases heq : page = target
  · subst heq
    refine ⟨change bytes, change other, ?_, ?_, hchange bytes other hsame⟩
    · simp [Memory.update, Memory.put, Memory.bytes, hbytes]
    · simp [Memory.update, Memory.put, Memory.bytes, hother]
  · refine ⟨bytes, other, ?_, ?_, hsame⟩
    · rw [← hbytes]
      exact if_neg heq
    · rw [← hother]
      exact if_neg heq

theorem touch (h : m.AgreeAt m' page) (target : Address) :
    (m.touch target).AgreeAt (m'.touch target) page :=
  h.update target fun _ _ hsame => hsame

theorem of_fill (m m' : Memory) (page : Address) (b : Byte) :
    (m.update page (·.fill b)).AgreeAt (m'.update page (·.fill b)) page :=
  ⟨_, _, if_pos rfl, if_pos rfl, PageBytes.samePage_fill _ _ b⟩

theorem loadWord (h : m.AgreeAt m' page) {offset : Nat} (hoffset : offset + 8 ≤ pageSize) :
    (m.bytes page).loadWord offset = (m'.bytes page).loadWord offset := by
  obtain ⟨bytes, other, hbytes, hother, hsame⟩ := h
  rw [Memory.bytes, Memory.bytes, hbytes, hother]
  exact hsame.loadWord hoffset

end Memory.AgreeAt

/-- Two machines that differ at most in their memory, and there not on some pages. -/
structure Machine.AgreeOn (m m' : Machine) (pages : List Address) : Prop where
  rest : m' = { m with memory := m'.memory }
  memory : ∀ page ∈ pages, m.memory.AgreeAt m'.memory page

/-- A request reads nothing but inside of some pages. -/
def Request.Reads (known : List Address) : Request → Prop
  | loadWord page offset => page ∈ known ∧ offset + 8 ≤ pageSize
  | _ => True

theorem Request.reads_of_effect {r : Request} (h : r.effect ≠ .page) (known : List Address) :
    r.Reads known := by
  cases r with
  | loadWord => exact absurd rfl h
  | _ => trivial

theorem Program.Within.reads {α : Type} {p : Program α} {effects : List Request.Effect}
    (hp : p.Within effects) (h : .page ∉ effects) (known : List Address) :
    p.Asks (·.Reads known) := by
  apply Asks.mono hp
  intro r hr
  apply r.reads_of_effect
  intro he
  apply h
  rw [← he]
  exact hr

theorem Request.Reads.mono {r : Request} {known wider : List Address} (h : r.Reads known)
    (hsub : known ⊆ wider) : r.Reads wider := by
  cases r with
  | loadWord page offset => exact ⟨hsub h.1, h.2⟩
  | _ => trivial

namespace Machine.AgreeOn

variable {m m' : Machine} {pages : List Address}

theorem mono (h : m.AgreeOn m' pages) {fewer : List Address} (hsub : fewer ⊆ pages) :
    m.AgreeOn m' fewer :=
  ⟨h.rest, fun page hpage => h.memory page (hsub hpage)⟩

theorem exists_memory (h : m.AgreeOn m' pages) : ∃ memory, m' = { m with memory := memory } :=
  ⟨_, h.rest⟩

/-- What reads only where two machines agree is answered alike and keeps them agreeing. -/
theorem serve (h : m.AgreeOn m' pages) {r : Request} (hr : r.Reads pages) :
    (m'.serve r).1 = (m.serve r).1 ∧ m'.events r = m.events r ∧
      (m.serve r).2.AgreeOn (m'.serve r).2 pages := by
  obtain ⟨memory, rfl⟩ := h.exists_memory
  have hkept {change : PageBytes → PageBytes} (target : Address)
      (hchange : ∀ bytes other, bytes.SamePage other → (change bytes).SamePage (change other)) :
      ∀ page ∈ pages, (m.memory.update target change).AgreeAt (memory.update target change) page :=
    fun page hpage => (h.memory page hpage).update target hchange
  cases r with
  | enterGuest vmcb =>
    exact ⟨rfl, rfl, rfl, hkept vmcb fun _ _ hsame => hsame.storeWords _⟩
  | fillPage page b =>
    exact ⟨rfl, rfl, rfl, hkept page fun bytes other _ => PageBytes.samePage_fill bytes other b⟩
  | storeByte page offset b =>
    exact ⟨rfl, rfl, rfl, hkept page fun _ _ hsame => hsame.storeByte offset b⟩
  | storeWord page offset w =>
    exact ⟨rfl, rfl, rfl, hkept page fun _ _ hsame => hsame.storeWord offset w⟩
  | loadWord page offset =>
    refine ⟨((h.memory page hr.1).loadWord hr.2).symm, rfl, rfl, ?_⟩
    exact fun other hother => (h.memory other hother).touch page
  | _ => exact ⟨rfl, rfl, rfl, h.memory⟩

end Machine.AgreeOn

/-- On machines that agree on some pages a program ends alike, and they agree on what it learnt. -/
def Program.Confined {α : Type} (p : Program α) (known : List Address)
    (learnt : α → List Address) : Prop :=
  ∀ m m' pages, known ⊆ pages → m.AgreeOn m' pages →
    (p.run m').value = (p.run m).value ∧ (p.run m').events = (p.run m).events ∧
      (p.run m).machine.AgreeOn (p.run m').machine (learnt (p.run m).value ++ pages)

namespace Program.Confined

variable {α β : Type} {p : Program α} {known : List Address} {learnt : α → List Address}

theorem done {value : α} (h : learnt value ⊆ known) :
    (Program.done value).Confined known learnt := by
  intro m m' pages hknown hagree
  have hlearnt : learnt value ++ pages ⊆ pages :=
    List.append_subset.2 ⟨List.Subset.trans h hknown, List.Subset.refl _⟩
  exact ⟨rfl, rfl, hagree.mono hlearnt⟩

theorem bind {f : α → Program β} {kept : β → List Address} (hp : p.Confined known learnt)
    (hf : ∀ value, (f value).Confined (learnt value ++ known) kept) :
    (p >>= f).Confined known kept := by
  intro m m' pages hknown hagree
  obtain ⟨hvalue, hevents, hmid⟩ := hp m m' pages hknown hagree
  have hwider : learnt (p.run m).value ++ known ⊆ learnt (p.run m).value ++ pages :=
    List.append_subset.2 ⟨List.subset_append_left _ _,
      List.Subset.trans hknown (List.subset_append_right _ _)⟩
  obtain ⟨hvalue', hevents', hend⟩ := hf (p.run m).value _ _ _ hwider hmid
  refine ⟨?_, ?_, ?_⟩
  · rw [run_bind_value, run_bind_value, hvalue, hvalue']
  · rw [run_bind_events, run_bind_events, hevents, hvalue, hevents']
  · rw [run_bind_value, run_bind_machine, run_bind_machine, hvalue]
    refine hend.mono (List.append_subset.2 ⟨List.subset_append_left _ _, ?_⟩)
    exact List.Subset.trans (List.subset_append_right _ _) (List.subset_append_right _ _)

theorem widen (hp : p.Confined known learnt) {wider : List Address} (hsub : known ⊆ wider) :
    p.Confined wider learnt :=
  fun m m' pages hwider => hp m m' pages (List.Subset.trans hsub hwider)

theorem retain {kept : α → List Address} (hp : p.Confined known learnt)
    (h : ∀ m, kept (p.run m).value ⊆ learnt (p.run m).value ++ known) : p.Confined known kept := by
  intro m m' pages hknown hagree
  obtain ⟨hvalue, hevents, hend⟩ := hp m m' pages hknown hagree
  refine ⟨hvalue, hevents, hend.mono (List.append_subset.2 ⟨?_, List.subset_append_right _ _⟩)⟩
  exact List.Subset.trans (h m) (List.append_subset.2 ⟨List.subset_append_left _ _,
    List.Subset.trans hknown (List.subset_append_right _ _)⟩)

theorem of_asks (hp : p.Asks (·.Reads known)) : p.Confined known fun _ => [] := by
  induction p with
  | done value => exact .done (List.nil_subset _)
  | ask r next ih =>
    intro m m' pages hknown hagree
    obtain ⟨hanswer, hevents, hafter⟩ := hagree.serve (hp.1.mono hknown)
    obtain ⟨hvalue, hrest, hend⟩ := ih (m.serve r).1 (hp.2 _) _ _ pages hknown hafter
    have happend (m : Machine) : ((ask r next).run m).events =
        m.events r ++ ((next (m.serve r).1).run (m.serve r).2).events := rfl
    rw [happend, happend, hevents, run_ask, run_ask, hanswer, hrest]
    exact ⟨hvalue, rfl, hend⟩

theorem of_within {effects : List Request.Effect} (hp : p.Within effects) (h : .page ∉ effects) :
    p.Confined known fun _ => [] :=
  of_asks (hp.reads h known)

theorem fillPage (page : Address) (b : Byte) :
    (request (.fillPage page b)).Confined known fun _ => [page] := by
  intro m m' pages _ hagree
  have hread : (Request.fillPage page b).Reads pages := trivial
  obtain ⟨hanswer, hevents, hafter⟩ := hagree.serve hread
  refine ⟨hanswer, congrArg (· ++ []) hevents, hafter.rest, fun other hother => ?_⟩
  rcases List.mem_cons.1 hother with rfl | hother
  · exact .of_fill m.memory m'.memory other b
  · exact hafter.memory other hother

end Program.Confined

end SvmActivation
