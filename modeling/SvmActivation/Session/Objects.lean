import SvmActivation.Session.Object

namespace SvmActivation

abbrev Handle := Nat

/-- The objects of a session, in ascending order of their handles. -/
structure Objects where
  entries : List (Handle × Object)
  ascending : entries.Pairwise (·.1 < ·.1)

namespace Objects

def empty : Objects :=
  ⟨[], .nil⟩

def find? (objects : Objects) (h : Handle) : Option Object :=
  objects.entries.lookup h

/-- Puts an object at the place of its handle, instead of one that has the same. -/
def place (h : Handle) (o : Object) : List (Handle × Object) → List (Handle × Object)
  | [] => [(h, o)]
  | entry :: rest =>
    if h < entry.1 then (h, o) :: entry :: rest
    else if h = entry.1 then (h, o) :: rest
    else entry :: place h o rest

theorem mem_of_mem_place {h : Handle} {o : Object} {entries : List (Handle × Object)}
    {e : Handle × Object} (he : e ∈ place h o entries) : e = (h, o) ∨ e ∈ entries := by
  induction entries with
  | nil => exact .inl (List.mem_singleton.1 he)
  | cons entry rest ih =>
    rw [place] at he
    by_cases hlt : h < entry.1
    · rw [if_pos hlt] at he
      exact List.mem_cons.1 he
    · rw [if_neg hlt] at he
      by_cases heq : h = entry.1
      · rw [if_pos heq] at he
        exact (List.mem_cons.1 he).imp_right (List.mem_cons_of_mem _)
      · rw [if_neg heq] at he
        rcases List.mem_cons.1 he with rfl | he
        · exact .inr List.mem_cons_self
        · exact (ih he).imp_right (List.mem_cons_of_mem _)

theorem place_ascending (h : Handle) (o : Object) {entries : List (Handle × Object)}
    (ha : entries.Pairwise (·.1 < ·.1)) : (place h o entries).Pairwise (·.1 < ·.1) := by
  induction entries with
  | nil => exact List.pairwise_singleton _ _
  | cons entry rest ih =>
    obtain ⟨hfirst, hrest⟩ := List.pairwise_cons.1 ha
    rw [place]
    by_cases hlt : h < entry.1
    · rw [if_pos hlt]
      refine List.pairwise_cons.2 ⟨fun e he => ?_, ha⟩
      rcases List.mem_cons.1 he with rfl | he
      · exact hlt
      · exact Nat.lt_trans hlt (hfirst e he)
    · rw [if_neg hlt]
      by_cases heq : h = entry.1
      · rw [if_pos heq]
        exact List.pairwise_cons.2 ⟨fun e he => heq ▸ hfirst e he, hrest⟩
      · rw [if_neg heq]
        refine List.pairwise_cons.2 ⟨fun e he => ?_, ih hrest⟩
        rcases mem_of_mem_place he with rfl | he
        · exact Nat.lt_of_le_of_ne (Nat.le_of_not_lt hlt) (Ne.symm heq)
        · exact hfirst e he

def insert (objects : Objects) (h : Handle) (o : Object) : Objects :=
  ⟨place h o objects.entries, place_ascending h o objects.ascending⟩

def erase (objects : Objects) (h : Handle) : Objects :=
  ⟨objects.entries.filter (·.1 ≠ h), objects.ascending.filter _⟩

def frames (objects : Objects) : List Address :=
  objects.entries.flatMap (·.2.frames)

end Objects

end SvmActivation
