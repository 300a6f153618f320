import SvmActivation.Session.Basic

namespace SvmActivation.Objects

variable (objects : Objects) {h g : Handle} (o : Object)

section Lookup

variable (entries : List (Handle × Object))

theorem lookup_place_self : (place h o entries).lookup h = some o := by
  induction entries with
  | nil => simp [place]
  | cons entry rest ih =>
    obtain ⟨k, v⟩ := entry
    rw [place]
    split
    · simp
    · split
      · simp
      · rename_i hne
        simp [List.lookup_cons, beq_false_of_ne hne, ih]

theorem lookup_place_of_ne (hg : g ≠ h) :
    (place h o entries).lookup g = entries.lookup g := by
  induction entries with
  | nil => simp [place, List.lookup_cons, beq_false_of_ne hg]
  | cons entry rest ih =>
    obtain ⟨k, v⟩ := entry
    rw [place]
    split
    · simp [List.lookup_cons, beq_false_of_ne hg]
    · split
      · rename_i heq
        cases heq
        simp [List.lookup_cons, beq_false_of_ne hg]
      · simp [List.lookup_cons, ih]

theorem lookup_filter_self : (entries.filter (·.1 ≠ h)).lookup h = none := by
  refine List.lookup_eq_none_iff.2 fun entry he => ?_
  have hne := of_decide_eq_true (List.mem_filter.1 he).2
  simpa using Ne.symm hne

theorem lookup_filter_of_ne (hg : g ≠ h) :
    (entries.filter (·.1 ≠ h)).lookup g = entries.lookup g := by
  induction entries with
  | nil => rfl
  | cons entry rest ih =>
    obtain ⟨k, v⟩ := entry
    by_cases hk : k = h
    · rw [List.filter_cons_of_neg (by simpa using hk), ih, List.lookup_cons, hk,
        beq_false_of_ne hg]
    · rw [List.filter_cons_of_pos (by simpa using hk), List.lookup_cons, List.lookup_cons, ih]

theorem filter_place :
    (place h o entries).filter (·.1 ≠ h) = entries.filter (·.1 ≠ h) := by
  induction entries with
  | nil => simp [place]
  | cons entry rest ih =>
    obtain ⟨k, v⟩ := entry
    rw [place]
    split
    · simp
    · split
      · rename_i heq
        cases heq
        simp
      · rw [List.filter_cons, List.filter_cons, ih]

end Lookup

@[simp]
theorem find?_insert_self : (objects.insert h o).find? h = some o :=
  lookup_place_self o objects.entries

theorem find?_insert_of_ne (hg : g ≠ h) : (objects.insert h o).find? g = objects.find? g :=
  lookup_place_of_ne o objects.entries hg

@[simp]
theorem find?_erase_self : (objects.erase h).find? h = none :=
  lookup_filter_self objects.entries

theorem find?_erase_of_ne (hg : g ≠ h) : (objects.erase h).find? g = objects.find? g :=
  lookup_filter_of_ne objects.entries hg

theorem erase_insert : ((objects.insert h o).erase h).frames = (objects.erase h).frames :=
  congrArg (·.flatMap (·.2.frames)) (filter_place o objects.entries)

def framesAt (h : Handle) : List Address :=
  (objects.find? h).elim [] Object.frames

theorem frames_perm (h : Handle) :
    objects.frames.Perm (objects.framesAt h ++ (objects.erase h).frames) := by
  obtain ⟨entries, ha⟩ := objects
  simp only [frames, framesAt, find?, erase]
  induction entries with
  | nil => exact .refl _
  | cons entry rest ih =>
    obtain ⟨k, v⟩ := entry
    obtain ⟨hfirst, hrest⟩ := List.pairwise_cons.1 ha
    by_cases hk : k = h
    · have hothers : rest.filter (·.1 ≠ h) = rest :=
        List.filter_eq_self.2 fun e he => by simpa using Nat.ne_of_gt (hk ▸ hfirst e he)
      rw [List.filter_cons_of_neg (by simpa using hk), hothers, List.lookup_cons, hk,
        beq_self_eq_true]
      exact .refl _
    · rw [List.filter_cons_of_pos (by simpa using hk), List.lookup_cons,
        beq_false_of_ne (Ne.symm hk), List.flatMap_cons, List.flatMap_cons]
      exact ((ih hrest).append_left _).trans (List.perm_append_comm_assoc ..)

variable {objects o} {o' : Object}

theorem framesAt_of_find? (hfind : objects.find? h = some o) : objects.framesAt h = o.frames := by
  rw [framesAt, hfind]
  rfl

theorem mem_frames (hfind : objects.find? h = some o) {frame : Address} (hf : frame ∈ o.frames) :
    frame ∈ objects.frames := by
  apply (objects.frames_perm h).mem_iff.2
  rw [framesAt_of_find? hfind]
  exact List.mem_append_left _ hf

theorem mem_frames_of_mem_erase {frame : Address} (hf : frame ∈ (objects.erase h).frames) :
    frame ∈ objects.frames := by
  apply (objects.frames_perm h).mem_iff.2
  exact List.mem_append_right _ hf

theorem mem_frames_insert {frame : Address} (hf : frame ∈ (objects.insert h o).frames) :
    frame ∈ o.frames ∨ frame ∈ objects.frames := by
  have hsplit := ((objects.insert h o).frames_perm h).mem_iff.1 hf
  rw [framesAt_of_find? (objects.find?_insert_self o), erase_insert] at hsplit
  rcases List.mem_append.1 hsplit with hf | hf
  · exact .inl hf
  · exact .inr (mem_frames_of_mem_erase hf)

theorem disjoint_of_nodup (hdistinct : objects.frames.Nodup) (hfind : objects.find? h = some o)
    (hother : objects.find? g = some o') (hne : h ≠ g) {frame : Address} (hf : frame ∈ o.frames) :
    frame ∉ o'.frames := by
  have hsplit := (objects.frames_perm h).nodup_iff.1 hdistinct
  rw [framesAt_of_find? hfind] at hsplit
  intro hf'
  apply (List.nodup_append.1 hsplit).2.2 frame hf frame _ rfl
  apply mem_frames (h := g) _ hf'
  rw [objects.find?_erase_of_ne (Ne.symm hne)]
  exact hother

end SvmActivation.Objects
