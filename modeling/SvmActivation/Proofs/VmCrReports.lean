import Mathlib.Data.List.Forall2
import SvmActivation.Proofs.Numerals
import SvmActivation.Proofs.VmCrParts

namespace SvmActivation

namespace Text

def standsBetween (c : Char) : Bool :=
  c = ' ' || c = '|' || c = ')'

def splitTerms (text : List Char) : List (List Char) :=
  (text.filter (· ≠ ' ')).splitOn '|'

theorem filter_intercalate {α : Type} (p : α → Bool) (sep : List α) (lists : List (List α)) :
    (sep.intercalate lists).filter p = (sep.filter p).intercalate (lists.map (·.filter p)) := by
  induction lists with
  | nil => rfl
  | cons l rest ih =>
    cases rest with
    | nil => simp
    | cons l' rest =>
      rw [List.intercalate_cons_cons, List.filter_append, List.filter_append, ih]
      exact List.intercalate_cons_cons.symm

theorem mem_of_mem_intercalate {α : Type} {a : α} {sep : List α} {lists : List (List α)}
    (h : a ∈ sep.intercalate lists) : a ∈ sep ∨ ∃ l ∈ lists, a ∈ l := by
  induction lists with
  | nil => cases h
  | cons l rest ih =>
    cases rest with
    | nil => exact .inr ⟨l, List.mem_cons_self, by simpa using h⟩
    | cons l' rest =>
      rw [List.intercalate_cons_cons, List.mem_append, List.mem_append] at h
      rcases h with (h | h) | h
      · exact .inr ⟨l, List.mem_cons_self, h⟩
      · exact .inl h
      · exact (ih h).imp_right fun ⟨k, hk, ha⟩ => ⟨k, List.mem_cons_of_mem _ hk, ha⟩

theorem splitTerms_intercalate {lists : List (List Char)} (hne : lists ≠ [])
    (hblank : ∀ l ∈ lists, ' ' ∉ l) (hbar : ∀ l ∈ lists, '|' ∉ l) :
    splitTerms ([' ', '|', ' '].intercalate lists) = lists := by
  have hkept : lists.map (·.filter (· ≠ ' ')) = lists := by
    refine (List.map_congr_left fun l hl => ?_).trans (List.map_id lists)
    rw [List.filter_eq_self.2]
    · rfl
    · intro c hc
      rw [decide_eq_true_iff]
      rintro rfl
      exact hblank l hl hc
  rw [splitTerms, filter_intercalate, hkept]
  exact List.splitOn_intercalate '|' hbar hne

def inParentheses (text : List Char) : List Char :=
  ((text.dropWhile (· ≠ '(')).drop 1).takeWhile (· ≠ ')')

theorem inParentheses_eq {before inside : List Char} (hbefore : '(' ∉ before)
    (hinside : ')' ∉ inside) (after : List Char) :
    inParentheses (before ++ '(' :: (inside ++ ')' :: after)) = inside := by
  have hskip : ∀ c ∈ before, decide (c ≠ '(') = true := by
    intro c hc
    exact decide_eq_true (ne_of_mem_of_not_mem hc hbefore)
  have hkeep : ∀ c ∈ inside, decide (c ≠ ')') = true := by
    intro c hc
    exact decide_eq_true (ne_of_mem_of_not_mem hc hinside)
  rw [inParentheses, List.dropWhile_append_of_pos hskip, List.dropWhile_cons_of_neg (by decide),
    List.drop_one, List.tail_cons, List.takeWhile_append_of_pos hkeep,
    List.takeWhile_cons_of_neg (by decide), List.append_nil]

end Text

namespace VmCr

open Text

/-- The value that one term of a text names: a flag, or a number for bits without a name. -/
def ofTerm? (term : String) : Option VmCr :=
  match Flag.ofName? term with
  | some flag => some ⟨flag.mask⟩
  | none => (readHex? term.toList).map fun n => ⟨.ofNat 64 n⟩

def ofTerms? : List String → Option VmCr
  | [] => some empty
  | term :: rest => (ofTerm? term).bind fun part => (ofTerms? rest).map (part ∪ ·)

/-- The value of `VM_CR` that the first parentheses of a line tell. -/
def ofLine? (line : String) : Option VmCr :=
  ofTerms? ((splitTerms (inParentheses line.toList)).map String.ofList)

theorem ofTerm?_name (flag : Flag) : ofTerm? flag.name = some ⟨flag.mask⟩ := by
  cases flag <;> rfl

theorem ofTerm?_hex (w : Word) : ofTerm? (hex w.toNat) = some ⟨w⟩ := by
  have hname : Flag.ofName? (hex w.toNat) = none := by
    rw [Flag.ofName?, List.find?_eq_none]
    intro flag _
    have hstart : flag.name.toList.head? ≠ some '0' := by cases flag <;> decide
    intro heq
    rw [of_decide_eq_true heq, toList_hex] at hstart
    exact hstart rfl
  rw [ofTerm?, hname, readHex?_hex]
  simp

theorem ofTerms?_of_forall₂ {terms : List String} {parts : List VmCr}
    (h : List.Forall₂ (fun term part => ofTerm? term = some part) terms parts) :
    ofTerms? terms = some (unite parts) := by
  induction h with
  | nil => rfl
  | cons hterm hrest ih =>
    rw [ofTerms?, hterm, ih]
    rfl

variable (v : VmCr)

theorem terms_name_parts (h : v.isEmpty = false) :
    List.Forall₂ (fun term part => ofTerm? term = some part) v.terms v.parts := by
  have hnames : List.Forall₂ (fun term part => ofTerm? term = some part)
      (v.flags.map Flag.name) (v.flags.map (⟨·.mask⟩)) := by
    rw [List.forall₂_map_left_iff, List.forall₂_map_right_iff, List.forall₂_same]
    exact fun flag _ => ofTerm?_name flag
  rw [terms, if_neg (by simp [h]), parts]
  apply List.rel_append hnames
  split
  · exact .nil
  · exact .cons (ofTerm?_hex v.residue.bits) .nil

/-- The terms of a value name exactly what is in it. -/
theorem ofTerms?_terms : ofTerms? v.terms = some v := by
  cases h : v.isEmpty with
  | true =>
    obtain rfl : v = empty := of_decide_eq_true h
    rfl
  | false => rw [ofTerms?_of_forall₂ (v.terms_name_parts h), unite_parts]

theorem terms_ne_nil : v.terms ≠ [] := by
  intro hnil
  have hread := v.ofTerms?_terms
  rw [hnil] at hread
  obtain rfl : empty = v := Option.some.inj hread
  cases hnil

theorem not_mem_of_mem_terms {term : String} (hterm : term ∈ v.terms) {c : Char}
    (hc : standsBetween c = true) : c ∉ term.toList := by
  have hnames (flag : Flag) : flag.name.toList.all (!standsBetween ·) = true := by
    cases flag <;> decide
  have hhex (n : Nat) : (hex n).toList.all (!standsBetween ·) = true := by
    have halphabet : Radix.hexadecimal.alphabet.all (!standsBetween ·) = true := by decide
    rw [toList_hex, List.all_cons, List.all_cons, List.all_eq_true.2]
    · rfl
    · intro c hdigit
      have hmem := Radix.mem_alphabet_of_read? (Radix.hexadecimal.read?_digits n) hdigit
      exact List.all_eq_true.1 halphabet c hmem
  have hall : term.toList.all (!standsBetween ·) = true := by
    rw [terms] at hterm
    split at hterm
    · rw [List.mem_singleton.1 hterm]
      exact hhex 0
    rcases List.mem_append.1 hterm with hname | hrest
    · obtain ⟨flag, -, rfl⟩ := List.mem_map.1 hname
      exact hnames flag
    · split at hrest
      · cases hrest
      · rw [List.mem_singleton.1 hrest]
        exact hhex _
  intro hmem
  have hnot := List.all_eq_true.1 hall c hmem
  rw [hc] at hnot
  cases hnot

def nameTable : List (String × Nat) :=
  [("DPD", 0), ("R_INIT", 1), ("DIS_A20M", 2), ("LOCK", 3), ("SVMDIS", 4)]

theorem names_eq :
    v.flags.map Flag.name =
      (nameTable.filter fun flag => v.bits.getLsbD flag.2).map Prod.fst := by
  have htable : nameTable = Flag.all.map fun flag => (flag.name, flag.position) := rfl
  have hkept : v.has = fun flag => v.bits.getLsbD flag.position := funext v.has_eq
  rw [htable, List.filter_map, List.map_map, flags, hkept]
  rfl

theorem terms_eq :
    let rest := v.bits &&& ~~~0x1f
    v.terms = if v.bits = 0 then ["0x0"] else
      (nameTable.filter fun flag => v.bits.getLsbD flag.2).map Prod.fst ++
        if rest = 0 then [] else [hex rest.toNat] := by
  intro rest
  have hresidue : v.residue = ⟨rest⟩ := by
    have hall : all.bits = 0x1f := by decide
    exact congrArg (fun mask => (⟨v.bits &&& ~~~mask⟩ : VmCr)) hall
  have hempty (w : Word) : (⟨w⟩ : VmCr).isEmpty = decide (w = 0) := by
    rw [isEmpty, empty, decide_eq_decide, VmCr.mk.injEq]
  have hzero : hex 0 = "0x0" := by decide
  rw [terms, hresidue, hempty rest, hempty v.bits, names_eq, hzero]
  simp only [decide_eq_true_eq]

theorem line_eq :
    (Log.Message.vmCr v).line =
      "DEBUG: VM_CR: VmCrFlags(" ++ " | ".intercalate v.terms ++ "), lock=" ++
        truth (v.bits.getLsbD 3) ++ " svmdis=" ++ truth (v.bits.getLsbD 4) := by
  have hline : (Log.Message.vmCr v).line =
      "DEBUG" ++ ": " ++ ("VM_CR: " ++ ("VmCrFlags" ++ "(" ++ " | ".intercalate v.terms ++ ")") ++
        ", lock=" ++ truth (v.has .locked) ++ " svmdis=" ++ truth (v.has .svmDisabled)) := rfl
  have hopening : "DEBUG: VM_CR: VmCrFlags(" = "DEBUG" ++ ": " ++ "VM_CR: " ++ "VmCrFlags" ++ "(" :=
    by decide
  have hclosing : "), lock=" = ")" ++ ", lock=" := by decide
  rw [hline, v.has_eq, v.has_eq, hopening, hclosing]
  simp only [String.append_assoc, Flag.position]

theorem toList_line :
    (Log.Message.vmCr v).line.toList =
      "DEBUG: VM_CR: VmCrFlags".toList ++
        '(' :: ([' ', '|', ' '].intercalate (v.terms.map String.toList) ++
          ')' :: (", lock=" ++ truth (v.bits.getLsbD 3) ++ " svmdis=" ++
            truth (v.bits.getLsbD 4)).toList) := by
  have hopening : "DEBUG: VM_CR: VmCrFlags(" = "DEBUG: VM_CR: VmCrFlags" ++ "(" := by decide
  have hclosing : "), lock=" = ")" ++ ", lock=" := by decide
  rw [line_eq, hopening, hclosing]
  simp only [String.toList_append, String.toList_intercalate, List.append_assoc]
  rfl

theorem ofLine?_line : ofLine? (Log.Message.vmCr v).line = some v := by
  have hnone {c : Char} (hc : standsBetween c = true) : ∀ l ∈ v.terms.map String.toList, c ∉ l := by
    intro l hl
    obtain ⟨term, hterm, rfl⟩ := List.mem_map.1 hl
    exact v.not_mem_of_mem_terms hterm hc
  have hinside : ')' ∉ [' ', '|', ' '].intercalate (v.terms.map String.toList) := by
    intro hmem
    rcases mem_of_mem_intercalate hmem with hsep | ⟨l, hl, hmem⟩
    · revert hsep
      decide
    · exact hnone (by decide) l hl hmem
  have hne : v.terms.map String.toList ≠ [] := by simp [v.terms_ne_nil]
  rw [ofLine?, toList_line, inParentheses_eq (by decide) hinside,
    splitTerms_intercalate hne (hnone (by decide)) (hnone (by decide)), List.map_map]
  simpa [Function.comp_def] using v.ofTerms?_terms

end VmCr

def Event.vmCr? : Event → Option VmCr
  | message (.vmCr value) => some value
  | _ => none

def vmCrReports (timeline : List Moment) : List VmCr :=
  (timeline.flatMap Moment.events).filterMap Event.vmCr?

@[simp]
theorem vmCrReports_append (earlier later : List Moment) :
    vmCrReports (earlier ++ later) = vmCrReports earlier ++ vmCrReports later := by
  rw [vmCrReports, List.flatMap_append, List.filterMap_append, vmCrReports, vmCrReports]

open Program

theorem log_vmCrReports (message : Log.Message) (m : Machine) :
    vmCrReports ((log message).run m).timeline =
      if m.threshold.admits message.level then (Event.message message).vmCr?.toList else [] := by
  rw [run_log, vmCrReports, List.flatMap_singleton, Moment.events, Machine.events, Machine.report]
  split
  · cases hvalue : (Event.message message).vmCr? <;> simp [hvalue]
  · rfl

namespace Capability

theorem lockKind_vmCrReports (m : Machine) : vmCrReports (lockKind.run m).timeline = [] := by
  simp only [lockKind, run_bind_timeline, vmCrReports_append, log_vmCrReports, Event.vmCr?, run_ite,
    apply_ite Execution.timeline, apply_ite vmCrReports, pure_eq, run_done, Option.toList_none,
    ite_self, List.nil_append]
  rfl

theorem probe_vmCrReports (m : Machine) :
    vmCrReports (probe.run m).timeline =
      if (m.core.cpuid .extendedFeatures).ecx.getLsbD svmBit then
        if m.threshold.admits .debug then [⟨(m.core.readMsr .vmCr).bits⟩] else []
      else [] := by
  have hidentification (m : Machine) :
      vmCrReports (identification.run m).timeline = [] := rfl
  simp only [probe, run_bind_timeline, vmCrReports_append, hidentification, lockKind_vmCrReports,
    log_vmCrReports, Event.vmCr?, run_ite, apply_ite Execution.timeline, apply_ite vmCrReports,
    pure_eq, run_done, Option.toList_none, ite_self, List.nil_append, List.append_nil]
  rfl

/-- The one report of `VM_CR` tells its whole value. -/
theorem probe_reports_whole_vmCr (m : Machine) (v : VmCr) :
    let reported := (probe.run m).events.filterMap Event.vmCr?
    let line := (Event.message (.vmCr v)).text
    let names := (VmCr.nameTable.filter fun flag => v.bits.getLsbD flag.2).map Prod.fst
    let rest := v.bits &&& ~~~0x1f
    let terms := if v.bits = 0 then ["0x0"] else
      names ++ if rest = 0 then [] else [Text.hex rest.toNat]
    (reported =
      if (m.core.cpuid 0x80000001).ecx.getLsbD 1 then
        if m.threshold.admits .debug then [⟨(m.core.readMsr .vmCr).bits⟩] else []
      else []) ∧
    (line = "DEBUG: VM_CR: VmCrFlags(" ++ " | ".intercalate terms ++ "), lock=" ++
        Text.truth (v.bits.getLsbD 3) ++ " svmdis=" ++ Text.truth (v.bits.getLsbD 4) ∧
      VmCr.ofTerms? terms = some v ∧
      ∀ w : VmCr, (Event.message (.vmCr w)).text = line ↔ w = v) ∧
    (v.parts.Pairwise (fun a b => a ∩ b = .empty) ∧ .empty ∉ v.parts ∧
      VmCr.unite v.parts = v) ∧
    (∀ i, v.declared.bits.getLsbD i = (v.bits.getLsbD i && decide (i < 5))) ∧
    VmCr.ofDeclared? v.bits = if v.declared = v then some v else none := by
  intro reported line names rest terms
  have hterms : v.terms = terms := v.terms_eq
  refine ⟨probe_vmCrReports m, ⟨?_, ?_, ?_⟩,
    ⟨v.parts_disjoint, v.empty_not_mem_parts, v.unite_parts⟩, v.getLsbD_declared, rfl⟩
  · rw [← hterms]
    exact v.line_eq
  · rw [← hterms]
    exact v.ofTerms?_terms
  · intro w
    constructor
    · intro hline
      have hread := (w.ofLine?_line.symm.trans (congrArg VmCr.ofLine? hline)).trans v.ofLine?_line
      exact Option.some.inj hread
    · rintro rfl
      rfl

example : (Log.Message.vmCr ⟨0x118⟩).text =
    "VM_CR: VmCrFlags(LOCK | SVMDIS | 0x100), lock=true svmdis=true" := by decide

end Capability

end SvmActivation
