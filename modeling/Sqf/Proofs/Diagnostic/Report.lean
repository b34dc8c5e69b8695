import Mathlib.Data.List.Perm.Basic
import Sqf.Diagnostic.Report
import Sqf.Proofs.Json.RoundTrip

/-!
# What a report says

A report spelled out has five members (`Diagnostic.toJson_eq`). Nothing of it is lost in print
(`Diagnostic.printable_toJson`), and it tells the diagnostic and the file that it is about from
all others (`Diagnostic.toJson_inj`): the cause by its name and what belongs to it, in whatever
order the members come.
-/

namespace Sqf

namespace Json

theorem str_inj {s t : String} : str s = str t ↔ s = t := by
  simp [str]

theorem nat_inj {m n : Nat} : nat m = nat n ↔ m = n := by
  constructor
  · intro h
    have hdigits : Nat.toDigits 10 m = Nat.toDigits 10 n := by
      rw [← Nat.toList_repr, ← Nat.toList_repr]
      exact congrArg String.toList (number.inj h)
    have hvalue := congrArg (Nat.ofDigitChars 10 · 0) hdigits
    simpa using hvalue
  · exact congrArg nat

theorem obj_inj {members others : List (String × Json)} :
    obj members = obj others ↔ members = others := by
  rw [obj, obj, object.injEq]
  refine (List.map_injective_iff.2 ?_).eq_iff
  rintro ⟨key, value⟩ ⟨key', value'⟩ h
  simpa using h

/-- Objects with sorted members are the same only if they have the same members. -/
theorem perm_of_sortedObj {members others : List (String × Json)}
    (h : sortedObj members = sortedObj others) : members.Perm others := by
  have hsorted := obj_inj.1 h
  exact ((List.mergeSort_perm members _).symm.trans (.of_eq hsorted)).trans
    (List.mergeSort_perm others _)

end Json

namespace Cause

/-- What belongs to a cause are texts and numbers. A refused operand that is none of the arguments
of an array has no number. -/
theorem printable_fields (c : Cause) : ∀ field ∈ c.fields, field.2.Printable := by
  cases c with
  | noApplicableOverload command argument expected received =>
    cases argument with
    | none => simp [fields, Json.Printable.str, Json.Printable.null]
    | some place => simp [fields, Json.Printable.str, Json.Printable.nat]
  | _ => simp [fields, Json.Printable.str, Json.Printable.nat]

theorem printable_toJson (c : Cause) : c.toJson.Printable :=
  .sortedObj (List.forall_mem_cons.2 ⟨.str _, printable_fields c⟩)

/-- What belongs to a cause does not hide its name. -/
theorem key_ne_name (c : Cause) : ∀ field ∈ c.fields, field.1 ≠ "name" := by
  cases c <;> simp [fields]

theorem argument_inj {m n : Option Nat} :
    m.elim Json.null Json.nat = n.elim Json.null Json.nat ↔ m = n := by
  cases m <;> cases n <;> simp [Json.nat_inj]
  all_goals simp [Json.nat]

/-- A cause is known from its name and what belongs to it. -/
theorem toJson_inj {c c' : Cause} : c.toJson = c'.toJson ↔ c = c' := by
  refine ⟨fun h => ?_, congrArg toJson⟩
  have hperm := Json.perm_of_sortedObj h
  have hname : c.name = c'.name := by
    rcases List.mem_cons.1 (hperm.subset List.mem_cons_self) with heq | hmem
    · simpa [Json.str_inj] using heq
    · exact absurd rfl (key_ne_name c' _ hmem)
  rw [hname] at hperm
  have hfields : ∀ field ∈ c.fields, field ∈ c'.fields := fun _ => hperm.cons_inv.mem_iff.1
  -- Two causes of different kinds differ in their names.
  cases c <;> cases c' <;> simp only [name, String.reduceEq] at hname
  all_goals simp [fields, Json.str_inj, Json.nat_inj, argument_inj] at hfields ⊢
  all_goals exact hfields

end Cause

namespace Diagnostic

/-- A report in full. -/
theorem toJson_eq (d : Diagnostic) (path : String) : d.toJson path = .obj [
    ("file", .str path),
    ("kind", d.cause.toJson),
    ("message", .str d.message),
    ("severity", .str d.severity.name),
    ("span", .obj [("end", .nat d.span.stop), ("start", .nat d.span.start)])] := by
  simp [toJson, fields, Json.sortedObj, List.mergeSort]

/-- Nothing of a report is lost in print. -/
theorem printable_toJson (d : Diagnostic) (path : String) : (d.toJson path).Printable := by
  have hspan : (Json.obj [("end", .nat d.span.stop), ("start", .nat d.span.start)]).Printable :=
    .object (by simp [Json.Printable.nat])
  rw [toJson_eq]
  exact .object (by simp [Json.Printable.str, d.cause.printable_toJson, hspan])

/-- A report tells what it is about from everything else. -/
theorem toJson_inj {d d' : Diagnostic} {path path' : String} :
    d.toJson path = d'.toJson path' ↔ d = d' ∧ path = path' := by
  refine ⟨fun h => ?_, fun h => by rw [h.1, h.2]⟩
  rw [toJson_eq, toJson_eq, Json.obj_inj] at h
  simp only [List.cons.injEq, Prod.mk.injEq, Json.str_inj, Json.obj_inj, Json.nat_inj,
    Cause.toJson_inj, true_and, and_true] at h
  obtain ⟨hpath, hcause, -, -, hstop, hstart⟩ := h
  obtain ⟨cause, start, stop⟩ := d
  obtain ⟨cause', start', stop'⟩ := d'
  exact ⟨by rw [Diagnostic.mk.injEq, Span.mk.injEq]; exact ⟨hcause, hstart, hstop⟩, hpath⟩

end Diagnostic

end Sqf
