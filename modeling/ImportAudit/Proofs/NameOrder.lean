import ImportAudit.Script.Export
import Mathlib.Data.List.Nodup
import Mathlib.Data.String.Basic

/-! Lists in which nothing comes twice. Sorted by names that are all different, a list ascends strictly;
exported names are sorted with each name once. -/
namespace ImportAudit

/-- Different names are put in their strict order. -/
theorem ascends_by_name {α : Type} {items : List α} (name : α → String)
    (once : (items.map name).Nodup) :
    (items.mergeSort fun a b => name a ≤ name b).Pairwise fun a b => name a < name b := by
  have sorted : (items.mergeSort fun a b => name a ≤ name b).Pairwise
      fun a b => decide (name a ≤ name b) = true := by
    apply List.pairwise_mergeSort
    · intro a b c
      simpa using fun before after => String.le_trans before after
    · intro a b
      simpa using String.le_total (name a) (name b)
  have apart : (items.mergeSort fun a b => name a ≤ name b).Pairwise fun a b => name a ≠ name b :=
    ((List.mergeSort_perm items _).pairwise_iff Ne.symm).mpr (List.pairwise_map.mp once)
  refine (sorted.and apart).imp fun {a b} both => ?_
  exact lt_of_le_of_ne (of_decide_eq_true both.1) both.2

theorem nodup_eraseDups {α : Type} [BEq α] [LawfulBEq α] (items : List α) : items.eraseDups.Nodup := by
  induction size : items.length using Nat.strong_induction_on generalizing items with
  | _ n ih =>
      cases items with
      | nil => exact List.nodup_nil
      | cons first items =>
          have shorter : (items.filter fun other => !other == first).length < n := by
            have bound := List.length_filter_le (fun other => !other == first) items
            rw [← size, List.length_cons]
            omega
          rw [List.eraseDups_cons, List.nodup_cons]
          refine ⟨fun again => ?_, ih _ shorter _ rfl⟩
          simpa using List.mem_filter.mp (List.mem_eraseDups.mp again)

namespace Script

theorem mem_sortedNames {name : String} {names : List String} :
    name ∈ sortedNames names ↔ name ∈ names := by
  rw [sortedNames, List.mem_mergeSort, List.mem_eraseDups]

theorem sortedNames_ascend (names : List String) : (sortedNames names).Pairwise (· < ·) := by
  have once : (names.eraseDups.map id).Nodup := by
    rw [List.map_id]
    exact nodup_eraseDups names
  exact ascends_by_name id once

end Script
end ImportAudit
