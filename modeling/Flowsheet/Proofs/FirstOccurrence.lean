import Mathlib.Data.List.Dedup
import Mathlib.Data.String.Basic

set_option autoImplicit false

namespace Flowsheet

theorem eraseInduction {motive : List String → Prop} (nil : motive [])
    (cons : ∀ x xs, motive (xs.filter fun y => !y == x) → motive (x :: xs)) (xs : List String) : motive xs := by
  induction length : xs.length using Nat.strong_induction_on generalizing xs with
  | _ n ih =>
    cases xs with
    | nil => exact nil
    | cons x xs =>
      have shorter : (xs.filter fun y => !y == x).length < n := by
        have := List.length_filter_le (fun y => !y == x) xs
        simp only [List.length_cons] at length
        omega
      exact cons x xs (ih _ shorter _ rfl)

theorem nodup_eraseDups (xs : List String) : xs.eraseDups.Nodup := by
  induction xs using eraseInduction with
  | nil => exact .nil
  | cons x xs ih =>
    rw [List.eraseDups_cons, List.nodup_cons]
    exact ⟨by simp [List.mem_eraseDups], ih⟩

theorem idxOf_filter_lt {keep : String → Bool} {xs : List String} {x y : String} (first : keep x = true)
    (second : keep y = true) (before : (xs.filter keep).idxOf x < (xs.filter keep).idxOf y) :
    xs.idxOf x < xs.idxOf y := by
  induction xs with
  | nil => simp at before
  | cons z xs ih =>
    by_cases kept : keep z = true
    next =>
      rw [List.filter_cons_of_pos kept] at before
      simp only [List.idxOf_cons] at before ⊢
      cases here : z == x <;> cases there : z == y <;> simp_all
    next =>
      rw [List.filter_cons_of_neg kept] at before
      have other {w : String} (kept' : keep w = true) : z ≠ w := fun same => kept (same ▸ kept')
      rw [List.idxOf_cons_ne _ (other first), List.idxOf_cons_ne _ (other second)]
      exact Nat.succ_lt_succ (ih before)

theorem inOrder_eraseDups (xs : List String) : xs.eraseDups.Pairwise fun x y => xs.idxOf x < xs.idxOf y := by
  induction xs using eraseInduction with
  | nil => exact .nil
  | cons x xs ih =>
    have other {y : String} (inside : y ∈ (xs.filter fun y => !y == x).eraseDups) : y ≠ x := by
      simpa using (List.mem_filter.mp (List.mem_eraseDups.mp inside)).2
    rw [List.eraseDups_cons, List.pairwise_cons]
    refine ⟨fun y inside => ?_, ?_⟩
    · rw [List.idxOf_cons_self, List.idxOf_cons_ne _ (other inside).symm]
      exact Nat.succ_pos _
    · refine ih.imp_of_mem fun {y z} first second before => ?_
      rw [List.idxOf_cons_ne _ (other first).symm, List.idxOf_cons_ne _ (other second).symm]
      exact Nat.succ_lt_succ (idxOf_filter_lt (by simpa using other first) (by simpa using other second) before)

theorem filter_eraseDups (keep : String → Bool) (xs : List String) :
    xs.eraseDups.filter keep = (xs.filter keep).eraseDups := by
  induction xs using eraseInduction with
  | nil => rfl
  | cons x xs ih =>
    rw [List.eraseDups_cons]
    by_cases kept : keep x = true
    next =>
      rw [List.filter_cons_of_pos kept, List.filter_cons_of_pos kept, List.eraseDups_cons, ih, List.filter_comm]
    next =>
      rw [List.filter_cons_of_neg kept, List.filter_cons_of_neg kept, ih, List.filter_filter]
      congr 1
      refine List.filter_congr fun y _ => ?_
      -- what is kept is not `x`
      by_cases same : y = x <;> simp_all

theorem eraseDups_concat (xs : List String) (x : String) :
    (xs ++ [x]).eraseDups = if x ∈ xs then xs.eraseDups else xs.eraseDups ++ [x] := by
  rw [List.eraseDups_append]
  by_cases known : x ∈ xs
  · simp [List.removeAll, known]
  · simp [List.removeAll, known, List.eraseDups_cons]

theorem eraseDups_map_eraseDups (f : String → String) (xs : List String) :
    (xs.eraseDups.map f).eraseDups = (xs.map f).eraseDups := by
  induction xs using eraseInduction with
  | nil => rfl
  | cons x xs ih =>
    -- a name that `f` tells from `x` is another name than `x`
    have others : (((xs.filter fun y => !y == x).map f).filter fun z => !z == f x) =
        (xs.map f).filter fun z => !z == f x := by
      rw [List.filter_map, List.filter_map, List.filter_filter]
      congr 1
      refine List.filter_congr fun y _ => ?_
      by_cases same : y = x <;> simp_all
    rw [List.eraseDups_cons, List.map_cons, List.map_cons, List.eraseDups_cons, List.eraseDups_cons,
      ← filter_eraseDups, ih, filter_eraseDups, others]

end Flowsheet
