set_option autoImplicit false

namespace Flowsheet

variable {α β : Type} [BEq α] [LawfulBEq α] {k l : α}

theorem mem_of_lookup {entries : List (α × β)} {b : β} (found : entries.lookup k = some b) : (k, b) ∈ entries := by
  obtain ⟨before, after, here, -⟩ := List.lookup_eq_some_iff.mp found
  simp [here]

theorem lookup_filter_ne (other : l ≠ k) (entries : List (α × β)) :
    (entries.filter fun x => !(x.1 == k)).lookup l = entries.lookup l := by
  induction entries with
  | nil => rfl
  | cons x rest ih =>
    obtain ⟨m, b⟩ := x
    by_cases same : m = k
    next =>
      subst same
      rw [List.filter_cons_of_neg (by simp), ih, List.lookup_cons, beq_false_of_ne other]
    next => rw [List.filter_cons_of_pos (by simpa using same), List.lookup_cons, List.lookup_cons, ih]

theorem lookup_filter_self (entries : List (α × β)) : (entries.filter fun x => !(x.1 == k)).lookup k = none := by
  rw [List.lookup_eq_none_iff]
  intro x inside
  have other : x.1 ≠ k := by simpa using (List.mem_filter.mp inside).2
  simpa using Ne.symm other

end Flowsheet
