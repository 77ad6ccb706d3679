import Flowsheet.Proofs.Industry.Distinct
import Flowsheet.Proofs.Script.Agreement

set_option autoImplicit false

namespace Flowsheet

section Fresh

variable {seen seen' : List String} {l : Labels} {ls ms : List Labels}

theorem fresh_cons_of_mem (known : l.name ∈ seen) (ls : List Labels) :
    fresh seen (l :: ls) = fresh seen ls := by
  rw [fresh, if_pos (by simpa using known)]

theorem fresh_cons_of_not_mem (new : l.name ∉ seen) (ls : List Labels) :
    fresh seen (l :: ls) = l :: fresh (l.name :: seen) ls := by
  rw [fresh, if_neg (by simpa using new)]

theorem fresh_congr (same : ∀ x, x ∈ seen ↔ x ∈ seen') : fresh seen ls = fresh seen' ls := by
  induction ls generalizing seen seen' with
  | nil => rfl
  | cons l ls ih =>
    by_cases known : l.name ∈ seen
    · rw [fresh_cons_of_mem known, fresh_cons_of_mem ((same _).mp known), ih same]
    · have longer : ∀ x, x ∈ l.name :: seen ↔ x ∈ l.name :: seen' := fun x => by simp [same]
      rw [fresh_cons_of_not_mem known, fresh_cons_of_not_mem fun there => known ((same _).mpr there),
        ih longer]

theorem fresh_append (seen : List String) (ls ms : List Labels) :
    fresh seen (ls ++ ms) = fresh seen ls ++ fresh (seen ++ (fresh seen ls).map (·.name)) ms := by
  induction ls generalizing seen with
  | nil => simp [fresh]
  | cons l ls ih =>
    by_cases known : l.name ∈ seen
    · rw [List.cons_append, fresh_cons_of_mem known, fresh_cons_of_mem known, ih]
    · rw [List.cons_append, fresh_cons_of_not_mem known, fresh_cons_of_not_mem known, ih, List.cons_append]
      congr 2
      exact fresh_congr fun x => by simp [or_left_comm]

theorem freshParts_flatten (seen : List String) (parts : List (List Labels)) :
    (freshParts seen parts).flatten = fresh seen parts.flatten := by
  induction parts generalizing seen with
  | nil => rfl
  | cons part parts ih => rw [freshParts, List.flatten_cons, List.flatten_cons, ih, ← fresh_append]

theorem mem_fresh : l ∈ fresh seen ls ↔ l.name ∉ seen ∧ ls.find? (·.name == l.name) = some l := by
  induction ls generalizing seen with
  | nil => simp [fresh]
  | cons head ls ih =>
    by_cases known : head.name ∈ seen
    · rw [fresh_cons_of_mem known, ih]
      refine and_congr_right fun new => ?_
      rw [List.find?_cons_of_neg (by simpa using fun same : head.name = l.name => new (same ▸ known))]
    · rw [fresh_cons_of_not_mem known, List.mem_cons, ih]
      by_cases same : head.name = l.name
      · rw [List.find?_cons_of_pos (by simpa using same)]
        constructor
        · rintro (rfl | ⟨apart, -⟩)
          · exact ⟨known, rfl⟩
          · simp [same] at apart
        · rintro ⟨-, first⟩
          exact .inl (Option.some.inj first).symm
      · rw [List.find?_cons_of_neg (by simpa using same)]
        constructor
        · rintro (rfl | ⟨apart, first⟩)
          · exact absurd rfl same
          · exact ⟨fun there => apart (List.mem_cons_of_mem _ there), first⟩
        · rintro ⟨new, first⟩
          exact .inr ⟨by simpa [new] using fun eq => same eq.symm, first⟩

theorem names_fresh (seen : List String) (ls : List Labels) : Fresh seen ((fresh seen ls).map (·.name)) := by
  induction ls generalizing seen with
  | nil => simp [fresh, Fresh]
  | cons l ls ih =>
    by_cases known : l.name ∈ seen
    · rw [fresh_cons_of_mem known]
      exact ih seen
    · rw [fresh_cons_of_not_mem known, List.map_cons, fresh_cons]
      exact ⟨known, ih _⟩

theorem fresh_eq_self (distinct : Fresh seen (ls.map (·.name))) : fresh seen ls = ls := by
  induction ls generalizing seen with
  | nil => rfl
  | cons l ls ih =>
    rw [List.map_cons, fresh_cons] at distinct
    rw [fresh_cons_of_not_mem distinct.1, ih distinct.2]

theorem mem_names_fresh {x : String} :
    x ∈ (fresh seen ls).map (·.name) ↔ x ∈ ls.map (·.name) ∧ x ∉ seen := by
  induction ls generalizing seen with
  | nil => simp [fresh]
  | cons l ls ih =>
    by_cases known : l.name ∈ seen
    · rw [fresh_cons_of_mem known, ih, List.map_cons, List.mem_cons]
      constructor
      · exact fun ⟨inside, new⟩ => ⟨.inr inside, new⟩
      · rintro ⟨rfl | inside, new⟩
        · exact absurd known new
        · exact ⟨inside, new⟩
    · rw [fresh_cons_of_not_mem known, List.map_cons, List.mem_cons, ih, List.map_cons, List.mem_cons]
      by_cases same : x = l.name
      · simp [same, known]
      · simp [same]

end Fresh

namespace Industry

variable {N : Type}

def getters (m : MetaProcess N) (ps : List (String × Process N)) : List Labels :=
  let own := fresh [] m.exposed
  own ++ (freshParts (own.map (·.name)) (ps.map fun (_, p) => p.exposed)).flatten

variable (m : MetaProcess N) (ps : List (String × Process N))

theorem getters_eq [Quantity N] : getters m ps = fresh [] (exposed m ps) := by
  rw [exposed, fresh_append, getters, freshParts_flatten, List.nil_append, List.flatMap_def]

theorem fresh_unitEntries [Quantity N] : fresh [] (unitEntries m ps) = getters m ps := by
  have seen (x : String) :
      x ∈ [] ++ (fresh [] m.exposed).map (·.name) ↔ x ∈ m.exposed.map (·.name) := by
    simp only [List.nil_append, mem_names_fresh, List.not_mem_nil, not_false_eq_true, and_true]
  rw [getters_eq, exposed, unitEntries, fresh_append, fresh_append, fresh_congr seen, fresh_congr seen,
    fresh_eq_self (names_fresh _ _)]

theorem nodup_unitEntries : ((unitEntries m ps).map (·.name)).Nodup ↔ (m.exposed.map (·.name)).Nodup := by
  have others := names_fresh (m.exposed.map (·.name)) (ps.flatMap fun (_, p) => p.exposed)
  rw [unitEntries, List.map_append, List.nodup_append]
  exact ⟨fun distinct => distinct.1,
    fun distinct => ⟨distinct, others.1, fun x here y there same => others.2 y there (same ▸ here)⟩⟩

theorem unitEntries_eq_getters [Quantity N] (distinct : (m.exposed.map (·.name)).Nodup) :
    unitEntries m ps = getters m ps := by
  rw [← fresh_unitEntries]
  exact (fresh_eq_self ⟨(nodup_unitEntries m ps).mpr distinct, by simp⟩).symm

theorem mem_exposed_of_shown [Quantity N] {l : Labels}
    (shown : l ∈ getters m ps ∨ l ∈ unitEntries m ps) : l ∈ exposed m ps := by
  rcases shown with getter | entry
  · rw [getters_eq, mem_fresh] at getter
    exact List.mem_of_find?_eq_some getter.2
  · refine (List.mem_append.mp entry).elim (List.mem_append_left _) fun there => List.mem_append_right _ ?_
    exact List.mem_of_find?_eq_some (mem_fresh.mp there).2

theorem names_exposed_nodup {m : MetaProcess N} (distinct : m.Distinct) :
    (m.exposed.map (·.name)).Nodup ↔ m.outcome.name ∉ m.operations.map (·.name) := by
  have operations : (m.operations.map (·.toLabels)).map (·.name) = m.operations.map (·.name) := by
    rw [List.map_map]; rfl
  rw [MetaProcess.exposed, List.map_cons, operations, List.nodup_cons]
  exact and_iff_left distinct.operations

end Industry

end Flowsheet
