import Mathlib.Data.List.Forall2

set_option autoImplicit false

namespace Flowsheet

variable {α β ε : Type}

theorem bind_eq_ok {x : Except ε α} {f : α → Except ε β} {b : β} :
    x >>= f = .ok b ↔ ∃ a, x = .ok a ∧ f a = .ok b := by
  cases x with
  | error err => simp [bind, Except.bind]
  | ok a => simp [bind, Except.bind]

theorem bind_eq_error {x : Except ε α} {f : α → Except ε β} {e : ε} :
    x >>= f = .error e ↔ x = .error e ∨ ∃ a, x = .ok a ∧ f a = .error e := by
  cases x with
  | error err => simp [bind, Except.bind]
  | ok a => simp [bind, Except.bind]

theorem map_eq_ok {x : Except ε α} {f : α → β} {b : β} :
    x.map f = .ok b ↔ ∃ a, x = .ok a ∧ f a = b := by
  cases x with
  | error err => simp [Except.map]
  | ok a => simp [Except.map]

theorem toOption_eq_some {x : Except ε α} {a : α} : x.toOption = some a ↔ x = .ok a := by
  cases x <;> simp [Except.toOption]

theorem exists_ok {x : Except ε α} (succeeds : x.toOption.isSome = true) : ∃ a, x = .ok a := by
  cases x with
  | error err => cases succeeds
  | ok a => exact ⟨a, rfl⟩

theorem mapError_eq_ok {ε' : Type} {x : Except ε α} {f : ε → ε'} {a : α} :
    x.mapError f = .ok a ↔ x = .ok a := by
  cases x with
  | error err => simp [Except.mapError]
  | ok a => simp [Except.mapError]

theorem foldlM_cons_eq_ok {f : β → α → Except ε β} {x : α} {xs : List α} {s t : β} :
    (x :: xs).foldlM f s = .ok t ↔ ∃ u, f s x = .ok u ∧ xs.foldlM f u = .ok t := by
  rw [List.foldlM_cons, bind_eq_ok]

theorem foldlM_append_eq_ok {f : β → α → Except ε β} {xs ys : List α} {s t : β} :
    (xs ++ ys).foldlM f s = .ok t ↔ ∃ u, xs.foldlM f s = .ok u ∧ ys.foldlM f u = .ok t := by
  rw [List.foldlM_append, bind_eq_ok]

theorem step_of_foldlM_eq_ok {f : β → α → Except ε β} {xs : List α} {s t : β}
    (done : xs.foldlM f s = .ok t) : ∀ x ∈ xs, ∃ u v, f u x = .ok v := by
  induction xs generalizing s with
  | nil => simp
  | cons x xs ih =>
    obtain ⟨u, first, rest⟩ := foldlM_cons_eq_ok.mp done
    intro y member
    rcases List.mem_cons.mp member with rfl | member
    · exact ⟨s, u, first⟩
    · exact ih rest y member

theorem foldlM_eq_error {f : β → α → Except ε β} {xs : List α} {s : β} {e : ε} :
    xs.foldlM f s = .error e ↔ ∃ before x after t,
      xs = before ++ x :: after ∧ before.foldlM f s = .ok t ∧ f t x = .error e := by
  constructor
  · intro failed
    induction xs generalizing s with
    | nil => cases failed
    | cons x xs ih =>
      rw [List.foldlM_cons] at failed
      cases first : f s x with
      | error other =>
        rw [first] at failed
        exact ⟨[], x, xs, s, rfl, rfl, first.trans failed⟩
      | ok u =>
        rw [first] at failed
        obtain ⟨before, y, after, t, rfl, ran, last⟩ := ih failed
        exact ⟨x :: before, y, after, t, rfl, foldlM_cons_eq_ok.mpr ⟨u, first, ran⟩, last⟩
  · rintro ⟨before, x, after, t, rfl, ran, failed⟩
    rw [List.foldlM_append, ran]
    change (x :: after).foldlM f t = .error e
    rw [List.foldlM_cons, failed]
    rfl

theorem then_eq_ok {x : Except ε Unit} {y : Except ε β} {b : β} :
    (x >>= fun _ => y) = .ok b ↔ x = .ok () ∧ y = .ok b := by
  rw [bind_eq_ok]
  exact ⟨fun ⟨⟨⟩, both⟩ => both, fun both => ⟨(), both⟩⟩

theorem forM_eq_ok {f : α → Except ε Unit} {xs : List α} :
    xs.forM f = .ok () ↔ ∀ x ∈ xs, f x = .ok () := by
  induction xs with
  | nil => exact ⟨nofun, fun _ => rfl⟩
  | cons x xs ih =>
    rw [List.forM_eq_forM, List.forM_cons, then_eq_ok, ← List.forM_eq_forM, ih, List.forall_mem_cons]

theorem mapM_eq_ok {f : α → Except ε β} {xs : List α} {ys : List β} :
    xs.mapM f = .ok ys ↔ List.Forall₂ (fun x y => f x = .ok y) xs ys := by
  induction xs generalizing ys with
  | nil => exact ⟨fun done => by cases done; exact .nil, fun pairs => by cases pairs; rfl⟩
  | cons x xs ih =>
    simp only [List.mapM_cons, bind_eq_ok, List.forall₂_cons_left_iff, ih]
    constructor
    · rintro ⟨y, first, zs, others, last⟩
      cases last
      exact ⟨y, zs, first, others, rfl⟩
    · rintro ⟨y, zs, first, others, rfl⟩
      exact ⟨y, first, zs, others, rfl⟩

theorem mapM_of_ok {f : α → Except ε β} {g : α → β} {xs : List α} (each : ∀ x ∈ xs, f x = .ok (g x)) :
    xs.mapM f = .ok (xs.map g) :=
  mapM_eq_ok.mpr (List.forall₂_map_right_iff.mpr (List.forall₂_same.mpr each))

theorem mapM_eq_error {f : α → Except ε β} {xs : List α} {e : ε} :
    xs.mapM f = .error e ↔ ∃ before x after ys,
      xs = before ++ x :: after ∧ before.mapM f = .ok ys ∧ f x = .error e := by
  constructor
  · intro failed
    induction xs with
    | nil => cases failed
    | cons x xs ih =>
      rw [List.mapM_cons, bind_eq_error] at failed
      rcases failed with first | ⟨y, first, failed⟩
      · exact ⟨[], x, xs, [], rfl, rfl, first⟩
      · rcases bind_eq_error.mp failed with rest | ⟨ys, -, last⟩
        · obtain ⟨before, z, after, ys, rfl, done, here⟩ := ih rest
          refine ⟨x :: before, z, after, y :: ys, rfl, ?_, here⟩
          rw [List.mapM_cons, first, done]
          rfl
        · cases last
  · rintro ⟨before, x, after, ys, rfl, done, failed⟩
    rw [List.mapM_append, done, List.mapM_cons, failed]
    rfl

theorem exists_forall₂_iff {r : α → β → Prop} {xs : List α} :
    (∃ ys, List.Forall₂ r xs ys) ↔ ∀ x ∈ xs, ∃ y, r x y := by
  induction xs with
  | nil => exact ⟨fun _ => nofun, fun _ => ⟨[], .nil⟩⟩
  | cons x xs ih =>
    rw [List.forall_mem_cons, ← ih]
    simp only [List.forall₂_cons_left_iff]
    constructor
    · rintro ⟨_, y, ys, first, others, rfl⟩
      exact ⟨⟨y, first⟩, ys, others⟩
    · rintro ⟨⟨y, first⟩, ys, others⟩
      exact ⟨_, y, ys, first, others, rfl⟩

theorem exists_left_of_mem {r : α → β → Prop} {xs : List α} {ys : List β} {y : β}
    (matched : List.Forall₂ r xs ys) (member : y ∈ ys) : ∃ x ∈ xs, r x y := by
  induction matched with
  | nil => cases member
  | cons first _ ih =>
    rcases List.mem_cons.mp member with rfl | member
    · exact ⟨_, List.mem_cons_self, first⟩
    · obtain ⟨x, inside, related⟩ := ih member
      exact ⟨x, List.mem_cons_of_mem _ inside, related⟩

/-- Two computations that both fail, or both succeed with related results. -/
inductive Alike (r : α → β → Prop) : Except ε α → Except ε β → Prop
  | failed {e e' : ε} : Alike r (.error e) (.error e')
  | done {a : α} {b : β} (related : r a b) : Alike r (.ok a) (.ok b)

namespace Alike

variable {r : α → β → Prop} {x : Except ε α} {y : Except ε β}

theorem rfl {x : Except ε α} : Alike Eq x x := by
  cases x with
  | error e => exact .failed
  | ok a => exact .done (Eq.refl a)

theorem bind {α' β' : Type} {r' : α' → β' → Prop} {f : α → Except ε α'} {g : β → Except ε β'}
    (first : Alike r x y) (rest : ∀ a b, r a b → Alike r' (f a) (g b)) : Alike r' (x >>= f) (y >>= g) := by
  cases first with
  | failed => exact .failed
  | done related => exact rest _ _ related

theorem map {α' β' : Type} {r' : α' → β' → Prop} {f : α → α'} {g : β → β'} (first : Alike r x y)
    (rest : ∀ a b, r a b → r' (f a) (g b)) : Alike r' (x.map f) (y.map g) := by
  cases first with
  | failed => exact .failed
  | done related => exact .done (rest _ _ related)

theorem mapError {ε' : Type} {f g : ε → ε'} (alike : Alike r x y) : Alike r (x.mapError f) (y.mapError g) := by
  cases alike with
  | failed => exact .failed
  | done related => exact .done related

theorem mapM {f g : α → Except ε β} (xs : List α) (each : ∀ a ∈ xs, Alike Eq (f a) (g a)) :
    Alike Eq (xs.mapM f) (xs.mapM g) := by
  induction xs with
  | nil => exact .rfl
  | cons a xs ih =>
    rw [List.mapM_cons, List.mapM_cons]
    refine (each a List.mem_cons_self).bind fun b _ same => ?_
    refine (ih fun a inside => each a (List.mem_cons_of_mem _ inside)).bind fun bs _ others => ?_
    subst same others
    exact .rfl

end Alike

end Flowsheet
