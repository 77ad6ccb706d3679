import Mathlib.Data.List.Basic
import Mathlib.Data.List.Dedup
import Mathlib.Data.String.Basic
import Flowsheet.Formula.Canonical
import Flowsheet.Proofs.FirstOccurrence

set_option autoImplicit false

namespace Flowsheet.Formula

variable {N : Type}

def Atomic (f : Formula N) : Prop := f.factors = [f]

def isCompound (e : Formula N) : Bool := !e.isName && !e.isNumber

theorem sortFactors_eq (fs : List (Formula N)) :
    sortFactors fs =
      ((fs.filterMap name?).mergeSort (fun a b => decide (a ≤ b))).map .name ++
        fs.filter isCompound ++ fs.filter isNumber := rfl

@[simp] theorem isName_name (x : String) : (Formula.name x : Formula N).isName = true := rfl

@[simp] theorem isNumber_name (x : String) : (Formula.name x : Formula N).isNumber = false := rfl

@[simp] theorem isCompound_name (x : String) : (Formula.name x : Formula N).isCompound = false := rfl

theorem map_name_filterMap (fs : List (Formula N)) :
    (fs.filterMap name?).map .name = fs.filter isName := by
  induction fs with
  | nil => rfl
  | cons f fs ih => cases f <;> simp [List.filterMap_cons, List.filter_cons, name?, isName, ih]

theorem sortFactors_perm (fs : List (Formula N)) : (sortFactors fs).Perm fs := by
  -- names on one side, what is no name on the other; the latter is compound or a number
  have compound : (fs.filter (!·.isName)).filter isCompound = fs.filter isCompound := by
    rw [List.filter_filter]
    apply List.filter_congr
    intro f _
    cases f <;> rfl
  have numbers : (fs.filter (!·.isName)).filter (!·.isCompound) = fs.filter isNumber := by
    rw [List.filter_filter]
    apply List.filter_congr
    intro f _
    cases f <;> rfl
  have unnamed : (fs.filter isCompound ++ fs.filter isNumber).Perm (fs.filter (!·.isName)) := by
    have parts := List.filter_append_perm isCompound (fs.filter (!·.isName))
    rwa [compound, numbers] at parts
  have named : (((fs.filterMap name?).mergeSort (fun a b => decide (a ≤ b))).map .name).Perm
      (fs.filter isName) := by
    rw [← map_name_filterMap]
    exact (List.mergeSort_perm _ _).map _
  rw [sortFactors_eq, List.append_assoc]
  exact (named.append unnamed).trans (List.filter_append_perm isName fs)

theorem mem_sortFactors {f : Formula N} {fs : List (Formula N)} :
    f ∈ sortFactors fs ↔ f ∈ fs := (sortFactors_perm fs).mem_iff

theorem sortFactors_ne_nil {fs : List (Formula N)} (nonempty : fs ≠ []) : sortFactors fs ≠ [] := by
  obtain ⟨f, member⟩ := List.exists_mem_of_ne_nil fs nonempty
  exact List.ne_nil_of_mem (mem_sortFactors.mpr member)

theorem filterMap_name?_map (xs : List String) :
    (xs.map (Formula.name (N := N))).filterMap name? = xs := by
  induction xs with
  | nil => rfl
  | cons x xs ih => simpa [name?] using ih

theorem filterMap_name?_eq_nil {fs : List (Formula N)} (unnamed : ∀ f ∈ fs, f.isName = false) :
    fs.filterMap name? = [] := by
  rw [List.filterMap_eq_nil_iff]
  intro f member
  simpa [isName] using unnamed f member

theorem filterMap_name?_sortFactors (fs : List (Formula N)) :
    (sortFactors fs).filterMap name? =
      (fs.filterMap name?).mergeSort (fun a b => decide (a ≤ b)) := by
  have compound : (fs.filter isCompound).filterMap name? = [] := by
    apply filterMap_name?_eq_nil
    intro f member
    have kind := (List.mem_filter.mp member).2
    simp only [isCompound, Bool.and_eq_true, Bool.not_eq_true'] at kind
    exact kind.1
  have numbers : (fs.filter isNumber).filterMap name? = [] := by
    apply filterMap_name?_eq_nil
    intro f member
    have kind := (List.mem_filter.mp member).2
    cases f <;> simp_all [isNumber, isName, name?]
  rw [sortFactors_eq, List.filterMap_append, List.filterMap_append, filterMap_name?_map, compound,
    numbers, List.append_nil, List.append_nil]

theorem filter_isCompound_sortFactors (fs : List (Formula N)) :
    (sortFactors fs).filter isCompound = fs.filter isCompound := by
  have numbers : (fs.filter isNumber).filter isCompound = [] := by
    simp [List.filter_filter, isCompound]
  simp [sortFactors_eq, numbers, List.filter_map, Function.comp_def]

theorem filter_isNumber_sortFactors (fs : List (Formula N)) :
    (sortFactors fs).filter isNumber = fs.filter isNumber := by
  have compound : (fs.filter isCompound).filter isNumber = [] := by
    simp +contextual [List.filter_filter, isCompound]
  simp [sortFactors_eq, compound, List.filter_map, Function.comp_def]

theorem sorted_names (fs : List (Formula N)) :
    ((fs.filterMap name?).mergeSort (fun a b => decide (a ≤ b))).Pairwise (· ≤ ·) := by
  have pairs : ((fs.filterMap name?).mergeSort (fun a b => decide (a ≤ b))).Pairwise (fun a b => decide (a ≤ b) = true) :=
    List.pairwise_mergeSort (fun a b c ab bc => by simp only [decide_eq_true_eq] at *; exact le_trans ab bc)
      (fun a b => by simpa using le_total a b) _
  simpa only [decide_eq_true_eq] using pairs

theorem sortFactors_sortFactors (fs : List (Formula N)) :
    sortFactors (sortFactors fs) = sortFactors fs := by
  rw [sortFactors_eq (sortFactors fs), filterMap_name?_sortFactors, filter_isCompound_sortFactors,
    filter_isNumber_sortFactors, List.mergeSort_of_pairwise (by simpa using sorted_names fs), sortFactors_eq]

theorem factors_foldl_mul (fs : List (Formula N)) (f : Formula N) (atomic : ∀ g ∈ fs, g.Atomic) :
    (fs.foldl (.binary .mul) f).factors = f.factors ++ fs := by
  induction fs generalizing f with
  | nil => simp
  | cons g gs ih =>
    have first : g.factors = [g] := atomic g (by simp)
    have rest := ih (.binary .mul f g) (fun h member => atomic h (List.mem_cons_of_mem _ member))
    rw [List.foldl_cons, rest, factors, first, List.append_assoc]
    rfl

theorem factors_productOr (unit : Formula N) {fs : List (Formula N)} (nonempty : fs ≠ [])
    (atomic : ∀ g ∈ fs, g.Atomic) : (productOr unit fs).factors = fs := by
  cases fs with
  | nil => exact absurd rfl nonempty
  | cons f fs =>
    have first : f.factors = [f] := atomic f (by simp)
    rw [productOr, factors_foldl_mul fs f (fun g member => atomic g (List.mem_cons_of_mem _ member)),
      first]
    rfl

theorem productOr_eq {fs : List (Formula N)} (nonempty : fs ≠ []) (unit other : Formula N) :
    productOr unit fs = productOr other fs := by
  cases fs with
  | nil => exact absurd rfl nonempty
  | cons f fs => rfl

theorem canonical_eq_of_atomic {e : Formula N} (atomic : ∀ f ∈ e.factors, f.Atomic) :
    e.canonical.canonical = e.canonical := by
  -- the factors of the product are the sorted factors it was built from
  have nonempty := sortFactors_ne_nil e.factors_ne_nil
  have kept : e.canonical.factors = sortFactors e.factors :=
    factors_productOr e nonempty (fun f member => atomic f (mem_sortFactors.mp member))
  rw [canonical, kept, sortFactors_sortFactors]
  exact productOr_eq nonempty _ _

theorem atomic_of_mem_factors (e : Formula N) : ∀ f ∈ e.factors, f.Atomic := by
  -- a factor of a compound kind is made of canonical forms, which stay as they are
  induction e with
  | number | name => simp [factors, Atomic]
  | signed s e ih =>
    cases s with
    | plus => exact ih
    | minus =>
      have again := canonical_eq_of_atomic ih
      simp only [canonical] at again
      simp [factors, Atomic, again]
  | binary op l r hl hr =>
    have left := canonical_eq_of_atomic hl
    have right := canonical_eq_of_atomic hr
    simp only [canonical] at left right
    cases op with
    | mul =>
      intro f member
      rcases List.mem_append.mp member with inLeft | inRight
      · exact hl f inLeft
      · exact hr f inRight
    | add | sub | div => simp [factors, Atomic, left, right]

theorem canonical_canonical (e : Formula N) : e.canonical.canonical = e.canonical :=
  canonical_eq_of_atomic e.atomic_of_mem_factors

theorem sortFactors_singleton (f : Formula N) : sortFactors [f] = [f] := by
  cases f <;> simp [sortFactors, isName, isNumber, name?, List.filterMap_cons]

theorem canonical_binary {op : Operator} (noProduct : op ≠ .mul) (l r : Formula N) :
    (Formula.binary op l r).canonical = .binary op l.canonical r.canonical := by
  cases op <;> simp_all [canonical, factors, sortFactors_singleton, productOr]

theorem occurrences_foldl_mul (fs : List (Formula N)) (f : Formula N) :
    (fs.foldl (.binary .mul) f).occurrences = f.occurrences ++ fs.flatMap occurrences := by
  induction fs generalizing f with
  | nil => simp
  | cons g gs ih => rw [List.foldl_cons, ih, occurrences, List.flatMap_cons, List.append_assoc]

theorem occurrences_canonical_eq (e : Formula N) :
    e.canonical.occurrences = (sortFactors e.factors).flatMap occurrences := by
  unfold canonical
  have nonempty := sortFactors_ne_nil e.factors_ne_nil
  cases sorted : sortFactors e.factors with
  | nil => exact absurd sorted nonempty
  | cons f fs => rw [productOr, occurrences_foldl_mul, List.flatMap_cons]

theorem flatMap_occurrences_factors (e : Formula N) :
    (e.factors.flatMap occurrences).Perm e.occurrences := by
  -- what holds of the factors of an operand holds of its canonical form
  have step (e : Formula N) (ih : (e.factors.flatMap occurrences).Perm e.occurrences) :
      (productOr e (sortFactors e.factors)).occurrences.Perm e.occurrences := by
    have sorted := (sortFactors_perm e.factors).flatMap_right occurrences
    rw [← occurrences_canonical_eq e] at sorted
    exact sorted.trans ih
  induction e with
  | number | name => simp [factors, occurrences]
  | signed s e ih =>
    cases s with
    | plus => exact ih
    | minus => simpa [factors, occurrences] using step e ih
  | binary op l r hl hr =>
    cases op with
    | mul => simpa [factors, occurrences] using hl.append hr
    | add | sub | div => simpa [factors, occurrences] using (step l hl).append (step r hr)

theorem occurrences_canonical_perm (e : Formula N) : e.canonical.occurrences.Perm e.occurrences := by
  rw [occurrences_canonical_eq]
  exact ((sortFactors_perm e.factors).flatMap_right occurrences).trans e.flatMap_occurrences_factors

theorem mem_identifiers {x : String} {e : Formula N} : x ∈ e.identifiers ↔ x ∈ e.occurrences :=
  List.mem_eraseDups

theorem mem_identifiers_canonical {x : String} {e : Formula N} :
    x ∈ e.canonical.identifiers ↔ x ∈ e.identifiers := by
  rw [mem_identifiers, mem_identifiers, e.occurrences_canonical_perm.mem_iff]

end Flowsheet.Formula
