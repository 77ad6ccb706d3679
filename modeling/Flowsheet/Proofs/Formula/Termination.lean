import Flowsheet.Proofs.Formula.NormalForm
import Mathlib.Order.WellFounded

set_option autoImplicit false

namespace Flowsheet.Formula

variable {N : Type}

inductive Call (N : Type) where
  | rewrite (e : Formula N)
  | collect (e : Formula N)

def Call.formula : Call N → Formula N
  | .rewrite e | .collect e => e

-- Twice the size of the formula, and one more for the call that only passes the formula on: products are
-- rewritten by collecting, and anything else is collected by rewriting.
def Call.measure : Call N → Nat
  | .rewrite e => 2 * e.size + if e.isProduct then 1 else 0
  | .collect e => 2 * e.size + if e.isProduct then 0 else 1

/-- The calls that a call makes, in the order of the cases of `Rewrites` and `Collects`. -/
inductive Calls : Call N → Call N → Prop
  | plus (e : Formula N) : Calls (.rewrite (.signed .plus e)) (.rewrite e)
  | minus (e : Formula N) : Calls (.rewrite (.signed .minus e)) (.rewrite e)
  | product (l r : Formula N) : Calls (.rewrite (.binary .mul l r)) (.collect (.binary .mul l r))
  | left {op : Operator} (l r : Formula N) (noProduct : op ≠ .mul) : Calls (.rewrite (.binary op l r)) (.rewrite l)
  | right {op : Operator} (l r : Formula N) (noProduct : op ≠ .mul) : Calls (.rewrite (.binary op l r)) (.rewrite r)
  | first (l r : Formula N) : Calls (.collect (.binary .mul l r)) (.collect l)
  | second (l r : Formula N) : Calls (.collect (.binary .mul l r)) (.collect r)
  | factor {e : Formula N} (single : e.isProduct = false) : Calls (.collect e) (.rewrite e)
  | again {e c : Formula N} (single : e.isProduct = false) (rewritten : Rewrites e c) (product : c.isProduct = true) :
    Calls (.collect e) (.collect c)

def Call.Answered : Call N → Prop
  | .rewrite e => ∃ c, Rewrites e c
  | .collect e => ∃ fs, Collects e fs

def plusses (e : Formula N) : Nat → Formula N
  | 0 => e
  | n + 1 => .signed .plus (e.plusses n)

def sizes : List (Formula N) → Nat
  | [] => 0
  | f :: fs => f.size + 1 + sizes fs

theorem sizes_append (fs gs : List (Formula N)) : sizes (fs ++ gs) = sizes fs + sizes gs := by
  induction fs with
  | nil => simp [sizes]
  | cons f fs ih =>
    rw [List.cons_append, sizes, sizes, ih]
    omega

theorem sizes_of_perm {fs gs : List (Formula N)} (perm : fs.Perm gs) : sizes fs = sizes gs := by
  induction perm with
  | nil => rfl
  | cons f _ ih => rw [sizes, sizes, ih]
  | swap f g fs =>
    simp only [sizes]
    omega
  | trans _ _ first second => exact first.trans second

theorem size_productOr (unit : Formula N) {fs : List (Formula N)} (nonempty : fs ≠ []) :
    (productOr unit fs).size + 1 = sizes fs := by
  induction fs using List.reverseRecOn with
  | nil => exact absurd rfl nonempty
  | append_singleton fs g ih =>
    by_cases empty : fs = []
    next => simp [empty, productOr, sizes]
    next =>
      rw [productOr_concat unit empty, size, sizes_append, ← ih empty]
      simp only [sizes]
      omega

mutual

theorem Rewrites.size_le {e c : Formula N} : Rewrites e c → c.size ≤ e.size
  | .number _ => Nat.le_refl _
  | .name _ => Nat.le_refl _
  | .plus body => body.size_le.trans (Nat.le_succ _)
  | .minus body => Nat.succ_le_succ body.size_le
  | .product collected => by
    obtain ⟨nonempty, small⟩ := collected.sizes_le
    rw [← sizes_of_perm (sortFactors_perm _), ← size_productOr _ (sortFactors_ne_nil nonempty)] at small
    exact Nat.le_of_succ_le_succ small
  | .binary _ left right => by
    have := left.size_le
    have := right.size_le
    simp only [size]
    omega

theorem Collects.sizes_le {e : Formula N} {fs : List (Formula N)} : Collects e fs → fs ≠ [] ∧ sizes fs ≤ e.size + 1
  | .product left right => by
    obtain ⟨nonempty, first⟩ := left.sizes_le
    have second := right.sizes_le.2
    refine ⟨List.append_ne_nil_of_left_ne_nil nonempty _, ?_⟩
    rw [sizes_append, size]
    omega
  | .again _ rewritten _ collected => by
    obtain ⟨nonempty, small⟩ := collected.sizes_le
    exact ⟨nonempty, small.trans (Nat.succ_le_succ rewritten.size_le)⟩
  | .factor _ rewritten _ => ⟨List.cons_ne_nil _ _, by simpa [sizes] using rewritten.size_le⟩

end

theorem isProduct_canonical_of_product (l r : Formula N) : (Formula.binary .mul l r).canonical.isProduct = true := by
  have two : 2 ≤ (sortFactors (Formula.binary .mul l r).factors).length := by
    have first := List.length_pos_iff.mpr l.factors_ne_nil
    have second := List.length_pos_iff.mpr r.factors_ne_nil
    rw [(sortFactors_perm _).length_eq, factors, List.length_append]
    omega
  unfold canonical
  generalize sortFactors (Formula.binary .mul l r).factors = fs at two
  obtain ⟨gs, g, rfl⟩ := (List.eq_nil_or_concat' fs).resolve_left (by rintro rfl; simp at two)
  rw [productOr_concat _ (by rintro rfl; simp at two)]
  rfl

theorem canonical_plusses (e : Formula N) (n : Nat) : (e.plusses n).canonical = e.canonical := by
  induction n with
  | zero => rfl
  | succ n ih => rw [plusses, canonical_plus, ih]

theorem isProduct_canonical_iff {e : Formula N} (single : e.isProduct = false) :
    e.canonical.isProduct = true ↔ ∃ n l r, e = (Formula.binary .mul l r).plusses (n + 1) := by
  constructor
  · intro product
    induction e with
    | number v => simp [isProduct] at product
    | name x => simp [isProduct] at product
    | signed s e ih =>
      cases s with
      | minus => rw [canonical_minus] at product; cases product
      | plus =>
        rw [canonical_plus] at product
        by_cases inner : e.isProduct = true
        next =>
          unfold isProduct at inner
          split at inner
          next l r => exact ⟨0, l, r, rfl⟩
          next => cases inner
        next =>
          obtain ⟨n, l, r, rfl⟩ := ih (by simpa using inner) product
          exact ⟨n + 1, l, r, rfl⟩
    | binary op l r =>
      cases op with
      | mul => cases single
      | add | sub | div => rw [canonical_binary (by decide)] at product; cases product
  · rintro ⟨n, l, r, rfl⟩
    rw [canonical_plusses]
    exact isProduct_canonical_of_product l r

theorem Rewrites.size_lt {e c : Formula N} (rewritten : Rewrites e c) (single : e.isProduct = false)
    (product : c.isProduct = true) : c.size < e.size := by
  cases rewritten with
  | number | name | minus => cases product
  | plus body => exact Nat.lt_succ_of_le body.size_le
  | product => cases single
  | binary noProduct => simp [isProduct_of_ne noProduct] at product

theorem Call.measure_lt {call call' : Call N} (smaller : call'.formula.size < call.formula.size) :
    call'.measure < call.measure := by
  have low : 2 * call.formula.size ≤ call.measure := by
    cases call <;> exact Nat.le_add_right _ _
  have high : call'.measure ≤ 2 * call'.formula.size + 1 := by
    cases call' <;> simp only [measure, formula] <;> split <;> omega
  omega

theorem Calls.decreases {call call' : Call N} (calls : Calls call call') : call'.measure < call.measure := by
  cases calls with
  | plus e | minus e => exact Call.measure_lt (Nat.lt_succ_self _)
  | left l r _ | first l r => exact Call.measure_lt (by simp only [Call.formula, size]; omega)
  | right l r _ | second l r => exact Call.measure_lt (by simp only [Call.formula, size]; omega)
  | again single rewritten product => exact Call.measure_lt (rewritten.size_lt single product)
  -- The formula is passed on as it is.
  | product l r => simp [Call.measure, isProduct]
  | factor single => simp [Call.measure, single]

theorem wellFounded_calls : WellFounded fun call' call : Call N => Calls call call' :=
  (InvImage.wf Call.measure wellFounded_lt).mono fun _ _ calls => calls.decreases

theorem answered_of_calls {call : Call N} (answered : ∀ call', Calls call call' → call'.Answered) : call.Answered := by
  cases call with
  | rewrite e =>
    cases e with
    | number v => exact ⟨_, .number v⟩
    | name x => exact ⟨_, .name x⟩
    | signed s e =>
      cases s with
      | plus =>
        obtain ⟨c, body⟩ := answered _ (.plus e)
        exact ⟨c, .plus body⟩
      | minus =>
        obtain ⟨c, body⟩ := answered _ (.minus e)
        exact ⟨_, .minus body⟩
    | binary op l r =>
      by_cases product : op = .mul
      next =>
        subst product
        obtain ⟨fs, collected⟩ := answered _ (.product l r)
        exact ⟨productOr l (sortFactors fs), .product collected⟩
      next =>
        obtain ⟨l', left⟩ := answered _ (.left l r product)
        obtain ⟨r', right⟩ := answered _ (.right l r product)
        exact ⟨_, .binary product left right⟩
  | collect e =>
    cases single : e.isProduct with
    | true =>
      unfold isProduct at single
      split at single
      next l r =>
        obtain ⟨fs, left⟩ := answered _ (.first l r)
        obtain ⟨gs, right⟩ := answered _ (.second l r)
        exact ⟨_, .product left right⟩
      next => cases single
    | false =>
      -- A factor that becomes a product is collected from once more.
      obtain ⟨c, rewritten⟩ := answered _ (.factor single)
      cases product : c.isProduct with
      | false => exact ⟨_, .factor single rewritten product⟩
      | true =>
        obtain ⟨fs, collected⟩ := answered _ (.again single rewritten product)
        exact ⟨fs, .again single rewritten product collected⟩

theorem Call.answered (call : Call N) : call.Answered :=
  wellFounded_calls.induction call fun _ => answered_of_calls

theorem Rewrites.unique {e c d : Formula N} (rewritten : Rewrites e c) (rewritten' : Rewrites e d) : c = d :=
  rewritten.eq_canonical.trans rewritten'.eq_canonical.symm

theorem Collects.unique {e : Formula N} {fs gs : List (Formula N)} : Collects e fs → Collects e gs → fs = gs
  | .product left right, second => by
    cases second with
    | product left' right' => rw [left.unique left', right.unique right']
    | again single => cases single
    | factor single => cases single
  | .again single rewritten compound collected, second => by
    cases second with
    | product => cases single
    | again _ rewritten' _ collected' => exact collected.unique (rewritten.unique rewritten' ▸ collected')
    | factor _ rewritten' simple =>
      rw [rewritten.unique rewritten', simple] at compound
      cases compound
  | .factor single rewritten simple, second => by
    cases second with
    | product => cases single
    | again _ rewritten' compound =>
      rw [rewritten.unique rewritten', compound] at simple
      cases simple
    | factor _ rewritten' => rw [rewritten.unique rewritten']

theorem calls_end :
    (∀ call call' : Call N, Calls call call' → call'.measure < call.measure) ∧
    (∀ call : Call N, Acc (fun call' call => Calls call call') call) ∧
    (∀ call : Call N, (∀ call', Calls call call' → call'.Answered) → call.Answered) ∧
    (∀ e : Formula N, Rewrites e e.canonical ∧ (∃! c, Rewrites e c) ∧ ∃! fs, Collects e fs) ∧
    (∀ e : Formula N, e.canonical.size ≤ e.size ∧ ∀ fs, Collects e fs → fs ≠ [] ∧ sizes fs ≤ e.size + 1) ∧
    ∀ e c : Formula N, Calls (.collect e) (.collect c) → e.isProduct = false →
      c = e.canonical ∧ c.size < e.size ∧ ∃ n l r, e = (Formula.binary .mul l r).plusses (n + 1) := by
  refine ⟨fun _ _ calls => calls.decreases, wellFounded_calls.apply, fun _ => answered_of_calls, fun e => ?_,
    fun e => ?_, fun e c calls single => ?_⟩
  · obtain ⟨c, rewritten⟩ := (Call.rewrite e).answered
    obtain ⟨fs, collected⟩ := (Call.collect e).answered
    exact ⟨rewritten.self, ⟨c, rewritten, fun _ other => other.unique rewritten⟩,
      ⟨fs, collected, fun _ other => other.unique collected⟩⟩
  · obtain ⟨c, rewritten⟩ := (Call.rewrite e).answered
    exact ⟨rewritten.self.size_le, fun _ collected => collected.sizes_le⟩
  · cases calls with
    | first | second => cases single
    | again _ rewritten product =>
      have chain := (isProduct_canonical_iff single).mp (rewritten.eq_canonical ▸ product)
      exact ⟨rewritten.eq_canonical, rewritten.size_lt single product, chain⟩

end Flowsheet.Formula
