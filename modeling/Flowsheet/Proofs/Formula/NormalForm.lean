import Flowsheet.Formula.Printer
import Flowsheet.Proofs.Formula.Canonical
import Flowsheet.Proofs.Text.Order
import Mathlib.Data.List.Induction

set_option autoImplicit false

namespace Flowsheet.Formula

variable {N : Type}

/-- The factors of the chain of products at the top, as they stand. A plus sign is transparent. -/
def chain : Formula N → List (Formula N)
  | .number v => [.number v]
  | .name x => [.name x]
  | .signed .plus e => e.chain
  | .signed .minus e => [.signed .minus e]
  | .binary .mul l r => l.chain ++ r.chain
  | .binary op l r => [.binary op l r]

def parts : Formula N → List (Formula N)
  | .number v => [.number v]
  | .name x => [.name x]
  | .signed s e => .signed s e :: e.parts
  | .binary op l r => .binary op l r :: (l.parts ++ r.parts)

def isProduct : Formula N → Bool
  | .binary .mul _ _ => true
  | _ => false

def rank (f : Formula N) : Nat := if f.isName then 0 else if f.isNumber then 2 else 1

structure Before (f g : Formula N) : Prop where
  kinds : f.rank ≤ g.rank
  names : ∀ x y, f = .name x → g = .name y → Text.bytes x ≤ Text.bytes y

structure Normal (c : Formula N) : Prop where
  noPlus : ∀ e, .signed .plus e ∉ c.parts
  leftNested : ∀ l r, .binary .mul l r ∈ c.parts → r.isProduct = false
  inOrder : ∀ l r, .binary .mul l r ∈ c.parts → (chain (.binary .mul l r)).Pairwise Before

theorem mem_parts_self (e : Formula N) : e ∈ e.parts := by
  cases e <;> simp [parts]

theorem before_names {x y : String} : Before (N := N) (.name x) (.name y) ↔ x ≤ y := by
  rw [← Text.bytes_le_iff]
  constructor
  · exact fun before => before.names x y rfl rfl
  · intro below
    refine ⟨Nat.le_refl _, ?_⟩
    rintro _ _ ⟨⟩ ⟨⟩
    exact below

theorem before_of_rank {f g : Formula N} (kinds : f.rank ≤ g.rank) (compound : f.isName = false ∨ g.isName = false) :
    Before f g := by
  refine ⟨kinds, ?_⟩
  rintro x y rfl rfl
  rcases compound with named | named <;> cases named

theorem before_sortFactors (fs : List (Formula N)) : (sortFactors fs).Pairwise Before := by
  have named : ∀ f ∈ ((fs.filterMap name?).mergeSort (fun a b => decide (a ≤ b))).map (Formula.name (N := N)),
      f.rank = 0 := by
    intro f inside
    obtain ⟨x, -, rfl⟩ := List.mem_map.mp inside
    rfl
  have compound : ∀ f ∈ fs.filter isCompound, f.rank = 1 ∧ f.isName = false := by
    intro f inside
    have kind := (List.mem_filter.mp inside).2
    cases f <;> simp_all [isCompound, rank, isName, isNumber, name?]
  have numbers : ∀ f ∈ fs.filter isNumber, f.rank = 2 ∧ f.isName = false := by
    intro f inside
    have kind := (List.mem_filter.mp inside).2
    cases f <;> simp_all [rank, isName, isNumber, name?]
  -- three groups: each is in order, and every member of one stands before the next
  rw [sortFactors_eq, List.pairwise_append, List.pairwise_append]
  refine ⟨⟨?_, ?_, ?_⟩, ?_, ?_⟩
  · exact List.pairwise_map.mpr ((sorted_names fs).imp before_names.mpr)
  · refine List.pairwise_of_forall_mem_list fun f first g second => ?_
    exact before_of_rank (by rw [(compound f first).1, (compound g second).1]) (.inl (compound f first).2)
  · intro f first g second
    exact before_of_rank (by rw [named f first]; exact Nat.zero_le _) (.inr (compound g second).2)
  · refine List.pairwise_of_forall_mem_list fun f first g second => ?_
    exact before_of_rank (by rw [(numbers f first).1, (numbers g second).1]) (.inl (numbers f first).2)
  · intro f first g second
    refine before_of_rank ?_ (.inr (numbers g second).2)
    rw [(numbers g second).1]
    rcases List.mem_append.mp first with first | first
    · rw [named f first]
      exact Nat.zero_le _
    · rw [(compound f first).1]
      decide

theorem productOr_concat (unit : Formula N) {fs : List (Formula N)} (nonempty : fs ≠ []) (g : Formula N) :
    productOr unit (fs ++ [g]) = .binary .mul (productOr unit fs) g := by
  cases fs with
  | nil => exact absurd rfl nonempty
  | cons f fs => simp [productOr]

theorem chain_productOr (unit : Formula N) {fs : List (Formula N)} (nonempty : fs ≠ [])
    (single : ∀ f ∈ fs, f.chain = [f]) : (productOr unit fs).chain = fs := by
  induction fs using List.reverseRecOn with
  | nil => exact absurd rfl nonempty
  | append_singleton fs g ih =>
    have last : g.chain = [g] := single g (by simp)
    by_cases empty : fs = []
    next => simp [empty, productOr, last]
    next =>
      rw [productOr_concat unit empty, chain, ih empty fun f inside => single f (List.mem_append_left _ inside), last]

theorem Normal.chain_eq {c : Formula N} (normal : c.Normal) (single : c.isProduct = false) : c.chain = [c] := by
  cases c with
  | number | name => rfl
  | signed s e =>
    cases s with
    | plus => exact absurd (mem_parts_self _) (normal.noPlus e)
    | minus => rfl
  | binary op l r =>
    cases op with
    | mul => cases single
    | add | sub | div => rfl

theorem normal_number (v : N) : (Formula.number v).Normal where
  noPlus := by simp [parts]
  leftNested := by simp [parts]
  inOrder := by simp [parts]

theorem normal_name (x : String) : (Formula.name x : Formula N).Normal where
  noPlus := by simp [parts]
  leftNested := by simp [parts]
  inOrder := by simp [parts]

theorem Normal.minus {e : Formula N} (normal : e.Normal) : (Formula.signed .minus e).Normal where
  noPlus f := by simpa [parts] using normal.noPlus f
  leftNested l r := by simpa [parts] using normal.leftNested l r
  inOrder l r := by simpa [parts] using normal.inOrder l r

theorem Normal.binary {op : Operator} {l r : Formula N} (left : l.Normal) (right : r.Normal)
    (flat : op = .mul → r.isProduct = false) (ordered : op = .mul → (chain (.binary .mul l r)).Pairwise Before) :
    (Formula.binary op l r).Normal where
  noPlus f inside := by
    simp only [parts, List.mem_cons, List.mem_append, reduceCtorEq, false_or] at inside
    exact inside.elim (left.noPlus f) (right.noPlus f)
  leftNested l' r' inside := by
    simp only [parts, List.mem_cons, List.mem_append] at inside
    rcases inside with same | inside | inside
    · injection same with product _ same
      rw [same]
      exact flat product.symm
    · exact left.leftNested l' r' inside
    · exact right.leftNested l' r' inside
  inOrder l' r' inside := by
    simp only [parts, List.mem_cons, List.mem_append] at inside
    rcases inside with same | inside | inside
    · injection same with product before after
      rw [before, after]
      exact ordered product.symm
    · exact left.inOrder l' r' inside
    · exact right.inOrder l' r' inside

theorem normal_productOr (unit : Formula N) {fs : List (Formula N)} (nonempty : fs ≠ [])
    (normal : ∀ f ∈ fs, f.Normal ∧ f.isProduct = false) (ordered : fs.Pairwise Before) :
    (productOr unit fs).Normal := by
  induction fs using List.reverseRecOn with
  | nil => exact absurd rfl nonempty
  | append_singleton fs g ih =>
    have last := normal g (by simp)
    by_cases empty : fs = []
    next =>
      subst empty
      exact last.1
    next =>
      have before : ∀ f ∈ fs, f.Normal ∧ f.isProduct = false := fun f inside => normal f (List.mem_append_left _ inside)
      have single : ∀ f ∈ fs ++ [g], f.chain = [f] := fun f inside => (normal f inside).1.chain_eq (normal f inside).2
      rw [← chain_productOr unit nonempty single] at ordered
      rw [productOr_concat unit empty] at ordered ⊢
      refine .binary (ih empty before ?_) last.1 (fun _ => last.2) fun _ => ordered
      rw [chain, chain_productOr unit empty fun f inside => single f (List.mem_append_left _ inside)] at ordered
      exact (List.pairwise_append.mp ordered).1

theorem normal_canonical_of_factors {e : Formula N} (normal : ∀ f ∈ e.factors, f.Normal ∧ f.isProduct = false) :
    e.canonical.Normal :=
  normal_productOr e (sortFactors_ne_nil e.factors_ne_nil) (fun f inside => normal f (mem_sortFactors.mp inside))
    (before_sortFactors e.factors)

theorem normal_factors (e : Formula N) : ∀ f ∈ e.factors, f.Normal ∧ f.isProduct = false := by
  induction e with
  | number v =>
    intro f inside
    rw [List.mem_singleton.mp inside]
    exact ⟨normal_number v, rfl⟩
  | name x =>
    intro f inside
    rw [List.mem_singleton.mp inside]
    exact ⟨normal_name x, rfl⟩
  | signed s e ih =>
    cases s with
    | plus => exact ih
    | minus =>
      intro f inside
      rw [List.mem_singleton.mp inside]
      exact ⟨(normal_canonical_of_factors ih).minus, rfl⟩
  | binary op l r hl hr =>
    have left := normal_canonical_of_factors hl
    have right := normal_canonical_of_factors hr
    intro f inside
    cases op with
    | mul => exact (List.mem_append.mp inside).elim (hl f) (hr f)
    | add | sub | div =>
      rw [List.mem_singleton.mp inside]
      exact ⟨left.binary right nofun nofun, rfl⟩

theorem normal_canonical (e : Formula N) : e.canonical.Normal := normal_canonical_of_factors e.normal_factors

theorem chain_canonical (e : Formula N) : e.canonical.chain = sortFactors e.factors := by
  refine chain_productOr e (sortFactors_ne_nil e.factors_ne_nil) fun f inside => ?_
  obtain ⟨normal, single⟩ := e.normal_factors f (mem_sortFactors.mp inside)
  exact normal.chain_eq single

@[simp] theorem canonical_number (v : N) : (Formula.number v).canonical = .number v := by
  rw [canonical, factors, sortFactors_singleton]
  rfl

@[simp] theorem canonical_name (x : String) : (Formula.name x : Formula N).canonical = .name x := by
  rw [canonical, factors, sortFactors_singleton]
  rfl

theorem canonical_plus (e : Formula N) : (Formula.signed .plus e).canonical = e.canonical :=
  productOr_eq (sortFactors_ne_nil e.factors_ne_nil) _ _

theorem canonical_minus (e : Formula N) : (Formula.signed .minus e).canonical = .signed .minus e.canonical := by
  rw [canonical, factors, sortFactors_singleton]
  rfl

theorem factors_eq_map (e : Formula N) : e.factors = e.chain.map canonical := by
  induction e with
  | number | name => simp [factors, chain]
  | signed s e ih =>
    cases s with
    | plus => exact ih
    | minus => rw [chain, List.map_singleton, canonical_minus, factors, canonical]
  | binary op l r hl hr =>
    cases op with
    | mul => rw [factors, chain, List.map_append, hl, hr]
    | add | sub | div =>
      exact congrArg List.singleton (canonical_binary (by decide) l r).symm

theorem canonical_of_mem_chain {e f : Formula N} (inside : f ∈ e.chain) :
    f.canonical.name? = f.name? ∧ f.canonical.isNumber = f.isNumber ∧ (f.isNumber = true → f.canonical = f) := by
  induction e with
  | number | name =>
    rw [List.mem_singleton.mp inside]
    simp
  | signed s e ih =>
    cases s with
    | plus => exact ih inside
    | minus =>
      rw [List.mem_singleton.mp inside, canonical_minus]
      exact ⟨rfl, rfl, nofun⟩
  | binary op l r hl hr =>
    cases op with
    | mul => exact (List.mem_append.mp inside).elim hl hr
    | add | sub | div =>
      rw [List.mem_singleton.mp inside, canonical_binary (by decide)]
      exact ⟨rfl, rfl, nofun⟩

theorem names_canonical (e : Formula N) :
    (e.canonical.chain.filterMap name?).Perm (e.chain.filterMap name?) := by
  have kept : (e.chain.map canonical).filterMap name? = e.chain.filterMap name? := by
    rw [List.filterMap_map]
    exact List.filterMap_congr fun f inside => (canonical_of_mem_chain inside).1
  rw [chain_canonical, filterMap_name?_sortFactors, factors_eq_map, kept]
  exact List.mergeSort_perm _ _

theorem compounds_canonical (e : Formula N) :
    e.canonical.chain.filter isCompound = (e.chain.filter isCompound).map canonical := by
  rw [chain_canonical, filter_isCompound_sortFactors, factors_eq_map, List.filter_map]
  refine congrArg (List.map canonical) (List.filter_congr fun f inside => ?_)
  obtain ⟨named, number, -⟩ := canonical_of_mem_chain inside
  simp [isCompound, isName, named, number]

theorem numbers_canonical (e : Formula N) : e.canonical.chain.filter isNumber = e.chain.filter isNumber := by
  have kinds : e.chain.filter (isNumber ∘ canonical) = e.chain.filter isNumber :=
    List.filter_congr fun f inside => (canonical_of_mem_chain inside).2.1
  have fixed : ∀ f ∈ e.chain.filter isNumber, f.canonical = id f := by
    intro f inside
    obtain ⟨member, number⟩ := List.mem_filter.mp inside
    exact (canonical_of_mem_chain member).2.2 number
  rw [chain_canonical, filter_isNumber_sortFactors, factors_eq_map, List.filter_map, kinds, List.map_congr_left fixed,
    List.map_id]

mutual

/-- The canonical form as it is reached: a product is made of the factors that are collected from it. -/
inductive Rewrites : Formula N → Formula N → Prop
  | number (v : N) : Rewrites (.number v) (.number v)
  | name (x : String) : Rewrites (.name x) (.name x)
  | plus {e c : Formula N} (body : Rewrites e c) : Rewrites (.signed .plus e) c
  | minus {e c : Formula N} (body : Rewrites e c) : Rewrites (.signed .minus e) (.signed .minus c)
  | product {l r unit : Formula N} {fs : List (Formula N)} (collected : Collects (.binary .mul l r) fs) :
    Rewrites (.binary .mul l r) (productOr unit (sortFactors fs))
  | binary {op : Operator} {l r l' r' : Formula N} (noProduct : op ≠ .mul) (left : Rewrites l l')
      (right : Rewrites r r') : Rewrites (.binary op l r) (.binary op l' r')

/-- The factors of a product, from left to right. A factor that is no product is rewritten first, and if
that makes it one, its factors are collected in turn. -/
inductive Collects : Formula N → List (Formula N) → Prop
  | product {l r : Formula N} {fs gs : List (Formula N)} (left : Collects l fs) (right : Collects r gs) :
    Collects (.binary .mul l r) (fs ++ gs)
  | again {e c : Formula N} {fs : List (Formula N)} (single : e.isProduct = false) (rewritten : Rewrites e c)
      (product : c.isProduct = true) (collected : Collects c fs) : Collects e fs
  | factor {e c : Formula N} (single : e.isProduct = false) (rewritten : Rewrites e c)
      (factor : c.isProduct = false) : Collects e [c]

end

theorem sortFactors_congr {fs gs : List (Formula N)} (names : (fs.filterMap name?).Perm (gs.filterMap name?))
    (compounds : fs.filter isCompound = gs.filter isCompound) (numbers : fs.filter isNumber = gs.filter isNumber) :
    sortFactors fs = sortFactors gs := by
  have sorted : (fs.filterMap name?).mergeSort (fun a b => decide (a ≤ b)) =
      (gs.filterMap name?).mergeSort (fun a b => decide (a ≤ b)) :=
    List.Perm.eq_of_pairwise (fun _ _ _ _ => le_antisymm) (sorted_names fs) (sorted_names gs)
      ((List.mergeSort_perm _ _).trans (names.trans (List.mergeSort_perm _ _).symm))
  rw [sortFactors_eq, sortFactors_eq, sorted, compounds, numbers]

theorem sortFactors_append_congr {fs fs' gs gs' : List (Formula N)} (first : sortFactors fs = sortFactors fs')
    (second : sortFactors gs = sortFactors gs') : sortFactors (fs ++ gs) = sortFactors (fs' ++ gs') := by
  have names {fs gs : List (Formula N)} (same : sortFactors fs = sortFactors gs) :
      (fs.filterMap name?).Perm (gs.filterMap name?) :=
    (sortFactors_perm fs).symm.filterMap name? |>.trans (same ▸ (sortFactors_perm gs).filterMap name?)
  have compounds {fs gs : List (Formula N)} (same : sortFactors fs = sortFactors gs) :
      fs.filter isCompound = gs.filter isCompound := by
    rw [← filter_isCompound_sortFactors fs, same, filter_isCompound_sortFactors]
  have numbers {fs gs : List (Formula N)} (same : sortFactors fs = sortFactors gs) :
      fs.filter isNumber = gs.filter isNumber := by
    rw [← filter_isNumber_sortFactors fs, same, filter_isNumber_sortFactors]
  refine sortFactors_congr ?_ ?_ ?_
  · rw [List.filterMap_append, List.filterMap_append]
    exact (names first).append (names second)
  · rw [List.filter_append, List.filter_append, compounds first, compounds second]
  · rw [List.filter_append, List.filter_append, numbers first, numbers second]

theorem factors_canonical (e : Formula N) : e.canonical.factors = sortFactors e.factors :=
  factors_productOr e (sortFactors_ne_nil e.factors_ne_nil)
    fun f member => e.atomic_of_mem_factors f (mem_sortFactors.mp member)

theorem factors_of_single {e : Formula N} (single : e.canonical.isProduct = false) : e.factors = [e.canonical] := by
  have sorted := e.chain_canonical.symm.trans (e.normal_canonical.chain_eq single)
  have perm := sortFactors_perm e.factors
  rw [sorted] at perm
  exact perm.symm.eq_singleton

mutual

theorem Rewrites.eq_canonical {e c : Formula N} : Rewrites e c → c = e.canonical
  | .number v => (canonical_number v).symm
  | .name x => (canonical_name x).symm
  | .plus body => by rw [body.eq_canonical, canonical_plus]
  | .minus body => by rw [body.eq_canonical, canonical_minus]
  | .product collected => by
    rw [collected.sorted]
    exact productOr_eq (sortFactors_ne_nil (factors_ne_nil _)) _ _
  | .binary noProduct left right => by rw [left.eq_canonical, right.eq_canonical, canonical_binary noProduct]

theorem Collects.sorted {e : Formula N} {fs : List (Formula N)} : Collects e fs → sortFactors fs = sortFactors e.factors
  | .product left right => by
    rw [sortFactors_append_congr left.sorted right.sorted]
    rfl
  | .again _ rewritten _ collected => by
    rw [collected.sorted, rewritten.eq_canonical, factors_canonical, sortFactors_sortFactors]
  | .factor _ rewritten factor => by
    rw [rewritten.eq_canonical] at factor ⊢
    rw [factors_of_single factor]

end

theorem isProduct_of_ne {op : Operator} (noProduct : op ≠ .mul) (l r : Formula N) :
    (Formula.binary op l r).isProduct = false := by
  cases op <;> simp_all [isProduct]

theorem Rewrites.self {e c : Formula N} (rewritten : Rewrites e c) : Rewrites e e.canonical :=
  rewritten.eq_canonical ▸ rewritten

theorem rewrites_of_again (e : Formula N) (again : ∀ f ∈ e.parts, f.isProduct = false →
    f.canonical.isProduct = true → ∃ fs, Collects f.canonical fs) : Rewrites e e.canonical ∧ ∃ fs, Collects e fs := by
  -- Collecting goes on only where rewriting has made a product of what was none.
  have collects {f : Formula N} (inside : f ∈ e.parts) (single : f.isProduct = false) (rewritten : Rewrites f f.canonical) :
      ∃ fs, Collects f fs := by
    cases product : f.canonical.isProduct with
    | true =>
      obtain ⟨fs, collected⟩ := again f inside single product
      exact ⟨fs, .again single rewritten product collected⟩
    | false => exact ⟨_, .factor single rewritten product⟩
  induction e with
  | number v =>
    have rewritten := (Rewrites.number v).self
    exact ⟨rewritten, collects (mem_parts_self _) rfl rewritten⟩
  | name x =>
    have rewritten : Rewrites (.name x) (Formula.name x : Formula N).canonical := (Rewrites.name x).self
    exact ⟨rewritten, collects (mem_parts_self _) rfl rewritten⟩
  | signed s e ih =>
    obtain ⟨body, -⟩ := ih (fun f inside => again f (List.mem_cons_of_mem _ inside))
      (fun inside => collects (List.mem_cons_of_mem _ inside))
    have rewritten : Rewrites (.signed s e) (Formula.signed s e).canonical := by
      cases s with
      | plus => exact body.plus.self
      | minus => exact body.minus.self
    exact ⟨rewritten, collects (mem_parts_self _) rfl rewritten⟩
  | binary op l r hl hr =>
    have first {f : Formula N} (inside : f ∈ l.parts) : f ∈ (Formula.binary op l r).parts :=
      List.mem_cons_of_mem _ (List.mem_append_left _ inside)
    have second {f : Formula N} (inside : f ∈ r.parts) : f ∈ (Formula.binary op l r).parts :=
      List.mem_cons_of_mem _ (List.mem_append_right _ inside)
    obtain ⟨left, fs, collected⟩ := hl (fun f inside => again f (first inside)) (fun inside => collects (first inside))
    obtain ⟨right, gs, collected'⟩ := hr (fun f inside => again f (second inside)) (fun inside => collects (second inside))
    by_cases product : op = .mul
    next =>
      subst product
      have whole := collected.product collected'
      have rewritten : Rewrites (.binary .mul l r) (productOr l (sortFactors (fs ++ gs))) := .product whole
      exact ⟨rewritten.self, _, whole⟩
    next =>
      have rewritten := (Rewrites.binary product left right).self
      exact ⟨rewritten, collects (mem_parts_self _) (isProduct_of_ne product l r) rewritten⟩

theorem Normal.canonical_single {c f : Formula N} (normal : c.Normal) (inside : f ∈ c.parts)
    (single : f.isProduct = false) : f.canonical.isProduct = false := by
  cases f with
  | number | name => simp [isProduct]
  | signed s e =>
    cases s with
    | plus => exact absurd inside (normal.noPlus e)
    | minus =>
      rw [canonical_minus]
      rfl
  | binary op l r =>
    cases op with
    | mul => cases single
    | add | sub | div =>
      rw [canonical_binary (by decide)]
      rfl

theorem rewrites_iff {e c : Formula N} : Rewrites e c ↔ c = e.canonical := by
  -- What a part becomes is normal, so none of its own parts becomes a product, and collecting from it ends.
  have settled {c : Formula N} (normal : c.Normal) : ∃ fs, Collects c fs :=
    (rewrites_of_again c fun f inside single product =>
      absurd product (by simp [normal.canonical_single inside single])).2
  constructor
  · exact Rewrites.eq_canonical
  · rintro rfl
    exact (rewrites_of_again e fun f _ _ _ => settled f.normal_canonical).1

theorem canonical_normal_form [Quantity N] (e : Formula N) :
    e.canonical.Normal ∧
    ((e.canonical.chain.filterMap name?).Perm (e.chain.filterMap name?) ∧
      e.canonical.chain.filter isCompound = (e.chain.filter isCompound).map canonical ∧
      e.canonical.chain.filter isNumber = e.chain.filter isNumber) ∧
    ((Formula.signed .plus e).canonical = e.canonical ∧
      (Formula.signed .minus e).canonical = .signed .minus e.canonical ∧
      ∀ op r, op ≠ .mul → (Formula.binary op e r).canonical = .binary op e.canonical r.canonical) ∧
    (∀ c, Rewrites e c ↔ c = e.canonical) ∧
    e.canonical.canonical = e.canonical ∧ e.canonical.print = e.print := by
  have again := e.canonical_canonical
  refine ⟨e.normal_canonical, ⟨e.names_canonical, e.compounds_canonical, e.numbers_canonical⟩,
    ⟨e.canonical_plus, e.canonical_minus, fun op r noProduct => canonical_binary noProduct e r⟩,
    fun c => rewrites_iff, again, ?_⟩
  rw [print, print, again]

example : (Formula.binary .mul (.signed .plus (.binary .mul (.number 2) (.name "b"))) (.name "a")).canonical =
    .binary .mul (.binary .mul (.name "a") (.name "b")) (.number 2) := by cbv

end Flowsheet.Formula
