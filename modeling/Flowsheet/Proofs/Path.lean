import Flowsheet.Path
import Mathlib.Data.List.Basic

set_option autoImplicit false

namespace Flowsheet.Path

structure Proper (name : String) : Prop where
  notEmpty : name ≠ ""
  notHere : name ≠ "."
  notUp : name ≠ ".."
  plain : '/' ∉ name.toList

instance (n : String) : Decidable (Proper n) :=
  decidable_of_iff (n ≠ "" ∧ n ≠ "." ∧ n ≠ ".." ∧ '/' ∉ n.toList)
    ⟨fun ⟨a, b, c, d⟩ => ⟨a, b, c, d⟩, fun ⟨a, b, c, d⟩ => ⟨a, b, c, d⟩⟩

theorem cut_ne_nil {separator : Char} (cs : List Char) : cut separator cs ≠ [] := by
  cases cs with
  | nil => simp [cut]
  | cons c cs =>
    simp only [cut]
    split
    · simp
    · split
      · simp
      · simp

theorem cut_append (separator : Char) (cs ds : List Char) :
    cut separator (cs ++ separator :: ds) = cut separator cs ++ cut separator ds := by
  induction cs with
  | nil => simp [cut]
  | cons c cs ih =>
    by_cases cuts : c = separator
    next => simp [cut, cuts, ih]
    next =>
      cases parts : cut separator cs with
      | nil => exact absurd parts (cut_ne_nil cs)
      | cons part rest => simp [cut, cuts, ih, parts]

example : cut '/' "a//b".toList = ["a".toList, [], "b".toList] := by cbv

theorem cut_of_notMem {separator : Char} {cs : List Char} (plain : separator ∉ cs) : cut separator cs = [cs] := by
  induction cs with
  | nil => rfl
  | cons c cs ih =>
    rw [List.mem_cons, not_or] at plain
    simp [cut, Ne.symm plain.1, ih plain.2]

theorem notMem_of_mem_cut {separator : Char} {cs : List Char} : ∀ part ∈ cut separator cs, separator ∉ part := by
  induction cs with
  | nil => simp [cut]
  | cons c cs ih =>
    by_cases cuts : c = separator
    next => simpa [cut, cuts] using ih
    next =>
      cases parts : cut separator cs with
      | nil => exact absurd parts (cut_ne_nil cs)
      | cons part rest =>
        rw [parts] at ih
        simp only [cut, cuts, if_false, parts, List.mem_cons, forall_eq_or_imp, not_or] at ih ⊢
        exact ⟨⟨Ne.symm cuts, ih.1⟩, ih.2⟩

theorem components_append (s t : String) : components (s ++ "/" ++ t) = components s ++ components t := by
  have slash : "/".toList = ['/'] := rfl
  simp only [components, String.toList_append, slash, List.append_assoc, List.singleton_append, cut_append,
    List.map_append]

theorem components_of_plain {name : String} (plain : '/' ∉ name.toList) : components name = [name] := by
  simp [components, cut_of_notMem plain]

theorem plain_of_mem_components {s c : String} (inside : c ∈ components s) : '/' ∉ c.toList := by
  obtain ⟨part, member, rfl⟩ := List.mem_map.mp inside
  rw [String.toList_ofList]
  exact notMem_of_mem_cut part member

theorem components_intercalate {s : String} (ss : List String) :
    components ("/".intercalate (s :: ss)) = (s :: ss).flatMap components := by
  induction ss generalizing s with
  | nil => simp
  | cons t ss ih =>
    have split : "/".intercalate (s :: t :: ss) = s ++ "/" ++ "/".intercalate (t :: ss) := by
      apply String.toList_injective
      simp [String.toList_intercalate]
    rw [split, components_append, ih]
    rfl

theorem components_of_plains {cs : List String} (nonempty : cs ≠ []) (plain : ∀ c ∈ cs, '/' ∉ c.toList) :
    components ("/".intercalate cs) = cs := by
  cases cs with
  | nil => exact absurd rfl nonempty
  | cons c cs =>
    rw [components_intercalate]
    have single : ∀ d ∈ c :: cs, components d = [d] := fun d inside => components_of_plain (plain d inside)
    rw [List.flatMap_congr single]
    simp

theorem relative_iff {s : String} : s ≠ "" ∧ isRooted s = false ↔ (components s).head? ≠ some "" := by
  have empty : s = "" ↔ s.toList = [] := by rw [← String.toList_inj]; rfl
  rw [ne_eq, empty, isRooted, components]
  cases s.toList with
  | nil => simp [cut]
  | cons c cs =>
    by_cases slash : c = '/'
    next => simp [cut, slash]
    next =>
      cases parts : cut '/' cs with
      | nil => exact absurd parts (cut_ne_nil cs)
      | cons part rest => simp [cut, slash, parts, ← String.toList_inj]

theorem reduce_skip {rooted : Bool} {done rest : List String} {c : String} (skips : c = "" ∨ c = ".") :
    reduce rooted done (c :: rest) = reduce rooted done rest := by
  rw [reduce.eq_def]
  rcases skips with rfl | rfl
  · rfl
  · rfl

example : reduce true [] ["..", "a", "b", "..", "", "c"] = ["a", "c"] := by cbv

theorem reduce_name {rooted : Bool} {done rest : List String} {n : String} (named : n ≠ "") (notHere : n ≠ ".")
    (notUp : n ≠ "..") : reduce rooted done (n :: rest) = reduce rooted (n :: done) rest := by
  rw [reduce.eq_def]
  simp [named, notHere, notUp]

theorem reduce_of_proper {rooted : Bool} {done names : List String} (proper : ∀ n ∈ names, Proper n) :
    reduce rooted done names = done.reverse ++ names := by
  induction names generalizing done with
  | nil => simp [reduce]
  | cons n names ih =>
    have first := proper n List.mem_cons_self
    rw [reduce_name first.notEmpty first.notHere first.notUp, ih fun m inside => proper m (List.mem_cons_of_mem _ inside)]
    simp

theorem reduce_concat {rooted : Bool} {done cs rest : List String} :
    reduce rooted done (cs ++ rest) = reduce rooted (reduce rooted done cs).reverse rest := by
  fun_induction reduce rooted done cs with
  | case1 done => rw [List.reverse_reverse, List.nil_append]
  | case2 done c rest skips ih => rw [List.cons_append, reduce_skip (by simpa using skips), ih]
  | case3 rest _ ih => exact ih
  | case4 rest d before _ ih => exact ih
  | case5 done c rest keeps notUp ih =>
    have named : c ≠ "" ∧ c ≠ "." := by simpa using keeps
    rw [List.cons_append, reduce_name named.1 named.2 notUp, ih]

theorem reduce_append {rooted : Bool} {done cs names : List String} (proper : ∀ n ∈ names, Proper n) :
    reduce rooted done (cs ++ names) = reduce rooted done cs ++ names := by
  rw [reduce_concat, reduce_of_proper proper, List.reverse_reverse]

theorem mem_reduce {rooted : Bool} {done cs : List String} {c : String} (inside : c ∈ reduce rooted done cs) :
    c ∈ done ∨ c = ".." ∨ c ∈ cs ∧ c ≠ "" := by
  fun_induction reduce rooted done cs with
  | case1 done => exact .inl (List.mem_reverse.mp inside)
  | case2 done c' rest _ ih =>
    rcases ih inside with before | up | ⟨later, named⟩
    · exact .inl before
    · exact .inr (.inl up)
    · exact .inr (.inr ⟨List.mem_cons_of_mem _ later, named⟩)
  | case3 rest _ ih =>
    rcases ih inside with before | up | ⟨later, named⟩
    · split at before
      · cases before
      · exact .inr (.inl (List.mem_singleton.mp before))
    · exact .inr (.inl up)
    · exact .inr (.inr ⟨List.mem_cons_of_mem _ later, named⟩)
  | case4 rest d before _ ih =>
    rcases ih inside with earlier | up | ⟨later, named⟩
    · split at earlier
      · rcases List.mem_cons.mp earlier with up | earlier
        · exact .inr (.inl up)
        · exact .inl earlier
      · exact .inl (List.mem_cons_of_mem _ earlier)
    · exact .inr (.inl up)
    · exact .inr (.inr ⟨List.mem_cons_of_mem _ later, named⟩)
  | case5 done c' rest keeps _ ih =>
    have named : c' ≠ "" ∧ c' ≠ "." := by simpa using keeps
    rcases ih inside with here | up | ⟨later, named⟩
    · rcases List.mem_cons.mp here with rfl | before
      · exact .inr (.inr ⟨List.mem_cons_self, named.1⟩)
      · exact .inl before
    · exact .inr (.inl up)
    · exact .inr (.inr ⟨List.mem_cons_of_mem _ later, named⟩)

def Stacked (rooted : Bool) (done : List String) : Prop :=
  ∀ before, before <:+ done → ∀ rest, reduce rooted [] (before.reverse ++ rest) = reduce rooted before rest

theorem stacked_nil (rooted : Bool) : Stacked rooted [] := by
  intro before inside rest
  rw [List.suffix_nil.mp inside]
  rfl

theorem Stacked.cons {rooted : Bool} {done : List String} {c : String} (stacked : Stacked rooted done)
    (pushed : ∀ rest, reduce rooted done (c :: rest) = reduce rooted (c :: done) rest) : Stacked rooted (c :: done) := by
  intro before inside rest
  rcases List.suffix_cons_iff.mp inside with rfl | inside
  · rw [List.reverse_cons, List.append_assoc, List.singleton_append, stacked done List.suffix_rfl, pushed]
  · exact stacked before inside rest

theorem Stacked.reduce {rooted : Bool} {done : List String} (stacked : Stacked rooted done) (cs : List String) :
    Stacked rooted (reduce rooted done cs).reverse := by
  fun_induction Path.reduce rooted done cs with
  | case1 done => rwa [List.reverse_reverse]
  | case2 done c rest skips ih => exact ih stacked
  | case3 rest _ ih =>
    apply ih
    cases rooted with
    | true => exact stacked
    | false => exact stacked.cons fun rest => rfl
  | case4 rest d before _ ih =>
    apply ih
    split
    next up => exact stacked.cons fun rest => by rw [up]; rfl
    next => exact fun earlier inside => stacked earlier (inside.trans (List.suffix_cons d before))
  | case5 done c rest keeps notUp ih =>
    have named : c ≠ "" ∧ c ≠ "." := by simpa using keeps
    exact ih (stacked.cons fun rest => reduce_name named.1 named.2 notUp)

theorem reduce_reduce {rooted : Bool} (cs rest : List String) :
    reduce rooted [] (reduce rooted [] cs ++ rest) = reduce rooted [] (cs ++ rest) := by
  have again := (stacked_nil rooted).reduce cs _ List.suffix_rfl rest
  rw [List.reverse_reverse] at again
  rw [again, reduce_concat]

def order (s : String) : List String := reduce (isRooted s) [] (components s)

theorem mem_order {s c : String} (inside : c ∈ order s) : c ≠ "" ∧ '/' ∉ c.toList := by
  rcases mem_reduce inside with before | rfl | ⟨inside, named⟩
  · cases before
  · decide
  · exact ⟨named, plain_of_mem_components inside⟩

theorem components_clean {s : String} (nonempty : order s ≠ []) :
    components (clean s) = (if isRooted s then [""] else []) ++ order s := by
  have body := components_of_plains nonempty fun _ inside => (mem_order inside).2
  have filled : "/".intercalate (order s) ≠ "" := by
    intro blank
    rw [blank] at body
    exact (mem_order (body ▸ List.mem_singleton_self "" : "" ∈ order s)).1 rfl
  unfold clean
  rw [← order]
  cases isRooted s with
  | true =>
    have split : "/" ++ "/".intercalate (order s) = "" ++ "/" ++ "/".intercalate (order s) := by simp
    dsimp only
    rw [if_pos rfl, if_pos rfl, split, components_append, body]
    rfl
  | false =>
    simp only [Bool.false_eq_true, if_false, filled, body, List.nil_append]

theorem clean_of_empty {s : String} (empty : order s = []) : clean s = if isRooted s then "/" else "." := by
  unfold clean
  rw [← order, empty]
  rfl

theorem isRooted_clean (s : String) : isRooted (clean s) = isRooted s := by
  by_cases empty : order s = []
  next =>
    rw [clean_of_empty empty]
    cases isRooted s <;> decide
  next =>
    cases rooted : isRooted s with
    | true =>
      rw [clean, rooted]
      simp [isRooted]
    | false =>
      refine (relative_iff.mpr ?_).2
      rw [components_clean empty, rooted]
      intro blank
      exact (mem_order (List.mem_of_head? blank)).1 rfl

theorem isRooted_append {s : String} (named : s ≠ "") (t : String) : isRooted (s ++ "/" ++ t) = isRooted s := by
  have filled : s.toList ≠ [] := fun blank => named (String.toList_injective blank)
  obtain ⟨c, cs, front⟩ := List.exists_cons_of_ne_nil filled
  simp [isRooted, front]

theorem clean_ne_empty (s : String) : clean s ≠ "" := by
  intro blank
  by_cases empty : order s = []
  next =>
    rw [clean_of_empty empty] at blank
    cases rooted : isRooted s <;> simp [rooted] at blank
  next =>
    have parts := components_clean empty
    rw [blank] at parts
    obtain ⟨n, inside⟩ := List.exists_mem_of_ne_nil _ empty
    have first : n ∈ components "" := by
      rw [parts]
      exact List.mem_append_right _ inside
    exact (mem_order inside).1 (List.mem_singleton.mp first)

theorem reduce_clean (s : String) (cs : List String) :
    reduce (isRooted s) [] (components (clean s) ++ cs) = reduce (isRooted s) [] (components s ++ cs) := by
  rw [← reduce_reduce (components s), ← order]
  by_cases empty : order s = []
  next =>
    rw [clean_of_empty empty, empty]
    cases isRooted s with
    | true =>
      have slash : components "/" = ["", ""] := by decide
      simp only [if_true, slash, List.cons_append, List.nil_append]
      rw [reduce_skip (.inl rfl), reduce_skip (.inl rfl)]
    | false =>
      have dot : components "." = ["."] := by decide
      simp only [Bool.false_eq_true, if_false, dot, List.cons_append, List.nil_append]
      rw [reduce_skip (.inr rfl)]
  next =>
    rw [components_clean empty]
    cases isRooted s with
    | true => exact reduce_skip (.inl rfl)
    | false => rfl

theorem order_append {s : String} (named : s ≠ "") (t : String) :
    order (s ++ "/" ++ t) = reduce (isRooted s) [] (components s ++ components t) := by
  rw [order, isRooted_append named, components_append]

theorem clean_congr {s t : String} (rooted : isRooted s = isRooted t) (same : order s = order t) :
    clean s = clean t := by
  have body (s : String) : clean s = if isRooted s then "/" ++ "/".intercalate (order s)
      else if "/".intercalate (order s) = "" then "." else "/".intercalate (order s) := rfl
  rw [body, body, rooted, same]

theorem clean_append {s : String} (named : s ≠ "") (t : String) :
    clean (clean s ++ "/" ++ t) = clean (s ++ "/" ++ t) := by
  apply clean_congr
  · rw [isRooted_append (clean_ne_empty s), isRooted_append named, isRooted_clean]
  · rw [order_append (clean_ne_empty s), order_append named, isRooted_clean, reduce_clean]

variable {dir : String} {names : List String}

theorem join_cons (named : dir ≠ "") (nonempty : names ≠ []) (proper : ∀ n ∈ names, Proper n) :
    join (dir :: names) = clean (dir ++ "/" ++ "/".intercalate names) := by
  have kept : (dir :: names).filter (· ≠ "") = dir :: names :=
    List.filter_eq_self.mpr fun n inside => by
      rcases List.mem_cons.mp inside with rfl | inside
      · simpa using named
      · simpa using (proper n inside).notEmpty
  obtain ⟨n, rest, rfl⟩ := List.exists_cons_of_ne_nil nonempty
  rw [join, kept]
  exact congrArg clean (String.intercalate_cons_of_ne_nil (List.cons_ne_nil n rest))

theorem order_join (named : dir ≠ "") (nonempty : names ≠ []) (proper : ∀ n ∈ names, Proper n) :
    order (dir ++ "/" ++ "/".intercalate names) = order dir ++ names := by
  rw [order_append named, components_of_plains nonempty fun n inside => (proper n inside).plain, order]
  exact reduce_append proper

theorem components_join (named : dir ≠ "") (nonempty : names ≠ []) (proper : ∀ n ∈ names, Proper n) :
    components (join (dir :: names)) = (if isRooted dir then [""] else []) ++ (order dir ++ names) := by
  have ordered := order_join named nonempty proper
  rw [join_cons named nonempty proper, components_clean (by simp [ordered, nonempty]), ordered, isRooted_append named]

theorem extension_of_last {s t : String} (same : (components s).getLastD "" = (components t).getLastD "") :
    extension s = extension t := by
  unfold extension
  rw [same]

theorem extension_join {n : String} (named : dir ≠ "") (proper : ∀ m ∈ names ++ [n], Proper m) :
    extension (join (dir :: (names ++ [n]))) = extension n := by
  apply extension_of_last
  rw [components_join named (by simp) proper, components_of_plain (proper n (by simp)).plain]
  simp

section Child

variable {root name : String}

theorem join_pair {s t : String} (named : s ≠ "") (named' : t ≠ "") : join [s, t] = clean (s ++ "/" ++ t) := by
  have kept : [s, t].filter (· ≠ "") = [s, t] := by simp [named, named']
  rw [join, kept]
  rfl

theorem join_clean (named : root ≠ "") (proper : Proper name) : join [clean root, name] = join [root, name] := by
  rw [join_pair (clean_ne_empty root) proper.notEmpty, join_pair named proper.notEmpty, clean_append named]

theorem order_child (named : root ≠ "") (proper : Proper name) : order (root ++ "/" ++ name) = order root ++ [name] := by
  simpa using order_join named (List.cons_ne_nil name []) (by simpa using proper)

theorem components_child (named : root ≠ "") (proper : Proper name) :
    components (join [root, name]) = (if isRooted root then [""] else []) ++ (order root ++ [name]) :=
  components_join named (List.cons_ne_nil name []) (by simpa using proper)

theorem isRooted_child (named : root ≠ "") (proper : Proper name) : isRooted (join [root, name]) = isRooted root := by
  rw [join_pair named proper.notEmpty, isRooted_clean, isRooted_append named]

theorem child_ne_empty (named : root ≠ "") (proper : Proper name) : join [root, name] ≠ "" :=
  join_pair named proper.notEmpty ▸ clean_ne_empty _

theorem base_child (named : root ≠ "") (proper : Proper name) : base (join [root, name]) = name := by
  have kept : (order root ++ [name]).filter (· ≠ "") = order root ++ [name] := by
    refine List.filter_eq_self.mpr fun c inside => ?_
    rcases List.mem_append.mp inside with inside | inside
    · simpa using (mem_order inside).1
    · simpa [List.mem_singleton.mp inside] using proper.notEmpty
  have parts : (components (join [root, name])).filter (· ≠ "") = order root ++ [name] := by
    rw [components_child named proper, List.filter_append, kept]
    cases isRooted root <;> rfl
  rw [base, if_neg (child_ne_empty named proper), parts]
  split
  next none => simp at none
  next => simp

theorem join_child (named : root ≠ "") (proper : Proper name) :
    join [root, name] = (if isRooted root then "/" else "") ++ "/".intercalate (order root ++ [name]) := by
  have child := order_child named proper
  have filled : "/".intercalate (order (root ++ "/" ++ name)) ≠ "" := by
    intro blank
    have parts := components_of_plains (by simp [child]) fun _ inside => (mem_order (s := root ++ "/" ++ name) inside).2
    rw [blank, child] at parts
    have last : name ∈ components "" := by simp [parts]
    exact proper.notEmpty (List.mem_singleton.mp last)
  have body : "/".intercalate (reduce (isRooted root) [] (components (root ++ "/" ++ name))) =
      "/".intercalate (order (root ++ "/" ++ name)) := by
    rw [order, isRooted_append named]
  rw [join_pair named proper.notEmpty, clean, isRooted_append named, body, ← child, if_neg filled]
  cases isRooted root <;> simp

theorem exists_front (named : root ≠ "") : ∃ front, ∀ name, Proper name → join [root, name] = front ++ name := by
  by_cases empty : order root = []
  · exact ⟨if isRooted root then "/" else "", fun name proper => by simp [join_child named proper, empty]⟩
  · refine ⟨(if isRooted root then "/" else "") ++ ("/".intercalate (order root) ++ "/"), fun name proper => ?_⟩
    rw [join_child named proper, String.intercalate_append_of_ne_nil empty (List.cons_ne_nil _ _)]
    simp [String.append_assoc]

theorem parent_child (named : root ≠ "") (proper : Proper name) : join [join [root, name], ".."] = clean root := by
  have stays : root ++ "/" ++ name ≠ "" := by
    intro blank
    simpa using congrArg String.toList blank
  rw [join_pair (child_ne_empty named proper) (by decide), join_pair named proper.notEmpty, clean_append stays]
  apply clean_congr
  · rw [isRooted_append stays, isRooted_append named]
  · rw [order_append stays, isRooted_append named, components_append, components_of_plain proper.plain, List.append_assoc,
      reduce_concat, ← order]
    have up : components ".." = [".."] := by decide
    rw [up, List.singleton_append, reduce_name proper.notEmpty proper.notHere proper.notUp, reduce.eq_def]
    simp [proper.notUp, reduce]

end Child

end Flowsheet.Path
