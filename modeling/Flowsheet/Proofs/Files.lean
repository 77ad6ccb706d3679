import Flowsheet.Files.Discovery
import Flowsheet.Lookup
import Flowsheet.Proofs.Path
import Flowsheet.Proofs.Result
import Flowsheet.Proofs.Text.Order
import Mathlib.Data.String.Basic
import Mathlib.Data.List.Nodup

set_option autoImplicit false

namespace Flowsheet

namespace Text

theorem namesLe_total (as bs : List String) : (namesLe as bs || namesLe bs as) = true := by
  induction as generalizing bs with
  | nil => simp [namesLe]
  | cons a as ih =>
    cases bs with
    | nil => simp [namesLe]
    | cons b bs =>
      by_cases same : a = b
      next => simpa [namesLe, same] using ih bs
      next => simpa [namesLe, same, Ne.symm same] using lt_or_gt_of_ne same

theorem namesLe_trans (as bs cs : List String) (first : namesLe as bs = true) (second : namesLe bs cs = true) :
    namesLe as cs = true := by
  induction as generalizing bs cs with
  | nil => simp [namesLe]
  | cons a as ih =>
    cases bs with
    | nil => simp [namesLe] at first
    | cons b bs =>
      cases cs with
      | nil => simp [namesLe] at second
      | cons c cs =>
        by_cases left : a = b
        next =>
          subst left
          by_cases right : a = c
          next =>
            simp only [namesLe, right, if_true] at first second ⊢
            exact ih bs cs first second
          next => simpa [namesLe, right] using second
        next =>
          have less : a < b := by simpa [namesLe, left] using first
          by_cases right : b = c
          next =>
            subst right
            simpa [namesLe, left] using less
          next =>
            have further : a < c := less.trans (by simpa [namesLe, right] using second)
            simpa [namesLe, further.ne] using further

theorem namesLe_antisymm {as bs : List String} (first : namesLe as bs = true) (second : namesLe bs as = true) :
    as = bs := by
  induction as generalizing bs with
  | nil =>
    cases bs with
    | nil => rfl
    | cons b bs => simp [namesLe] at second
  | cons a as ih =>
    cases bs with
    | nil => simp [namesLe] at first
    | cons b bs =>
      by_cases same : a = b
      next =>
        subst same
        simp only [namesLe, if_true] at first second
        rw [ih first second]
      next =>
        have less : a < b := by simpa [namesLe, same] using first
        have greater : b < a := by simpa [namesLe, Ne.symm same] using second
        exact absurd less greater.asymm

theorem namesLe_append (names as bs : List String) : namesLe (names ++ as) (names ++ bs) = namesLe as bs := by
  induction names with
  | nil => rfl
  | cons n names ih => simpa [namesLe] using ih

end Text

namespace Files

variable {fs fs' : Files} {p q : List String} {e : Entry}

theorem get?_set (below : p ≠ []) : (fs.set p e).get? q = if q = p then some e else fs.get? q := by
  unfold get? set
  by_cases top : q = []
  next => simp [top, Ne.symm below]
  next =>
    by_cases same : q = p
    next => simp [same, below]
    next => simp [top, same, List.lookup_cons, beq_false_of_ne same, lookup_filter_ne same]

theorem get?_erase (below : p ≠ []) : (fs.erase p).get? q = if q = p then none else fs.get? q := by
  unfold get? erase
  by_cases top : q = []
  next => simp [top, Ne.symm below]
  next =>
    by_cases same : q = p
    next =>
      have gone : (fs.entries.filter fun x => !(x.1 == p)).lookup p = none := by
        rw [List.lookup_eq_none_iff]
        intro x inside
        have other : x.1 ≠ p := by simpa using (List.mem_filter.mp inside).2
        simpa using Ne.symm other
      simp [same, below, gone]
    next => simp [top, same, lookup_filter_ne same]

theorem erase_set : (fs.set p e).erase p = fs.erase p := by
  simp [erase, set]

/-- A file system with one entry at each place, under names that paths can spell. -/
structure Sound (fs : Files) : Prop where
  distinct : (fs.entries.map (·.1)).Nodup
  below : ∀ x ∈ fs.entries, x.1 ≠ []
  proper : ∀ x ∈ fs.entries, ∀ n ∈ x.1, Path.Proper n

instance (fs : Files) : Decidable fs.Sound :=
  decidable_of_iff ((fs.entries.map (·.1)).Nodup ∧ (∀ x ∈ fs.entries, x.1 ≠ []) ∧
      ∀ x ∈ fs.entries, ∀ n ∈ x.1, Path.Proper n)
    ⟨fun ⟨a, b, c⟩ => ⟨a, b, c⟩, fun ⟨a, b, c⟩ => ⟨a, b, c⟩⟩

theorem Sound.set (sound : fs.Sound) (below : p ≠ []) (proper : ∀ n ∈ p, Path.Proper n) : (fs.set p e).Sound where
  distinct := by
    rw [Files.set, List.map_cons, List.nodup_cons]
    refine ⟨fun inside => ?_, (sound.distinct.sublist (List.filter_sublist.map _))⟩
    obtain ⟨x, kept, same⟩ := List.mem_map.mp inside
    exact absurd same (by simpa using (List.mem_filter.mp kept).2)
  below x inside := by
    rcases List.mem_cons.mp inside with rfl | inside
    · exact below
    · exact sound.below x (List.mem_filter.mp inside).1
  proper x inside := by
    rcases List.mem_cons.mp inside with rfl | inside
    · exact proper
    · exact sound.proper x (List.mem_filter.mp inside).1

theorem Sound.erase (sound : fs.Sound) : (fs.erase p).Sound where
  distinct := sound.distinct.sublist (List.filter_sublist.map _)
  below x inside := sound.below x (List.mem_filter.mp inside).1
  proper x inside := sound.proper x (List.mem_filter.mp inside).1

theorem Sound.mem_entries (sound : fs.Sound) : (p, e) ∈ fs.entries ↔ p ≠ [] ∧ fs.get? p = some e := by
  have found {entries : List (List String × Entry)} (distinct : (entries.map (·.1)).Nodup) :
      (p, e) ∈ entries ↔ entries.lookup p = some e := by
    induction entries with
    | nil => simp
    | cons x rest ih =>
      obtain ⟨q, e'⟩ := x
      rw [List.map_cons, List.nodup_cons] at distinct
      rw [List.mem_cons, List.lookup_cons, ih distinct.2]
      by_cases same : p = q
      next =>
        subst same
        have gone : rest.lookup p = none := by
          rw [List.lookup_eq_none_iff]
          intro y inside
          have other : p ≠ y.1 := fun equal => distinct.1 (List.mem_map.mpr ⟨y, inside, equal.symm⟩)
          simpa using other
        simp [gone, eq_comm]
      next => simp [same, beq_false_of_ne same]
  constructor
  · intro inside
    have below := sound.below _ inside
    exact ⟨below, by rw [get?, if_neg below]; exact (found sound.distinct).mp inside⟩
  · rintro ⟨below, held⟩
    rw [get?, if_neg below] at held
    exact (found sound.distinct).mpr held

theorem Sound.proper_of_get? (sound : fs.Sound) (held : fs.get? p = some e) : ∀ n ∈ p, Path.Proper n := by
  by_cases top : p = []
  next => simp [top]
  next => exact sound.proper _ (sound.mem_entries.mpr ⟨top, held⟩)

theorem step_name {c : String} (named : c ≠ "") (notHere : c ≠ ".") (notUp : c ≠ "..") : step p c = p ++ [c] := by
  simp [step, named, notHere, notUp]

theorem step_proper {c : String} (plain : '/' ∉ c.toList) (proper : ∀ n ∈ p, Path.Proper n) :
    ∀ n ∈ step p c, Path.Proper n := by
  unfold step
  split
  next => exact proper
  next keeps =>
    split
    next => exact fun n inside => proper n (List.dropLast_subset p inside)
    next notUp =>
      rw [Bool.or_eq_true, decide_eq_true_eq, decide_eq_true_eq, not_or] at keeps
      exact List.forall_mem_append.mpr ⟨proper, List.forall_mem_singleton.mpr ⟨keeps.1, keeps.2, notUp, plain⟩⟩

theorem follow_cons_eq_ok {c : String} {cs place : List String} : fs.follow place (c :: cs) = .ok p ↔
    fs.get? place = some .directory ∧ fs.follow (step place c) cs = .ok p := by
  rw [follow]
  split
  next absent => simp [absent]
  next held => simp [held]
  next here => simp [here]

theorem follow_append {place cs ds : List String} :
    fs.follow place (cs ++ ds) = fs.follow place cs >>= fun q => fs.follow q ds := by
  induction cs generalizing place with
  | nil => rfl
  | cons c rest ih =>
    rw [List.cons_append, follow, follow]
    split
    · rfl
    · rfl
    · exact ih

theorem follow_concat_eq_ok {c : String} {cs place : List String} : fs.follow place (cs ++ [c]) = .ok p ↔
    ∃ q, fs.follow place cs = .ok q ∧ fs.get? q = some .directory ∧ p = step q c := by
  rw [follow_append, bind_eq_ok]
  refine exists_congr fun q => and_congr_right fun _ => ?_
  rw [follow_cons_eq_ok, follow, Except.ok.injEq]
  exact and_congr_right fun _ => eq_comm

theorem follow_eq_foldl {cs place : List String} (found : fs.follow place cs = .ok p) : p = cs.foldl step place := by
  induction cs generalizing place with
  | nil => exact (Except.ok.inj found).symm
  | cons c rest ih => exact ih (follow_cons_eq_ok.mp found).2

theorem follow_reduce {rooted : Bool} {base place done cs : List String} (top : rooted = true → base = [])
    (kept : ∀ d ∈ done, d ≠ "" ∧ d ≠ ".") (before : fs.follow base done.reverse = .ok place)
    (found : fs.follow place cs = .ok p) : fs.follow base (Path.reduce rooted done cs) = .ok p := by
  -- Everything left out is a way to stay or a way into a directory and out of it again.
  fun_induction Path.reduce rooted done cs generalizing place with
  | case1 done =>
    cases found
    exact before
  | case2 done c rest skips ih =>
    have stays : step place c = place := if_pos skips
    exact ih kept before (stays ▸ (follow_cons_eq_ok.mp found).2)
  | case3 rest _ ih =>
    obtain ⟨here, found⟩ := follow_cons_eq_ok.mp found
    cases before
    cases rooted with
    | true =>
      obtain rfl := top rfl
      exact ih (by simp) rfl found
    | false =>
      have up : fs.follow base [".."] = .ok (step base "..") := follow_cons_eq_ok.mpr ⟨here, rfl⟩
      exact ih (by simp) up found
  | case4 rest d before' _ ih =>
    obtain ⟨here, found⟩ := follow_cons_eq_ok.mp found
    by_cases up : d = ".."
    next =>
      rw [if_pos up] at ih ⊢
      refine ih (List.forall_mem_cons.mpr ⟨by decide, kept⟩) ?_ found
      rw [List.reverse_cons]
      exact follow_concat_eq_ok.mpr ⟨place, before, here, rfl⟩
    next =>
      rw [if_neg up] at ih ⊢
      obtain ⟨named, rest⟩ := List.forall_mem_cons.mp kept
      rw [List.reverse_cons] at before
      obtain ⟨q, earlier, -, rfl⟩ := follow_concat_eq_ok.mp before
      have back : step (step q d) ".." = q := by
        rw [step_name named.1 named.2 up]
        simp [step]
      exact ih rest earlier (back ▸ found)
  | case5 done c rest keeps notUp ih =>
    obtain ⟨here, found⟩ := follow_cons_eq_ok.mp found
    have named : c ≠ "" ∧ c ≠ "." := by simpa using keeps
    refine ih (List.forall_mem_cons.mpr ⟨named, kept⟩) ?_ found
    rw [List.reverse_cons]
    exact follow_concat_eq_ok.mpr ⟨place, before, here, rfl⟩

variable {dir : String}

theorem place_eq_ok : fs.place dir = .ok p ↔ dir ≠ "" ∧ fs.follow (fs.start dir) (Path.components dir) = .ok p := by
  unfold place
  split
  next empty => simp [empty]
  next named => simp [named]

theorem follow_order (found : fs.place dir = .ok p) : fs.follow (fs.start dir) (Path.order dir) = .ok p :=
  follow_reduce (fun rooted => if_pos rooted) (by simp) rfl (place_eq_ok.mp found).2

theorem follow_rooted {cs : List String} : fs.follow (fs.start dir) ((if Path.isRooted dir then [""] else []) ++ cs) =
    fs.follow (fs.start dir) cs := by
  unfold start
  cases Path.isRooted dir with
  | true => rfl
  | false => rfl

theorem place_join_eq {n : String} (named : dir ≠ "") (proper : Path.Proper n) :
    fs.place (Path.join [dir, n]) = fs.follow (fs.start dir) (Path.order dir ++ [n]) := by
  rw [place, if_neg (Path.child_ne_empty named proper), start, Path.isRooted_child named proper, ← start,
    Path.components_child named proper, follow_rooted]

theorem locate_eq_ok : fs.locate dir = .ok (p, e) ↔ fs.place dir = .ok p ∧ fs.get? p = some e := by
  unfold locate
  cases fs.place dir with
  | error err => simp [bind, Except.bind]
  | ok q =>
    cases held : fs.get? q with
    | none =>
      simp only [bind, Except.bind, held, throw, throwThe, MonadExceptOf.throw, reduceCtorEq, Except.ok.injEq, false_iff]
      rintro ⟨rfl, found⟩
      simp [held] at found
    | some e' =>
      simp only [bind, Except.bind, held, pure, Except.pure, Except.ok.injEq, Prod.mk.injEq]
      constructor
      · rintro ⟨rfl, rfl⟩
        exact ⟨rfl, held⟩
      · rintro ⟨rfl, found⟩
        exact ⟨rfl, Option.some.inj (held.symm.trans found)⟩

theorem place_join {n : String} (found : fs.locate dir = .ok (p, .directory)) (proper : Path.Proper n) :
    fs.place (Path.join [dir, n]) = .ok (p ++ [n]) := by
  obtain ⟨found, here⟩ := locate_eq_ok.mp found
  rw [place_join_eq (place_eq_ok.mp found).1 proper]
  refine follow_concat_eq_ok.mpr ⟨p, follow_order found, here, ?_⟩
  rw [step_name proper.notEmpty proper.notHere proper.notUp]

theorem below_of_sorted {place : List String}
    (sorted : (fs.entries.filter fun p => place.isPrefixOf p.1).Pairwise fun a b => Text.namesLe a.1 b.1) :
    fs.below place = fs.entries.filter fun p => place.isPrefixOf p.1 :=
  List.mergeSort_of_pairwise sorted

theorem below_child {place : List String} {x : List String × Entry} (sound : fs.Sound) (inside : x ∈ fs.below place)
    (deep : x.1.length = place.length + 1) : ∃ n, Path.Proper n ∧ x.1 = place ++ [n] := by
  have held : x ∈ fs.entries ∧ place.isPrefixOf x.1 = true := by
    simpa [below, List.mem_mergeSort] using inside
  obtain ⟨rest, split⟩ := List.isPrefixOf_iff_prefix.mp held.2
  obtain ⟨n, rfl⟩ := List.length_eq_one_iff.mp (by simpa [← split] using deep : rest.length = 1)
  exact ⟨n, sound.proper x held.1 n (by simp [← split]), split.symm⟩

theorem sorted_industries {root : String} {dirs : List String} (sound : fs.Sound) (listed : fs.industries root = .ok dirs) :
    dirs.Pairwise fun a b => Text.bytes a < Text.bytes b := by
  unfold industries at listed
  split at listed
  next => cases listed
  next => cases listed
  next place found =>
    cases listed
    obtain ⟨front, child⟩ := Path.exists_front (place_eq_ok.mp (locate_eq_ok.mp found).1).1
    have sorted : (fs.below place).Pairwise fun x y => Text.namesLe x.1 y.1 = true :=
      List.pairwise_mergeSort (fun a b c => Text.namesLe_trans a.1 b.1 c.1) (fun a b => Text.namesLe_total a.1 b.1) _
    have distinct : (fs.below place).Pairwise fun x y => x.1 ≠ y.1 := by
      refine ((List.mergeSort_perm _ _).pairwise_iff fun apart => Ne.symm apart).mpr (List.Pairwise.filter _ ?_)
      exact List.pairwise_map.mp sound.distinct
    refine List.pairwise_filterMap.mpr ((sorted.and distinct).imp_of_mem ?_)
    rintro ⟨p, e⟩ ⟨q, f⟩ first second ⟨le, apart⟩ dir chosen dir' chosen'
    dsimp only at le apart chosen chosen'
    split at chosen
    next fits =>
      split at chosen'
      next fits' =>
        obtain ⟨n, proper, rfl⟩ := below_child sound first (by simpa using fits : e = .directory ∧ _).2
        obtain ⟨m, proper', rfl⟩ := below_child sound second (by simpa using fits' : f = .directory ∧ _).2
        -- Both are children of one place, so their names decide.
        have less : n < m := by
          rw [Text.namesLe_append] at le
          have other : n ≠ m := fun same => apart (same ▸ rfl)
          simpa [Text.namesLe, other] using le
        rw [List.getLastD_concat, Option.some.injEq, child _ proper] at chosen
        rw [List.getLastD_concat, Option.some.injEq, child _ proper'] at chosen'
        subst chosen chosen'
        apply Text.bytes_lt
        rw [String.lt_iff_toList_lt, String.toList_append, String.toList_append]
        exact List.append_left_lt (String.lt_iff_toList_lt.mp less)
      next => cases chosen'
    next => cases chosen

theorem exists_of_mem_industries {root : String} {dirs : List String} (sound : fs.Sound)
    (listed : fs.industries root = .ok dirs) : ∀ dir ∈ dirs, ∃ p n, fs.locate root = .ok (p, .directory) ∧
      Path.Proper n ∧ fs.get? (p ++ [n]) = some .directory ∧ dir = Path.join [root, n] := by
  unfold industries at listed
  split at listed
  next => cases listed
  next => cases listed
  next place found =>
    cases listed
    intro dir inside
    obtain ⟨⟨q, e⟩, member, chosen⟩ := List.mem_filterMap.mp inside
    have held : (q, e) ∈ fs.entries := (List.mem_filter.mp (List.mem_mergeSort.mp member)).1
    dsimp only at chosen
    split at chosen
    next fits =>
      obtain ⟨rfl, length⟩ : e = .directory ∧ q.length = place.length + 1 := by simpa using fits
      cases chosen
      obtain ⟨n, proper, rfl⟩ := below_child sound member length
      refine ⟨place, n, found, proper, (sound.mem_entries.mp held).2, ?_⟩
      rw [List.getLastD_concat]
    next => cases chosen

theorem locate_of_mem_industries {root : String} {dirs : List String} (sound : fs.Sound)
    (listed : fs.industries root = .ok dirs) : ∀ dir ∈ dirs, ∃ p, fs.locate dir = .ok (p, .directory) := by
  intro dir inside
  obtain ⟨p, n, found, proper, here, rfl⟩ := exists_of_mem_industries sound listed dir inside
  exact ⟨p ++ [n], locate_eq_ok.mpr ⟨place_join found proper, here⟩⟩

def holdsDocument (x : List String × Entry) : Bool :=
  match x.2 with
  | .file _ => isDocument (x.1.getLastD "")
  | .directory => false

theorem isDocument_join {n : String} {names : List String} (found : fs.place dir = .ok p)
    (proper : ∀ m ∈ names ++ [n], Path.Proper m) :
    isDocument (Path.join (dir :: (names ++ [n]))) = isDocument n := by
  unfold isDocument
  rw [Path.extension_join (place_eq_ok.mp found).1 proper]

def reported (dir : String) (p : List String) (x : List String × Entry) : Option ((String × String) × File) :=
  match x.2 with
  | .file f => some (paths dir (x.1.drop p.length), f)
  | .directory => none

theorem reported_below {n : String} {names : List String} {f : File} :
    reported dir p (p ++ (names ++ [n]), .file f) =
      some ((Path.join (dir :: (names ++ [n])), "/".intercalate (names ++ [n])), f) := by
  simp [reported, paths]

theorem documents_eq (sound : fs.Sound) (found : fs.locate dir = .ok (p, .directory)) :
    fs.documents dir = .ok (((fs.below p).filter holdsDocument).filterMap (reported dir p)) := by
  obtain ⟨leads, here⟩ := locate_eq_ok.mp found
  have walked : fs.walk dir = .ok ((fs.below p).filterMap (reported dir p)) := by
    rw [walk, found]
    rfl
  rw [documents, walked]
  change Except.ok _ = Except.ok _
  rw [List.filter_filterMap, List.filterMap_filter]
  congr 1
  refine List.filterMap_congr fun x inside => ?_
  obtain ⟨q, e⟩ := x
  cases e with
  | directory => simp [reported, holdsDocument]
  | file f =>
    have held : (q, .file f) ∈ fs.entries ∧ p.isPrefixOf q = true := by
      simpa [below, List.mem_mergeSort] using inside
    obtain ⟨rest, rfl⟩ := List.isPrefixOf_iff_prefix.mp held.2
    rcases List.eq_nil_or_concat' rest with rfl | ⟨names, n, rfl⟩
    · have both := (sound.mem_entries.mp held.1).2
      simp [here] at both
    · have document := isDocument_join leads fun m member => sound.proper _ held.1 m (List.mem_append_right _ member)
      have last : (p ++ (names ++ [n])).getLastD "" = n := by
        rw [← List.append_assoc, List.getLastD_concat]
      rw [reported_below, Option.filter_some]
      simp only [holdsDocument, last, document]

theorem filter_below_congr (sound : fs.Sound) (sound' : fs'.Sound) {keep : List String × Entry → Bool}
    (same : ∀ x, keep x = true → (fs.get? x.1 = some x.2 ↔ fs'.get? x.1 = some x.2)) :
    (fs.below p).filter keep = (fs'.below p).filter keep := by
  have sorted (fs : Files) : ((fs.below p).filter keep).Pairwise fun a b => Text.namesLe a.1 b.1 = true :=
    (List.pairwise_mergeSort (fun a b c => Text.namesLe_trans a.1 b.1 c.1)
      (fun a b => Text.namesLe_total a.1 b.1) _).sublist List.filter_sublist
  have mem {fs : Files} (sound : fs.Sound) (x : List String × Entry) : x ∈ (fs.below p).filter keep ↔
      (x.1 ≠ [] ∧ fs.get? x.1 = some x.2) ∧ p.isPrefixOf x.1 = true ∧ keep x = true := by
    rw [List.mem_filter, below, List.mem_mergeSort, List.mem_filter, ← sound.mem_entries, and_assoc]
  have nodup {fs : Files} (sound : fs.Sound) : ((fs.below p).filter keep).Nodup := by
    refine List.Nodup.filter _ ((List.mergeSort_perm _ _).nodup_iff.mpr (List.Nodup.filter _ ?_))
    exact sound.distinct.of_map _
  refine List.Perm.eq_of_pairwise ?_ (sorted fs) (sorted fs') ?_
  · intro a b left right le ge
    have equal := Text.namesLe_antisymm le ge
    obtain ⟨⟨-, held⟩, -, kept⟩ := (mem sound a).mp left
    obtain ⟨⟨-, held'⟩, -, -⟩ := (mem sound' b).mp right
    have there := (same a kept).mp held
    rw [equal, held'] at there
    exact Prod.ext equal (Option.some.inj there).symm
  · rw [List.perm_ext_iff_of_nodup (nodup sound) (nodup sound')]
    intro x
    rw [mem sound, mem sound']
    constructor
    · rintro ⟨⟨below, held⟩, inside, kept⟩
      exact ⟨⟨below, (same x kept).mp held⟩, inside, kept⟩
    · rintro ⟨⟨below, held⟩, inside, kept⟩
      exact ⟨⟨below, (same x kept).mpr held⟩, inside, kept⟩

theorem documents_congr (sound : fs.Sound) (sound' : fs'.Sound) (found : fs.locate dir = .ok (p, .directory))
    (found' : fs'.locate dir = .ok (p, .directory))
    (same : ∀ x, holdsDocument x = true → (fs.get? x.1 = some x.2 ↔ fs'.get? x.1 = some x.2)) :
    fs.documents dir = fs'.documents dir := by
  rw [documents_eq sound found, documents_eq sound' found', filter_below_congr sound sound' same]

structure Extends (fs fs' : Files) : Prop where
  working : fs'.working = fs.working
  directories : ∀ p, fs.get? p = some .directory → fs'.get? p = some .directory

theorem Extends.refl (fs : Files) : fs.Extends fs := ⟨rfl, fun _ here => here⟩

theorem Extends.trans {fs'' : Files} (first : fs.Extends fs') (second : fs'.Extends fs'') : fs.Extends fs'' where
  working := second.working.trans first.working
  directories p here := second.directories p (first.directories p here)

theorem Extends.start (extended : fs.Extends fs') (path : String) : fs'.start path = fs.start path := by
  rw [Files.start, Files.start, extended.working]

theorem Extends.follow {cs place : List String} (extended : fs.Extends fs') (found : fs.follow place cs = .ok p) :
    fs'.follow place cs = .ok p := by
  induction cs generalizing place with
  | nil => exact found
  | cons c rest ih =>
    obtain ⟨here, found⟩ := follow_cons_eq_ok.mp found
    exact follow_cons_eq_ok.mpr ⟨extended.directories place here, ih found⟩

theorem Extends.locate (extended : fs.Extends fs') (found : fs.locate dir = .ok (p, .directory)) :
    fs'.locate dir = .ok (p, .directory) := by
  obtain ⟨leads, here⟩ := locate_eq_ok.mp found
  obtain ⟨named, leads⟩ := place_eq_ok.mp leads
  refine locate_eq_ok.mpr ⟨place_eq_ok.mpr ⟨named, ?_⟩, extended.directories p here⟩
  rw [extended.start]
  exact extended.follow leads

/-- Nothing is different but that there are more directories. -/
structure Grown (fs fs' : Files) : Prop where
  working : fs'.working = fs.working
  entries : ∀ p, fs'.get? p = fs.get? p ∨ fs.get? p = none ∧ fs'.get? p = some .directory

theorem Grown.refl (fs : Files) : fs.Grown fs := ⟨rfl, fun _ => .inl rfl⟩

theorem Grown.trans {fs'' : Files} (first : fs.Grown fs') (second : fs'.Grown fs'') : fs.Grown fs'' where
  working := second.working.trans first.working
  entries p := by
    rcases first.entries p with same | ⟨absent, made⟩
    · rcases second.entries p with again | ⟨absent, made⟩
      · exact .inl (again.trans same)
      · exact .inr ⟨same ▸ absent, made⟩
    · rcases second.entries p with again | ⟨absent', -⟩
      · exact .inr ⟨absent, again.trans made⟩
      · simp [made] at absent'

theorem Grown.extends (grown : fs.Grown fs') : fs.Extends fs' where
  working := grown.working
  directories p here := by
    rcases grown.entries p with same | ⟨-, made⟩
    · exact same.trans here
    · exact made

theorem grown_set (absent : fs.get? p = none) : fs.Grown (fs.set p .directory) where
  working := rfl
  entries q := by
    have below : p ≠ [] := by
      rintro rfl
      cases absent
    rw [get?_set below]
    by_cases new : q = p
    next => exact .inr ⟨new ▸ absent, by rw [if_pos new]⟩
    next => exact .inl (by rw [if_neg new])

structure Entered (fs : Files) (p cs : List String) (fs' : Files) (p' : List String) : Prop where
  grown : fs.Grown fs'
  sound : fs'.Sound
  here : fs'.get? p' = some .directory
  again : ∀ fs'', fs'.Extends fs'' → cs.foldlM (fun (fs, place) c => fs.enter place c) (fs'', p) = .ok (fs'', p')
  followed : ∀ fs'', fs'.Extends fs'' → fs''.follow p cs = .ok p'

theorem enter_eq_ok {c : String} (made : fs.enter p c = .ok (fs', q)) : q = step p c ∧
    (fs' = fs ∧ fs.get? q = some .directory ∨ fs.get? q = none ∧ fs' = fs.set q .directory) := by
  unfold enter at made
  dsimp only at made
  split at made
  next here =>
    cases made
    exact ⟨rfl, .inl ⟨rfl, here⟩⟩
  next => cases made
  next absent =>
    cases made
    exact ⟨rfl, .inr ⟨absent, rfl⟩⟩

theorem entered_of_enter {c : String} (made : fs.enter p c = .ok (fs', q)) (sound : fs.Sound)
    (plain : '/' ∉ c.toList) (here : fs.get? p = some .directory) : fs.Entered p [c] fs' q := by
  obtain ⟨rfl, outcome⟩ := enter_eq_ok made
  have proper := step_proper plain (sound.proper_of_get? here)
  obtain ⟨grown, sound', held⟩ : fs.Grown fs' ∧ fs'.Sound ∧ fs'.get? (step p c) = some .directory := by
    rcases outcome with ⟨rfl, held⟩ | ⟨absent, rfl⟩
    · exact ⟨.refl _, sound, held⟩
    · have below : step p c ≠ [] := by
        intro top
        rw [top] at absent
        cases absent
      exact ⟨grown_set absent, sound.set below proper, by rw [get?_set below, if_pos rfl]⟩
  refine ⟨grown, sound', held, fun gs extended => ?_, fun gs extended => ?_⟩
  · have again : gs.enter p c = .ok (gs, step p c) := by simp [enter, extended.directories _ held]
    rw [List.foldlM_cons]
    dsimp only
    rw [again]
    rfl
  · exact follow_cons_eq_ok.mpr ⟨extended.directories p (grown.extends.directories p here), rfl⟩

theorem Entered.trans {r cs ds : List String} {fs'' : Files} (first : fs.Entered p cs fs' q)
    (second : fs'.Entered q ds fs'' r) : fs.Entered p (cs ++ ds) fs'' r where
  grown := first.grown.trans second.grown
  sound := second.sound
  here := second.here
  again gs extended := by
    rw [List.foldlM_append, first.again gs (second.grown.extends.trans extended)]
    exact second.again gs extended
  followed gs extended := by
    rw [follow_append, first.followed gs (second.grown.extends.trans extended)]
    exact second.followed gs extended

theorem entered_of_foldlM {cs : List String}
    (made : cs.foldlM (fun (fs, place) c => fs.enter place c) (fs, p) = .ok (fs', q)) (sound : fs.Sound)
    (plain : ∀ c ∈ cs, '/' ∉ c.toList) (here : fs.get? p = some .directory) : fs.Entered p cs fs' q := by
  induction cs generalizing fs p with
  | nil =>
    cases made
    exact ⟨.refl _, sound, here, fun _ _ => rfl, fun _ _ => rfl⟩
  | cons c cs ih =>
    obtain ⟨⟨fs₁, p₁⟩, first, rest⟩ := foldlM_cons_eq_ok.mp made
    have entered := entered_of_enter first sound (plain c List.mem_cons_self) here
    exact entered.trans (ih rest entered.sound (fun d inside => plain d (List.mem_cons_of_mem _ inside)) entered.here)

structure Made (fs : Files) (path : String) (fs' : Files) (p : List String) : Prop where
  grown : fs.Grown fs'
  sound : fs'.Sound
  proper : ∀ n ∈ p, Path.Proper n
  again : ∀ gs, fs'.Extends gs → gs.makeDirectories path = .ok (gs, p)
  found : ∀ gs, fs'.Extends gs → gs.locate path = .ok (p, .directory)

theorem made_of_makeDirectories {path : String} (made : fs.makeDirectories path = .ok (fs', p)) (sound : fs.Sound) :
    fs.Made path fs' p := by
  unfold makeDirectories at made
  split at made
  next => cases made
  next goes =>
    obtain ⟨named, here⟩ : path ≠ "" ∧ fs.get? (fs.start path) = some .directory := by simpa using goes
    have entered := entered_of_foldlM made sound (fun _ => Path.plain_of_mem_components) here
    have starts {gs : Files} (extended : fs'.Extends gs) : gs.start path = fs.start path :=
      (entered.grown.extends.trans extended).start path
    refine ⟨entered.grown, entered.sound, entered.sound.proper_of_get? entered.here, fun gs extended => ?_,
      fun gs extended => ?_⟩
    · have there := (entered.grown.extends.trans extended).directories _ here
      rw [makeDirectories, starts extended, if_neg (by simp [named, there])]
      exact entered.again gs extended
    · refine locate_eq_ok.mpr ⟨place_eq_ok.mpr ⟨named, ?_⟩, extended.directories p entered.here⟩
      rw [starts extended]
      exact entered.followed gs extended

theorem read_join {n : String} {f : File} (found : fs.locate dir = .ok (p, .directory)) (proper : Path.Proper n)
    (held : fs.get? (p ++ [n]) = some (.file f)) :
    fs.read (Path.join [dir, n]) = f.content (Path.join [dir, n]) := by
  rw [read, locate_eq_ok.mpr ⟨place_join found proper, held⟩]

end Files

end Flowsheet
