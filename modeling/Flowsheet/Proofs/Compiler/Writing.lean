import Flowsheet.Compiler.Artifact
import Flowsheet.Proofs.Files
import Flowsheet.Proofs.Text.Digits

set_option autoImplicit false

namespace Flowsheet

namespace Artifact

def temporaryName (name : String) (n : Nat) : String := s!".{name}.{n}"

def IsTemporary (t : String) : Prop := ∃ name n, '/' ∉ name.toList ∧ t = temporaryName name n

def IsArtifact (t : String) : Prop := '/' ∉ t.toList ∧ ∃ stem, t = stem ++ ".py"

theorem toList_temporaryName (name : String) (n : Nat) :
    (temporaryName name n).toList = '.' :: (name.toList ++ '.' :: Nat.toDigits 10 n) := by
  have spelled : temporaryName name n = "." ++ name ++ "." ++ n.repr := rfl
  have dot : ".".toList = ['.'] := rfl
  simp [spelled, dot, Nat.toList_repr]

theorem temporaryName_injective {name : String} {m n : Nat} (same : temporaryName name m = temporaryName name n) :
    m = n := by
  have lists := congrArg String.toList same
  rw [toList_temporaryName, toList_temporaryName, List.cons.injEq] at lists
  have digits := (List.cons.inj (List.append_cancel_left lists.2)).2
  rw [← @Nat.ofDigitChars_ten_toDigits m, digits, Nat.ofDigitChars_ten_toDigits]

theorem IsTemporary.proper {t : String} (temporary : IsTemporary t) : Path.Proper t := by
  obtain ⟨name, n, plain, rfl⟩ := temporary
  have list := toList_temporaryName name n
  have length : 3 ≤ (temporaryName name n).toList.length := by
    have digits := List.length_pos_iff.mpr (@Nat.toDigits_ne_nil n 10)
    simp only [list, List.length_cons, List.length_append]
    omega
  refine ⟨fun same => ?_, fun same => ?_, fun same => ?_, fun inside => ?_⟩
  · rw [same] at length
    exact absurd length (by decide)
  · rw [same] at length
    exact absurd length (by decide)
  · rw [same] at length
    exact absurd length (by decide)
  · rw [list] at inside
    rcases List.mem_cons.mp inside with slash | inside
    · exact absurd slash (by decide)
    · rcases List.mem_append.mp inside with inside | inside
      · exact plain inside
      · rcases List.mem_cons.mp inside with slash | inside
        · exact absurd slash (by decide)
        · exact absurd (Text.isDigit_toDigits _ inside) (by decide)

theorem lowerChar_of_isDigit {c : Char} (digit : c.isDigit = true) : Text.lowerChar c = c := by
  have range : 48 ≤ c.toNat ∧ c.toNat ≤ 57 := by
    simpa [Char.isDigit, UInt32.le_iff_toNat_le] using digit
  have small : ¬ (65 ≤ c.val ∧ c.val ≤ 90) := by
    rintro ⟨large, -⟩
    have large : 65 ≤ c.toNat := UInt32.le_iff_toNat_le.mp large
    omega
  rw [Text.lowerChar, if_pos (by omega)]
  exact dif_neg small

theorem isDocument_of_tail {t : String} {stem tail : List Char} (spelled : t.toList = stem ++ '.' :: tail)
    (plain : '/' ∉ t.toList) (whole : '.' ∉ tail)
    (other : tail.map Text.lowerChar ≠ ['y', 'a', 'm', 'l'] ∧ tail.map Text.lowerChar ≠ ['y', 'm', 'l']) :
    Files.isDocument t = false := by
  have single : (Path.components t).getLastD "" = t := by
    rw [Path.components_of_plain plain]
    rfl
  have back : t.toList.reverse = tail.reverse ++ '.' :: stem.reverse := by simp [spelled]
  have inside : ∀ c ∈ tail.reverse, decide (c ≠ '.') = true := by
    intro c member
    have there : c ∈ tail := List.mem_reverse.mp member
    exact decide_eq_true fun equal => whole (equal ▸ there)
  have front : (tail.reverse ++ '.' :: stem.reverse).takeWhile (fun c => decide (c ≠ '.')) = tail.reverse := by
    rw [List.takeWhile_append_of_pos inside]
    simp
  have extension : Path.extension t = String.ofList ('.' :: tail) := by
    unfold Path.extension
    rw [single, back, if_pos (by simp), front, List.reverse_reverse]
  have dot : Text.lowerChar '.' = '.' := by decide
  have lowered : (Text.lower (String.ofList ('.' :: tail))).toList = '.' :: tail.map Text.lowerChar := by
    rw [Text.lower, String.toList_map, String.toList_ofList, List.map_cons, dot]
  have yaml : ".yaml".toList = ['.', 'y', 'a', 'm', 'l'] := rfl
  have yml : ".yml".toList = ['.', 'y', 'm', 'l'] := rfl
  rw [Files.isDocument, extension]
  simp only [List.contains_cons, List.contains_nil, Bool.or_false, Bool.or_eq_false_iff, beq_eq_false_iff_ne,
    ne_eq, ← String.toList_inj, lowered, yaml, yml, List.cons.injEq, true_and]
  exact other

theorem IsTemporary.not_document {t : String} (temporary : IsTemporary t) : Files.isDocument t = false := by
  have plain := temporary.proper.plain
  obtain ⟨name, n, -, rfl⟩ := temporary
  have same : (Nat.toDigits 10 n).map Text.lowerChar = Nat.toDigits 10 n := by
    rw [List.map_congr_left fun c inside => lowerChar_of_isDigit (Text.isDigit_toDigits _ inside), List.map_id']
  have letter : 'y' ∉ Nat.toDigits 10 n := fun inside => absurd (Text.isDigit_toDigits _ inside) (by decide)
  refine @isDocument_of_tail _ ('.' :: name.toList) _ (toList_temporaryName name n) plain
    (fun inside => absurd (Text.isDigit_toDigits _ inside) (by decide)) ?_
  rw [same]
  exact ⟨fun equal => letter (by simp [equal]), fun equal => letter (by simp [equal])⟩

theorem toList_py (stem : String) : (stem ++ ".py").toList = stem.toList ++ '.' :: ['p', 'y'] := by
  rw [String.toList_append]
  rfl

theorem IsArtifact.proper {t : String} (artifact : IsArtifact t) : Path.Proper t := by
  obtain ⟨plain, stem, rfl⟩ := artifact
  have length : 3 ≤ (stem ++ ".py").toList.length := by simp [toList_py, -String.toList_append]
  refine ⟨fun same => ?_, fun same => ?_, fun same => ?_, plain⟩
  all_goals
    rw [same] at length
    exact absurd length (by decide)

theorem IsArtifact.not_document {t : String} (artifact : IsArtifact t) : Files.isDocument t = false := by
  obtain ⟨plain, stem, rfl⟩ := artifact
  exact isDocument_of_tail (toList_py stem) plain (by decide) (by decide)

theorem IsTemporary.ne_artifact {t n : String} (temporary : IsTemporary t) (artifact : IsArtifact n) : t ≠ n := by
  obtain ⟨name, m, -, rfl⟩ := temporary
  obtain ⟨-, stem, rfl⟩ := artifact
  intro same
  have lists := congrArg String.toList same
  rw [toList_temporaryName, toList_py] at lists
  obtain ⟨digits, d, split⟩ := (List.eq_nil_or_concat' (Nat.toDigits 10 m)).resolve_left Nat.toDigits_ne_nil
  have ends : ('.' :: (name.toList ++ '.' :: digits)) ++ [d] = (stem.toList ++ ['.', 'p']) ++ ['y'] := by
    simpa [split] using lists
  have letter : d = 'y' := List.singleton_inj.mp (List.append_inj' ends rfl).2
  have digit : d.isDigit = true := @Text.isDigit_toDigits m d (by simp [split])
  rw [letter] at digit
  exact absurd digit (by decide)

/-- What lies over a ground in one of its directories: the files that those at work hold under
temporary names, and the files that were moved into place. -/
structure Layered (ground : Files) (place : List String) (held : Nat → Option (String × File))
    (kept : Nat → Option (String × List UInt8)) (fs : Files) : Prop where
  sound : fs.Sound
  working : fs.working = ground.working
  temporary : ∀ i t f, held i = some (t, f) → IsTemporary t ∧ ground.get? (place ++ [t]) = none ∧
    fs.get? (place ++ [t]) = some (.file f)
  apart : ∀ i j t f g, held i = some (t, f) → held j = some (t, g) → i = j
  artifact : ∀ i n d, kept i = some (n, d) → IsArtifact n ∧ ground.get? (place ++ [n]) ≠ some .directory ∧
    ∃ j d', kept j = some (n, d') ∧ fs.get? (place ++ [n]) = some (.file { data := d' })
  rest : ∀ p, (∀ i t f, held i = some (t, f) → p ≠ place ++ [t]) →
    (∀ i n d, kept i = some (n, d) → p ≠ place ++ [n]) → fs.get? p = ground.get? p

namespace Layered

variable {ground fs : Files} {place : List String} {held : Nat → Option (String × File)}
  {kept : Nat → Option (String × List UInt8)} {i : Nat} {t n : String} {f : File} {d : List UInt8}

theorem update_eq_some {α : Type} {m : Nat → Option α} {x : Option α} {j : Nat} {y : α} :
    Function.update m i x j = some y ↔ j = i ∧ x = some y ∨ j ≠ i ∧ m j = some y := by
  by_cases same : j = i <;> simp [same]

theorem bare (sound : ground.Sound) (free : ∀ i, held i = none) (new : ∀ i, kept i = none) :
    Layered ground place held kept ground where
  sound := sound
  working := rfl
  temporary i t f found := by simp [free] at found
  apart i j t f g found := by simp [free] at found
  artifact i n d found := by simp [new] at found
  rest _ _ _ := rfl

theorem ground_of_free (l : Layered ground place held kept fs) {p : List String} (free : fs.get? p = none) :
    ground.get? p = none := by
  rw [← free]
  refine (l.rest p (fun i t f found same => ?_) fun i n d found same => ?_).symm
  · obtain ⟨-, -, there⟩ := l.temporary i t f found
    rw [← same, free] at there
    cases there
  · obtain ⟨-, -, j, d', -, there⟩ := l.artifact i n d found
    rw [← same, free] at there
    cases there

theorem extends_ground (l : Layered ground place held kept fs) : ground.Extends fs := by
  refine ⟨l.working, fun p here => ?_⟩
  rw [← here]
  refine l.rest p (fun i t f found same => ?_) fun i n d found same => ?_
  · obtain ⟨-, free, -⟩ := l.temporary i t f found
    rw [← same, here] at free
    cases free
  · obtain ⟨-, notDirectory, -⟩ := l.artifact i n d found
    rw [← same] at notDirectory
    exact notDirectory here

theorem directory_iff (l : Layered ground place held kept fs) (artifact : IsArtifact n) :
    fs.get? (place ++ [n]) = some .directory ↔ ground.get? (place ++ [n]) = some .directory := by
  by_cases mine : ∃ i d, kept i = some (n, d)
  next =>
    obtain ⟨i, d, found⟩ := mine
    obtain ⟨-, notDirectory, j, d', -, there⟩ := l.artifact i n d found
    simp [there, notDirectory]
  next =>
    rw [l.rest (place ++ [n]) (fun i t f found same => ?_) fun i m d found same => ?_]
    · have equal : n = t := by simpa using same
      exact (l.temporary i t f found).1.ne_artifact artifact equal.symm
    · have equal : n = m := by simpa using same
      exact mine ⟨i, d, equal ▸ found⟩

theorem document_iff (l : Layered ground place held kept fs) (x : List String × Entry)
    (document : Files.holdsDocument x = true) : fs.get? x.1 = some x.2 ↔ ground.get? x.1 = some x.2 := by
  have named : Files.isDocument (x.1.getLastD "") = true := by
    unfold Files.holdsDocument at document
    split at document
    next => exact document
    next => cases document
  rw [l.rest x.1 (fun i t f found same => ?_) fun i m d found same => ?_]
  · rw [same, List.getLastD_concat, (l.temporary i t f found).1.not_document] at named
    cases named
  · rw [same, List.getLastD_concat, (l.artifact i m d found).1.not_document] at named
    cases named

theorem hold (l : Layered ground place held kept fs) (proper : ∀ n ∈ place, Path.Proper n)
    (temporary : IsTemporary t)
    (own : held i = none ∧ fs.get? (place ++ [t]) = none ∨ ∃ g, held i = some (t, g)) :
    Layered ground place (Function.update held i (some (t, f))) kept (fs.set (place ++ [t]) (.file f)) := by
  have below : place ++ [t] ≠ [] := by simp
  have free : ground.get? (place ++ [t]) = none := by
    rcases own with ⟨-, free⟩ | ⟨g, mine⟩
    · exact l.ground_of_free free
    · exact (l.temporary i t g mine).2.1
  -- Nobody else holds a file under `t`: the name was free, or `i` alone held it.
  have others : ∀ j t' f', j ≠ i → held j = some (t', f') → t' ≠ t := by
    rintro j t' f' other found rfl
    rcases own with ⟨-, free⟩ | ⟨g, mine⟩
    · rw [(l.temporary j t' f' found).2.2] at free
      cases free
    · exact other (l.apart j i t' f' g found mine)
  constructor
  case sound =>
    exact l.sound.set below (List.forall_mem_append.mpr ⟨proper, List.forall_mem_singleton.mpr temporary.proper⟩)
  case working => exact l.working
  case temporary =>
    intro j t' f' found
    rcases update_eq_some.mp found with ⟨rfl, new⟩ | ⟨other, found⟩
    · cases new
      exact ⟨temporary, free, by rw [Files.get?_set below, if_pos rfl]⟩
    · obtain ⟨temporary', free', there⟩ := l.temporary j t' f' found
      refine ⟨temporary', free', ?_⟩
      rw [Files.get?_set below, if_neg (by simpa using others j t' f' other found), there]
  case apart =>
    intro j k t' f' g' first second
    rcases update_eq_some.mp first with ⟨left, new⟩ | ⟨left, known⟩
    · cases new
      rcases update_eq_some.mp second with ⟨right, -⟩ | ⟨right, known⟩
      · exact left.trans right.symm
      · exact absurd rfl (others k _ g' right known)
    · rcases update_eq_some.mp second with ⟨-, new⟩ | ⟨-, known'⟩
      · cases new
        exact absurd rfl (others j _ f' left known)
      · exact l.apart j k t' f' g' known known'
  case artifact =>
    intro j m d found
    obtain ⟨artifact, notDirectory, k, d', kept', there⟩ := l.artifact j m d found
    refine ⟨artifact, notDirectory, k, d', kept', ?_⟩
    have other : m ≠ t := (temporary.ne_artifact artifact).symm
    rw [Files.get?_set below, if_neg (by simpa using other), there]
  case rest =>
    intro p clear clear'
    have other : p ≠ place ++ [t] := clear i t f (Function.update_self ..)
    rw [Files.get?_set below, if_neg other]
    refine l.rest p (fun j t' f' found => ?_) clear'
    by_cases same : j = i
    next =>
      rcases own with ⟨nothing, -⟩ | ⟨g, mine⟩
      · simp [same, nothing] at found
      · rw [same, mine, Option.some.injEq, Prod.mk.injEq] at found
        exact found.1 ▸ other
    next => exact clear j t' f' (update_eq_some.mpr (.inr ⟨same, found⟩))

theorem drop (l : Layered ground place held kept fs) (mine : held i = some (t, f)) :
    Layered ground place (Function.update held i none) kept (fs.erase (place ++ [t])) := by
  have below : place ++ [t] ≠ [] := by simp
  have remains {j : Nat} {x : String × File} (found : Function.update held i none j = some x) :
      j ≠ i ∧ held j = some x :=
    (update_eq_some.mp found).resolve_left nofun
  constructor
  case sound => exact l.sound.erase
  case working => exact l.working
  case temporary =>
    intro j t' f' found
    obtain ⟨same, found⟩ := remains found
    obtain ⟨temporary', free', there⟩ := l.temporary j t' f' found
    have other : t' ≠ t := by
      rintro rfl
      exact same (l.apart j i t' f' f found mine)
    exact ⟨temporary', free', by rw [Files.get?_erase below, if_neg (by simpa using other), there]⟩
  case apart =>
    intro j k t' f' g' first second
    exact l.apart j k t' f' g' (remains first).2 (remains second).2
  case artifact =>
    intro j m d found
    obtain ⟨artifact, notDirectory, k, d', kept', there⟩ := l.artifact j m d found
    have other : m ≠ t := ((l.temporary i t f mine).1.ne_artifact artifact).symm
    refine ⟨artifact, notDirectory, k, d', kept', ?_⟩
    rw [Files.get?_erase below, if_neg (by simpa using other), there]
  case rest =>
    intro p clear clear'
    rw [Files.get?_erase below]
    split
    next same => rw [same, (l.temporary i t f mine).2.1]
    next other =>
      refine l.rest p (fun j t' f' found => ?_) clear'
      by_cases same : j = i
      next =>
        rw [same, mine, Option.some.injEq, Prod.mk.injEq] at found
        exact found.1 ▸ other
      next => exact clear j t' f' (update_eq_some.mpr (.inr ⟨same, found⟩))

theorem keep (l : Layered ground place held kept fs) (proper : ∀ n ∈ place, Path.Proper n) (artifact : IsArtifact n)
    (clear : fs.get? (place ++ [n]) ≠ some .directory) (new : kept i = none) :
    Layered ground place held (Function.update kept i (some (n, d))) (fs.set (place ++ [n]) (.file { data := d })) := by
  have below : place ++ [n] ≠ [] := by simp
  have here : (fs.set (place ++ [n]) (.file { data := d })).get? (place ++ [n]) = some (.file { data := d }) := by
    rw [Files.get?_set below, if_pos rfl]
  have mine : Function.update kept i (some (n, d)) i = some (n, d) := Function.update_self ..
  have fits : ground.get? (place ++ [n]) ≠ some .directory :=
    fun there => clear ((l.directory_iff artifact).mpr there)
  -- Nothing was kept by `i`, so all that was kept still is.
  have still {j : Nat} {x : String × List UInt8} (found : kept j = some x) :
      Function.update kept i (some (n, d)) j = some x := by
    refine update_eq_some.mpr (.inr ⟨?_, found⟩)
    rintro rfl
    rw [new] at found
    cases found
  constructor
  case sound =>
    exact l.sound.set below (List.forall_mem_append.mpr ⟨proper, List.forall_mem_singleton.mpr artifact.proper⟩)
  case working => exact l.working
  case temporary =>
    intro j t f found
    obtain ⟨temporary, free, there⟩ := l.temporary j t f found
    have other : t ≠ n := temporary.ne_artifact artifact
    exact ⟨temporary, free, by rw [Files.get?_set below, if_neg (by simpa using other), there]⟩
  case apart => exact l.apart
  case artifact =>
    intro j m d' found
    -- Two results may go by one name: the file has what was kept last.
    by_cases same : m = n
    next =>
      subst same
      exact ⟨artifact, fits, i, d, mine, here⟩
    next =>
      rcases update_eq_some.mp found with ⟨-, new⟩ | ⟨-, found⟩
      · cases new
        exact absurd rfl same
      · obtain ⟨artifact', fits', k, d'', kept', there⟩ := l.artifact j m d' found
        refine ⟨artifact', fits', k, d'', still kept', ?_⟩
        rw [Files.get?_set below, if_neg (by simpa using same), there]
  case rest =>
    intro p clear clear'
    rw [Files.get?_set below, if_neg (clear' i n d mine)]
    exact l.rest p clear fun j m d' found => clear' j m d' (still found)

end Layered

structure Replacement where
  dir : String
  name : String
  content : List UInt8
  fails : WriteStep → Bool

/-- Where replacing a file stands. -/
inductive Writing where
  | begun
  | placed (place : List String)
  | opened (place : List String) (t : String)
  | filled (place : List String) (t : String)
  | closed (place : List String) (t : String)
  | published (place : List String) (t : String)
  | ended (r : Except Failure String)

def Writing.left : Writing → Nat
  | .begun => 7
  | .placed _ => 6
  | .opened _ _ => 5
  | .filled _ _ => 4
  | .closed _ _ => 3
  | .published _ _ => 2
  | .ended _ => 0

namespace Replacement

def path (a : Replacement) : String := Path.join [a.dir, a.name]

def advance (a : Replacement) (t : String) (fs : Files) : Writing → Files × Writing
  | .begun =>
    if a.fails .makeDirectory then (fs, .ended (.error (stepFailure .makeDirectory a.dir .notFound)))
    else
      match fs.makeDirectories a.dir with
      | .error e => (fs, .ended (.error (stepFailure .makeDirectory a.dir e)))
      | .ok (made, place) => (made, .placed place)
  | .placed place =>
    if a.name.contains '/' then (fs, .ended (.error (stepFailure .createTemporary s!".{a.name}.*" .badName)))
    else if a.fails .createTemporary then (fs, .ended (.error (stepFailure .createTemporary a.dir .notFound)))
    else (fs.set (place ++ [t]) (.file { data := [], permissions := 0o600 }), .opened place t)
  | .opened place t =>
    if a.fails .fill then (fs.erase (place ++ [t]), .ended (.error (stepFailure .fill a.path .notFound)))
    else (fs.set (place ++ [t]) (.file { data := a.content, permissions := 0o600 }), .filled place t)
  | .filled place t =>
    if a.fails .close then (fs.erase (place ++ [t]), .ended (.error (stepFailure .close a.path .notFound)))
    else (fs, .closed place t)
  | .closed place t =>
    if a.fails .publish then (fs.erase (place ++ [t]), .ended (.error (stepFailure .publish a.path .notFound)))
    else (fs.set (place ++ [t]) (.file { data := a.content }), .published place t)
  | .published place t =>
    if a.fails .move || fs.get? (place ++ [a.name]) = some .directory then
      (fs.erase (place ++ [t]), .ended (.error (stepFailure .move a.path .occupied)))
    else ((fs.erase (place ++ [t])).set (place ++ [a.name]) (.file { data := a.content }), .ended (.ok a.path))
  | .ended r => (fs, .ended r)

def IsFree (a : Replacement) (fs : Files) (place : List String) (t : String) : Prop :=
  (∃ n, t = temporaryName a.name n) ∧ fs.get? (place ++ [t]) = none

inductive Advances (a : Replacement) : Files × Writing → Files × Writing → Prop
  | step {fs : Files} {w : Writing} (t : String) (unfinished : ∀ r, w ≠ .ended r)
      (free : ∀ place, w = .placed place → a.IsFree fs place t) : Advances a (fs, w) (a.advance t fs w)

theorem Advances.left_lt {a : Replacement} {x y : Files × Writing} (advances : a.Advances x y) :
    y.2.left < x.2.left := by
  obtain @⟨fs, w, t, unfinished, -⟩ := advances
  cases w with
  | ended r => exact absurd rfl (unfinished r)
  | begun =>
    dsimp only [advance]
    split
    · exact Nat.succ_pos _
    · split
      · exact Nat.succ_pos _
      · exact Nat.lt_succ_self _
  | placed place =>
    dsimp only [advance]
    split
    · exact Nat.succ_pos _
    · split
      · exact Nat.succ_pos _
      · exact Nat.lt_succ_self _
  | opened place u | filled place u | closed place u =>
    dsimp only [advance]
    split
    · exact Nat.succ_pos _
    · exact Nat.lt_succ_self _
  | published place u =>
    dsimp only [advance]
    split
    · exact Nat.succ_pos _
    · exact Nat.succ_pos _

/-- What can go wrong once the directory is made, in the order in which it does. -/
def hurdles (a : Replacement) (blocked : Bool) : List (Bool × Failure) :=
  [(a.name.contains '/', stepFailure .createTemporary s!".{a.name}.*" .badName),
    (a.fails .createTemporary, stepFailure .createTemporary a.dir .notFound),
    (a.fails .fill, stepFailure .fill a.path .notFound), (a.fails .close, stepFailure .close a.path .notFound),
    (a.fails .publish, stepFailure .publish a.path .notFound),
    (a.fails .move || blocked, stepFailure .move a.path .occupied)]

def take (a : Replacement) (hs : List (Bool × Failure)) : Except Failure String :=
  match hs.find? (·.1) with
  | some h => .error h.2
  | none => .ok a.path

def blocked (a : Replacement) (ground : Files) (place : List String) : Bool :=
  match ground.makeDirectories a.dir with
  | .ok (made, _) => made.get? (place ++ [a.name]) = some .directory
  | .error _ => false

/-- How replacing a file will end over a ground. -/
def verdict (a : Replacement) (ground : Files) : Writing → Except Failure String
  | .begun =>
    if a.fails .makeDirectory then .error (stepFailure .makeDirectory a.dir .notFound)
    else
      match ground.makeDirectories a.dir with
      | .error e => .error (stepFailure .makeDirectory a.dir e)
      | .ok (_, place) => a.take (a.hurdles (a.blocked ground place))
  | .placed place => a.take (a.hurdles (a.blocked ground place))
  | .opened place _ => a.take ((a.hurdles (a.blocked ground place)).drop 2)
  | .filled place _ => a.take ((a.hurdles (a.blocked ground place)).drop 3)
  | .closed place _ => a.take ((a.hurdles (a.blocked ground place)).drop 4)
  | .published place _ => a.take ((a.hurdles (a.blocked ground place)).drop 5)
  | .ended r => r

variable {a : Replacement} {ground fs : Files} {w : Writing} {t : String}

theorem verdict_advance
    (begins : w = .begun → (fs.makeDirectories a.dir).map (·.2) = (ground.makeDirectories a.dir).map (·.2))
    (blocks : ∀ place u, w = .published place u →
      decide (fs.get? (place ++ [a.name]) = some .directory) = a.blocked ground place) :
    a.verdict ground (a.advance t fs w).2 = a.verdict ground w := by
  cases w with
  | begun =>
    have same := begins rfl
    rw [advance, verdict]
    by_cases fails : a.fails .makeDirectory = true
    next => simp [fails, verdict]
    next =>
      rw [if_neg fails, if_neg fails]
      cases makes : fs.makeDirectories a.dir with
      | error e =>
        cases makes' : ground.makeDirectories a.dir with
        | error e' =>
          simp only [makes, makes', Except.map, Except.error.injEq] at same
          rw [same]
          rfl
        | ok p => simp [makes, makes', Except.map] at same
      | ok p =>
        cases makes' : ground.makeDirectories a.dir with
        | error e' => simp [makes, makes', Except.map] at same
        | ok p' =>
          simp only [makes, makes', Except.map, Except.ok.injEq] at same
          dsimp only
          rw [← same]
          rfl
  -- From here on a step that goes well has its hurdle behind it, and one that fails ends the work.
  | placed place =>
    by_cases slash : a.name.contains '/' = true
    next => simp [advance, verdict, take, hurdles, slash]
    next =>
      by_cases fails : a.fails .createTemporary = true
      next => simp [advance, verdict, take, hurdles, slash, fails]
      next => simp [advance, verdict, take, hurdles, slash, fails]
  | opened place u =>
    by_cases fails : a.fails .fill = true
    next => simp [advance, verdict, take, hurdles, fails]
    next => simp [advance, verdict, take, hurdles, fails]
  | filled place u =>
    by_cases fails : a.fails .close = true
    next => simp [advance, verdict, take, hurdles, fails]
    next => simp [advance, verdict, take, hurdles, fails]
  | closed place u =>
    by_cases fails : a.fails .publish = true
    next => simp [advance, verdict, take, hurdles, fails]
    next => simp [advance, verdict, take, hurdles, fails]
  | published place u =>
    have same := blocks place u rfl
    rw [advance]
    by_cases stops : (a.fails .move || a.blocked ground place) = true
    next => simp [verdict, take, hurdles, same, stops]
    next => simp [verdict, take, hurdles, same, stops]
  | ended r => rfl

end Replacement

theorem freeName_eq {fs : Files} {place : List String} {name : String} (fuel n : Nat) :
    ∃ m, n ≤ m ∧ m ≤ n + fuel ∧ freeName fs place name fuel n = temporaryName name m ∧
      (fs.get? (place ++ [temporaryName name m]) = none ∨
        m = n + fuel ∧ ∀ k, n ≤ k → k < m → fs.get? (place ++ [temporaryName name k]) ≠ none) := by
  induction fuel generalizing n with
  | zero => exact ⟨n, le_refl n, by omega, rfl, .inr ⟨rfl, fun k low high => by omega⟩⟩
  | succ fuel ih =>
    by_cases free : fs.get? (place ++ [temporaryName name n]) = none
    next =>
      refine ⟨n, le_refl n, by omega, ?_, .inl free⟩
      rw [freeName]
      exact if_pos (by simpa [temporaryName] using free)
    next =>
      obtain ⟨m, low, high, same, known⟩ := ih (n + 1)
      refine ⟨m, by omega, by omega, ?_,
        known.imp_right fun ⟨last, taken⟩ => ⟨by omega, fun k small large => ?_⟩⟩
      · rw [freeName, ← same]
        exact if_neg (by simpa [temporaryName, Option.isNone_iff_eq_none] using free)
      · by_cases first : k = n
        next => exact first ▸ free
        next => exact taken k (by omega) large

theorem freeName_free (fs : Files) (place : List String) (name : String) :
    (∃ n, freeName fs place name fs.entries.length 0 = temporaryName name n) ∧
      fs.get? (place ++ [freeName fs place name fs.entries.length 0]) = none := by
  obtain ⟨m, -, -, same, known⟩ := @freeName_eq fs place name fs.entries.length 0
  refine ⟨⟨m, same⟩, ?_⟩
  rw [same]
  rcases known with free | ⟨last, taken⟩
  · exact free
  · by_contra occupied
    -- Were every name taken, there would be more names than entries.
    have all : ∀ k < fs.entries.length + 1, place ++ [temporaryName name k] ∈ fs.entries.map (·.1) := by
      intro k small
      have held : fs.get? (place ++ [temporaryName name k]) ≠ none := by
        by_cases final : k = m
        next => exact final ▸ occupied
        next => exact taken k (Nat.zero_le k) (by omega)
      obtain ⟨e, held⟩ := Option.ne_none_iff_exists'.mp held
      rw [Files.get?, if_neg (by simp)] at held
      exact List.mem_map_of_mem (mem_of_lookup held)
    have distinct : ((List.range (fs.entries.length + 1)).map fun k => place ++ [temporaryName name k]).Nodup :=
      List.nodup_range.map fun j k equal => temporaryName_injective (by simpa using equal)
    have fewer := distinct.length_le_of_subset fun p inside => by
      obtain ⟨k, member, rfl⟩ := List.mem_map.mp inside
      exact all k (List.mem_range.mp member)
    simp at fewer

theorem temporaryName_ne (name : String) (n : Nat) : temporaryName name n ≠ name := by
  intro same
  have lengths := congrArg (fun s : String => s.toList.length) same
  simp only [toList_temporaryName, List.length_cons, List.length_append] at lengths
  omega

namespace Replacement

open Relation

variable {a : Replacement} {ground fs fs' : Files} {w w' : Writing} {t : String}

theorem advances_of (t : String) (unfinished : ∀ r, w ≠ .ended r)
    (free : ∀ place, w = .placed place → a.IsFree fs place t)
    (same : a.advance t fs w = (fs', w')) : a.Advances (fs, w) (fs', w') := by
  rw [← same]
  exact .step t unfinished free

theorem exists_advances (a : Replacement) (fs : Files) (unfinished : ∀ r, w ≠ .ended r) :
    ∃ y, a.Advances (fs, w) y := by
  cases w with
  | ended r => exact absurd rfl (unfinished r)
  | placed place =>
    refine ⟨_, .step (freeName fs place a.name fs.entries.length 0) unfinished ?_⟩
    rintro _ ⟨⟩
    exact freeName_free fs place a.name
  | begun | opened | filled | closed | published => exact ⟨_, .step "" unfinished nofun⟩

def Passes (a : Replacement) (fs : Files) (states : List Files × Except Failure String) : Prop :=
  (∀ s ∈ states.1, ∃ w, ReflTransGen a.Advances (fs, .begun) (s, w)) ∧
    ReflTransGen a.Advances (fs, .begun) (states.1.headD fs, .ended states.2)

theorem passes_cons {past : List Files} {r : Except Failure String}
    (before : ∀ s ∈ past, ∃ w, ReflTransGen a.Advances (fs, .begun) (s, w))
    (comes : ReflTransGen a.Advances (fs, .begun) (fs', .ended r)) : a.Passes fs (fs' :: past, r) :=
  ⟨List.forall_mem_cons.mpr ⟨⟨_, comes⟩, before⟩, comes⟩

theorem passes_trace (a : Replacement) (fs : Files) : a.Passes fs (trace a.fails fs a.dir a.name a.content) := by
  unfold trace
  -- `start` grows by a state with each step; a step that fails leaves it as the past of the end.
  have start : ∀ s ∈ [fs], ∃ w, ReflTransGen a.Advances (fs, .begun) (s, w) := by simpa using ⟨_, .refl⟩
  by_cases noDirectory : a.fails .makeDirectory = true
  · rw [if_pos noDirectory]
    exact passes_cons nofun (.single (advances_of "" nofun nofun (by simp [advance, noDirectory])))
  rw [if_neg noDirectory]
  cases makes : fs.makeDirectories a.dir with
  | error e => exact passes_cons nofun (.single (advances_of "" nofun nofun (by simp [advance, noDirectory, makes])))
  | ok p =>
    obtain ⟨made, place⟩ := p
    dsimp only
    have placed : ReflTransGen a.Advances (fs, .begun) (made, .placed place) :=
      .single (advances_of "" nofun nofun (by simp [advance, noDirectory, makes]))
    generalize pick : freeName made place a.name made.entries.length 0 = t
    have free : ∀ p, Writing.placed place = .placed p → a.IsFree made p t := by
      rintro _ ⟨⟩
      have found := freeName_free made place a.name
      rwa [pick] at found
    obtain ⟨⟨n, named⟩, -⟩ := free place rfl
    have apart : a.name ≠ t := by
      rw [named]
      exact (temporaryName_ne a.name n).symm
    have below : place ++ [t] ≠ [] := by simp
    by_cases slash : a.name.contains '/' = true
    · rw [if_pos slash]
      exact passes_cons start (placed.tail (advances_of t nofun free (by simp [advance, slash])))
    rw [if_neg slash]
    by_cases noTemporary : a.fails .createTemporary = true
    · rw [if_pos noTemporary]
      exact passes_cons start (placed.tail (advances_of t nofun free (by simp [advance, slash, noTemporary])))
    rw [if_neg noTemporary]
    have start := List.forall_mem_cons.mpr ⟨⟨_, placed⟩, start⟩
    generalize creates : made.set (place ++ [t]) (.file { data := [], permissions := 0o600 }) = created
    have opened : ReflTransGen a.Advances (fs, .begun) (created, .opened place t) :=
      placed.tail (advances_of t nofun free (by simp [advance, slash, noTemporary, creates]))
    have start := List.forall_mem_cons.mpr ⟨⟨_, opened⟩, start⟩
    by_cases noFill : a.fails .fill = true
    · rw [if_pos noFill]
      exact passes_cons start (opened.tail (advances_of "" nofun nofun (by simp [advance, noFill, path])))
    rw [if_neg noFill]
    generalize fills : created.set (place ++ [t]) (.file { data := a.content, permissions := 0o600 }) = filled
    have written : ReflTransGen a.Advances (fs, .begun) (filled, .filled place t) :=
      opened.tail (advances_of "" nofun nofun (by simp [advance, noFill, fills]))
    have start := List.forall_mem_cons.mpr ⟨⟨_, written⟩, start⟩
    by_cases noClose : a.fails .close = true
    · rw [if_pos noClose]
      exact passes_cons start (written.tail (advances_of "" nofun nofun
        (by simp [advance, noClose, path, ← fills, Files.erase_set])))
    rw [if_neg noClose]
    have closed : ReflTransGen a.Advances (fs, .begun) (filled, .closed place t) :=
      written.tail (advances_of "" nofun nofun (by simp [advance, noClose]))
    by_cases noPublish : a.fails .publish = true
    · rw [if_pos noPublish]
      exact passes_cons start (closed.tail (advances_of "" nofun nofun
        (by simp [advance, noPublish, path, ← fills, Files.erase_set])))
    rw [if_neg noPublish]
    generalize publishes : filled.set (place ++ [t]) (.file { data := a.content }) = published
    have shown : ReflTransGen a.Advances (fs, .begun) (published, .published place t) :=
      closed.tail (advances_of "" nofun nofun (by simp [advance, noPublish, publishes]))
    have start := List.forall_mem_cons.mpr ⟨⟨_, shown⟩, start⟩
    -- The target is no temporary file, so it is still what it was when the directory was made.
    have target : made.get? (place ++ [a.name]) = published.get? (place ++ [a.name]) := by
      have other : place ++ [a.name] ≠ place ++ [t] := by simpa using apart
      rw [← publishes, Files.get?_set below, if_neg other, ← fills, Files.get?_set below, if_neg other, ← creates,
        Files.get?_set below, if_neg other]
    rw [target]
    by_cases stops : (a.fails .move || decide (published.get? (place ++ [a.name]) = some .directory)) = true
    · rw [if_pos stops]
      refine passes_cons start (shown.tail (advances_of "" nofun nofun ?_))
      rw [advance, if_pos stops]
      simp [path, ← publishes, ← fills, Files.erase_set]
    · rw [if_neg stops]
      refine passes_cons start (shown.tail (advances_of "" nofun nofun ?_))
      rw [advance, if_neg stops]
      simp [path]

theorem advances_trace (a : Replacement) (fs : Files) : ReflTransGen a.Advances (fs, .begun)
    ((trace a.fails fs a.dir a.name a.content).1.headD fs, .ended (trace a.fails fs a.dir a.name a.content).2) :=
  (a.passes_trace fs).2

theorem verdict_begun : a.verdict ground .begun = (trace a.fails ground a.dir a.name a.content).2 := by
  rw [verdict, trace]
  by_cases noDirectory : a.fails .makeDirectory = true
  · rw [if_pos noDirectory, if_pos noDirectory]
  rw [if_neg noDirectory, if_neg noDirectory]
  cases makes : ground.makeDirectories a.dir with
  | error e => rfl
  | ok p =>
    obtain ⟨made, place⟩ := p
    have known : a.blocked ground place = decide (made.get? (place ++ [a.name]) = some .directory) := by
      simp [blocked, makes]
    dsimp only
    rw [take, hurdles, known]
    by_cases slash : a.name.contains '/' = true
    · simp [slash]
    by_cases noTemporary : a.fails .createTemporary = true
    · simp [slash, noTemporary]
    by_cases noFill : a.fails .fill = true
    · simp [slash, noTemporary, noFill, path]
    by_cases noClose : a.fails .close = true
    · simp [slash, noTemporary, noFill, noClose, path]
    by_cases noPublish : a.fails .publish = true
    · simp [slash, noTemporary, noFill, noClose, noPublish, path]
    rw [if_neg slash, if_neg noTemporary, if_neg noFill, if_neg noClose, if_neg noPublish]
    by_cases stops : (a.fails .move || decide (made.get? (place ++ [a.name]) = some .directory)) = true
    · rw [if_pos stops]
      simp only [List.find?_cons, slash, noTemporary, noFill, noClose, noPublish, stops]
      rfl
    · rw [if_neg stops]
      simp only [List.find?_cons, slash, noTemporary, noFill, noClose, noPublish, stops]
      rfl

theorem verdict_of_free {made : Files} {place : List String} (goes : ∀ step, a.fails step = false)
    (plain : '/' ∉ a.name.toList) (makes : ground.makeDirectories a.dir = .ok (made, place))
    (free : made.get? (place ++ [a.name]) ≠ some .directory) : a.verdict ground .begun = .ok a.path := by
  have fits : a.name.contains '/' = false := by simpa using plain
  have clear : a.blocked ground place = false := by simp [blocked, makes, free]
  simp [verdict, goes, makes, take, hurdles, fits, clear]

end Replacement

def Writing.held (content : List UInt8) : Writing → Option (String × File)
  | .opened _ t => some (t, { data := [], permissions := 0o600 })
  | .filled _ t | .closed _ t => some (t, { data := content, permissions := 0o600 })
  | .published _ t => some (t, { data := content })
  | _ => none

def Writing.kept (name : String) (content : List UInt8) : Writing → Option (String × List UInt8)
  | .ended (.ok _) => some (name, content)
  | _ => none

def Writing.Sits (place : List String) (name : String) : Writing → Prop
  | .placed p => p = place
  | .opened p _ | .filled p _ | .closed p _ | .published p _ => p = place ∧ '/' ∉ name.toList
  | _ => True

namespace Layered

variable {a : Replacement} {ground fs fs' : Files} {place : List String} {held : Nat → Option (String × File)}
  {kept : Nat → Option (String × List UInt8)} {i : Nat} {w w' : Writing}

theorem idle (l : Layered ground place held kept fs) (mine : held i = none) :
    Layered ground place (Function.update held i none) kept fs := by
  rw [← mine, Function.update_eq_self]
  exact l

theorem unkept (l : Layered ground place held kept fs) (own : kept i = none) :
    Layered ground place held (Function.update kept i none) fs := by
  rw [← own, Function.update_eq_self]
  exact l

theorem advance (l : Layered ground place held kept fs) (proper : ∀ n ∈ place, Path.Proper n)
    (again : fs.makeDirectories a.dir = .ok (fs, place)) (named : ∃ stem, a.name = stem ++ ".py")
    (sits : w.Sits place a.name) (mine : held i = w.held a.content) (own : kept i = w.kept a.name a.content)
    (advances : a.Advances (fs, w) (fs', w')) :
    Layered ground place (Function.update held i (w'.held a.content))
      (Function.update kept i (w'.kept a.name a.content)) fs' ∧ w'.Sits place a.name := by
  have slash : a.name.contains '/' = true ↔ '/' ∈ a.name.toList := by simp
  generalize before : (fs, w) = x, after : (fs', w') = y at advances
  obtain @⟨gs, v, t, unfinished, free⟩ := advances
  cases before
  -- A step that fails drops what is held; only the last step keeps a file.
  cases w with
  | begun =>
    rw [Replacement.advance, again] at after
    split at after
    next =>
      cases after
      exact ⟨(l.idle mine).unkept own, trivial⟩
    next =>
      cases after
      exact ⟨(l.idle mine).unkept own, rfl⟩
  | placed p =>
    obtain rfl : p = place := sits
    rw [Replacement.advance] at after
    split at after
    next =>
      cases after
      exact ⟨(l.idle mine).unkept own, trivial⟩
    next fits =>
      split at after
      next =>
        cases after
        exact ⟨(l.idle mine).unkept own, trivial⟩
      next =>
        cases after
        have plain : '/' ∉ a.name.toList := fun inside => fits (slash.mpr inside)
        obtain ⟨⟨n, rfl⟩, new⟩ := free p rfl
        exact ⟨(l.hold proper ⟨a.name, n, plain, rfl⟩ (.inl ⟨mine, new⟩)).unkept own, rfl, plain⟩
  | opened p u =>
    obtain ⟨rfl, plain⟩ := sits
    have temporary := (l.temporary i u _ mine).1
    rw [Replacement.advance] at after
    split at after
    next =>
      cases after
      exact ⟨(l.drop mine).unkept own, trivial⟩
    next =>
      cases after
      exact ⟨(l.hold proper temporary (.inr ⟨_, mine⟩)).unkept own, rfl, plain⟩
  | filled p u =>
    obtain ⟨rfl, plain⟩ := sits
    rw [Replacement.advance] at after
    split at after
    next =>
      cases after
      exact ⟨(l.drop mine).unkept own, trivial⟩
    next =>
      cases after
      have same : Function.update held i (Writing.held a.content (.filled p u)) = held := by
        rw [← mine, Function.update_eq_self]
      refine ⟨?_, rfl, plain⟩
      change Layered ground p (Function.update held i (Writing.held a.content (.filled p u))) _ _
      rw [same]
      exact l.unkept own
  | closed p u =>
    obtain ⟨rfl, plain⟩ := sits
    have temporary := (l.temporary i u _ mine).1
    rw [Replacement.advance] at after
    split at after
    next =>
      cases after
      exact ⟨(l.drop mine).unkept own, trivial⟩
    next =>
      cases after
      exact ⟨(l.hold proper temporary (.inr ⟨_, mine⟩)).unkept own, rfl, plain⟩
  | published p u =>
    obtain ⟨rfl, plain⟩ := sits
    have temporary := (l.temporary i u _ mine).1
    have artifact : IsArtifact a.name := ⟨plain, named⟩
    rw [Replacement.advance] at after
    split at after
    next =>
      cases after
      exact ⟨(l.drop mine).unkept own, trivial⟩
    next goes =>
      cases after
      have clear : fs.get? (p ++ [a.name]) ≠ some .directory := fun there => goes (by simp [there])
      have other : a.name ≠ u := (temporary.ne_artifact artifact).symm
      have clear' : (fs.erase (p ++ [u])).get? (p ++ [a.name]) ≠ some .directory := by
        rw [Files.get?_erase (by simp), if_neg (by simpa using other)]
        exact clear
      exact ⟨(l.drop mine).keep proper artifact clear' own, trivial⟩
  | ended r => exact absurd rfl (unfinished r)

end Layered

end Artifact

end Flowsheet
