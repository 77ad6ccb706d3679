import Flowsheet.Failure
import Flowsheet.Quantity

set_option autoImplicit false

namespace Flowsheet

abbrev Range (N : Type) := List N

namespace Range

variable {N : Type} [Quantity N]

def listText (xs : List N) : String := "[" ++ " ".intercalate (xs.map Quantity.general) ++ "]"

def validate : Range N → Except Failure Unit
  | [lo, hi] =>
    if Quantity.lt hi lo then
      .error (.of .invalidRange
        s!"invalid range: min {Quantity.general lo} greater than max {Quantity.general hi}")
    else .ok ()
  | r => .error (.of .invalidRange ("invalid range: expected [min, max], got " ++ listText r))

def contains (r : Range N) (v : N) : Bool :=
  match r.head?, r.getLast? with
  | some lo, some hi => Quantity.le lo v && Quantity.le v hi
  | _, _ => false

theorem validate_eq_ok_iff (r : Range N) :
    r.validate = .ok () ↔ ∃ lo hi, r = [lo, hi] ∧ Quantity.lt hi lo = false := by
  constructor
  · intro h
    unfold validate at h
    split at h
    · next lo hi =>
      split at h
      · cases h
      · next hlt => exact ⟨lo, hi, rfl, by simpa using hlt⟩
    · cases h
  · rintro ⟨lo, hi, rfl, h⟩
    simp [validate, h]

end Range

end Flowsheet
