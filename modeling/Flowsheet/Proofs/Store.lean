import Flowsheet.Lookup
import Flowsheet.Store.Basic

set_option autoImplicit false

namespace Flowsheet

namespace Store

variable {s : Store} {key : String} {v : Stored}

theorem find?_put : (s.put key v).find? key = (some v).filter (Stored.isLive s.clock) := by simp [find?, put]

theorem find?_put_self (live : Stored.isLive s.clock v = true) : (s.put key v).find? key = some v := by
  simp [find?, put, live]

theorem find?_erase_self : (s.erase key).find? key = none := by simp [find?, erase, lookup_filter_self]

theorem find?_erase_of_ne {other : String} (apart : key ≠ other) : (s.erase other).find? key = s.find? key := by
  simp [find?, erase, lookup_filter_ne apart]

theorem find?_put_of_ne {other : String} (apart : key ≠ other) : (s.put other v).find? key = s.find? key := by
  simp [find?, put, List.lookup_cons, beq_false_of_ne apart, lookup_filter_ne apart]

theorem isLive_of_le {now later : Int} (earlier : now ≤ later) (live : Stored.isLive later v = true) :
    Stored.isLive now v = true := by
  unfold Stored.isLive at live ⊢
  cases ends : v.expires with
  | none => rfl
  | some t =>
    simp only [ends, decide_eq_true_eq] at live ⊢
    omega

theorem find?_advance {d : Duration} (forward : 0 ≤ d.nanoseconds) :
    (s.advance d).find? key = (s.find? key).filter (Stored.isLive (s.clock + d.nanoseconds)) := by
  simp only [find?, advance, Option.filter_filter]
  congr 1
  funext v
  by_cases live : Stored.isLive (s.clock + d.nanoseconds) v = true
  next => simp [live, isLive_of_le (Int.le_add_of_nonneg_right forward) live]
  next => simp [live]

end Store

end Flowsheet
