set_option autoImplicit false

namespace Flowsheet.Text

def namesLe : List String → List String → Bool
  | [], _ => true
  | _ :: _, [] => false
  | a :: as, b :: bs => if a = b then namesLe as bs else decide (a < b)

end Flowsheet.Text
