import Flowsheet.Document.Basic
import Flowsheet.Files.Basic

set_option autoImplicit false

namespace Flowsheet

def Document.read (files : Files) (path : String) : Except Failure Document := do
  decode path (← files.read path)

end Flowsheet
