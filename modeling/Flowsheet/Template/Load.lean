import Flowsheet.Files.Basic
import Flowsheet.Template.Default
import Flowsheet.Text.Utf8

set_option autoImplicit false

namespace Flowsheet.Templates

def textIn (files : Files) (dir file : String) : Except Failure (List UInt8) :=
  if dir = "" then .ok (Text.bytes (defaultText file))
  else
    match files.read (Path.join [dir, file]) with
    | .ok data => .ok data
    | .error f =>
      if f.hasCause .notExist then .ok (Text.bytes (defaultText file))
      else .error (f.because .template s!"template error: failed to read {file}")

def loadOne (library : Template.Library) (files : Files) (dir file : String) : Except Failure Template := do
  Template.parse library file (← textIn files dir file)

def load (library : Template.Library) (files : Files) (dir : String) : Except Failure Templates := do
  let industry ← loadOne library files dir industryFile
  let process ← loadOne library files dir processFile
  let getter ← loadOne library files dir getterFile
  return ⟨industry, process, getter⟩

end Flowsheet.Templates
