import Flowsheet.Template.Basic

set_option autoImplicit false

namespace Flowsheet

structure Templates where
  industry : Template
  process : Template
  getter : Template
deriving Inhabited

namespace Templates

def industryFile : String := "template_generated_industrial_class.txt"
def processFile : String := "template_generated_process_method.txt"
def getterFile : String := "template_generated_getter.txt"

def toList (t : Templates) : List Template := [t.industry, t.process, t.getter]

def sources (t : Templates) : List (List UInt8) := t.toList.map (·.source)

def parse (library : Template.Library) (industry process getter : String × List UInt8) :
    Except Failure Templates := do
  let i ← Template.parse library industry.1 industry.2
  let p ← Template.parse library process.1 process.2
  let g ← Template.parse library getter.1 getter.2
  return ⟨i, p, g⟩

end Templates

end Flowsheet
