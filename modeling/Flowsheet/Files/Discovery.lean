import Flowsheet.Files.Basic
import Flowsheet.Text.Case

set_option autoImplicit false

namespace Flowsheet.Files

def industries (fs : Files) (root : String) : Except Failure (List String) :=
  match fs.locate root with
  | .error e => .error (e.failure "open" root)
  | .ok (_, .file _) => .error (FileError.notDirectory.failure "open" root)
  | .ok (place, .directory) =>
    .ok ((fs.below place).filterMap fun (p, e) =>
      if e = .directory && p.length = place.length + 1 then
        some (Path.join [root, p.getLastD ""])
      else none)

def paths (dir : String) (names : List String) : String × String :=
  if names = [] then (dir, ".") else (Path.join (dir :: names), "/".intercalate names)

def walk (fs : Files) (dir : String) : Except Failure (List ((String × String) × File)) :=
  match fs.locate dir with
  | .error e => .error (e.failure "lstat" dir)
  | .ok (_, .file f) => .ok [(paths dir [], f)]
  | .ok (place, .directory) =>
    .ok ((fs.below place).filterMap fun (p, e) =>
      match e with
      | .file f => some (paths dir (p.drop place.length), f)
      | .directory => none)

def isDocument (path : String) : Bool :=
  [".yaml", ".yml"].contains (Text.lower (Path.extension path))

def documents (fs : Files) (dir : String) : Except Failure (List ((String × String) × File)) := do
  return (← fs.walk dir).filter fun ((path, _), _) => isDocument path

end Flowsheet.Files
