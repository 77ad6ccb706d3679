import Flowsheet.Failure
import Flowsheet.Path
import Flowsheet.Text.Order

set_option autoImplicit false

namespace Flowsheet

structure File where
  data : List UInt8
  permissions : Nat := 0o644
deriving DecidableEq, Repr

inductive Entry where
  | file (f : File)
  | directory
deriving DecidableEq, Repr

inductive FileError where
  | notFound
  | notDirectory
  | isDirectory
  | occupied
  | badName
  | denied
deriving DecidableEq, Repr

def FileError.failure (e : FileError) (attempt path : String) : Failure :=
  match e with
  | .notFound => .of .notExist s!"{attempt} {path}: no such file or directory"
  | .notDirectory => .of .fileSystem s!"{attempt} {path}: not a directory"
  | .isDirectory => .of .fileSystem s!"{attempt} {path}: is a directory"
  | .occupied => .of .fileSystem s!"{attempt} {path}: file exists"
  | .badName => .of .fileSystem s!"{attempt} {path}: pattern contains path separator"
  | .denied => .of .fileSystem s!"{attempt} {path}: permission denied"

namespace File

def isReadable (f : File) : Bool := f.permissions.testBit 8

def content (f : File) (path : String) : Except Failure (List UInt8) :=
  if f.isReadable then .ok f.data else .error (FileError.denied.failure "open" path)

end File

/-- The files of a system, each under the names that lead to it from the root, which is the empty list.
A path that is not rooted starts at the working directory. -/
structure Files where
  entries : List (List String × Entry) := []
  working : List String := []
deriving DecidableEq, Repr

namespace Files

def get? (fs : Files) (place : List String) : Option Entry :=
  if place = [] then some .directory else fs.entries.lookup place

def set (fs : Files) (place : List String) (e : Entry) : Files :=
  { fs with entries := (place, e) :: fs.entries.filter fun p => !(p.1 == place) }

def erase (fs : Files) (place : List String) : Files :=
  { fs with entries := fs.entries.filter fun p => !(p.1 == place) }

def step (place : List String) (c : String) : List String :=
  if c = "" || c = "." then place
  else if c = ".." then place.dropLast
  else place ++ [c]

def follow (fs : Files) : List String → List String → Except FileError (List String)
  -- Every place on the way has to be a directory; the last one need not be there.
  | place, [] => .ok place
  | place, c :: rest =>
    match fs.get? place with
    | none => .error .notFound
    | some (.file _) => .error .notDirectory
    | some .directory => fs.follow (step place c) rest

def start (fs : Files) (path : String) : List String := if Path.isRooted path then [] else fs.working

def place (fs : Files) (path : String) : Except FileError (List String) :=
  if path = "" then .error .notFound else fs.follow (fs.start path) (Path.components path)

def locate (fs : Files) (path : String) : Except FileError (List String × Entry) := do
  let p ← fs.place path
  match fs.get? p with
  | some e => return (p, e)
  | none => throw .notFound

def isDirectory (fs : Files) (path : String) : Bool :=
  match fs.locate path with
  | .ok (_, .directory) => true
  | _ => false

def read (fs : Files) (path : String) : Except Failure (List UInt8) :=
  match fs.locate path with
  | .ok (_, .file f) => f.content path
  | .ok (_, .directory) => .error (FileError.isDirectory.failure "read" path)
  | .error e => .error (e.failure "open" path)

def enter (fs : Files) (place : List String) (c : String) : Except FileError (Files × List String) :=
  let here := step place c
  match fs.get? here with
  | some .directory => .ok (fs, here)
  | some (.file _) => .error .notDirectory
  | none => .ok (fs.set here .directory, here)

def makeDirectories (fs : Files) (path : String) : Except FileError (Files × List String) :=
  if path = "" || fs.get? (fs.start path) ≠ some .directory then .error .notFound
  else (Path.components path).foldlM (fun (fs, place) c => fs.enter place c) (fs, fs.start path)

def put (fs : Files) (path : String) (data : List UInt8) : Except FileError Files := do
  let (fs, place) ← fs.makeDirectories (Path.join [path, ".."])
  let here := place ++ [Path.base path]
  match fs.get? here with
  | some .directory => throw .isDirectory
  | _ => return fs.set here (.file { data })

def removeAll (fs : Files) (place : List String) : Files :=
  { fs with entries := fs.entries.filter fun p => !place.isPrefixOf p.1 }

def below (fs : Files) (place : List String) : List (List String × Entry) :=
  (fs.entries.filter fun p => place.isPrefixOf p.1).mergeSort fun a b => Text.namesLe a.1 b.1

end Files

end Flowsheet
