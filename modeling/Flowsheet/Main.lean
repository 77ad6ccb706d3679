import Flowsheet.Command.Run

set_option autoImplicit false

namespace Flowsheet

-- The files below the working directory are read before a command runs, and what it changed is
-- written afterwards.

partial def readFiles (entries : Array IO.FS.DirEntry) (place : List String) (files : Files) :
    IO Files := do
  let mut files := files
  for entry in entries do
    let here := place ++ [entry.fileName]
    if ← entry.path.isDir then
      files ← readFiles (← entry.path.readDir) here (files.set here .directory)
    else
      let data ← IO.FS.readBinFile entry.path
      files := files.set here (.file { data := data.toList })
  return files

def writeEntry (place : List String) : Entry → IO Unit
  | .directory => IO.FS.createDirAll ("/" ++ "/".intercalate place)
  | .file f => IO.FS.writeBinFile ("/" ++ "/".intercalate place) ⟨f.data.toArray⟩

def emptyDirectory (path : String) : Files :=
  match ({} : Files).makeDirectories path with
  | .ok (files, working) => { files with working }
  | .error _ => {}

def writeFiles (old new : Files) : IO Unit := do
  for (place, entry) in new.below [] do
    if old.get? place ≠ some entry then writeEntry place entry

end Flowsheet

open Flowsheet in
def main (args : List String) : IO UInt32 := do
  let here ← IO.currentDir
  let ground := emptyDirectory here.toString
  let files ← readFiles (← here.readDir) ground.working ground
  let sources := (← IO.getEnv "INDUSTRIES_PATH").getD ""
  let (site, out, result) := Command.run sources args { files, store := { reachable := false } }
  writeFiles files site.files
  IO.print out
  match result with
  | .ok _ => return 0
  | .error f =>
    IO.eprintln s!"Error: {f.message}"
    return 1
