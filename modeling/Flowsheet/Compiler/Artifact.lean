import Flowsheet.Compiler.Basic

set_option autoImplicit false

namespace Flowsheet

inductive WriteStep where
  | makeDirectory
  | createTemporary
  | fill
  | close
  | publish
  | move
deriving DecidableEq, Repr

namespace Artifact

def freeName (fs : Files) (place : List String) (name : String) : Nat → Nat → String
  -- The first of the names `name.0`, `name.1`, … that is free in a directory.
  | 0, n => s!".{name}.{n}"
  | fuel + 1, n =>
    let candidate := s!".{name}.{n}"
    if (fs.get? (place ++ [candidate])).isNone then candidate else freeName fs place name fuel (n + 1)

def stepFailure (step : WriteStep) (path : String) (e : FileError) : Failure :=
  match step with
  | .makeDirectory => (e.failure "mkdir" path).within "failed to create output directory"
  | .createTemporary =>
    (e.failure (if e = .badName then "createtemp" else "open") path).within
      "failed to create temporary file"
  | .fill | .close => (e.failure "write" path).within s!"failed to write {path}"
  | .publish => e.failure "chmod" path
  | .move => (e.failure "rename" path).within "failed to move artifact into place"

-- Replaces the file `name` of a directory by one with the given content: the content goes to a temporary
-- file, which then takes the place of the old one. The states passed on the way come with the result, the
-- last one first; `fails` says which steps go wrong by themselves.
def trace (fails : WriteStep → Bool) (fs : Files) (dir name : String) (content : List UInt8) :
    List Files × Except Failure String :=
  let path := Path.join [dir, name]
  if fails .makeDirectory then ([fs], .error (stepFailure .makeDirectory dir .notFound))
  else
    match fs.makeDirectories dir with
    | .error e => ([fs], .error (stepFailure .makeDirectory dir e))
    | .ok (made, place) =>
      if name.contains '/' then
        ([made, fs], .error (stepFailure .createTemporary s!".{name}.*" .badName))
      else if fails .createTemporary then
        ([made, fs], .error (stepFailure .createTemporary dir .notFound))
      else
        let temporary := place ++ [freeName made place name made.entries.length 0]
        let target := place ++ [name]
        let created := made.set temporary (.file { data := [], permissions := 0o600 })
        let dropped := created.erase temporary
        if fails .fill then
          ([dropped, created, made, fs], .error (stepFailure .fill path .notFound))
        else
          let filled := created.set temporary (.file { data := content, permissions := 0o600 })
          if fails .close then
            ([dropped, filled, created, made, fs], .error (stepFailure .close path .notFound))
          else if fails .publish then
            ([dropped, filled, created, made, fs], .error (stepFailure .publish path .notFound))
          else
            let published := filled.set temporary (.file { data := content })
            if fails .move || made.get? target = some .directory then
              ([dropped, published, filled, created, made, fs],
                .error (stepFailure .move path .occupied))
            else
              let moved := (published.erase temporary).set target (.file { data := content })
              ([moved, published, filled, created, made, fs], .ok path)

def write (fs : Files) (dir name : String) (content : List UInt8) :
    Files × Except Failure String :=
  let (states, r) := trace (fun _ => false) fs dir name content
  (states.headD fs, r)

end Artifact

namespace Compiler

def writeTo (r : Compiled) (dir : String) (s : Site) : Site × Except Failure String :=
  let (files, result) := Artifact.write s.files dir r.filename r.script
  ({ s with files }, result)

def write (c : Compiler) (r : Compiled) (s : Site) : Site × Except Failure String :=
  writeTo r c.settings.outputPath s

def job (c : Compiler) (dir : String) (isCancelled : Bool) (s : Site) :
    Site × Except Failure Compiled :=
  match c.compile dir isCancelled s with
  | (s, .error f) => (s, .error (f.within s!"industry {Path.base dir}"))
  | (s, .ok r) =>
    match c.write r s with
    | (s, .error f) => (s, .error (f.within s!"industry {Path.base dir}"))
    | (s, .ok _) => (s, .ok r)

def jobs (c : Compiler) (isCancelled : Bool) :
    List String → Site → Site × List Compiled × List Failure
  -- Compiles and stores industries one after the other. One that fails does not stop the others.
  | [], s => (s, [], [])
  | dir :: rest, s =>
    match c.job dir isCancelled s with
    | (s, .ok r) =>
      let (s, rs, fs) := jobs c isCancelled rest s
      (s, r :: rs, fs)
    | (s, .error f) =>
      let (s, rs, fs) := jobs c isCancelled rest s
      (s, rs, f :: fs)

def compileAll (c : Compiler) (root : String) (isCancelled : Bool) (s : Site) :
    Site × List Compiled × Option Failure :=
  match s.files.industries root with
  | .error f => (s, [], some (f.within s!"failed to list industries in {root}"))
  | .ok dirs =>
    let (s, rs, fs) := c.jobs isCancelled dirs s
    (s, rs, Failure.collect fs)

end Compiler

end Flowsheet
