set_option autoImplicit false

namespace Flowsheet.Path

def cut (separator : Char) : List Char → List (List Char)
  -- The parts of a text between separators; there is one more of them.
  | [] => [[]]
  | c :: cs =>
    if c = separator then [] :: cut separator cs
    else
      match cut separator cs with
      | [] => [[c]]
      | part :: parts => (c :: part) :: parts

def components (s : String) : List String := (cut '/' s.toList).map String.ofList

def isRooted (s : String) : Bool := s.toList.head? = some '/'

def reduce (rooted : Bool) : List String → List String → List String
  -- Leaves out empty components and dots, and lets two dots take back the component before them.
  -- The components so far come in reverse.
  | done, [] => done.reverse
  | done, c :: rest =>
    if c = "" || c = "." then reduce rooted done rest
    else if c = ".." then
      match done with
      | [] => reduce rooted (if rooted then [] else [".."]) rest
      | d :: before => reduce rooted (if d = ".." then ".." :: done else before) rest
    else reduce rooted (c :: done) rest

def clean (s : String) : String :=
  let body := "/".intercalate (reduce (isRooted s) [] (components s))
  if isRooted s then "/" ++ body else if body = "" then "." else body

def join (parts : List String) : String :=
  -- Puts parts together and cleans the result; empty parts do not count.
  match parts.filter (· ≠ "") with
  | [] => ""
  | ps => clean ("/".intercalate ps)

def base (s : String) : String :=
  if s = "" then "."
  else
    match (components s).filter (· ≠ "") with
    | [] => "/"
    | cs => cs.getLastD ""

def extension (s : String) : String :=
  let name := ((components s).getLastD "").toList.reverse
  if name.contains '.' then
    String.ofList ('.' :: (name.takeWhile (· ≠ '.')).reverse)
  else ""

end Flowsheet.Path
