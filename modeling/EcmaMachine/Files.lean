/-!
Files as a command sees them: what is found at a path, and a directory that is given by the texts
of its files.
-/

namespace EcmaMachine

inductive FileContent
  | text (s : String)
  | directory
  | absent
  /-- The path goes on behind a file. -/
  | blocked

namespace FileContent

def text? : FileContent → Option String
  | .text s => some s
  | _ => none

/-- Why there is no text. -/
def fault : FileContent → String
  | .text _ => ""
  | .directory => "Is a directory (os error 21)"
  | .absent => "No such file or directory (os error 2)"
  | .blocked => "Not a directory (os error 20)"

end FileContent

/-- The files of a directory, by their paths. -/
abbrev Directory := List (String × String)

namespace Directory

/-- The parts of a path between its slashes. -/
def parts (path : List Char) : List (List Char) :=
  path.foldr (fun c parts =>
    if c == '/' then [] :: parts
    else
      match parts with
      | p :: rest => (c :: p) :: rest
      | [] => [[c]]) [[]]

def isDirectory (files : Directory) (place : List (List Char)) : Bool :=
  files.any fun (name, _) =>
    let names := parts name.toList
    place.length < names.length && names.take place.length == place

/-- Walks from a directory inside, given by its path. What is outside is not known, but for the
directories that a path only leads up to. -/
def walk (files : Directory) (place : List (List Char)) : List (List Char) → FileContent
  | [] => .directory
  | part :: rest =>
    if part.isEmpty || part == ['.'] then walk files place rest
    else if part == ['.', '.'] then
      match place.reverse with
      | _ :: above => walk files above.reverse rest
      | [] => if rest.all (fun p => p.all (· == '.')) then .directory else .absent
    else
      let place := place ++ [part]
      match files.find? fun (name, _) => parts name.toList == place with
      | some (_, s) => if rest.isEmpty then .text s else .blocked
      | none => if isDirectory files place then walk files place rest else .absent

def read (files : Directory) (path : String) : FileContent :=
  match path.toList with
  | [] => .absent
  | '/' :: rest => if rest.all (· == '/') then .directory else .absent
  | cs => walk files [] (parts cs)

end Directory

end EcmaMachine
