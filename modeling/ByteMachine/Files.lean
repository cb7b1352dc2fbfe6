/-!
Files as the program meets them: a working folder of named entries, and the errors of reading a
path. Nothing is known of what lies outside the folder but that it is made of folders.
-/

namespace ByteMachine

inductive ReadError where
  | notFound
  | notFolder
  | isFolder
  | nameTooLong
  | nulInName
  | notText
  /-- Any other error, with the text that the system gives. -/
  | other (text : String)
  deriving DecidableEq, Repr

namespace ReadError

def message : ReadError → String
  | notFound => "No such file or directory (os error 2)"
  | notFolder => "Not a directory (os error 20)"
  | isFolder => "Is a directory (os error 21)"
  | nameTooLong => "File name too long (os error 36)"
  | nulInName => "file name contained an unexpected NUL byte"
  | notText => "stream did not contain valid UTF-8"
  | other text => text

end ReadError

inductive Entry where
  | file (bytes : ByteArray)
  | folder

structure Folder where
  entries : List (String × Entry)

namespace Folder

/-- Where a path has come to. The folders of an entry are empty. -/
inductive Place where
  | top
  | outside
  | within
  | file (bytes : ByteArray)

def find? (folder : Folder) (name : String) : Option Entry :=
  (folder.entries.find? (·.1 == name)).map (·.2)

def nameLimit : Nat := 255

def pathLimit : Nat := 4095

/-- Follows one component of a path. -/
def enter (folder : Folder) (name : String) : Place → Except ReadError Place
  | .file _ => .error .notFolder
  | place =>
    if name = "" ∨ name = "." then .ok place
    else if name = ".." then
      match place with
      | .within => .ok .top
      | _ => .ok .outside
    else if nameLimit < name.utf8ByteSize then .error .nameTooLong
    else
      match place, folder.find? name with
      | .top, some (.file bytes) => .ok (.file bytes)
      | .top, some .folder => .ok .within
      | _, _ => .error .notFound

def components (path : String) : List String :=
  (path.toList.splitOn '/').map String.ofList

/-- Reads the file at a path as text. -/
def read (folder : Folder) (path : String) : Except ReadError String := do
  if path.toList.contains '\x00' then throw .nulInName
  else if path.isEmpty then throw .notFound
  else if pathLimit < path.utf8ByteSize then throw .nameTooLong
  else
    let start := if path.toList.head? = some '/' then Place.outside else Place.top
    match ← (components path).foldlM (fun place name => folder.enter name place) start with
    | .file bytes =>
      match String.fromUTF8? bytes with
      | some text => return text
      | none => throw .notText
    | _ => throw .isFolder

end Folder

end ByteMachine
