set_option autoImplicit false

/-! # Files

What a path leads to in a directory of files, and what writing to a path does there. Paths are read
from that directory. Outside of it there are only the directories that it is in, down to the top of
the file system; what is written there is not kept.

A path is followed as it stands when something is looked up, so that a point or a slash behind a
file leads nowhere; a file is written under the normal form of its path. -/

namespace FluidCss

/-- What a path leads to. -/
inductive Entry where
  | missing
  /-- The path holds a null character, which no path can. -/
  | notAPath
  | directory
  | file (content : ByteArray)

/-- Why a file cannot be written. -/
inductive WriteError where
  | noDirectory
  /-- A file stands where the path needs a directory. -/
  | obstructed
  | isDirectory
  /-- The path, or a name in it, is longer than the file system allows. -/
  | tooLong
  /-- The path holds a null character. -/
  | notAPath
deriving DecidableEq, Repr

/-- Where a path leads to. -/
inductive Location where
  /-- A name in the directory. -/
  | inside (name : List String)
  /-- One of the directories that the directory is in. -/
  | above
  /-- A name in one of those, where nothing is. -/
  | beside
deriving DecidableEq, Repr

/-- The files of a directory and of the directories in it. The name of a file is the list of the
names that lead to it. -/
structure Directory where
  files : List (List String × ByteArray)

namespace Path

/-- The parts of a path between its slashes, points included. -/
def parts (path : String) : List String :=
  (path.toList.splitBy fun a b => a != '/' && b != '/').filterMap fun cs =>
    if cs = ['/'] then none else some (String.ofList cs)

/-- The names in a path; a point stands for the directory it is in. -/
def names (path : String) : List String := (parts path).filter fun name => name != "."

/-- Whether a path starts at the top of the file system. -/
def isAbsolute (path : String) : Bool := path.toList.head? == some '/'

/-- Whether a text is no path because it holds a null character. -/
def hasNull (path : String) : Bool := path.toList.contains '\x00'

/-- Whether a path has more bytes than the file system allows. -/
def isTooLong (path : String) : Bool := 4096 ≤ path.utf8ByteSize

/-- Whether a name has more bytes than the file system allows. -/
def isNameTooLong (name : String) : Bool := 256 ≤ name.utf8ByteSize

/-- Whether a path ends with a slash. -/
def endsWithSlash (path : String) : Bool := path.toList.getLast? == some '/'

/-- The slashes that an absolute path starts with: two stay two, more than two are one. -/
def slashes (path : String) : String :=
  match path.toList with
  | '/' :: '/' :: '/' :: _ => "/"
  | '/' :: '/' :: _ => "//"
  | '/' :: _ => "/"
  | _ => ""

/-- A path without what does not matter in it. -/
def normal (path : String) : String :=
  let text := slashes path ++ String.intercalate "/" (names path)
  if text = "" then "." else text

/-- The last name of a path. -/
def fileName (path : String) : String := (names path).getLast?.getD ""

end Path

namespace Directory

/-- The content of a file. -/
def content? (d : Directory) (name : List String) : Option ByteArray :=
  (d.files.find? fun file => file.1 == name).map (·.2)

/-- Whether there is a directory with a name: one that a file is in, or the directory itself. -/
def hasDirectory (d : Directory) (name : List String) : Bool :=
  name.isEmpty || d.files.any fun file => name.isPrefixOf file.1 && name.length < file.1.length

/-- What a name leads to. -/
def lookup (d : Directory) (name : List String) : Entry :=
  match d.content? name with
  | some content => .file content
  | none => if d.hasDirectory name then .directory else .missing

/-- What a place holds. -/
def entryAt (d : Directory) : Location → Entry
  | .inside name => d.lookup name
  | .above => .directory
  | .beside => .missing

/-- The place that a part of a path leads to from a directory. -/
def step (place : Location) (part : String) : Except WriteError Location :=
  if part = "." then .ok place
  else if part = ".." then
    match place with
    | .inside name => .ok (if name.isEmpty then .above else .inside name.dropLast)
    | outer => .ok outer
  else if Path.isNameTooLong part then .error .tooLong
  else
    match place with
    | .inside name => .ok (.inside (name ++ [part]))
    | _ => .ok .beside

/-- The place that the parts of a path lead to, or where they fail. -/
def follow (d : Directory) : Location → List String → Except WriteError Location
  | place, [] => .ok place
  | place, part :: rest =>
    match d.entryAt place with
    | .directory =>
      match step place part with
      | .ok next => d.follow next rest
      | .error e => .error e
    | .file _ => .error .obstructed
    | _ => .error .noDirectory

/-- The place that a path leads to. -/
def resolve (d : Directory) (path : String) : Except WriteError Location :=
  if Path.hasNull path then .error .notAPath
  else if Path.isTooLong path then .error .tooLong
  else d.follow (if Path.isAbsolute path then .above else .inside []) (Path.parts path)

/-- What a path leads to. -/
def entry (d : Directory) (path : String) : Entry :=
  match d.resolve path with
  | .error .notAPath => .notAPath
  | .error _ => .missing
  | .ok place =>
    match d.entryAt place with
    | .file content => if Path.endsWithSlash path then .missing else .file content
    | found => if path = "" then .missing else found

/-- The directory after a content has been written to a file that a path leads to. -/
def write (d : Directory) (path : String) (content : ByteArray) : Except WriteError Directory :=
  match d.resolve (Path.normal path) with
  | .error e => .error e
  | .ok place =>
    match d.entryAt place, place with
    | .directory, _ => .error .isDirectory
    | _, .inside name => .ok ⟨(name, content) :: d.files.filter fun file => file.1 != name⟩
    | _, _ => .ok d

end Directory

end FluidCss
