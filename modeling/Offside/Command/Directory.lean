/-!
# Files

The files of a working directory, with what every system has around them: the root, the standard
directories in it and the null device.  A path is followed component by component, from the root or
from the working directory.  Nothing else is known of what lies outside.
-/

namespace Offside.Command

inductive FileError where
  | missing
  | isDirectory
  | notDirectory
  | nameTooLong
deriving DecidableEq

def FileError.message : FileError → String
  | missing => "No such file or directory (os error 2)"
  | isDirectory => "Is a directory (os error 21)"
  | notDirectory => "Not a directory (os error 20)"
  | nameTooLong => "File name too long (os error 36)"

/-! ## Paths -/

structure Path where
  fromRoot : Bool
  /-- The names between the slashes, among them `.` and `..`. -/
  components : List String
  /-- A slash at the end wants a directory. -/
  wantsDirectory : Bool
deriving DecidableEq

def names (text : String) : List String := (text.splitOn "/").filter (! ·.isEmpty)

/-- A path as it is written, unless it is empty or longer than 4095 bytes. -/
def Path.ofText (text : String) : Except FileError Path :=
  if text.isEmpty then .error .missing
  else if 4095 < text.utf8ByteSize then .error .nameTooLong
  else
    .ok ⟨text.toList.head? = some '/', names text, text.toList.getLast? = some '/'⟩

/-! ## Places -/

abbrev Place := List String

/-- The working directory is a temporary one.  Its own name cannot be told: no path spells it. -/
def workplace : Place := ["tmp", ""]

def standardPlaces : List Place :=
  workplace ::
    ["bin", "boot", "dev", "etc", "home", "lib", "lib64", "media", "mnt", "opt", "proc", "root",
      "run", "sbin", "srv", "sys", "tmp", "usr", "var"].map ([·])

def nullDevice : Place := ["dev", "null"]

structure Directory where
  files : List (Place × List UInt8)

inductive Target where
  | file (bytes : List UInt8)
  | directory
  | vacant (place : Place)

namespace Directory

/-- Files by their names in the working directory, with slashes where they lie deeper. -/
def ofFiles (files : List (String × List UInt8)) : Directory :=
  ⟨(nullDevice, []) :: files.map fun file => (workplace ++ names file.1, file.2)⟩

def content? (directory : Directory) (place : Place) : Option (List UInt8) :=
  (directory.files.find? fun file => file.1 == place).map Prod.snd

def isInner (directory : Directory) (place : Place) : Bool :=
  standardPlaces.contains place ||
    directory.files.any fun file => place.isPrefixOf file.1 && place.length < file.1.length

def follow (directory : Directory) : Place → List String → Except FileError Target
  | _, [] => .ok .directory
  | place, name :: rest =>
      if name = "." then directory.follow place rest
      else if name = ".." then directory.follow place.dropLast rest
      else if 255 < name.utf8ByteSize then .error .nameTooLong
      else
        let inside := place ++ [name]
        match directory.content? inside with
        | some bytes => if rest.isEmpty then .ok (.file bytes) else .error .notDirectory
        | none =>
            if directory.isInner inside then directory.follow inside rest
            else if rest.isEmpty then .ok (.vacant inside)
            else .error .missing

def target (directory : Directory) (path : Path) (names : List String) : Except FileError Target :=
  directory.follow (if path.fromRoot then [] else workplace) names

/-! ## Access -/

def read (directory : Directory) (text : String) : Except FileError (List UInt8) := do
  let path ← Path.ofText text
  match ← directory.target path path.components with
  | .file bytes => if path.wantsDirectory then .error .notDirectory else .ok bytes
  | .directory => .error .isDirectory
  | .vacant _ => .error .missing

/-- The place where a file is made for appending, or `none` if it is there.  Behind a slash at the
end no file can be, whether or not there is a directory. -/
def vacancy? (directory : Directory) (text : String) : Except FileError (Option Place) := do
  let path ← Path.ofText text
  if path.wantsDirectory then
    match ← directory.target path path.components.dropLast with
    | .file _ => .error .notDirectory
    | .directory => .error .isDirectory
    | .vacant _ => .error .missing
  else
    match ← directory.target path path.components with
    | .file _ => .ok none
    | .directory => .error .isDirectory
    | .vacant place => .ok (some place)

/-- Opens a file for appending, which makes an empty one where none is. -/
def openFile (directory : Directory) (text : String) : Except FileError Unit × Directory :=
  match directory.vacancy? text with
  | .ok none => (.ok (), directory)
  | .ok (some place) => (.ok (), ⟨(place, []) :: directory.files⟩)
  | .error error => (.error error, directory)

end Directory

end Offside.Command
