import Sexpr.Context
import Sexpr.Reader.Source
import Sexpr.Source.Bytes
import Sexpr.Writer

/-!
A folder of files: looking up paths, and reading and writing data in files.
-/

namespace Sexpr

inductive PathFault
  | notFound
  | notDirectory
  | isDirectory
  | nameTooLong
  | refused (code : Nat) (reason : String)
  deriving DecidableEq, Repr

structure PathError where
  fault : PathFault
  path : String
  deriving DecidableEq, Repr

def PathFault.describe : PathFault → String
  | .notFound => "[Errno 2] No such file or directory"
  | .notDirectory => "[Errno 20] Not a directory"
  | .isDirectory => "[Errno 21] Is a directory"
  | .nameTooLong => "[Errno 36] File name too long"
  | .refused code reason => "[Errno " ++ toString code ++ "] " ++ reason

def PathError.message (e : PathError) : String :=
  e.fault.describe ++ ": " ++ Text.quoted e.path

/-- The files of one folder, by name. What is around the folder is not known. -/
structure Folder where
  files : List (String × List UInt8)

namespace Folder

def empty : Folder := ⟨[]⟩

/-- Where a path has led so far. -/
inductive Place
  | here
  | around
  | file (bytes : List UInt8)

def get? (f : Folder) (name : String) : Option (List UInt8) := f.files.lookup name

def put (f : Folder) (name : String) (bytes : List UInt8) : Folder :=
  ⟨(name, bytes) :: f.files.filter fun e => e.1 ≠ name⟩

/-- The longest name, in bytes. -/
def maxName : Nat := 255

/-- The longest path, in bytes. -/
def maxPath : Nat := 4095

/-- Follows one part of a path. -/
def enter (f : Folder) (place : Place) (name : String) : Except PathFault Place :=
  match place with
  | .file _ => .error .notDirectory
  | .here =>
      if name = "" ∨ name = "." then .ok .here
      else if name = ".." then .ok .around
      else if name.utf8ByteSize > maxName then .error .nameTooLong
      else match f.get? name with
        | some bytes => .ok (.file bytes)
        | none => .error .notFound
  | .around =>
      if name = "" ∨ name = "." ∨ name = ".." then .ok .around
      else if name.utf8ByteSize > maxName then .error .nameTooLong
      else .error .notFound

def follow (f : Folder) (place : Place) (names : List String) : Except PathFault Place :=
  names.foldlM (f.enter) place

def names (path : String) : List String := (path.toList.splitOn '/').map String.ofList

/-- Where a path begins: an absolute one leads out of the folder. -/
def origin (path : String) : Place := if path.startsWith "/" then .around else .here

def refuse (path : String) (fault : PathFault) : Except PathError α := .error ⟨fault, path⟩

def openBytes (f : Folder) (path : String) : Except PathError (List UInt8) :=
  if path = "" then refuse path .notFound
  else if path.utf8ByteSize > maxPath then refuse path .nameTooLong
  else match f.follow (origin path) (names path) with
    | .ok (.file bytes) => .ok bytes
    | .ok _ => refuse path .isDirectory
    | .error fault => refuse path fault

/-- The parts of a path that lead to a file, and the name of the file. A path with a slash at its end
names no file. -/
def parentsAndName (path : String) : List String × String :=
  match (names path).reverse with
  | "" :: rest => ((rest.dropWhile (· = "")).tail.reverse, "")
  | last :: rest => (rest.reverse, last)
  | [] => ([], "")

/-- The name of the file that writing to a path replaces or creates. -/
def writableName (f : Folder) (path : String) : Except PathError String :=
  if path = "" then refuse path .notFound
  else if path.utf8ByteSize > maxPath then refuse path .nameTooLong
  else
    let (parents, last) := parentsAndName path
    match f.follow (origin path) parents with
    | .error fault => refuse path fault
    | .ok (.file _) => refuse path .notDirectory
    | .ok place =>
        if last = "" ∨ last = "." ∨ last = ".." then refuse path .isDirectory
        else if last.utf8ByteSize > maxName then refuse path .nameTooLong
        else match place with
          | .here => .ok last
          | _ => refuse path .notFound

end Folder

/-- Why a file could not be read as data: it could not be opened, or what is in it is wrong. -/
inductive FileError
  | unopened (context : Context) (e : PathError)
  | unread (context : Context) (e : ReadError)

def FileError.message (limit : DigitLimit) : FileError → Except DigitsError String
  | .unopened context e => .ok (context.withoutPos ++ ": " ++ e.message)
  | .unread context e => context.describe limit e

namespace Folder

/-- The characters of a file. A file that cannot be opened fails as a source does. -/
def source (blocking : Blocking) (f : Folder) (path : String) (n : Int) : Source :=
  match f.openBytes path with
  | .ok bytes => .ofBytes blocking n bytes
  | .error e => ⟨[], .failed e.message⟩

def readData (blocking : Blocking) (f : Folder) (settings : Settings) (path : String) :
    Except FileError (List Datum) :=
  match f.openBytes path with
  | .error e => .error (.unopened (.file path) e)
  | .ok bytes =>
      ((Source.ofBytes blocking Source.standardChunk bytes).readAll settings).mapError
        (.unread (.file path))

/-- The folder after data were written to a file, and what was written. -/
def writeData (limit : DigitLimit) (f : Folder) (fmt : Format) (path : String)
    (ds : List Datum) : Except PathError (Folder × Written) :=
  (f.writableName path).map fun name =>
    let w := Written.writeAll limit fmt "" ds
    (f.put name w.text.toUTF8.toList, w)

end Folder

end Sexpr
