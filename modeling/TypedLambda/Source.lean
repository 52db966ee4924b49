import TypedLambda.Text.Quoted
import TypedLambda.Text.Utf8

/-!
# Source files

What opening a file gives, and which files hold programs. Reading a file yields its bytes and then
ends, normally or with an error; closing it may fail too. The words of such errors are the host's.
`FileSystem.ofEntry` is a file system with a single entry whose failures can be chosen.
-/

namespace TypedLambda

/-- A file that was opened: the bytes it yields, the error that ends the reading, and the error
that closing it gives. -/
structure OpenFile where
  bytes : List UInt8
  readError : Option String
  closeError : Option String
deriving DecidableEq

/-- A file system: opening a name gives a file or the host's error. -/
structure FileSystem where
  openFile : String → Except String OpenFile

inductive SourceError where
  | wrongExtension (extension : String)
  | notOpened (hostError : String)
deriving DecidableEq

namespace Source

def extension : String := ".story"

/-- The part of a name from the last dot after the last slash. -/
def extensionOf (name : String) : String :=
  let base := (name.toList.reverse.takeWhile (· != '/'))
  let tail := base.takeWhile (· != '.')
  if tail.length = base.length then "" else String.ofList ('.' :: tail.reverse)

/-- Open a source file. Its extension is checked first. -/
def openNamed (fs : FileSystem) (name : String) : Except SourceError OpenFile :=
  if extensionOf name = extension then
    match fs.openFile name with
    | .ok file => .ok file
    | .error e => .error (.notOpened e)
  else .error (.wrongExtension (extensionOf name))

end Source

def SourceError.message : SourceError → String
  | wrongExtension e =>
    "invalid file extension " ++ Text.Quoted.ofString e ++ ", expected " ++
      Text.Quoted.ofString Source.extension
  | notOpened hostError => hostError

/-- An error that ends the reading of a file after some bytes. -/
structure ReadFailure where
  after : Nat
  error : String
deriving DecidableEq

/-- An entry of a file system: a file, the reading of which may fail, or a directory. -/
inductive Entry where
  | file (bytes : List UInt8) (failure : Option ReadFailure)
  | directory
deriving DecidableEq

namespace FileSystem

/-- Whether a name is a path of nonempty parts other than `.` and `..`, or `.` itself. -/
def isValidPath (name : String) : Bool :=
  name == "." || (parts name.toList).all fun p => !(p.isEmpty || p == ['.'] || p == ['.', '.'])
where
  /-- The parts of a path between its slashes. -/
  parts : List Char → List (List Char)
    | [] => [[]]
    | c :: cs =>
      if c == '/' then [] :: parts cs
      else
        match parts cs with
        | first :: rest => (c :: first) :: rest
        | [] => [[c]]

/-- What opening an entry of the given name yields. A file that fails after some bytes yields
those bytes; one with fewer bytes ends before it fails. -/
def openEntry (name : String) (closeError : Option String) : Entry → OpenFile
  | .file bytes none => ⟨bytes, none, closeError⟩
  | .file bytes (some failure) =>
    if failure.after ≤ bytes.length then
      ⟨bytes.take failure.after, some failure.error, closeError⟩
    else ⟨bytes, none, closeError⟩
  | .directory => ⟨[], some ("read " ++ name ++ ": invalid argument"), closeError⟩

/-- A file system with one entry, which closes with the given error. -/
def ofEntry (entryName : String) (entry : Entry) (closeError : Option String) : FileSystem where
  openFile name :=
    if isValidPath name && name == entryName then .ok (openEntry name closeError entry)
    else .error ("open " ++ name ++ ": file does not exist")

end FileSystem

end TypedLambda
