import TodoTracker.Text.Printable
import TodoTracker.Text.Utf8

/-!
# Why a file operation fails

An operation on files fails with a code of the system and the path it was asked for. A file that
can be read may still not be source text: a zero byte in its first bytes marks it as binary, and
otherwise it has to be UTF-8.
-/

set_option autoImplicit false

namespace TodoTracker

inductive FileFlaw
  | notFound
  | alreadyExists
  | notDirectory
  | isDirectory
  | noSpace
  | nameTooLong
  | linkLoop
  deriving DecidableEq, Repr

namespace FileFlaw

def code : FileFlaw → Nat
  | .notFound => 2
  | .alreadyExists => 17
  | .notDirectory => 20
  | .isDirectory => 21
  | .noSpace => 28
  | .nameTooLong => 36
  | .linkLoop => 40

def text : FileFlaw → Text
  | .notFound => "No such file or directory".toList
  | .alreadyExists => "File exists".toList
  | .notDirectory => "Not a directory".toList
  | .isDirectory => "Is a directory".toList
  | .noSpace => "No space left on device".toList
  | .nameTooLong => "File name too long".toList
  | .linkLoop => "Too many levels of symbolic links".toList

/-- Whether a file that cannot be looked up for this reason counts as absent. -/
def meansAbsent : FileFlaw → Bool
  | .notFound | .notDirectory | .linkLoop => true
  | _ => false

end FileFlaw

structure FileError where
  flaw : FileFlaw
  path : Text
  /-- The second path of an operation that has two. -/
  target : Option Text
  deriving DecidableEq, Repr

def FileError.message (e : FileError) : Text :=
  let target := match e.target with
    | some t => " -> ".toList ++ Text.quoted t
    | none => []
  "[Errno ".toList ++ Text.ofNat e.flaw.code ++ "] ".toList ++ e.flaw.text ++ ": ".toList ++
    Text.quoted e.path ++ target

/-- Why the bytes of a file are not source text. -/
inductive SourceFlaw
  | binary
  | encoding (flaw : Utf8.Flaw)
  deriving DecidableEq, Repr

/-- The message about the file at `path`. -/
def SourceFlaw.message (path : Text) : SourceFlaw → Text
  | .binary => path ++ " looks binary".toList
  | .encoding flaw => path ++ " is not UTF-8 text: ".toList ++ flaw.message

/-- How many bytes are searched for a zero byte. -/
def sniffSize : Nat := 8192

/-- The source text that bytes hold. -/
def readSource (bytes : Bytes) : Except SourceFlaw Text :=
  if (bytes.take sniffSize).contains 0 then .error .binary
  else match Utf8.decode bytes with
    | .ok t => .ok t
    | .error e => .error (.encoding e.flaw)

end TodoTracker
