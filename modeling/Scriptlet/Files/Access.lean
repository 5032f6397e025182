/-!
# Access to files

What the command line needs of a file system: reading a file as text and replacing the content of
a file. `FileAccess` names these two operations, so the commands run over any file system.
-/

namespace Scriptlet

/-- Why a file cannot be read or written. -/
inductive FileError where
  | missing | isDirectory | notDirectory | nameTooLong
  /-- The path holds a NUL, which no path of the system can. -/
  | nulInPath
  /-- The content is no text in UTF-8. -/
  | notText
  /-- Any other reason, in the words of the system. -/
  | other (message : String)
deriving DecidableEq, Repr

/-- A file error on one line. -/
def FileError.line (error : FileError) : String :=
  "IO error: " ++
    match error with
    | missing => "No such file or directory (os error 2)"
    | isDirectory => "Is a directory (os error 21)"
    | notDirectory => "Not a directory (os error 20)"
    | nameTooLong => "File name too long (os error 36)"
    | nulInPath => "file name contained an unexpected NUL byte"
    | notText => "stream did not contain valid UTF-8"
    | other message => message

/-- Reading and writing whole files by their paths. -/
class FileAccess (m : Type → Type) where
  /-- The text of a file. -/
  read (path : String) : m (Except FileError String)
  /-- Makes a text the content of a file, which may be new. -/
  write (path content : String) : m (Except FileError Unit)

end Scriptlet
