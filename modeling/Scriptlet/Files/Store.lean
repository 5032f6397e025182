import Scriptlet.Files.Access

/-!
# Files in memory

A file system held as a value, seen from one of its directories: plain files and directories under
the names that lead to them. Paths are followed part by part, so a path through a plain file or a
missing directory is refused as a system refuses it. A path may lead out of the directory that it
starts from, or start from the root: above a directory is always a directory, above the root the
root itself, and around the starting directory nothing has a name but what is put there.
-/

namespace Scriptlet

/-- What a path can lead to. -/
inductive FileEntry where
  | file (content : ByteArray)
  | directory

/-- Where a path leads: from the root, or else from the starting directory, by the names to follow.
The steps up out of the starting directory stand before the names, each written `..`. -/
structure FilePlace where
  fromRoot : Bool
  names : List String
deriving DecidableEq, Repr

/-- Whether a place is the root, the starting directory, or above that. -/
def FilePlace.isAround (place : FilePlace) : Bool :=
  place.names.all (· == "..")

/-- Where a part of a path leads from a place. -/
def FilePlace.step (place : FilePlace) (part : String) : FilePlace :=
  if part = "." then place
  else if part = ".." then
    if !place.isAround then { place with names := place.names.dropLast }
    else if place.fromRoot then place
    else { place with names := place.names ++ [part] }
  else { place with names := place.names ++ [part] }

/-- Where the parts of a path are followed from. -/
def FilePlace.base (path : String) : FilePlace :=
  ⟨path.startsWith "/", []⟩

/-- The parts of a path that name something. -/
def pathParts (path : String) : List String :=
  (path.splitOn "/").filter (· ≠ "")

/-- The most bytes that a part of a path can have. -/
def nameLimit : Nat := 255

/-- The most bytes that a path can have. -/
def pathLimit : Nat := 4095

/-- Refuses what is no path whatever the files are. -/
def needPath (path : String) : Except FileError Unit :=
  if path.toList.contains '\x00' then .error .nulInPath
  else if path.isEmpty then .error .missing
  else if pathLimit < path.utf8ByteSize then .error .nameTooLong
  else .ok ()

/-- The entries of a file system. Of two at one place the first is there. -/
structure Store where
  entries : List (FilePlace × FileEntry)

namespace Store

/-- A file system without entries. -/
def empty : Store :=
  ⟨[]⟩

/-- What is at a place. -/
def entry? (store : Store) (place : FilePlace) : Option FileEntry :=
  if place.isAround then some .directory else store.entries.lookup place

/-- Puts an entry at a place. -/
def put (store : Store) (place : FilePlace) (entry : FileEntry) : Store :=
  ⟨(place, entry) :: store.entries⟩

/-- Refuses a place that is no directory. -/
def needDirectory (store : Store) (place : FilePlace) : Except FileError Unit :=
  match store.entry? place with
  | some .directory => .ok ()
  | some (.file _) => .error .notDirectory
  | none => .error .missing

/-- Where the parts of a path lead from a place. All but the last have to lead to directories, and
no part can be longer than a name. -/
def follow (store : Store) (place : FilePlace) : List String → Except FileError FilePlace
  | [] => .ok place
  | part :: rest => do
    store.needDirectory place
    if nameLimit < part.utf8ByteSize then
      throw .nameTooLong
    store.follow (place.step part) rest

/-- The text of a file. What a slash follows has to be a directory, and no directory is read. -/
def read (store : Store) (path : String) : Except FileError String := do
  needPath path
  let place ← store.follow (.base path) (pathParts path)
  if path.endsWith "/" then
    store.needDirectory place
  match store.entry? place with
  | some (.file content) =>
    match String.fromUTF8? content with
    | some text => return text
    | none => throw .notText
  | some .directory => throw .isDirectory
  | none => throw .missing

/-- The store with a text as the content of a file, which may be new. A path that ends in a slash
stands for a directory, even where there is none. -/
def write (store : Store) (path content : String) : Except FileError Store := do
  needPath path
  if path.endsWith "/" then
    let parent ← store.follow (.base path) (pathParts path).dropLast
    store.needDirectory parent
    throw .isDirectory
  let place ← store.follow (.base path) (pathParts path)
  match store.entry? place with
  | some .directory => throw .isDirectory
  | _ => return store.put place (.file content.toUTF8)

/-- The store with a file where some parts lead from a place, and with the directories that they
lead through. -/
def addFileFrom (store : Store) (place : FilePlace) (content : ByteArray) : List String → Store
  | [] => store
  | [name] => store.put (place.step name) (.file content)
  | part :: rest =>
    let next := place.step part
    let store := if (store.entry? next).isNone then store.put next .directory else store
    store.addFileFrom next content rest

/-- The store with a file and the directories that its path leads through. -/
def addFile (store : Store) (path : String) (content : ByteArray) : Store :=
  store.addFileFrom (.base path) content (pathParts path)

end Store

/-- Files in memory are read and written through the state. -/
instance : FileAccess (StateM Store) where
  read path := return (← get).read path
  write path content := do
    match (← get).write path content with
    | .ok store =>
      set store
      return .ok ()
    | .error error => return .error error

end Scriptlet
