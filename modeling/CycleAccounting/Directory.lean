import CycleAccounting.Catalog
import CycleAccounting.Text.Pieces

/-!
# Directories

The program reads files as text and appends text to them, and does nothing else to files.  `Files`
is that interface; a `Directory`, a map from paths to contents, is the pure implementation of it.

A path leads from the directory or from the root through folders to a folder or to a name in one
(`Directory.locate`).  A folder below another is known if it has an entry of its own, as in an
archive: one with a slash at the end of its path.  Besides, there are the folders that the directory
lies in and those that every system has.  A file in any of them is kept under its path.
-/

namespace CycleAccounting

/-- Why a file cannot be read or opened. -/
inductive FileFault where
  | missing
  | isDirectory
  | notDirectory
  | nameTooLong
  /-- The path is no path: it contains the null character. -/
  | invalidPath
  /-- The content is not text. -/
  | notText
  | noSpace
  | other (message : String)
  deriving DecidableEq, Repr

/-- The message of the fault. -/
def FileFault.message : FileFault → String
  | missing => "No such file or directory (os error 2)"
  | isDirectory => "Is a directory (os error 21)"
  | notDirectory => "Not a directory (os error 20)"
  | nameTooLong => "File name too long (os error 36)"
  | invalidPath => "file name contained an unexpected NUL byte"
  | notText => "stream did not contain valid UTF-8"
  | noSpace => "No space left on device (os error 28)"
  | other message => message

/-- Why text is not appended to a file. -/
inductive AppendError where
  /-- The file cannot be opened. -/
  | unopened (fault : FileFault)
  /-- The file is open, but does not take the text. -/
  | unwritten (fault : FileFault)
  deriving DecidableEq, Repr

/-- Reading a file as text, and appending text to a file that need not be there. -/
structure Files (m : Type → Type) where
  read : String → m (Except FileFault String)
  append : String → String → m (Except AppendError Unit)

/-! ## Folders -/

/-- A folder on the way of a path. -/
inductive Folder where
  /-- The directory itself, for no levels, or the folder so many levels above it and below the
  root. -/
  | above (levels : Nat)
  | root
  /-- The folder that a name leads to from another one. -/
  | inside (outer : Folder) (name : String)
  deriving DecidableEq, Repr

namespace Folder

/-- The folder that a folder is in, where so many folders lie between the directory and the root;
the root is in itself. -/
def parent (between : Nat) : Folder → Folder
  | above levels => if levels < between then above (levels + 1) else root
  | root => root
  | inside outer _ => outer

/-- The path of a name in a folder; in the directory itself it is the name. -/
def path (name : String) : Folder → String
  | above levels => String.join (List.replicate levels "../") ++ name
  | root => "/" ++ name
  | inside outer folder => outer.path folder ++ "/" ++ name

/-- The folders that the root of every system has. -/
def ofSystem : List String :=
  ["bin", "boot", "dev", "etc", "home", "lib", "media", "mnt", "opt", "proc", "root", "run", "sbin",
   "srv", "sys", "tmp", "usr", "var"]

end Folder

/-- A file of the system that keeps nothing of what is written to it. -/
inductive Device where
  /-- Takes every text and is always empty. -/
  | null
  /-- Takes no text and is never read to its end. -/
  | full
  deriving DecidableEq, Repr

/-- The device with a path. -/
def Device.ofPath? (path : String) : Option Device :=
  if path = "/dev/null" then some null
  else if path = "/dev/full" then some full
  else none

/-! ## Directories -/

/-- The files in and below a directory, and those made outside of it. -/
structure Directory where
  /-- The contents of the files by their paths.  A path with a slash at its end is that of a folder,
  which has no content. -/
  files : Catalog ByteArray
  /-- The number of folders between the directory and the root. -/
  between : Nat

namespace Directory

/-- What a name in a folder is the name of. -/
inductive Entry where
  | folder (f : Folder)
  | device (k : Device)
  | file (content : ByteArray)
  | absent

/-- Where a path leads. -/
inductive Place where
  | folder
  /-- A name in a folder; whether a slash behind it says that it is the name of a folder. -/
  | named (f : Folder) (name : String) (slash : Bool)

/-- The longest name of a file, in bytes. -/
def longestName : Nat := 255

/-- The longest path, in bytes. -/
def longestPath : Nat := 4095

/-- Whether a name in a folder is that of a folder. -/
def hasFolder (d : Directory) (f : Folder) (name : String) : Bool :=
  f = .root && Folder.ofSystem.contains name || d.files.contains (f.path name ++ "/")

/-- Looks a name up in a folder. -/
def lookup (d : Directory) (f : Folder) (name : String) : Except FileFault Entry :=
  if longestName < name.utf8ByteSize then .error .nameTooLong
  else if d.hasFolder f name then .ok (.folder (.inside f name))
  else
    match Device.ofPath? (f.path name), d.files.get? (f.path name) with
    | some k, _ => .ok (.device k)
    | none, some content => .ok (.file content)
    | none, none => .ok .absent

/-- Goes from a folder to the one that a step of a path names. -/
def enter (d : Directory) (f : Folder) (step : String) : Except FileFault Folder :=
  if step = "." then .ok f
  else if step = ".." then .ok (f.parent d.between)
  else
    match d.lookup f step with
    | .error fault => .error fault
    | .ok (.folder inner) => .ok inner
    | .ok (.device _) | .ok (.file _) => .error .notDirectory
    | .ok .absent => .error .missing

/-- Follows a path, from the root if it begins with a slash and from the directory otherwise. -/
def locate (d : Directory) (path : String) : Except FileFault Place := do
  if path.toList.contains '\x00' then throw .invalidPath
  if path = "" then throw .missing
  if longestPath < path.utf8ByteSize then throw .nameTooLong
  let parts := (Text.pieces '/' path.toList).map String.ofList
  let start : Folder := if parts.head? = some "" then .root else .above 0
  let steps := parts.filter (· ≠ "")
  match steps.getLast? with
  | none => return .folder
  | some last =>
    let f ← steps.dropLast.foldlM d.enter start
    if last = "." || last = ".." then return .folder
    else return .named f last (parts.getLast? = some "")

/-- The text of a content. -/
def textOf (content : ByteArray) : Except FileFault String :=
  match String.fromUTF8? content with
  | some text => .ok text
  | none => .error .notText

/-- The text of a file. -/
def read (d : Directory) (path : String) : Except FileFault String := do
  match ← d.locate path with
  | .folder => throw .isDirectory
  | .named f name slash =>
    match ← d.lookup f name with
    | .folder _ => throw .isDirectory
    | .absent => throw .missing
    | .device k =>
      if slash then throw .notDirectory
      else if k = .null then return ""
      else throw .notText
    | .file content => if slash then throw .notDirectory else textOf content

/-- The directory with text appended to a file, which is made if it is not there. -/
def append (d : Directory) (path text : String) : Except AppendError Directory :=
  match d.locate path with
  | .error fault => .error (.unopened fault)
  | .ok .folder | .ok (.named _ _ true) => .error (.unopened .isDirectory)
  | .ok (.named f name false) =>
    match d.lookup f name with
    | .error fault => .error (.unopened fault)
    | .ok (.folder _) => .error (.unopened .isDirectory)
    | .ok (.device .null) => .ok d
    | .ok (.device .full) => .error (.unwritten .noSpace)
    | .ok (.file content) =>
      .ok { d with files := d.files.insert (f.path name) (content ++ text.toUTF8) }
    | .ok .absent => .ok { d with files := d.files.insert (f.path name) text.toUTF8 }

/-- The files of a directory that is carried along as state. -/
def asFiles : Files (StateM Directory) where
  read path := do return (← get).read path
  append path text := do
    match (← get).append path text with
    | .ok d => set d; return .ok ()
    | .error e => return .error e

end Directory

end CycleAccounting
