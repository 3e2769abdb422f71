import Machine6809.Text.Pieces

/-!
# Files

The program sees files only through a function from paths to texts, which may fail (`FileError`).
`FileView.read` is that function where the files are all known: folders hold entries by name, and
a path is followed from entry to entry (`Entry.follow`).

A path is a row of names with slashes between them. It begins at the root if a slash stands in
front, else at the working folder. An empty name or a dot stays where it is and two dots lead to
the folder around, but only a folder can be stayed in or left: a slash behind the name of a file
asks for a folder that is not there.
-/

namespace Machine6809

namespace CommandLine

/-- Why a file could not be read. -/
inductive FileError where
  /-- There is no such file. -/
  | notFound
  /-- The path goes on behind a file. -/
  | notFolder
  /-- The path leads to a folder. -/
  | isFolder
  /-- The path or a name in it is longer than the system allows. -/
  | nameTooLong
  /-- The bytes are no text. -/
  | notText
  /-- The system gave another reason. -/
  | other (reason : String)
  deriving DecidableEq, Repr, Inhabited

/-- The reason in words. -/
def FileError.message : FileError → String
  | .notFound => "No such file or directory (os error 2)"
  | .notFolder => "Not a directory (os error 20)"
  | .isFolder => "Is a directory (os error 21)"
  | .nameTooLong => "File name too long (os error 36)"
  | .notText => "stream did not contain valid UTF-8"
  | .other reason => reason

/-- The error that a number of the system stands for. Numbers also come with their sign turned. -/
def FileError.ofNumber (number : UInt32) (reason : String) : FileError :=
  match (if number < 0x80000000 then number else 0 - number).toNat with
  | 2 => .notFound
  | 13 => .other "Permission denied (os error 13)"
  | 20 => .notFolder
  | 21 => .isFolder
  | 36 => .nameTooLong
  | n => .other s!"{reason} (os error {n})"

/-- The text that bytes stand for in UTF-8. -/
def decodeText (bytes : ByteArray) : Except FileError String :=
  match String.fromUTF8? bytes with
  | some text => .ok text
  | none => .error .notText

/-! ### Folders -/

/-- What can stand under a name. -/
inductive Entry where
  | file (bytes : ByteArray)
  | folder (entries : List (String × Entry))
  deriving Inhabited

/-- The bytes that a name may have at most. -/
def longestName : Nat := 255

/-- The bytes that a path may have at most. -/
def longestPath : Nat := 4095

/-- Go from an entry along names. The folders around the entry are given with the nearest first;
around the root there are none, and there two dots stay where they are. -/
def Entry.follow (around : List Entry) (here : Entry) : List String → Except FileError Entry
  | [] => .ok here
  | name :: names =>
    match here with
    | .file _ => .error .notFolder
    | .folder entries =>
      if name = "" ∨ name = "." then here.follow around names
      else if name = ".." then
        match around with
        | [] => here.follow [] names
        | outer :: around => outer.follow around names
      else if longestName < name.utf8ByteSize then .error .nameTooLong
      else
        match entries.lookup name with
        | some entry => entry.follow (here :: around) names
        | none => .error .notFound

/-! ### What a program sees -/

/-- The working folder and the folders around it, the nearest first and the root last. -/
structure FileView where
  working : Entry
  around : List Entry
  deriving Inhabited

namespace FileView

/-- The folder that is in no other. -/
def root (view : FileView) : Entry := view.around.getLast?.getD view.working

/-- The entry that a path leads to. -/
def find (view : FileView) (path : String) : Except FileError Entry :=
  let names := (cutAt '/' path.toList).map String.ofList
  if path = "" then .error .notFound
  else if longestPath < path.utf8ByteSize then .error .nameTooLong
  else if path.toList.head? = some '/' then view.root.follow [] names
  else view.working.follow view.around names

/-- The text of the file that a path leads to. -/
def read (view : FileView) (path : String) : Except FileError String :=
  match view.find path with
  | .ok (.file bytes) => decodeText bytes
  | .ok (.folder _) => .error .isFolder
  | .error e => .error e

/-- The folders that systems have at the root besides the one for devices. -/
def rootFolders : List String := ["bin", "etc", "home", "lib", "proc", "sys", "tmp", "usr", "var"]

/-- A folder with some files and nothing else, in the folder for temporary files of a system of
which no more is known than what all have. Its standard input is empty. -/
def temporary (files : List (String × ByteArray)) : FileView :=
  let devices := Entry.folder [("null", .file .empty), ("stdin", .file .empty)]
  let bare := rootFolders.map fun name => (name, Entry.folder [])
  { working := .folder (files.map fun (name, bytes) => (name, .file bytes))
    around := [.folder [], .folder (("dev", devices) :: bare)] }

end FileView

end CommandLine

end Machine6809
