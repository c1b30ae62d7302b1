import FuncLang.Config.Read

/-! # Loading settings

Settings are loaded from a file whose bytes have to be text in UTF-8. `locate` says which bytes a
path leads to from a working folder in which there is nothing, before a file is written under that
same path. The parts of a path that name no file keep to folders, which are all there; the first
part that is a name can only be the file, so nothing may follow it, not even a slash. A path that
leads to no file cannot be written to either, and then nothing is there to be read.
-/

namespace FuncLang.Config

/-- Why a file cannot be read. -/
inductive Unreadable where
  | missing
  | folder
  | notText
  /-- A part of the path, or all of it, has more bytes than it can have. -/
  | nameTooLong
  /-- The path has a character with which no name can be written. -/
  | zeroInName
deriving DecidableEq, Repr

/-- The reason in words. -/
def Unreadable.display : Unreadable → String
  | missing => "No such file or directory (os error 2)"
  | folder => "Is a directory (os error 21)"
  | notText => "stream did not contain valid UTF-8"
  | nameTooLong => "File name too long (os error 36)"
  | zeroInName => "file name contained an unexpected NUL byte"

/-- Whether a part of a path names no file: it stays in the folder where it stands, or leads to the
one above. -/
def keepsToFolders (part : String) : Bool := part == "" || part == "." || part == ".."

/-- How many bytes a part of a path can have. -/
def maxNameBytes : Nat := 255

/-- How many bytes a path can have. -/
def maxPathBytes : Nat := 4095

/-- The bytes that are found under a path, if some were to be written there. -/
def locate (path : String) (written : Option ByteArray) : Except Unreadable ByteArray :=
  if '\x00' ∈ path.toList then .error .zeroInName
  else if path.isEmpty then .error .missing
  else if maxPathBytes < path.utf8ByteSize then .error .nameTooLong
  else
    match (path.splitOn "/").dropWhile keepsToFolders with
    | [] => .error .folder
    | name :: others =>
      if maxNameBytes < name.utf8ByteSize then .error .nameTooLong
      else
        match others, written with
        | [], some bytes => .ok bytes
        | _, _ => .error .missing

/-- The text that bytes are in UTF-8. -/
def decode (bytes : ByteArray) : Except Unreadable String :=
  match String.fromUTF8? bytes with
  | some text => .ok text
  | none => .error .notText

/-- Why no settings are loaded. -/
inductive LoadError where
  | unreadable (path : String) (reason : Unreadable)
  /-- The file holds no document, or one with a value of the wrong type. -/
  | invalid
deriving DecidableEq, Repr

/-- The settings in what is found under a path. -/
def load (path : String) (found : Except Unreadable ByteArray) : Except LoadError Config :=
  match found.bind decode with
  | .error reason => .error (.unreadable path reason)
  | .ok text =>
    match ofToml? text with
    | some config => .ok config
    | none => .error .invalid

/-- What is said about a file that cannot be read. -/
def unreadableMessage (path : String) (reason : Unreadable) : String :=
  "failed to read " ++ path ++ ": " ++ reason.display

end FuncLang.Config
