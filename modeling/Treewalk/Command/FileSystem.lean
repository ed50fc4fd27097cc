/-! File names, reading files by name, and a directory held in memory. -/
namespace Treewalk.Command

inductive ReadFailure where
  | notFound
  | isDirectory
  | notDirectory
  | nameTooLong
  | other (text : String)
deriving DecidableEq, Repr

def ReadFailure.text : ReadFailure → String
  | notFound => "No such file or directory (os error 2)"
  | isDirectory => "Is a directory (os error 21)"
  | notDirectory => "Not a directory (os error 20)"
  | nameTooLong => "File name too long (os error 36)"
  | other text => text

abbrev FileSystem := String → Except ReadFailure ByteArray

/-- A part of a name that leads nowhere new: nothing between two slashes, or a single dot. -/
def isIdle (part : String) : Bool := part = "" || part = "."

/-- The folder of a file, up to the slash in front of what lies in it. Idle parts at its end are left out,
the first part apart: there they stand for the root or the directory itself. -/
def folderOf (file : String) : String :=
  match (file.splitOn "/").dropLast with
  | [] => ""
  | first :: rest => String.intercalate "/" (first :: (rest.reverse.dropWhile isIdle).reverse) ++ "/"

/-- Files by their names relative to the directory; folders are there by the files in them. -/
structure Directory where
  files : List (String × ByteArray)

namespace Directory

inductive Entry where
  | file (content : ByteArray)
  | folder
  | missing

def entry (d : Directory) (place : List String) : Entry :=
  let name := String.intercalate "/" place
  match d.files.find? (·.1 = name) with
  | some (_, content) => .file content
  | none =>
      if place.isEmpty || d.files.any (fun file => (name ++ "/").isPrefixOf file.1) then .folder
      else .missing

def isDots (part : String) : Bool := isIdle part || part = ".."

def longestPart : Nat := 255

def longestName : Nat := 4095

def isOverlong (part : String) : Bool := decide (longestPart < part.utf8ByteSize)

/-- What lies outside the directory: its parents, and nothing else. -/
def outside (parts : List String) : Except ReadFailure ByteArray :=
  match parts.find? (fun part => !isDots part) with
  | none => .error .isDirectory
  | some part => .error (if isOverlong part then .nameTooLong else .notFound)

def follow (d : Directory) (place : List String) : List String → Except ReadFailure ByteArray
  | [] =>
      match d.entry place with
      | .file content => .ok content
      | .folder => .error .isDirectory
      | .missing => .error .notFound
  | part :: rest =>
      match d.entry place with
      | .file _ => .error .notDirectory
      | .missing => .error .notFound
      | .folder =>
          if isIdle part then d.follow place rest
          else if part = ".." then
            if place.isEmpty then outside rest else d.follow place.dropLast rest
          else if isOverlong part then .error .nameTooLong
          else d.follow (place ++ [part]) rest

/-- Reads a file. An empty name finds nothing, and a name from the root leads outside. -/
def read (d : Directory) : FileSystem := fun name =>
  if name.isEmpty then .error .notFound
  else if longestName < name.utf8ByteSize then .error .nameTooLong
  else if "/".isPrefixOf name then outside (name.splitOn "/")
  else d.follow [] (name.splitOn "/")

end Directory

end Treewalk.Command
