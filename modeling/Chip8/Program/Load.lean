import Chip8.Layout
import Chip8.Program.FileTree
import Chip8.Remark
import Chip8.Text.Quoted

/-!
# Program files

A program is the whole content of a file, which has to fit the memory above the
address where programs start.
-/
namespace Chip8

namespace ProgramFile

inductive Error where
  /-- There is no such file. -/
  | path (name : String) (error : FileTree.PathError)
  /-- The file was asked for by a number, and no file is open under it. -/
  | notOpen
  /-- The name holds a null character. -/
  | nullInName
  /-- The file is larger than a program may be. -/
  | tooLarge (name : String)
  deriving Repr, DecidableEq

/-- The number and the words of the system for an error of a path. -/
def systemError : FileTree.PathError → Nat × String
  | .notFound => (2, "No such file or directory")
  | .notDirectory => (20, "Not a directory")
  | .isDirectory => (21, "Is a directory")
  | .nameTooLong => (36, "File name too long")

def Error.message : Error → String
  | path name error =>
      let (number, words) := systemError error
      "[Errno " ++ toString number ++ "] " ++ words ++ ": " ++ Text.quoteInMessage name
  | notOpen => "[Errno 9] Bad file descriptor"
  | nullInName => "embedded null byte"
  | tooLarge name =>
      "ROM '" ++ name ++ "' is larger than the " ++ toString maxProgramSize ++ " bytes available"

/-- What paths lead to: the content of a file, or why there is none. -/
abbrev Files := String → Except FileTree.PathError (Array UInt8)

/-- The most bytes that are read of a file. One more than fit is enough to tell that there are
too many. -/
def readLimit : Nat := maxProgramSize + 1

def read (files : Files) (name : String) : Except Error (Array UInt8) :=
  if name.toList.contains '\x00' then throw .nullInName
  else
    match files name with
    | .error e => throw (.path name e)
    | .ok bytes =>
        let data := bytes.take readLimit
        if maxProgramSize < data.size then throw (.tooLarge name) else pure data

end ProgramFile
end Chip8
