/-! # Failed file operations

The system gives a failure a number, and each number has a text of its own.
-/

namespace FlowGraph
set_option autoImplicit false

inductive FileError where
  | system (code : Nat)
  | notText
  deriving DecidableEq, Repr

namespace FileError

def notFound : FileError := .system 2

def notFolder : FileError := .system 20

def isFolder : FileError := .system 21

def nameTooLong : FileError := .system 36

def reason : Nat → String
  | 1 => "Operation not permitted"
  | 2 => "No such file or directory"
  | 13 => "Permission denied"
  | 20 => "Not a directory"
  | 21 => "Is a directory"
  | 26 => "Text file busy"
  | 27 => "File too large"
  | 28 => "No space left on device"
  | 30 => "Read-only file system"
  | 36 => "File name too long"
  | 40 => "Too many levels of symbolic links"
  | code => "Unknown error " ++ toString code

def message : FileError → String
  | .system code => reason code ++ " (os error " ++ toString code ++ ")"
  | .notText => "stream did not contain valid UTF-8"

end FileError
end FlowGraph
