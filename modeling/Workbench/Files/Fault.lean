/-!
# Faults of the file system

What a call to the file system can answer instead of a result. The text of a fault names its cause
and, where the system numbers its causes, that number.
-/

namespace Workbench.Files

inductive Fault where
  | missing
  | denied
  | exists
  | notDirectory
  | isDirectory
  /-- The bytes of a file are not a text. -/
  | notText
  /-- Any other fault, in the words of the system. -/
  | other (text : String)
  deriving DecidableEq, Repr, Inhabited

def Fault.text : Fault → String
  | missing => "No such file or directory (os error 2)"
  | denied => "Permission denied (os error 13)"
  | .exists => "File exists (os error 17)"
  | notDirectory => "Not a directory (os error 20)"
  | isDirectory => "Is a directory (os error 21)"
  | notText => "stream did not contain valid UTF-8"
  | other text => text

end Workbench.Files
