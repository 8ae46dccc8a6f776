/-
  Failures of file operations and of launching, with the texts and numbers the system gives them.
-/

namespace HostSuite

inductive IoError
  | noEntry
  | permissionDenied
  | busy
  | exists
  | notDirectory
  | isDirectory
  | invalidArgument
  | nameTooLong
  | notEmpty
  | tooManyLinks
  | execFormat
  | notText
  | holdsNul
  deriving DecidableEq, Repr

namespace IoError

private def numbered (text number : String) : String := text ++ " (os error " ++ number ++ ")"

def message : IoError → String
  | noEntry => numbered "No such file or directory" "2"
  | execFormat => numbered "Exec format error" "8"
  | permissionDenied => numbered "Permission denied" "13"
  | busy => numbered "Device or resource busy" "16"
  | «exists» => numbered "File exists" "17"
  | notDirectory => numbered "Not a directory" "20"
  | isDirectory => numbered "Is a directory" "21"
  | invalidArgument => numbered "Invalid argument" "22"
  | nameTooLong => numbered "File name too long" "36"
  | notEmpty => numbered "Directory not empty" "39"
  | tooManyLinks => numbered "Too many levels of symbolic links" "40"
  | notText => "stream did not contain valid UTF-8"
  | holdsNul => "file name contained an unexpected NUL byte"

end IoError

end HostSuite
