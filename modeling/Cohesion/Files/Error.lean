/-!
Why a file operation fails.
-/

namespace Cohesion

inductive FileError where
  | notFound
  | isDirectory
  | notDirectory
  | nameTooLong
  | zeroByte
  | notText
  | other (message : String)
  deriving DecidableEq

def FileError.message : FileError → String
  | notFound => "No such file or directory (os error 2)"
  | isDirectory => "Is a directory (os error 21)"
  | notDirectory => "Not a directory (os error 20)"
  | nameTooLong => "File name too long (os error 36)"
  | zeroByte => "file name contained an unexpected NUL byte"
  | notText => "stream did not contain valid UTF-8"
  | other message => message

end Cohesion
