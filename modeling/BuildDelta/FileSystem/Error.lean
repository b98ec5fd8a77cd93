/-!
# Refusals of the operating system

Each has the text and the number that the system gives it. One refusal comes before the system is
asked at all: a path that holds a zero byte cannot be handed over.
-/

namespace BuildDelta.FileSystem

inductive Error where
  | notFound
  | accessDenied
  | exists
  | notDirectory
  | isDirectory
  | noDevice
  | nameTooLong
  | tooManyLinks
  | nulInPath
deriving DecidableEq, Repr

def Error.message : Error → String
  | .notFound => "No such file or directory (os error 2)"
  | .accessDenied => "Permission denied (os error 13)"
  | .exists => "File exists (os error 17)"
  | .notDirectory => "Not a directory (os error 20)"
  | .isDirectory => "Is a directory (os error 21)"
  | .noDevice => "No such device or address (os error 6)"
  | .nameTooLong => "File name too long (os error 36)"
  | .tooManyLinks => "Too many levels of symbolic links (os error 40)"
  | .nulInPath => "file name contained an unexpected NUL byte"

end BuildDelta.FileSystem
