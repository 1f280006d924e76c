import PackageAlgebra.Text.Quoted

/-!
# File Errors

Why a file cannot be opened, in the words of the operating system.

## Main definitions

* `FileError`: The causes.
* `FileError.message`: A cause in words, with the path as it was given.
-/

namespace PackageAlgebra

/-- Why a file cannot be opened. -/
inductive FileError
  -- Some part of the path does not exist.
  | missing
  -- The path goes on below a file.
  | notDirectory
  -- The path is that of a directory.
  | isDirectory
  -- The path, or a part of it, is longer than names may be.
  | nameTooLong
  deriving DecidableEq

/-- The cause with its number. -/
def FileError.reason : FileError → String
  | missing => "[Errno 2] No such file or directory"
  | notDirectory => "[Errno 20] Not a directory"
  | isDirectory => "[Errno 21] Is a directory"
  | nameTooLong => "[Errno 36] File name too long"

/-- The cause in words, with the path as it was given. -/
def FileError.message (e : FileError) (path : String) : String :=
  e.reason ++ ": " ++ Text.quote path

end PackageAlgebra
