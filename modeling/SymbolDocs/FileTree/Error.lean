/-!
# Why a file operation fails

The causes that the system or the file library reports, with the text of each. The number in a text
is the one by which the system knows the cause.
-/

namespace SymbolDocs

/-- Why an operation on files or processes failed. -/
inductive IoError
  /-- Nothing lies there. -/
  | notFound
  /-- The program may not be run. -/
  | accessDenied
  /-- Something lies there already. -/
  | alreadyExists
  /-- A directory is needed, and there is something else. -/
  | notADirectory
  /-- There is a directory, and something else is needed. -/
  | isADirectory
  /-- The path cannot name what is asked for. -/
  | invalidArgument
  /-- The directory still holds something. -/
  | notEmpty
  /-- Links lead from one to the next without an end. -/
  | linkLoop
  /-- The file is no program. -/
  | notAProgram
  /-- The system is using the directory. -/
  | busy
  /-- A path holds a NUL. -/
  | nulInPath
  /-- A program's name or an argument holds a NUL. -/
  | nulInCommand
  /-- Only regular files can be copied. -/
  | notARegularFile
  /-- A text was asked for, and the bytes are none. -/
  | notText
  /-- No directory above the path can be created. -/
  | noWholeTree
deriving DecidableEq, Repr

/-- The text of a cause. -/
def IoError.message : IoError → String
  | .notFound => "No such file or directory (os error 2)"
  | .accessDenied => "Permission denied (os error 13)"
  | .alreadyExists => "File exists (os error 17)"
  | .notADirectory => "Not a directory (os error 20)"
  | .isADirectory => "Is a directory (os error 21)"
  | .invalidArgument => "Invalid argument (os error 22)"
  | .notEmpty => "Directory not empty (os error 39)"
  | .linkLoop => "Too many levels of symbolic links (os error 40)"
  | .notAProgram => "Exec format error (os error 8)"
  | .busy => "Device or resource busy (os error 16)"
  | .nulInPath => "file name contained an unexpected NUL byte"
  | .nulInCommand => "nul byte found in provided data"
  | .notARegularFile =>
    "the source path is neither a regular file nor a symlink to a regular file"
  | .notText => "stream did not contain valid UTF-8"
  | .noWholeTree => "failed to create whole tree"

end SymbolDocs
