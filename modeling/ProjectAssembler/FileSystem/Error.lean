/-!
# Access errors

Why a place of the file system could not be reached or read.
-/

namespace ProjectAssembler

/-- The cause of a failed access. -/
inductive AccessError where
  /-- Some name of the path does not exist. -/
  | notFound
  /-- The bytes of a file are no text. -/
  | notText
  /-- Anything else: a directory in the place of a file, a file in the place of a directory, a
  circle of links, a name that is too long. -/
  | other
deriving DecidableEq, Repr

end ProjectAssembler
