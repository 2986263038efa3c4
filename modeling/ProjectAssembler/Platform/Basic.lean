import ProjectAssembler.Path.Basic

/-!
# Platforms

Main definition: `Platform`, where libraries are taken from.
-/

namespace ProjectAssembler

/-- Where libraries are taken from. -/
structure Platform where
  /-- The root of the package cache. -/
  packages : Path
  /-- The directory of the base libraries, if there is one. -/
  framework : Option Path
deriving DecidableEq, Repr

end ProjectAssembler
