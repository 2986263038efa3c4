import ProjectAssembler.Path.Basic

/-!
# Paths without a file system

Operations on paths that look at their text alone: the reading of a path as descriptors write it,
the resolution of `.` and `..`, and the path from one place to another.

Main definitions:

* `Path.ofDescriptor`: a path as written in a descriptor, where a backslash separates too;
* `Path.resolveNames`: the names that lead to a place once `..` has been resolved;
* `Path.lexicalNormal`: the path without `.` and `..`;
* `Path.relativeTo`: the way from a base to a path.
-/

namespace ProjectAssembler
namespace Path

/-- The path that a descriptor's text stands for: surrounding white space is dropped and backslashes
separate like slashes. -/
def ofDescriptor (text : String) : Path :=
  ⟨String.ofList ((Text.trim text.toList).map fun c => if c = '\\' then '/' else c)⟩

/-! ## Resolving dots -/

/-- The names that lead from the beginning to a place, given innermost first the names so far and
the components that follow: `..` takes one name away, as long as there is one. -/
def resolveNames (names : List String) : List Component → List String
  | [] => names.reverse
  | .name text :: rest => resolveNames (text :: names) rest
  | .parent :: rest => resolveNames names.tail rest
  | .root :: rest => resolveNames names rest
  | .current :: rest => resolveNames names rest

/-- A path with `.` and `..` resolved, as far as its text alone tells.  A relative path stays
relative, and `..` leads nowhere from where it begins. -/
def lexicalNormal (path : Path) : Path :=
  let names := resolveNames [] path.components
  if path.isAbsolute then ofNames names else ⟨"/".intercalate names⟩

/-! ## Relative paths -/

/-- The components that lead from a base to a target; nothing when the base goes up through an
unknown directory.  `climbed` says whether something has been put out already. -/
def relativeComponents (climbed : Bool) : List Component → List Component → Option (List Component)
  | [], [] => some []
  | target, [] => some target
  | [], _ :: base => (.parent :: ·) <$> relativeComponents true [] base
  | a :: target, b :: base =>
      if climbed = false ∧ a = b then relativeComponents false target base
      else if b = .current then (a :: ·) <$> relativeComponents true target base
      else if b = .parent then none
      else some (List.replicate (base.length + 1) .parent ++ a :: target)

/-- The path from a base to a target, or the target itself where no such path exists. -/
def relativeTo (base target : Path) : Path :=
  if target.isAbsolute = base.isAbsolute then
    match relativeComponents false target.components base.components with
    | some components => ofComponents components
    | none => target
  else target

end Path
end ProjectAssembler
