import ProjectAssembler.FileSystem.Canonical
import ProjectAssembler.Project.Contribution
import ProjectAssembler.Proofs.OrderedLists

/-!
# What the texts of files do not influence

Paths are followed, directories listed and files selected by name; the text of a file matters only
to those who read it.  The shape of a file system is what is left when all texts are forgotten, and
whatever depends on the shape alone is the same in file systems of one shape.

Main definitions: `Node.shape` and `FileSystem.shape`.

Main results:

* `FileSystem.canonical_shape`, `FileSystem.normalPath_shape`: paths mean the same;
* `Descriptor.sources_shape`, `Descriptor.libraries_shape`: a descriptor has the same sources and
  libraries.
-/

namespace ProjectAssembler

mutual

/-- An entry without the texts of files. -/
def Node.shape : Node → Node
  | .file _ => .file none
  | .directory entries => .directory (shapeEach entries)
  | .link target => .link target
termination_by structural node => node

/-- Entries without the texts of files. -/
def shapeEach : List (String × Node) → Entries
  | [] => []
  | (name, node) :: rest => (name, node.shape) :: shapeEach rest
termination_by structural entries => entries

end

theorem shapeEach_eq_map (entries : Entries) :
    shapeEach entries = entries.map fun entry => (entry.1, entry.2.shape) := by
  induction entries with
  | nil => rfl
  | cons entry rest ih => rw [shapeEach, ih, List.map_cons]

/-- Forgetting texts keeps names. -/
theorem lookup_shapeEach (entries : Entries) (name : String) :
    (shapeEach entries).lookup name = (entries.lookup name).map Node.shape := by
  induction entries with
  | nil => rfl
  | cons entry rest ih =>
      obtain ⟨other, node⟩ := entry
      rw [shapeEach, List.lookup_cons, List.lookup_cons, ih]
      cases name == other <;> rfl

@[simp]
theorem Node.isFile_shape (node : Node) : node.shape.isFile = node.isFile := by
  cases node <;> rfl

@[simp]
theorem Node.isDirectory_shape (node : Node) : node.shape.isDirectory = node.isDirectory := by
  cases node <;> rfl

@[simp]
theorem Node.isLink_shape (node : Node) : node.shape.isLink = node.isLink := by
  cases node <;> rfl

/-- The directories of a trail without the texts of files. -/
def Trail.shape (trail : Trail) : Trail :=
  trail.map fun frame => (frame.1, shapeEach frame.2)

@[simp]
theorem Trail.shape_cons (name : String) (inner : Entries) (outer : Trail) :
    Trail.shape ((name, inner) :: outer) = (name, shapeEach inner) :: outer.shape :=
  rfl

@[simp]
theorem Trail.location_shape (trail : Trail) : trail.shape.location = trail.location := by
  simp [Trail.shape, Trail.location]

theorem Trail.entries_shape (root : Entries) (trail : Trail) :
    Trail.entries (shapeEach root) trail.shape = shapeEach (Trail.entries root trail) := by
  cases trail <;> rfl

theorem Trail.tail_shape (trail : Trail) : trail.shape.tail = Trail.shape trail.tail := by
  cases trail <;> rfl

theorem Trail.continue?_shape (root : Entries) (trail : Trail) (names : Location) :
    Trail.continue? (shapeEach root) trail.shape names =
      (Trail.continue? root trail names).map Trail.shape := by
  induction names generalizing trail with
  | nil => rfl
  | cons name rest ih =>
      unfold Trail.continue?
      rw [Trail.entries_shape, lookup_shapeEach]
      rcases (Trail.entries root trail).lookup name with _ | (text | inner | target)
      · rfl
      · rfl
      · exact ih ((name, inner) :: trail)
      · rfl

theorem Node.descend?_shape (node : Node) (location : Location) :
    node.shape.descend? location = (node.descend? location).map Node.shape := by
  induction location generalizing node with
  | nil => simp
  | cons name rest ih =>
      cases node with
      | file text => rfl
      | link target => rfl
      | directory entries =>
          simp only [Node.shape, Node.descend?, lookup_shapeEach]
          cases entries.lookup name with
          | none => rfl
          | some inner => exact ih inner

namespace FileSystem

/-- A file system without the texts of files. -/
def shape (system : FileSystem) : FileSystem :=
  { system with root := shapeEach system.root }

variable (system : FileSystem)

/-! ## Following paths -/

theorem followTrail_shape (purpose : Purpose) (links : Nat) (trail : Trail) (way : List String) :
    followTrail system.shape purpose links trail.shape way =
      followTrail system purpose links trail way := by
  have hlookup : ∀ (trail : Trail) (step : String),
      (Trail.entries system.shape.root trail.shape).lookup step =
        ((Trail.entries system.root trail).lookup step).map Node.shape := by
    intro trail step
    rw [shape, Trail.entries_shape, lookup_shapeEach]
  have hlong : ∀ (trail : Trail) (step : String),
      purpose.tooLong trail.shape step = purpose.tooLong trail step := by
    intro trail step
    simp [Purpose.tooLong]
  fun_induction followTrail system purpose links trail way with
  | case1 => rw [followTrail, Trail.location_shape]
  | case2 links trail step rest hstay ih => rw [followTrail, if_pos hstay, ih]
  | case3 links trail rest hstay ih =>
      rw [followTrail, if_neg hstay, if_pos rfl, Trail.tail_shape, ih]
  | case4 links trail step rest hstay hup hlength =>
      rw [followTrail, if_neg hstay, if_neg hup, hlong, if_pos hlength]
  | case5 links trail step rest hstay hup hlength hentry hmissing =>
      rw [followTrail, if_neg hstay, if_neg hup, hlong, if_neg hlength, hlookup, hentry]
      simp only [Option.map_none, if_pos hmissing, Trail.location_shape]
  | case6 links trail step rest hstay hup hlength hentry hmissing =>
      rw [followTrail, if_neg hstay, if_neg hup, hlong, if_neg hlength, hlookup, hentry]
      simp only [Option.map_none, if_neg hmissing]
  | case7 links trail step rest hstay hup hlength inner hentry ih =>
      rw [followTrail, if_neg hstay, if_neg hup, hlong, if_neg hlength, hlookup, hentry]
      exact ih
  | case8 links trail step hstay hup hlength text hentry =>
      rw [followTrail, if_neg hstay, if_neg hup, hlong, if_neg hlength, hlookup, hentry]
      simp [Node.shape]
  | case9 links trail step rest hstay hup hlength text hentry hlast =>
      rw [followTrail, if_neg hstay, if_neg hup, hlong, if_neg hlength, hlookup, hentry]
      simp [Node.shape, hlast]
  | case10 links trail step rest hstay hup hlength target hentry hlast =>
      rw [followTrail, if_neg hstay, if_neg hup, hlong, if_neg hlength, hlookup, hentry]
      simp [Node.shape, hlast]
  | case11 trail step rest hstay hup hlength target hentry hlast =>
      rw [followTrail, if_neg hstay, if_neg hup, hlong, if_neg hlength, hlookup, hentry]
      simp [Node.shape, hlast]
  | case12 trail step rest hstay hup hlength target hentry hlast links ih =>
      rw [followTrail, if_neg hstay, if_neg hup, hlong, if_neg hlength, hlookup, hentry]
      have htrail : (if target.isAbsolute then [] else trail.shape) =
          Trail.shape (if target.isAbsolute then [] else trail) := by
        split <;> rfl
      simp only [Option.map_some, Node.shape, if_neg hlast, htrail]
      exact ih

theorem follow_shape (purpose : Purpose) (links : Nat) (here : Location) (way : List String) :
    follow system.shape purpose links here way = follow system purpose links here way := by
  have htrail : system.shape.trailTo? here = (system.trailTo? here).map Trail.shape :=
    Trail.continue?_shape system.root [] here
  unfold follow
  rw [htrail]
  cases system.trailTo? here with
  | none => rfl
  | some trail => exact followTrail_shape system purpose links trail way

theorem canonical_shape (path : Path) : system.shape.canonical path = system.canonical path := by
  have horigin : system.shape.origin? path = system.origin? path := rfl
  simp only [canonical, canonicalLocation, horigin, follow_shape]

theorem normalPath_shape (path : Path) : system.shape.normalPath path = system.normalPath path := by
  have habsolute : system.shape.absolutePath path = system.absolutePath path := rfl
  simp only [normalPath, canonical_shape, habsolute]

theorem resolveFor_shape (purpose : Purpose) (path : Path) :
    system.shape.resolveFor purpose path = system.resolveFor purpose path := by
  have hworking : system.shape.workingDirectory = system.workingDirectory := rfl
  simp only [resolveFor, followFrom, hworking, follow_shape]

/-! ## What is at a path -/

theorem entryAt?_shape (place : Place) :
    system.shape.entryAt? place = (system.entryAt? place).map Node.shape := by
  cases place with
  | standing location => exact Node.descend?_shape (.directory system.root) location
  | removed => rfl

theorem find?_shape (path : Path) :
    system.shape.find? path = (system.find? path).map Node.shape := by
  unfold find? resolve
  rw [resolveFor_shape]
  cases system.resolveFor .existing path with
  | error error => rfl
  | ok place => exact entryAt?_shape system place

theorem isFile_shape (path : Path) : system.shape.isFile path = system.isFile path := by
  unfold isFile
  rw [find?_shape]
  cases system.find? path <;> simp

theorem isDirectory_shape (path : Path) :
    system.shape.isDirectory path = system.isDirectory path := by
  unfold isDirectory
  rw [find?_shape]
  cases system.find? path <;> simp

theorem isLink_shape (path : Path) : system.shape.isLink path = system.isLink path := by
  unfold isLink
  rw [resolveFor_shape]
  cases system.resolveFor .entry path with
  | error error => rfl
  | ok place =>
      simp only [entryAt?_shape]
      cases system.entryAt? place <;> simp

theorem readDirectory_shape (path : Path) :
    system.shape.readDirectory path = (system.readDirectory path).map shapeEach := by
  unfold readDirectory resolve
  rw [resolveFor_shape]
  cases system.resolveFor .existing path with
  | error error => rfl
  | ok place =>
      simp only [entryAt?_shape]
      rcases system.entryAt? place with _ | (text | entries | target) <;> rfl

/-! ## Listings and walks -/

theorem filesAmong_shape (directory : Path) (keep : Path → Bool) (entries : Entries) :
    filesAmong directory keep (shapeEach entries) = filesAmong directory keep entries := by
  unfold filesAmong
  rw [shapeEach_eq_map, List.filter_map, List.map_map]
  simp [Function.comp_def]

theorem listFiles_shape (directory : Path) (keep : Path → Bool) :
    system.shape.listFiles directory keep = system.listFiles directory keep := by
  unfold listFiles
  rw [readDirectory_shape]
  cases system.readDirectory directory with
  | error error => rfl
  | ok entries => simp only [Except.map, filesAmong_shape]

end FileSystem

/-- A visited entry without the texts of files. -/
def Visit.shape (visit : Visit) : Visit :=
  ⟨visit.path, visit.node.shape⟩

/-- Arranging visits by name does not look at the entries. -/
theorem arrange_map (visits : List Visits) :
    arrange (visits.map fun each => (each.1, each.2.map Visit.shape)) =
      (arrange visits).map Visit.shape := by
  unfold arrange
  rw [OrderedList.ofList_map, List.flatMap_map, List.map_flatMap]
  intro first second
  rfl

mutual

theorem Node.walk_shape (path : Path) :
    (node : Node) → node.shape.walk path = (node.walk path).map Visit.shape
  | .file _ => rfl
  | .link _ => rfl
  | .directory entries => by
      rw [Node.shape, Node.walk, Node.walk, walkEach_shape path entries, arrange_map]
termination_by structural node => node

theorem walkEach_shape (path : Path) :
    (entries : List (String × Node)) → walkEach path (shapeEach entries) =
      (walkEach path entries).map fun each => (each.1, each.2.map Visit.shape)
  | [] => rfl
  | (name, node) :: rest => by
      have hpruned : node.shape.isPruned name = node.isPruned name := by
        simp [Node.isPruned]
      rw [shapeEach, walkEach, walkEach, walkEach_shape path rest,
        Node.walk_shape (path.child name) node, hpruned, List.map_cons]
      split <;> rfl
termination_by structural entries => entries

end

namespace FileSystem

variable (system : FileSystem)

theorem walk_shape (path : Path) : system.shape.walk path = (system.walk path).map Visit.shape := by
  unfold walk
  rw [find?_shape]
  cases system.find? path with
  | none => rfl
  | some node => exact node.walk_shape path

theorem entered_shape (path : Path) : system.shape.entered path = system.entered path := by
  unfold entered
  rw [walk_shape, List.filter_map, List.map_map]
  simp [Function.comp_def, Visit.shape]

theorem failure?_shape (path : Path) : system.shape.failure? path = system.failure? path := by
  funext place
  unfold failure?
  rw [readDirectory_shape]
  cases system.readDirectory place <;> rfl

/-- A walk fails alike, or meets the same without the texts. -/
theorem visits_shape (path : Path) :
    system.shape.visits path = (system.visits path).map (List.map Visit.shape) := by
  unfold visits obstacle?
  rw [entered_shape, failure?_shape, walk_shape]
  cases (system.entered path).findSome? (system.failure? path) <;> rfl

theorem sourcesAmong_shape (visits : List Visit) :
    sourcesAmong (visits.map Visit.shape) = sourcesAmong visits := by
  unfold sourcesAmong
  rw [List.filter_map, List.map_map]
  simp [Function.comp_def, Visit.shape]

theorem directoriesAmong_shape (path : Path) (visits : List Visit) :
    system.shape.directoriesAmong path (visits.map Visit.shape) =
      system.directoriesAmong path visits := by
  unfold directoriesAmong
  rw [isLink_shape, List.filter_map, List.map_map]
  simp [Function.comp_def, Visit.shape]

theorem discover_shape (path : Path) : system.shape.discover path = system.discover path := by
  unfold discover
  rw [isDirectory_shape, visits_shape]
  cases system.visits path with
  | error error => rfl
  | ok visits => simp only [Except.map, sourcesAmong_shape]

theorem sourceDirectories_shape (path : Path) :
    system.shape.sourceDirectories path = system.sourceDirectories path := by
  unfold sourceDirectories
  rw [visits_shape]
  cases system.visits path with
  | error error => rfl
  | ok visits => simp only [Except.map, directoriesAmong_shape]

/-! ## Patterns -/

theorem expandFrom_shape (pattern : String) (strict : Bool) (path : Path)
    (segments : List Pattern.Segment) :
    Pattern.expandFrom system.shape pattern strict path segments =
      Pattern.expandFrom system pattern strict path segments := by
  have hsources : ∀ (directory : Path) (keep : String → Bool),
      Pattern.sourcesIn system.shape directory keep = Pattern.sourcesIn system directory keep := by
    intro directory keep
    simp only [Pattern.sourcesIn, listFiles_shape]
  induction segments generalizing strict path with
  | nil =>
      simp only [Pattern.expandFrom, Pattern.reached, isFile_shape, isDirectory_shape, hsources]
  | cons segment rest ih =>
      cases segment with
      | step name => exact ih strict (path.child name)
      | files names => simp only [Pattern.expandFrom, isDirectory_shape, hsources]
      | anyDepth =>
          cases rest with
          | nil =>
              simp only [Pattern.expandFrom, isDirectory_shape, sourceDirectories_shape, hsources]
          | cons next rest =>
              simp only [Pattern.expandFrom, isDirectory_shape, sourceDirectories_shape, ih]

theorem expand_shape (directory : Path) (pattern : String) :
    system.shape.expand directory pattern = system.expand directory pattern :=
  expandFrom_shape system pattern true _ _

end FileSystem

/-! ## Packages -/

namespace PackageCache

variable (system : FileSystem)

theorem descendIgnoringCase?_shape (directory : Path) (wanted : String) :
    descendIgnoringCase? system.shape directory wanted =
      descendIgnoringCase? system directory wanted := by
  simp only [descendIgnoringCase?, FileSystem.isDirectory_shape, FileSystem.readDirectory_shape]
  cases system.readDirectory directory with
  | error error => rfl
  | ok entries =>
      simp only [Except.map, firstMatch?, shapeEach_eq_map, List.find?_map, Option.map_map,
        Function.comp_def, FileSystem.isDirectory_shape]

theorem searchIgnoringCase_shape (directory : Path) (names : List String) :
    searchIgnoringCase system.shape directory names =
      searchIgnoringCase system directory names := by
  induction names generalizing directory with
  | nil => rfl
  | cons wanted rest ih =>
      rw [searchIgnoringCase_cons, searchIgnoringCase_cons, descendIgnoringCase?_shape]
      cases descendIgnoringCase? system directory wanted with
      | none => rfl
      | some next => exact ih next

theorem directory?_shape (root : Path) (id version framework : String) :
    directory? system.shape root id version framework =
      directory? system root id version framework := by
  have hdirectory : system.shape.isDirectory = system.isDirectory :=
    funext system.isDirectory_shape
  unfold directory?
  simp only [hdirectory, searchIgnoringCase_shape]

theorem libraries_shape (root : Path) (id version framework : String) :
    libraries system.shape root id version framework =
      libraries system root id version framework := by
  unfold libraries
  rw [directory?_shape]
  cases directory? system root id version framework with
  | none => rfl
  | some directory => simp only [FileSystem.listFiles_shape]

end PackageCache

/-! ## Contributions -/

namespace Descriptor

theorem sources_shape (system : FileSystem) (descriptor : Descriptor) :
    descriptor.sources system.shape = descriptor.sources system := by
  have hexpand : system.shape.expand descriptor.directory = system.expand descriptor.directory :=
    funext (system.expand_shape descriptor.directory)
  have hdiscover : system.shape.discover = system.discover := funext system.discover_shape
  simp only [sources, sourceLists, hexpand, hdiscover]

theorem libraries_shape (system : FileSystem) (platform : Platform) (descriptor : Descriptor) :
    descriptor.libraries system.shape platform = descriptor.libraries system platform := by
  have hlibrary : library? system.shape platform descriptor =
      library? system platform descriptor := by
    funext reference
    have hfile : system.shape.isFile = system.isFile := funext system.isFile_shape
    rw [library?, library?, hfile]
  simp only [libraries, packageLibraries, PackageCache.libraries_shape, hlibrary]

end Descriptor
end ProjectAssembler
