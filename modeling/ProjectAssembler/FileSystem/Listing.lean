import ProjectAssembler.FileSystem.Resolve
import ProjectAssembler.OrderedList

/-!
# Listing files

The files directly inside of a directory, in path order.

Main definition: `FileSystem.listFiles`.

Main result: `FileSystem.mem_listFiles` says which paths a listing can hold.
-/

namespace ProjectAssembler
namespace FileSystem

/-- The paths of the regular files among entries, which lie in a given directory, that satisfy a
test. -/
def filesAmong (directory : Path) (keep : Path → Bool) (entries : Entries) : List Path :=
  (entries.filter fun entry => entry.2.isFile && keep (directory.child entry.1)).map fun entry =>
    directory.child entry.1

/-- The regular files directly inside of a directory that satisfy a test, in path order.  Links
are left out. -/
def listFiles (system : FileSystem) (directory : Path) (keep : Path → Bool) :
    Except AccessError (List Path) :=
  match system.readDirectory directory with
  | .error error => .error error
  | .ok entries => .ok (OrderedList.ofList Path.compare (filesAmong directory keep entries))

theorem mem_ofList {α : Type} {order : α → α → Ordering} {a : α} {elements set : List α}
    (h : a ∈ elements.foldl (fun set b => OrderedList.insert order b set) set) :
    a ∈ elements ∨ a ∈ set := by
  induction elements generalizing set with
  | nil => exact Or.inr h
  | cons b rest ih =>
      rcases ih h with h | h
      · exact Or.inl (List.mem_cons_of_mem _ h)
      · rcases OrderedList.mem_of_mem_insert h with rfl | h
        · simp
        · exact Or.inr h

/-- A listed path is the directory continued by the name of one of its regular files. -/
theorem mem_listFiles {system : FileSystem} {directory path : Path} {keep : Path → Bool}
    {files : List Path} (h : system.listFiles directory keep = .ok files) (hpath : path ∈ files) :
    keep path = true ∧
      ∃ entries name text, system.readDirectory directory = .ok entries ∧
        (name, Node.file text) ∈ entries ∧ path = directory.child name := by
  unfold listFiles at h
  split at h
  · simp at h
  · rename_i entries hentries
    rw [← Except.ok.inj h] at hpath
    rcases mem_ofList hpath with hmem | hmem
    · obtain ⟨⟨name, node⟩, hentry, rfl⟩ := List.mem_map.1 hmem
      obtain ⟨hin, hkeep⟩ := List.mem_filter.1 hentry
      simp only [Bool.and_eq_true] at hkeep
      cases node with
      | file text => exact ⟨hkeep.2, entries, name, text, hentries, hin, rfl⟩
      | directory inner => simp [Node.isFile] at hkeep
      | link target => simp [Node.isFile] at hkeep
    · simp at hmem

end FileSystem
end ProjectAssembler
