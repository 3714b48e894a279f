import ArtifactLayout.CommandLine.Files

/-! # Folders

Files as a map from their paths, in directories that are there: what a corpus is written to, and a script
is read from, where no file is refused.
-/

namespace ArtifactLayout.CommandLine
set_option autoImplicit false

structure Folder where
  content? : String → Option (List UInt8)

namespace Folder

def empty : Folder := ⟨fun _ => none⟩

def put (folder : Folder) (path : String) (content : List UInt8) : Folder :=
  ⟨fun other => if other = path then some content else folder.content? other⟩

def putAll (folder : Folder) (files : List (String × List UInt8)) : Folder :=
  files.foldl (fun folder file => folder.put file.1 file.2) folder

instance : Files (StateM Folder) where
  read path := fun folder =>
    match folder.content? path with
    | some content => (.ok content, folder)
    | none => (.error .noSuchFile, folder)
  makeDirectory _ := return .ok ()
  isDirectory _ := return true
  write path content := fun folder => (.ok (), folder.put path content)

theorem read_put (folder : Folder) (path : String) (content : List UInt8) :
    (Files.read path : StateM Folder _) (folder.put path content) =
      (.ok content, folder.put path content) := by
  have hlookup : (folder.put path content).content? path = some content := if_pos rfl
  simp only [Files.read, hlookup]

theorem makeDirectories_apply (path : String) (folder : Folder) :
    (Files.makeDirectories path : StateM Folder _) folder = (.ok (), folder) := by
  rw [Files.makeDirectories]
  split
  · rfl
  · cases Path.namesAbove path <;> rfl

/-- Files with different paths are all kept, and nothing else is added. -/
theorem content?_putAll {files : List (String × List UInt8)} (hfiles : (files.map Prod.fst).Nodup)
    (folder : Folder) (path : String) (content : List UInt8) :
    (folder.putAll files).content? path = some content ↔
      (path, content) ∈ files ∨ path ∉ files.map Prod.fst ∧ folder.content? path = some content := by
  induction files generalizing folder with
  | nil => simp [putAll]
  | cons file files ih =>
    obtain ⟨name, bytes⟩ := file
    obtain ⟨hname, hfiles⟩ := List.nodup_cons.mp hfiles
    rw [putAll, List.foldl_cons, ← putAll, ih hfiles, put]
    by_cases hpath : path = name
    · subst hpath
      have hnot : (path, content) ∉ files := fun h => hname (List.mem_map.mpr ⟨_, h, rfl⟩)
      simp [hnot, hname, eq_comm]
    · simp [hpath]

theorem content?_putAll_empty {files : List (String × List UInt8)}
    (hfiles : (files.map Prod.fst).Nodup) (path : String) (content : List UInt8) :
    (empty.putAll files).content? path = some content ↔ (path, content) ∈ files := by
  rw [content?_putAll hfiles]
  simp [empty]

end Folder
end ArtifactLayout.CommandLine
