import Cosaci.Jobs.WorkingTree

/-!
# What a tree hash binds

Names that are UTF-8 are shown as they are, so that the text of a relative path gives
its names back.  In a tree whose directories name their entries differently, the records
of the files then say which files there are, and the hash binds the set of files.
-/

namespace Cosaci.Jobs

open Foundation
open Cosaci.Core (Crypto Hash)

variable {crypto : Crypto} {excludeDirs : List (List Char)}

/-! ## Paths of UTF-8 names -/

def FileName.IsUtf8 (name : FileName) : Prop :=
  ∃ text, name.bytes = utf8 text

theorem FileName.IsUtf8.utf8_lossy {name : FileName} (named : name.IsUtf8) :
    utf8 name.lossy = name.bytes := by
  obtain ⟨text, bytes⟩ := named
  rw [FileName.lossy, bytes, utf8Lossy_utf8]

theorem FileName.ext_bytes {first second : FileName} (same : first.bytes = second.bytes) :
    first = second := by
  cases first
  cases second
  cases same
  rfl

theorem utf8_pathToUnix {path : List FileName} (named : ∀ name ∈ path, name.IsUtf8) :
    utf8 (pathToUnix path).1 = [47].intercalate (path.map FileName.bytes) := by
  have names : path.map (fun name => utf8 name.lossy) = path.map FileName.bytes :=
    List.map_congr_left fun name member => (named name member).utf8_lossy
  rw [pathToUnix, utf8_intercalate, List.map_map]
  exact congrArg [47].intercalate names

/-- No name holds the separator, so the joined bytes can be cut into the names again. -/
theorem pathToUnix_inj {first second : List FileName} (nonempty : first ≠ [])
    (nonempty' : second ≠ []) (named : ∀ name ∈ first, name.IsUtf8)
    (named' : ∀ name ∈ second, name.IsUtf8) (same : pathToUnix first = pathToUnix second) :
    first = second := by
  have separate (path : List FileName) : ∀ bytes ∈ path.map FileName.bytes, 47 ∉ bytes := by
    intro bytes member
    obtain ⟨name, -, rfl⟩ := List.mem_map.mp member
    exact name.unslashed
  have joined := congrArg (fun path : UnixPath => (utf8 path.1).splitOn 47) same
  simp only [utf8_pathToUnix named, utf8_pathToUnix named'] at joined
  rw [List.splitOn_intercalate 47 (separate first) (by simpa using nonempty),
    List.splitOn_intercalate 47 (separate second) (by simpa using nonempty')] at joined
  exact List.map_injective_iff.mpr (fun _ _ => FileName.ext_bytes) joined

/-! ## Directories with distinct names -/

mutual
def Entry.distinct : Entry → Bool
  | .directory _ entries => distinctNames entries
  | _ => true

/-- No directory has two entries of one name. -/
def distinctNames : List Entry → Bool
  | [] => true
  | entry :: rest =>
      decide (entry.name ∉ rest.map Entry.name) && entry.distinct && distinctNames rest
end

/-- What a file system holds below a directory. -/
structure WorkingTree where
  entries : List Entry
  distinct : distinctNames entries = true

variable {file : TreeFile} {entries : List Entry}

theorem path_of_mem_collectEntry {entry : Entry}
    (member : file ∈ collectEntry excludeDirs TreeFile.below regularFile entry) :
    ∃ rest, file.path = entry.name :: rest := by
  cases entry with
  | directory name inside =>
      rw [collectEntry] at member
      split_ifs at member with excluded
      · cases member
      · obtain ⟨below, -, rfl⟩ := List.mem_map.mp member
        exact ⟨below.path, rfl⟩
  | file name mode content =>
      cases List.mem_singleton.mp member
      exact ⟨[], rfl⟩
  | special name => cases member
  | failing name isDir error => cases member

/-- The first name on the path to a file is that of an entry. -/
theorem path_of_mem_files (member : file ∈ files excludeDirs entries) :
    ∃ entry ∈ entries, ∃ rest, file.path = entry.name :: rest := by
  rw [files, collect_eq_flatMap] at member
  obtain ⟨entry, inside, given⟩ := List.mem_flatMap.mp member
  exact ⟨entry, inside, path_of_mem_collectEntry given⟩

theorem nodup_collectEntry_paths {entry : Entry}
    (nested : ∀ name inside, entry = .directory name inside →
      ((files excludeDirs inside).map TreeFile.path).Nodup) :
    ((collectEntry excludeDirs TreeFile.below regularFile entry).map TreeFile.path).Nodup := by
  cases entry with
  | directory name inside =>
      rw [collectEntry]
      split_ifs with excluded
      · exact List.nodup_nil
      · have lifted := (nested name inside rfl).map (List.cons_injective (a := name))
        rw [List.map_map] at lifted ⊢
        exact lifted
  | file name mode content => exact List.nodup_singleton _
  | special name => exact List.nodup_nil
  | failing name isDir error => exact List.nodup_nil

/-- Different files have different paths. -/
theorem nodup_paths (distinct : distinctNames entries = true) :
    ((files excludeDirs entries).map TreeFile.path).Nodup := by
  induction entries using directory_induction with
  | step entries nested =>
      induction entries with
      | nil => exact List.nodup_nil
      | cons entry rest ih =>
          rw [distinctNames, Bool.and_eq_true, Bool.and_eq_true, decide_eq_true_eq] at distinct
          obtain ⟨⟨fresh, within⟩, after⟩ := distinct
          rw [files, collect, List.map_append]
          refine List.Nodup.append ?_ ?_ ?_
          · apply nodup_collectEntry_paths
            rintro name inside rfl
            exact nested name inside List.mem_cons_self within
          · exact ih (fun name inside member => nested name inside (List.mem_cons_of_mem _ member))
              after
          · intro path here there
            obtain ⟨file, inFile, rfl⟩ := List.mem_map.mp here
            obtain ⟨other, inOther, same⟩ := List.mem_map.mp there
            obtain ⟨front, first⟩ := path_of_mem_collectEntry inFile
            obtain ⟨entry', inRest, front', second⟩ := path_of_mem_files inOther
            rw [first, second] at same
            exact fresh ((List.cons.inj same).1 ▸ List.mem_map_of_mem inRest)

/-! ## The set of files -/

/-- All names on the way to a file outside of excluded directories are UTF-8. -/
def Utf8Named (excludeDirs : List (List Char)) (entries : List Entry) : Prop :=
  ∀ file ∈ files excludeDirs entries, ∀ name ∈ file.path, name.IsUtf8

theorem path_ne_nil (member : file ∈ files excludeDirs entries) : file.path ≠ [] := by
  obtain ⟨entry, -, rest, path⟩ := path_of_mem_files member
  exact path ▸ List.cons_ne_nil entry.name rest

theorem Utf8Named.path_inj {entries others : List Entry} (named : Utf8Named excludeDirs entries)
    (named' : Utf8Named excludeDirs others) {first second : TreeFile}
    (inFirst : first ∈ files excludeDirs entries) (inSecond : second ∈ files excludeDirs others)
    (same : pathToUnix first.path = pathToUnix second.path) : first.path = second.path :=
  pathToUnix_inj (path_ne_nil inFirst) (path_ne_nil inSecond) (named first inFirst)
    (named' second inSecond) same

/-- Trees with the same records have the same files. -/
theorem mem_files_of_sortRecords {entries others : List Entry}
    (named : Utf8Named excludeDirs entries) (named' : Utf8Named excludeDirs others)
    {messages : List (List UInt8)} (free : crypto.CollisionFree messages)
    (hashed : treeMessages crypto excludeDirs entries ⊆ messages)
    (hashed' : treeMessages crypto excludeDirs others ⊆ messages)
    (same : sortRecords (treeRecords crypto excludeDirs entries) =
      sortRecords (treeRecords crypto excludeDirs others))
    (member : file ∈ files excludeDirs entries) : file ∈ files excludeDirs others := by
  have recorded : file.record crypto [] ∈ sortRecords (treeRecords crypto excludeDirs entries) :=
    (List.mem_insertionSort _).mpr (List.mem_map_of_mem member)
  rw [same, sortRecords, List.mem_insertionSort] at recorded
  obtain ⟨other, inOther, records⟩ := List.mem_map.mp recorded
  have paths := named'.path_inj named inOther member (congrArg TreeRecord.path records)
  have contents := free _ (hashed' (content_mem_treeMessages inOther)) _
    (hashed (content_mem_treeMessages member)) (congrArg TreeRecord.blobSha records)
  rwa [← TreeFile.ext paths (congrArg TreeRecord.mode records) contents]

/-- The same set of files is hashed the same. -/
theorem sortRecords_eq_of_files {first second : WorkingTree}
    (named : Utf8Named excludeDirs second.entries)
    (same : ∀ file, file ∈ files excludeDirs first.entries ↔
      file ∈ files excludeDirs second.entries) :
    sortRecords (treeRecords crypto excludeDirs first.entries) =
      sortRecords (treeRecords crypto excludeDirs second.entries) := by
  have distinct (tree : WorkingTree) : (files excludeDirs tree.entries).Nodup :=
    List.Nodup.of_map TreeFile.path (nodup_paths tree.distinct)
  have perm := (List.perm_ext_iff_of_nodup (distinct first) (distinct second)).mpr same
  apply sortRecords_eq_of_perm (perm.map _)
  intro left inLeft right inRight paths
  obtain ⟨file, inFile, rfl⟩ := List.mem_map.mp inLeft
  obtain ⟨other, inOther, rfl⟩ := List.mem_map.mp inRight
  have path := named.path_inj named inFile inOther paths
  rw [List.inj_on_of_nodup_map (nodup_paths second.distinct) inFile inOther path]

/-- Without a collision of the hash, two trees with UTF-8 names that can be read have hashes,
and the hashes are the same if and only if the trees have the same files outside of excluded
directories, by relative path, canonical mode and content. -/
theorem hashWorkingTree_binding (crypto : Crypto) (excludeDirs : List (List Char))
    (first second : WorkingTree) (readable : failures excludeDirs first.entries = [])
    (readable' : failures excludeDirs second.entries = [])
    (named : Utf8Named excludeDirs first.entries) (named' : Utf8Named excludeDirs second.entries)
    (free : crypto.CollisionFree (treeMessages crypto excludeDirs first.entries ++
      treeMessages crypto excludeDirs second.entries)) :
    ∃ hash other, hashWorkingTree crypto excludeDirs first.entries = .ok hash ∧
      hashWorkingTree crypto excludeDirs second.entries = .ok other ∧
      (hash = other ↔ ∀ file, file ∈ files excludeDirs first.entries ↔
        file ∈ files excludeDirs second.entries) := by
  refine ⟨_, _, hashWorkingTree_of_readable readable, hashWorkingTree_of_readable readable', ?_⟩
  constructor
  · intro same file
    have hashed := List.subset_append_left (treeMessages crypto excludeDirs first.entries)
      (treeMessages crypto excludeDirs second.entries)
    have hashed' := List.subset_append_right (treeMessages crypto excludeDirs first.entries)
      (treeMessages crypto excludeDirs second.entries)
    have streams := free _ (hashed (treeStream_mem_treeMessages first.entries)) _
      (hashed' (treeStream_mem_treeMessages second.entries)) same
    have sorted := sortRecords_eq_of_treeStream streams
    exact ⟨mem_files_of_sortRecords named named' free hashed hashed' sorted,
      mem_files_of_sortRecords named' named free hashed' hashed sorted.symm⟩
  · intro same
    rw [treeStream, treeStream, sortRecords_eq_of_files named' same]

def gitName : FileName :=
  { bytes := ".git".toList.map Char.toUInt8 }

/-- The files of `sampleTree` in another order, beside a directory that is excluded. -/
def rebuiltTree : List Entry :=
  [.directory gitName [.file runName 0o100644 [9]], .file textName 0o100640 [2, 3],
    .directory binName [.file runName 0o100755 [1]]]

theorem hashWorkingTree_binding_rebuilt :
    hashWorkingTree Core.modelCrypto [".git".toList] sampleTree =
      hashWorkingTree Core.modelCrypto [".git".toList] rebuiltTree := by
  have shown : ∀ file ∈ files [".git".toList] sampleTree ++ files [".git".toList] rebuiltTree,
      ∀ name ∈ file.path, name.bytes = utf8 name.lossy := by decide +kernel
  have perm : (files [".git".toList] sampleTree).Perm (files [".git".toList] rebuiltTree) := by
    decide +kernel
  obtain ⟨hash, other, returned, returned', binding⟩ :=
    hashWorkingTree_binding Core.modelCrypto [".git".toList] ⟨sampleTree, by decide +kernel⟩
      ⟨rebuiltTree, by decide +kernel⟩ (by decide +kernel) (by decide +kernel)
      (fun file member name inside =>
        ⟨name.lossy, shown file (List.mem_append_left _ member) name inside⟩)
      (fun file member name inside =>
        ⟨name.lossy, shown file (List.mem_append_right _ member) name inside⟩)
      (by decide +kernel)
  rw [returned, returned', binding.mpr fun _ => perm.mem_iff]

end Cosaci.Jobs
