import Cosaci.Foundation.Fallible
import Cosaci.Foundation.LossyText
import Cosaci.Foundation.PrefixCode
import Cosaci.Foundation.Ranking
import Cosaci.Jobs.Execute

/-!
# Hashing a working tree

`hash_working_tree` walks a checkout, records path, canonical mode and digest of every
regular file, sorts the records by path and hashes their encodings.  A directory is the
list of its entries in the order in which `read_dir` returns them.
-/

namespace Cosaci.Jobs

open Foundation
open Cosaci.Core (Crypto Hash)

/-! ## Directory trees -/

/-- A name in a directory: any bytes but a slash and NUL, and neither `.` nor `..`. -/
structure FileName where
  bytes : List UInt8
  nonempty : bytes ≠ [] := by decide
  unslashed : 47 ∉ bytes := by decide
  terminable : 0 ∉ bytes := by decide
  normal : bytes ≠ [46] ∧ bytes ≠ [46, 46] := by decide
  deriving DecidableEq

/-- `to_string_lossy` of a name. -/
def FileName.lossy (name : FileName) : List Char :=
  utf8Lossy name.bytes

/-- What a walk meets in a directory.  A symbolic link, a socket or a device is `special`;
`failing` is an entry at which reading its type, its metadata, its contents or its own
entries fails with an operating-system error. -/
inductive Entry where
  | directory (name : FileName) (entries : List Entry)
  | file (name : FileName) (mode : UInt32) (content : List UInt8)
  | special (name : FileName)
  | failing (name : FileName) (isDir : Bool) (error : Int32)

def Entry.name : Entry → FileName
  | .directory name _ => name
  | .file name _ _ => name
  | .special name => name
  | .failing name _ _ => name

/-! ## The walk -/

/-- The two modes that are recorded: a regular file in git's notation, executable or not. -/
abbrev GitMode := { mode : UInt32 // mode = 0o100644 ∨ mode = 0o100755 }

/-- Executable is what the owner, the group or others may execute. -/
def canonicalMode (mode : UInt32) : GitMode :=
  let perms := mode &&& 0o777
  if perms &&& 0o111 ≠ 0 then ⟨0o100755, Or.inr rfl⟩ else ⟨0o100644, Or.inl rfl⟩

/-- A relative path as text, which cannot hold the character NUL. -/
abbrev UnixPath := { path : List Char // '\x00' ∉ path }

theorem nul_notMem_joined (path : List FileName) :
    '\x00' ∉ ['/'].intercalate (path.map FileName.lossy) := by
  intro member
  rcases mem_intercalate member with separates | ⟨text, inside, here⟩
  · exact absurd separates (by decide)
  · obtain ⟨name, -, rfl⟩ := List.mem_map.mp inside
    exact nul_notMem_utf8Lossy name.terminable here

def pathToUnix (path : List FileName) : UnixPath :=
  ⟨['/'].intercalate (path.map FileName.lossy), nul_notMem_joined path⟩

/-- One collected file: its path as text, its canonical mode and the digest of its contents. -/
structure TreeRecord where
  path : UnixPath
  mode : GitMode
  blobSha : Hash
  deriving DecidableEq

mutual
/-- One round of the loop in `walk`, at the path `dir` below the root. -/
def walkEntry (crypto : Crypto) (excludeDirs : List (List Char)) (dir : List FileName)
    (out : List TreeRecord) : Entry → Except Int32 (List TreeRecord)
  | .directory name entries =>
      if name.lossy ∈ excludeDirs then .ok out
      else walk crypto excludeDirs (dir ++ [name]) out entries
  | .file name mode content =>
      .ok (out ++ [⟨pathToUnix (dir ++ [name]), canonicalMode mode, crypto.sha256 content⟩])
  | .special _ => .ok out
  | .failing name isDir error =>
      -- An excluded directory is passed over before it is opened.
      if isDir ∧ name.lossy ∈ excludeDirs then .ok out else .error error

def walk (crypto : Crypto) (excludeDirs : List (List Char)) (dir : List FileName)
    (out : List TreeRecord) : List Entry → Except Int32 (List TreeRecord)
  | [] => .ok out
  | entry :: rest => do
      let out ← walkEntry crypto excludeDirs dir out entry
      walk crypto excludeDirs dir out rest
end

/-- Strings are compared by their bytes. -/
def TreeRecord.key (record : TreeRecord) : List Nat :=
  (utf8 record.path.1).map UInt8.toNat

/-- What one record adds to the hashed bytes. -/
def TreeRecord.encode (record : TreeRecord) : List UInt8 :=
  littleEndian 8 (utf8 record.path.1).length ++ utf8 record.path.1 ++
    littleEndian 4 record.mode.1.toNat ++ record.blobSha.toList

def sortRecords (records : List TreeRecord) : List TreeRecord :=
  records.insertionSort fun first second => first.key ≤ second.key

/-- The bytes that are hashed for the collected records. -/
def treeStream (records : List TreeRecord) : List UInt8 :=
  (sortRecords records).flatMap TreeRecord.encode

def hashWorkingTree (crypto : Crypto) (excludeDirs : List (List Char)) (root : List Entry) :
    Except Int32 Hash := do
  let records ← walk crypto excludeDirs [] [] root
  return crypto.sha256 (treeStream records)

/-! ## What a walk collects -/

/-- A regular file of a tree, as the hash is to see it. -/
@[ext] structure TreeFile where
  path : List FileName
  mode : GitMode
  content : List UInt8
  deriving DecidableEq

/-- The file as seen from the directory above. -/
def TreeFile.below (name : FileName) (file : TreeFile) : TreeFile :=
  { file with path := name :: file.path }

def TreeFile.record (crypto : Crypto) (dir : List FileName) (file : TreeFile) : TreeRecord :=
  ⟨pathToUnix (dir ++ file.path), file.mode, crypto.sha256 file.content⟩

mutual
/-- What an entry gives unless it is an excluded directory, in the order of the walk; `lift`
carries a value from a subdirectory to the directory above. -/
def collectEntry {α : Type} (excludeDirs : List (List Char)) (lift : FileName → α → α)
    (leaf : Entry → Option α) : Entry → List α
  | .directory name entries =>
      if name.lossy ∈ excludeDirs then []
      else (collect excludeDirs lift leaf entries).map (lift name)
  | entry => (leaf entry).toList

def collect {α : Type} (excludeDirs : List (List Char)) (lift : FileName → α → α)
    (leaf : Entry → Option α) : List Entry → List α
  | [] => []
  | entry :: rest =>
      collectEntry excludeDirs lift leaf entry ++ collect excludeDirs lift leaf rest
end

def regularFile : Entry → Option TreeFile
  | .file name mode content => some ⟨[name], canonicalMode mode, content⟩
  | _ => none

/-- An excluded directory is not read, so it cannot fail. -/
def failure (excludeDirs : List (List Char)) : Entry → Option Int32
  | .failing name isDir error =>
      if isDir ∧ name.lossy ∈ excludeDirs then none else some error
  | _ => none

/-- The regular files outside of excluded directories. -/
def files (excludeDirs : List (List Char)) : List Entry → List TreeFile :=
  collect excludeDirs TreeFile.below regularFile

/-- The errors outside of excluded directories. -/
def failures (excludeDirs : List (List Char)) : List Entry → List Int32 :=
  collect excludeDirs (fun _ error => error) (failure excludeDirs)

variable {crypto : Crypto} {excludeDirs : List (List Char)}

theorem TreeFile.record_below (dir : List FileName) (name : FileName) (file : TreeFile) :
    (file.below name).record crypto dir = file.record crypto (dir ++ [name]) := by
  simp only [TreeFile.record, TreeFile.below, List.append_assoc, List.singleton_append]

/-- A statement about directories holds if it passes from subdirectories to their parent. -/
theorem directory_induction {holds : List Entry → Prop}
    (step : ∀ entries, (∀ name inside, .directory name inside ∈ entries → holds inside) →
      holds entries) (entries : List Entry) : holds entries := by
  apply step
  intro name inside member
  have smaller : sizeOf inside < sizeOf entries := by
    have entry := List.sizeOf_lt_of_mem member
    rw [Entry.directory.sizeOf_spec] at entry
    omega
  exact directory_induction step inside
termination_by sizeOf entries

/-- One round meets the errors and records the files of its entry, given that this is so for
the walk below a directory. -/
theorem walkEntry_eq {entry : Entry} (dir : List FileName) (out : List TreeRecord)
    (nested : ∀ name inside, entry = .directory name inside →
      walk crypto excludeDirs (dir ++ [name]) out inside = firstError (failures excludeDirs inside)
        (out ++ (files excludeDirs inside).map (TreeFile.record crypto (dir ++ [name])))) :
    walkEntry crypto excludeDirs dir out entry =
      firstError (collectEntry excludeDirs (fun _ error => error) (failure excludeDirs) entry)
        (out ++ (collectEntry excludeDirs TreeFile.below regularFile entry).map
          (TreeFile.record crypto dir)) := by
  cases entry with
  | directory name inside =>
      rw [walkEntry, collectEntry, collectEntry]
      split_ifs with excluded
      · rw [List.map_nil, List.append_nil]
        rfl
      · rw [nested name inside rfl, List.map_id', List.map_map]
        simp only [Function.comp_def, TreeFile.record_below]
        rfl
  | file name mode content => rfl
  | special name => exact congrArg Except.ok (List.append_nil out).symm
  | failing name isDir error =>
      simp only [walkEntry, collectEntry, regularFile, failure, Option.toList_none,
        List.map_nil, List.append_nil]
      split_ifs with excluded
      · rfl
      · rfl

/-- A walk ends with the first error it meets, or with a record of every file. -/
theorem walk_eq (dir : List FileName) (out : List TreeRecord) (entries : List Entry) :
    walk crypto excludeDirs dir out entries = firstError (failures excludeDirs entries)
      (out ++ (files excludeDirs entries).map (TreeFile.record crypto dir)) := by
  induction entries using directory_induction generalizing dir out with
  | step entries nested =>
      induction entries generalizing out with
      | nil =>
          rw [walk, files, collect, List.map_nil, List.append_nil]
          rfl
      | cons entry rest ih =>
          have after : ∀ out, walk crypto excludeDirs dir out rest = _ := ih
            fun name inside member => nested name inside (List.mem_cons_of_mem entry member)
          rw [walk, walkEntry_eq dir out]
          · simp only [after]
            rw [firstError_bind _ _ _
              (· ++ (files excludeDirs rest).map (TreeFile.record crypto dir)), List.append_assoc,
              ← List.map_append]
            rfl
          · rintro name inside rfl
            exact nested name inside List.mem_cons_self _ _

/-- The records of all files of a tree, in the order of the walk. -/
def treeRecords (crypto : Crypto) (excludeDirs : List (List Char)) (root : List Entry) :
    List TreeRecord :=
  (files excludeDirs root).map (TreeFile.record crypto [])

theorem hashWorkingTree_eq (root : List Entry) :
    hashWorkingTree crypto excludeDirs root = firstError (failures excludeDirs root)
      (crypto.sha256 (treeStream (treeRecords crypto excludeDirs root))) := by
  rw [hashWorkingTree, walk_eq, List.nil_append]
  cases failures excludeDirs root with
  | nil => rfl
  | cons error errors => rfl

variable {root : List Entry}

theorem hashWorkingTree_of_readable (readable : failures excludeDirs root = []) :
    hashWorkingTree crypto excludeDirs root =
      .ok (crypto.sha256 (treeStream (treeRecords crypto excludeDirs root))) := by
  rw [hashWorkingTree_eq, readable, firstError]

theorem hashWorkingTree_of_failure {error : Int32} {later : List Int32}
    (failed : failures excludeDirs root = error :: later) :
    hashWorkingTree crypto excludeDirs root = .error error := by
  rw [hashWorkingTree_eq, failed, firstError]

section Collect

variable {α : Type} {lift : FileName → α → α} {leaf : Entry → Option α}

theorem collect_eq_flatMap (entries : List Entry) :
    collect excludeDirs lift leaf entries =
      entries.flatMap (collectEntry excludeDirs lift leaf) := by
  induction entries with
  | nil => rfl
  | cons entry rest ih => rw [collect, List.flatMap_cons, ih]

private theorem toList_eq_singleton {option : Option α} {value : α}
    (member : value ∈ option.toList) : option.toList = [value] := by
  rw [Option.mem_toList.mp member, Option.toList_some]

/-- An entry gives what it gives as a leaf, or what a directory gives that is not excluded. -/
theorem mem_collectEntry {entry : Entry} {value : α}
    (member : value ∈ collectEntry excludeDirs lift leaf entry) :
    collectEntry excludeDirs lift leaf entry = [value] ∨
      ∃ name inside, entry = .directory name inside ∧ name.lossy ∉ excludeDirs ∧
        ∃ below ∈ collect excludeDirs lift leaf inside, lift name below = value := by
  cases entry with
  | directory name inside =>
      rw [collectEntry] at member
      split_ifs at member with excluded
      · cases member
      · exact Or.inr ⟨name, inside, rfl, excluded, List.mem_map.mp member⟩
  | file name mode content => exact Or.inl (toList_eq_singleton member)
  | special name => exact Or.inl (toList_eq_singleton member)
  | failing name isDir error => exact Or.inl (toList_eq_singleton member)

end Collect

/-! ## Other orders of enumeration -/

/-- The same tree, with the entries of every directory in some other order. -/
inductive Reordered : List Entry → List Entry → Prop
  | nil : Reordered [] []
  | cons (entry : Entry) {rest listed : List Entry} (after : Reordered rest listed) :
      Reordered (entry :: rest) (entry :: listed)
  | inside (name : FileName) {entries changed rest listed : List Entry}
      (within : Reordered entries changed) (after : Reordered rest listed) :
      Reordered (.directory name entries :: rest) (.directory name changed :: listed)
  | swap (first second : Entry) (rest : List Entry) :
      Reordered (first :: second :: rest) (second :: first :: rest)
  | trans {first second third : List Entry} (earlier : Reordered first second)
      (later : Reordered second third) : Reordered first third

namespace Reordered

theorem refl (entries : List Entry) : Reordered entries entries := by
  induction entries with
  | nil => exact .nil
  | cons entry rest ih => exact .cons entry ih

theorem of_perm {entries listed : List Entry} (perm : entries.Perm listed) :
    Reordered entries listed := by
  induction perm with
  | nil => exact .nil
  | cons entry _ ih => exact .cons entry ih
  | swap first second rest => exact .swap second first rest
  | trans _ _ earlier later => exact .trans earlier later

variable {α : Type} {lift : FileName → α → α} {leaf : Entry → Option α}

/-- Another order gives the same values in another order. -/
theorem collect_perm {entries listed : List Entry} (same : Reordered entries listed) :
    (collect excludeDirs lift leaf entries).Perm (collect excludeDirs lift leaf listed) := by
  induction same with
  | nil => exact List.Perm.refl _
  | cons entry _ ih => exact ih.append_left _
  | inside name _ _ within after =>
      rw [collect, collect, collectEntry, collectEntry]
      split_ifs with excluded
      · exact after
      · exact (within.map _).append after
  | swap first second rest => exact List.perm_append_comm_assoc _ _ _
  | trans _ _ earlier later => exact earlier.trans later

/-- Every value is the first one in some order. -/
theorem exists_first {entries : List Entry} {value : α}
    (member : value ∈ collect excludeDirs lift leaf entries) :
    ∃ listed, Reordered entries listed ∧
      ∃ rest, collect excludeDirs lift leaf listed = value :: rest := by
  induction entries using directory_induction generalizing value with
  | step entries nested =>
      rw [collect_eq_flatMap] at member
      obtain ⟨entry, inEntries, given⟩ := List.mem_flatMap.mp member
      obtain ⟨front, back, rfl⟩ := List.append_of_mem inEntries
      have first : Reordered (front ++ entry :: back) (entry :: (front ++ back)) :=
        of_perm List.perm_middle
      rcases mem_collectEntry given with single | ⟨name, inside, rfl, included, below, deep, rfl⟩
      · refine ⟨_, first, collect excludeDirs lift leaf (front ++ back), ?_⟩
        rw [collect, single, List.singleton_append]
      · -- The value is moved to the front below, and its directory to the front here.
        obtain ⟨listed, reordered, rest, found⟩ := nested name inside inEntries deep
        refine ⟨_, first.trans (.inside name reordered (refl _)), ?_⟩
        refine ⟨rest.map (lift name) ++ collect excludeDirs lift leaf (front ++ back), ?_⟩
        rw [collect, collectEntry, if_neg included, found, List.map_cons, List.cons_append]

end Reordered

/-! ## The hashed bytes -/

/-- The mode is written as two bytes other than zero and two zeros. -/
theorem littleEndian_mode (mode : GitMode) :
    littleEndian 4 mode.1.toNat = [mode.1.toUInt8, 0x81, 0, 0] := by
  rcases mode with ⟨mode, rfl | rfl⟩
  · decide
  · decide

theorem mode_toUInt8_injective : Function.Injective fun mode : GitMode => mode.1.toUInt8 := by
  rintro ⟨first, rfl | rfl⟩ ⟨second, rfl | rfl⟩ same
  · rfl
  · exact absurd same (by decide)
  · exact absurd same (by decide)
  · rfl

theorem zero_notMem_mode (mode : GitMode) : (0 : UInt8) ∉ [mode.1.toUInt8, 0x81] := by
  rcases mode with ⟨mode, rfl | rfl⟩
  · decide
  · decide

theorem zero_notMem_path (path : UnixPath) : 0 ∉ utf8 path.1 :=
  fun member => path.2 (mem_of_ascii_mem_utf8 (by decide) member)

/-- Path and mode end with the first zero byte, so that the length in front is not needed to
tell where the path ends. -/
theorem path_mode_prefixFree :
    PrefixFree fun field : UnixPath × GitMode =>
      (utf8 field.1.1 ++ [field.2.1.toUInt8, 0x81]) ++ [0] := by
  apply PrefixFree.terminated
  · rintro ⟨path, mode⟩ ⟨path', mode'⟩ same
    obtain ⟨paths, modes⟩ := List.append_inj' same rfl
    exact Prod.ext (Subtype.ext (utf8_injective paths))
      (mode_toUInt8_injective (List.cons.inj modes).1)
  · rintro ⟨path, mode⟩ member
    rcases List.mem_append.mp member with inPath | inMode
    · exact zero_notMem_path path inPath
    · exact zero_notMem_mode mode inMode

theorem encode_prefixFree : PrefixFree TreeRecord.encode := by
  have fields := path_mode_prefixFree.append ((PrefixFree.bytes 32).lead [0])
  have parts : Function.Injective fun record : TreeRecord =>
      ((record.path, record.mode), record.blobSha) := by
    rintro ⟨path, mode, blobSha⟩ ⟨path', mode', blobSha'⟩ same
    cases same
    rfl
  have whole := (fields.comp parts).header
    fun record : TreeRecord => length_littleEndian 8 (utf8 record.path.1).length
  intro first second initial
  apply whole first second
  simpa only [TreeRecord.encode, littleEndian_mode, List.append_assoc, List.cons_append,
    List.nil_append] using initial

theorem encode_ne_nil (record : TreeRecord) : record.encode ≠ [] := by
  intro empty
  have length := congrArg List.length empty
  simp only [TreeRecord.encode, List.length_append, length_littleEndian, List.length_nil] at length
  omega

/-- The hashed bytes decide the sorted records. -/
theorem sortRecords_eq_of_treeStream {first second : List TreeRecord}
    (same : treeStream first = treeStream second) : sortRecords first = sortRecords second :=
  encode_prefixFree.flatMap_injective encode_ne_nil same

/-- Records of the same path stay in the order of the walk. -/
theorem filter_sortRecords (path : UnixPath) (records : List TreeRecord) :
    (sortRecords records).filter (·.path = path) = records.filter (·.path = path) := by
  apply filter_insertionSort
  intro left right first second
  have same : left.path = right.path :=
    (of_decide_eq_true first).trans (of_decide_eq_true second).symm
  exact (congrArg (fun path : UnixPath => (utf8 path.1).map UInt8.toNat) same).le

theorem path_eq_of_key {first second : TreeRecord} (same : first.key = second.key) :
    first.path = second.path :=
  Subtype.ext (utf8_injective (List.map_injective_iff.mpr (fun _ _ => UInt8.toNat_inj.mp) same))

/-- Records with one path at most each are sorted alike, whatever their order was. -/
theorem sortRecords_eq_of_perm {first second : List TreeRecord} (perm : first.Perm second)
    (alike : ∀ left ∈ second, ∀ right ∈ second, left.path = right.path → left = right) :
    sortRecords first = sortRecords second := by
  apply ranked_eq_of_perm _ perm
  intro left inLeft right inRight before after
  exact alike left inLeft right inRight (path_eq_of_key (before.antisymm after))

/-! ## Independence of the order -/

/-- Everything that is hashed for a tree: the contents of its files and their records. -/
def treeMessages (crypto : Crypto) (excludeDirs : List (List Char)) (root : List Entry) :
    List (List UInt8) :=
  treeStream (treeRecords crypto excludeDirs root) ::
    (files excludeDirs root).map TreeFile.content

theorem treeStream_mem_treeMessages (root : List Entry) :
    treeStream (treeRecords crypto excludeDirs root) ∈ treeMessages crypto excludeDirs root :=
  List.mem_cons_self

theorem content_mem_treeMessages {file : TreeFile} (member : file ∈ files excludeDirs root) :
    file.content ∈ treeMessages crypto excludeDirs root :=
  List.mem_cons_of_mem _ (List.mem_map_of_mem member)

/-- Files whose paths are shown as one text only if they agree are hashed alike in any order. -/
theorem treeStream_eq_of_reordered {root listed : List Entry} (same : Reordered root listed)
    (alike : ∀ first ∈ files excludeDirs root, ∀ second ∈ files excludeDirs root,
      pathToUnix first.path = pathToUnix second.path →
        first.mode = second.mode ∧ first.content = second.content) :
    treeStream (treeRecords crypto excludeDirs listed) =
      treeStream (treeRecords crypto excludeDirs root) := by
  have perm : (treeRecords crypto excludeDirs listed).Perm (treeRecords crypto excludeDirs root) :=
    same.collect_perm.symm.map _
  rw [treeStream, treeStream, sortRecords_eq_of_perm perm]
  intro left inLeft right inRight paths
  obtain ⟨first, inFirst, rfl⟩ := List.mem_map.mp inLeft
  obtain ⟨second, inSecond, rfl⟩ := List.mem_map.mp inRight
  obtain ⟨modes, contents⟩ := alike first inFirst second inSecond paths
  rw [TreeFile.record, TreeFile.record, modes, contents]
  exact congrArg (TreeRecord.mk · _ _) paths

/-- The first record of a tree is the first one of its path that is hashed. -/
theorem record_eq_of_treeStream {first second : List Entry} {left right : TreeFile}
    {others more : List TreeFile} (leads : files excludeDirs first = left :: others)
    (heads : files excludeDirs second = right :: more)
    (paths : pathToUnix left.path = pathToUnix right.path)
    (same : treeStream (treeRecords crypto excludeDirs first) =
      treeStream (treeRecords crypto excludeDirs second)) :
    left.record crypto [] = right.record crypto [] := by
  have sorted := congrArg (List.filter (·.path = pathToUnix right.path))
    (sortRecords_eq_of_treeStream same)
  rw [filter_sortRecords, filter_sortRecords, treeRecords, treeRecords, leads, heads,
    List.map_cons, List.map_cons, List.filter_cons_of_pos, List.filter_cons_of_pos] at sorted
  · exact (List.cons.inj sorted).1
  · exact decide_eq_true rfl
  · exact decide_eq_true paths

theorem failures_eq_nil_of_reordered {root listed : List Entry} (same : Reordered root listed)
    (readable : failures excludeDirs root = []) : failures excludeDirs listed = [] := by
  have perm : (failures excludeDirs root).Perm (failures excludeDirs listed) := same.collect_perm
  rw [readable] at perm
  exact perm.nil_eq.symm

/-- Any two errors are the first ones of some order. -/
theorem failure_unique_of_order (agree : ∀ listed, Reordered root listed →
      hashWorkingTree crypto excludeDirs listed = hashWorkingTree crypto excludeDirs root)
    {first second : Int32} (inFirst : first ∈ failures excludeDirs root)
    (inSecond : second ∈ failures excludeDirs root) : first = second := by
  obtain ⟨listed, reordered, _, found⟩ := Reordered.exists_first inFirst
  obtain ⟨listed', reordered', _, found'⟩ := Reordered.exists_first inSecond
  have results := (agree listed reordered).trans (agree listed' reordered').symm
  rw [hashWorkingTree_of_failure found, hashWorkingTree_of_failure found'] at results
  exact Except.error.inj results

/-- Any two files are recorded first in some order. -/
theorem file_unique_of_order (readable : failures excludeDirs root = [])
    (free : ∀ listed, Reordered root listed → crypto.CollisionFree
      (treeMessages crypto excludeDirs root ++ treeMessages crypto excludeDirs listed))
    (agree : ∀ listed, Reordered root listed →
      hashWorkingTree crypto excludeDirs listed = hashWorkingTree crypto excludeDirs root)
    {first second : TreeFile} (inFirst : first ∈ files excludeDirs root)
    (inSecond : second ∈ files excludeDirs root)
    (paths : pathToUnix first.path = pathToUnix second.path) :
    first.mode = second.mode ∧ first.content = second.content := by
  have streams : ∀ listed, Reordered root listed →
      treeStream (treeRecords crypto excludeDirs listed) =
        treeStream (treeRecords crypto excludeDirs root) := by
    intro listed reordered
    have results := agree listed reordered
    rw [hashWorkingTree_of_readable readable,
      hashWorkingTree_of_readable (failures_eq_nil_of_reordered reordered readable)] at results
    apply free listed reordered
    · exact List.mem_append_right _ (treeStream_mem_treeMessages listed)
    · exact List.mem_append_left _ (treeStream_mem_treeMessages root)
    · exact Except.ok.inj results
  obtain ⟨listed, reordered, _, leads⟩ := Reordered.exists_first inFirst
  obtain ⟨listed', reordered', _, heads⟩ := Reordered.exists_first inSecond
  have records : first.record crypto [] = second.record crypto [] :=
    record_eq_of_treeStream leads heads paths
      ((streams listed reordered).trans (streams listed' reordered').symm)
  refine ⟨congrArg TreeRecord.mode records, ?_⟩
  apply free root (Reordered.refl root)
  · exact List.mem_append_left _ (content_mem_treeMessages inFirst)
  · exact List.mem_append_left _ (content_mem_treeMessages inSecond)
  · exact congrArg TreeRecord.blobSha records

/-- Errors outside of excluded directories are all the same and, when there are none, any two
files whose paths are shown as the same text agree in their canonical modes and contents. -/
def Unambiguous (excludeDirs : List (List Char)) (root : List Entry) : Prop :=
  (∀ first ∈ failures excludeDirs root, ∀ second ∈ failures excludeDirs root, first = second) ∧
    (failures excludeDirs root = [] →
      ∀ first ∈ files excludeDirs root, ∀ second ∈ files excludeDirs root,
        pathToUnix first.path = pathToUnix second.path →
          first.mode = second.mode ∧ first.content = second.content)

/-- The order in which the directories are enumerated is irrelevant for an unambiguous tree and,
unless the hash collides, for no other one.  Names that are not UTF-8 may be shown as the same
text. -/
theorem hashWorkingTree_order_iff (crypto : Crypto) (excludeDirs : List (List Char))
    (root : List Entry) :
    ((∀ listed, Reordered root listed → crypto.CollisionFree
        (treeMessages crypto excludeDirs root ++ treeMessages crypto excludeDirs listed)) →
      (∀ listed, Reordered root listed →
        hashWorkingTree crypto excludeDirs listed = hashWorkingTree crypto excludeDirs root) →
      Unambiguous excludeDirs root) ∧
    (Unambiguous excludeDirs root → ∀ listed, Reordered root listed →
      hashWorkingTree crypto excludeDirs listed = hashWorkingTree crypto excludeDirs root) := by
  constructor
  · intro free agree
    constructor
    · intro first inFirst second inSecond
      exact failure_unique_of_order agree inFirst inSecond
    · intro readable first inFirst second inSecond
      exact file_unique_of_order readable free agree inFirst inSecond
  · rintro ⟨unique, alike⟩ listed reordered
    have perm : (failures excludeDirs root).Perm (failures excludeDirs listed) :=
      reordered.collect_perm
    cases failed : failures excludeDirs root with
    | nil =>
        rw [hashWorkingTree_of_readable failed,
          hashWorkingTree_of_readable (failures_eq_nil_of_reordered reordered failed),
          treeStream_eq_of_reordered reordered (alike failed)]
    | cons error later =>
        cases failed' : failures excludeDirs listed with
        | nil =>
            rw [failed, failed'] at perm
            exact absurd perm.eq_nil (List.cons_ne_nil error later)
        | cons error' later' =>
            have met : error' ∈ failures excludeDirs root :=
              perm.mem_iff.mpr (failed' ▸ List.mem_cons_self)
            have same := unique error' met error (failed ▸ List.mem_cons_self)
            rw [hashWorkingTree_of_failure failed, hashWorkingTree_of_failure failed', same]

/-- If files of one path agree, no other order brings anything new to hash. -/
theorem collisionFree_of_reordered
    (alike : ∀ first ∈ files excludeDirs root, ∀ second ∈ files excludeDirs root,
      pathToUnix first.path = pathToUnix second.path →
        first.mode = second.mode ∧ first.content = second.content)
    (free : crypto.CollisionFree (treeMessages crypto excludeDirs root)) {listed : List Entry}
    (same : Reordered root listed) : crypto.CollisionFree
      (treeMessages crypto excludeDirs root ++ treeMessages crypto excludeDirs listed) := by
  have known : ∀ message ∈ treeMessages crypto excludeDirs root ++
      treeMessages crypto excludeDirs listed, message ∈ treeMessages crypto excludeDirs root := by
    intro message member
    rcases List.mem_append.mp member with here | there
    · exact here
    · have contents : ((files excludeDirs root).map TreeFile.content).Perm
          ((files excludeDirs listed).map TreeFile.content) := same.collect_perm.map _
      rwa [treeMessages, treeStream_eq_of_reordered same alike, List.mem_cons, ← contents.mem_iff,
        ← List.mem_cons] at there
  intro first inFirst second inSecond
  exact free first (known first inFirst) second (known second inSecond)

def binName : FileName :=
  { bytes := "bin".toList.map Char.toUInt8 }

def runName : FileName :=
  { bytes := "run".toList.map Char.toUInt8 }

def textName : FileName :=
  { bytes := "text".toList.map Char.toUInt8 }

/-- A checkout with a program in a directory and a text beside it. -/
def sampleTree : List Entry :=
  [.directory binName [.file runName 0o100700 [1]], .file textName 0o100600 [2, 3]]

theorem hashWorkingTree_order_iff_sample :
    (∀ listed, Reordered sampleTree listed →
      hashWorkingTree Core.modelCrypto [] listed =
        hashWorkingTree Core.modelCrypto [] sampleTree) ∧ Unambiguous [] sampleTree := by
  have alike : ∀ first ∈ files [] sampleTree, ∀ second ∈ files [] sampleTree,
      pathToUnix first.path = pathToUnix second.path →
        first.mode = second.mode ∧ first.content = second.content := by
    decide +kernel
  have free : Core.modelCrypto.CollisionFree (treeMessages Core.modelCrypto [] sampleTree) := by
    decide +kernel
  have readable : failures [] sampleTree = [] := by decide +kernel
  have unambiguous : Unambiguous [] sampleTree := by
    refine ⟨?_, fun _ => alike⟩
    rw [readable]
    exact List.forall_mem_nil _
  obtain ⟨necessary, sufficient⟩ := hashWorkingTree_order_iff Core.modelCrypto [] sampleTree
  have agree := sufficient unambiguous
  exact ⟨agree, necessary (fun listed same => collisionFree_of_reordered alike free same) agree⟩

/-- Two files in one directory with the names FE and FF, neither of them UTF-8. -/
def latinTree : List Entry :=
  [.file { bytes := [0xFE] } 0o100644 [1], .file { bytes := [0xFF] } 0o100644 [2]]

theorem hashWorkingTree_order_latin :
    Reordered latinTree latinTree.reverse ∧
      (files [] latinTree).map (fun file => (pathToUnix file.path).1) = [['\uFFFD'], ['\uFFFD']] ∧
      hashWorkingTree Core.modelCrypto [] latinTree.reverse ≠
        hashWorkingTree Core.modelCrypto [] latinTree := by
  refine ⟨Reordered.swap _ _ _, by decide +kernel, ?_⟩
  rw [hashWorkingTree_of_readable (by decide +kernel),
    hashWorkingTree_of_readable (by decide +kernel)]
  intro same
  exact absurd (Except.ok.inj same) (by decide +kernel)

end Cosaci.Jobs
