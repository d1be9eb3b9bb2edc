import Cosaci.Jobs.NativeHost
import Cosaci.Jobs.TreeBinding
import Cosaci.Jobs.WasmRuntime

/-!
# Fetching sources

`execute_source_fetch`: clone, check out, ask for the commit and hash the working tree
without its metadata.  Two fetches give the same output exactly when they resolved to the
same commit and found the same files.
-/

namespace Cosaci.Jobs

open Foundation
open Cosaci.Core (Crypto Hash)

/-! ## The executor -/

/-- What a command printed, and whether it succeeded. -/
structure GitOutput where
  success : Bool
  stdout : List UInt8
  stderr : List UInt8
  deriving DecidableEq

/-- Why a command could not be run. -/
inductive GitSpawnError where
  | notFound
  | other
  deriving DecidableEq, Repr

/-- The directory in which sources are fetched.  The three commands of a fetch differ in their
first arguments, so that their answers need no order. -/
structure GitHost where
  tempdir : Except Unit Unit
  output : List String → Except GitSpawnError GitOutput
  /-- What is in the directory after the last command. -/
  tree : WorkingTree

inductive GitInvocationError where
  | notFound
  | io
  | nonZero (stderr : List Char)
  deriving DecidableEq

def GitHost.runGit (host : GitHost) (args : List String) :
    Except GitInvocationError (List Char) :=
  match host.output args with
  | .error .notFound => .error .notFound
  | .error .other => .error .io
  | .ok output =>
      if !output.success then .error (.nonZero (utf8Lossy output.stderr))
      else .ok (utf8Lossy output.stdout)

/-- The text of a failed command is only logged. -/
def GitInvocationError.classify (nonzero : SourceFetchError) :
    GitInvocationError → SourceFetchError
  | .notFound => .gitNotFound
  | .io => .io
  | .nonZero _ => nonzero

/-- The directories that are left out of the hash. -/
def metadataDirs : List (List Char) := [".git".toList]

def executeSourceFetch (crypto : Crypto) (host : GitHost) (url reference : String) :
    Except SourceFetchError SourceFetchOutput := do
  let _ ← host.tempdir.mapError fun _ => .io
  let _ ← (host.runGit ["clone", url, "."]).mapError
    (GitInvocationError.classify .cloneFailed)
  let _ ← (host.runGit ["checkout", reference]).mapError
    (GitInvocationError.classify .checkoutFailed)
  let head ← (host.runGit ["rev-parse", "HEAD"]).mapError
    (GitInvocationError.classify .resolveFailed)
  let treeHash ← (hashWorkingTree crypto metadataDirs host.tree.entries).mapError fun _ => .io
  return ⟨String.ofList (trim head), treeHash⟩

/-! ## What a fetch commits to -/

attribute [ext] SourceFetchOutput

/-- The regular files of a checkout. -/
def GitHost.sources (host : GitHost) : List TreeFile :=
  files metadataDirs host.tree.entries

/-- Everything that is hashed for a checkout. -/
def GitHost.messages (crypto : Crypto) (host : GitHost) : List (List UInt8) :=
  treeMessages crypto metadataDirs host.tree.entries

variable {crypto : Crypto}

/-- A fetch that succeeds has hashed the tree. -/
theorem hashWorkingTree_of_fetched {host : GitHost} {url reference : String}
    {output : SourceFetchOutput}
    (fetched : executeSourceFetch crypto host url reference = .ok output) :
    hashWorkingTree crypto metadataDirs host.tree.entries = .ok output.treeHash := by
  have converted {ε ε' α : Type} {convert : ε → ε'} {result : Except ε α} {value : α}
      (ok : result.mapError convert = .ok value) : result = .ok value := by
    cases result with
    | error error => cases ok
    | ok found =>
        cases ok
        rfl
  unfold executeSourceFetch at fetched
  obtain ⟨_, -, fetched⟩ := bind_eq_ok.mp fetched
  obtain ⟨_, -, fetched⟩ := bind_eq_ok.mp fetched
  obtain ⟨_, -, fetched⟩ := bind_eq_ok.mp fetched
  obtain ⟨_, -, fetched⟩ := bind_eq_ok.mp fetched
  obtain ⟨hash, hashed, returned⟩ := bind_eq_ok.mp fetched
  cases returned
  exact converted hashed

/-- Two fetches found the same. -/
def SameFetch (host host' : GitHost) :
    Except SourceFetchError SourceFetchOutput → Except SourceFetchError SourceFetchOutput → Prop
  | .ok output, .ok output' => output.resolvedSha = output'.resolvedSha ∧
      ∀ file, file ∈ host.sources ↔ file ∈ host'.sources
  | .error error, .error error' => error = error'
  | _, _ => False

/-- What is hashed for a tree that can be read. -/
theorem treeHash_of_hashed {entries : List Entry} {hash : Hash}
    (hashed : hashWorkingTree crypto metadataDirs entries = .ok hash) :
    hash = crypto.sha256 (treeStream (treeRecords crypto metadataDirs entries)) := by
  cases failed : failures metadataDirs entries with
  | nil => exact Except.ok.inj (hashed.symm.trans (hashWorkingTree_of_readable failed))
  | cons error later => cases (hashWorkingTree_of_failure failed).symm.trans hashed

/-- The hashes of two checkouts are the same exactly when the files are. -/
theorem treeHash_eq_iff {host host' : GitHost} (named : Utf8Named metadataDirs host.tree.entries)
    (named' : Utf8Named metadataDirs host'.tree.entries)
    (free : crypto.CollisionFree (host.messages crypto ++ host'.messages crypto)) :
    crypto.sha256 (treeStream (treeRecords crypto metadataDirs host.tree.entries)) =
        crypto.sha256 (treeStream (treeRecords crypto metadataDirs host'.tree.entries)) ↔
      ∀ file, file ∈ host.sources ↔ file ∈ host'.sources := by
  have left : host.messages crypto ⊆ host.messages crypto ++ host'.messages crypto :=
    List.subset_append_left _ _
  have right : host'.messages crypto ⊆ host.messages crypto ++ host'.messages crypto :=
    List.subset_append_right _ _
  constructor
  · intro same
    have sorted := sortRecords_eq_of_treeStream (free _ (left (treeStream_mem_treeMessages _)) _
      (right (treeStream_mem_treeMessages _)) same)
    exact fun file => ⟨mem_files_of_sortRecords named named' free left right sorted,
      mem_files_of_sortRecords named' named free right left sorted.symm⟩
  · intro same
    rw [treeStream, treeStream, sortRecords_eq_of_files named' same]

/-- The outputs of two fetches are the same exactly when the fetches found the same. -/
theorem executeSourceFetch_eq_iff {host host' : GitHost} {url reference : String}
    (named : Utf8Named metadataDirs host.tree.entries)
    (named' : Utf8Named metadataDirs host'.tree.entries)
    (free : crypto.CollisionFree (host.messages crypto ++ host'.messages crypto)) :
    executeSourceFetch crypto host url reference = executeSourceFetch crypto host' url reference ↔
      SameFetch host host' (executeSourceFetch crypto host url reference)
        (executeSourceFetch crypto host' url reference) := by
  cases fetched : executeSourceFetch crypto host url reference with
  | error error =>
      cases executeSourceFetch crypto host' url reference with
      | error error' => simp [SameFetch]
      | ok output' => simp [SameFetch]
  | ok output =>
      cases fetched' : executeSourceFetch crypto host' url reference with
      | error error' => simp [SameFetch]
      | ok output' =>
          have hashed := hashWorkingTree_of_fetched fetched
          have hashed' := hashWorkingTree_of_fetched fetched'
          have trees := treeHash_eq_iff named named' free
          rw [← treeHash_of_hashed hashed, ← treeHash_of_hashed hashed'] at trees
          rw [SameFetch, ← trees, Except.ok.injEq]
          exact SourceFetchOutput.ext_iff

end Cosaci.Jobs
