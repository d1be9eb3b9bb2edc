import Cosaci.Foundation.TextRecords
import Cosaci.Foundation.TextSearch
import Cosaci.Jobs.Pipeline

/-!
# The cgroup of a native step

`StepCgroup` of `cosaci-jobs`: a control group below the one of the runner, made for one
native step when the step limits its memory or its CPU time and the runner may delegate
what that takes.  The kernel reports on the group in files of keys and values.
-/

namespace Cosaci.Jobs

open Foundation

/-! ## The files -/

/-- The file system, as the set-up of a group meets it. -/
structure CgroupFs where
  readToString : List Char → Option (List Char)
  createDir : List Char → Bool
  write : List Char → List Char → Bool

/-- A relative name below a directory. -/
def joinPath (parent name : List Char) : List Char :=
  if parent.getLast? = some '/' then parent ++ name else parent ++ '/' :: name

/-- The group of this process in the unified hierarchy. -/
def CgroupFs.currentCgroupPath (fs : CgroupFs) : Option (List Char) := do
  let text ← fs.readToString "/proc/self/cgroup".toList
  let rest ← (textLines text).findSome? (stripFront "0::".toList)
  return joinPath "/sys/fs/cgroup".toList (rest.dropWhile (· = '/'))

/-- Whether the children of a group may use a controller. -/
def CgroupFs.subtreeHasController (fs : CgroupFs) (path : List Char) (controller : String) :
    Bool :=
  match fs.readToString (joinPath path "cgroup.subtree_control".toList) with
  | none => false
  | some text => (words isWhiteSpace text).any (· = controller.toList)

structure StepCgroup where
  path : List Char
  deriving DecidableEq

/-- The name of a group, from the process, the step and the time. -/
def cgroupName (processId stepIndex : UInt32) (nowNs : Nat) : List Char :=
  "cosaci-step-".toList ++ Json.number processId.toNat ++ '-' :: Json.number stepIndex.toNat ++
    '-' :: Json.number nowNs

/-- Make the group of a step.  Every limit that the step sets takes its controller; when
one is missing, there is no group at all. -/
def StepCgroup.tryCreate (fs : CgroupFs) (processId : UInt32) (nowNs : Nat)
    (stepIndex memoryMb cpuSeconds : UInt32) : Option StepCgroup :=
  if memoryMb = 0 ∧ cpuSeconds = 0 then none
  else do
    let parent ← fs.currentCgroupPath
    if 0 < memoryMb ∧ !fs.subtreeHasController parent "memory" then none
    else if 0 < cpuSeconds ∧ !fs.subtreeHasController parent "cpu" then none
    else
      let path := joinPath parent (cgroupName processId stepIndex nowNs)
      if !fs.createDir path then none
      else if 0 < memoryMb ∧ !fs.write (joinPath path "memory.max".toList)
          (Json.number (memoryMb.toNat * (1024 * 1024))) then none
      else some ⟨path⟩

/-! ## What the kernel reports -/

/-- Whether the kernel killed a process of the group for its memory, from the text of
`memory.events.local`. -/
def wasOomKilled (events : Option (List Char)) : Bool :=
  match events with
  | none => false
  | some text =>
      ((textLines text).filterMap (stripFront "oom_kill ".toList)).any fun rest =>
        match parseU64 (trim rest) with
        | .ok count => 0 < count
        | .error _ => false

/-- The CPU time of the group in microseconds, from the text of `cpu.stat`. -/
def cpuUsageUsec (stat : Option (List Char)) : Option UInt64 := do
  let text ← stat
  let rest ← (textLines text).findSome? (stripFront "usage_usec ".toList)
  (parseU64 (trim rest)).toOption

end Cosaci.Jobs
