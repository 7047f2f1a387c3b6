import Psrt.Server.Topic
import Mathlib.Data.Finset.Insert

/-! Access lists: the path masks of `acl.rs` and the topics they match. -/

namespace Psrt
open Wire

/-- A chunk list ends at the first `#`; the mask `#` alone is `none`. -/
structure PathMask where
  chunks : Option (List Str)
  deriving DecidableEq, Repr

namespace PathMask

def newAny : PathMask := ⟨none⟩

def isStrAny (s : Str) : Bool := s == ['#']

def isStrWildcard (s : Str) : Bool := s == ['+']

/-- The loop of `matches_split`: the mask's remaining chunks against those of the path. -/
def matchesChunks : List Str → List Str → Bool
  | chunks, [] => chunks.isEmpty
  | [], _ :: _ => false
  | mChunk :: chunks, iChunk :: path =>
    if isStrAny mChunk then true
    else if !isStrWildcard mChunk && iChunk != mChunk then false
    else matchesChunks chunks path

def matchesSplit (mask : PathMask) (pathSplit : List Str) : Bool :=
  match mask.chunks with
  | some chunks => matchesChunks chunks pathSplit
  | none => true

/-- The chunks kept of a mask's text: nothing after the first `#`. -/
def keepChunks : List Str → List Str
  | [] => []
  | chunk :: chunks => if isStrAny chunk then [['#']] else chunk :: keepChunks chunks

def fromStr (s : Str) : Except Error PathMask :=
  if s.isEmpty then .error (.invalidData "Empty path mask")
  else if isStrAny s then .ok newAny
  else .ok ⟨some (keepChunks (s.splitOn '/'))⟩

end PathMask

structure PathMaskList where
  pathMasks : Finset PathMask
  deriving DecidableEq

namespace PathMaskList

def «matches» (masks : PathMaskList) (path : Str) : Bool :=
  decide (∃ mask ∈ masks.pathMasks, mask.matchesSplit (path.splitOn '/') = true)

def fromStrList : List Str → Except Error PathMaskList
  | [] => .ok ⟨∅⟩
  | s :: masks =>
    match PathMask.fromStr s with
    | .error e => .error e
    | .ok mask =>
      match fromStrList masks with
      | .error e => .error e
      | .ok list => .ok ⟨insert mask list.pathMasks⟩

end PathMaskList

structure Acl where
  admin : Bool
  replicator : Bool
  read : Option PathMaskList
  write : Option PathMaskList
  deriving DecidableEq

namespace Acl

def newFull : Acl where
  admin := true
  replicator := true
  read := some ⟨{PathMask.newAny}⟩
  write := some ⟨{PathMask.newAny}⟩

def allowRead (acl : Acl) (topic : Str) : Bool := acl.read.any (·.matches topic)

def allowWrite (acl : Acl) (topic : Str) : Bool := acl.write.any (·.matches topic)

def isReplicator (acl : Acl) : Bool := acl.replicator

def isAdmin (acl : Acl) : Bool := acl.admin

end Acl

end Psrt
