import GrblhalSim.CString
import GrblhalSim.PathResolve

namespace GrblhalSim

open PathResolve

abbrev FileName := List UInt8

def slash : UInt8 := 0x2F
def dot : UInt8 := 0x2E

def sdRoot : List UInt8 := ascii "sdcard"

/-- The size of the buffers that the operations call `make_host_path` with. -/
def hostPathSize : Nat := 600

/-- `vfs_path`, without its first character if that is a slash; a null pointer is as good as an
empty string. -/
def skipSlash : Option CString → List UInt8
  | none => []
  | some path => if path.bytes.head? = some slash then path.bytes.tail else path.bytes

def makeHostPath (buflen : Nat) (vfsPath : Option CString) : List UInt8 :=
  (sdRoot ++ slash :: skipSlash vfsPath).take (buflen - 1)

def hostPath (vfsPath : Option CString) : List UInt8 := makeHostPath hostPathSize vfsPath

inductive VfsOp
  | fopen (filename : CString) (mode : String)
  | rename (source target : CString)
  | unlink (fn : CString)
  | mkdir (p : CString)
  | rmdir (p : CString)
  | opendir (path : CString)
  | stat (fn : CString)

inductive HostCall
  | fopen (path : List UInt8) (mode : String)
  | remove (path : List UInt8)
  | rename (source target : List UInt8)
  | mkdir (path : List UInt8)
  | rmdir (path : List UInt8)
  | opendir (path : List UInt8)
  | stat (path : List UInt8)

/-- The calls of the C library that an operation of `sim_vfs` makes. -/
def VfsOp.hostCalls : VfsOp → List HostCall
  | .fopen filename mode => [.fopen (hostPath filename) mode]
  | .rename source target =>
    [.remove (hostPath target), .rename (hostPath source) (hostPath target)]
  | .unlink fn => [.remove (hostPath fn)]
  | .mkdir p => [.mkdir (hostPath p)]
  | .rmdir p => [.rmdir (hostPath p)]
  | .opendir path => [.opendir (hostPath path)]
  | .stat fn => [.stat (hostPath fn)]

def VfsOp.vfsPaths : VfsOp → List CString
  | .fopen p _ | .unlink p | .mkdir p | .rmdir p | .opendir p | .stat p => [p]
  | .rename source target => [source, target]

def HostCall.paths : HostCall → List (List UInt8)
  | .fopen p _ | .remove p | .mkdir p | .rmdir p | .opendir p | .stat p => [p]
  | .rename source target => [source, target]

def component (piece : List UInt8) : Option (Component FileName) :=
  if piece = [] ∨ piece = [dot] then none
  else if piece = [dot, dot] then some .up
  else some (.name piece)

/-- A path between its slashes, without empty components and those that are a single dot. -/
def components (path : List UInt8) : List (Component FileName) :=
  (path.splitOn slash).filterMap component

/-- The place that a host path leads to from the working directory. -/
def hostPlace (cwd : List FileName) (path : List UInt8) : List FileName :=
  if path.head? = some slash then resolve [] (components path) else resolve cwd (components path)

/-- The place on the card that a VFS path names. -/
def cardPlace (path : CString) : List FileName := resolve [] (components path.bytes)

def sdRootPlace (cwd : List FileName) : List FileName := hostPlace cwd sdRoot

end GrblhalSim
