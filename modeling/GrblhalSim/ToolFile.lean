import GrblhalSim.ToolLine

namespace GrblhalSim

/-- `/tooltable.tbl` and `/tooltable.tmp`, as far as they exist. -/
structure ToolFiles where
  table : Option (List UInt8)
  tmp : Option (List UInt8)
  deriving DecidableEq

/-- The file system with the tool table, once it is mounted and `fs_available` is set. -/
abbrev ToolFs := Option ToolFiles

/-- How the file operations of an update turn out. `stored n` is how many bytes the `n`-th write
stores at most; `remove` is what `sim_rename` does to its target first. -/
structure Outcomes where
  openFind : Bool
  openFree : Bool
  openSource : Bool
  openTarget : Bool
  stored : Nat → Nat
  unlinkTable : Bool
  remove : Bool
  rename : Bool
  unlinkTmp : Bool

def Outcomes.succeed : Outcomes := ⟨true, true, true, true, fun _ => bufSize, true, true, true, true⟩

/-- `pocket_override_t`. -/
structure PocketOverride where
  toolId : Int32
  newPocketId : Int16
  name : CString
  deleteEntry : Bool
  deriving DecidableEq

/-- A number of pockets within the limit of its setting. -/
structure PocketLimit where
  pockets : UInt16
  atMost : pockets.toNat ≤ 9999

inductive CarouselOp
  | ok
  | alreadyRegistered
  | toolNotFound
  | toolAlreadyInPocket
  | noPocketAvailable
  | writeError
  | tableNotLoaded
  deriving DecidableEq

/-- What an operation returns and leaves; `assigned` is what it puts in `*assigned_pocket`. -/
structure CarouselReturn where
  result : CarouselOp
  assigned : Option Int16
  fs : ToolFs
  deriving DecidableEq

def ToolFs.table (fs : ToolFs) : Option (List UInt8) := fs.bind ToolFiles.table

/-- The bytes in the file after one `vfs_write` for each line. -/
def storeLines (o : Outcomes) (lines : List (List UInt8)) : List UInt8 :=
  lines.zipIdx.flatMap fun line => line.1.take (o.stored line.2)

def ToolFiles.unlinkTable (o : Outcomes) (files : ToolFiles) : ToolFiles :=
  if o.unlinkTable then { files with table := none } else files

/-- `sim_rename` of the temporary file to the table. -/
def ToolFiles.rename (o : Outcomes) (files : ToolFiles) : Bool × ToolFiles :=
  let files := if o.remove then { files with table := none } else files
  if o.rename then (true, ⟨files.tmp, none⟩) else (false, files)

def ToolFiles.unlinkTmp (o : Outcomes) (files : ToolFiles) : ToolFiles :=
  if o.unlinkTmp then { files with tmp := none } else files

variable (core : GrblCore) (o : Outcomes)

/-- The functions that rewrite the table: read the entries, write the updated ones to the temporary
file, unlink the table and rename. There is no result when a line is too long for its buffers. -/
def rewriteTable (update : List ToolPocket → List ToolPocket) :
    ToolFs → Option (Bool × ToolFs)
  | none => some (false, none)
  | some files =>
    match files.table with
    | none => some (false, some files)
    | some src =>
      if o.openSource && o.openTarget then
        ((update (entries core src)).mapM writePocketLine).map fun lines =>
          let renamed :=
            (({ files with tmp := some (storeLines o lines) } : ToolFiles).unlinkTable o).rename o
          if renamed.1 then (true, some renamed.2) else (false, some (renamed.2.unlinkTmp o))
      else some (false, some files)

/-- What the overrides make of an entry, `none` when they delete it. -/
def applyOverrides (overrides : List PocketOverride) (e : ToolPocket) : Option ToolPocket :=
  match overrides.find? fun ov => e.tool.toolId = ov.toolId with
  | none => some e
  | some ov =>
    if ov.deleteEntry then none
    else some { e with
      pocketId := ov.newPocketId
      name := if ov.name.bytes ≠ [] then ov.name else e.name }

def rewriteFile (overrides : List PocketOverride) (fs : ToolFs) : Option (Bool × ToolFs) :=
  rewriteTable core o (List.filterMap (applyOverrides overrides)) fs

def appendTool (p : ToolPocket) (fs : ToolFs) : Option (Bool × ToolFs) :=
  rewriteTable core o (· ++ [p]) fs

def ToolPocket.setData (data : ToolData) (e : ToolPocket) : ToolPocket :=
  if e.tool.toolId = data.toolId then
    { e with tool.offset := data.offset, tool.radius := data.radius }
  else e

def setToolWrite (data : ToolData) (fs : ToolFs) : Option (Bool × ToolFs) :=
  rewriteTable core o (List.map (ToolPocket.setData data)) fs

def ToolPocket.clear (e : ToolPocket) : ToolPocket :=
  { e with tool.offset := fun _ => 0, tool.radius := 0 }

/-- `setTool` while no macro is streaming. -/
def setToolNow (data : ToolData) (fs : ToolFs) : Option (Bool × ToolFs) :=
  if data.toolId ≤ 0 then some (false, fs) else setToolWrite core o data fs

def clearTools (fs : ToolFs) : Option (Bool × ToolFs) :=
  if fs.isNone then some (true, fs) else rewriteTable core o (List.map ToolPocket.clear) fs

def fileFind (toolId : Int32) (fs : ToolFs) : Option ToolPocket :=
  if o.openFind then
    fs.table.bind fun file => (entries core file).find? fun e => e.tool.toolId = toolId
  else none

theorem limit_toInt16 (limit : PocketLimit) :
    limit.pockets.toInt16.toInt = limit.pockets.toNat := by
  have small := limit.atMost
  rw [← Int16.toInt_toBitVec, UInt16.toBitVec_toInt16, BitVec.toInt_eq_toNat_cond,
    UInt16.toNat_toBitVec]
  split <;> omega

theorem pocket_inside {limit : PocketLimit} {p : Int16} (high : p ≤ limit.pockets.toInt16) :
    p.toInt.toNat < limit.pockets.toNat + 1 := by
  rw [Int16.le_iff_toInt_le, limit_toInt16] at high
  omega

/-- The mark in `in_use` for an entry. -/
def markPocket (limit : PocketLimit) (inUse : Fin (limit.pockets.toNat + 1) → Bool)
    (e : ToolPocket) : Fin (limit.pockets.toNat + 1) → Bool :=
  if h : 1 ≤ e.pocketId ∧ e.pocketId ≤ limit.pockets.toInt16 then
    Function.update inUse ⟨e.pocketId.toInt.toNat, pocket_inside h.2⟩ true
  else inUse

def pocketsInUse (limit : PocketLimit) (es : List ToolPocket) :
    Fin (limit.pockets.toNat + 1) → Bool :=
  es.foldl (markPocket limit) fun _ => false

def fileFindFreePocket (limit : PocketLimit) (fs : ToolFs) : Int16 :=
  if limit.pockets = 0 then -1
  else
    let es := if o.openFree then (fs.table.map (entries core)).getD [] else []
    let inUse := pocketsInUse limit es
    match (List.finRange limit.pockets.toNat).find? fun n => !inUse n.succ with
    | some n => Int16.ofNat (n.val + 1)
    | none => -1

/-- `name && *name`. -/
def hasName (name : Option CString) : Bool := name.any fun n => n.bytes ≠ []

/-- The name in a buffer of the size of an entry's name. -/
def shortName (name : Option CString) : CString :=
  match name with
  | some n => .ofBuffer (n.bytes.take (core.nameSize - 1))
  | none => .empty

/-- A carousel operation that ends with a rewrite of the table. -/
def carouselReturn (assigned : Option Int16) (rewritten : Option (Bool × ToolFs)) :
    Option CarouselReturn :=
  rewritten.map fun r => if r.1 then ⟨.ok, assigned, r.2⟩ else ⟨.writeError, none, r.2⟩

def tooltableRegisterTool (toolId : Int32) (name : Option CString) (fs : ToolFs) :
    Option CarouselReturn :=
  if fs.isNone then some ⟨.tableNotLoaded, none, fs⟩
  else
    match fileFind core o toolId fs with
    | some existing =>
      if hasName name then
        carouselReturn none
          (rewriteFile core o [⟨toolId, existing.pocketId, shortName core name, false⟩] fs)
      else some ⟨.alreadyRegistered, none, fs⟩
    | none =>
      carouselReturn none
        (appendTool core o ⟨0, ⟨toolId, fun _ => 0, 0⟩, shortName core name⟩ fs)

def tooltableCarouselAdd (toolId : Int32) (limit : PocketLimit) (name : Option CString)
    (fs : ToolFs) : Option CarouselReturn :=
  if fs.isNone then some ⟨.tableNotLoaded, none, fs⟩
  else
    let found := fileFind core o toolId fs
    if found.any fun existing => 1 ≤ existing.pocketId then
      some ⟨.toolAlreadyInPocket, none, fs⟩
    else
      let freePocket := fileFindFreePocket core o limit fs
      if freePocket < 0 then some ⟨.noPocketAvailable, none, fs⟩
      else if found.isSome then
        carouselReturn (some freePocket)
          (rewriteFile core o [⟨toolId, freePocket, shortName core name, false⟩] fs)
      else
        carouselReturn (some freePocket)
          (appendTool core o ⟨freePocket, ⟨toolId, fun _ => 0, 0⟩, shortName core name⟩ fs)

def tooltableCarouselRemove (toolId : Int32) (fs : ToolFs) : Option CarouselReturn :=
  if fs.isNone then some ⟨.tableNotLoaded, none, fs⟩
  else
    match fileFind core o toolId fs with
    | none => some ⟨.toolNotFound, none, fs⟩
    | some existing =>
      if existing.pocketId < 1 then some ⟨.toolNotFound, none, fs⟩
      else
        carouselReturn none (rewriteFile core o [⟨toolId, 0, shortName core none, false⟩] fs)

def tooltableDelete (toolId : Int32) (fs : ToolFs) : Option CarouselReturn :=
  if fs.isNone then some ⟨.tableNotLoaded, none, fs⟩
  else
    match fileFind core o toolId fs with
    | none => some ⟨.toolNotFound, none, fs⟩
    | some existing =>
      if 1 ≤ existing.pocketId then some ⟨.toolAlreadyInPocket, none, fs⟩
      else
        carouselReturn none (rewriteFile core o [⟨toolId, 0, shortName core none, true⟩] fs)

theorem ToolPocket.setData_toolId (data : ToolData) (e : ToolPocket) :
    (e.setData data).tool.toolId = e.tool.toolId ∧ (e.setData data).pocketId = e.pocketId := by
  unfold ToolPocket.setData
  split
  next => exact ⟨rfl, rfl⟩
  next => exact ⟨rfl, rfl⟩

theorem ToolPocket.setData_name (data : ToolData) (e : ToolPocket) :
    (e.setData data).name = e.name := by
  unfold ToolPocket.setData
  split
  next => rfl
  next => rfl

theorem ToolPocket.setData_pos {data : ToolData} {e : ToolPocket}
    (same : e.tool.toolId = data.toolId) :
    e.setData data = { e with tool.offset := data.offset, tool.radius := data.radius } :=
  if_pos same

theorem ToolPocket.setData_neg {data : ToolData} {e : ToolPocket}
    (other : e.tool.toolId ≠ data.toolId) : e.setData data = e :=
  if_neg other

end GrblhalSim
