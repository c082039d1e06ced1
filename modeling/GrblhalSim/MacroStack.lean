import GrblhalSim.CallRun
import GrblhalSim.CString
import GrblhalSim.DecimalText

namespace GrblhalSim

open CallRun

def macroStackDepth : Nat := 5

/-- What `grbl.on_macro_return` points to: `macro_exit` of the macro plugin, or a handler of another
plugin. -/
inductive ReturnHandler (η : Type)
  | macroExit
  | plugin (h : η)
  deriving DecidableEq

inductive MacroStatus
  | ok
  | unhandled
  | handled
  | flowControlStackOverflow
  | fileOpenFailed
  | gcodeToolError
  | code (n : UInt8)
  deriving DecidableEq

structure MacroEntry (φ : Type) where
  id : Nat
  repeats : UInt32
  file : φ
  pos : Nat
  posReturn : Nat
  parameterStack : Bool
  deriving DecidableEq

/-- The calls that the macro plugin makes, and what it returns to the core. -/
inductive MacroOutput (φ η : Type)
  | redirectRead (filename : List UInt8) (file : φ)
  | seek (file : φ) (pos : Nat)
  | redirectClose (file : φ)
  | unwindStack (file : φ)
  | callPop
  | statusMessage (status : MacroStatus)
  | reportMessage (message : List UInt8)
  | macroReturn (h : η)
  | driverReset
  | returns (status : MacroStatus)
  deriving DecidableEq

/-- The macro stack, innermost macro first, `grbl.on_macro_return`, the handler from before that the
plugin has saved, the path of the tool change macros and whether `hal.tool.change` is
`macro_tool_change`. -/
structure Macros (φ η : Type) where
  stack : List (MacroEntry φ)
  onMacroReturn : Option (ReturnHandler η)
  saved : Option (ReturnHandler η)
  tcPath : List UInt8
  attached : Bool
  outputs : List (MacroOutput φ η)
  deriving DecidableEq

/-- What the core answers when a macro file is started. A file that is opened is `hal.stream.file`
from then on. -/
structure FileAnswers (φ : Type) where
  checkMode : Bool
  exists_ : Bool
  opened : Option φ

/-- A macro in the file that is streaming: where it starts, as `gc_macro_get_pos` finds it, and where
the call has been read. -/
structure SubCall (φ : Type) where
  file : φ
  pos : Nat
  tell : Nat

variable {φ η : Type}

def Macros.put (m : Macros φ η) (outputs : List (MacroOutput φ η)) : Macros φ η :=
  { m with outputs := m.outputs ++ outputs }

def Macros.unhook (m : Macros φ η) : Macros φ η :=
  if m.stack.isEmpty then { m with onMacroReturn := m.saved, saved := none } else m

def MacroEntry.closing (e : MacroEntry φ) : List (MacroOutput φ η) :=
  (if e.posReturn ≠ 0 then .seek e.file e.posReturn else .redirectClose e.file) ::
    .unwindStack e.file :: if e.parameterStack then [.callPop] else []

def Macros.endMacro (m : Macros φ η) (failed : Bool) : Bool × Macros φ η :=
  match m.stack with
  | [] => (true, m.unhook)
  | e :: rest =>
    -- The repeats are counted down only if nothing has failed.
    let left := if failed then 0 else e.repeats - 1
    if left ≠ 0 then
      (false, { m with stack := { e with repeats := left } :: rest }.put [.seek e.file e.pos])
    else (true, ({ m with stack := rest }.put e.closing).unhook)

@[simp] theorem put_stack (m : Macros φ η) (outputs : List (MacroOutput φ η)) :
    (m.put outputs).stack = m.stack :=
  rfl

@[simp] theorem put_saved (m : Macros φ η) (outputs : List (MacroOutput φ η)) :
    (m.put outputs).saved = m.saved :=
  rfl

@[simp] theorem put_onMacroReturn (m : Macros φ η) (outputs : List (MacroOutput φ η)) :
    (m.put outputs).onMacroReturn = m.onMacroReturn :=
  rfl

@[simp] theorem put_outputs (m : Macros φ η) (outputs : List (MacroOutput φ η)) :
    (m.put outputs).outputs = m.outputs ++ outputs :=
  rfl

@[simp] theorem unhook_stack (m : Macros φ η) : m.unhook.stack = m.stack := by
  unfold Macros.unhook
  split
  next => rfl
  next => rfl

theorem endMacro_true_stack (m : Macros φ η) : (m.endMacro true).2.stack = m.stack.tail := by
  unfold Macros.endMacro
  split
  next empty => rw [unhook_stack, empty]; rfl
  next e rest some =>
    rw [if_neg (by simp), unhook_stack, put_stack, some]
    rfl

/-- `while(stack_idx >= 0) end_macro(true);` -/
def Macros.endAll (m : Macros φ η) : Macros φ η :=
  match _stack : m.stack with
  | [] => m
  | _ :: _ => (m.endMacro true).2.endAll
termination_by m.stack.length
decreasing_by
  rw [endMacro_true_stack, _stack]
  exact Nat.lt_succ_self _

def Macros.pluginReset (m : Macros φ η) : Macros φ η := m.endAll.put [.driverReset]

def errorText (code : UInt8) (id : Nat) : List UInt8 :=
  ascii "error " ++ DecimalText.decimal code.toNat ++ ascii " in macro P" ++ DecimalText.decimal id ++
    ascii ".macro"

def Macros.onG65MacroError (m : Macros φ η) (code : UInt8) : Macros φ η :=
  match m.stack with
  | [] => m
  | e :: _ =>
    ((m.put [.reportMessage (errorText code e.id)]).endMacro true).2.put
      [.statusMessage (.code code)]

def Macros.onG65MacroEOF [DecidableEq φ] (m : Macros φ η) (file : φ) (ok : Bool) : Macros φ η :=
  match m.stack with
  | [] => m
  | e :: _ =>
    if e.file = file then
      if ok then
        let (ended, m) := m.endMacro false
        if ended then m.put [.statusMessage .ok] else m
      else m.endAll
    else m

/-- `stack_push` behind its check: the handler is saved by the outermost macro. -/
def Macros.enter (m : Macros φ η) (e : MacroEntry φ) : Macros φ η :=
  if m.stack.isEmpty then
    { m with stack := [e], saved := m.onMacroReturn, onMacroReturn := some .macroExit }
  else { m with stack := e :: m.stack }

/-- `stack_push`, which writes outside of the array when all entries are taken. -/
def Macros.stackPush (m : Macros φ η) (e : MacroEntry φ) : Except Unit (Macros φ η) :=
  if m.stack.length < macroStackDepth then .ok (m.enter e) else .error ()

def Macros.macroStart (m : Macros φ η) (filename : List UInt8) (macroId : Nat) (repeats : UInt32)
    (pstack : Bool) (a : FileAnswers φ) : Except Unit (MacroStatus × Macros φ η) :=
  if macroStackDepth ≤ m.stack.length then .ok (.flowControlStackOverflow, m)
  else if a.checkMode then .ok (if a.exists_ then .ok else .fileOpenFailed, m)
  else
    match a.opened with
    | none => .ok (.fileOpenFailed, m)
    | some file => do
      let m ← (m.put [.redirectRead filename file]).stackPush ⟨macroId, repeats, file, 0, 0, pstack⟩
      .ok (.handled, m)

def macroFilename (macroId : Nat) : List UInt8 :=
  ascii "/P" ++ DecimalText.decimal macroId ++ ascii ".macro"

/-- `macro_execute` without the handler from before; `dollar` is `args.$`. -/
def Macros.macroExecute (m : Macros φ η) (macroId : Nat) (dollar : Bool) (repeats : UInt32)
    (sub : Option (SubCall φ)) (a : FileAnswers φ) : Except Unit (MacroStatus × Macros φ η) :=
  if macroId < 100 then .ok (.unhandled, m)
  else
    match if dollar then sub else none with
    | some call =>
      if macroStackDepth ≤ m.stack.length then .ok (.flowControlStackOverflow, m)
      else do
        let m ← m.stackPush ⟨macroId, repeats, call.file, call.pos, call.tell, false⟩
        .ok (.handled, m.put [.seek call.file call.pos])
    | none => m.macroStart (macroFilename macroId) macroId repeats (!dollar) a

/-- `macro_exit`. It calls itself for ever if it has saved itself. -/
def Macros.macroExit (m : Macros φ η) : Except Unit (Macros φ η) :=
  if m.stack.isEmpty then
    match m.saved with
    | none => .ok m
    | some .macroExit => .error ()
    | some (.plugin h) => .ok (m.put [.macroReturn h])
  else .ok (m.endMacro false).2

def Macros.callMacroReturn (m : Macros φ η) : Except Unit (Macros φ η) :=
  match m.onMacroReturn with
  | none => .ok m
  | some .macroExit => m.macroExit
  | some (.plugin h) => .ok (m.put [.macroReturn h])

/-- `macro_tool_change`; `executeM6T0` is the setting. -/
def Macros.macroToolChange (m : Macros φ η) (executeM6T0 : Bool) (currentTool nextTool : Int32)
    (a : FileAnswers φ) : Except Unit (MacroStatus × Macros φ η) :=
  if nextTool = -1 then .ok (.gcodeToolError, m)
  else if currentTool = nextTool ∨ executeM6T0 = false ∧ nextTool = 0 then .ok (.ok, m)
  else do
    let (status, m) ← m.macroStart (m.tcPath ++ ascii "tc.macro") 99 1 false a
    .ok (if status = .handled then .unhandled else status, m)

def Macros.macroToolSelect (m : Macros φ η) (toolId : Int32) (a : FileAnswers φ) :
    Except Unit (Macros φ η) :=
  if m.attached ∧ 0 < toolId then do
    let (_, m) ← m.macroStart (m.tcPath ++ ascii "ts.macro") 98 1 false a
    .ok m
  else .ok m

/-- `macro_pallet_shuttle` without the handler from before. -/
def Macros.macroPalletShuttle (m : Macros φ η) (a : FileAnswers φ) : Except Unit (Macros φ η) := do
  let (_, m) ← m.macroStart (m.tcPath ++ ascii "ps.macro") 97 1 false a
  .ok m

/-- What happens to the macro plugin. In `assign` another plugin sets `grbl.on_macro_return`. -/
inductive MacroEvent (φ η : Type)
  | execute (macroId : Nat) (dollar : Bool) (repeats : UInt32) (sub : Option (SubCall φ))
      (a : FileAnswers φ)
  | toolChange (executeM6T0 : Bool) (currentTool nextTool : Int32) (a : FileAnswers φ)
  | toolSelect (toolId : Int32) (a : FileAnswers φ)
  | palletShuttle (a : FileAnswers φ)
  | eof (file : φ) (ok : Bool)
  | error (code : UInt8)
  | macroReturn
  | assign (h : Option (ReturnHandler η))
  | reset

def returning (r : MacroStatus × Macros φ η) : Macros φ η := r.2.put [.returns r.1]

def Macros.step [DecidableEq φ] (m : Macros φ η) : MacroEvent φ η → Except Unit (Macros φ η)
  | .execute macroId dollar repeats sub a =>
    (m.macroExecute macroId dollar repeats sub a).map returning
  | .toolChange executeM6T0 currentTool nextTool a =>
    (m.macroToolChange executeM6T0 currentTool nextTool a).map returning
  | .toolSelect toolId a => m.macroToolSelect toolId a
  | .palletShuttle a => m.macroPalletShuttle a
  | .eof file ok => .ok (m.onG65MacroEOF file ok)
  | .error code => .ok (m.onG65MacroError code)
  | .macroReturn => m.callMacroReturn
  | .assign h => .ok { m with onMacroReturn := h }
  | .reset => .ok m.pluginReset

end GrblhalSim
