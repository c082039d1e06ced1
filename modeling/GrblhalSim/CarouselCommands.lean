import GrblhalSim.ToolCarousel

namespace GrblhalSim

open DecimalText

/-- The status codes that the commands return; `core` is one that `read_uint` gives. -/
inductive TcStatus
  | ok
  | invalidStatement
  | homingRequired
  | badNumberFormat
  | gcodeValueOutOfRange
  | fileReadError
  | eStop
  | core (code : Nat)
  deriving DecidableEq

inductive TcMessage
  | warning (text : List UInt8)
  | info (text : List UInt8)
  deriving DecidableEq

inductive TcHandler (η : Type)
  | macroExit
  | other (handler : η)
  deriving DecidableEq

/-- What a command sends; the value of a parameter is the one before its conversion to a float. -/
inductive TcOutput
  | message (m : TcMessage)
  | ngcParam (id : Nat) (value : Int)
  | keepout (enabled : Bool)
  | enqueue (block : List UInt8)
  deriving DecidableEq

/-- What a command finds: the controller, the tool in the spindle, the sensor and the settings,
whether the core takes the block that is enqueued, and how the file operations turn out, those that
take a deposit back apart. No macro is streaming. -/
structure TcSituation where
  idle : Bool
  homed : Bool
  tool : ToolData
  toolPresentActive : Bool
  toolPresent : Bool
  spindleOn : Bool
  pockets : PocketLimit
  enqueues : Bool
  files : Outcomes
  undo : Outcomes

structure TcWorld (η : Type) where
  fs : ToolFs
  onMacroReturn : Option (TcHandler η)
  saved : Option (TcHandler η)
  outputs : List TcOutput
  deriving DecidableEq

variable {η : Type} (core : GrblCore)

def TcWorld.put (w : TcWorld η) (outputs : List TcOutput) : TcWorld η :=
  { w with outputs := w.outputs ++ outputs }

def TcWorld.warn (w : TcWorld η) (text : List UInt8) : TcWorld η := w.put [.message (.warning text)]

def TcWorld.hookMacroExit (w : TcWorld η) : TcWorld η :=
  { w.put [.keepout false] with onMacroReturn := some .macroExit, saved := w.onMacroReturn }

/-- `read_uint` of the core: its error, or the number with what is left of the text. -/
abbrev ReadUint := List UInt8 → Except Nat (UInt32 × List UInt8)

/-- The tool that is named behind a T, and the text behind it. -/
def namedTool (readUint : ReadUint) (args : CString) : Option (Except Nat (UInt32 × List UInt8)) :=
  if args.bytes.headD 0 ≠ 0x54 ∧ args.bytes.headD 0 ≠ 0x74 then none
  else some (readUint args.bytes.tail)

def nameBehind (text : List UInt8) : Option CString :=
  match text.dropWhile fun c => c = 0x20 ∨ c = 0x09 with
  | [] => none
  | c :: name => if c = 0x3B then some (.ofBuffer name) else none

/-- The rest of `carousel_add` once its tool and name are known. -/
def TcWorld.addTool (w : TcWorld η) (now : TcSituation) (toolId : UInt32) (name : Option CString) :
    Option (TcStatus × TcWorld η) :=
  if now.toolPresentActive && !now.toolPresent then
    some (.gcodeValueOutOfRange, w.warn (ascii "TCADD: no tool detected in spindle"))
  else if now.spindleOn then
    some (.gcodeValueOutOfRange, w.warn (ascii "TCADD: spindle must be off"))
  else
    (tooltableCarouselAdd core now.files toolId.toInt32 now.pockets name w.fs).bind fun r =>
      let w := { w with fs := r.fs }
      match r.result with
      | .ok =>
        let w := w.put [.ngcParam 4900 toolId.toNat, .ngcParam 4901 (r.assigned.getD 0).toInt,
          .ngcParam 4905 1, .ngcParam 4906 0]
        let w := w.hookMacroExit
        if now.enqueues then some (.ok, w.put [.enqueue (ascii "G65P391")])
        else
          (tooltableCarouselRemove core now.undo toolId.toInt32 w.fs).map fun undone =>
            (.eStop, ({ w with fs := undone.fs } : TcWorld η).warn (ascii
              "TCADD: failed to enqueue deposit motion -- pocket assignment rolled back"))
      | .toolAlreadyInPocket =>
        some (.gcodeValueOutOfRange, w.warn (ascii "TCADD: tool already has a pocket assigned"))
      | .noPocketAvailable =>
        some (.gcodeValueOutOfRange, w.warn (ascii "TCADD: carousel is full (" ++
          decimal now.pockets.pockets.toNat ++ ascii " pockets configured)"))
      | .tableNotLoaded =>
        some (.gcodeValueOutOfRange, w.warn (ascii "TCADD: tool table not loaded"))
      | .writeError => some (.fileReadError, w.warn (ascii "TCADD: failed to write tool table"))
      | _ => some (.gcodeValueOutOfRange, w.warn (ascii "TCADD: unknown error"))

def TcWorld.carouselAdd (readUint : ReadUint) (w : TcWorld η) (now : TcSituation)
    (args : Option CString) : Option (TcStatus × TcWorld η) :=
  if !now.idle then some (.invalidStatement, w.warn (ascii "TCADD: machine must be IDLE"))
  else if !now.homed then some (.homingRequired, w.warn (ascii "TCADD: machine must be homed"))
  else
    match args.filter fun a => a.bytes ≠ [] with
    | none =>
      if now.tool.toolId = 0 then
        some (.badNumberFormat,
          w.warn (ascii "TCADD: no tool selected and no argument given"))
      else w.addTool core now now.tool.toolId.toUInt32 none
    | some a =>
      match namedTool readUint a with
      | none =>
        some (.badNumberFormat, w.warn (ascii "TCADD: usage is $TCADD [Tn] [;name]"))
      | some (.error code) => some (.core code, w)
      | some (.ok (toolId, text)) => w.addTool core now toolId (nameBehind text)

def TcWorld.carouselReturn (readUint : ReadUint) (w : TcWorld η) (now : TcSituation) :
    Option (TcStatus × TcWorld η) := w.carouselAdd core readUint now none

def TcWorld.removeTool (w : TcWorld η) (now : TcSituation) (toolId : UInt32) :
    Option (TcStatus × TcWorld η) :=
  (tooltableCarouselRemove core now.files toolId.toInt32 w.fs).map fun r =>
    let w := { w with fs := r.fs }
    if r.result = .ok then
      (.ok, w.put [.message (.info
        (ascii "Tool " ++ decimal toolId.toNat ++ ascii " removed from carousel"))])
    else (.gcodeValueOutOfRange, w.warn (ascii "TCRM: tool not found in carousel"))

def TcWorld.carouselRemove (readUint : ReadUint) (w : TcWorld η) (now : TcSituation)
    (args : Option CString) : Option (TcStatus × TcWorld η) :=
  if !now.idle then some (.invalidStatement, w.warn (ascii "TCRM: machine must be IDLE"))
  else
    match args.filter fun a => a.bytes ≠ [] with
    | none =>
      if now.tool.toolId = 0 then some (.badNumberFormat, w.warn (ascii "TCRM: no tool selected"))
      else w.removeTool core now now.tool.toolId.toUInt32
    | some a =>
      match namedTool readUint a with
      | none => some (.badNumberFormat, w.warn (ascii "TCRM: usage is $TCRM [Tn]"))
      | some (.error code) => some (.core code, w)
      | some (.ok (toolId, _)) => w.removeTool core now toolId

def TcWorld.startMeasure (w : TcWorld η) (now : TcSituation) (failed : List UInt8) :
    TcStatus × TcWorld η :=
  let w := w.hookMacroExit
  if now.enqueues then (.ok, w.put [.enqueue (ascii "G65P394")]) else (.eStop, w.warn failed)

/-- What `$TCMEASURE` and `$TCREMEASURE` ask for, with the name of the command. -/
def TcWorld.readyToMeasure (w : TcWorld η) (now : TcSituation) (command : List UInt8) :
    Option (TcStatus × TcWorld η) :=
  if !now.idle then some (.invalidStatement, w.warn (command ++ ascii ": machine must be IDLE"))
  else if !now.homed then some (.homingRequired, w.warn (command ++ ascii ": machine must be homed"))
  else if now.tool.toolId = 0 then
    some (.gcodeValueOutOfRange, w.warn (command ++ ascii ": no tool in spindle"))
  else none

def TcWorld.carouselMeasure (w : TcWorld η) (now : TcSituation) : TcStatus × TcWorld η :=
  (w.readyToMeasure now (ascii "TCMEASURE")).getD
    (w.startMeasure now (ascii "TCMEASURE: failed to enqueue measure macro"))

def TcWorld.carouselRemeasure (w : TcWorld η) (now : TcSituation) : Option (TcStatus × TcWorld η) :=
  match w.readyToMeasure now (ascii "TCREMEASURE") with
  | some refused => some refused
  | none =>
    (setToolNow core now.files { now.tool with offset := fun _ => 0 } w.fs).map fun set =>
      ({ w with fs := set.2 } : TcWorld η).startMeasure now (ascii "TCREMEASURE: failed")

/-- The commands of `atc_command_list` that are about the carousel. -/
inductive TcCommand
  | tcAdd (args : Option CString)
  | tcReturn
  | tcRm (args : Option CString)
  | tcMeasure
  | tcRemeasure

def TcWorld.execute (readUint : ReadUint) (w : TcWorld η) (now : TcSituation) :
    TcCommand → Option (TcStatus × TcWorld η)
  | .tcAdd args => w.carouselAdd core readUint now args
  | .tcReturn => w.carouselReturn core readUint now
  | .tcRm args => w.carouselRemove core readUint now args
  | .tcMeasure => some (w.carouselMeasure now)
  | .tcRemeasure => w.carouselRemeasure core now

end GrblhalSim
