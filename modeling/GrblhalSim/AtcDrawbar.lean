import Mathlib.Data.List.Basic

namespace GrblhalSim

/-- The bits of `atc.flags` that the drawbar and its button use. -/
structure AtcFlags where
  userInputActive : Bool
  toolPresentActive : Bool
  drawbarStatusActive : Bool
  drawbarControlActive : Bool
  taperClearActive : Bool

structure AtcStatus where
  drawbarControl : Bool
  taperclearControl : Bool
  drawbarStatus : Bool
  toolpresentStatus : Bool
  userinputStatus : Bool
  deriving DecidableEq

/-- `state_get()`, as far as the drawbar asks. -/
inductive AtcState
  | idle
  | toolChange
  | hold
  | other
  deriving DecidableEq

/-- The levels of the input ports. -/
structure AtcLevels where
  drawbarStatus : Bool
  toolPresent : Bool
  userInput : Bool
  deriving DecidableEq

/-- What a call finds, each when it looks: the state of the spindle, whether its rpm is above zero,
the state of the machine (50 ms later if the drawbar is to open), and the input ports when a poll
starts, when the spindle is set and when the drawbar has moved. -/
structure AtcSituation where
  spindleOn : Bool
  turning : Bool
  state : AtcState
  polled : AtcLevels
  atSpindle : AtcLevels
  settled : AtcLevels
  deriving DecidableEq

inductive AtcOutput
  | message (text : String)
  | spindleOff
  | drawbarControl (on : Bool)
  | taperClear (on : Bool)
  deriving DecidableEq

/-- `atc_status`, the statics of `atc_poll` and the calls made so far, each with what it found. -/
structure Drawbar where
  status : AtcStatus
  val : Bool
  latch : Bool
  zeroCount : Nat
  oneCount : Nat
  outputs : List (AtcSituation × AtcOutput)
  deriving DecidableEq

def Drawbar.start : Drawbar := ⟨⟨false, false, false, false, false⟩, false, false, 0, 0, []⟩

def AtcFlags.readAtcPorts (flags : AtcFlags) (ports : AtcLevels) (s : AtcStatus) : AtcStatus where
  drawbarControl := s.drawbarControl
  taperclearControl := s.taperclearControl
  drawbarStatus := if flags.drawbarStatusActive then ports.drawbarStatus else s.drawbarStatus
  toolpresentStatus := if flags.toolPresentActive then ports.toolPresent else s.toolpresentStatus
  userinputStatus := if flags.userInputActive then ports.userInput else s.userinputStatus

def Drawbar.put (d : Drawbar) (now : AtcSituation) (outputs : List AtcOutput) : Drawbar :=
  { d with outputs := d.outputs ++ outputs.map fun o => (now, o) }

/-- The end of `drawbar_open` and `drawbar_close`. -/
def Drawbar.drive (flags : AtcFlags) (d : Drawbar) (now : AtcSituation) (on : Bool) : Drawbar :=
  let driven := d.put now
    ((if flags.drawbarControlActive then [.drawbarControl on] else []) ++
      if flags.taperClearActive then [.taperClear on] else [])
  { driven with
    status := flags.readAtcPorts now.settled
      { d.status with drawbarControl := on, taperclearControl := on } }

/-- `spindle_set_state` with the spindle off, which `onSpindleSetState` sees on its way; the air
seal is left out. -/
def Drawbar.spindleOff (flags : AtcFlags) (d : Drawbar) (now : AtcSituation) : Drawbar :=
  { d.put now [.spindleOff] with status := flags.readAtcPorts now.atSpindle d.status }

def Drawbar.drawbarOpen (flags : AtcFlags) (d : Drawbar) (now : AtcSituation) : Drawbar :=
  let d := d.put now [.message "ATC plugin: Drawbar Open"]
  if now.spindleOn || now.turning then
    d.put now [.message "Drawbar cannot open while spindle is running"]
  else
    let d := d.spindleOff flags now
    if now.state = .other then
      d.put now [.message "Drawbar can only open in IDLE or TOOL state"]
    else d.drive flags now true

def Drawbar.drawbarClose (flags : AtcFlags) (d : Drawbar) (now : AtcSituation) : Drawbar :=
  if now.spindleOn || now.turning then d
  else if now.state = .other then d
  else (d.put now [.message "ATC plugin: Drawbar Close"]).drive flags now false

def debounceThreshold : Nat := 3

def zeroThreshold : Nat := 10

inductive DrawbarCall
  | opens
  | closes
  deriving DecidableEq

/-- `atc_poll` up to its calls: the statics that it leaves and the function that it calls. -/
def Drawbar.debounce (d : Drawbar) (val : Bool) : Drawbar × Option DrawbarCall :=
  let prevVal := d.val
  let zeroCount := if val then 0 else d.zeroCount + 1
  let oneCount := if val then d.oneCount + 1 else 0
  if !prevVal && !val && !d.latch then
    if debounceThreshold ≤ zeroCount then
      ({ d with val := val, latch := true, zeroCount := 0, oneCount := oneCount }, some .opens)
    else ({ d with val := val, zeroCount := zeroCount, oneCount := oneCount }, none)
  else if prevVal && val && d.latch || decide (zeroThreshold ≤ zeroCount) then
    if 1 ≤ oneCount ∨ zeroThreshold ≤ zeroCount then
      ({ d with val := val, latch := false, zeroCount := 0, oneCount := 0 }, some .closes)
    else ({ d with val := val, zeroCount := zeroCount, oneCount := oneCount }, none)
  else ({ d with val := val, zeroCount := 0, oneCount := 0 }, none)

def Drawbar.serve (flags : AtcFlags) (d : Drawbar) (now : AtcSituation) :
    Option DrawbarCall → Drawbar
  | none => d
  | some .opens => d.drawbarOpen flags now
  | some .closes => d.drawbarClose flags now

def Drawbar.atcPoll (flags : AtcFlags) (d : Drawbar) (now : AtcSituation) :
    Drawbar × Option DrawbarCall :=
  let status := flags.readAtcPorts now.polled d.status
  let result := ({ d with status := status } : Drawbar).debounce status.userinputStatus
  (result.1.serve flags now result.2, result.2)

/-- What happens to the drawbar: a poll of its button, `$DRBO` or `$DRBC`. -/
inductive DrawbarEvent
  | poll
  | drbo
  | drbc

def Drawbar.step (flags : AtcFlags) (d : Drawbar) (ev : DrawbarEvent × AtcSituation) : Drawbar :=
  match ev.1 with
  | .poll => (d.atcPoll flags ev.2).1
  | .drbo => d.drawbarOpen flags ev.2
  | .drbc => d.drawbarClose flags ev.2

/-- The calls of the polls among the events, in order. -/
def Drawbar.pollCalls (flags : AtcFlags) (d : Drawbar) :
    List (DrawbarEvent × AtcSituation) → List (Option DrawbarCall)
  | [] => []
  | ev :: events =>
    let later := (d.step flags ev).pollCalls flags events
    if ev.1 matches .poll then (d.atcPoll flags ev.2).2 :: later else later

end GrblhalSim
