import GrblhalSim.ZoneStore

namespace GrblhalSim

/-- The operations on C floats that the ATCi settings go through. -/
class CFloat (F : Type) where
  fminf : F → F → F
  fmaxf : F → F → F
  literal : ℚ → F

open CFloat

instance : CFloat ℚ := ⟨min, max, id⟩

inductive KeepoutSource
  | startup
  | rack
  | command
  | toolMacro
  deriving DecidableEq

structure ConfigFlags where
  value : UInt8
  deriving DecidableEq

def ConfigFlags.pluginEnabled (f : ConfigFlags) : Bool := f.value &&& 0x01 != 0

def ConfigFlags.monitorRackPresence (f : ConfigFlags) : Bool := f.value &&& 0x02 != 0

def ConfigFlags.monitorTcMacro (f : ConfigFlags) : Bool := f.value &&& 0x04 != 0

/-- The settings $683-$687 as they are stored. -/
structure AtciConfig (F : Type) where
  xMin : F
  yMin : F
  xMax : F
  yMax : F
  flags : ConfigFlags

/-- The settings $684-$687, as the core reads them from the plugin that registered them. -/
def AtciConfig.settings (c : AtciConfig ℚ) : AtciSettings :=
  ⟨some c.xMin, some c.yMin, some c.xMax, some c.yMax⟩

structure AtciRt (F : Type) where
  xMin : F
  yMin : F
  xMax : F
  yMax : F
  enabled : Bool
  source : KeepoutSource
  lastPinState : Bool

/-- The static variables of the plugin and the bytes that it last wrote to its place in the NVS.
The sensor states for the realtime report are left out. -/
structure Atci (F : Type) where
  config : AtciConfig F
  atci : AtciRt F
  tcMacroRunning : Bool
  image : AtciConfig F

section State

variable {F : Type}

def Atci.isKeepoutActive (s : Atci F) : Bool := s.config.flags.pluginEnabled && s.atci.enabled

def Atci.setKeepoutState (s : Atci F) (newState : Bool) (eventSource : KeepoutSource) : Atci F :=
  if s.atci.enabled ≠ newState ∨ s.atci.source ≠ eventSource then
    { s with atci := { s.atci with enabled := newState, source := eventSource } }
  else s

def Atci.keepoutToolSelected (s : Atci F) : Atci F :=
  if s.config.flags.monitorTcMacro then
    { s with tcMacroRunning := true }.setKeepoutState false .toolMacro
  else s

/-- `pinHigh` is what `DIGITAL_IN` reads of the rack sensor, which pulls the pin low. -/
def Atci.keepoutToolChanged (s : Atci F) (pinHigh : Bool) : Atci F :=
  if s.config.flags.monitorTcMacro then
    let rackIsInstalled := !pinHigh
    { s with tcMacroRunning := false }.setKeepoutState rackIsInstalled .rack
  else s

def Atci.pollRackSensor (s : Atci F) (pinHigh : Bool) : Atci F :=
  if s.config.flags.monitorRackPresence then
    let currentPinIsLow := !pinHigh
    if currentPinIsLow ≠ s.atci.lastPinState then
      { s with atci := { s.atci with lastPinState := currentPinIsLow } }.setKeepoutState
        currentPinIsLow .rack
    else s
  else s

def Atci.atciSetKeepoutEnabled (s : Atci F) (enabled : Bool) : Atci F :=
  s.setKeepoutState enabled .toolMacro

variable [CFloat F]

def Atci.keepoutSet (s : Atci F) : Atci F :=
  { s with
    atci := { s.atci with
      xMin := fminf s.config.xMin s.config.xMax
      xMax := fmaxf s.config.xMin s.config.xMax
      yMin := fminf s.config.yMin s.config.yMax
      yMax := fmaxf s.config.yMin s.config.yMax } }

def Atci.atciSave (s : Atci F) : Atci F :=
  let s := s.keepoutSet
  { s with image := s.config }

def Atci.atciRestore (s : Atci F) : Atci F :=
  let config : AtciConfig F := ⟨literal 10, literal 10, literal 50, literal 50, ⟨0⟩⟩
  { s with
    config := config
    atci := { s.atci with enabled := true, source := .startup, lastPinState := false }
    image := config }

/-- `atci_load`, with the bytes that `memcpy_from_nvs` delivers if it reports
`NVS_TransferResult_OK`. -/
def Atci.atciLoad (s : Atci F) (transfer : Option (AtciConfig F)) : Atci F :=
  let s := match transfer with
    | some config => { s with config := config }
    | none => s.atciRestore
  { s.keepoutSet.setKeepoutState true .startup with tcMacroRunning := false }

end State

/-- What the parser block holds of an M-code: its number, whether it has a P word, and P. -/
structure ParserBlock where
  userMcode : Nat
  wordsP : Bool
  valuesP : ℚ
  deriving DecidableEq

/-- `user_mcode.validate` of the handlers before: a status and the block it leaves. -/
abbrev ValidateHook := ParserBlock → StatusCode × ParserBlock

def mcodeValidate (prev : Option ValidateHook) (gcBlock : ParserBlock) : StatusCode × ParserBlock :=
  if gcBlock.userMcode = 960 then
    if gcBlock.wordsP then
      (if gcBlock.valuesP ≠ 0 ∧ gcBlock.valuesP ≠ 1 then .gcodeValueOutOfRange else .ok,
        { gcBlock with wordsP := false })
    else (.ok, gcBlock)
  else
    match prev with
    | some hook => hook gcBlock
    | none => (.unhandled, gcBlock)

/-- `mcode_execute`, which leaves the state to the previous handler for any other M-code. -/
def Atci.mcodeExecute {F : Type} (s : Atci F) (checkMode : Bool) (gcBlock : ParserBlock) :
    Atci F × List Message :=
  if gcBlock.userMcode ≠ 960 then (s, [])
  else if checkMode then (s, [])
  else if gcBlock.wordsP then (s.setKeepoutState (gcBlock.valuesP = 1) .command, [])
  else (s, [⟨"Use M960 P1 to enable Sienci ATC Keepout, M960 P0 to disable.", .info⟩])

section State

variable {F : Type}

@[simp] theorem setKeepoutState_eq (s : Atci F) (newState : Bool) (eventSource : KeepoutSource) :
    s.setKeepoutState newState eventSource =
      { s with atci := { s.atci with enabled := newState, source := eventSource } } := by
  unfold Atci.setKeepoutState
  split
  next => rfl
  next same =>
    obtain ⟨enabled, source⟩ := not_or.mp same
    rw [← not_not.mp enabled, ← not_not.mp source]

theorem pollRackSensor_enabled {s : Atci F} (monitored : s.config.flags.monitorRackPresence = true)
    (pinHigh : Bool) : (s.pollRackSensor pinHigh).atci.enabled =
      if (!pinHigh) = s.atci.lastPinState then s.atci.enabled else !pinHigh := by
  unfold Atci.pollRackSensor
  by_cases same : (!pinHigh) = s.atci.lastPinState <;> simp [monitored, same]

theorem pollRackSensor_config (s : Atci F) (pinHigh : Bool) :
    (s.pollRackSensor pinHigh).config = s.config := by
  unfold Atci.pollRackSensor
  by_cases same : (!pinHigh) = s.atci.lastPinState
  · simp [same]
  · cases s.config.flags.monitorRackPresence <;> simp [same]

theorem keepoutToolSelected_config (s : Atci F) : s.keepoutToolSelected.config = s.config := by
  unfold Atci.keepoutToolSelected
  split <;> simp

theorem keepoutToolChanged_config (s : Atci F) (pinHigh : Bool) :
    (s.keepoutToolChanged pinHigh).config = s.config := by
  unfold Atci.keepoutToolChanged
  split <;> simp

end State

end GrblhalSim
