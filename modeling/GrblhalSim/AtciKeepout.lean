import GrblhalSim.AtciModel
import GrblhalSim.CallRun

namespace GrblhalSim

open CallRun

section ToolChange

inductive ChangeEvent
  | poll (pinHigh : Bool)
  | toolSelected
  | toolChanged (pinHigh : Bool)

/-- The plugin, and whether a tool was selected that is not changed yet. -/
structure ChangeState (F : Type) where
  plugin : Atci F
  changing : Bool

variable {F : Type}

def changeStep (s : ChangeState F) (e : ChangeEvent) : Except Unit (ChangeState F) :=
  match e with
  | .poll pinHigh => .ok { s with plugin := s.plugin.pollRackSensor pinHigh }
  | .toolSelected => .ok ⟨s.plugin.keepoutToolSelected, true⟩
  | .toolChanged pinHigh => .ok ⟨s.plugin.keepoutToolChanged pinHigh, false⟩

structure ConfigFlags.Monitors (f : ConfigFlags) : Prop where
  plugin : f.pluginEnabled = true
  rack : f.monitorRackPresence = true
  tcMacro : f.monitorTcMacro = true

def OffDuringChange (s : ChangeState F) : Prop :=
  s.changing = true → s.plugin.isKeepoutActive = false

/-- A poll during the tool change does not see the rack come in. -/
def NoRackComesIn (s : ChangeState F) : ChangeEvent → Prop
  | .poll pinHigh => ¬(s.changing = true ∧ s.plugin.atci.lastPinState = false ∧ pinHigh = false)
  | _ => True

theorem isKeepoutActive_false {s : Atci F} (monitors : s.config.flags.Monitors) :
    s.isKeepoutActive = false ↔ s.atci.enabled = false := by
  rw [Atci.isKeepoutActive, monitors.plugin, Bool.true_and]

theorem keepoutToolSelected_enabled {s : Atci F} (monitors : s.config.flags.Monitors) :
    s.keepoutToolSelected.atci.enabled = false := by
  rw [Atci.keepoutToolSelected, if_pos monitors.tcMacro, setKeepoutState_eq]

theorem changeStep_off {s : ChangeState F} (monitors : s.plugin.config.flags.Monitors)
    (off : OffDuringChange s) (e : ChangeEvent) :
    ∃ s', changeStep s e = .ok s' ∧ s'.plugin.config.flags.Monitors ∧
      (OffDuringChange s' ↔ NoRackComesIn s e) := by
  cases e with
  | poll pinHigh =>
    have kept := pollRackSensor_config s.plugin pinHigh
    have monitors' : (s.plugin.pollRackSensor pinHigh).config.flags.Monitors := by rwa [kept]
    refine ⟨_, rfl, monitors', ?_⟩
    simp only [OffDuringChange, NoRackComesIn, isKeepoutActive_false monitors',
      pollRackSensor_enabled monitors.rack]
    by_cases changing : s.changing = true
    · have disabled := (isKeepoutActive_false monitors).mp (off changing)
      cases pinHigh <;> cases s.plugin.atci.lastPinState <;> simp [changing, disabled]
    · simp [changing]
  | toolSelected =>
    have monitors' : s.plugin.keepoutToolSelected.config.flags.Monitors := by
      rwa [keepoutToolSelected_config]
    refine ⟨_, rfl, monitors', iff_of_true (fun _ => ?_) trivial⟩
    exact (isKeepoutActive_false monitors').mpr (keepoutToolSelected_enabled monitors)
  | toolChanged pinHigh =>
    refine ⟨_, rfl, ?_, iff_of_true (fun changing => absurd changing Bool.false_ne_true) trivial⟩
    show (s.plugin.keepoutToolChanged pinHigh).config.flags.Monitors
    rwa [keepoutToolChanged_config]

variable [CFloat F]

/-- After `atci_load`, the keepout is off throughout every tool change exactly when no poll in
one sees the rack come in. -/
theorem keepout_off_iff (s : Atci F) (transfer : Option (AtciConfig F))
    (monitors : (s.atciLoad transfer).config.flags.Monitors) (events : List ChangeEvent) :
    EachState changeStep OffDuringChange ⟨s.atciLoad transfer, false⟩ events ↔
      EachCall changeStep NoRackComesIn ⟨s.atciLoad transfer, false⟩ events :=
  eachState_iff
    (fun s e (monitors : s.plugin.config.flags.Monitors) off _ => changeStep_off monitors off e)
    monitors (fun changing => absurd changing Bool.false_ne_true)
    (eachCall_all (fun _ _ => trivial) _ _)

end ToolChange

def allMonitored : AtciConfig ℚ := ⟨10, 10, 50, 50, ⟨0x07⟩⟩

/-- The static variables before anything was loaded. -/
def atciStatics : Atci ℚ :=
  ⟨⟨0, 0, 0, 0, ⟨0⟩⟩, ⟨0, 0, 0, 0, false, .startup, false⟩, false, ⟨0, 0, 0, 0, ⟨0⟩⟩⟩

theorem allMonitored_monitors :
    (atciStatics.atciLoad (some allMonitored)).config.flags.Monitors := by
  rw [Atci.atciLoad, setKeepoutState_eq]
  exact ⟨rfl, rfl, rfl⟩

theorem keepout_off_iff_empty_rack :
    EachState changeStep OffDuringChange ⟨atciStatics.atciLoad (some allMonitored), false⟩
      [.toolSelected, .poll true] := by
  refine (keepout_off_iff atciStatics (some allMonitored) allMonitored_monitors _).mpr ?_
  exact ⟨trivial, fun s _ => ⟨fun arrives => Bool.noConfusion arrives.2.2, fun _ _ => trivial⟩⟩

/-- The rack comes in after the tool was selected. -/
theorem keepout_on_in_change :
    ¬EachState changeStep OffDuringChange ⟨atciStatics.atciLoad (some allMonitored), false⟩
      [.toolSelected, .poll false] := by
  intro h
  have active := ((h.2 _ rfl).2 _ rfl) rfl
  revert active
  decide

/-- An M-code block on its way through the parser: `mcode_validate`, and `mcode_execute` on what it
leaves of the block if it accepts it. -/
def Atci.processMcode {F : Type} (s : Atci F) (prev : Option ValidateHook)
    (gcBlock : ParserBlock) : Atci F :=
  match mcodeValidate prev gcBlock with
  | (.ok, gcBlock) => (s.mcodeExecute false gcBlock).1
  | _ => s

section Requests

/-- What can ask for a keepout state; an M960 is given by whether it has a P word, and by P. -/
inductive KeepoutEvent (F : Type)
  | load (transfer : Option (AtciConfig F))
  | restore
  | poll (pinHigh : Bool)
  | toolSelected
  | toolChanged (pinHigh : Bool)
  | setKeepoutEnabled (enabled : Bool)
  | m960 (wordsP : Bool) (valuesP : ℚ)

/-- The plugin and the state that was last asked for. -/
structure RequestState (F : Type) where
  plugin : Atci F
  last : Option Bool

variable {F : Type}

def KeepoutEvent.asks (e : KeepoutEvent F) (s : Atci F) : Option Bool :=
  match e with
  | .load _ => some true
  | .restore => some true
  | .poll pinHigh =>
    if s.config.flags.monitorRackPresence ∧ (!pinHigh) ≠ s.atci.lastPinState then some (!pinHigh)
    else none
  | .toolSelected => if s.config.flags.monitorTcMacro then some false else none
  | .toolChanged pinHigh => if s.config.flags.monitorTcMacro then some (!pinHigh) else none
  | .setKeepoutEnabled enabled => some enabled
  | .m960 wordsP valuesP =>
    if wordsP ∧ (valuesP = 0 ∨ valuesP = 1) then some (decide (valuesP = 1)) else none

def FollowsRequest (s : RequestState F) : Prop := ∀ b, s.last = some b → s.plugin.atci.enabled = b

/-- An M960 that is accepted asks for the state that the keepout has. -/
def AsksNoChange (s : RequestState F) : KeepoutEvent F → Prop
  | .m960 wordsP valuesP => wordsP = true →
      (valuesP = 0 → s.plugin.atci.enabled = false) ∧ (valuesP = 1 → s.plugin.atci.enabled = true)
  | _ => True

variable [CFloat F]

def KeepoutEvent.apply (prev : Option ValidateHook) (e : KeepoutEvent F) (s : Atci F) : Atci F :=
  match e with
  | .load transfer => s.atciLoad transfer
  | .restore => s.atciRestore
  | .poll pinHigh => s.pollRackSensor pinHigh
  | .toolSelected => s.keepoutToolSelected
  | .toolChanged pinHigh => s.keepoutToolChanged pinHigh
  | .setKeepoutEnabled enabled => s.atciSetKeepoutEnabled enabled
  | .m960 wordsP valuesP => s.processMcode prev ⟨960, wordsP, valuesP⟩

def keepoutStep (prev : Option ValidateHook) (s : RequestState F) (e : KeepoutEvent F) :
    Except Unit (RequestState F) :=
  .ok ⟨e.apply prev s.plugin, (e.asks s.plugin).or s.last⟩

theorem mcodeValidate_ok (prev : Option ValidateHook) (valuesP : ℚ) :
    (mcodeValidate prev ⟨960, true, valuesP⟩).1 = .ok ↔ valuesP = 0 ∨ valuesP = 1 := by
  simp only [mcodeValidate, if_true, ite_eq_right_iff, reduceCtorEq, imp_false]
  tauto

omit [CFloat F] in
/-- `mcode_validate` clears the P word, so that `mcode_execute` never sees one. -/
theorem processMcode_m960 (prev : Option ValidateHook) (s : Atci F) (wordsP : Bool) (valuesP : ℚ) :
    s.processMcode prev ⟨960, wordsP, valuesP⟩ = s := by
  unfold Atci.processMcode
  cases wordsP with
  | false => simp [mcodeValidate, Atci.mcodeExecute]
  | true =>
    by_cases accepted : valuesP ≠ 0 ∧ valuesP ≠ 1
    · simp [mcodeValidate, accepted]
    · simp [mcodeValidate, accepted, Atci.mcodeExecute]

/-- Every other event sets the state that it asks for and leaves it alone if it asks for none. -/
theorem apply_enabled (prev : Option ValidateHook) (s : Atci F) {e : KeepoutEvent F}
    (other : ∀ wordsP valuesP, e ≠ .m960 wordsP valuesP) :
    (e.apply prev s).atci.enabled = (e.asks s).getD s.atci.enabled := by
  cases e with
  | load transfer => simp [KeepoutEvent.apply, KeepoutEvent.asks, Atci.atciLoad]
  | restore => rfl
  | poll pinHigh =>
    by_cases monitored : s.config.flags.monitorRackPresence = true
    · by_cases same : (!pinHigh) = s.atci.lastPinState
      · simp [KeepoutEvent.apply, KeepoutEvent.asks, pollRackSensor_enabled monitored, same]
      · simp [KeepoutEvent.apply, KeepoutEvent.asks, pollRackSensor_enabled monitored, same,
          monitored]
    · simp [KeepoutEvent.apply, KeepoutEvent.asks, Atci.pollRackSensor, monitored]
  | toolSelected =>
    cases monitored : s.config.flags.monitorTcMacro <;>
      simp [KeepoutEvent.apply, KeepoutEvent.asks, Atci.keepoutToolSelected, monitored]
  | toolChanged pinHigh =>
    cases monitored : s.config.flags.monitorTcMacro <;>
      simp [KeepoutEvent.apply, KeepoutEvent.asks, Atci.keepoutToolChanged, monitored]
  | setKeepoutEnabled enabled =>
    simp [KeepoutEvent.apply, KeepoutEvent.asks, Atci.atciSetKeepoutEnabled]
  | m960 wordsP valuesP => exact absurd rfl (other wordsP valuesP)

theorem keepoutStep_follows (prev : Option ValidateHook) {s : RequestState F}
    (follows : FollowsRequest s) (e : KeepoutEvent F) :
    FollowsRequest ⟨e.apply prev s.plugin, (e.asks s.plugin).or s.last⟩ ↔ AsksNoChange s e := by
  have others : (∀ wordsP valuesP, e ≠ .m960 wordsP valuesP) →
      FollowsRequest ⟨e.apply prev s.plugin, (e.asks s.plugin).or s.last⟩ := by
    intro other b hb
    show (e.apply prev s.plugin).atci.enabled = b
    rw [apply_enabled prev s.plugin other]
    cases asked : e.asks s.plugin with
    | none => exact follows b (by simpa [asked] using hb)
    | some c => simpa [asked] using hb
  cases e with
  | m960 wordsP valuesP =>
    simp only [FollowsRequest, AsksNoChange, KeepoutEvent.apply, processMcode_m960]
    by_cases asked : wordsP = true ∧ (valuesP = 0 ∨ valuesP = 1)
    · obtain ⟨word, rfl | rfl⟩ := asked
      · simp [KeepoutEvent.asks, word]
      · simp [KeepoutEvent.asks, word]
    · have none_asked : (KeepoutEvent.m960 wordsP valuesP).asks s.plugin = none := if_neg asked
      rw [none_asked]
      refine iff_of_true (fun b hb => follows b (by simpa using hb)) fun word => ?_
      obtain ⟨zero, one⟩ := not_or.mp fun p => asked ⟨word, p⟩
      exact ⟨fun p => absurd p zero, fun p => absurd p one⟩
  | _ => exact iff_of_true (others (by simp)) trivial

/-- The keepout follows the requests exactly when each accepted M960 asks for the state that it
finds; an M960 is accepted with P0 or P1 only, and without P it changes nothing. -/
theorem keepout_follows_iff (prev : Option ValidateHook) (s : Atci F)
    (events : List (KeepoutEvent F)) :
    (EachState (keepoutStep prev) FollowsRequest ⟨s, none⟩ events ↔
        EachCall (keepoutStep prev) AsksNoChange ⟨s, none⟩ events) ∧
      (∀ valuesP, (mcodeValidate prev ⟨960, true, valuesP⟩).1 = .ok ↔ valuesP = 0 ∨ valuesP = 1) ∧
      ∀ (t : Atci F) (valuesP : ℚ), t.processMcode prev ⟨960, false, valuesP⟩ = t := by
  refine ⟨?_, mcodeValidate_ok prev, fun t => processMcode_m960 prev t false⟩
  exact eachState_iff
    (fun s e (_ : True) follows _ => ⟨_, rfl, trivial, keepoutStep_follows prev follows e⟩) trivial
    (fun b asked => by cases asked) (eachCall_all (fun _ _ => trivial) _ _)

end Requests

theorem m960_not_followed :
    ¬EachState (keepoutStep none) FollowsRequest ⟨atciStatics, none⟩
      [.load none, .m960 true 0] := by
  intro h
  have disabled := ((h.2 _ rfl).2 _ rfl) false rfl
  revert disabled
  decide

end GrblhalSim
