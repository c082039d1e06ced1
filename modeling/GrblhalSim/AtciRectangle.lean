import GrblhalSim.AtciModel
import GrblhalSim.CallRun
import Mathlib.Order.WithBot

namespace GrblhalSim

open CallRun CFloat

/-- A C float: a number or an infinity, or NaN as `none`. -/
abbrev FloatValue := Option (WithBot (WithTop ℚ))

instance : CFloat FloatValue where
  fminf
    | some x, some y => some (min x y)
    | none, y => y
    | x, none => x
  fmaxf
    | some x, some y => some (max x y)
    | none, y => y
    | x, none => x
  literal q := some ((q : WithTop ℚ) : WithBot (WithTop ℚ))

/-- The comparison of C, which is false of NaN. -/
def FloatLe : FloatValue → FloatValue → Prop
  | some x, some y => x ≤ y
  | _, _ => False

theorem fminf_le_fmaxf (x y : FloatValue) :
    FloatLe (fminf x y) (fmaxf x y) ↔ ¬(x = none ∧ y = none) := by
  cases x <;> cases y <;> simp [FloatLe, fminf, fmaxf]

theorem fminf_literal {a b : ℚ} (h : a ≤ b) :
    fminf (literal a) (literal b) = (literal a : FloatValue) := by
  have le : ((a : WithTop ℚ) : WithBot (WithTop ℚ)) ≤ (b : WithTop ℚ) := by
    rwa [WithBot.coe_le_coe, WithTop.coe_le_coe]
  exact congrArg some (min_eq_left le)

theorem fmaxf_literal {a b : ℚ} (h : a ≤ b) :
    fmaxf (literal a) (literal b) = (literal b : FloatValue) := by
  have le : ((a : WithTop ℚ) : WithBot (WithTop ℚ)) ≤ (b : WithTop ℚ) := by
    rwa [WithBot.coe_le_coe, WithTop.coe_le_coe]
  exact congrArg some (max_eq_right le)

inductive RectangleEvent
  | setting (config : AtciConfig FloatValue)
  | restore
  | load (transfer : Option (AtciConfig FloatValue))

def rectangleStep (s : Atci FloatValue) (e : RectangleEvent) : Except Unit (Atci FloatValue) :=
  match e with
  | .setting config => .ok { s with config := config }.atciSave
  | .restore => .ok s.atciRestore
  | .load transfer => .ok (s.atciLoad transfer)

/-- The rectangle that the travel checks use is the one that the settings describe. -/
structure Enforced (s : Atci FloatValue) : Prop where
  xMin : s.atci.xMin = fminf s.config.xMin s.config.xMax
  xMax : s.atci.xMax = fmaxf s.config.xMin s.config.xMax
  yMin : s.atci.yMin = fminf s.config.yMin s.config.yMax
  yMax : s.atci.yMax = fmaxf s.config.yMin s.config.yMax
  xOrdered : FloatLe s.atci.xMin s.atci.xMax
  yOrdered : FloatLe s.atci.yMin s.atci.yMax

/-- Each axis has a limit that is not NaN. -/
structure AtciConfig.Usable (c : AtciConfig FloatValue) : Prop where
  x : ¬(c.xMin = none ∧ c.xMax = none)
  y : ¬(c.yMin = none ∧ c.yMax = none)

structure AtDefault (s : Atci FloatValue) : Prop where
  xMin : s.atci.xMin = literal 10
  xMax : s.atci.xMax = literal 50
  yMin : s.atci.yMin = literal 10
  yMax : s.atci.yMax = literal 50

/-- New settings are usable, and a restore finds the default rectangle enforced already. -/
def KeepsRectangle (s : Atci FloatValue) : RectangleEvent → Prop
  | .setting config => config.Usable
  | .restore => AtDefault s
  | .load transfer => ∀ config, transfer = some config → config.Usable

theorem enforced_of_set {s : Atci FloatValue} (xMin : s.atci.xMin = fminf s.config.xMin s.config.xMax)
    (xMax : s.atci.xMax = fmaxf s.config.xMin s.config.xMax)
    (yMin : s.atci.yMin = fminf s.config.yMin s.config.yMax)
    (yMax : s.atci.yMax = fmaxf s.config.yMin s.config.yMax) : Enforced s ↔ s.config.Usable := by
  constructor
  · intro h
    refine ⟨(fminf_le_fmaxf _ _).mp ?_, (fminf_le_fmaxf _ _).mp ?_⟩
    · exact xMin ▸ xMax ▸ h.xOrdered
    · exact yMin ▸ yMax ▸ h.yOrdered
  · intro h
    refine ⟨xMin, xMax, yMin, yMax, ?_, ?_⟩
    · rw [xMin, xMax]
      exact (fminf_le_fmaxf _ _).mpr h.x
    · rw [yMin, yMax]
      exact (fminf_le_fmaxf _ _).mpr h.y

theorem atciSave_enforced (s : Atci FloatValue) : Enforced s.atciSave ↔ s.config.Usable :=
  enforced_of_set rfl rfl rfl rfl

theorem default_usable (s : Atci FloatValue) : s.atciRestore.config.Usable :=
  ⟨fun h => Option.some_ne_none _ h.1, fun h => Option.some_ne_none _ h.1⟩

theorem atciLoad_enforced (s : Atci FloatValue) (transfer : Option (AtciConfig FloatValue)) :
    Enforced (s.atciLoad transfer) ↔ ∀ config, transfer = some config → config.Usable := by
  cases transfer with
  | none =>
    simp only [Atci.atciLoad, setKeepoutState_eq]
    refine (enforced_of_set rfl rfl rfl rfl).trans ?_
    exact iff_of_true (default_usable s) fun config h => by cases h
  | some config =>
    simp only [Atci.atciLoad, setKeepoutState_eq]
    refine (enforced_of_set rfl rfl rfl rfl).trans ?_
    constructor
    · rintro h _ ⟨⟩
      exact h
    · exact fun h => h config rfl

/-- `atci_restore` leaves the enforced rectangle alone. -/
theorem atciRestore_enforced (s : Atci FloatValue) : Enforced s.atciRestore ↔ AtDefault s := by
  have lower : fminf (literal 10) (literal 50) = (literal 10 : FloatValue) :=
    fminf_literal (by norm_num)
  have upper : fmaxf (literal 10) (literal 50) = (literal 50 : FloatValue) :=
    fmaxf_literal (by norm_num)
  constructor
  · intro h
    exact ⟨h.xMin.trans lower, h.xMax.trans upper, h.yMin.trans lower, h.yMax.trans upper⟩
  · intro h
    exact (enforced_of_set (s := s.atciRestore) (h.xMin.trans lower.symm) (h.xMax.trans upper.symm)
      (h.yMin.trans lower.symm) (h.yMax.trans upper.symm)).mpr (default_usable s)

/-- From an `atci_load` on, the enforced rectangle is the configured one exactly when the loaded
and the new settings are usable and each restore finds the default rectangle. -/
theorem rectangle_enforced_iff (s : Atci FloatValue) (transfer : Option (AtciConfig FloatValue))
    (events : List RectangleEvent) :
    EachState rectangleStep Enforced (s.atciLoad transfer) events ↔
      (∀ config, transfer = some config → config.Usable) ∧
        EachCall rectangleStep KeepsRectangle (s.atciLoad transfer) events := by
  have step : ∀ t e, Enforced t → ∃ t', rectangleStep t e = .ok t' ∧
      (Enforced t' ↔ KeepsRectangle t e) := by
    intro t e _
    cases e with
    | setting config => exact ⟨_, rfl, atciSave_enforced _⟩
    | restore => exact ⟨_, rfl, atciRestore_enforced t⟩
    | load later => exact ⟨_, rfl, atciLoad_enforced t later⟩
  have later : Enforced (s.atciLoad transfer) →
      (EachState rectangleStep Enforced (s.atciLoad transfer) events ↔
        EachCall rectangleStep KeepsRectangle (s.atciLoad transfer) events) := by
    intro first
    refine eachState_iff (fun t e (_ : True) good _ => ?_) trivial first
      (eachCall_all (fun _ _ => trivial) _ _)
    obtain ⟨t', hs, iff⟩ := step t e good
    exact ⟨t', hs, trivial, iff⟩
  constructor
  · intro h
    exact ⟨(atciLoad_enforced s transfer).mp h.first, (later h.first).mp h⟩
  · rintro ⟨usable, calls⟩
    exact (later ((atciLoad_enforced s transfer).mpr usable)).mpr calls

/-- A restore on its own, after settings that were not the default. -/
theorem restored_not_enforced :
    ¬EachState rectangleStep Enforced
      (Atci.atciLoad ⟨⟨none, none, none, none, ⟨0⟩⟩, ⟨none, none, none, none, false, .startup, false⟩,
          false, ⟨none, none, none, none, ⟨0⟩⟩⟩
        (some ⟨literal 0, literal 0, literal 5, literal 5, ⟨1⟩⟩))
      [.restore] := by
  intro h
  have default := (h.2 _ rfl).xMin
  revert default
  decide

end GrblhalSim
