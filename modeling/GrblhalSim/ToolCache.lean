import GrblhalSim.CallRun
import GrblhalSim.ToolFile
import Mathlib.Data.List.OfFn

namespace GrblhalSim

open CallRun

/-- `TOOL_CACHE_SIZE`. -/
def toolCacheSize : Nat := 4

instance : NeZero toolCacheSize := ⟨by decide⟩

/-- The storage that the pointers in a `tool_table_entry_t` point into. -/
inductive ToolRef
  | entry (slot : Fin toolCacheSize)
  | unknown (slot : Fin toolCacheSize)
  | pocket0
  deriving DecidableEq

/-- `tool_table_entry_t`. -/
structure ToolTableEntry where
  data : Option ToolRef
  pocket : Int16
  name : Option ToolRef
  deriving DecidableEq

/-- The static storage of `getTool`; `tool` is `gc_state.tool`. -/
structure ToolCache where
  result : Fin toolCacheSize → ToolTableEntry
  entry : Fin toolCacheSize → ToolPocket
  unknown : Fin toolCacheSize → ToolData
  pocket0 : ToolPocket
  nextSlot : Fin toolCacheSize
  tool : Option ToolRef

/-- A call of `getTool`, with `pending_set_tool` if it is valid, `fs_available` and the bytes of
the table, unless it does not open. -/
structure ToolLookup where
  toolId : Int32
  pendingSetTool : Option ToolData
  fsAvailable : Bool
  table : Option (List UInt8)

def ToolTableEntry.null : ToolTableEntry := ⟨none, 0, none⟩

/-- The cache after `tooltable_init`, with no tool selected. -/
def ToolCache.initial : ToolCache where
  result _ := .null
  entry _ := ⟨0, ⟨0, fun _ => 0, 0⟩, .empty⟩
  unknown _ := ⟨0, fun _ => 0, 0⟩
  pocket0 := ⟨-1, ⟨0, fun _ => 0, 0⟩, .empty⟩
  nextSlot := 0
  tool := none

def ToolCache.read (c : ToolCache) : ToolRef → ToolData
  | .entry slot => (c.entry slot).tool
  | .unknown slot => c.unknown slot
  | .pocket0 => c.pocket0.tool

/-- `gc_state.tool->tool_id`. -/
def ToolCache.spindleTool (c : ToolCache) : Option Int32 :=
  c.tool.map fun ref => (c.read ref).toolId

/-- The slot's result is for this tool. -/
def ToolCache.Cached (c : ToolCache) (toolId : Int32) (slot : Fin toolCacheSize) : Prop :=
  ∃ ref, (c.result slot).data = some ref ∧ (c.read ref).toolId = toolId

/-- The slot's entry is for the tool in the spindle. -/
def ToolCache.Guarded (c : ToolCache) (slot : Fin toolCacheSize) : Prop :=
  c.spindleTool = some (c.entry slot).tool.toolId

instance (c : ToolCache) (toolId : Int32) (slot : Fin toolCacheSize) :
    Decidable (c.Cached toolId slot) :=
  decidable_of_iff ((c.result slot).data.any fun ref => (c.read ref).toolId = toolId) (by
    simp only [Option.any_eq_true, decide_eq_true_eq]
    exact Iff.rfl)

instance (c : ToolCache) (slot : Fin toolCacheSize) : Decidable (c.Guarded slot) :=
  inferInstanceAs (Decidable (_ = _))

/-- The loop that takes the next slot, `left` times more at most: the slot and `next_slot`. -/
def ToolCache.rotate (c : ToolCache) : Nat → Fin toolCacheSize →
    Fin toolCacheSize × Fin toolCacheSize
  | 0, next => (next, next + 1)
  | left + 1, next => if c.Guarded next then c.rotate left (next + 1) else (next, next + 1)

/-- The slot for a tool, and `next_slot` then. -/
def ToolCache.takeSlot (c : ToolCache) (toolId : Int32) : Fin toolCacheSize × Fin toolCacheSize :=
  match (List.finRange toolCacheSize).find? fun slot => c.Cached toolId slot with
  | some slot => (slot, c.nextSlot)
  | none => c.rotate (toolCacheSize - 1) c.nextSlot

def ToolCache.setResult (c : ToolCache) (slot : Fin toolCacheSize) (r : ToolTableEntry) : ToolCache :=
  { c with result := Function.update c.result slot r }

def ToolCache.setEntry (c : ToolCache) (slot : Fin toolCacheSize) (e : ToolPocket) : ToolCache :=
  { c with entry := Function.update c.entry slot e }

def ToolCache.setUnknown (c : ToolCache) (slot : Fin toolCacheSize) (data : ToolData) : ToolCache :=
  { c with unknown := Function.update c.unknown slot data }

@[simp] theorem ToolCache.read_setResult (c : ToolCache) (slot : Fin toolCacheSize)
    (r : ToolTableEntry) (ref : ToolRef) : (c.setResult slot r).read ref = c.read ref := by
  cases ref with
  | entry => rfl
  | unknown => rfl
  | pocket0 => rfl

@[simp] theorem ToolCache.read_setEntry (c : ToolCache) (slot : Fin toolCacheSize)
    (e : ToolPocket) (ref : ToolRef) :
    (c.setEntry slot e).read ref = if ref = .entry slot then e.tool else c.read ref := by
  cases ref with
  | entry i =>
    by_cases h : i = slot
    · simp [ToolCache.read, ToolCache.setEntry, h]
    · simp [ToolCache.read, ToolCache.setEntry, h]
  | unknown => rfl
  | pocket0 => rfl

@[simp] theorem ToolCache.read_setUnknown (c : ToolCache) (slot : Fin toolCacheSize)
    (data : ToolData) (ref : ToolRef) :
    (c.setUnknown slot data).read ref = if ref = .unknown slot then data else c.read ref := by
  cases ref with
  | entry => rfl
  | unknown i =>
    by_cases h : i = slot
    · simp [ToolCache.read, ToolCache.setUnknown, h]
    · simp [ToolCache.read, ToolCache.setUnknown, h]
  | pocket0 => rfl

@[simp] theorem ToolCache.read_nextSlot (c : ToolCache) (next : Fin toolCacheSize)
    (ref : ToolRef) : ({ c with nextSlot := next } : ToolCache).read ref = c.read ref := by
  cases ref with
  | entry => rfl
  | unknown => rfl
  | pocket0 => rfl

/-- The update that waits, if it is for the tool of the call. -/
def ToolLookup.pending (call : ToolLookup) : Option ToolData :=
  call.pendingSetTool.filter fun data => data.toolId = call.toolId

variable (core : GrblCore)

def ToolLookup.found (call : ToolLookup) : Option ToolPocket :=
  fileFind core .succeed call.toolId (some ⟨call.table, none⟩)

/-- `getTool`: the slot whose result it returns, and the cache then. -/
def getTool (c : ToolCache) (call : ToolLookup) : Fin toolCacheSize × ToolCache :=
  match call.pending with
  | some data =>
    (0, (c.setEntry 0 ⟨0, data, .empty⟩).setResult 0 ⟨some (.entry 0), 0, none⟩)
  | none =>
    let taken := c.takeSlot call.toolId
    let slot := taken.1
    let c := { c with nextSlot := taken.2 }
    match call.found core with
    | some e =>
      (slot, (c.setEntry slot e).setResult slot ⟨some (.entry slot), e.pocketId, some (.entry slot)⟩)
    | none =>
      if !call.fsAvailable then
        (slot, c.setResult slot ⟨some .pocket0, c.pocket0.pocketId, some .pocket0⟩)
      else
        (slot, (c.setUnknown slot ⟨call.toolId, fun _ => 0, 0⟩).setResult slot
          ⟨some (.unknown slot), 0, none⟩)

/-- `gc_state.tool` after a call that selects the tool. -/
def selectTool (c : ToolCache) (call : ToolLookup) : ToolCache :=
  let r := getTool core c call
  { r.2 with tool := (r.2.result r.1).data }

def getToolStep (c : ToolCache) (call : ToolLookup) : Except Unit ToolCache :=
  .ok (getTool core c call).2

def ToolCache.slotAfter (c : ToolCache) (n : Nat) : Fin toolCacheSize :=
  c.nextSlot + Fin.ofNat toolCacheSize n

/-- All slots from `next_slot` up to this one are for the tool in the spindle, and this one is not,
or is the last one left. -/
def ToolCache.RotatesTo (c : ToolCache) (slot : Fin toolCacheSize) : Prop :=
  ∃ n < toolCacheSize, slot = c.slotAfter n ∧ (∀ m < n, c.Guarded (c.slotAfter m)) ∧
    (c.Guarded slot → n + 1 = toolCacheSize)

/-- The slot is the first with a result for the tool or, where there is none, the one that the
rotation comes to. -/
def ToolCache.Takes (c : ToolCache) (toolId : Int32) (slot : Fin toolCacheSize) : Prop :=
  (c.Cached toolId slot ∧ ∀ i < slot, ¬ c.Cached toolId i) ∨
    ((∀ i, ¬ c.Cached toolId i) ∧ c.RotatesTo slot)

/-- The tool in the spindle is the one that is looked up, or the call writes elsewhere. -/
def SpindleSafe (c : ToolCache) (call : ToolLookup) : Prop :=
  c.spindleTool = some call.toolId ∨
    match c.tool with
    | none => True
    | some .pocket0 => True
    | some (.entry slot) =>
      if call.pending.isSome then slot ≠ 0
      else (call.found core).isSome → ¬ c.Takes call.toolId slot
    | some (.unknown slot) =>
      call.pending = none → call.found core = none → call.fsAvailable = true →
        ¬ c.Takes call.toolId slot

/-- Where a call writes tool data, and which. -/
inductive Fills (c : ToolCache) (call : ToolLookup) : ToolRef → ToolData → Prop
  | pending {data : ToolData} : call.pending = some data → Fills c call (.entry 0) data
  | found {slot : Fin toolCacheSize} {e : ToolPocket} : call.pending = none →
      c.Takes call.toolId slot → call.found core = some e → Fills c call (.entry slot) e.tool
  | unknown {slot : Fin toolCacheSize} : call.pending = none → c.Takes call.toolId slot →
      call.found core = none → call.fsAvailable = true →
      Fills c call (.unknown slot) ⟨call.toolId, fun _ => 0, 0⟩

variable {core}

theorem rotate_slot (c : ToolCache) (left : Nat) (next : Fin toolCacheSize) :
    ∃ n ≤ left, (c.rotate left next).1 = next + Fin.ofNat toolCacheSize n ∧
      (∀ m < n, c.Guarded (next + Fin.ofNat toolCacheSize m)) ∧
      (c.Guarded (next + Fin.ofNat toolCacheSize n) → n = left) := by
  have first : next + Fin.ofNat toolCacheSize 0 = next := by simp
  induction left generalizing next with
  | zero => exact ⟨0, le_refl 0, first.symm, fun m hm => absurd hm (Nat.not_lt_zero m), fun _ => rfl⟩
  | succ left ih =>
    rw [ToolCache.rotate]
    split
    next guarded =>
      obtain ⟨n, hn, hslot, before, last⟩ := ih (next + 1) (by simp)
      have shift (m : Nat) : next + Fin.ofNat toolCacheSize (m + 1) =
          next + 1 + Fin.ofNat toolCacheSize m := by
        apply Fin.ext
        simp [Fin.val_add, Nat.add_assoc, Nat.add_comm 1 m]
      refine ⟨n + 1, by omega, by rw [shift, hslot], fun m hm => ?_, fun h => ?_⟩
      · cases m with
        | zero => rwa [first]
        | succ m => rw [shift]; exact before m (by omega)
      · rw [shift] at h
        rw [last h]
    next free =>
      refine ⟨0, by omega, first.symm, fun m hm => absurd hm (Nat.not_lt_zero m), fun h => ?_⟩
      rw [first] at h
      exact absurd h free

/-- The rotation comes to one slot only. -/
theorem ToolCache.RotatesTo.unique {c : ToolCache} {i j : Fin toolCacheSize} (hi : c.RotatesTo i)
    (hj : c.RotatesTo j) : i = j := by
  obtain ⟨n, hn, rfl, beforeN, lastN⟩ := hi
  obtain ⟨m, hm, rfl, beforeM, lastM⟩ := hj
  rcases Nat.lt_trichotomy n m with h | h | h
  · have := lastN (beforeM n h)
    omega
  · rw [h]
  · have := lastM (beforeN m h)
    omega

theorem rotatesTo_rotate (c : ToolCache) :
    c.RotatesTo (c.rotate (toolCacheSize - 1) c.nextSlot).1 := by
  obtain ⟨n, hn, hslot, before, last⟩ := rotate_slot c (toolCacheSize - 1) c.nextSlot
  refine ⟨n, by omega, hslot, before, fun h => ?_⟩
  rw [hslot] at h
  have := last h
  omega

theorem ToolCache.Takes.unique {c : ToolCache} {toolId : Int32} {i j : Fin toolCacheSize}
    (hi : c.Takes toolId i) (hj : c.Takes toolId j) : i = j := by
  rcases hi with ⟨cached, first⟩ | ⟨none, hi⟩
  · rcases hj with ⟨cached', first'⟩ | ⟨none, -⟩
    · rcases lt_trichotomy i j with h | h | h
      · exact absurd cached (first' i h)
      · exact h
      · exact absurd cached' (first j h)
    · exact absurd cached (none i)
  · rcases hj with ⟨cached, -⟩ | ⟨-, hj⟩
    · exact absurd cached (none j)
    · exact hi.unique hj

theorem takes_takeSlot (c : ToolCache) (toolId : Int32) : c.Takes toolId (c.takeSlot toolId).1 := by
  unfold ToolCache.takeSlot
  split
  next slot hfind =>
    obtain ⟨cached, first⟩ := (List.find?_ofFn_eq_some_of_injective Function.injective_id).mp hfind
    refine Or.inl ⟨of_decide_eq_true cached, fun i hi => ?_⟩
    simpa using first i hi
  next hfind =>
    refine Or.inr ⟨fun i => ?_, rotatesTo_rotate c⟩
    have := List.find?_eq_none.mp hfind i (List.mem_finRange i)
    simpa using this

theorem Fills.toolId {c : ToolCache} {call : ToolLookup} {ref : ToolRef} {data : ToolData}
    (h : Fills core c call ref data) : data.toolId = call.toolId := by
  cases h with
  | pending pending =>
    have := Option.filter_eq_some_iff.mp pending
    simpa using this.2
  | found _ _ found =>
    have := List.find?_some (Option.bind_eq_some_iff.mp found).choose_spec.2
    simpa using this
  | unknown => rfl

theorem getTool_fills {c : ToolCache} {call : ToolLookup} {ref : ToolRef} {data : ToolData}
    (h : Fills core c call ref data) : (getTool core c call).2.read ref = data := by
  cases h with
  | pending pending => simp [getTool, pending]
  | found pending takes found =>
    rw [takes.unique (takes_takeSlot c call.toolId)]
    simp [getTool, pending, found]
  | unknown pending takes found available =>
    rw [takes.unique (takes_takeSlot c call.toolId)]
    simp [getTool, pending, found, available]

theorem getTool_keeps {c : ToolCache} {call : ToolLookup} {ref : ToolRef}
    (h : ∀ data, ¬ Fills core c call ref data) :
    (getTool core c call).2.read ref = c.read ref := by
  have takes := takes_takeSlot c call.toolId
  cases pending : call.pending with
  | some data =>
    have other : ref ≠ .entry 0 := fun he => h data (he ▸ .pending pending)
    simp [getTool, pending, other]
  | none =>
    cases found : call.found core with
    | some e =>
      have other : ref ≠ .entry (c.takeSlot call.toolId).1 :=
        fun he => h e.tool (he ▸ .found pending takes found)
      simp [getTool, pending, found, other]
    | none =>
      cases available : call.fsAvailable with
      | false => simp [getTool, pending, found, available]
      | true =>
        have other : ref ≠ .unknown (c.takeSlot call.toolId).1 :=
          fun he => h ⟨call.toolId, fun _ => 0, 0⟩ (he ▸ .unknown pending takes found available)
        simp [getTool, pending, found, available, other]

theorem getTool_tool (c : ToolCache) (call : ToolLookup) :
    (getTool core c call).2.tool = c.tool := by
  unfold getTool
  split
  next => rfl
  next =>
    split
    next => rfl
    next =>
      split
      next => rfl
      next => rfl

theorem getTool_spindleTool (c : ToolCache) (call : ToolLookup) :
    (getTool core c call).2.spindleTool =
      c.tool.map fun ref => ((getTool core c call).2.read ref).toolId := by
  rw [ToolCache.spindleTool, getTool_tool]

/-- Storage is spared exactly by the calls that do not fill it. -/
theorem fills_entry_iff {c : ToolCache} {call : ToolLookup} {slot : Fin toolCacheSize} :
    (∃ data, Fills core c call (.entry slot) data) ↔
      ¬ if call.pending.isSome then slot ≠ 0
        else (call.found core).isSome → ¬ c.Takes call.toolId slot := by
  cases pending : call.pending with
  | some data =>
    simp only [Option.isSome_some, if_true, not_not]
    constructor
    · rintro ⟨_, h⟩
      cases h with
      | pending => rfl
      | found none => simp [pending] at none
    · rintro rfl
      exact ⟨data, .pending pending⟩
  | none =>
    simp only [Option.isSome_none, Bool.false_eq_true, if_false, Classical.not_imp, not_not]
    constructor
    · rintro ⟨_, h⟩
      cases h with
      | pending some => simp [pending] at some
      | found _ takes found => exact ⟨by simp [found], takes⟩
    · rintro ⟨found, takes⟩
      obtain ⟨e, found⟩ := Option.isSome_iff_exists.mp found
      exact ⟨e.tool, .found pending takes found⟩

theorem fills_unknown_iff {c : ToolCache} {call : ToolLookup} {slot : Fin toolCacheSize} :
    (∃ data, Fills core c call (.unknown slot) data) ↔
      ¬ (call.pending = none → call.found core = none → call.fsAvailable = true →
        ¬ c.Takes call.toolId slot) := by
  simp only [Classical.not_imp, not_not]
  constructor
  · rintro ⟨_, h⟩
    cases h with
    | unknown pending takes found available => exact ⟨pending, found, available, takes⟩
  · rintro ⟨pending, found, available, takes⟩
    exact ⟨_, .unknown pending takes found available⟩

theorem spindleSafe_iff (c : ToolCache) (call : ToolLookup) :
    SpindleSafe core c call ↔
      c.spindleTool = some call.toolId ∨
        ∀ ref, c.tool = some ref → ¬ ∃ data, Fills core c call ref data := by
  refine or_congr_right ?_
  cases c.tool with
  | none => simp
  | some ref =>
    cases ref with
    | entry slot => simp only [Option.some.injEq, forall_eq', fills_entry_iff, not_not]
    | unknown slot => simp only [Option.some.injEq, forall_eq', fills_unknown_iff, not_not]
    | pocket0 =>
      simp only [Option.some.injEq, forall_eq', true_iff]
      rintro ⟨_, h⟩
      cases h

theorem getTool_spindleTool_iff (c : ToolCache) (call : ToolLookup) :
    (getTool core c call).2.spindleTool = c.spindleTool ↔ SpindleSafe core c call := by
  rw [spindleSafe_iff, getTool_spindleTool, ToolCache.spindleTool]
  cases c.tool with
  | none => simp
  | some ref =>
    simp only [Option.map_some, Option.some.injEq, forall_eq']
    by_cases filled : ∃ data, Fills core c call ref data
    · obtain ⟨data, fills⟩ := filled
      rw [getTool_fills fills, fills.toolId, or_iff_left (not_not_intro ⟨data, fills⟩)]
      exact eq_comm
    · rw [getTool_keeps (not_exists.mp filled)]
      exact iff_of_true rfl (Or.inr filled)

/-- As long as `gc_state.tool` is left alone, calls of `getTool` leave the tool in the spindle the
same exactly when each of them is safe. -/
theorem spindle_tool_kept_iff (core : GrblCore) (c : ToolCache) (calls : List ToolLookup) :
    EachState (getToolStep core) (fun s => s.spindleTool = c.spindleTool) c calls ↔
      EachCall (getToolStep core) (SpindleSafe core) c calls := by
  have agree : ∀ (s : ToolCache) (call : ToolLookup), True → s.spindleTool = c.spindleTool → True →
      ∃ s', getToolStep core s call = .ok s' ∧ True ∧
        (s'.spindleTool = c.spindleTool ↔ SpindleSafe core s call) := by
    intro s call _ same _
    refine ⟨_, rfl, trivial, ?_⟩
    rw [← same]
    exact getTool_spindleTool_iff s call
  exact eachState_iff agree trivial rfl (eachCall_all (fun _ _ => trivial) c calls)

/-- T5 is selected, from a table of one line. -/
def toolCacheWithT5 : ToolCache :=
  selectTool decimalCore .initial ⟨5, none, true, some [0x54, 0x35, 0x0A]⟩

/-- T7 is looked up while an update for it waits. -/
theorem pending_tool_replaces_spindle :
    toolCacheWithT5.spindleTool = some 5 ∧
      ¬ EachState (getToolStep decimalCore) (fun s => s.spindleTool = toolCacheWithT5.spindleTool)
        toolCacheWithT5 [⟨7, some ⟨7, fun _ => 0, 0⟩, true, some [0x54, 0x35, 0x0A]⟩] := by
  refine ⟨by decide, fun h => ?_⟩
  have after := (h.2 _ rfl).first
  revert after
  decide

end GrblhalSim
