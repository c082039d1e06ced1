import GrblhalSim.EepromStore

namespace GrblhalSim

open CallRun

/-- `eeprom_close` with the outcome of its `fopen`. -/
def Eeprom.closeWith (opens : Bool) (s : Eeprom) : Eeprom :=
  if s.dirty then { s with file := if opens then some s.eeprom else s.file, dirty := false } else s

/-- A call that finds the file when it opens it, or a close that does not. -/
inductive SaveEvent
  | call (op : EepromOp)
  | closeFails

/-- The EEPROM, and whether a byte below its end has been written. -/
structure SaveRun where
  eeprom : Eeprom
  wrote : Bool

def EepromOp.writesInside (op : EepromOp) : Bool := op.writes.any fun w => w.1.toNat < eepromSize

def saveStep (s : SaveRun) : SaveEvent → Except Unit SaveRun
  | .call op => .ok ⟨(op.apply s.eeprom).2, s.wrote || op.writesInside⟩
  | .closeFails => .ok ⟨s.eeprom.closeWith false, s.wrote⟩

/-- A process after its first `eeprom_get_char`. -/
def SaveRun.start (file : Option EepromBytes) (addr : UInt32) : SaveRun :=
  ⟨((Eeprom.start file).eepromGetChar addr).2, false⟩

/-- Where something has been written and the file is not the array, this is noted in `dirty`. -/
def Noted (s : SaveRun) : Prop :=
  s.wrote = true → s.eeprom.file ≠ some s.eeprom.eeprom → s.eeprom.dirty = true

/-- A close that can open the file makes it equal to the array, once something has been written. -/
def SavesAll (s : SaveRun) : SaveEvent → Prop
  | .call .close => s.wrote = true → s.eeprom.eepromClose.file = some s.eeprom.eepromClose.eeprom
  | _ => True

/-- A close does not fail to open the file while that lacks something that was written. -/
def NothingUnsaved (s : SaveRun) : SaveEvent → Prop
  | .closeFails => s.eeprom.dirty = true → s.eeprom.file = some s.eeprom.eeprom
  | .call _ => True

structure SaveInv (s : SaveRun) : Prop where
  loaded : s.eeprom.loaded = true
  wrote : s.eeprom.dirty = true → s.wrote = true

theorem closeWith_true (s : Eeprom) : s.closeWith true = s.eepromClose := rfl

theorem getChar_loaded {e : Eeprom} (loaded : e.loaded = true) (addr : UInt32) :
    (e.eepromGetChar addr).2 = e := by
  rw [Eeprom.eepromGetChar, if_pos loaded]

theorem getChars_loaded {e : Eeprom} (loaded : e.loaded = true) (source : UInt32) (size : Nat) :
    (e.getChars source size).2 = e := by
  induction size generalizing source with
  | zero => rfl
  | succ size ih =>
    show ((e.eepromGetChar source).2.getChars (source + 1) size).2 = e
    rw [getChar_loaded loaded]
    exact ih (source + 1)

theorem putChar_keeps (e : Eeprom) (addr : UInt32) (newValue : UInt8) :
    (e.eepromPutChar addr newValue).file = e.file ∧
      (e.eepromPutChar addr newValue).loaded = e.loaded ∧
      (e.dirty = true → (e.eepromPutChar addr newValue).dirty = true) := by
  unfold Eeprom.eepromPutChar
  split
  next => exact ⟨rfl, rfl, fun _ => rfl⟩
  next => exact ⟨rfl, rfl, id⟩

theorem writes_keep (ws : List (UInt32 × UInt8)) (e : Eeprom) :
    (ws.foldl (fun e w => e.eepromPutChar w.1 w.2) e).file = e.file ∧
      (ws.foldl (fun e w => e.eepromPutChar w.1 w.2) e).loaded = e.loaded ∧
      (e.dirty = true → (ws.foldl (fun e w => e.eepromPutChar w.1 w.2) e).dirty = true) := by
  induction ws generalizing e with
  | nil => exact ⟨rfl, rfl, id⟩
  | cons w ws ih =>
    obtain ⟨file, loaded, dirty⟩ := ih (e.eepromPutChar w.1 w.2)
    obtain ⟨file', loaded', dirty'⟩ := putChar_keeps e w.1 w.2
    exact ⟨file.trans file', loaded.trans loaded', fun h => dirty (dirty' h)⟩

theorem writes_inside {ws : List (UInt32 × UInt8)} (e : Eeprom)
    (inside : ∃ w ∈ ws, w.1.toNat < eepromSize) :
    (ws.foldl (fun e w => e.eepromPutChar w.1 w.2) e).dirty = true := by
  obtain ⟨w, hw, hin⟩ := inside
  obtain ⟨before, behind, rfl⟩ := List.append_of_mem hw
  rw [List.foldl_append, List.foldl_cons]
  refine (writes_keep behind _).2.2 ?_
  rw [Eeprom.eepromPutChar, dif_pos hin]

theorem writes_outside {ws : List (UInt32 × UInt8)} (e : Eeprom)
    (outside : ∀ w ∈ ws, ¬ w.1.toNat < eepromSize) :
    ws.foldl (fun e w => e.eepromPutChar w.1 w.2) e = e := by
  induction ws with
  | nil => rfl
  | cons w ws ih =>
    obtain ⟨first, later⟩ := List.forall_mem_cons.mp outside
    rw [List.foldl_cons, Eeprom.eepromPutChar, dif_neg first, ih later]

theorem writesInside_iff (op : EepromOp) :
    op.writesInside = true ↔ ∃ w ∈ op.writes, w.1.toNat < eepromSize := by
  simp [EepromOp.writesInside]

/-- What a call does to a loaded EEPROM: nothing, a write below the end, or a close. -/
inductive CallEffect (e : Eeprom) : EepromOp → Eeprom → Prop
  | nothing {op : EepromOp} : op.writesInside = false → CallEffect e op e
  | write {op : EepromOp} {e' : Eeprom} : op.writesInside = true → e'.file = e.file →
      e'.loaded = e.loaded → e'.dirty = true → CallEffect e op e'
  | close : CallEffect e .close e.eepromClose

theorem apply_effect {e : Eeprom} (loaded : e.loaded = true) (op : EepromOp) :
    CallEffect e op (op.apply e).2 := by
  have written : ∀ op : EepromOp, CallEffect e op
      (op.writes.foldl (fun e w => e.eepromPutChar w.1 w.2) e) := by
    intro op
    cases inside : op.writesInside with
    | true =>
      obtain ⟨file, loaded, -⟩ := writes_keep op.writes e
      exact .write inside file loaded (writes_inside e ((writesInside_iff op).mp inside))
    | false =>
      have outside : ∀ w ∈ op.writes, ¬ w.1.toNat < eepromSize := by
        simpa [EepromOp.writesInside] using inside
      rw [writes_outside e outside]
      exact .nothing inside
  cases op with
  | getChar addr =>
    rw [EepromOp.apply, getChar_loaded loaded]
    exact .nothing rfl
  | putChar addr newValue => exact written (.putChar addr newValue)
  | memcpyTo destination source withChecksum =>
    rw [EepromOp.apply, memcpyTo_writes]
    exact written (.memcpyTo destination source withChecksum)
  | memcpyFrom source size withChecksum =>
    have same : (EepromOp.memcpyFrom source size withChecksum).apply e = e.getChars source size := rfl
    rw [same, getChars_loaded loaded]
    exact .nothing rfl
  | close => exact .close

theorem close_noted {s : SaveRun} (inv : SaveInv s) (noted : Noted s) :
    SaveInv ⟨s.eeprom.eepromClose, s.wrote⟩ ∧ Noted ⟨s.eeprom.eepromClose, s.wrote⟩ := by
  cases dirty : s.eeprom.dirty with
  | true =>
    rw [Eeprom.eepromClose, if_pos dirty]
    exact ⟨⟨inv.loaded, fun h => absurd h Bool.false_ne_true⟩, fun _ other => absurd rfl other⟩
  | false =>
    rw [Eeprom.eepromClose, if_neg (by simp [dirty])]
    exact ⟨inv, noted⟩

theorem closeFails_noted {s : SaveRun} (inv : SaveInv s) (noted : Noted s) :
    SaveInv ⟨s.eeprom.closeWith false, s.wrote⟩ ∧
      (Noted ⟨s.eeprom.closeWith false, s.wrote⟩ ↔ NothingUnsaved s .closeFails) := by
  cases dirty : s.eeprom.dirty with
  | true =>
    rw [Eeprom.closeWith, if_pos dirty]
    refine ⟨⟨inv.loaded, fun h => absurd h Bool.false_ne_true⟩, fun noted' _ => ?_, fun h _ => ?_⟩
    · by_contra other
      exact Bool.false_ne_true (noted' (inv.wrote dirty) other)
    · exact fun other => absurd (h dirty) other
  | false =>
    rw [Eeprom.closeWith, if_neg (by simp [dirty])]
    exact ⟨inv, iff_of_true noted fun h => absurd (dirty.symm.trans h) Bool.false_ne_true⟩

/-- A step keeps it noted what is unsaved exactly when it loses nothing. -/
theorem saveStep_noted {s : SaveRun} (inv : SaveInv s) (noted : Noted s) (event : SaveEvent) :
    ∃ s', saveStep s event = .ok s' ∧ SaveInv s' ∧ (Noted s' ↔ NothingUnsaved s event) := by
  cases event with
  | call op =>
    have effect := apply_effect inv.loaded op
    refine ⟨⟨(op.apply s.eeprom).2, s.wrote || op.writesInside⟩, rfl, ?_⟩
    generalize (op.apply s.eeprom).2 = e' at effect
    cases effect with
    | nothing none =>
      rw [none, Bool.or_false]
      exact ⟨inv, iff_of_true noted trivial⟩
    | write some _ loaded dirty =>
      rw [some, Bool.or_true]
      exact ⟨⟨loaded.trans inv.loaded, fun _ => rfl⟩, iff_of_true (fun _ _ => dirty) trivial⟩
    | close =>
      obtain ⟨inv', noted'⟩ := close_noted inv noted
      have none : EepromOp.close.writesInside = false := rfl
      rw [none, Bool.or_false]
      exact ⟨inv', iff_of_true noted' trivial⟩
  | closeFails =>
    obtain ⟨inv', agree⟩ := closeFails_noted inv noted
    exact ⟨_, rfl, inv', agree⟩

theorem savesAll_of_noted {s : SaveRun} (noted : Noted s) (event : SaveEvent) :
    SavesAll s event := by
  cases event with
  | closeFails => trivial
  | call op =>
    cases op with
    | close =>
      intro wrote
      unfold Eeprom.eepromClose
      split
      next => rfl
      next clean =>
        by_contra other
        exact clean (noted wrote other)
    | getChar | putChar | memcpyTo | memcpyFrom => trivial

theorem SaveInv.start (file : Option EepromBytes) (addr : UInt32) :
    SaveInv (.start file addr) := by
  have clean : (SaveRun.start file addr).eeprom.dirty = false := (load_keeps (Eeprom.start file)).2
  exact ⟨rfl, fun dirty => absurd (clean.symm.trans dirty) Bool.false_ne_true⟩

/-- In a run that begins with a read, what is unsaved stays noted exactly as long as no close fails
with something unsaved, and then every close that can open the file saves all. -/
theorem failed_save_keeps_iff (file : Option EepromBytes) (addr : UInt32)
    (events : List SaveEvent) :
    (EachState saveStep Noted (.start file addr) events ↔
      EachCall saveStep NothingUnsaved (.start file addr) events) ∧
    (EachCall saveStep NothingUnsaved (.start file addr) events →
      EachCall saveStep SavesAll (.start file addr) events) := by
  have inv := SaveInv.start file addr
  have noted : Noted (.start file addr) := fun wrote => absurd wrote Bool.false_ne_true
  refine ⟨eachState_iff (A := fun _ _ => True)
    (fun s event inv noted _ => saveStep_noted inv noted event) inv noted
    (eachCall_all (fun _ _ => trivial) _ _), fun nothing => ?_⟩
  have both : ∀ s event s', SaveInv s ∧ Noted s → NothingUnsaved s event →
      saveStep s event = .ok s' → SaveInv s' ∧ Noted s' := by
    rintro s event s' ⟨inv, noted⟩ h hs
    obtain ⟨t, ht, inv', agree⟩ := saveStep_noted inv noted event
    cases hs.symm.trans ht
    exact ⟨inv', agree.mpr h⟩
  exact (eachCall_iff both (fun s event h _ => iff_of_true (savesAll_of_noted h.2 event) trivial)
    ⟨inv, noted⟩ nothing).mpr (eachCall_all (fun _ _ => trivial) _ _)

/-- A write, a close that cannot open the file and one that can. -/
theorem failed_save_loses_write :
    ¬ EachCall saveStep SavesAll (.start none 0)
      [.call (.putChar 0 0x55), .closeFails, .call .close] := by
  intro h
  have wrote : (EepromOp.putChar 0 0x55).writesInside = true := by decide
  have saved := ((h.2 _ rfl).2 _ rfl).1 (by rw [wrote]; rfl)
  have dirty : ((SaveRun.start none 0).eeprom.eepromPutChar 0 0x55).dirty = true := by
    simp [Eeprom.eepromPutChar, eepromSize]
  have file := (putChar_keeps (SaveRun.start none 0).eeprom 0 0x55).1
  have closed : ((EepromOp.putChar 0 0x55).apply (SaveRun.start none 0).eeprom).2.closeWith false =
      { (SaveRun.start none 0).eeprom.eepromPutChar 0 0x55 with dirty := false } := if_pos dirty
  rw [closed] at saved
  cases file.symm.trans saved

end GrblhalSim
