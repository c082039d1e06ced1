import GrblhalSim.CallRun
import GrblhalSim.EepromModel
import Mathlib.Logic.Function.Basic

namespace GrblhalSim

open CallRun

inductive EepromOp
  | getChar (addr : UInt32)
  | putChar (addr : UInt32) (newValue : UInt8)
  | memcpyTo (destination : UInt32) (source : List UInt8) (withChecksum : Bool)
  | memcpyFrom (source : UInt32) (size : Nat) (withChecksum : Bool)
  | close

/-- The bytes that a call reads, and the state it leaves. -/
def EepromOp.apply (op : EepromOp) (s : Eeprom) : List UInt8 × Eeprom :=
  match op with
  | .getChar addr => ([(s.eepromGetChar addr).1], (s.eepromGetChar addr).2)
  | .putChar addr newValue => ([], s.eepromPutChar addr newValue)
  | .memcpyTo destination source withChecksum =>
    ([], (s.memcpyToEeprom destination source withChecksum).2)
  | .memcpyFrom source size withChecksum => (s.memcpyFromEeprom source size withChecksum).2
  | .close => ([], s.eepromClose)

section Store

/-- A store of bytes, as the EEPROM is to be one: a byte at every address. -/
abbrev ByteStore := UInt32 → UInt8

/-- What a file holds; addresses behind its end read 0xFF. -/
def fileStore : Option EepromBytes → ByteStore
  | some bytes => byteAt bytes
  | none => fun _ => 0xFF

/-- A write, which has no effect behind the end. -/
def ByteStore.write (m : ByteStore) (w : UInt32 × UInt8) : ByteStore :=
  if w.1.toNat < eepromSize then Function.update m w.1 w.2 else m

def blockWrites (destination : UInt32) : List UInt8 → List (UInt32 × UInt8)
  | [] => []
  | b :: source => (destination, b) :: blockWrites (destination + 1) source

def blockAddresses (source : UInt32) : Nat → List UInt32
  | 0 => []
  | size + 1 => source :: blockAddresses (source + 1) size

def EepromOp.writes : EepromOp → List (UInt32 × UInt8)
  | .putChar addr newValue => [(addr, newValue)]
  | .memcpyTo destination source withChecksum =>
    blockWrites destination source ++
      if withChecksum then
        [(destination + UInt32.ofNat source.length, calcChecksum source source.length)]
      else []
  | _ => []

def EepromOp.reads : EepromOp → List UInt32
  | .getChar addr => [addr]
  | .memcpyFrom source size _ => blockAddresses source size
  | _ => []

/-- A call within a process run, or the end of the run, at which the next one starts. -/
inductive EepromEvent
  | call (op : EepromOp)
  | exit

/-- The EEPROM, and what a store would hold after the same writes. -/
structure EepromRun where
  eeprom : Eeprom
  store : ByteStore

def eepromStep (s : EepromRun) (e : EepromEvent) : Except Unit EepromRun :=
  match e with
  | .call op => .ok ⟨(op.apply s.eeprom).2, op.writes.foldl ByteStore.write s.store⟩
  | .exit => .ok ⟨Eeprom.start s.eeprom.eepromClose.file, s.store⟩

/-- A call reads what the store holds, which is 0xFF behind the end, and the end of a run leaves
it in the file. -/
def ReadsBack (s : EepromRun) : EepromEvent → Prop
  | .call op => (op.apply s.eeprom).1 = op.reads.map s.store ∧
      ∀ addr : UInt32, eepromSize ≤ addr.toNat → s.store addr = 0xFF
  | .exit => fileStore s.eeprom.eepromClose.file = s.store

/-- A call that writes below the end comes after a read of the same run. -/
def ReadFirst (s : EepromRun) : EepromEvent → Prop
  | .call op => ∀ w ∈ op.writes, w.1.toNat < eepromSize → s.eeprom.loaded = true
  | .exit => True

/-- The array holds the store once it is loaded, and the file while there is nothing to save. -/
structure Holds (s : EepromRun) : Prop where
  loaded : s.eeprom.loaded = true → byteAt s.eeprom.eeprom = s.store
  clean : s.eeprom.dirty = false → fileStore s.eeprom.file = s.store
  unread : s.eeprom.loaded = false → s.eeprom.dirty = false

end Store

theorem byteAt_blank (addr : UInt32) : byteAt (Vector.replicate eepromSize 0xFF) addr = 0xFF := by
  unfold byteAt
  split <;> simp

theorem byteAt_load (s : Eeprom) : byteAt s.eepromLoad.eeprom = fileStore s.file := by
  unfold Eeprom.eepromLoad
  cases s.file with
  | some bytes => rfl
  | none => exact funext byteAt_blank

theorem Holds.start (file : Option EepromBytes) : Holds ⟨Eeprom.start file, fileStore file⟩ :=
  ⟨fun loaded => absurd loaded Bool.false_ne_true, fun _ => rfl, fun _ => rfl⟩

theorem fileStore_behind (file : Option EepromBytes) {addr : UInt32}
    (behind : eepromSize ≤ addr.toNat) : fileStore file addr = 0xFF := by
  cases file with
  | some bytes => exact dif_neg (Nat.not_lt.mpr behind)
  | none => rfl

theorem Holds.behind {s : EepromRun} (h : Holds s) {addr : UInt32}
    (behind : eepromSize ≤ addr.toNat) : s.store addr = 0xFF := by
  cases loaded : s.eeprom.loaded with
  | true =>
    rw [← h.loaded loaded]
    exact dif_neg (Nat.not_lt.mpr behind)
  | false =>
    rw [← h.clean (h.unread loaded)]
    exact fileStore_behind s.eeprom.file behind

theorem load_keeps (s : Eeprom) : s.eepromLoad.file = s.file ∧ s.eepromLoad.dirty = s.dirty := by
  unfold Eeprom.eepromLoad
  cases s.file <;> exact ⟨rfl, rfl⟩

theorem Holds.getChar {e : Eeprom} {m : ByteStore} (h : Holds ⟨e, m⟩) (addr : UInt32) :
    (e.eepromGetChar addr).1 = m addr ∧ Holds ⟨(e.eepromGetChar addr).2, m⟩ := by
  unfold Eeprom.eepromGetChar
  cases loaded : e.loaded with
  | true =>
    simp only [if_true]
    exact ⟨congrFun (h.loaded loaded) addr, h⟩
  | false =>
    have clean := h.unread loaded
    obtain ⟨file, dirty⟩ := load_keeps e
    have contents : byteAt e.eepromLoad.eeprom = m := (byteAt_load e).trans (h.clean clean)
    simp only [Bool.false_eq_true, if_false]
    refine ⟨congrFun contents addr, fun _ => contents, fun _ => ?_, fun unread => ?_⟩
    · show fileStore e.eepromLoad.file = m
      rw [file]
      exact h.clean clean
    · exact absurd unread.symm Bool.false_ne_true

theorem Holds.getChars {e : Eeprom} {m : ByteStore} (h : Holds ⟨e, m⟩) (source : UInt32)
    (size : Nat) : (e.getChars source size).1 = (blockAddresses source size).map m ∧
      Holds ⟨(e.getChars source size).2, m⟩ := by
  induction size generalizing e source with
  | zero => exact ⟨rfl, h⟩
  | succ size ih =>
    obtain ⟨byte, h'⟩ := h.getChar source
    obtain ⟨bytes, h''⟩ := ih h' (source + 1)
    exact ⟨congrArg₂ List.cons byte bytes, h''⟩

theorem Holds.putChar {e : Eeprom} {m : ByteStore} (h : Holds ⟨e, m⟩) (w : UInt32 × UInt8)
    (read : w.1.toNat < eepromSize → e.loaded = true) :
    Holds ⟨e.eepromPutChar w.1 w.2, m.write w⟩ ∧ (e.eepromPutChar w.1 w.2).loaded = e.loaded := by
  by_cases inside : w.1.toNat < eepromSize
  · have contents : byteAt e.eeprom = m := h.loaded (read inside)
    have written : byteAt (e.eepromPutChar w.1 w.2).eeprom = m.write w := by
      funext other
      rw [byteAt_put, ByteStore.write, if_pos inside, Function.update_apply, contents]
      simp only [inside, true_and]
    have dirty : (e.eepromPutChar w.1 w.2).dirty = true := by
      rw [Eeprom.eepromPutChar, dif_pos inside]
    have loaded : (e.eepromPutChar w.1 w.2).loaded = e.loaded := by
      rw [Eeprom.eepromPutChar, dif_pos inside]
    refine ⟨⟨fun _ => written, fun clean => ?_, fun unread => ?_⟩, loaded⟩
    · exact Bool.noConfusion (dirty.symm.trans clean)
    · exact Bool.noConfusion ((read inside).symm.trans (loaded.symm.trans unread))
  · rw [Eeprom.eepromPutChar, dif_neg inside, ByteStore.write, if_neg inside]
    exact ⟨h, rfl⟩

theorem Holds.writes {e : Eeprom} {m : ByteStore} (h : Holds ⟨e, m⟩)
    {ws : List (UInt32 × UInt8)}
    (read : ∀ w ∈ ws, w.1.toNat < eepromSize → e.loaded = true) :
    Holds ⟨ws.foldl (fun e w => e.eepromPutChar w.1 w.2) e, ws.foldl ByteStore.write m⟩ := by
  induction ws generalizing e m with
  | nil => exact h
  | cons w ws ih =>
    obtain ⟨first, later⟩ := List.forall_mem_cons.mp read
    obtain ⟨h', loaded⟩ := h.putChar w first
    exact ih h' fun v hv inside => loaded.trans (later v hv inside)

theorem putChars_writes (e : Eeprom) (destination : UInt32) (source : List UInt8) :
    e.putChars destination source =
      (blockWrites destination source).foldl (fun e w => e.eepromPutChar w.1 w.2) e := by
  induction source generalizing e destination with
  | nil => rfl
  | cons b source ih => exact ih _ _

theorem memcpyTo_writes (e : Eeprom) (destination : UInt32) (source : List UInt8)
    (withChecksum : Bool) : (e.memcpyToEeprom destination source withChecksum).2 =
      (EepromOp.memcpyTo destination source withChecksum).writes.foldl
        (fun e w => e.eepromPutChar w.1 w.2) e := by
  rw [EepromOp.writes, List.foldl_append, ← putChars_writes]
  cases withChecksum <;> rfl

theorem Holds.close {e : Eeprom} {m : ByteStore} (h : Holds ⟨e, m⟩) :
    Holds ⟨e.eepromClose, m⟩ ∧ fileStore e.eepromClose.file = m := by
  unfold Eeprom.eepromClose
  cases dirty : e.dirty with
  | false =>
    simp only [Bool.false_eq_true, if_false]
    exact ⟨h, h.clean dirty⟩
  | true =>
    have loaded : e.loaded = true := by
      by_contra unread
      exact Bool.noConfusion (dirty.symm.trans (h.unread (Bool.eq_false_iff.mpr unread)))
    simp only [if_true]
    exact ⟨⟨h.loaded, fun _ => h.loaded loaded, fun _ => rfl⟩, h.loaded loaded⟩

theorem Holds.call {e : Eeprom} {m : ByteStore} (h : Holds ⟨e, m⟩) (op : EepromOp)
    (read : ∀ w ∈ op.writes, w.1.toNat < eepromSize → e.loaded = true) :
    (op.apply e).1 = op.reads.map m ∧
      Holds ⟨(op.apply e).2, op.writes.foldl ByteStore.write m⟩ := by
  cases op with
  | getChar addr =>
    obtain ⟨byte, h'⟩ := h.getChar addr
    exact ⟨congrArg (fun b => [b]) byte, h'⟩
  | putChar addr newValue => exact ⟨rfl, h.writes read⟩
  | memcpyTo destination source withChecksum =>
    refine ⟨rfl, ?_⟩
    show Holds ⟨(e.memcpyToEeprom destination source withChecksum).2, _⟩
    rw [memcpyTo_writes]
    exact h.writes read
  | memcpyFrom source size withChecksum => exact h.getChars source size
  | close => exact ⟨rfl, h.close.1⟩

/-- If every process run reads before it first writes below the end, all runs over one file read
what was last written, in the run or before it. -/
theorem eeprom_reads_back (file : Option EepromBytes) (events : List EepromEvent)
    (readFirst : EachCall eepromStep ReadFirst ⟨Eeprom.start file, fileStore file⟩ events) :
    EachCall eepromStep ReadsBack ⟨Eeprom.start file, fileStore file⟩ events := by
  have kept : ∀ s e s', Holds s → ReadFirst s e → eepromStep s e = .ok s' → Holds s' := by
    intro s e s' h first hs
    cases e with
    | call op =>
      cases hs
      exact (h.call op first).2
    | exit =>
      cases hs
      have next := Holds.start s.eeprom.eepromClose.file
      rwa [h.close.2] at next
  have gives : ∀ s e, Holds s → ReadFirst s e → (ReadsBack s e ↔ True) := by
    intro s e h first
    cases e with
    | call op => exact iff_of_true ⟨(h.call op first).1, fun _ => h.behind⟩ trivial
    | exit => exact iff_of_true h.close.2 trivial
  exact (eachCall_iff kept gives (Holds.start file) readFirst).mpr
    (eachCall_all (fun _ _ => trivial) _ _)

theorem eeprom_reads_back_second_run : EachCall eepromStep ReadsBack
    ⟨Eeprom.start none, fileStore none⟩
    [.call (.getChar 0), .call (.putChar 0 0x55), .exit, .call (.getChar 0)] := by
  have no_write : ∀ (s : EepromRun) addr, ReadFirst s (.call (.getChar addr)) :=
    fun s addr w hw => absurd hw List.not_mem_nil
  refine eeprom_reads_back none _ ⟨no_write _ 0, ?_⟩
  rintro _ ⟨⟩
  refine ⟨fun w _ _ => rfl, ?_⟩
  rintro _ ⟨⟩
  exact ⟨trivial, fun s _ => ⟨no_write s 0, fun _ _ => trivial⟩⟩

/-- A process that writes a byte before it reads one. -/
theorem eeprom_loses_write : ¬EachCall eepromStep ReadsBack
    ⟨Eeprom.start none, fileStore none⟩ [.call (.putChar 0 0x55), .call (.getChar 0)] := by
  intro h
  have loaded : ((Eeprom.start none).eepromPutChar 0 0x55).loaded = false := by
    simp [Eeprom.eepromPutChar, Eeprom.start, eepromSize]
  have file : ((Eeprom.start none).eepromPutChar 0 0x55).file = none := by
    simp [Eeprom.eepromPutChar, Eeprom.start, eepromSize]
  have read : (((Eeprom.start none).eepromPutChar 0 0x55).eepromGetChar 0).1 = 0xFF := by
    simp [Eeprom.eepromGetChar, loaded, byteAt_load, file, fileStore]
  have written : ByteStore.write (fileStore none) (0, 0x55) 0 = 0x55 := by
    simp [ByteStore.write, eepromSize]
  have same : (((Eeprom.start none).eepromPutChar 0 0x55).eepromGetChar 0).1 =
      ByteStore.write (fileStore none) (0, 0x55) 0 := List.head_eq_of_cons_eq (h.2 _ rfl).1.1
  rw [read, written] at same
  revert same
  decide

end GrblhalSim
