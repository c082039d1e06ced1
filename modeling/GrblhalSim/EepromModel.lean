import Mathlib.Logic.Function.Iterate

namespace GrblhalSim

def eepromSize : Nat := 16384

abbrev EepromBytes := Vector UInt8 eepromSize

/-- The static variables of the EEPROM and the file it is kept in, if there is one. -/
structure Eeprom where
  eeprom : EepromBytes
  dirty : Bool
  loaded : Bool
  file : Option EepromBytes

/-- A new process, with its static variables as they are initialized. -/
def Eeprom.start (file : Option EepromBytes) : Eeprom :=
  ⟨Vector.replicate eepromSize 0, false, false, file⟩

def Eeprom.eepromLoad (s : Eeprom) : Eeprom :=
  match s.file with
  | some bytes => { s with eeprom := bytes }
  | none => { s with eeprom := Vector.replicate eepromSize 0xFF }

def Eeprom.eepromClose (s : Eeprom) : Eeprom :=
  if s.dirty then { s with file := some s.eeprom, dirty := false } else s

/-- The byte at an address of the array, and 0xFF behind it. -/
def byteAt (bytes : EepromBytes) (addr : UInt32) : UInt8 :=
  if h : addr.toNat < eepromSize then bytes[addr.toNat] else 0xFF

def Eeprom.eepromGetChar (s : Eeprom) (addr : UInt32) : UInt8 × Eeprom :=
  let s := if s.loaded then s else { s.eepromLoad with loaded := true }
  (byteAt s.eeprom addr, s)

def Eeprom.eepromPutChar (s : Eeprom) (addr : UInt32) (newValue : UInt8) : Eeprom :=
  if h : addr.toNat < eepromSize then
    { s with eeprom := s.eeprom.set addr.toNat newValue h, dirty := true }
  else s

def calcChecksum (_data : List UInt8) (size : Nat) : UInt8 :=
  (fun checksum : UInt8 => checksum <<< 1 ||| checksum >>> 7)^[size] 0

def Eeprom.putChars (s : Eeprom) (destination : UInt32) : List UInt8 → Eeprom
  | [] => s
  | b :: source => (s.eepromPutChar destination b).putChars (destination + 1) source

def Eeprom.memcpyToEeprom (s : Eeprom) (destination : UInt32) (source : List UInt8)
    (withChecksum : Bool) : Bool × Eeprom :=
  let s := s.putChars destination source
  let s := if withChecksum then
      s.eepromPutChar (destination + UInt32.ofNat source.length)
        (calcChecksum source source.length)
    else s
  (true, s)

/-- The loop of `memcpy_from_eeprom`, with the bytes that it delivers. -/
def Eeprom.getChars (s : Eeprom) (source : UInt32) : Nat → List UInt8 × Eeprom
  | 0 => ([], s)
  | size + 1 =>
    let (b, s) := s.eepromGetChar source
    let (destination, s) := s.getChars (source + 1) size
    (b :: destination, s)

/-- `memcpy_from_eeprom`: its result, the bytes it delivers, and the state it leaves. -/
def Eeprom.memcpyFromEeprom (s : Eeprom) (source : UInt32) (size : Nat) (_withChecksum : Bool) :
    Bool × List UInt8 × Eeprom :=
  (true, s.getChars source size)

theorem byteAt_put (s : Eeprom) (addr : UInt32) (newValue : UInt8) (other : UInt32) :
    byteAt (s.eepromPutChar addr newValue).eeprom other =
      if addr.toNat < eepromSize ∧ other = addr then newValue else byteAt s.eeprom other := by
  unfold Eeprom.eepromPutChar
  by_cases inside : addr.toNat < eepromSize
  · rw [dif_pos inside]
    by_cases same : other = addr
    · subst same
      rw [if_pos ⟨inside, rfl⟩]
      simp [byteAt, inside]
    · have apart : addr.toNat ≠ other.toNat := fun eq => same (UInt32.toNat_inj.mp eq.symm)
      rw [if_neg fun h => same h.2]
      simp [byteAt, apart]
  · rw [dif_neg inside, if_neg fun h => inside h.1]

theorem calcChecksum_zero (data : List UInt8) (size : Nat) : calcChecksum data size = 0 :=
  Function.iterate_fixed rfl size

/-- A block written with a checksum is read back, and no byte of it can change unnoticed. -/
structure DetectsChange (s : Eeprom) (a : UInt32) (d : List UInt8) : Prop where
  unchanged : ((s.memcpyToEeprom a d true).2.memcpyFromEeprom a d.length true).1 = true
  changed : ∀ i ≤ d.length, ∀ v,
    v ≠ byteAt (s.memcpyToEeprom a d true).2.eeprom (a + UInt32.ofNat i) →
    (((s.memcpyToEeprom a d true).2.eepromPutChar (a + UInt32.ofNat i) v).memcpyFromEeprom a
      d.length true).1 = false

/-- `memcpy_from_eeprom` does not look at the checksum. -/
theorem checksum_detects_nothing (s : Eeprom) (a : UInt32) (d : List UInt8) :
    ¬DetectsChange s a d := by
  intro h
  have different : ∀ b : UInt8, b + 1 ≠ b := by
    intro b same
    have values := congrArg UInt8.toNat same
    rw [UInt8.toNat_add] at values
    have := b.toNat_lt
    simp only [UInt8.reduceToNat] at values
    omega
  exact Bool.noConfusion (h.changed 0 (Nat.zero_le _) _ (different _))

theorem changed_byte_accepted : ¬DetectsChange (Eeprom.start none) 0 [1] := by
  intro h
  have stored : byteAt ((Eeprom.start none).memcpyToEeprom 0 [1] true).2.eeprom
      (0 + UInt32.ofNat 0) = 1 := by
    simp [Eeprom.memcpyToEeprom, Eeprom.putChars, byteAt_put, eepromSize]
  have different : (2 : UInt8) ≠ 1 := by decide
  exact Bool.noConfusion (h.changed 0 (Nat.zero_le _) 2 (stored ▸ different))

end GrblhalSim
