import Mathlib.Data.List.TakeWhile

namespace GrblhalSim

def ascii (text : String) : List UInt8 := text.toList.map fun c => UInt8.ofNat c.toNat

/-- What a C string function sees of a buffer: the bytes before the first NUL. -/
def cString (buf : List UInt8) : List UInt8 := buf.takeWhile (· ≠ 0)

/-- A string as C has it: what stands before the terminating NUL. -/
structure CString where
  bytes : List UInt8
  noNul : 0 ∉ bytes
  deriving DecidableEq

theorem cString_noNul (buf : List UInt8) : 0 ∉ cString buf := by
  intro h
  simpa using List.mem_takeWhile_imp h

theorem cString_of_noNul {buf : List UInt8} (h : 0 ∉ buf) : cString buf = buf := by
  refine List.takeWhile_eq_self_iff.mpr fun c hc => ?_
  simp only [decide_eq_true_eq]
  rintro rfl
  exact h hc

theorem cString_terminated {text : List UInt8} (h : 0 ∉ text) (rest : List UInt8) :
    cString (text ++ 0 :: rest) = text := by
  have all : ∀ c ∈ text, decide (c ≠ 0) = true := by
    intro c hc
    simp only [decide_eq_true_eq]
    rintro rfl
    exact h hc
  rw [cString, List.takeWhile_append_of_pos all]
  simp

theorem cString_append_zeros (text : List UInt8) (n : Nat) :
    cString (text ++ List.replicate n 0) = cString text := by
  rw [cString, cString, List.takeWhile_append]
  have none : (List.replicate n (0 : UInt8)).takeWhile (· ≠ 0) = [] := by
    simp
  split
  next whole =>
    rw [none, List.append_nil]
    exact ((List.takeWhile_prefix _).eq_of_length whole).symm
  next => rfl

def CString.empty : CString := ⟨[], List.not_mem_nil⟩

def CString.ofBuffer (buf : List UInt8) : CString := ⟨cString buf, cString_noNul buf⟩

end GrblhalSim
