import GrblhalSim.CallRun
import GrblhalSim.FsModel

namespace GrblhalSim

open CallRun

theorem slash_noNul : (0 : UInt8) ∉ [slash] := by decide

def slashString : CString := ⟨[slash], slash_noNul⟩

def CString.append (s t : CString) : CString :=
  ⟨s.bytes ++ t.bytes, fun h => (List.mem_append.mp h).elim s.noNul t.noNul⟩

/-- The first `n` characters, as `strncpy` copies them. -/
def CString.take (s : CString) (n : Nat) : CString :=
  ⟨s.bytes.take n, fun h => s.noNul (List.mem_of_mem_take h)⟩

def simCwdSize : Nat := 256

def CString.isAbsolute (p : CString) : Bool := p.bytes.head? = some slash

/-- `sim_cwd` after `sim_chdir`, which returns 0 always. -/
def simChdir (simCwd p : CString) : CString :=
  if p.isAbsolute then p.take (simCwdSize - 1)
  else if simCwd.bytes.length + p.bytes.length + 2 < simCwdSize then
    (if simCwd.bytes.getLast? ≠ some slash then simCwd.append slashString else simCwd).append p
  else simCwd

/-- The string that `sim_getcwd` gives, in memory of its own or in a buffer of the given size. -/
def simGetcwd (simCwd : CString) : Option Nat → CString
  | none => simCwd
  | some size => simCwd.take (size - 1)

def joinPath (directory p : CString) : CString :=
  if directory.bytes.getLast? = some slash then directory.append p
  else (directory.append slashString).append p

def changeDirectory (directory p : CString) : CString :=
  if p.isAbsolute then p else joinPath directory p

def chdirCall (simCwd p : CString) : Except Int CString := .ok (simChdir simCwd p)

def namesDirectory (directory p : CString) : Except Int CString := .ok (changeDirectory directory p)

/-- The operation on other paths. -/
def VfsOp.mapPaths (f : CString → CString) : VfsOp → VfsOp
  | .fopen filename mode => .fopen (f filename) mode
  | .rename source target => .rename (f source) (f target)
  | .unlink fn => .unlink (f fn)
  | .mkdir p => .mkdir (f p)
  | .rmdir p => .rmdir (f p)
  | .opendir path => .opendir (f path)
  | .stat fn => .stat (f fn)

/-- A relative name stands for the same host path as the name in the directory that `sim_getcwd`
gives, in every operation. -/
def CwdAgrees (simCwd : CString) : Prop :=
  ∀ op : VfsOp, (∀ p ∈ op.vfsPaths, p.isAbsolute = false) →
    op.hostCalls = (op.mapPaths (joinPath (simGetcwd simCwd none))).hostCalls

/-- After the call `sim_getcwd` gives the directory that the path names. -/
def Reports (simCwd p : CString) : Prop :=
  simGetcwd (simChdir simCwd p) none = changeDirectory (simGetcwd simCwd none) p

def CwdFits (directory p : CString) : Prop :=
  if p.isAbsolute then p.bytes.length ≤ simCwdSize - 1
  else directory.bytes.length + p.bytes.length + 2 < simCwdSize ∨
    p.bytes = [] ∧ directory.bytes.getLast? = some slash

theorem CString.ext_bytes {s t : CString} (h : s.bytes = t.bytes) : s = t := by
  cases s
  cases t
  cases h
  rfl

theorem CString.length_append (s t : CString) :
    (s.append t).bytes.length = s.bytes.length + t.bytes.length :=
  List.length_append

theorem length_slashString : slashString.bytes.length = 1 := rfl

theorem simChdir_room {simCwd p : CString} (relative : p.isAbsolute = false)
    (room : simCwd.bytes.length + p.bytes.length + 2 < simCwdSize) :
    simChdir simCwd p = joinPath simCwd p := by
  rw [simChdir, relative, if_neg Bool.false_ne_true, if_pos room, joinPath]
  by_cases ends : simCwd.bytes.getLast? = some slash
  · rw [if_pos ends, if_neg (Classical.not_not.mpr ends)]
  · rw [if_neg ends, if_pos ends]

theorem joinPath_same {directory p : CString} :
    directory = joinPath directory p ↔
      p.bytes = [] ∧ directory.bytes.getLast? = some slash := by
  rw [joinPath]
  split
  next ends =>
    constructor
    · intro same
      have lengths := congrArg (fun s : CString => s.bytes.length) same
      rw [CString.length_append] at lengths
      exact ⟨List.length_eq_zero_iff.mp (by omega), ends⟩
    · intro empty
      refine CString.ext_bytes ?_
      show directory.bytes = directory.bytes ++ p.bytes
      rw [empty.1, List.append_nil]
  next other =>
    refine iff_of_false (fun same => ?_) fun h => other h.2
    have lengths := congrArg (fun s : CString => s.bytes.length) same
    rw [CString.length_append, CString.length_append, length_slashString] at lengths
    omega

theorem reports_iff (simCwd p : CString) : Reports simCwd p ↔ CwdFits simCwd p := by
  have whole : simCwdSize = 256 := rfl
  rw [Reports, CwdFits, changeDirectory, simGetcwd, simGetcwd]
  cases absolute : p.isAbsolute with
  | true =>
    rw [simChdir, absolute, if_pos rfl, if_pos rfl, if_pos rfl]
    constructor
    · intro same
      have lengths := congrArg (fun s : CString => s.bytes.length) same
      simp only [CString.take, List.length_take] at lengths
      omega
    · intro fits
      exact CString.ext_bytes (List.take_of_length_le fits)
  | false =>
    rw [if_neg Bool.false_ne_true, if_neg Bool.false_ne_true]
    by_cases room : simCwd.bytes.length + p.bytes.length + 2 < simCwdSize
    · exact iff_of_true (simChdir_room absolute room) (Or.inl room)
    · rw [simChdir, absolute, if_neg Bool.false_ne_true, if_neg room, or_iff_right room]
      exact joinPath_same

theorem CString.isAbsolute_append {s : CString} (absolute : s.isAbsolute = true) (t : CString) :
    (s.append t).isAbsolute = true := by
  obtain ⟨bytes, noNul⟩ := s
  cases bytes with
  | nil => cases absolute
  | cons c bytes => exact absolute

/-- What has been set never gets empty, so that the last character of it is in the array. -/
theorem simChdir_absolute {simCwd : CString} (absolute : simCwd.isAbsolute = true) (p : CString) :
    (simChdir simCwd p).isAbsolute = true := by
  rw [simChdir]
  split
  next set =>
    obtain ⟨bytes, noNul⟩ := p
    cases bytes with
    | nil => cases set
    | cons c bytes => exact set
  next =>
    split
    next =>
      split
      next => exact CString.isAbsolute_append (CString.isAbsolute_append absolute _) p
      next => exact CString.isAbsolute_append absolute p
    next => exact absolute

theorem run_chdir (ps : List CString) :
    ∃ simCwd, run chdirCall slashString ps = .ok simCwd ∧ simCwd.isAbsolute = true :=
  run_ok (P := fun _ _ => True)
    (fun s p absolute _ => ⟨simChdir s p, rfl, simChdir_absolute absolute p⟩) rfl
    (eachCall_all (fun _ _ => trivial) slashString ps)

theorem joinPath_absolute {directory : CString} (absolute : directory.isAbsolute = true)
    (p : CString) : (joinPath directory p).isAbsolute = true := by
  rw [joinPath]
  split
  next => exact CString.isAbsolute_append absolute p
  next => exact CString.isAbsolute_append (CString.isAbsolute_append absolute slashString) p

theorem hostPath_absolute {p q : CString} (bytes : p.bytes = slash :: q.bytes)
    (relative : q.isAbsolute = false) : hostPath (some p) = hostPath (some q) := by
  have same : skipSlash (some p) = skipSlash (some q) := by
    have plain : ¬ q.bytes.head? = some slash := of_decide_eq_false relative
    rw [skipSlash, skipSlash, bytes, List.head?_cons, if_pos rfl, if_neg plain, List.tail_cons]
  rw [hostPath, makeHostPath, same]
  rfl

theorem joinPath_longer (directory p : CString) :
    directory.bytes.length + p.bytes.length ≤ (joinPath directory p).bytes.length := by
  rw [joinPath]
  split
  next => rw [CString.length_append]
  next =>
    rw [CString.length_append, CString.length_append]
    omega

theorem hostCalls_mapPaths {f : CString → CString} {op : VfsOp}
    (same : ∀ p ∈ op.vfsPaths, hostPath (some p) = hostPath (some (f p))) :
    op.hostCalls = (op.mapPaths f).hostCalls := by
  cases op with
  | rename source target =>
    rw [VfsOp.mapPaths, VfsOp.hostCalls, VfsOp.hostCalls, same source List.mem_cons_self,
      same target (List.mem_cons_of_mem source List.mem_cons_self)]
  | fopen p => rw [VfsOp.mapPaths, VfsOp.hostCalls, VfsOp.hostCalls, same p List.mem_cons_self]
  | unlink p => rw [VfsOp.mapPaths, VfsOp.hostCalls, VfsOp.hostCalls, same p List.mem_cons_self]
  | mkdir p => rw [VfsOp.mapPaths, VfsOp.hostCalls, VfsOp.hostCalls, same p List.mem_cons_self]
  | rmdir p => rw [VfsOp.mapPaths, VfsOp.hostCalls, VfsOp.hostCalls, same p List.mem_cons_self]
  | opendir p => rw [VfsOp.mapPaths, VfsOp.hostCalls, VfsOp.hostCalls, same p List.mem_cons_self]
  | stat p => rw [VfsOp.mapPaths, VfsOp.hostCalls, VfsOp.hostCalls, same p List.mem_cons_self]

def oneLetter : CString := .ofBuffer [0x78]

/-- A name stands for the same with the directory in front of it and on its own in the root only. -/
theorem agrees_iff {simCwd : CString} (absolute : simCwd.isAbsolute = true) :
    CwdAgrees simCwd ↔ simCwd = slashString := by
  constructor
  · intro agrees
    -- A short name is not cut, so that the lengths of its two host paths tell the directory.
    have calls := agrees (.unlink oneLetter) fun p inside => by
      rw [List.mem_singleton.mp inside]
      rfl
    have same : hostPath (some oneLetter) = hostPath (some (joinPath simCwd oneLetter)) := by
      injection calls with call
      injection call
    have started : (joinPath simCwd oneLetter).bytes.head? = some slash :=
      of_decide_eq_true (joinPath_absolute absolute oneLetter)
    have long := joinPath_longer simCwd oneLetter
    have lengths := congrArg List.length same
    have short : (hostPath (some oneLetter)).length = 8 := by decide +kernel
    have root : sdRoot.length = 6 := by decide +kernel
    rw [short, hostPath, makeHostPath, skipSlash, if_pos started, List.length_take,
      List.length_append, List.length_cons, List.length_tail, root] at lengths
    have one : oneLetter.bytes.length = 1 := by decide +kernel
    have size : hostPathSize = 600 := rfl
    obtain ⟨bytes, noNul⟩ := simCwd
    cases bytes with
    | nil => cases absolute
    | cons c bytes =>
      simp only [List.length_cons] at long
      have alone : bytes = [] := List.length_eq_zero_iff.mp (by omega)
      have first : c = slash := Option.some.inj (of_decide_eq_true absolute)
      refine CString.ext_bytes ?_
      show c :: bytes = [slash]
      rw [alone, first]
  · intro root op relative
    rw [root]
    refine hostCalls_mapPaths fun p inside => ?_
    have joined : (joinPath slashString p).bytes = slash :: p.bytes := rfl
    exact (hostPath_absolute joined (relative p inside)).symm

/-- The condition for a sequence of calls, from the root: there is room for all directories that
they name, and the last of them is the root. -/
theorem cwd_agreement_iff (ps : List CString) :
    (EachCall chdirCall Reports slashString ps ∧
      ∀ simCwd, run chdirCall slashString ps = .ok simCwd → CwdAgrees simCwd) ↔
    EachCall namesDirectory CwdFits slashString ps ∧
      run namesDirectory slashString ps = .ok slashString := by
  have named (directory p : CString) (fits : CwdFits directory p) :
      chdirCall directory p = namesDirectory directory p :=
    congrArg Except.ok ((reports_iff directory p).mpr fits)
  obtain ⟨each, same⟩ := eachCall_congr reports_iff named slashString ps
  rw [each]
  refine and_congr_right fun fits => ?_
  obtain ⟨last, reached, absolute⟩ := run_chdir ps
  rw [← same fits, reached]
  constructor
  · intro agrees
    rw [(agrees_iff absolute).mp (agrees last rfl)]
  · intro root simCwd ends
    obtain rfl : last = simCwd := Except.ok.inj ends
    exact (agrees_iff absolute).mpr (Except.ok.inj root)

/-- After a change to `macros` a file is still looked for in the root. -/
theorem macros_not_searched :
    ¬ (EachCall chdirCall Reports slashString [.ofBuffer (ascii "macros")] ∧
      ∀ simCwd, run chdirCall slashString [.ofBuffer (ascii "macros")] = .ok simCwd →
        CwdAgrees simCwd) := by
  intro claimed
  have calls := claimed.2 _ rfl (.fopen (.ofBuffer (ascii "P100.macro")) "r") fun p inside => by
    rw [List.mem_singleton.mp inside]
    decide +kernel
  have same : hostPath (some (.ofBuffer (ascii "P100.macro"))) =
      hostPath (some (joinPath (simChdir slashString (.ofBuffer (ascii "macros")))
        (.ofBuffer (ascii "P100.macro")))) := by
    injection calls with call
    injection call with path
  exact absurd same (by decide +kernel)

end GrblhalSim
