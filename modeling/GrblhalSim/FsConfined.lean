import GrblhalSim.FsModel

namespace GrblhalSim

open PathResolve

variable {cwd : List FileName}

def Inside (cwd : List FileName) (path : List UInt8) : Prop :=
  sdRootPlace cwd <+: hostPlace cwd path

instance (cwd : List FileName) (path : List UInt8) : Decidable (Inside cwd path) :=
  inferInstanceAs (Decidable (_ <+: _))

/-- No other name on the card has the same host path. -/
def OwnPath (p : CString) : Prop :=
  ∀ q : CString, cardPlace q ≠ cardPlace p → hostPath (some q) ≠ hostPath (some p)

/-- The host path leads to the file of the name. -/
def OwnFile (cwd : List FileName) (p : CString) : Prop :=
  hostPlace cwd (hostPath (some p)) = sdRootPlace cwd ++ cardPlace p

/-- All host paths of the operation are on the card and stand for the names that it was given. -/
def OpConfined (cwd : List FileName) (op : VfsOp) : Prop :=
  (∀ call ∈ op.hostCalls, ∀ path ∈ call.paths, Inside cwd path) ∧
    ∀ p ∈ op.vfsPaths, OwnPath p ∧ OwnFile cwd p

def cancelled (p : CString) : Cancelled FileName := cancel (components (skipSlash (some p)))

/-- The host path is shorter than the buffer allows, so that no longer one was cut to it. -/
def Fits (p : CString) : Prop := sdRoot.length + 1 + (skipSlash (some p)).length < hostPathSize - 1

/-- No step up is left over. -/
def StaysOnCard (p : CString) : Prop := (cancelled p).ups = 0

theorem components_append_slash (path more : List UInt8) :
    components (path ++ slash :: more) = components path ++ components more := by
  rw [components, List.splitOn_append_cons_self, List.filterMap_append]
  rfl

theorem components_sdRoot : components sdRoot = [.name sdRoot] := by decide

theorem sdRootPlace_eq (cwd : List FileName) : sdRootPlace cwd = cwd ++ [sdRoot] := by
  have relative : sdRoot.head? ≠ some slash := by decide
  rw [sdRootPlace, hostPlace, if_neg relative, components_sdRoot]
  rfl

theorem components_skipSlash (p : CString) :
    components (skipSlash (some p)) = components p.bytes := by
  cases h : p.bytes with
  | nil => simp [skipSlash, h]
  | cons c bytes =>
    by_cases absolute : c = slash
    · have leading := components_append_slash [] bytes
      rw [List.nil_append] at leading
      simp only [skipSlash, h, absolute, List.head?_cons, if_true, List.tail_cons, leading]
      rfl
    · simp [skipSlash, h, absolute]

theorem hostPath_uncut {p : CString} (fits : Fits p) :
    hostPath (some p) = sdRoot ++ slash :: skipSlash (some p) := by
  apply List.take_of_length_le
  simp only [Fits, List.length_append, List.length_cons] at fits ⊢
  omega

theorem ownFile_iff {p : CString} (fits : Fits p) : OwnFile cwd p ↔ StaysOnCard p := by
  have relative : (hostPath (some p)).head? ≠ some slash := by
    rw [hostPath_uncut fits, List.head?_append_of_ne_nil _ (by decide)]
    decide
  have place : hostPlace cwd (hostPath (some p)) =
      resolve (sdRootPlace cwd) (components (skipSlash (some p))) := by
    rw [hostPlace, if_neg relative, hostPath_uncut fits, components_append_slash, resolve_append,
      components_sdRoot, sdRootPlace_eq]
    rfl
  have named : cardPlace p = resolve [] (components (skipSlash (some p))) := by
    rw [components_skipSlash, cardPlace]
  have below : sdRootPlace cwd ≠ [] := by
    rw [sdRootPlace_eq]
    exact List.append_ne_nil_of_right_ne_nil _ (List.cons_ne_nil _ _)
  rw [OwnFile, place, named]
  exact resolve_own_iff below _

theorem OwnFile.inside {p : CString} (own : OwnFile cwd p) : Inside cwd (hostPath (some p)) :=
  ⟨cardPlace p, own.symm⟩

theorem ownPath_of_fits {p : CString} (fits : Fits p) : OwnPath p := by
  intro q differ same
  have lengths := congrArg List.length same
  have size : (hostPath (some q)).length < hostPathSize - 1 := by
    rw [same, hostPath_uncut fits]
    simp only [Fits, List.length_append, List.length_cons] at fits ⊢
    omega
  have uncut : hostPath (some q) = sdRoot ++ slash :: skipSlash (some q) := by
    apply List.take_of_length_le
    rw [hostPath, makeHostPath, List.length_take] at size
    omega
  rw [uncut, hostPath_uncut fits] at same
  have tails := List.cons.inj (List.append_cancel_left same)
  apply differ
  rw [cardPlace, cardPlace, ← components_skipSlash q, ← components_skipSlash p, tails.2]

/-- The name `c` in the directory `base`. -/
def nameBelow (base : List UInt8) (noNul : 0 ∉ base) (c : UInt8) (nonzero : c ≠ 0) : CString where
  bytes := slash :: (base ++ slash :: [c])
  noNul := by simp [noNul, Ne.symm nonzero, slash]

theorem skipSlash_nameBelow {base : List UInt8} (noNul : 0 ∉ base) {c : UInt8} (nonzero : c ≠ 0) :
    skipSlash (some (nameBelow base noNul c nonzero)) = base ++ slash :: [c] := by
  simp [skipSlash, nameBelow]

theorem cardPlace_nameBelow {base : List UInt8} (noNul : 0 ∉ base) {c : UInt8} (nonzero : c ≠ 0)
    (plain : components [c] = [.name [c]]) :
    cardPlace (nameBelow base noNul c nonzero) = resolve [] (components base) ++ [[c]] := by
  rw [cardPlace, ← components_skipSlash, skipSlash_nameBelow, components_append_slash, plain,
    resolve_append]
  rfl

theorem skipSlash_noNul (p : CString) : 0 ∉ skipSlash (some p) := by
  intro mem
  simp only [skipSlash] at mem
  split at mem
  · exact p.noNul (List.mem_of_mem_tail mem)
  · exact p.noNul mem

/-- A path that fills the buffer has the host path of the names below it. -/
theorem fits_of_ownPath {p : CString} (own : OwnPath p) : Fits p := by
  by_contra full
  have size : sdRoot.length + 1 ≤ hostPathSize - 1 := by decide
  have long : hostPathSize - 1 - (sdRoot.length + 1) ≤ (skipSlash (some p)).length := by
    simp only [Fits] at full
    omega
  have front : ∀ q : CString, hostPath (some q) = sdRoot ++ slash ::
      (skipSlash (some q)).take (hostPathSize - 1 - (sdRoot.length + 1)) := by
    intro q
    rw [hostPath, makeHostPath, List.take_append, List.take_of_length_le (by omega),
      show hostPathSize - 1 - sdRoot.length = hostPathSize - 1 - (sdRoot.length + 1) + 1 by omega,
      List.take_succ_cons]
  obtain ⟨base, hbase⟩ : ∃ base, base =
      (skipSlash (some p)).take (hostPathSize - 1 - (sdRoot.length + 1)) := ⟨_, rfl⟩
  have filled : base.length = hostPathSize - 1 - (sdRoot.length + 1) := by
    rw [hbase, List.length_take]
    omega
  have noNul : 0 ∉ base := fun mem => skipSlash_noNul p (List.mem_of_mem_take (hbase ▸ mem))
  have collides : ∀ c nonzero, hostPath (some (nameBelow base noNul c nonzero)) =
      hostPath (some p) := by
    intro c nonzero
    rw [front, front, ← hbase, skipSlash_nameBelow, List.take_append_of_le_length filled.ge,
      List.take_of_length_le filled.le]
  have places : ∀ c : UInt8, c ≠ 0 → components [c] = [.name [c]] →
      cardPlace p = resolve [] (components base) ++ [[c]] := by
    intro c nonzero plain
    rw [← cardPlace_nameBelow noNul nonzero plain]
    by_contra differ
    exact own _ (Ne.symm differ) (collides c nonzero)
  have x := places 0x78 (by decide) (by decide)
  have y := places 0x79 (by decide) (by decide)
  rw [x] at y
  exact absurd (List.append_cancel_left y) (by decide)

theorem opConfined_iff (cwd : List FileName) (op : VfsOp) :
    OpConfined cwd op ↔ ∀ p ∈ op.vfsPaths, Fits p ∧ StaysOnCard p := by
  have paths : (∀ call ∈ op.hostCalls, ∀ path ∈ call.paths, Inside cwd path) ↔
      ∀ p ∈ op.vfsPaths, Inside cwd (hostPath (some p)) := by
    cases op <;> simp [VfsOp.hostCalls, HostCall.paths, VfsOp.vfsPaths]
  rw [OpConfined, paths, ← forall₂_and]
  refine forall₂_congr fun p _ => ?_
  constructor
  · rintro ⟨_, path, file⟩
    have fits := fits_of_ownPath path
    exact ⟨fits, (ownFile_iff fits).mp file⟩
  · rintro ⟨fits, stays⟩
    have file : OwnFile cwd p := (ownFile_iff fits).mpr stays
    exact ⟨file.inside, ownPath_of_fits fits, file⟩

/-- An operation acts on the card, and only on the files of the names it was given, exactly when its
paths fit the buffer and stay on the card; different names then have different files. -/
theorem vfs_confined_iff (cwd : List FileName) (op op' : VfsOp) :
    (OpConfined cwd op ↔ ∀ p ∈ op.vfsPaths, Fits p ∧ StaysOnCard p) ∧
      (OpConfined cwd op → OpConfined cwd op' → ∀ p ∈ op.vfsPaths, ∀ q ∈ op'.vfsPaths,
        cardPlace p ≠ cardPlace q →
          hostPlace cwd (hostPath (some p)) ≠ hostPlace cwd (hostPath (some q))) := by
  refine ⟨opConfined_iff cwd op, fun confined confined' p hp q hq differ same => differ ?_⟩
  have file : OwnFile cwd p := (confined.2 p hp).2
  have file' : OwnFile cwd q := (confined'.2 q hq).2
  rw [file, file'] at same
  exact List.append_cancel_left same

/-- The EEPROM image, which is kept next to the card. -/
def eepromPath : CString := ⟨ascii "../EEPROM.DAT", by decide⟩

theorem unlink_leaves_card : ¬ OpConfined [ascii "home"] (.unlink eepromPath) := by
  intro h
  have inside := h.1 _ List.mem_cons_self _ List.mem_cons_self
  exact absurd inside (by decide)

end GrblhalSim
