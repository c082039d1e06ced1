import GrblhalSim.CheckedStore
import GrblhalSim.ToolCarousel
import Mathlib.Data.List.GetD

namespace GrblhalSim

open CheckedStore

variable (core : GrblCore) (o : Outcomes) (limit : PocketLimit)

/-- `in_use[pocket] = true`. -/
def setInUse (inUse : Vector Bool (limit.pockets.toNat + 1)) (pocket : Int16) :
    Except Unit (Vector Bool (limit.pockets.toNat + 1)) :=
  if pocket < 0 then .error () else write () inUse pocket.toInt.toNat true

/-- `in_use[pocket]`. -/
def getInUse (inUse : Vector Bool (limit.pockets.toNat + 1)) (pocket : Int16) : Except Unit Bool :=
  if pocket < 0 then .error () else load () inUse pocket.toInt.toNat

def markEntry (inUse : Vector Bool (limit.pockets.toNat + 1)) (e : ToolPocket) :
    Except Unit (Vector Bool (limit.pockets.toNat + 1)) :=
  if 1 ≤ e.pocketId ∧ e.pocketId ≤ limit.pockets.toInt16 then setInUse limit inUse e.pocketId
  else .ok inUse

/-- The next candidate: nothing wraps below the limit. -/
theorem toInt_succ {limit : PocketLimit} {p : Int16} (inside : p ≤ limit.pockets.toInt16) :
    (p + 1).toInt = p.toInt + 1 := by
  have small := limit.atMost
  have low := p.le_toInt
  rw [Int16.le_iff_toInt_le, limit_toInt16] at inside
  rw [Int16.toInt_add]
  exact Int.bmod_eq_of_le (by show _ ≤ p.toInt + 1; omega) (by show p.toInt + 1 < _; omega)

/-- The second loop of `file_find_free_pocket`. -/
def freeFrom (inUse : Vector Bool (limit.pockets.toNat + 1)) (candidate : Int16) :
    Except Unit Int16 :=
  if candidate ≤ limit.pockets.toInt16 then do
    let used ← getInUse limit inUse candidate
    if used then freeFrom inUse (candidate + 1) else .ok candidate
  else .ok (-1)
termination_by (limit.pockets.toInt16.toInt + 1 - candidate.toInt).toNat
decreasing_by
  have inside : candidate ≤ limit.pockets.toInt16 := by assumption
  rw [toInt_succ inside]
  rw [Int16.le_iff_toInt_le] at inside
  omega

/-- `file_find_free_pocket` with accesses to `in_use` that go wrong outside of it. -/
def fileFindFreePocketIn (fs : ToolFs) : Except Unit Int16 :=
  if limit.pockets = 0 then .ok (-1)
  else do
    let es := if o.openFree then (fs.table.map (entries core)).getD [] else []
    let inUse ← es.foldlM (markEntry limit) (Vector.replicate (limit.pockets.toNat + 1) false)
    freeFrom limit inUse 1

/-- Some line of the file is accepted, with this pocket. -/
def Occupied (fs : ToolFs) (pocket : Int) : Prop :=
  o.openFree = true ∧ ∃ file, fs.table = some file ∧ ∃ line ∈ fileLines [] file,
    ∃ e, parseLine core (.ofBuffer line) = some e ∧ e.pocketId.toInt = pocket

/-- The first pocket up to the limit that is not used, -1 when there is none. -/
def FirstFree (used : Int → Prop) (p : Int16) : Prop :=
  (p = -1 ∧ ∀ q : Int, 1 ≤ q → q ≤ limit.pockets.toNat → used q) ∨
    (1 ≤ p.toInt ∧ p.toInt ≤ limit.pockets.toNat ∧ ¬ used p.toInt ∧
      ∀ q : Int, 1 ≤ q → q < p.toInt → used q)

variable {limit} {core} {o}

theorem firstFree_none {used : Int → Prop} (none : limit.pockets = 0) :
    FirstFree limit used (-1) := by
  refine Or.inl ⟨rfl, fun q first last => ?_⟩
  rw [none] at last
  exact absurd (first.trans last) (by decide)

theorem FirstFree.unique {used : Int → Prop} {p p' : Int16} (h : FirstFree limit used p)
    (h' : FirstFree limit used p') : p = p' := by
  rcases h with ⟨rfl, all⟩ | ⟨low, high, free, first⟩
  · rcases h' with ⟨rfl, -⟩ | ⟨low', high', free', -⟩
    · rfl
    · exact absurd (all _ low' high') free'
  · rcases h' with ⟨rfl, all'⟩ | ⟨low', high', free', first'⟩
    · exact absurd (all' _ low high) free
    · apply Int16.toInt_inj.mp
      by_contra different
      rcases Int.lt_or_gt_of_ne different with less | more
      · exact free (first' _ low less)
      · exact free' (first _ low' more)

theorem occupied_iff (fs : ToolFs) (pocket : Int) :
    Occupied core o fs pocket ↔
      ∃ e ∈ (if o.openFree then (fs.table.map (entries core)).getD [] else []),
        e.pocketId.toInt = pocket := by
  cases opened : o.openFree with
  | false => simp [Occupied, opened]
  | true =>
    cases table : fs.table with
    | none => simp [Occupied, table]
    | some file =>
      constructor
      · intro h
        obtain ⟨-, file', same, line, inside, e, accepted, at_e⟩ := h
        obtain rfl : file = file' := Option.some.inj (table.symm.trans same)
        exact ⟨e, List.mem_filterMap.mpr ⟨line, inside, accepted⟩, at_e⟩
      · intro h
        obtain ⟨e, inside, at_e⟩ := h
        obtain ⟨line, read, accepted⟩ := List.mem_filterMap.mp inside
        exact ⟨opened, file, table, line, read, e, accepted, at_e⟩

theorem pocket_bounds {p : Int16} (low : 1 ≤ p) (high : p ≤ limit.pockets.toInt16) :
    ¬ p < 0 ∧ 1 ≤ p.toInt ∧ p.toInt ≤ limit.pockets.toNat := by
  rw [Int16.le_iff_toInt_le] at low high
  rw [limit_toInt16] at high
  have one : (1 : Int16).toInt = 1 := rfl
  have zero : (0 : Int16).toInt = 0 := rfl
  rw [Int16.lt_iff_toInt_lt]
  omega

theorem markEntry_ok (inUse : Vector Bool (limit.pockets.toNat + 1)) (e : ToolPocket) :
    ∃ inUse', markEntry limit inUse e = .ok inUse' ∧ ∀ q : Int, 1 ≤ q → q ≤ limit.pockets.toNat →
      (inUse'.toList.getD q.toNat false = true ↔
        inUse.toList.getD q.toNat false = true ∨ e.pocketId.toInt = q) := by
  by_cases inside : 1 ≤ e.pocketId ∧ e.pocketId ≤ limit.pockets.toInt16
  · obtain ⟨positive, low, high⟩ := pocket_bounds inside.1 inside.2
    have fits : e.pocketId.toInt.toNat < limit.pockets.toNat + 1 := by omega
    refine ⟨inUse.set e.pocketId.toInt.toNat true fits, ?_, fun q first last => ?_⟩
    · rw [markEntry, if_pos inside, setInUse, if_neg positive, write_fits]
    · have size : q.toNat < inUse.toList.length := by
        rw [Vector.length_toList]
        omega
      rw [Vector.toList_set, List.getD_eq_getElem _ _ (by rw [List.length_set]; exact size),
        List.getD_eq_getElem _ _ size, List.getElem_set]
      split
      next same => exact iff_of_true rfl (Or.inr (by omega))
      next other => exact (or_iff_left (by omega)).symm
  · refine ⟨inUse, by rw [markEntry, if_neg inside], fun q first last => ?_⟩
    refine (or_iff_left fun same => inside ⟨?_, ?_⟩).symm
    · rw [Int16.le_iff_toInt_le, same]
      exact first
    · rw [Int16.le_iff_toInt_le, limit_toInt16, same]
      exact last

theorem markEntries_ok (es : List ToolPocket) (inUse : Vector Bool (limit.pockets.toNat + 1)) :
    ∃ inUse', es.foldlM (markEntry limit) inUse = .ok inUse' ∧
      ∀ q : Int, 1 ≤ q → q ≤ limit.pockets.toNat →
        (inUse'.toList.getD q.toNat false = true ↔
          inUse.toList.getD q.toNat false = true ∨ ∃ e ∈ es, e.pocketId.toInt = q) := by
  induction es generalizing inUse with
  | nil => exact ⟨inUse, rfl, fun q _ _ => by simp⟩
  | cons e es ih =>
    obtain ⟨marked, step, first⟩ := markEntry_ok inUse e
    obtain ⟨inUse', run, rest⟩ := ih marked
    refine ⟨inUse', ?_, fun q low high => ?_⟩
    · rw [List.foldlM_cons, step]
      exact run
    · rw [rest q low high, first q low high, or_assoc]
      simp only [List.mem_cons, exists_eq_or_imp]

/-- The search from a candidate below which all is used. -/
theorem freeFrom_ok {used : Int → Prop} {inUse : Vector Bool (limit.pockets.toNat + 1)}
    (marks : ∀ q : Int, 1 ≤ q → q ≤ limit.pockets.toNat →
      (inUse.toList.getD q.toNat false = true ↔ used q)) (candidate : Int16)
    (low : 1 ≤ candidate.toInt) (before : ∀ q : Int, 1 ≤ q → q < candidate.toInt → used q) :
    ∃ p, freeFrom limit inUse candidate = .ok p ∧ FirstFree limit used p := by
  induction candidate using freeFrom.induct limit with
  | case1 candidate inside ih =>
    have one : 1 ≤ candidate := Int16.le_iff_toInt_le.mpr low
    obtain ⟨positive, -, high⟩ := pocket_bounds one inside
    have read : getInUse limit inUse candidate =
        .ok (inUse.toList.getD candidate.toInt.toNat false) := by
      rw [getInUse, if_neg positive, load_inside () (by omega)]
    have marked := marks _ low high
    rw [freeFrom, if_pos inside, read]
    cases taken : inUse.toList.getD candidate.toInt.toNat false with
    | true =>
      have next := toInt_succ inside
      refine ih (by omega) fun q first less => ?_
      rcases lt_or_ge q candidate.toInt with old | new
      · exact before q first old
      · obtain rfl : q = candidate.toInt := by omega
        exact marked.mp taken
    | false =>
      refine ⟨candidate, rfl, Or.inr ⟨low, high, fun usedHere => ?_, before⟩⟩
      rw [marked.mpr usedHere] at taken
      cases taken
  | case2 candidate outside =>
    refine ⟨-1, by rw [freeFrom, if_neg outside], Or.inl ⟨rfl, fun q first last => ?_⟩⟩
    rw [Int16.le_iff_toInt_le, limit_toInt16] at outside
    exact before q first (by omega)

theorem fileFindFreePocketIn_ok (fs : ToolFs) :
    ∃ p, fileFindFreePocketIn core o limit fs = .ok p ∧
      FirstFree limit (Occupied core o fs) p := by
  rw [fileFindFreePocketIn]
  split
  next none => exact ⟨-1, rfl, firstFree_none none⟩
  next =>
    obtain ⟨inUse, marked, marks⟩ := markEntries_ok
      (if o.openFree then (fs.table.map (entries core)).getD [] else [])
      (Vector.replicate (limit.pockets.toNat + 1) false)
    have used (q : Int) (first : 1 ≤ q) (last : q ≤ limit.pockets.toNat) :
        inUse.toList.getD q.toNat false = true ↔ Occupied core o fs q := by
      have clear : (Vector.replicate (limit.pockets.toNat + 1) false).toList.getD q.toNat false =
          false := by
        rw [Vector.toList_replicate]
        exact List.getD_replicate false (by omega)
      rw [marks q first last, clear, occupied_iff]
      exact or_iff_right Bool.false_ne_true
    obtain ⟨p, searched, free⟩ := freeFrom_ok used 1 (by decide) fun q first less => by
      exact absurd (lt_of_le_of_lt first less) (by decide)
    exact ⟨p, by simp only [marked]; exact searched, free⟩

theorem pocketsInUse_occupied (fs : ToolFs) (n : Fin limit.pockets.toNat) :
    pocketsInUse limit (if o.openFree then (fs.table.map (entries core)).getD [] else [])
      n.succ = true ↔ Occupied core o fs (n.val + 1) := by
  rw [pocketsInUse_iff, occupied_iff]
  refine exists_congr fun e => and_congr_right fun _ => ?_
  rw [Fin.val_succ, Int16.le_iff_toInt_le, Int16.le_iff_toInt_le, limit_toInt16]
  have one : (1 : Int16).toInt = 1 := rfl
  have := n.isLt
  omega

/-- The element of `in_use` that stands for a pocket. -/
theorem pocketsInUse_at (fs : ToolFs) {q : Int} (low : 1 ≤ q)
    (inside : q.toNat - 1 < limit.pockets.toNat) :
    pocketsInUse limit (if o.openFree then (fs.table.map (entries core)).getD [] else [])
      (⟨q.toNat - 1, inside⟩ : Fin limit.pockets.toNat).succ = true ↔ Occupied core o fs q := by
  have same : ((q.toNat - 1 : Nat) : Int) + 1 = q := by omega
  rw [pocketsInUse_occupied, same]

theorem fileFindFreePocket_first (fs : ToolFs) :
    FirstFree limit (Occupied core o fs) (fileFindFreePocket core o limit fs) := by
  have small := limit.atMost
  rw [fileFindFreePocket]
  split
  next none => exact firstFree_none none
  next =>
    dsimp only
    split
    next n found =>
      obtain ⟨unused, i, inside, at_n, first⟩ := List.find?_eq_some_iff_getElem.mp found
      rw [List.length_finRange] at inside
      have position : n.val = i := by
        rw [← at_n, List.getElem_finRange]
        rfl
      have value : (Int16.ofNat (n.val + 1)).toInt = n.val + 1 := by
        rw [Int16.toInt_ofNat_of_lt (by omega)]
        rfl
      refine Or.inr ⟨by omega, by omega, fun taken => ?_, fun q low less => ?_⟩
      · rw [value] at taken
        rw [(pocketsInUse_occupied fs n).mpr taken] at unused
        cases unused
      · have before := first (q.toNat - 1) (by omega)
        rw [List.getElem_finRange, Bool.not_not] at before
        exact (pocketsInUse_at fs low (by omega)).mp before
    next all =>
      refine Or.inl ⟨rfl, fun q low high => ?_⟩
      have none := List.find?_eq_none.mp all ⟨q.toNat - 1, by omega⟩ (List.mem_finRange _)
      rw [Bool.not_eq_true', Bool.not_eq_false] at none
      exact (pocketsInUse_at fs low (by omega)).mp none

theorem FirstFree.none_iff {used : Int → Prop} {p : Int16} (h : FirstFree limit used p) :
    (p = -1 ↔ ∀ q : Int, 1 ≤ q → q ≤ limit.pockets.toNat → used q) ∧ (p < 0 ↔ p = -1) ∧
      (p ≠ -1 → 1 ≤ p.toInt ∧ p.toInt ≤ limit.pockets.toNat ∧ ¬ used p.toInt ∧
        ∀ q : Int, 1 ≤ q → q < p.toInt → used q) := by
  rcases h with ⟨rfl, all⟩ | ⟨low, high, free, first⟩
  · exact ⟨iff_of_true rfl all, by decide, fun h => absurd rfl h⟩
  · have found : p ≠ -1 := by
      rintro rfl
      exact absurd low (by decide)
    have zero : (0 : Int16).toInt = 0 := rfl
    refine ⟨iff_of_false found fun all => free (all _ low high), ?_, fun _ => ⟨low, high, free, first⟩⟩
    refine iff_of_false (fun less => ?_) found
    rw [Int16.lt_iff_toInt_lt] at less
    omega

theorem carouselReturn_result (assigned : Option Int16) (rewritten : Option (Bool × ToolFs)) :
    (carouselReturn assigned rewritten).map CarouselReturn.result ≠ some .noPocketAvailable := by
  cases rewritten with
  | none => exact Option.some_ne_none _ ∘ Eq.symm
  | some r =>
    cases wrote : r.1 <;> simp [carouselReturn, wrote]

theorem carouselAdd_full (toolId : Int32) (name : Option CString) (fs : ToolFs) :
    (tooltableCarouselAdd core o toolId limit name fs).map CarouselReturn.result =
        some .noPocketAvailable ↔
      fs.isSome ∧ (∀ existing, fileFind core o toolId fs = some existing →
        existing.pocketId < 1) ∧ fileFindFreePocket core o limit fs < 0 := by
  unfold tooltableCarouselAdd
  split
  next unmounted => simp [Option.isNone_iff_eq_none.mp unmounted]
  next mounted =>
    dsimp only
    split
    next inPocket =>
      obtain ⟨existing, found, pocket⟩ := (Option.any_eq_true _ _).mp inPocket
      refine iff_of_false (fun same => ?_) fun h => ?_
      · cases same
      · have low := Int16.le_iff_toInt_le.mp (of_decide_eq_true pocket)
        have high := Int16.lt_iff_toInt_lt.mp (h.2.1 existing found)
        omega
    next free =>
      have without (existing : ToolPocket) (found : fileFind core o toolId fs = some existing) :
          existing.pocketId < 1 := by
        rw [found, Option.any_some, decide_eq_true_eq, Int16.le_iff_toInt_le] at free
        rw [Int16.lt_iff_toInt_lt]
        omega
      have present : fs.isSome = true := by
        cases fs with
        | none => exact absurd rfl mounted
        | some files => rfl
      split
      next full => exact iff_of_true rfl ⟨present, without, full⟩
      next room =>
        refine iff_of_false ?_ fun h => room h.2.2
        split
        next => exact carouselReturn_result _ _
        next => exact carouselReturn_result _ _

/-- The search finds the first pocket that no accepted line has, within `in_use`, and an add gives
up where it finds none for a tool that has no pocket. -/
theorem freePocket_exact (core : GrblCore) (o : Outcomes) (limit : PocketLimit) (fs : ToolFs) :
    ∃ p : Int16, fileFindFreePocketIn core o limit fs = .ok p ∧
      fileFindFreePocket core o limit fs = p ∧
      (p = -1 ↔ ∀ q : Int, 1 ≤ q → q ≤ limit.pockets.toNat → Occupied core o fs q) ∧
      (p ≠ -1 → 1 ≤ p.toInt ∧ p.toInt ≤ limit.pockets.toNat ∧ ¬ Occupied core o fs p.toInt ∧
        ∀ q : Int, 1 ≤ q → q < p.toInt → Occupied core o fs q) ∧
      ∀ (toolId : Int32) (name : Option CString),
        ((tooltableCarouselAdd core o toolId limit name fs).map CarouselReturn.result =
          some .noPocketAvailable ↔
          fs.isSome ∧ (∀ existing, fileFind core o toolId fs = some existing →
            existing.pocketId < 1) ∧ p = -1) := by
  obtain ⟨p, run, first⟩ := @fileFindFreePocketIn_ok core o limit fs
  obtain ⟨none, negative, found⟩ := first.none_iff
  have same : fileFindFreePocket core o limit fs = p := (fileFindFreePocket_first fs).unique first
  refine ⟨p, run, same, none, found, fun toolId name => ?_⟩
  rw [carouselAdd_full, same, negative]

end GrblhalSim
