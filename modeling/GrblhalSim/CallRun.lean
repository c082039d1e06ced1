import Mathlib.Data.List.Basic

namespace CallRun

variable {σ ι ε : Type} (step : σ → ι → Except ε σ)

/-- The calls one after the other, up to the first that does not return. -/
def run (s : σ) (calls : List ι) : Except ε σ := calls.foldlM step s

/-- `P` holds of every call of the run, with the state it is made in. -/
def EachCall (P : σ → ι → Prop) : σ → List ι → Prop
  | _, [] => True
  | s, i :: is => P s i ∧ ∀ s', step s i = .ok s' → EachCall P s' is

/-- `Q` holds of every state of the run, the first and the last included. -/
def EachState (Q : σ → Prop) : σ → List ι → Prop
  | s, [] => Q s
  | s, i :: is => Q s ∧ ∀ s', step s i = .ok s' → EachState Q s' is

/-- A call that goes wrong where the function it calls gives no result. -/
def orFault (result : Option σ) : Except Unit σ :=
  match result with
  | some s => .ok s
  | none => .error ()

variable {step}

theorem run_cons {s s' : σ} {i : ι} (h : step s i = .ok s') (is : List ι) :
    run step s (i :: is) = run step s' is := by
  simp only [run, List.foldlM_cons, h, bind, Except.bind]

theorem EachState.first {Q : σ → Prop} {s : σ} {is : List ι} (h : EachState step Q s is) : Q s := by
  cases is with
  | nil => exact h
  | cons i is => exact h.1

theorem EachState.last {Q : σ → Prop} {s s' : σ} {is : List ι} (h : EachState step Q s is)
    (hrun : run step s is = .ok s') : Q s' := by
  induction is generalizing s with
  | nil =>
    cases hrun
    exact h
  | cons i is ih =>
    cases hs : step s i with
    | error e => simp [run, List.foldlM_cons, hs, bind, Except.bind] at hrun
    | ok next =>
      rw [run_cons hs] at hrun
      exact ih (h.2 next hs) hrun

theorem eachState_of_inv {Inv : σ → Prop} {P : σ → ι → Prop} {s : σ} {is : List ι}
    (kept : ∀ s i s', Inv s → P s i → step s i = .ok s' → Inv s') (hi : Inv s)
    (hp : EachCall step P s is) : EachState step Inv s is := by
  induction is generalizing s with
  | nil => exact hi
  | cons i is ih =>
    exact ⟨hi, fun s' hs => ih (kept s i s' hi hp.1 hs) (hp.2 s' hs)⟩

theorem eachState_of_step {Inv : σ → Prop} {s : σ} (is : List ι)
    (kept : ∀ s i s', Inv s → step s i = .ok s' → Inv s') (hi : Inv s) :
    EachState step Inv s is := by
  induction is generalizing s with
  | nil => exact hi
  | cons i is ih => exact ⟨hi, fun s' hs => ih (kept s i s' hi hs)⟩

theorem EachState.mono {Q R : σ → Prop} {s : σ} {is : List ι} (h : EachState step Q s is)
    (weaker : ∀ s, Q s → R s) : EachState step R s is := by
  induction is generalizing s with
  | nil => exact weaker s h
  | cons i is ih => exact ⟨weaker s h.1, fun s' hs => ih (h.2 s' hs)⟩

theorem eachCall_append {P : σ → ι → Prop} {s : σ} {is js : List ι} :
    EachCall step P s (is ++ js) ↔
      EachCall step P s is ∧ ∀ s', run step s is = .ok s' → EachCall step P s' js := by
  induction is generalizing s with
  | nil =>
    constructor
    · intro h
      refine ⟨trivial, fun s' hs => ?_⟩
      cases hs
      exact h
    · exact fun h => h.2 s rfl
  | cons i is ih =>
    constructor
    · intro h
      refine ⟨⟨h.1, fun s' hs => (ih.mp (h.2 s' hs)).1⟩, fun t hrun => ?_⟩
      cases hs : step s i with
      | error e => simp [run, List.foldlM_cons, hs, bind, Except.bind] at hrun
      | ok next =>
        rw [run_cons hs] at hrun
        exact (ih.mp (h.2 next hs)).2 t hrun
    · intro h
      refine ⟨h.1.1, fun s' hs => ih.mpr ⟨h.1.2 s' hs, fun t hrun => h.2 t ?_⟩⟩
      rw [run_cons hs, hrun]

theorem run_ok {Inv : σ → Prop} {P : σ → ι → Prop} {s : σ} {is : List ι}
    (returns : ∀ s i, Inv s → P s i → ∃ s', step s i = .ok s' ∧ Inv s') (hi : Inv s)
    (hp : EachCall step P s is) : ∃ s', run step s is = .ok s' ∧ Inv s' := by
  induction is generalizing s with
  | nil => exact ⟨s, rfl, hi⟩
  | cons i is ih =>
    obtain ⟨s', hs, hi'⟩ := returns s i hi hp.1
    rw [run_cons hs]
    exact ih hi' (hp.2 s' hs)

theorem eachCall_all {P : σ → ι → Prop} (all : ∀ s i, P s i) (s : σ) (is : List ι) :
    EachCall step P s is := by
  induction is generalizing s with
  | nil => trivial
  | cons i is ih => exact ⟨all s i, fun s' _ => ih s'⟩

theorem eachCall_iff {Inv : σ → Prop} {A P Q : σ → ι → Prop} {s : σ} {is : List ι}
    (kept : ∀ s i s', Inv s → A s i → step s i = .ok s' → Inv s')
    (agree : ∀ s i, Inv s → A s i → (P s i ↔ Q s i)) (hi : Inv s) (ha : EachCall step A s is) :
    EachCall step P s is ↔ EachCall step Q s is := by
  induction is generalizing s with
  | nil => exact Iff.rfl
  | cons i is ih =>
    exact and_congr (agree s i hi ha.1)
      (forall_congr' fun s' => forall_congr' fun hs => ih (kept s i s' hi ha.1 hs) (ha.2 s' hs))

/-- Two steps that do the same in every call that meets the condition make the same run. -/
theorem eachCall_congr {other : σ → ι → Except ε σ} {P Q : σ → ι → Prop}
    (agree : ∀ s i, P s i ↔ Q s i) (same : ∀ s i, Q s i → step s i = other s i) (s : σ)
    (is : List ι) :
    (EachCall step P s is ↔ EachCall other Q s is) ∧
      (EachCall other Q s is → run step s is = run other s is) := by
  induction is generalizing s with
  | nil => exact ⟨Iff.rfl, fun _ => rfl⟩
  | cons i is ih =>
    constructor
    · constructor
      · intro h
        have meets := (agree s i).mp h.1
        refine ⟨meets, fun s' hs => (ih s').1.mp (h.2 s' ?_)⟩
        rw [same s i meets, hs]
      · intro h
        refine ⟨(agree s i).mpr h.1, fun s' hs => (ih s').1.mpr (h.2 s' ?_)⟩
        rw [← same s i h.1, hs]
    · intro h
      have first := same s i h.1
      cases hs : other s i with
      | error e =>
        rw [hs] at first
        simp only [run, List.foldlM_cons, first, hs, bind, Except.bind]
      | ok next =>
        rw [run_cons hs, run_cons (first.trans hs)]
        exact (ih next).2 (h.2 next hs)

/-- If a call keeps the good states good exactly when it meets the condition, a run stays good
exactly when all of its calls do. -/
theorem eachState_iff {Inv Good : σ → Prop} {A C : σ → ι → Prop} {s : σ} {is : List ι}
    (agree : ∀ s i, Inv s → Good s → A s i →
      ∃ s', step s i = .ok s' ∧ Inv s' ∧ (Good s' ↔ C s i))
    (hi : Inv s) (hg : Good s) (ha : EachCall step A s is) :
    EachState step Good s is ↔ EachCall step C s is := by
  induction is generalizing s with
  | nil => exact iff_of_true hg trivial
  | cons i is ih =>
    obtain ⟨s', hs, hi', hc⟩ := agree s i hi hg ha.1
    have only : ∀ t, step s i = .ok t → t = s' := fun t ht => Except.ok.inj (ht.symm.trans hs)
    constructor
    · intro h
      have good : Good s' := (h.2 s' hs).first
      refine ⟨hc.mp good, fun t ht => ?_⟩
      rw [only t ht]
      exact (ih hi' good (ha.2 s' hs)).mp (h.2 s' hs)
    · intro h
      have good : Good s' := hc.mpr h.1
      refine ⟨hg, fun t ht => ?_⟩
      rw [only t ht]
      exact (ih hi' good (ha.2 s' hs)).mpr (h.2 s' hs)

end CallRun
