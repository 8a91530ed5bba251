import Mathlib.Data.List.Basic

/-!
# Machines and their runs

A machine answers every input with an output and a new state. What one step keeps, a run
keeps; two machines whose steps answer alike and keep a relation answer alike over whole
runs, as long as every step is guarded; maps that commute with the steps commute with the
runs; and what an observer computes from inputs and outputs stays in step with the state.
-/

namespace Machine

variable {ι ω σ τ α : Type*}

/-- The outputs of a run and the state it ends in. -/
def runs (step : ι → σ → ω × σ) : List ι → σ → List ω × σ
  | [], s => ([], s)
  | i :: is, s =>
      let r := step i s
      let rest := runs step is r.2
      (r.1 :: rest.1, rest.2)

/-- What an observer makes of the inputs and outputs of a run. -/
def observe (f : α → ι → ω → α) (a : α) (inputs : List ι) (outputs : List ω) : α :=
  (inputs.zip outputs).foldl (fun a p => f a p.1 p.2) a

/-- Every step of a run starts in a state that the guard admits for its input. -/
def Guarded (step : ι → σ → ω × σ) (guard : ι → σ → Prop) : List ι → σ → Prop
  | [], _ => True
  | i :: is, s => guard i s ∧ Guarded step guard is (step i s).2

instance Guarded.decidable (step : ι → σ → ω × σ) (guard : ι → σ → Prop)
    [∀ i s, Decidable (guard i s)] : ∀ inputs s, Decidable (Guarded step guard inputs s)
  | [], _ => inferInstanceAs (Decidable True)
  | _ :: is, _ =>
      have := Guarded.decidable step guard is
      inferInstanceAs (Decidable (_ ∧ _))

section Rules

variable {step : ι → σ → ω × σ}

@[simp] theorem runs_cons (i : ι) (is : List ι) (s : σ) : runs step (i :: is) s =
    ((step i s).1 :: (runs step is (step i s).2).1, (runs step is (step i s).2).2) := rfl

/-- What every step keeps. -/
theorem runs_keep {inv : σ → Prop} (hstep : ∀ i s, inv s → inv (step i s).2)
    (inputs : List ι) {s : σ} (h : inv s) : inv (runs step inputs s).2 := by
  induction inputs generalizing s with
  | nil => exact h
  | cons i is ih => exact ih (hstep i s h)

/-- Simulation of a guarded run. -/
theorem runs_simulation {step' : ι → τ → ω × τ} {R : σ → τ → Prop} {guard : ι → σ → Prop}
    (hstep : ∀ i s s', guard i s → R s s' →
      (step i s).1 = (step' i s').1 ∧ R (step i s).2 (step' i s').2)
    (inputs : List ι) {s : σ} {s' : τ} (hguard : Guarded step guard inputs s) (h : R s s') :
    (runs step inputs s).1 = (runs step' inputs s').1 ∧
      R (runs step inputs s).2 (runs step' inputs s').2 := by
  induction inputs generalizing s s' with
  | nil => exact ⟨rfl, h⟩
  | cons i is ih =>
      obtain ⟨hhead, htail⟩ := hguard
      obtain ⟨hout, hkeep⟩ := hstep i s s' hhead h
      obtain ⟨hrest, hlast⟩ := ih htail hkeep
      rw [runs_cons, runs_cons]
      exact ⟨by rw [hout, hrest], hlast⟩

/-- Maps of inputs, outputs and states that commute with the steps commute with the runs. -/
theorem runs_map {step' : ι → σ → ω × σ} {g : ι → ι} {h : ω → ω} {q : σ → σ}
    (inputs : List ι)
    (hstep : ∀ i ∈ inputs, ∀ s, step' (g i) (q s) = (h (step i s).1, q (step i s).2)) (s : σ) :
    runs step' (inputs.map g) (q s) =
      ((runs step inputs s).1.map h, q (runs step inputs s).2) := by
  induction inputs generalizing s with
  | nil => rfl
  | cons i is ih =>
      obtain ⟨hhead, htail⟩ := List.forall_mem_cons.mp hstep
      have hrest := ih htail (step i s).2
      rw [List.map_cons, runs_cons, runs_cons, hhead, hrest]
      rfl

/-- Observation. -/
theorem runs_observe {f : α → ι → ω → α} {R : α → σ → Prop}
    (hstep : ∀ a i s, R a s → R (f a i (step i s).1) (step i s).2)
    (inputs : List ι) {a : α} {s : σ} (h : R a s) :
    R (observe f a inputs (runs step inputs s).1) (runs step inputs s).2 := by
  induction inputs generalizing a s with
  | nil => exact h
  | cons i is ih => exact ih (hstep a i s h)

end Rules

end Machine
