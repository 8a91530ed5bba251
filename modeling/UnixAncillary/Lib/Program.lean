import Mathlib.Data.List.Basic

/-!
# Programs over a state

A program runs from a state to an outcome and a state. It may fail with an error,
abort, or be left pending on a call that its environment has not answered; the
state it reached is kept in every case.
-/

namespace Program

/-- How a program ends. -/
inductive Outcome (ε δ κ α : Type) where
  | ok (value : α)
  | err (error : ε)
  | panic (cause : δ)
  | pending (call : κ)
  deriving DecidableEq

/-- The end of a program whose value is mapped. -/
def Outcome.map {ε δ κ α β : Type} (f : α → β) : Outcome ε δ κ α → Outcome ε δ κ β
  | .ok a => .ok (f a)
  | .err e => .err e
  | .panic p => .panic p
  | .pending c => .pending c

/-- The end of a program whose calls are renamed. -/
def Outcome.mapCall {ε δ κ κ' α : Type} (f : κ → κ') : Outcome ε δ κ α → Outcome ε δ κ' α
  | .ok a => .ok a
  | .err e => .err e
  | .panic p => .panic p
  | .pending c => .pending (f c)

/-- Programs over the state `σ` with errors `ε`, aborts `δ` and calls `κ`. -/
structure Prog (σ ε δ κ α : Type) where
  run : σ → Outcome ε δ κ α × σ

namespace Prog

variable {σ τ ε ε' δ κ α β : Type}

/-- What follows the end of a program: only an `ok` continues. -/
def andThen (f : α → Prog σ ε δ κ β) :
    Outcome ε δ κ α × σ → Outcome ε δ κ β × σ
  | (.ok a, s) => (f a).run s
  | (.err e, s) => (.err e, s)
  | (.panic p, s) => (.panic p, s)
  | (.pending c, s) => (.pending c, s)

instance : Monad (Prog σ ε δ κ) where
  pure a := ⟨fun s => (.ok a, s)⟩
  bind m f := ⟨fun s => andThen f (m.run s)⟩

def throw (e : ε) : Prog σ ε δ κ α := ⟨fun s => (.err e, s)⟩

def read (f : σ → α) : Prog σ ε δ κ α := ⟨fun s => (.ok (f s), s)⟩

def update (f : σ → σ) : Prog σ ε δ κ Unit := ⟨fun s => (.ok (), f s)⟩

/-- A pure computation that may abort. -/
def ofExcept : Except δ α → Prog σ ε δ κ α
  | .ok a => ⟨fun s => (.ok a, s)⟩
  | .error p => ⟨fun s => (.panic p, s)⟩

/-- An optional value, or the error `e`. -/
def okOr (e : ε) : Option α → Prog σ ε δ κ α
  | some a => ⟨fun s => (.ok a, s)⟩
  | none => throw e

/-- Run `cleanup` when `m` returns an error, as drop glue does. -/
def onError (m : Prog σ ε δ κ α) (cleanup : σ → σ) : Prog σ ε δ κ α :=
  ⟨fun s => match m.run s with
    | (.err e, s') => (.err e, cleanup s')
    | r => r⟩

/-- A program on the second component of the state. -/
def onSnd (m : Prog τ ε δ κ α) : Prog (σ × τ) ε δ κ α :=
  ⟨fun s => ((m.run s.2).1, (s.1, (m.run s.2).2))⟩

/-- A program on a local state that starts as `init`; its errors are mapped. -/
def withLocal (init : τ) (f : ε' → ε) (m : Prog τ ε' δ κ α) :
    Prog σ ε δ κ (α × τ) :=
  ⟨fun s => match m.run init with
    | (.ok a, t) => (.ok (a, t), s)
    | (.err e, _) => (.err (f e), s)
    | (.panic p, _) => (.panic p, s)
    | (.pending c, _) => (.pending c, s)⟩

/-- The program under other names for what it waits for. -/
def renameCalls {κ' : Type} (f : κ → κ') (m : Prog σ ε δ κ α) : Prog σ ε δ κ' α :=
  ⟨fun s => ((m.run s).1.mapCall f, (m.run s).2)⟩

section Equations

variable {m : Prog σ ε δ κ α} {f : α → Prog σ ε δ κ β} {s s' : σ}

@[simp] theorem run_pure (a : α) (s : σ) :
    (pure a : Prog σ ε δ κ α).run s = (.ok a, s) := rfl

@[simp] theorem run_throw (e : ε) (s : σ) :
    (throw e : Prog σ ε δ κ α).run s = (.err e, s) := rfl

@[simp] theorem run_read (g : σ → α) (s : σ) :
    (read g : Prog σ ε δ κ α).run s = (.ok (g s), s) := rfl

@[simp] theorem run_update (g : σ → σ) (s : σ) :
    (update g : Prog σ ε δ κ Unit).run s = (.ok (), g s) := rfl

@[simp] theorem run_ofExcept_ok (a : α) (s : σ) :
    (ofExcept (.ok a) : Prog σ ε δ κ α).run s = (.ok a, s) := rfl

@[simp] theorem run_okOr_some (e : ε) (a : α) (s : σ) :
    (okOr e (some a) : Prog σ ε δ κ α).run s = (.ok a, s) := rfl

@[simp] theorem run_okOr_none (e : ε) (s : σ) :
    (okOr e none : Prog σ ε δ κ α).run s = (.err e, s) := rfl

theorem run_bind (m : Prog σ ε δ κ α) (f : α → Prog σ ε δ κ β) (s : σ) :
    (m >>= f).run s = andThen f (m.run s) := rfl

theorem bind_assoc_eq {γ : Type} (m : Prog σ ε δ κ α) (f : α → Prog σ ε δ κ β)
    (g : β → Prog σ ε δ κ γ) : (m >>= f) >>= g = m >>= fun a => f a >>= g := by
  have hrun : ∀ s, ((m >>= f) >>= g).run s = (m >>= fun a => f a >>= g).run s := by
    intro s
    rw [run_bind, run_bind, run_bind]
    obtain ⟨o, s'⟩ := m.run s
    cases o <;> rfl
  exact congrArg mk (funext hrun)

theorem renameCalls_bind {κ' : Type} (g : κ → κ') (m : Prog σ ε δ κ α)
    (f : α → Prog σ ε δ κ β) :
    (m >>= f).renameCalls g = m.renameCalls g >>= fun a => (f a).renameCalls g := by
  have hrun : ∀ s, ((m >>= f).renameCalls g).run s =
      (m.renameCalls g >>= fun a => (f a).renameCalls g).run s := by
    intro s
    simp only [renameCalls, run_bind]
    obtain ⟨o, s'⟩ := m.run s
    cases o <;> rfl
  exact congrArg mk (funext hrun)

theorem throw_bind_eq (e : ε) (f : α → Prog σ ε δ κ β) :
    ((throw e : Prog σ ε δ κ α) >>= f) = throw e := rfl

theorem pure_bind_eq (a : α) (f : α → Prog σ ε δ κ β) : (pure a >>= f) = f a := rfl

theorem ofExcept_ok_bind (a : α) (f : α → Prog σ ε δ κ β) :
    ((ofExcept (.ok a) : Prog σ ε δ κ α) >>= f) = f a := rfl

theorem bind_ok {a : α} (h : m.run s = (.ok a, s')) : (m >>= f).run s = (f a).run s' := by
  rw [run_bind, h, andThen]

theorem bind_err {e : ε} (h : m.run s = (.err e, s')) : (m >>= f).run s = (.err e, s') := by
  rw [run_bind, h, andThen]

theorem bind_panic {p : δ} (h : m.run s = (.panic p, s')) :
    (m >>= f).run s = (.panic p, s') := by
  rw [run_bind, h, andThen]

theorem bind_pending {c : κ} (h : m.run s = (.pending c, s')) :
    (m >>= f).run s = (.pending c, s') := by
  rw [run_bind, h, andThen]

end Equations

/-! ## Invariants of a run -/

/-- Every run of `m` from a state in `inv` ends in `inv`. -/
def Preserves (inv : σ → Prop) (m : Prog σ ε δ κ α) : Prop :=
  ∀ s, inv s → inv (m.run s).2

section Preserves

variable {inv : σ → Prop}

theorem Preserves.of_pure (a : α) : Preserves inv (pure a : Prog σ ε δ κ α) := fun _ h => h

theorem Preserves.of_throw (e : ε) : Preserves inv (throw e : Prog σ ε δ κ α) := fun _ h => h

theorem Preserves.of_read (f : σ → α) : Preserves inv (read f : Prog σ ε δ κ α) :=
  fun _ h => h

theorem Preserves.of_ofExcept (x : Except δ α) :
    Preserves inv (ofExcept x : Prog σ ε δ κ α) := by
  cases x <;> exact fun _ h => h

theorem Preserves.of_okOr (e : ε) (x : Option α) :
    Preserves inv (okOr e x : Prog σ ε δ κ α) := by
  cases x <;> exact fun _ h => h

theorem Preserves.of_withLocal {τ ε' : Type} (init : τ) (f : ε' → ε) (m : Prog τ ε' δ κ α) :
    Preserves inv (withLocal init f m : Prog σ ε δ κ (α × τ)) := by
  intro s hs
  simp only [withLocal]
  split <;> exact hs

theorem Preserves.of_update {f : σ → σ} (h : ∀ s, inv s → inv (f s)) :
    Preserves inv (update f : Prog σ ε δ κ Unit) := h

theorem Preserves.bind {m : Prog σ ε δ κ α} {f : α → Prog σ ε δ κ β}
    (hm : Preserves inv m) (hf : ∀ a, Preserves inv (f a)) : Preserves inv (m >>= f) := by
  intro s hs
  have hkeep := hm s hs
  rw [run_bind]
  generalize m.run s = r at hkeep ⊢
  obtain ⟨o, s'⟩ := r
  cases o with
  | ok a => exact hf a s' hkeep
  | err e => exact hkeep
  | panic p => exact hkeep
  | pending c => exact hkeep

theorem Preserves.onError {m : Prog σ ε δ κ α} {cleanup : σ → σ} (hm : Preserves inv m)
    (h : ∀ s, inv s → inv (cleanup s)) : Preserves inv (m.onError cleanup) := by
  intro s hs
  have hkeep := hm s hs
  simp only [Prog.onError]
  split
  case h_1 e s' hr =>
      rw [hr] at hkeep
      exact h s' hkeep
  case h_2 r hr => exact hkeep

/-- From `inv`, `m` stays in `inv` and either succeeds or fails with an error in `E`. -/
structure FailsOnly (inv : σ → Prop) (E : ε → Prop) (m : Prog σ ε δ κ α) : Prop where
  preserves : Preserves inv m
  outcome : ∀ s, inv s → (∃ a, (m.run s).1 = .ok a) ∨ ∃ e, E e ∧ (m.run s).1 = .err e

variable {E : ε → Prop}

theorem FailsOnly.of_pure (a : α) : FailsOnly inv E (pure a : Prog σ ε δ κ α) :=
  ⟨.of_pure a, fun _ _ => .inl ⟨a, rfl⟩⟩

theorem FailsOnly.of_read (f : σ → α) : FailsOnly inv E (read f : Prog σ ε δ κ α) :=
  ⟨.of_read f, fun s _ => .inl ⟨f s, rfl⟩⟩

theorem FailsOnly.of_update {f : σ → σ} (h : ∀ s, inv s → inv (f s)) :
    FailsOnly inv E (update f : Prog σ ε δ κ Unit) :=
  ⟨.of_update h, fun _ _ => .inl ⟨(), rfl⟩⟩

theorem FailsOnly.bind {m : Prog σ ε δ κ α} {f : α → Prog σ ε δ κ β}
    (hm : FailsOnly inv E m) (hf : ∀ a, FailsOnly inv E (f a)) : FailsOnly inv E (m >>= f) := by
  refine ⟨hm.preserves.bind fun a => (hf a).preserves, fun s hs => ?_⟩
  have hkeep := hm.preserves s hs
  have hout := hm.outcome s hs
  rw [run_bind]
  generalize m.run s = r at hkeep hout ⊢
  obtain ⟨o, s'⟩ := r
  rcases hout with ⟨a, rfl⟩ | ⟨e, he, rfl⟩
  · exact (hf a).outcome s' hkeep
  · exact .inr ⟨e, he, rfl⟩

end Preserves

/-! ## Programs that do not abort -/

/-- No run of `m` aborts. -/
def NeverPanics (m : Prog σ ε δ κ α) : Prop := ∀ s p, (m.run s).1 ≠ .panic p

section NeverPanics

theorem NeverPanics.of_pure (a : α) : NeverPanics (pure a : Prog σ ε δ κ α) :=
  fun _ _ h => by cases h

theorem NeverPanics.of_throw (e : ε) : NeverPanics (throw e : Prog σ ε δ κ α) :=
  fun _ _ h => by cases h

theorem NeverPanics.of_read (f : σ → α) : NeverPanics (read f : Prog σ ε δ κ α) :=
  fun _ _ h => by cases h

theorem NeverPanics.of_update (f : σ → σ) : NeverPanics (update f : Prog σ ε δ κ Unit) :=
  fun _ _ h => by cases h

theorem NeverPanics.bind {m : Prog σ ε δ κ α} {f : α → Prog σ ε δ κ β}
    (hm : NeverPanics m) (hf : ∀ a, NeverPanics (f a)) : NeverPanics (m >>= f) := by
  intro s p
  have hstart := hm s p
  rw [run_bind]
  generalize m.run s = r at hstart ⊢
  obtain ⟨o, s'⟩ := r
  cases o with
  | ok a => exact hf a s' p
  | err e => exact fun h => by cases h
  | panic p' =>
      intro h
      cases h
      exact hstart rfl
  | pending c => exact fun h => by cases h

end NeverPanics

end Prog

end Program
