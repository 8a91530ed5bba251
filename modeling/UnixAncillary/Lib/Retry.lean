import UnixAncillary.Lib.Program

/-!
# Retried programs

`retry` runs a program again while it fails with an error that asks for it. The
states of two programs are compared through a map `q` that forgets what the retries
leave behind. `Refines` says that a program behaves like another one behind `q`, and
`Polls` is what a program must satisfy so that its retries stay invisible.
-/

namespace Program

namespace Prog

variable {σ ε δ κ α β : Type}

/-- What a retried program does after one run: go on with `next` or end. -/
def orRetry (again : ε → Bool) (next : σ → Outcome ε δ κ α × σ) :
    Outcome ε δ κ α × σ → Outcome ε δ κ α × σ
  | (.err e, s) => if again e then next s else (.err e, s)
  | (.ok a, s) => (.ok a, s)
  | (.panic p, s) => (.panic p, s)
  | (.pending c, s) => (.pending c, s)

/-- Run `m`, and at most `n` more times while its error asks for it. The program is
left pending on `wait` when it would have to run once more. -/
def retry (again : ε → Bool) (wait : κ) (m : Prog σ ε δ κ α) : Nat → Prog σ ε δ κ α
  | 0 => ⟨fun s => orRetry again (fun s => (.pending wait, s)) (m.run s)⟩
  | n + 1 => ⟨fun s => orRetry again (retry again wait m n).run (m.run s)⟩

@[simp] theorem run_retry_zero (again : ε → Bool) (wait : κ) (m : Prog σ ε δ κ α) (s : σ) :
    (m.retry again wait 0).run s = orRetry again (fun s => (.pending wait, s)) (m.run s) := rfl

@[simp] theorem run_retry_succ (again : ε → Bool) (wait : κ) (m : Prog σ ε δ κ α) (n : Nat)
    (s : σ) : (m.retry again wait (n + 1)).run s =
      orRetry again (m.retry again wait n).run (m.run s) := rfl

section Refinement

variable (inv : σ → Prop) (q : σ → σ)

/-- From every state in `inv`, `m` stays in `inv` and ends as `n` does from the state
behind `q`. -/
structure Refines (m n : Prog σ ε δ κ α) : Prop where
  keeps : Preserves inv m
  run_map : ∀ s, inv s → n.run (q s) = ((m.run s).1, q (m.run s).2)

/-- No error of `m` asks for a retry. -/
def Settles (again : ε → Bool) (m : Prog σ ε δ κ α) : Prop :=
  ∀ s, inv s → ∀ e, (m.run s).1 = .err e → again e = false

/-- `m` can be retried: when its error asks for it, then `m` has used up `fuel`, and
behind `q` a run from the new state is a run from the old one; otherwise `m` behaves
behind `q` as it does. -/
structure Polls (again : ε → Bool) (fuel : σ → Nat) (m : Prog σ ε δ κ α) : Prop where
  keeps : Preserves inv m
  again_run : ∀ s, inv s → ∀ e, (m.run s).1 = .err e → again e = true →
    fuel (m.run s).2 < fuel s ∧ m.run (q (m.run s).2) = m.run (q s)
  settled_run : ∀ s, inv s → (∀ e, (m.run s).1 = .err e → again e = false) →
    m.run (q s) = ((m.run s).1, q (m.run s).2)

end Refinement

variable {inv : σ → Prop} {q : σ → σ} {again : ε → Bool} {fuel : σ → Nat}

theorem orRetry_settled {next : σ → Outcome ε δ κ α × σ} {r : Outcome ε δ κ α × σ}
    (h : ∀ e, r.1 = .err e → again e = false) : orRetry again next r = r := by
  obtain ⟨o, s⟩ := r
  cases o with
  | err e => simp [orRetry, h e rfl]
  | ok a => rfl
  | panic p => rfl
  | pending c => rfl

theorem orRetry_again {next : σ → Outcome ε δ κ α × σ} {r : Outcome ε δ κ α × σ} {e : ε}
    (hr : r.1 = .err e) (h : again e = true) : orRetry again next r = next r.2 := by
  obtain ⟨o, s⟩ := r
  obtain rfl : o = .err e := hr
  simp [orRetry, h]

/-- An outcome either asks for a retry or is settled. -/
theorem again_or_settled (again : ε → Bool) (o : Outcome ε δ κ α) :
    (∃ e, o = .err e ∧ again e = true) ∨ ∀ e, o = .err e → again e = false := by
  cases o with
  | err e =>
      cases h : again e with
      | true => exact .inl ⟨e, rfl, h⟩
      | false =>
          refine .inr fun e' he => ?_
          cases he
          exact h
  | ok a => exact .inr fun e he => by cases he
  | panic p => exact .inr fun e he => by cases he
  | pending c => exact .inr fun e he => by cases he

/-- A run that does not ask for a retry is not repeated. -/
theorem run_retry_settled {m : Prog σ ε δ κ α} {s : σ}
    (h : ∀ e, (m.run s).1 = .err e → again e = false) (wait : κ) (n : Nat) :
    (m.retry again wait n).run s = m.run s := by
  cases n with
  | zero => rw [run_retry_zero, orRetry_settled h]
  | succ n => rw [run_retry_succ, orRetry_settled h]

/-- The rule of retried programs: what a settled run satisfies, the last run that asks for
another one satisfies, and a run before it inherits from what comes next, holds of `retry`. -/
theorem retry_induction {m : Prog σ ε δ κ α} {wait : κ}
    {P : Nat → σ → Outcome ε δ κ α × σ → Prop}
    (hsettled : ∀ n s, (∀ e, (m.run s).1 = .err e → again e = false) → P n s (m.run s))
    (hlast : ∀ s e, (m.run s).1 = .err e → again e = true → P 0 s (.pending wait, (m.run s).2))
    (hagain : ∀ n s e r, (m.run s).1 = .err e → again e = true → P n (m.run s).2 r →
      P (n + 1) s r) (n : Nat) (s : σ) : P n s ((m.retry again wait n).run s) := by
  induction n generalizing s with
  | zero =>
      rcases again_or_settled again (m.run s).1 with ⟨e, he, ha⟩ | hset
      · rw [run_retry_zero, orRetry_again he ha]
        exact hlast s e he ha
      · rw [run_retry_settled hset]
        exact hsettled 0 s hset
  | succ n ih =>
      rcases again_or_settled again (m.run s).1 with ⟨e, he, ha⟩ | hset
      · rw [run_retry_succ, orRetry_again he ha]
        exact hagain n s e _ he ha (ih _)
      · rw [run_retry_settled hset]
        exact hsettled (n + 1) s hset

/-- A program that does not abort does not abort when it is repeated. -/
theorem NeverPanics.retry {m : Prog σ ε δ κ α} (hm : NeverPanics m) (wait : κ) (n : Nat) :
    NeverPanics (m.retry again wait n) := by
  intro s p
  refine retry_induction (P := fun _ _ r => r.1 ≠ .panic p) ?_ ?_ ?_ n s
  · exact fun _ s _ => hm s p
  · exact fun _ _ _ _ h => by cases h
  · exact fun _ _ _ _ _ _ h => h

/-- What a program preserves, it preserves when it is repeated. -/
theorem Preserves.retry {m : Prog σ ε δ κ α} (hm : Preserves inv m) (wait : κ) (n : Nat) :
    Preserves inv (m.retry again wait n) := by
  intro s
  refine retry_induction (P := fun _ s r => inv s → inv r.2) ?_ ?_ ?_ n s
  · exact fun _ s _ hs => hm s hs
  · exact fun s _ _ _ hs => hm s hs
  · exact fun _ s _ _ _ _ hnext hs => hnext (hm s hs)

/-- Every run of `m` from a state in `inv` stays in `inv`, unless it fails with an error that
is not retried; then it ends in `post`. -/
def KeepsUntil (inv post : σ → Prop) (again : ε → Bool) (m : Prog σ ε δ κ α) : Prop :=
  ∀ s, inv s → inv (m.run s).2 ∨
    (post (m.run s).2 ∧ ∃ e, (m.run s).1 = .err e ∧ again e = false)

section KeepsUntil

variable {post : σ → Prop}

theorem KeepsUntil.of_preserves {m : Prog σ ε δ κ α} (h : Preserves inv m) :
    KeepsUntil inv post again m := fun s hs => .inl (h s hs)

theorem KeepsUntil.run_post {m : Prog σ ε δ κ α} (h : KeepsUntil inv post again m)
    (hpost : ∀ s, inv s → post s) {s : σ} (hs : inv s) : post (m.run s).2 :=
  (h s hs).elim (hpost _) And.left

theorem KeepsUntil.bind {m : Prog σ ε δ κ α} {f : α → Prog σ ε δ κ β}
    (hm : KeepsUntil inv post again m) (hf : ∀ a, KeepsUntil inv post again (f a)) :
    KeepsUntil inv post again (m >>= f) := by
  intro s hs
  have hkeep := hm s hs
  rw [run_bind]
  generalize m.run s = r at hkeep ⊢
  obtain ⟨o, s'⟩ := r
  cases o with
  | ok a =>
      rcases hkeep with hkeep | ⟨-, e, he, -⟩
      · exact hf a s' hkeep
      · cases he
  | err e =>
      refine hkeep.imp_right ?_
      rintro ⟨hpost, e', he, ha⟩
      cases he
      exact ⟨hpost, e, rfl, ha⟩
  | panic p => exact .inl (hkeep.resolve_right fun ⟨_, _, he, _⟩ => by cases he)
  | pending c => exact .inl (hkeep.resolve_right fun ⟨_, _, he, _⟩ => by cases he)

theorem KeepsUntil.retry {m : Prog σ ε δ κ α} (hm : KeepsUntil inv post again m) (wait : κ)
    (n : Nat) : KeepsUntil inv post again (m.retry again wait n) := by
  have hagain : ∀ s e, inv s → (m.run s).1 = .err e → again e = true → inv (m.run s).2 := by
    intro s e hs he ha
    refine (hm s hs).resolve_right ?_
    rintro ⟨-, e', he', ha'⟩
    cases he.symm.trans he'
    rw [ha] at ha'
    cases ha'
  intro s
  refine retry_induction (P := fun _ s r => inv s → inv r.2 ∨
    (post r.2 ∧ ∃ e, r.1 = .err e ∧ again e = false)) ?_ ?_ ?_ n s
  · exact fun _ s _ hs => hm s hs
  · exact fun s e he ha hs => .inl (hagain s e hs he ha)
  · exact fun _ s e _ he ha hnext hs => hnext (hagain s e hs he ha)

end KeepsUntil

/-! ## Refinement along the combinators -/

theorem Refines.of_pure (a : α) : Refines inv q (pure a : Prog σ ε δ κ α) (pure a) :=
  ⟨fun _ h => h, fun _ _ => rfl⟩

theorem Refines.of_throw (e : ε) : Refines inv q (throw e : Prog σ ε δ κ α) (throw e) :=
  ⟨fun _ h => h, fun _ _ => rfl⟩

theorem Refines.of_ofExcept (x : Except δ α) :
    Refines inv q (ofExcept x : Prog σ ε δ κ α) (ofExcept x) := by
  cases x with
  | ok a => exact ⟨fun _ h => h, fun _ _ => rfl⟩
  | error p => exact ⟨fun _ h => h, fun _ _ => rfl⟩

theorem Refines.of_okOr (e : ε) (x : Option α) :
    Refines inv q (okOr e x : Prog σ ε δ κ α) (okOr e x) := by
  cases x with
  | some a => exact ⟨fun _ h => h, fun _ _ => rfl⟩
  | none => exact of_throw e

theorem Refines.of_read {f : σ → α} (h : ∀ s, f (q s) = f s) :
    Refines inv q (read f : Prog σ ε δ κ α) (read f) :=
  ⟨fun _ hs => hs, fun s _ => by rw [run_read, run_read, h]⟩

theorem Refines.of_update {f : σ → σ} (hinv : ∀ s, inv s → inv (f s))
    (h : ∀ s, f (q s) = q (f s)) :
    Refines inv q (update f : Prog σ ε δ κ Unit) (update f) :=
  ⟨hinv, fun s _ => by rw [run_update, run_update, h]⟩

theorem Refines.of_withLocal {τ ε' : Type} (init : τ) (f : ε' → ε) (m : Prog τ ε' δ κ α) :
    Refines inv q (withLocal init f m : Prog σ ε δ κ (α × τ)) (withLocal init f m) := by
  refine ⟨.of_withLocal init f m, fun s _ => ?_⟩
  simp only [withLocal]
  split <;> rfl

theorem Refines.bind {m n : Prog σ ε δ κ α} {f g : α → Prog σ ε δ κ β}
    (hm : Refines inv q m n) (hf : ∀ a, Refines inv q (f a) (g a)) :
    Refines inv q (m >>= f) (n >>= g) := by
  constructor
  · exact hm.keeps.bind fun a => (hf a).keeps
  · intro s hs
    have hkeep := hm.keeps s hs
    rw [run_bind, run_bind, hm.run_map s hs]
    generalize m.run s = r at hkeep ⊢
    obtain ⟨o, s'⟩ := r
    cases o with
    | ok a => exact (hf a).run_map s' hkeep
    | err e => rfl
    | panic p => rfl
    | pending c => rfl

theorem Refines.onError {m n : Prog σ ε δ κ α} {cleanup : σ → σ} (hm : Refines inv q m n)
    (hinv : ∀ s, inv s → inv (cleanup s)) (h : ∀ s, cleanup (q s) = q (cleanup s)) :
    Refines inv q (m.onError cleanup) (n.onError cleanup) := by
  constructor
  · exact hm.keeps.onError hinv
  · intro s hs
    simp only [Prog.onError, hm.run_map s hs]
    obtain ⟨o, s'⟩ := m.run s
    cases o with
    | err e => simp only [h]
    | ok a => rfl
    | panic p => rfl
    | pending c => rfl

/-- Refinements compose. -/
theorem Refines.trans {inv' : σ → Prop} {q' : σ → σ} {m n k : Prog σ ε δ κ α}
    (h : Refines inv q m n) (h' : Refines inv' q' n k) (hinv : ∀ s, inv s → inv' (q s)) :
    Refines inv (q' ∘ q) m k := by
  constructor
  · exact h.keeps
  · intro s hs
    have hrun := h'.run_map (q s) (hinv s hs)
    rw [h.run_map s hs] at hrun
    exact hrun

/-- A retried program behaves like another one when each run of it does. -/
theorem Refines.retry {m m' : Prog σ ε δ κ α} (hm : Refines inv q m m') (wait : κ) (n : Nat) :
    Refines inv q (m.retry again wait n) (m'.retry again wait n) := by
  refine ⟨hm.keeps.retry wait n, ?_⟩
  induction n with
  | zero =>
      intro s hs
      rw [run_retry_zero, run_retry_zero, hm.run_map s hs]
      rcases again_or_settled again (m.run s).1 with ⟨e, he, ha⟩ | hset
      · rw [orRetry_again he ha, orRetry_again (r := ((m.run s).1, q (m.run s).2)) he ha]
      · rw [orRetry_settled hset, orRetry_settled (r := ((m.run s).1, q (m.run s).2)) hset]
  | succ n ih =>
      intro s hs
      rw [run_retry_succ, run_retry_succ, hm.run_map s hs]
      rcases again_or_settled again (m.run s).1 with ⟨e, he, ha⟩ | hset
      · rw [orRetry_again he ha, orRetry_again (r := ((m.run s).1, q (m.run s).2)) he ha]
        exact ih _ (hm.keeps s hs)
      · rw [orRetry_settled hset, orRetry_settled (r := ((m.run s).1, q (m.run s).2)) hset]

/-! ## Simulation up to the names of calls -/

/-- Behind `q`, and with its calls renamed by `f`, `m` is `n` from every state in `inv`. -/
def Simulates (inv : σ → Prop) (q : σ → σ) (f : κ → κ) (m n : Prog σ ε δ κ α) : Prop :=
  Refines inv q (m.renameCalls f) n

section Simulates

variable {f : κ → κ}

theorem Simulates.run_map {m n : Prog σ ε δ κ α} (h : Simulates inv q f m n) {s : σ}
    (hs : inv s) : n.run (q s) = ((m.run s).1.mapCall f, q (m.run s).2) :=
  Refines.run_map h s hs

theorem Simulates.of_run_map {m n : Prog σ ε δ κ α} (hkeep : Preserves inv m)
    (h : ∀ s, inv s → n.run (q s) = ((m.run s).1.mapCall f, q (m.run s).2)) :
    Simulates inv q f m n :=
  ⟨hkeep, h⟩

theorem Simulates.of_pure (a : α) : Simulates inv q f (pure a : Prog σ ε δ κ α) (pure a) :=
  Refines.of_pure a

theorem Simulates.of_throw (e : ε) : Simulates inv q f (throw e : Prog σ ε δ κ α) (throw e) :=
  Refines.of_throw e

theorem Simulates.of_ofExcept (x : Except δ α) :
    Simulates inv q f (ofExcept x : Prog σ ε δ κ α) (ofExcept x) := by
  refine .of_run_map (.of_ofExcept x) fun _ _ => ?_
  cases x <;> rfl

theorem Simulates.of_read {g : σ → α} (h : ∀ s, g (q s) = g s) :
    Simulates inv q f (read g : Prog σ ε δ κ α) (read g) :=
  Refines.of_read h

theorem Simulates.of_update {g g' : σ → σ} (hinv : ∀ s, inv s → inv (g s))
    (h : ∀ s, inv s → g' (q s) = q (g s)) :
    Simulates inv q f (update g : Prog σ ε δ κ Unit) (update g') :=
  .of_run_map (.of_update hinv) fun s hs => by rw [run_update, run_update, h s hs]; rfl

theorem Simulates.bind {m n : Prog σ ε δ κ α} {g k : α → Prog σ ε δ κ β}
    (hm : Simulates inv q f m n) (hg : ∀ a, Simulates inv q f (g a) (k a)) :
    Simulates inv q f (m >>= g) (n >>= k) := by
  rw [Simulates, renameCalls_bind]
  exact Refines.bind hm hg

theorem Simulates.onError {m n : Prog σ ε δ κ α} {cleanup : σ → σ}
    (hm : Simulates inv q f m n) (hinv : ∀ s, inv s → inv (cleanup s))
    (h : ∀ s, cleanup (q s) = q (cleanup s)) :
    Simulates inv q f (m.onError cleanup) (n.onError cleanup) := by
  have hkeep : Preserves inv m := hm.keeps
  refine .of_run_map (hkeep.onError hinv) fun s hs => ?_
  simp only [Prog.onError, hm.run_map hs]
  obtain ⟨o, s'⟩ := m.run s
  cases o <;> simp only [Outcome.mapCall, h]

/-- A renamed program is repeated like the program. -/
theorem run_retry_renameCalls (m : Prog σ ε δ κ α) (wait : κ) (n : Nat) (s : σ) :
    ((m.renameCalls f).retry again (f wait) n).run s =
      ((m.retry again wait n).renameCalls f).run s := by
  have hstep : ∀ (next next' : σ → Outcome ε δ κ α × σ) (r : Outcome ε δ κ α × σ),
      (∀ s, next' s = ((next s).1.mapCall f, (next s).2)) →
      orRetry again next' (r.1.mapCall f, r.2) =
        ((orRetry again next r).1.mapCall f, (orRetry again next r).2) := by
    intro next next' r hnext
    obtain ⟨o, s'⟩ := r
    cases o with
    | err e =>
        simp only [orRetry, Outcome.mapCall]
        split
        · exact hnext s'
        · rfl
    | ok a => rfl
    | panic p => rfl
    | pending c => rfl
  induction n generalizing s with
  | zero => exact hstep _ _ (m.run s) fun _ => rfl
  | succ n ih => exact hstep _ _ (m.run s) ih

/-- A program on the second component of the state. -/
theorem Simulates.onSnd {τ : Type} {inv : τ → Prop} {q : τ → τ} {m n : Prog τ ε δ κ α}
    (hm : Simulates inv q f m n) :
    Simulates (fun s => inv s.2) (Prod.map id q : σ × τ → σ × τ) f (onSnd m) (onSnd n) := by
  have hkeep : Preserves inv m := hm.keeps
  refine .of_run_map (fun s hs => hkeep s.2 hs) fun s hs => ?_
  simp only [Prog.onSnd, Prod.map_snd, Prod.map_fst, hm.run_map hs]
  rfl

/-- A simulation behind a map that the program does not see. -/
theorem Simulates.comp {inv' : σ → Prop} {q' : σ → σ} {m n : Prog σ ε δ κ α}
    (hm : Refines inv q m m) (hn : Simulates inv' q' f m n) (hinv : ∀ s, inv s → inv' (q s)) :
    Simulates inv (q' ∘ q) f m n := by
  refine .of_run_map hm.keeps fun s hs => ?_
  have hrun := hn.run_map (hinv s hs)
  rw [hm.run_map s hs] at hrun
  exact hrun

theorem Simulates.retry {m n : Prog σ ε δ κ α} (hm : Simulates inv q f m n) {wait : κ}
    (hwait : f wait = wait) (k : Nat) :
    Simulates inv q f (m.retry again wait k) (n.retry again wait k) := by
  have hkeep : Preserves inv m := hm.keeps
  have hretry : Refines inv q ((m.renameCalls f).retry again wait k)
      (n.retry again wait k) := Refines.retry hm wait k
  refine .of_run_map (hkeep.retry wait k) fun s hs => ?_
  have hrename : ((m.renameCalls f).retry again (f wait) k).run s =
      ((m.retry again wait k).renameCalls f).run s := run_retry_renameCalls m wait k s
  rw [hwait] at hrename
  rw [hretry.run_map s hs, hrename]
  rfl

end Simulates

/-! ## Settled programs -/

theorem Settles.of_pure (a : α) : Settles inv again (pure a : Prog σ ε δ κ α) :=
  fun _ _ _ he => by cases he

theorem Settles.of_update (f : σ → σ) : Settles inv again (update f : Prog σ ε δ κ Unit) :=
  fun _ _ _ he => by cases he

theorem Settles.of_read (f : σ → α) : Settles inv again (read f : Prog σ ε δ κ α) :=
  fun _ _ _ he => by cases he

theorem Settles.of_ofExcept (x : Except δ α) :
    Settles inv again (ofExcept x : Prog σ ε δ κ α) := by
  intro s _ e he
  cases x <;> cases he

theorem Settles.of_throw {e : ε} (h : again e = false) :
    Settles inv again (throw e : Prog σ ε δ κ α) := by
  intro s _ e' he
  cases he
  exact h

theorem Settles.bind {m : Prog σ ε δ κ α} {f : α → Prog σ ε δ κ β}
    (hkeep : Preserves inv m) (hm : Settles inv again m)
    (hf : ∀ a, Settles inv again (f a)) : Settles inv again (m >>= f) := by
  intro s hs e he
  have hkeep := hkeep s hs
  have hset := hm s hs
  rw [run_bind] at he
  generalize m.run s = r at hkeep hset he
  obtain ⟨o, s'⟩ := r
  cases o with
  | ok a => exact hf a s' hkeep e he
  | err e' =>
      cases he
      exact hset e rfl
  | panic p => cases he
  | pending c => cases he

theorem Settles.onError {m : Prog σ ε δ κ α} {cleanup : σ → σ} (hm : Settles inv again m) :
    Settles inv again (m.onError cleanup) := by
  intro s hs e he
  have hset := hm s hs
  simp only [Prog.onError] at he
  split at he
  case h_1 e' s' hr =>
      cases he
      exact hset e (by rw [hr])
  case h_2 r hr => exact hset e he

/-! ## Polled programs -/

/-- A polled program followed by one that is never retried. -/
theorem Polls.bind {m : Prog σ ε δ κ α} {f : α → Prog σ ε δ κ β}
    (hm : Polls inv q again fuel m) (hf : ∀ a, Refines inv q (f a) (f a))
    (hset : ∀ a, Settles inv again (f a)) : Polls inv q again fuel (m >>= f) := by
  constructor
  · exact hm.keeps.bind fun a => (hf a).keeps
  · intro s hs e he ha
    have hkeep := hm.keeps s hs
    have hagain := hm.again_run s hs
    rw [run_bind, run_bind (m := m) (s := q s)]
    rw [run_bind] at he ⊢
    generalize m.run s = r at hkeep hagain he ⊢
    obtain ⟨o, s'⟩ := r
    cases o with
    | ok a =>
        have hfalse := hset a s' hkeep e he
        rw [ha] at hfalse
        cases hfalse
    | err e' =>
        cases he
        obtain ⟨hfuel, hrun⟩ := hagain e rfl ha
        exact ⟨hfuel, by rw [andThen, hrun]⟩
    | panic p => cases he
    | pending c => cases he
  · intro s hs hsettled
    have hkeep := hm.keeps s hs
    have hrun := hm.settled_run s hs
    rw [run_bind, run_bind]
    rw [run_bind] at hsettled
    generalize m.run s = r at hkeep hrun hsettled ⊢
    obtain ⟨o, s'⟩ := r
    cases o with
    | ok a =>
        rw [hrun fun e he => by cases he]
        exact (hf a).run_map s' hkeep
    | err e =>
        rw [hrun fun e' he => by cases he; exact hsettled e rfl]
        rfl
    | panic p =>
        rw [hrun fun e he => by cases he]
        rfl
    | pending c =>
        rw [hrun fun e he => by cases he]
        rfl

/-- A polled program after a check that changes nothing when it passes, and that passes
alike again after a failure that asks for a retry. -/
theorem Polls.guard_bind {m : Prog σ ε δ κ α} {f : α → Prog σ ε δ κ β}
    (hm : Refines inv q m m) (hok : ∀ s a, (m.run s).1 = .ok a → (m.run s).2 = s)
    (hset : Settles inv again m)
    (hf : ∀ s a, inv s → (m.run s).1 = .ok a → Polls inv q again fuel (f a))
    (hagain : ∀ s a e, inv s → (m.run s).1 = .ok a → ((f a).run s).1 = .err e →
      again e = true → (m.run ((f a).run s).2).1 = .ok a) : Polls inv q again fuel (m >>= f) := by
  have hpass : ∀ s a, (m.run s).1 = .ok a → m.run s = (.ok a, s) := fun s a h =>
    Prod.ext h (hok s a h)
  constructor
  · intro s hs
    have hkeep := hm.keeps s hs
    rw [run_bind]
    cases ho : (m.run s).1 with
    | ok a =>
        rw [hpass s a ho]
        exact (hf s a hs ho).keeps s hs
    | err e => rwa [show m.run s = (.err e, (m.run s).2) from Prod.ext ho rfl]
    | panic p => rwa [show m.run s = (.panic p, (m.run s).2) from Prod.ext ho rfl]
    | pending c => rwa [show m.run s = (.pending c, (m.run s).2) from Prod.ext ho rfl]
  · intro s hs e he ha
    rw [run_bind] at he
    cases ho : (m.run s).1 with
    | ok a =>
        have hrun := hpass s a ho
        rw [hrun] at he
        have hpoll := hf s a hs ho
        have hkeep := hpoll.keeps s hs
        have hback := hpass _ a (hagain s a e hs ho he ha)
        obtain ⟨hfuel, hstep⟩ := hpoll.again_run s hs e he ha
        have hafter : ((m >>= f).run s).2 = ((f a).run s).2 := by
          rw [run_bind, hrun]
          rfl
        rw [hafter, run_bind, run_bind (s := q s), hm.run_map _ hkeep, hm.run_map _ hs, hback, hrun]
        exact ⟨hfuel, hstep⟩
    | err e' =>
        rw [show m.run s = (.err e', (m.run s).2) from Prod.ext ho rfl] at he
        cases he
        have hfalse := hset s hs e ho
        rw [ha] at hfalse
        cases hfalse
    | panic p =>
        rw [show m.run s = (.panic p, (m.run s).2) from Prod.ext ho rfl] at he
        cases he
    | pending c =>
        rw [show m.run s = (.pending c, (m.run s).2) from Prod.ext ho rfl] at he
        cases he
  · intro s hs hsettled
    rw [run_bind] at hsettled ⊢
    rw [run_bind, hm.run_map s hs]
    cases ho : (m.run s).1 with
    | ok a =>
        rw [hpass s a ho] at hsettled ⊢
        exact (hf s a hs ho).settled_run s hs hsettled
    | err e => rw [show m.run s = (.err e, (m.run s).2) from Prod.ext ho rfl]; rfl
    | panic p => rw [show m.run s = (.panic p, (m.run s).2) from Prod.ext ho rfl]; rfl
    | pending c => rw [show m.run s = (.pending c, (m.run s).2) from Prod.ext ho rfl]; rfl

/-- Retrying a polled program is, behind `q`, one run of it. -/
theorem Polls.refines {m : Prog σ ε δ κ α} (hm : Polls inv q again fuel m) (wait : κ) :
    Refines inv q ⟨fun s => (m.retry again wait (fuel s)).run s⟩ m := by
  have hall : ∀ n s, inv s → fuel s ≤ n → inv ((m.retry again wait n).run s).2 ∧
      m.run (q s) = (((m.retry again wait n).run s).1, q ((m.retry again wait n).run s).2) := by
    intro n s
    refine retry_induction (P := fun n s r => inv s → fuel s ≤ n →
      inv r.2 ∧ m.run (q s) = (r.1, q r.2)) ?_ ?_ ?_ n s
    · exact fun _ s hset hs _ => ⟨hm.keeps s hs, hm.settled_run s hs hset⟩
    · intro s e he ha hs hle
      have hlt := (hm.again_run s hs e he ha).1
      omega
    · intro n s e r he ha hnext hs hle
      obtain ⟨hlt, hrun⟩ := hm.again_run s hs e he ha
      rw [← hrun]
      exact hnext (hm.keeps s hs) (by omega)
  exact ⟨fun s hs => (hall _ s hs (Nat.le_refl _)).1, fun s hs => (hall _ s hs (Nat.le_refl _)).2⟩

end Prog

end Program
