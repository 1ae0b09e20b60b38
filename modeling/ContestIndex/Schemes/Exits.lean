import Mathlib.Tactic.Common

/-! @scheme exits | name:Programs that may exit | layer:library

    A program reads and writes a state and may end the whole process; the state at the exit stays
    visible. `Ensures E P x Q` says what holds behind `x` if `P` holds before it:

        P ──x──▶ Q a     the program goes on with `a`
          └────▶ E       the process has ended

    There is a rule for each construct; a loop has an invariant for every round. -/

namespace Schemes

variable {σ α β : Type} {E P : σ → Prop}

abbrev Prog (σ α : Type) := OptionT (StateM σ) α

namespace Prog

/-- Run the program from a state. -/
def exec (x : Prog σ α) (s : σ) : Option α × σ := x.run.run s

/-- The value of `o`; without one the process ends. -/
def ofOption : Option α → Prog σ α
  | some a => pure a
  | none => failure

/-- The body, `n` times. -/
def times (body : Prog σ Unit) : Nat → Prog σ Unit
  | 0 => pure ()
  | n + 1 => do
    body
    times body n

@[simp] theorem exec_pure (a : α) (s : σ) : (pure a : Prog σ α).exec s = (some a, s) := rfl
@[simp] theorem exec_failure (s : σ) : (failure : Prog σ α).exec s = (none, s) := rfl
@[simp] theorem exec_get (s : σ) : (get : Prog σ σ).exec s = (some s, s) := rfl
@[simp] theorem exec_modify (f : σ → σ) (s : σ) :
    (modify f : Prog σ PUnit).exec s = (some ⟨⟩, f s) := rfl

theorem exec_bind (x : Prog σ α) (f : α → Prog σ β) (s : σ) :
    (x >>= f).exec s = match x.exec s with
      | (some a, s') => (f a).exec s'
      | (none, s') => (none, s') := by
  unfold exec
  rw [OptionT.run_bind]
  simp only [Option.elimM, StateT.run_bind]
  rcases x.run.run s with ⟨_ | a, s'⟩
  · rfl
  · rfl

/-- From a state with `P` the program ends with `Q`, or exits with `E`. -/
def Ensures (E P : σ → Prop) (x : Prog σ α) (Q : α → σ → Prop) : Prop :=
  ∀ s, P s → match x.exec s with
    | (some a, s') => Q a s'
    | (none, s') => E s'

namespace Ensures

theorem pure {a : α} {Q : α → σ → Prop} (h : ∀ s, P s → Q a s) : Ensures E P (Pure.pure a) Q := h

/-- RULE (exit). -/
theorem failure {Q : α → σ → Prop} (h : ∀ s, P s → E s) : Ensures E P failure Q := h

theorem get {Q : σ → σ → Prop} (h : ∀ s, P s → Q s s) : Ensures E P MonadState.get Q := h

theorem update {f : σ → σ} {Q : PUnit → σ → Prop} (h : ∀ s, P s → Q ⟨⟩ (f s)) :
    Ensures E P (modify f) Q := h

/-- RULE (sequence). -/
theorem bind {x : Prog σ α} {f : α → Prog σ β} {R : α → σ → Prop} {Q : β → σ → Prop}
    (hx : Ensures E P x R) (hf : ∀ a, Ensures E (R a) (f a) Q) : Ensures E P (x >>= f) Q := by
  intro s hs
  have hxs := hx s hs
  rw [exec_bind]
  rcases hr : x.exec s with ⟨_ | a, s'⟩ <;> rw [hr] at hxs
  · exact hxs
  · exact hf a s' hxs

/-- RULE (consequence). -/
theorem mono {x : Prog σ α} {P' : σ → Prop} {Q Q' : α → σ → Prop} (h : Ensures E P x Q)
    (hP : ∀ s, P' s → P s) (hQ : ∀ a s, Q a s → Q' a s) : Ensures E P' x Q' := by
  intro s hs
  have hxs := h s (hP s hs)
  rcases hr : x.exec s with ⟨_ | a, s'⟩ <;> rw [hr] at hxs
  · exact hxs
  · exact hQ a s' hxs

/-- A fact that does not depend on the state is a hypothesis. -/
theorem assuming {x : Prog σ α} {φ : Prop} {Q : α → σ → Prop} (h : φ → Ensures E P x Q) :
    Ensures E (fun s => P s ∧ φ) x Q := fun s hs => h hs.2 s hs.1

/-- RULE (case distinction). -/
theorem ite {c : Prop} [Decidable c] {x y : Prog σ α} {Q : α → σ → Prop}
    (hx : c → Ensures E P x Q) (hy : ¬c → Ensures E P y Q) :
    Ensures E P (if c then x else y) Q := by
  split
  next h => exact hx h
  next h => exact hy h

theorem ofOption {o : Option α} {Q : α → σ → Prop} (hsome : ∀ a, o = some a → ∀ s, P s → Q a s)
    (hnone : o = none → ∀ s, P s → E s) : Ensures E P (ofOption o) Q := by
  cases o with
  | none => exact failure (hnone rfl)
  | some a => exact pure (hsome a rfl)

/-- RULE (loop): the invariant speaks about the number of rounds that are done. -/
theorem times {body : Prog σ Unit} {I : Nat → σ → Prop} {n : Nat}
    (h : ∀ i < n, Ensures E (I i) body fun _ => I (i + 1)) :
    Ensures E (I 0) (times body n) fun _ => I n := by
  induction n generalizing I with
  | zero => exact pure fun _ hs => hs
  | succ n ih =>
    refine bind (h 0 n.succ_pos) fun _ => ?_
    exact @ih (fun i => I (i + 1)) fun i hi => h (i + 1) (Nat.succ_lt_succ hi)

/-- RULE (loop over a list): one result for each element. -/
theorem mapM {γ : Type} {f : γ → Prog σ α} {l : List γ} (h : ∀ c ∈ l, Ensures E P (f c) fun _ => P) :
    Ensures E P (l.mapM f) fun as s => P s ∧ as.length = l.length := by
  induction l with
  | nil => exact pure fun _ hs => ⟨hs, rfl⟩
  | cons c l ih =>
    rw [List.mapM_cons]
    refine bind (h c List.mem_cons_self) fun a => ?_
    refine bind (ih fun c' hc' => h c' (List.mem_cons_of_mem c hc')) fun as => ?_
    exact pure fun s hs => ⟨hs.1, congrArg Nat.succ hs.2⟩

end Ensures

end Prog

end Schemes
