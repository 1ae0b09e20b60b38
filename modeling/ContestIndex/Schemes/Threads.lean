import ContestIndex.Schemes.Run
import Mathlib.Order.BooleanAlgebra.Set
import Mathlib.Logic.Relation
import Mathlib.Tactic.Common

/-! @scheme threads | name:Threads that share mutexes | layer:library

    Any number of threads run procedures that lock and unlock mutexes and change a shared state. What a
    thread wants while it holds something is kept in order by a rank of the mutexes, which may depend on
    the shared state. A thread therefore says what it relies on (`rely`: what the others leave as it is)
    and keeps to what they rely on.

        lock m ▸ act ▸ unlock m ▸ … ▸ ret          a thread
          │       └ inv, and rely of every other thread
          └ above all that the thread holds, in every state that its rely allows

    If all procedures keep to it, no reachable state has a cycle of threads that wait for each other. -/

namespace Schemes

abbrev ThreadId := Nat

/-- What is left of a procedure: mutexes `μ`, shared state `σ`, answers of the environment `ρ`, and places
    to continue at `π`. -/
inductive Code (μ σ ρ π : Type) where
  | ret
  | jump (p : π)
  | lock (m : μ) (rest : Code μ σ ρ π)
  | unlock (m : μ) (rest : Code μ σ ρ π)
  /-- one step on the shared state, if it is possible, and what follows from the state before it -/
  | act (f : σ → ρ → Option σ) (rest : σ → ρ → Code μ σ ρ π)

structure Procedures (μ σ ρ π : Type) where
  body : ThreadId → π → Code μ σ ρ π
  /-- the places that are procedures, and when one may be called -/
  admits : σ → π → Bool

structure Threads (μ σ ρ π : Type) where
  shared : σ
  owner : μ → Option ThreadId
  code : ThreadId → Code μ σ ρ π

/-- No thread is in a procedure. -/
def Threads.start {μ σ ρ π : Type} (s : σ) : Threads μ σ ρ π := ⟨s, fun _ => none, fun _ => .ret⟩

inductive Turn (ρ π : Type) where
  | call (c : ThreadId) (p : π)
  /-- the next step of the procedure that the thread is in -/
  | advance (c : ThreadId) (r : ρ)

variable {μ σ ρ π : Type}

namespace Threads
variable (t : Threads μ σ ρ π)

def goto (c : ThreadId) (code : Code μ σ ρ π) : Threads μ σ ρ π :=
  { t with code := Function.update t.code c code }

def setOwner [DecidableEq μ] (m : μ) (holder : Option ThreadId) : Threads μ σ ρ π :=
  { t with owner := Function.update t.owner m holder }

@[simp] theorem goto_shared (c : ThreadId) (code : Code μ σ ρ π) :
    (t.goto c code).shared = t.shared := rfl

/-- The mutex that the next step of the thread locks. -/
def wants (c : ThreadId) : Option μ :=
  match t.code c with
  | .lock m _ => some m
  | _ => none

/-- What the thread holds. -/
def held (c : ThreadId) : Set μ := {m | t.owner m = some c}

/-- The thread `c` waits for a mutex that the thread `d` holds. -/
def WaitsFor (c d : ThreadId) : Prop := ∃ m, t.wants c = some m ∧ t.owner m = some d

/-- A cycle of threads, each waiting for the next. -/
def Deadlock : Prop := ∃ c, Relation.TransGen t.WaitsFor c c

end Threads

/-- A thread steps. It waits while another one holds what it wants, and unlocks only what it holds. -/
def Procedures.step [DecidableEq μ] (P : Procedures μ σ ρ π) (t : Threads μ σ ρ π) :
    Turn ρ π → Option (Threads μ σ ρ π)
  | .call c p =>
    match t.code c with
    | .ret => if P.admits t.shared p then some (t.goto c (P.body c p)) else none
    | _ => none
  | .advance c r =>
    match t.code c with
    | .ret => none
    | .jump p => some (t.goto c (P.body c p))
    | .lock m rest =>
      if t.owner m = none then some ((t.setOwner m (some c)).goto c rest) else none
    | .unlock m rest =>
      if t.owner m = some c then some ((t.setOwner m none).goto c rest) else none
    | .act f rest => (f t.shared r).map fun s => { t with shared := s }.goto c (rest t.shared r)

/-! ### The order of the mutexes -/

structure Discipline (μ σ π : Type) where
  inv : σ → Prop
  /-- what the other threads leave to a thread -/
  rely : ThreadId → σ → σ → Prop
  rank : σ → μ → Nat
  /-- what a thread knows at a place, with what it holds there -/
  pre : ThreadId → π → Set μ → σ → Prop
  refl : ∀ c s, rely c s s
  trans : ∀ c s s' s'', rely c s s' → rely c s' s'' → rely c s s''
  pre_mono : ∀ c p held s s', rely c s s' → pre c p held s → pre c p held s'

namespace Discipline
variable (D : Discipline μ σ π)

/-- A state that the thread may find after `s`, when it steps next. -/
def Later (c : ThreadId) (s s' : σ) : Prop := D.rely c s s' ∧ D.inv s'

/-- The mutex is above all that is held, now and later. -/
def Above (c : ThreadId) (held : Set μ) (s : σ) (m : μ) : Prop :=
  ∀ s', D.Later c s s' → ∀ n ∈ held, D.rank s' n < D.rank s' m

/-- The thread keeps to the order and to what the others rely on, whatever they do meanwhile. -/
def Safe (c : ThreadId) : Code μ σ ρ π → Set μ → σ → Prop
  | .ret, held, _ => held = ∅
  | .jump p, held, s => D.pre c p held s
  | .lock m rest, held, s =>
    D.Above c held s m ∧ ∀ s', D.Later c s s' → Safe c rest (insert m held) s'
  | .unlock m rest, held, s => ∀ s', D.Later c s s' → Safe c rest (held \ {m}) s'
  | .act f rest, held, s => ∀ s', D.Later c s s' → ∀ r s'', f s' r = some s'' →
      D.inv s'' ∧ (∀ d, d ≠ c → D.rely d s' s'') ∧ Safe c (rest s' r) held s''

/-- All procedures keep to it, from what is known where they are called or continued. -/
structure Enforced (P : Procedures μ σ ρ π) : Prop where
  body : ∀ c p held s, D.inv s → D.pre c p held s → D.Safe c (P.body c p) held s
  entry : ∀ c p s, D.inv s → P.admits s p → D.pre c p ∅ s

variable {D} {c : ThreadId} {s s' s'' : σ} {held : Set μ} {m : μ} {code rest : Code μ σ ρ π}

theorem Later.refl (hinv : D.inv s) : D.Later c s s := ⟨D.refl c s, hinv⟩

theorem Later.trans (h : D.Later c s s') (h' : D.Later c s' s'') : D.Later c s s'' :=
  ⟨D.trans c s s' s'' h.1 h'.1, h'.2⟩

/-- The others step before the thread does. -/
theorem Later.after (hrely : D.rely c s s') (h : D.Later c s' s'') : D.Later c s s'' :=
  ⟨D.trans c s s' s'' hrely h.1, h.2⟩

theorem Above.mono (h : D.Above c held s m) (hrely : D.rely c s s') : D.Above c held s' m :=
  fun s'' hlater => h s'' (hlater.after hrely)

/-- What others do in the meantime does not matter. -/
theorem Safe.mono (h : D.Safe c code held s) (hrely : D.rely c s s') : D.Safe c code held s' := by
  cases code with
  | ret => exact h
  | jump p => exact D.pre_mono c p held s s' hrely h
  | lock m rest => exact ⟨h.1.mono hrely, fun s'' hlater => h.2 s'' (hlater.after hrely)⟩
  | unlock m rest => exact fun s'' hlater => h s'' (hlater.after hrely)
  | act f rest => exact fun s'' hlater => h s'' (hlater.after hrely)

/-- RULE (section): one step under a mutex. -/
theorem Safe.under {f : σ → ρ → Option σ} {rest : σ → ρ → Code μ σ ρ π}
    (habove : D.Above c held s m)
    (hact : ∀ s₁, D.Later c s s₁ → ∀ r s₂, f s₁ r = some s₂ →
      D.inv s₂ ∧ (∀ d, d ≠ c → D.rely d s₁ s₂) ∧
        ∀ s₃, D.Later c s₂ s₃ → D.Safe c (rest s₁ r) held s₃) :
    D.Safe c (.lock m (.act f fun s r => .unlock m (rest s r))) held s := by
  refine ⟨habove, fun s₀ h₀ s₁ h₁ r s₂ hf => ?_⟩
  obtain ⟨hinv, hothers, hrest⟩ := hact s₁ (h₀.trans h₁) r s₂ hf
  refine ⟨hinv, hothers, fun s₃ h₃ => ?_⟩
  have hnew : m ∉ held := fun hm => lt_irrefl _ (habove s₀ h₀ m hm)
  rw [Set.insert_sdiff_self_of_notMem hnew]
  exact hrest s₃ h₃

end Discipline

/-! ### Runs -/

namespace Threads
variable (t : Threads μ σ ρ π) {c d : ThreadId} {m : μ}

@[simp] theorem held_goto (code : Code μ σ ρ π) : (t.goto c code).held d = t.held d := rfl

theorem held_lock [DecidableEq μ] :
    (t.setOwner m (some c)).held c = insert m (t.held c) := by
  ext n
  by_cases hn : n = m
  · simp [held, setOwner, hn]
  · simp [held, setOwner, hn]

theorem held_unlock [DecidableEq μ] : (t.setOwner m none).held c = t.held c \ {m} := by
  ext n
  by_cases hn : n = m
  · simp [held, setOwner, hn]
  · simp [held, setOwner, hn]

/-- A change of the owner from or to somebody else. -/
theorem held_setOwner_of_ne [DecidableEq μ] {holder : Option ThreadId} (hold : t.owner m ≠ some d)
    (hnew : holder ≠ some d) : (t.setOwner m holder).held d = t.held d := by
  ext n
  by_cases hn : n = m
  · subst hn
    simp [held, setOwner, hold, hnew]
  · simp [held, setOwner, hn]

end Threads

namespace Discipline
variable {D : Discipline μ σ π} {P : Procedures μ σ ρ π} {t t' : Threads μ σ ρ π}

/-- Every thread keeps to the discipline from where it is. -/
structure Kept (D : Discipline μ σ π) (t : Threads μ σ ρ π) : Prop where
  inv : D.inv t.shared
  safe : ∀ c, D.Safe c (t.code c) (t.held c) t.shared

theorem Kept.start {s : σ} (hinv : D.inv s) : D.Kept (Threads.start s : Threads μ σ ρ π) where
  inv := hinv
  safe c := by
    have hnone : (Threads.start s : Threads μ σ ρ π).held c = ∅ := by simp [Threads.start, Threads.held]
    exact hnone

/-- One thread moves on, the others stay where they are. -/
theorem Kept.goto {c : ThreadId} {code : Code μ σ ρ π} (hinv : D.inv t.shared)
    (hself : D.Safe c code (t.held c) t.shared)
    (hothers : ∀ d, d ≠ c → D.Safe d (t.code d) (t.held d) t.shared) : D.Kept (t.goto c code) where
  inv := hinv
  safe d := by
    rw [Threads.held_goto, Threads.goto_shared]
    by_cases hd : d = c
    · subst hd
      simpa [Threads.goto] using hself
    · simpa [Threads.goto, hd] using hothers d hd

/-- STEP: whatever a thread does, all threads keep to the discipline. -/
theorem Kept.step [DecidableEq μ] (hP : D.Enforced P) (ht : D.Kept t) {turn : Turn ρ π}
    (hstep : P.step t turn = some t') : D.Kept t' := by
  cases turn with
  | call c p =>
    have hsafe := ht.safe c
    cases hcode : t.code c with
    | ret =>
      simp only [Procedures.step, hcode, Option.ite_none_right_eq_some, Option.some.injEq] at hstep
      obtain ⟨hadmits, rfl⟩ := hstep
      have hnone : t.held c = ∅ := by simpa only [hcode, Safe] using hsafe
      have hpre := hP.entry c p t.shared ht.inv hadmits
      refine .goto ht.inv ?_ fun d _ => ht.safe d
      rw [hnone]
      exact hP.body c p ∅ t.shared ht.inv hpre
    | _ => simp [Procedures.step, hcode] at hstep
  | advance c r =>
    have hsafe := ht.safe c
    cases hcode : t.code c with
    | ret => simp [Procedures.step, hcode] at hstep
    | jump p =>
      simp only [Procedures.step, hcode, Option.some.injEq] at hstep
      rw [hcode] at hsafe
      subst hstep
      exact .goto ht.inv (hP.body c p _ _ ht.inv hsafe) fun d _ => ht.safe d
    | lock m rest =>
      simp only [Procedures.step, hcode, Option.ite_none_right_eq_some, Option.some.injEq] at hstep
      rw [hcode] at hsafe
      obtain ⟨hfree, rfl⟩ := hstep
      refine .goto ht.inv ?_ fun d hd => ?_
      · rw [Threads.held_lock t]
        exact hsafe.2 _ (.refl ht.inv)
      · rw [Threads.held_setOwner_of_ne t (by simp [hfree]) (by simpa using hd.symm)]
        exact ht.safe d
    | unlock m rest =>
      simp only [Procedures.step, hcode, Option.ite_none_right_eq_some, Option.some.injEq] at hstep
      rw [hcode] at hsafe
      obtain ⟨howner, rfl⟩ := hstep
      refine .goto ht.inv ?_ fun d hd => ?_
      · rw [Threads.held_unlock]
        exact hsafe _ (.refl ht.inv)
      · rw [Threads.held_setOwner_of_ne t (by simpa [howner] using hd.symm) (by simp)]
        exact ht.safe d
    | act f rest =>
      simp only [Procedures.step, hcode, Option.map_eq_some_iff] at hstep
      rw [hcode] at hsafe
      obtain ⟨s, hf, rfl⟩ := hstep
      obtain ⟨hinv, hothers, hrest⟩ := hsafe _ (.refl ht.inv) r s hf
      exact .goto hinv hrest fun d hd => (ht.safe d).mono (hothers d hd)

/-- A thread wants only what is above all that it holds. -/
theorem Kept.wants_above (ht : D.Kept t) {c : ThreadId} {m n : μ} (hwants : t.wants c = some m)
    (hholds : t.owner n = some c) : D.rank t.shared n < D.rank t.shared m := by
  have hsafe := ht.safe c
  cases hcode : t.code c with
  | lock m' rest =>
    obtain rfl : m' = m := by simpa [Threads.wants, hcode] using hwants
    rw [hcode] at hsafe
    exact hsafe.1 _ (.refl ht.inv) n hholds
  | _ => simp [Threads.wants, hcode] at hwants

/-- Along a chain of waiting threads the mutexes rise. -/
theorem Kept.chain (ht : D.Kept t) {c d : ThreadId} (h : Relation.TransGen t.WaitsFor c d) :
    ∃ m n, t.wants c = some m ∧ t.owner n = some d ∧ D.rank t.shared m ≤ D.rank t.shared n := by
  induction h with
  | single h =>
    obtain ⟨m, hwants, hholds⟩ := h
    exact ⟨m, m, hwants, hholds, le_rfl⟩
  | tail _ h ih =>
    obtain ⟨m, n, hwants, hholds, hle⟩ := ih
    obtain ⟨n', hwants', hholds'⟩ := h
    exact ⟨m, n', hwants, hholds', hle.trans (ht.wants_above hwants' hholds).le⟩

theorem Kept.no_deadlock (ht : D.Kept t) : ¬t.Deadlock := by
  rintro ⟨c, hcycle⟩
  obtain ⟨m, n, hwants, hholds, hle⟩ := ht.chain hcycle
  have hlt := ht.wants_above hwants hholds
  omega

/-- RULE (no deadlock): procedures that keep to a discipline never wait in a cycle. -/
theorem Enforced.no_deadlock [DecidableEq μ] (hP : D.Enforced P) {s : σ} (hinv : D.inv s)
    {turns : List (Turn ρ π)}
    (hrun : exec P.step (.start s) turns = some t) : ¬t.Deadlock := by
  have hkept : D.Kept t := by
    exact exec_keeps (fun t turn t' ht _ h => ht.step hP h) (.start hinv) (Along.always turns _) hrun
  exact hkept.no_deadlock

end Discipline

end Schemes
