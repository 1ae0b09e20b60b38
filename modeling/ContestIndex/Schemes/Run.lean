import Mathlib.Tactic.Common

/-! @scheme run | name:Runs and what they keep | layer:library

    A machine that answers every input, and the rules by which one step says something about whole
    runs: an invariant, a simulation between two machines, two runs on related inputs, and the
    refinement of a specification that may allow several answers. Inputs may be admissible in some
    states only.

        s ──a/o──▶ s' ──b/p──▶ s''            answers  [o, p]
        │ abs      │ abs       │ abs
        t ──a/o──▶ t' ──b/p──▶ t''            spec

    The last section has the rules for a machine whose steps may be impossible. -/

namespace Schemes

variable {σ τ α ω : Type}

/-- The answers of a run and the state it ends in. -/
def run (step : σ → α → ω × σ) : σ → List α → List ω × σ
  | s, [] => ([], s)
  | s, a :: as => ((step s a).1 :: (run step (step s a).2 as).1, (run step (step s a).2 as).2)

/-- Every input of the run is admissible in the state in which it comes. -/
def Admissible (ok : σ → α → Prop) (step : σ → α → ω × σ) : σ → List α → Prop
  | _, [] => True
  | s, a :: as => ok s a ∧ Admissible ok step (step s a).2 as

@[simp] theorem run_nil (step : σ → α → ω × σ) (s : σ) : run step s [] = ([], s) := rfl
@[simp] theorem run_cons (step : σ → α → ω × σ) (s : σ) (a : α) (as : List α) :
    run step s (a :: as) =
      ((step s a).1 :: (run step (step s a).2 as).1, (run step (step s a).2 as).2) := rfl

variable {ok : σ → α → Prop} {step : σ → α → ω × σ}

/-- Inputs that are admissible everywhere. -/
theorem Admissible.of_forall {P : α → Prop} : ∀ {as : List α} {s : σ}, (∀ a ∈ as, P a) →
    Admissible (fun _ a => P a) step s as
  | [], _, _ => trivial
  | a :: _, _, h =>
    ⟨h a List.mem_cons_self, Admissible.of_forall fun b hb => h b (List.mem_cons_of_mem _ hb)⟩

/-- One input more. -/
theorem run_concat (step : σ → α → ω × σ) (a : α) : ∀ (as : List α) (s : σ),
    run step s (as ++ [a]) = ((run step s as).1 ++ [(step (run step s as).2 a).1],
      (step (run step s as).2 a).2)
  | [], _ => rfl
  | b :: as, s => by
    rw [List.cons_append, run_cons, run_concat step a as, run_cons]
    rfl

theorem Admissible.concat {a : α} : ∀ {as : List α} {s : σ}, Admissible ok step s as →
    ok (run step s as).2 a → Admissible ok step s (as ++ [a])
  | [], _, _, ha => ⟨ha, trivial⟩
  | _ :: _, _, h, ha => ⟨h.1, h.2.concat ha⟩

/-- RULE (invariant): what every admissible step keeps, every admissible run keeps. -/
theorem run_keeps {I : σ → Prop} (hstep : ∀ s a, I s → ok s a → I (step s a).2) :
    ∀ {as : List α} {s : σ}, I s → Admissible ok step s as → I (run step s as).2
  | [], _, hs, _ => hs
  | a :: as, s, hs, h => by
    have hnext : I (step s a).2 := hstep s a hs h.1
    rw [run_cons]
    exact run_keeps hstep hnext h.2

/-- RULE (simulation): machines that answer alike step by step answer alike run by run. -/
theorem run_simulates {step' : τ → α → ω × τ} {R : σ → τ → Prop}
    (hstep : ∀ s t a, R s t → ok s a →
      (step s a).1 = (step' t a).1 ∧ R (step s a).2 (step' t a).2) :
    ∀ {as : List α} {s : σ} {t : τ}, R s t → Admissible ok step s as →
      (run step s as).1 = (run step' t as).1 ∧ R (run step s as).2 (run step' t as).2
  | [], _, _, hR, _ => ⟨rfl, hR⟩
  | a :: as, s, t, hR, h => by
    obtain ⟨hans, hR'⟩ := hstep s t a hR h.1
    obtain ⟨hrest, hend⟩ := run_simulates hstep hR' h.2
    exact ⟨by rw [run_cons, run_cons, hans, hrest], hend⟩

/-- RULE (two runs): machines that answer related inputs with related outputs, step by step, do so
    run by run. -/
theorem run_related {α' ω' : Type} {step' : τ → α' → ω' × τ} {R : σ → τ → Prop}
    {In : α → α' → Prop} {Out : ω → ω' → Prop}
    (hstep : ∀ s t a b, R s t → In a b → ok s a →
      Out (step s a).1 (step' t b).1 ∧ R (step s a).2 (step' t b).2) {as : List α} {bs : List α'}
    (hin : List.Forall₂ In as bs) : ∀ {s : σ} {t : τ}, R s t → Admissible ok step s as →
      List.Forall₂ Out (run step s as).1 (run step' t bs).1 := by
  induction hin with
  | nil => exact fun _ _ => .nil
  | cons hab _ ih =>
    intro s t hR h
    obtain ⟨hans, hR'⟩ := hstep s t _ _ hR hab h.1
    exact .cons hans (ih hR' h.2)

/-- The runs that a specification allows. -/
inductive Allows (spec : τ → α → ω → τ → Prop) : τ → List α → List ω → τ → Prop
  | nil (t : τ) : Allows spec t [] [] t
  | cons {t t' t'' : τ} {a : α} {o : ω} {as : List α} {os : List ω} :
      spec t a o t' → Allows spec t' as os t'' → Allows spec t (a :: as) (o :: os) t''

/-- RULE (refinement): if every admissible step is allowed, every admissible run is. -/
theorem run_refines {spec : τ → α → ω → τ → Prop} (abs : σ → τ) {I : σ → Prop}
    (hstep : ∀ s a, I s → ok s a →
      I (step s a).2 ∧ spec (abs s) a (step s a).1 (abs (step s a).2)) :
    ∀ {as : List α} {s : σ}, I s → Admissible ok step s as →
      Allows spec (abs s) as (run step s as).1 (abs (run step s as).2)
  | [], s, _, _ => .nil (abs s)
  | a :: _, s, hs, h => by
    obtain ⟨hI, hspec⟩ := hstep s a hs h.1
    exact .cons hspec (run_refines abs hstep hI h.2)

/-! ### Machines with impossible steps -/

/-- The state after a run, if all its steps are possible. -/
def exec (step : σ → α → Option σ) : σ → List α → Option σ
  | s, [] => some s
  | s, a :: as => (step s a).bind fun s' => exec step s' as

/-- Every step of the run is good in the state in which it is taken. -/
def Along (good : σ → α → Prop) (step : σ → α → Option σ) : σ → List α → Prop
  | _, [] => True
  | s, a :: as => good s a ∧ ∀ s', step s a = some s' → Along good step s' as

/-- No condition at all. -/
theorem Along.always {step : σ → α → Option σ} : ∀ (as : List α) (s : σ),
    Along (fun _ _ => True) step s as
  | [], _ => trivial
  | _ :: as, _ => ⟨trivial, fun s' _ => Along.always as s'⟩

/-- A condition on the inputs alone. -/
theorem Along.and_forall {good : σ → α → Prop} {step : σ → α → Option σ} {P : α → Prop} :
    ∀ {as : List α} {s : σ}, (∀ a ∈ as, P a) → Along good step s as →
      Along (fun s a => P a ∧ good s a) step s as
  | [], _, _, _ => trivial
  | a :: _, _, hP, hg =>
    ⟨⟨hP a List.mem_cons_self, hg.1⟩, fun s' hs' =>
      Along.and_forall (fun b hb => hP b (List.mem_cons_of_mem _ hb)) (hg.2 s' hs')⟩

instance Along.decidable (good : σ → α → Prop) [∀ s a, Decidable (good s a)]
    (step : σ → α → Option σ) : ∀ s as, Decidable (Along good step s as)
  | _, [] => isTrue trivial
  | s, a :: as =>
    match h : step s a with
    | none => decidable_of_iff (good s a) (by simp [Along, h])
    | some s' =>
      have := Along.decidable good step s' as
      decidable_of_iff (good s a ∧ Along good step s' as) (by simp [Along, h])

/-- RULE (invariant under a condition): what every good step keeps holds in every state that a run
    of good steps reaches. -/
theorem exec_keeps {step : σ → α → Option σ} {good : σ → α → Prop} {I : σ → Prop}
    (hstep : ∀ s a s', I s → good s a → step s a = some s' → I s') :
    ∀ {as : List α} {s t : σ}, I s → Along good step s as → exec step s as = some t → I t
  | [], s, t, hs, _, h => by
    obtain rfl : s = t := by simpa [exec] using h
    exact hs
  | a :: as, s, t, hs, hg, h => by
    obtain ⟨s', hs', hrest⟩ := Option.bind_eq_some_iff.mp h
    exact exec_keeps hstep (hstep s a s' hs hg.1 hs') (hg.2 s' hs') hrest

/-- RULE (possible steps): if exactly the good steps are possible, exactly the good runs are. -/
theorem exec_isSome_iff {step : σ → α → Option σ} {good : σ → α → Prop} {I : σ → Prop}
    (hstep : ∀ s a s', I s → step s a = some s' → I s')
    (hgood : ∀ s a, I s → ((step s a).isSome ↔ good s a)) :
    ∀ {as : List α} {s : σ}, I s → ((exec step s as).isSome ↔ Along good step s as)
  | [], _, _ => ⟨fun _ => trivial, fun _ => rfl⟩
  | a :: as, s, hs => by
    rw [Along, ← hgood s a hs, exec]
    cases hnext : step s a with
    | none => simp
    | some s' =>
      have hrest : (exec step s' as).isSome ↔ Along good step s' as :=
        exec_isSome_iff hstep hgood (hstep s a s' hs hnext)
      simpa using hrest

/-- RULE (safe steps): what the invariant says about every good step holds along a run of them. -/
theorem Along.safe {step : σ → α → Option σ} {good safe : σ → α → Prop} {I : σ → Prop}
    (hstep : ∀ s a s', I s → good s a → step s a = some s' → I s')
    (hsafe : ∀ s a, I s → good s a → safe s a) :
    ∀ {as : List α} {s : σ}, I s → Along good step s as → Along safe step s as
  | [], _, _, _ => trivial
  | a :: _, s, hs, hg =>
    ⟨hsafe s a hs hg.1, fun s' hs' => Along.safe hstep hsafe (hstep s a s' hs hg.1 hs') (hg.2 s' hs')⟩

end Schemes
