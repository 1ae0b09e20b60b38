import ContestIndex.Schemes.Run

/-! @scheme contract | name:Runs under a client contract | layer:library

    A specification that may allow several answers and several next states, and a contract that says
    which inputs a client may give in which state of the specification. A machine fulfills the
    specification if it answers as allowed for as long as the client keeps to the contract.

        t ──a/o──▶ t' ──b/p──▶ t''    specification: permitted t a, permitted t' b, …
        │ R        │ R         │ R
        s ──a/o──▶ s' ──b/p──▶ s''    machine -/

namespace Schemes

variable {σ τ α ω : Type} {permitted : τ → α → Prop} {spec : τ → α → ω → τ → Prop}

/-- As long as the inputs are permitted the answers are allowed, and the state of the specification
    after the last one is final. -/
def Fulfills (permitted : τ → α → Prop) (spec : τ → α → ω → τ → Prop) (final : τ → Prop) :
    τ → List α → List ω → Prop
  | t, a :: as, o :: os =>
    permitted t a → ∃ t', spec t a o t' ∧ Fulfills permitted spec final t' as os
  | t, [], [] => final t
  | _, _, _ => False

/-- RULE (contract): a machine that answers every permitted input as allowed, and stays related to the
    state that the specification is left in, does so run by run, and ends in related states. -/
theorem run_fulfills {step : σ → α → ω × σ} {R : σ → τ → Prop}
    (hstep : ∀ s t a, R s t → permitted t a →
      ∃ t', spec t a (step s a).1 t' ∧ R (step s a).2 t') :
    ∀ {as : List α} {s : σ} {t : τ}, R s t →
      Fulfills permitted spec (R (run step s as).2) t as (run step s as).1
  | [], _, _, hR => hR
  | a :: as, s, t, hR => by
    intro hpermitted
    obtain ⟨t', hspec, hR'⟩ := hstep s t a hR hpermitted
    exact ⟨t', hspec, run_fulfills hstep hR'⟩

end Schemes
