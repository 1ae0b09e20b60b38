import ContestIndex.Schemes.Threads

/-! @scheme races | name:What the mutexes protect | layer:library

    Each mutex protects a part of the shared state. A step writes the part if it changes it, and reads it
    if it goes on differently when the part is wiped out. Whether all steps keep to the mutexes is seen
    from the procedures alone, from the mutexes that are held at each place.

        lock m ▸ act ▸ unlock m          one thread at a time is at a step on what m protects
                  └ writes or reads it

    Two threads race for the part if one is about to write it while the other is about to write or to
    read it. -/

namespace Schemes

variable {μ σ ρ π : Type}

structure Guards (μ σ : Type) where
  /-- the state without what the mutex protects -/
  wipe : μ → σ → σ
  /-- what the mutex protects is the same in both states -/
  keeps : μ → σ → σ → Prop
  /-- the mutexes that are also held to read -/
  readers : Set μ

namespace Guards
variable (G : Guards μ σ)

/-- The step writes nothing that the mutex protects. -/
def Preserves (m : μ) (f : σ → ρ → Option σ) : Prop := ∀ s r s', f s r = some s' → G.keeps m s s'

/-- The step reads nothing that the mutex protects. -/
def Blind (m : μ) (f : σ → ρ → Option σ) (rest : σ → ρ → Code μ σ ρ π) : Prop :=
  ∀ s r, rest (G.wipe m s) r = rest s r ∧ (f (G.wipe m s) r).map (G.wipe m) = (f s r).map (G.wipe m)

/-- The step accesses only what the held mutexes protect. -/
structure Respects (held : Set μ) (f : σ → ρ → Option σ) (rest : σ → ρ → Code μ σ ρ π) : Prop where
  writes : ∀ m, m ∉ held → G.Preserves m f
  reads : ∀ m ∈ G.readers, m ∉ held → G.Blind m f rest

/-- All steps to come respect the mutexes that are held by then. -/
def Covered (enter : π → Set μ) : Code μ σ ρ π → Set μ → Prop
  | .ret, _ => True
  | .jump p, held => enter p ⊆ held
  | .lock m rest, held => Covered enter rest (insert m held)
  | .unlock m rest, held => Covered enter rest (held \ {m})
  | .act f rest, held => G.Respects held f rest ∧ ∀ s r, Covered enter (rest s r) held

/-- All procedures respect the mutexes, with what is held where they are called or continued. -/
structure Covers (P : Procedures μ σ ρ π) (enter : π → Set μ) : Prop where
  body : ∀ c p, G.Covered enter (P.body c p) (enter p)
  entry : ∀ s p, P.admits s p → enter p = ∅

variable {G} {enter : π → Set μ} {code rest : Code μ σ ρ π} {held held' : Set μ} {m : μ}
  {f : σ → ρ → Option σ} {rests : σ → ρ → Code μ σ ρ π}

theorem Respects.mono (h : G.Respects held f rests) (hsub : held ⊆ held') :
    G.Respects held' f rests where
  writes m hm := h.writes m fun hmem => hm (hsub hmem)
  reads m hread hm := h.reads m hread fun hmem => hm (hsub hmem)

/-- Nothing goes wrong by holding more. -/
theorem Covered.mono (h : G.Covered enter code held) (hsub : held ⊆ held') :
    G.Covered enter code held' := by
  induction code generalizing held held' with
  | ret => trivial
  | jump p => exact Set.Subset.trans h hsub
  | lock m rest ih => exact ih h (Set.insert_subset_insert hsub)
  | unlock m rest ih => exact ih h (Set.sdiff_subset_sdiff_left hsub)
  | act f rest ih => exact ⟨h.1.mono hsub, fun s r => ih s r (h.2 s r) hsub⟩

/-- RULE (section): one step under a mutex. -/
theorem Covered.under (hnew : m ∉ held)
    (hact : G.Respects (insert m held) f fun s r => .unlock m (rests s r))
    (hrest : ∀ s r, G.Covered enter (rests s r) held) :
    G.Covered enter (.lock m (.act f fun s r => .unlock m (rests s r))) held := by
  refine ⟨hact, fun s r => ?_⟩
  rw [Covered, Set.insert_sdiff_self_of_notMem hnew]
  exact hrest s r

end Guards

/-! ### Runs -/

namespace Threads
variable (t : Threads μ σ ρ π) (G : Guards μ σ)

/-- The next step of the thread can change what the mutex protects. -/
def Writes (c : ThreadId) (m : μ) : Prop :=
  ∃ f rest r s', t.code c = .act f rest ∧ f t.shared r = some s' ∧ ¬G.keeps m t.shared s'

/-- The next step of the thread depends on it. -/
def Reads (c : ThreadId) (m : μ) : Prop := ∃ f rest, t.code c = .act f rest ∧ ¬G.Blind m f rest

/-- Two threads are about to access it, one of them to write. -/
def Race (m : μ) : Prop := ∃ c d, c ≠ d ∧ t.Writes G c m ∧ (t.Writes G d m ∨ t.Reads G d m)

end Threads

namespace Guards
variable {G : Guards μ σ} {P : Procedures μ σ ρ π} {enter : π → Set μ} {t t' : Threads μ σ ρ π}

/-- Every thread respects the mutexes from where it is. -/
def Kept (G : Guards μ σ) (enter : π → Set μ) (t : Threads μ σ ρ π) : Prop :=
  ∀ c, G.Covered enter (t.code c) (t.held c)

theorem Kept.goto {c : ThreadId} {code : Code μ σ ρ π}
    (ht : ∀ d, d ≠ c → G.Covered enter (t.code d) (t.held d))
    (hself : G.Covered enter code (t.held c)) : G.Kept enter (t.goto c code) := by
  intro d
  rw [Threads.held_goto]
  by_cases hd : d = c
  · subst hd
    simpa [Threads.goto] using hself
  · simpa [Threads.goto, hd] using ht d hd

/-- STEP: whatever a thread does, all threads respect the mutexes. -/
theorem Kept.step [DecidableEq μ] (hP : G.Covers P enter) (ht : G.Kept enter t) {turn : Turn ρ π}
    (hstep : P.step t turn = some t') : G.Kept enter t' := by
  cases turn with
  | call c p =>
    cases hcode : t.code c with
    | ret =>
      simp only [Procedures.step, hcode, Option.ite_none_right_eq_some, Option.some.injEq] at hstep
      obtain ⟨hadmits, rfl⟩ := hstep
      have hbody := hP.body c p
      rw [hP.entry _ _ hadmits] at hbody
      exact .goto (fun d _ => ht d) (hbody.mono (Set.empty_subset _))
    | _ => simp [Procedures.step, hcode] at hstep
  | advance c r =>
    have hc := ht c
    cases hcode : t.code c with
    | ret => simp [Procedures.step, hcode] at hstep
    | jump p =>
      simp only [Procedures.step, hcode, Option.some.injEq] at hstep
      rw [hcode] at hc
      subst hstep
      exact .goto (fun d _ => ht d) ((hP.body c p).mono hc)
    | lock m rest =>
      simp only [Procedures.step, hcode, Option.ite_none_right_eq_some, Option.some.injEq] at hstep
      rw [hcode] at hc
      obtain ⟨hfree, rfl⟩ := hstep
      refine .goto (fun d hd => ?_) ?_
      · rw [Threads.held_setOwner_of_ne t (by simp [hfree]) (by simpa using hd.symm)]
        exact ht d
      · rw [Threads.held_lock t]
        exact hc
    | unlock m rest =>
      simp only [Procedures.step, hcode, Option.ite_none_right_eq_some, Option.some.injEq] at hstep
      rw [hcode] at hc
      obtain ⟨howner, rfl⟩ := hstep
      refine .goto (fun d hd => ?_) ?_
      · rw [Threads.held_setOwner_of_ne t (by simpa [howner] using hd.symm) (by simp)]
        exact ht d
      · rw [Threads.held_unlock]
        exact hc
    | act f rest =>
      simp only [Procedures.step, hcode, Option.map_eq_some_iff] at hstep
      rw [hcode] at hc
      obtain ⟨s, -, rfl⟩ := hstep
      exact .goto (fun d _ => ht d) (hc.2 t.shared r)

theorem Kept.owner_of_writes (ht : G.Kept enter t) {c : ThreadId} {m : μ} (h : t.Writes G c m) :
    t.owner m = some c := by
  obtain ⟨f, rest, r, s', hcode, hf, hchanged⟩ := h
  have hc := ht c
  rw [hcode] at hc
  by_contra hm
  exact hchanged (hc.1.writes m hm _ r s' hf)

theorem Kept.owner_of_reads (ht : G.Kept enter t) {c : ThreadId} {m : μ} (hm : m ∈ G.readers)
    (h : t.Reads G c m) : t.owner m = some c := by
  obtain ⟨f, rest, hcode, hreads⟩ := h
  have hc := ht c
  rw [hcode] at hc
  by_contra hnot
  exact hreads (hc.1.reads m hm hnot)

/-- RUN: procedures that respect the mutexes hold what they access. -/
theorem Covers.kept [DecidableEq μ] (hP : G.Covers P enter) {s : σ} {turns : List (Turn ρ π)}
    (hrun : exec P.step (.start s) turns = some t) : G.Kept enter t := by
  have hstart : G.Kept enter (.start s : Threads μ σ ρ π) := fun _ => trivial
  exact exec_keeps (fun t turn t' ht _ h => ht.step hP h) hstart (Along.always turns _) hrun

/-- RULE (no race): what is read under its mutex, too, is not raced for. -/
theorem Kept.no_race (ht : G.Kept enter t) {m : μ} (hm : m ∈ G.readers) : ¬t.Race G m := by
  rintro ⟨c, d, hne, hc, hd⟩
  have hcm := ht.owner_of_writes hc
  have hdm : t.owner m = some d := by
    rcases hd with hd | hd
    · exact ht.owner_of_writes hd
    · exact ht.owner_of_reads hm hd
  rw [hcm] at hdm
  exact hne (Option.some.inj hdm)

end Guards

end Schemes
