import Mathlib.Data.Finset.Sort

/-! @scheme setwalk | name:Walking a set that changes | layer:library

    A loop over an ordered set by an iterator, with a body that may change the set it walks. The iterator
    stands on an element or at the end. When its element is erased, the iterator is invalid: neither
    following nor advancing it is defined.

        begin ──▶ x ──body──▶ x still there? ──▶ next ──▶ … ──▶ end: finished
                                      └── erased ──▶ undefined

    The body of such a loop may erase its own element only on the last visit, before it leaves the
    loop: a walk that comes to its end has erased nothing. -/

namespace Schemes

variable {σ α : Type} [LinearOrder α]

/-- The iterator at the first element (`none`: at the end). -/
def setBegin (S : Finset α) : Option α := (S.sort (· ≤ ·)).head?

/-- The iterator behind the element `x`. -/
def setNext (S : Finset α) (x : α) : Option α := ((S.filter (x < ·)).sort (· ≤ ·)).head?

/-- How the body ends. -/
inductive BodyEnd where
  | goesOn | leaves | undefined
  deriving DecidableEq, Repr

/-- How a walk ends. `running`: not within the given number of visits. -/
inductive Walk (σ α : Type) where
  | finished (visited : List α) (s : σ)
  | left (s : σ)
  | undefined (s : σ)
  | running (s : σ)

/-- The element was visited before the rest of the walk. -/
def Walk.visit (x : α) : Walk σ α → Walk σ α
  | .finished visited s => .finished (x :: visited) s
  | ended => ended

/-- `while(it != end){ body(*it); it++; }` with at most so many visits. The set is part of the state. -/
def setWalk (elems : σ → Finset α) (body : σ → α → BodyEnd × σ) : Nat → Option α → σ → Walk σ α
  | _, none, s => .finished [] s
  | 0, some _, s => .running s
  | n + 1, some x, s =>
    if x ∈ elems s then
      match body s x with
      | (.goesOn, s) =>
        if x ∈ elems s then (setWalk elems body n (setNext (elems s) x) s).visit x
        else .undefined s
      | (.leaves, s) => .left s
      | (.undefined, s) => .undefined s
    else .undefined s

/-- The body visits the elements of the list one after the other. -/
inductive Visits (body : σ → α → BodyEnd × σ) : List α → σ → σ → Prop
  | nil (s : σ) : Visits body [] s s
  | cons {x : α} {xs : List α} {s s' t : σ} (hx : body s x = (.goesOn, s')) (hxs : Visits body xs s' t) :
      Visits body (x :: xs) s t

/-! ### The elements from the iterator on -/

/-- The elements that an iterator has not passed. -/
def ahead (S : Finset α) : Option α → List α
  | none => []
  | some x => (S.filter (x ≤ ·)).sort (· ≤ ·)

theorem mem_of_head {S : Finset α} {P : α → Prop} [DecidablePred P] {x : α}
    (h : ((S.filter P).sort (· ≤ ·)).head? = some x) :
    x ∈ S ∧ P x ∧ ∀ y ∈ S, P y → x ≤ y := by
  obtain ⟨rest, hsort⟩ := List.head?_eq_some_iff.mp h
  have hmem : ∀ y, y ∈ x :: rest ↔ y ∈ S ∧ P y := by
    intro y
    rw [← hsort, Finset.mem_sort, Finset.mem_filter]
  have hsorted := Finset.pairwise_sort (S.filter P) (· ≤ ·)
  rw [hsort] at hsorted
  obtain ⟨hx, hP⟩ := (hmem x).mp List.mem_cons_self
  refine ⟨hx, hP, fun y hy hPy => ?_⟩
  rcases List.mem_cons.mp ((hmem y).mpr ⟨hy, hPy⟩) with rfl | hrest
  · exact le_rfl
  · exact List.rel_of_pairwise_cons hsorted hrest

theorem setNext_mem {S : Finset α} {x y : α} (h : setNext S x = some y) : y ∈ S :=
  (mem_of_head h).1

/-- An element, and what the iterator behind it has ahead. -/
theorem ahead_cons {S : Finset α} {x : α} (hx : x ∈ S) :
    ahead S (some x) = x :: ahead S (setNext S x) := by
  have hinsert : S.filter (x ≤ ·) = insert x (S.filter (x < ·)) := by
    ext y
    rw [Finset.mem_filter, Finset.mem_insert, Finset.mem_filter, le_iff_eq_or_lt]
    constructor
    · rintro ⟨hy, rfl | hlt⟩
      · exact Or.inl rfl
      · exact Or.inr ⟨hy, hlt⟩
    · rintro (rfl | ⟨hy, hlt⟩)
      · exact ⟨hx, Or.inl rfl⟩
      · exact ⟨hy, Or.inr hlt⟩
  have hfirst : ∀ y ∈ S.filter (x < ·), x ≤ y := fun y hy => (Finset.mem_filter.mp hy).2.le
  have hself : x ∉ S.filter (x < ·) := by simp
  have hrest : (S.filter (x < ·)).sort (· ≤ ·) = ahead S (setNext S x) := by
    rcases hnext : setNext S x with _ | y
    · exact List.head?_eq_none_iff.mp hnext
    · obtain ⟨hy, hlt, hleast⟩ := mem_of_head hnext
      rw [ahead]
      congr 1
      ext z
      simp only [Finset.mem_filter, and_congr_right_iff]
      exact fun hz => ⟨hleast z hz, hlt.trans_le⟩
  rw [ahead, hinsert, Finset.sort_insert _ hfirst hself, hrest]

theorem ahead_begin (S : Finset α) : ahead S (setBegin S) = S.sort (· ≤ ·) := by
  rcases hbegin : setBegin S with _ | x
  · exact (List.head?_eq_none_iff.mp hbegin).symm
  · have hall : setBegin S = ((S.filter fun _ => True).sort (· ≤ ·)).head? := by
      rw [Finset.filter_true]; rfl
    obtain ⟨-, -, hleast⟩ := mem_of_head (hall.symm.trans hbegin)
    rw [ahead, Finset.filter_true_of_mem fun y hy => hleast y hy trivial]

theorem setBegin_mem {S : Finset α} {x : α} (h : setBegin S = some x) : x ∈ S :=
  (Finset.mem_sort (· ≤ ·)).mp (List.mem_of_mem_head? h)

/-! ### Walks that finish -/

variable {elems : σ → Finset α} {body : σ → α → BodyEnd × σ}

/-- The body changes the set only by erasing the element that it is called with. -/
def ErasesOwn (elems : σ → Finset α) (body : σ → α → BodyEnd × σ) : Prop :=
  ∀ s x, elems (body s x).2 = elems s ∨ elems (body s x).2 = (elems s).erase x

/-- STEP: a body that goes on and leaves the element there leaves the set alone. -/
theorem ErasesOwn.kept (hbody : ErasesOwn elems body) {s s' : σ} {x : α}
    (hx : body s x = (.goesOn, s')) (hmem : x ∈ elems s') : elems s' = elems s := by
  have hstep := hbody s x
  rw [hx] at hstep
  rcases hstep with hsame | herased
  · exact hsame
  · rw [herased] at hmem
    exact absurd rfl (Finset.ne_of_mem_erase hmem)

/-- RUN: from any iterator on, a walk that finishes has visited all elements ahead, and none was
    erased. -/
theorem ErasesOwn.walk_ahead (hbody : ErasesOwn elems body) : ∀ {n : Nat} {it : Option α} {s t : σ}
    {visited : List α}, (∀ x, it = some x → x ∈ elems s) →
      setWalk elems body n it s = .finished visited t →
        visited = ahead (elems s) it ∧ elems t = elems s ∧ Visits body visited s t := by
  intro n
  induction n with
  | zero =>
    intro it s t visited _ h
    rcases it with _ | x
    · obtain ⟨rfl, rfl⟩ := Walk.finished.inj h
      exact ⟨rfl, rfl, .nil _⟩
    · cases h
  | succ n ih =>
    intro it s t visited hit h
    rcases it with _ | x
    · obtain ⟨rfl, rfl⟩ := Walk.finished.inj h
      exact ⟨rfl, rfl, .nil _⟩
    have hx := hit x rfl
    rw [setWalk, if_pos hx] at h
    rcases hstep : body s x with ⟨_ | _ | _, s'⟩
    · simp only [hstep] at h
      split at h
      · next hmem =>
        have hkept := hbody.kept hstep hmem
        rcases hrest : setWalk elems body n (setNext (elems s') x) s' with ⟨visited', t'⟩ | _ | _ | _
        · rw [hrest] at h
          obtain ⟨rfl, rfl⟩ := Walk.finished.inj h
          obtain ⟨hvisited, hend, hvisits⟩ := ih (fun y hy => setNext_mem hy) hrest
          rw [hkept] at hvisited hend
          exact ⟨by rw [ahead_cons hx, hvisited], hend, .cons hstep hvisits⟩
        all_goals
          rw [hrest] at h
          cases h
      · cases h
    · simp [hstep] at h
    · simp [hstep] at h

/-- RULE (a walk that finishes): it has visited every element once, in order, and erased none. -/
theorem ErasesOwn.walk_finished (hbody : ErasesOwn elems body) {n : Nat} {s t : σ} {visited : List α}
    (h : setWalk elems body n (setBegin (elems s)) s = .finished visited t) :
    visited = (elems s).sort (· ≤ ·) ∧ elems t = elems s ∧ Visits body visited s t := by
  obtain ⟨hvisited, hend, hvisits⟩ := hbody.walk_ahead (fun _ hx => setBegin_mem hx) h
  exact ⟨hvisited.trans (ahead_begin _), hend, hvisits⟩

/-- RULE (a body that does nothing): the walk comes to the end and has visited every element ahead. -/
theorem setWalk_idle {s : σ} (hidle : ∀ x ∈ elems s, body s x = (.goesOn, s)) :
    ∀ {n : Nat} {it : Option α}, (∀ x, it = some x → x ∈ elems s) →
      (ahead (elems s) it).length ≤ n →
        setWalk elems body n it s = .finished (ahead (elems s) it) s := by
  intro n
  induction n with
  | zero =>
    intro it hit hlen
    rcases it with _ | x
    · rfl
    · rw [ahead_cons (hit x rfl)] at hlen
      contradiction
  | succ n ih =>
    intro it hit hlen
    rcases it with _ | x
    · rfl
    have hx := hit x rfl
    rw [ahead_cons hx] at hlen ⊢
    have hrest := ih (fun y hy => setNext_mem hy) (Nat.le_of_succ_le_succ hlen)
    simp only [setWalk, if_pos hx, hidle x hx, hrest, Walk.visit]

/-- RULE (a body that erases its element): the walk is undefined as soon as it goes on. -/
theorem setWalk_erased {n : Nat} {s s' : σ} {x : α} (hx : x ∈ elems s)
    (hstep : body s x = (.goesOn, s')) (hgone : x ∉ elems s') :
    setWalk elems body (n + 1) (some x) s = .undefined s' := by
  simp only [setWalk, if_pos hx, hstep, if_neg hgone]

end Schemes
