import Mathlib.Data.List.Forall2
import Mathlib.Tactic.Common

/-! @scheme cursor | name:Cursors over ordered lists | layer:library

    A cursor is a position in a list: what lies before it, the element it stands on (which may have
    been erased under it) and what lies behind it. Searching a list for the first element of a
    rising predicate splits it into a prefix without and a suffix with the predicate, and a walk
    that stops early is a filter as soon as the stop condition is rising.

        before  ++  [cur]  ++  after        cur is missing from the contents once it is erased
                     ^ cursor -/

namespace Schemes

/-- A position inside a list. The element under the cursor is remembered after it was erased. -/
structure Cursor (α : Type) where
  before : List α
  cur : α
  erased : Bool
  after : List α
  deriving DecidableEq, Repr

namespace Cursor
variable {α : Type}

/-- What the cursor contributes at its own position: nothing once its element is erased. -/
def here (c : Cursor α) : List α := if c.erased then [] else [c.cur]

/-- The list the cursor is positioned in. -/
def contents (c : Cursor α) : List α := c.before ++ c.here ++ c.after

/-- Seen from a list with one more element in front. -/
def shift (x : α) (c : Cursor α) : Cursor α := { c with before := x :: c.before }

/-- The first position whose element satisfies `p`. -/
def first (p : α → Bool) : List α → Option (Cursor α)
  | [] => none
  | x :: xs => if p x then some ⟨[], x, false, xs⟩ else (first p xs).map (shift x)

/-- The next position. -/
def next (c : Cursor α) : Option (Cursor α) :=
  match c.after with
  | [] => none
  | x :: xs => some ⟨c.before ++ c.here, x, false, xs⟩

/-- The next position, provided that its element is related to the one under the cursor. -/
def nextIf (same : α → α → Bool) (c : Cursor α) : Option (Cursor α) :=
  match c.after with
  | [] => none
  | x :: xs => if same c.cur x then some ⟨c.before ++ c.here, x, false, xs⟩ else none

/-- Overwrite the element under the cursor. -/
def set (f : α → α) (c : Cursor α) : Cursor α := { c with cur := f c.cur }

/-- Erase the element under the cursor. -/
def erase (c : Cursor α) : Cursor α := { c with erased := true }

@[simp] theorem set_cur (f : α → α) (c : Cursor α) : (c.set f).cur = f c.cur := rfl
@[simp] theorem set_erased (f : α → α) (c : Cursor α) : (c.set f).erased = c.erased := rfl
@[simp] theorem erase_erased (c : Cursor α) : c.erase.erased = true := rfl

theorem here_eq {c : Cursor α} (h : c.erased = false) : c.here = [c.cur] := by simp [here, h]

theorem next_eq_some {c d : Cursor α} (h : c.next = some d) :
    ∃ x xs, c.after = x :: xs ∧ d = ⟨c.before ++ c.here, x, false, xs⟩ := by
  unfold next at h
  cases ha : c.after with
  | nil => simp [ha] at h
  | cons x xs => simp only [ha, Option.some.injEq] at h; exact ⟨x, xs, rfl, h.symm⟩

theorem nextIf_eq_some {same : α → α → Bool} {c d : Cursor α} (h : c.nextIf same = some d) :
    ∃ x xs, c.after = x :: xs ∧ d = ⟨c.before ++ c.here, x, false, xs⟩ ∧ same c.cur x = true := by
  unfold nextIf at h
  cases ha : c.after with
  | nil => simp [ha] at h
  | cons x xs =>
    simp only [ha] at h
    by_cases hs : same c.cur x
    · simp only [hs, if_true, Option.some.injEq] at h; exact ⟨x, xs, rfl, h.symm, hs⟩
    · simp [hs] at h

/-- Searching splits the list at the cursor: nothing before it satisfies the predicate. -/
theorem first_eq_some {p : α → Bool} : ∀ {l : List α} {c : Cursor α}, first p l = some c →
    c.erased = false ∧ l = c.before ++ c.cur :: c.after ∧ p c.cur = true ∧
      ∀ x ∈ c.before, p x = false
  | [], c, h => by simp [first] at h
  | x :: xs, c, h => by
    simp only [first] at h
    by_cases hx : p x
    · simp only [hx, if_true, Option.some.injEq] at h
      subst h
      exact ⟨rfl, rfl, hx, by simp⟩
    · simp only [hx, Bool.false_eq_true, if_false, Option.map_eq_some_iff] at h
      obtain ⟨d, hd, rfl⟩ := h
      obtain ⟨he, hl, hp, hb⟩ := first_eq_some hd
      refine ⟨he, by rw [hl]; rfl, hp, ?_⟩
      intro y hy
      rcases List.mem_cons.mp hy with rfl | hy
      · simpa using hx
      · exact hb y hy

theorem first_eq_none {p : α → Bool} : ∀ {l : List α}, first p l = none ↔ ∀ x ∈ l, p x = false
  | [] => by simp [first]
  | x :: xs => by
    simp only [first, List.forall_mem_cons]
    by_cases hx : p x
    · simp [hx]
    · simp [hx, first_eq_none]

/-- Searching for `q` by searching for a weaker `p`: right if the element found satisfies `q`. -/
theorem first_narrow {p q : α → Bool} (hqp : ∀ x, q x = true → p x = true) :
    ∀ {l : List α} {c : Cursor α}, first p l = some c → q c.cur = true → first q l = some c
  | [], c, h, _ => by simp [first] at h
  | x :: xs, c, h, hq => by
    simp only [first] at h ⊢
    by_cases hx : p x
    · simp only [hx, if_true, Option.some.injEq] at h
      subst h
      rw [if_pos hq]
    · simp only [hx, Bool.false_eq_true, if_false, Option.map_eq_some_iff] at h
      obtain ⟨d, hd, rfl⟩ := h
      rw [if_neg fun hqx => hx (hqp x hqx), first_narrow hqp hd hq]; rfl

end Cursor

/-! ### Predicates that are monotone along a list -/

variable {α : Type}

/-- Once `p` holds it keeps holding further down the list. -/
def Rising (p : α → Bool) (l : List α) : Prop := l.Pairwise fun a b => p a = true → p b = true

/-- `q` holds on a prefix: where it holds it also held before. -/
def Falling (q : α → Bool) (l : List α) : Prop := l.Pairwise fun a b => q b = true → q a = true

/-- Behind the first element of a rising predicate everything satisfies it. -/
theorem Rising.filter_of_first {p : α → Bool} {l : List α} {c : Cursor α} (hr : Rising p l)
    (h : Cursor.first p l = some c) : l.filter p = c.cur :: c.after := by
  obtain ⟨-, hl, hp, hb⟩ := Cursor.first_eq_some h
  rw [hl] at hr ⊢
  have hafter : ∀ x ∈ c.after, p x = true := fun x hx =>
    (List.pairwise_cons.mp (List.pairwise_append.mp hr).2.1).1 x hx hp
  rw [List.filter_append, List.filter_eq_nil_iff.mpr (by simpa using hb), List.nil_append,
    List.filter_cons_of_pos hp, List.filter_eq_self.mpr hafter]

/-- Behind a prefix predicate nothing satisfies it any more. -/
theorem Falling.dropWhile_eq {q : α → Bool} : ∀ {l : List α}, Falling q l →
    ∀ x ∈ l.dropWhile q, q x = false
  | [], _ => by simp
  | x :: xs, h => by
    obtain ⟨hx, hxs⟩ := List.pairwise_cons.mp h
    by_cases hq : q x
    · rw [List.dropWhile_cons_of_pos hq]; exact Falling.dropWhile_eq hxs
    · rw [List.dropWhile_cons_of_neg hq]
      intro y hy
      rcases List.mem_cons.mp hy with rfl | hy
      · simpa using hq
      · exact Bool.eq_false_iff.mpr fun hqy => hq (hx y hy hqy)

/-- A walk that keeps some elements and ends at the first one satisfying `stop`. -/
def scan (keep stop : α → Bool) : List α → List α
  | [] => []
  | x :: xs => if stop x then [] else if keep x then x :: scan keep stop xs else scan keep stop xs

/-- One step of the walk: the next element that is kept, and what lies behind it. -/
def scanNext (keep stop : α → Bool) : List α → Option (α × List α)
  | [] => none
  | x :: xs => if stop x then none else if keep x then some (x, xs) else scanNext keep stop xs

theorem scan_eq_scanNext (keep stop : α → Bool) : ∀ l : List α,
    scan keep stop l = match scanNext keep stop l with
      | none => []
      | some (x, xs) => x :: scan keep stop xs
  | [] => rfl
  | x :: xs => by
    simp only [scan, scanNext]
    by_cases hs : stop x
    · simp [hs]
    · by_cases hk : keep x
      · simp [hs, hk]
      · simp only [hs, hk, Bool.false_eq_true, if_false]
        exact scan_eq_scanNext keep stop xs

/-- Stopping early loses nothing when the stop condition is rising and excludes being kept. -/
theorem scan_eq_filter {keep stop : α → Bool} (hks : ∀ x, stop x = true → keep x = false) :
    ∀ {l : List α}, Rising stop l → scan keep stop l = l.filter keep
  | [], _ => rfl
  | x :: xs, h => by
    obtain ⟨hx, hxs⟩ := List.pairwise_cons.mp h
    simp only [scan]
    by_cases hs : stop x
    · rw [if_pos hs, eq_comm, List.filter_eq_nil_iff]
      intro y hy
      rcases List.mem_cons.mp hy with rfl | hy
      · simp [hks _ hs]
      · simp [hks _ (hx y hy hs)]
    · rw [if_neg hs, scan_eq_filter hks hxs]
      by_cases hk : keep x <;> simp [hk]

/-! ### Two lists side by side -/

namespace Cursor
variable {R : α → α → Prop}

/-- Two cursors at the same place of two lists whose elements are related one by one. -/
structure Related (R : α → α → Prop) (c d : Cursor α) : Prop where
  before : List.Forall₂ R c.before d.before
  cur : R c.cur d.cur
  erased : c.erased = d.erased
  after : List.Forall₂ R c.after d.after

namespace Related
variable {c d : Cursor α}

theorem here (h : Related R c d) : List.Forall₂ R c.here d.here := by
  rw [Cursor.here, Cursor.here, ← h.erased]
  split
  · exact .nil
  · exact .cons h.cur .nil

theorem contents (h : Related R c d) : List.Forall₂ R c.contents d.contents :=
  List.rel_append (List.rel_append h.before h.here) h.after

theorem set (h : Related R c d) (f : α → α) (hf : ∀ x y, R x y → R (f x) (f y)) :
    Related R (c.set f) (d.set f) :=
  ⟨h.before, hf _ _ h.cur, h.erased, h.after⟩

theorem erase (h : Related R c d) : Related R c.erase d.erase := ⟨h.before, h.cur, rfl, h.after⟩

theorem shift (h : Related R c d) {x y : α} (hxy : R x y) : Related R (c.shift x) (d.shift y) :=
  ⟨.cons hxy h.before, h.cur, h.erased, h.after⟩

theorem next (h : Related R c d) : Option.Rel (Related R) c.next d.next := by
  have hafter := h.after
  unfold Cursor.next
  generalize c.after = xs, d.after = ys at hafter
  cases hafter with
  | nil => exact .none
  | cons hxy hrest => exact .some ⟨List.rel_append h.before h.here, hxy, rfl, hrest⟩

theorem nextIf (h : Related R c d) (same : α → α → Bool)
    (hsame : ∀ x y, R x y → same c.cur x = same d.cur y) :
    Option.Rel (Related R) (c.nextIf same) (d.nextIf same) := by
  have hafter := h.after
  unfold Cursor.nextIf
  generalize c.after = xs, d.after = ys at hafter
  cases hafter with
  | nil => exact .none
  | @cons x y xs ys hxy hrest =>
    simp only [hsame x y hxy]
    split
    · exact .some ⟨List.rel_append h.before h.here, hxy, rfl, hrest⟩
    · exact .none

end Related

/-- A search finds its element at the same place in both. -/
theorem first_related {p q : α → Bool} (hpq : ∀ x y, R x y → p x = q y) {l l' : List α}
    (h : List.Forall₂ R l l') : Option.Rel (Related R) (first p l) (first q l') := by
  induction h with
  | nil => exact .none
  | @cons x y xs ys hxy hrest ih =>
    rw [first, first, hpq x y hxy]
    split
    · exact .some ⟨.nil, hxy, rfl, hrest⟩
    · generalize first p xs = found, first q ys = found' at ih
      cases ih with
      | none => exact .none
      | some hfound => exact .some (hfound.shift hxy)

end Cursor

end Schemes
