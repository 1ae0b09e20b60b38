import Mathlib.Data.List.Basic
import Mathlib.Tactic.Common

/-! @scheme lexicographic | name:The first difference of two lists | layer:library

    Lists of one length are compared at the first position where they differ:

        a₀ a₁ … aⱼ₋₁ aⱼ …
        =  =     =   <              l < m -/

namespace Schemes

variable {α : Type}

/-- The lists agree before position `j` and have `a` and `b` there. -/
def DifferAt (l m : List α) (j : Nat) (a b : α) : Prop :=
  l.take j = m.take j ∧ l[j]? = some a ∧ m[j]? = some b

theorem differAt_zero {x y a b : α} {l m : List α} :
    DifferAt (x :: l) (y :: m) 0 a b ↔ x = a ∧ y = b := by simp [DifferAt]

theorem differAt_succ {x y a b : α} {l m : List α} {j : Nat} :
    DifferAt (x :: l) (y :: m) (j + 1) a b ↔ x = y ∧ DifferAt l m j a b := by
  simp [DifferAt, and_assoc]

theorem differAt_iff {l m : List α} {j : Nat} {a b : α} :
    DifferAt l m j a b ↔ (∀ i < j, l[i]? = m[i]?) ∧ l[j]? = some a ∧ m[j]? = some b := by
  have htake : l.take j = m.take j ↔ ∀ i < j, l[i]? = m[i]? := by
    constructor
    · intro h i hi
      rw [← List.getElem?_take_of_lt hi, h, List.getElem?_take_of_lt hi]
    · intro h
      refine List.ext_getElem? fun i => ?_
      rcases Nat.lt_or_ge i j with hi | hi
      · rw [List.getElem?_take_of_lt hi, List.getElem?_take_of_lt hi, h i hi]
      · rw [List.getElem?_take_eq_none hi, List.getElem?_take_eq_none hi]
  rw [DifferAt, htake]

/-- The order of two different lists is that of their elements at the first difference. -/
theorem compare_eq_iff_differAt [Ord α] [Std.LawfulEqOrd α] {o : Ordering} (ho : o ≠ .eq) :
    ∀ {l m : List α}, l.length = m.length →
      (compare l m = o ↔ ∃ j a b, DifferAt l m j a b ∧ compare a b = o)
  | [], [], _ => by
    simp only [DifferAt, List.getElem?_nil, reduceCtorEq, false_and,
      and_false, exists_false, iff_false]
    exact Ne.symm ho
  | x :: l, y :: m, h => by
    have hlen : l.length = m.length := by simpa using h
    have ih := compare_eq_iff_differAt ho hlen
    rw [List.compare_cons_cons]
    by_cases hxy : x = y
    · subst hxy
      have hself : compare x x = .eq := Std.ReflCmp.compare_self
      rw [hself, Ordering.eq_then, ih]
      constructor
      · rintro ⟨j, a, b, hd, hab⟩
        exact ⟨j + 1, a, b, differAt_succ.mpr ⟨rfl, hd⟩, hab⟩
      · rintro ⟨j, a, b, hd, hab⟩
        cases j with
        | zero =>
          obtain ⟨rfl, rfl⟩ := differAt_zero.mp hd
          exact absurd (hab.symm.trans hself) ho
        | succ j => exact ⟨j, a, b, (differAt_succ.mp hd).2, hab⟩
    · have hne : compare x y ≠ .eq := fun hc => hxy (Std.LawfulEqCmp.eq_of_compare hc)
      have hthen : (compare x y).then (compare l m) = compare x y := by
        cases hc : compare x y with
        | eq => exact absurd hc hne
        | lt => rfl
        | gt => rfl
      rw [hthen]
      constructor
      · exact fun hab => ⟨0, x, y, differAt_zero.mpr ⟨rfl, rfl⟩, hab⟩
      · rintro ⟨j, a, b, hd, hab⟩
        cases j with
        | zero =>
          obtain ⟨rfl, rfl⟩ := differAt_zero.mp hd
          exact hab
        | succ j => exact absurd (differAt_succ.mp hd).1 hxy

/-- A list that is nowhere below another one is not below it. -/
theorem compare_ne_lt [Ord α] [Std.LawfulEqOrd α] {l m : List α} (hlen : l.length = m.length)
    (h : ∀ (i : Nat) a b, l[i]? = some a → m[i]? = some b → compare a b ≠ .lt) :
    compare l m ≠ .lt := by
  intro hlt
  obtain ⟨j, a, b, ⟨-, ha, hb⟩, hab⟩ := (compare_eq_iff_differAt (by decide) hlen).mp hlt
  exact h j a b ha hb hab

end Schemes
