import Mathlib.Data.List.Basic
import Mathlib.Tactic.Common

/-! @scheme buffer | name:Filling a buffer | layer:library

    Writes of some data at some offset into memory that was allocated without being initialised. Writes
    that follow one another without a gap leave no cell out and hit none twice:

        offset   0        n₁            n₁+n₂
                 ├─ w₁ ───┼──── w₂ ─────┼─ w₃ … ─┤ end -/

namespace Schemes

variable {α : Type}

/-- `new char[n]`: no cell has been written. -/
def freshBuffer (n : Nat) : List (Option α) := List.replicate n none

/-- `memcpy(buffer + w.1, data, n)` with the `n` elements `w.2`, inside the buffer. -/
def store (buf : List (Option α)) (w : Nat × List α) : List (Option α) :=
  buf.take w.1 ++ w.2.map some ++ buf.drop (w.1 + w.2.length)

/-- The first write starts at the first offset, each further one where the one before it ends, and the
    last one ends at the second offset. -/
def Consecutive : Nat → List (Nat × List α) → Nat → Prop
  | n, [], m => n = m
  | n, w :: ws, m => w.1 = n ∧ Consecutive (n + w.2.length) ws m

/-- The write touches the cell `i`. -/
def Touches (i : Nat) (w : Nat × List α) : Prop := w.1 ≤ i ∧ i < w.1 + w.2.length

instance (i : Nat) (w : Nat × List α) : Decidable (Touches i w) :=
  inferInstanceAs (Decidable (w.1 ≤ i ∧ i < w.1 + w.2.length))

namespace Consecutive

theorem le : ∀ {ws : List (Nat × List α)} {n m : Nat}, Consecutive n ws m → n ≤ m
  | [], _, _, h => Nat.le_of_eq h
  | _ :: _, _, _, h => Nat.le_trans (Nat.le_add_right _ _) h.2.le

theorem append : ∀ {ws vs : List (Nat × List α)} {n m k : Nat}, Consecutive n ws m →
    Consecutive m vs k → Consecutive n (ws ++ vs) k
  | [], _, _, _, _, h, h' => by
    obtain rfl := h
    exact h'
  | _ :: _, _, _, _, _, h, h' => ⟨h.1, h.2.append h'⟩

/-- RULE (cover): every cell between the two offsets is touched by one write, the others by none. -/
theorem countP_touches : ∀ {ws : List (Nat × List α)} {n m : Nat}, Consecutive n ws m → ∀ i,
    ws.countP (fun w => Touches i w) = if n ≤ i ∧ i < m then 1 else 0
  | [], n, m, h, i => by
    obtain rfl : n = m := h
    rw [List.countP_nil, if_neg (by omega)]
  | w :: ws, n, m, h, i => by
    obtain ⟨rfl, hrest⟩ := h
    have hle := hrest.le
    rw [List.countP_cons, hrest.countP_touches i]
    by_cases ht : Touches i w
    · have hin := ht.2
      rw [if_pos (decide_eq_true ht), if_neg (by omega), if_pos ⟨ht.1, by omega⟩]
    · have hiff : (w.1 ≤ i ∧ i < m) ↔ w.1 + w.2.length ≤ i ∧ i < m := by
        rw [Touches] at ht
        omega
      simp [ht, hiff]

/-- RUN: what consecutive writes make of a buffer. -/
theorem foldl_store : ∀ {ws : List (Nat × List α)} {n m : Nat} {buf : List (Option α)},
    Consecutive n ws m → m ≤ buf.length →
      ws.foldl store buf = buf.take n ++ (ws.flatMap (·.2)).map some ++ buf.drop m
  | [], n, m, buf, h, _ => by
    obtain rfl : n = m := h
    simp
  | w :: ws, n, m, buf, h, hm => by
    obtain ⟨rfl, hrest⟩ := h
    have hle := hrest.le
    have hfront : (buf.take w.1 ++ w.2.map some).length = w.1 + w.2.length := by
      simp; omega
    have hlen : m ≤ (store buf w).length := by
      rw [store, List.length_append, hfront, List.length_drop]
      omega
    have htake : (store buf w).take (w.1 + w.2.length) = buf.take w.1 ++ w.2.map some := by
      rw [store, ← hfront, List.take_left]
    have hdrop : (store buf w).drop m = buf.drop m := by
      rw [store, List.drop_append, hfront, List.drop_of_length_le (by omega), List.drop_drop,
        List.nil_append]
      congr 1
      omega
    rw [List.foldl_cons, hrest.foldl_store hlen, htake, hdrop]
    simp

/-- RULE (fill): consecutive writes over a whole fresh buffer leave no cell unwritten. -/
theorem fills {ws : List (Nat × List α)} {n : Nat} (h : Consecutive 0 ws n) :
    ws.foldl store (freshBuffer n) = (ws.flatMap (·.2)).map some := by
  rw [h.foldl_store (by simp [freshBuffer])]
  simp [freshBuffer]

end Consecutive

end Schemes
