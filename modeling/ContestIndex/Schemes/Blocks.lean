import Mathlib.Data.List.Basic
import Mathlib.Tactic.Common

/-! @scheme blocks | name:Words in blocks | layer:library

    A list of words in which some words say how many of the words behind them belong to them. The words
    behind a head are taken as they are, so a list is cut into blocks in at most one way:

        x  a  b   y   x  c  d      with arity x = 2, arity y = 0
        └──┴──┘   ┴   └──┴──┘ -/

namespace Schemes

variable {α : Type}

/-- A word and the words behind it that belong to it. -/
structure Block (α : Type) where
  head : α
  values : List α
  deriving DecidableEq

/-- The words that the blocks are written with. -/
def Block.spell (blocks : List (Block α)) : List α := blocks.flatMap fun b => b.head :: b.values

/-- The words are a concatenation of the blocks, and each block has the values that its head asks for. -/
structure Spells (arity : α → Option Nat) (words : List α) (blocks : List (Block α)) : Prop where
  complete : ∀ b ∈ blocks, arity b.head = some b.values.length
  words_eq : words = Block.spell blocks

namespace Spells

variable {arity arity' : α → Option Nat} {words : List α} {blocks blocks' : List (Block α)}

theorem nil_iff : Spells arity [] blocks ↔ blocks = [] := by
  constructor
  · rintro ⟨-, hwords⟩
    cases blocks with
    | nil => rfl
    | cons b bs => simp [Block.spell] at hwords
  · rintro rfl
    exact ⟨by simp, rfl⟩

/-- RULE (cut): the first word heads the first block, which takes as many words as it asks for. -/
theorem cons_iff {x : α} {xs : List α} : Spells arity (x :: xs) blocks ↔
    ∃ k bs, arity x = some k ∧ k ≤ xs.length ∧ blocks = ⟨x, xs.take k⟩ :: bs ∧
      Spells arity (xs.drop k) bs := by
  constructor
  · rintro ⟨hcomplete, hwords⟩
    cases blocks with
    | nil => simp [Block.spell] at hwords
    | cons b bs =>
      obtain ⟨rfl, rfl⟩ : x = b.head ∧ xs = b.values ++ Block.spell bs := by
        simpa [Block.spell] using hwords
      refine ⟨b.values.length, bs, hcomplete b (by simp), by simp, by simp, ?_, by simp⟩
      exact fun c hc => hcomplete c (List.mem_cons_of_mem _ hc)
  · rintro ⟨k, bs, hk, hle, rfl, hrest⟩
    refine ⟨?_, ?_⟩
    · intro b hb
      rcases List.mem_cons.1 hb with rfl | hb
      · rw [hk, List.length_take_of_le hle]
      · exact hrest.complete b hb
    · rw [Block.spell, List.flatMap_cons, ← Block.spell, ← hrest.words_eq, List.cons_append,
        List.take_append_drop]

/-- RULE (unique): words are cut into blocks in one way only. -/
theorem unique (h : Spells arity words blocks) (h' : Spells arity words blocks') :
    blocks = blocks' := by
  induction blocks generalizing words blocks' with
  | nil =>
    obtain rfl : words = [] := h.words_eq
    exact (nil_iff.1 h').symm
  | cons b bs ih =>
    cases words with
    | nil => exact absurd (nil_iff.1 h) (by simp)
    | cons x xs =>
      obtain ⟨k, cs, hk, -, hcons, hcs⟩ := cons_iff.1 h
      obtain ⟨rfl, rfl⟩ := List.cons.inj hcons
      obtain ⟨k', cs', hk', -, rfl, hcs'⟩ := cons_iff.1 h'
      obtain rfl : k = k' := Option.some.inj (hk.symm.trans hk')
      rw [ih hcs hcs']

/-- RULE (congruence): only what the heads ask for matters. -/
theorem congr (h : Spells arity words blocks) (heq : ∀ b ∈ blocks, arity' b.head = arity b.head) :
    Spells arity' words blocks :=
  ⟨fun b hb => (heq b hb).trans (h.complete b hb), h.words_eq⟩

end Spells

end Schemes
