import Mathlib.Algebra.Order.Group.Multiset
import Mathlib.Data.Multiset.Bind
import Mathlib.Tactic.Common

/-! @scheme heap | name:Memory that is owned | layer:library

    A heap is the multiset of the cells in it, each with an address and a kind. A program that frees or
    touches a cell that is not there has no result. `Takes C x P` says what a program does with the cells
    that it is given, and that it leaves all others alone:

        C ──x──▶ P a O         the cells C are gone, the cells O are there, with the result a
        R ──────▶ R

    So one thing is said at a time: that the program has a result, what it gives back, and what becomes
    of every cell. What has been freed does not come back: addresses are given out once. Objects own
    cells: a heap is balanced when every cell belongs to one object or is lost. -/

namespace Schemes

abbrev Address := Nat

/-- An address, and what has been allocated there. -/
abbrev Cell (κ : Type) := Address × κ

structure Heap (κ : Type) where
  cells : Multiset (Cell κ)
  next : Address
  /-- the cells have different addresses, all of them given out before -/
  nodup : (cells.map Prod.fst).Nodup
  below : ∀ c ∈ cells, c.1 < next

variable {κ α β σ : Type}

namespace Heap

def empty : Heap κ := ⟨0, 0, by simp, by simp⟩

/-- The heap with one more cell. -/
def add (h : Heap κ) (k : κ) : Heap κ where
  cells := (h.next, k) ::ₘ h.cells
  next := h.next + 1
  nodup := by
    rw [Multiset.map_cons, Multiset.nodup_cons]
    refine ⟨fun hmem => ?_, h.nodup⟩
    obtain ⟨c, hc, haddress⟩ := Multiset.mem_map.mp hmem
    exact (h.below c hc).ne haddress
  below := by
    intro c hc
    rcases Multiset.mem_cons.mp hc with rfl | hc
    · exact Nat.lt_succ_self _
    · exact Nat.lt_succ_of_lt (h.below c hc)

/-- The cell has been there, and is not there any more. -/
def Gone (h : Heap κ) (c : Cell κ) : Prop := c.1 < h.next ∧ c ∉ h.cells

/-- The heap at a later time: what is old in it was there before. -/
def Later (h h' : Heap κ) : Prop := h.next ≤ h'.next ∧ ∀ c ∈ h'.cells, c.1 < h.next → c ∈ h.cells

variable {h h' h'' : Heap κ} {c : Cell κ}

theorem Later.refl (h : Heap κ) : h.Later h := ⟨le_rfl, fun _ hc _ => hc⟩

theorem Later.trans (h₁ : h.Later h') (h₂ : h'.Later h'') : h.Later h'' :=
  ⟨h₁.1.trans h₂.1, fun c hc hold => h₁.2 c (h₂.2 c hc (hold.trans_le h₁.1)) hold⟩

theorem later_add (h : Heap κ) (k : κ) : h.Later (h.add k) := by
  refine ⟨Nat.le_succ _, fun c hc hold => ?_⟩
  rcases Multiset.mem_cons.mp hc with rfl | hc
  · exact absurd hold (lt_irrefl _)
  · exact hc

/-- What is gone stays gone. -/
theorem Gone.later (hc : h.Gone c) (hl : h.Later h') : h'.Gone c :=
  ⟨hc.1.trans_le hl.1, fun hmem => hc.2 (hl.2 c hmem hc.1)⟩

/-- What has been given to a program and does not come out of it is gone. -/
theorem Later.gone_of_split {C O R : Multiset (Cell κ)} (hl : h.Later h') (hbefore : h.cells = C + R)
    (hafter : h'.cells = O + R) (hc : c ∈ C) (hO : c ∉ O) : h'.Gone c := by
  have hnodup : (C + R).Nodup := hbefore ▸ Multiset.Nodup.of_map Prod.fst h.nodup
  have hR : c ∉ R := Multiset.disjoint_left.mp (Multiset.nodup_add.mp hnodup).2.2 hc
  have hmem : c ∈ h.cells := by rw [hbefore]; exact Multiset.mem_add.mpr (.inl hc)
  refine ⟨(h.below c hmem).trans_le hl.1, ?_⟩
  rw [hafter, Multiset.mem_add]
  rintro (h | h)
  · exact hO h
  · exact hR h

variable [DecidableEq κ]

/-- The heap without the cell. -/
def erase (h : Heap κ) (c : Cell κ) : Heap κ where
  cells := h.cells.erase c
  next := h.next
  nodup := Multiset.nodup_of_le (Multiset.map_le_map (Multiset.erase_le c h.cells)) h.nodup
  below := fun d hd => h.below d (Multiset.mem_of_mem_erase hd)

theorem later_erase (h : Heap κ) (c : Cell κ) : h.Later (h.erase c) :=
  ⟨le_rfl, fun _ hd _ => Multiset.mem_of_mem_erase hd⟩

end Heap

/-! ### Programs -/

/-- A program with a heap; without a result it has accessed what is not there. -/
abbrev Owning (κ : Type) := StateT (Heap κ) Option

namespace Owning

/-- `new`, `malloc` -/
def new (k : κ) : Owning κ Address := fun h => some (h.next, h.add k)

/-- undefined behaviour -/
def undefined : Owning κ α := fun _ => none

variable {x : Owning κ α} {f : α → Owning κ β} {h : Heap κ} {c : Cell κ}

/-- A program goes wrong when everything behind its first part does. -/
theorem bind_none (hf : ∀ a h', x h = some (a, h') → f a h' = none) : (x >>= f) h = none := by
  show (x h).bind (fun p => f p.1 p.2) = none
  cases hx : x h with
  | none => rfl
  | some p => exact hf p.1 p.2 hx

theorem pure_eq {a b : α} {h' : Heap κ} (hx : (Pure.pure a : Owning κ α) h = some (b, h')) :
    a = b ∧ h = h' := by
  cases hx
  exact ⟨rfl, rfl⟩

variable [DecidableEq κ]

/-- `delete`, `free` -/
def delete (c : Cell κ) : Owning κ Unit := fun h => if c ∈ h.cells then some ((), h.erase c) else none

/-- an access to the cell -/
def touch (c : Cell κ) : Owning κ Unit := fun h => if c ∈ h.cells then some ((), h) else none

theorem delete_gone (hc : h.Gone c) : delete c h = none := if_neg hc.2

theorem touch_gone (hc : h.Gone c) : touch c h = none := if_neg hc.2

/-- An access changes nothing. -/
theorem touch_eq {a : Unit} {h' : Heap κ} (hx : touch c h = some (a, h')) : h = h' := by
  unfold touch at hx
  split at hx
  · simp only [Option.some.injEq, Prod.mk.injEq] at hx
    exact hx.2
  · contradiction

end Owning

/-! ### What a program does with its cells -/

def Takes (C : Multiset (Cell κ)) (x : Owning κ α) (P : α → Multiset (Cell κ) → Prop) : Prop :=
  ∀ h R, h.cells = C + R → ∃ a h' O, x h = some (a, h') ∧ h.Later h' ∧ h'.cells = O + R ∧ P a O

namespace Takes
open Owning

variable {C D : Multiset (Cell κ)} {x : Owning κ α} {f : α → Owning κ β}
  {P P' : α → Multiset (Cell κ) → Prop} {Q : β → Multiset (Cell κ) → Prop} {a : α}

theorem pure (h : P a C) : Takes C (Pure.pure a) P := fun heap _ hcells =>
  ⟨a, heap, C, rfl, .refl heap, hcells, h⟩

/-- RULE (sequence) -/
theorem bind (hx : Takes C x P) (hf : ∀ a O, P a O → Takes O (f a) Q) : Takes C (x >>= f) Q := by
  intro h R hcells
  obtain ⟨a, h₁, O, hrun, hlater, hcells₁, hP⟩ := hx h R hcells
  obtain ⟨b, h₂, O', hrun₂, hlater₂, hcells₂, hQ⟩ := hf a O hP h₁ R hcells₁
  refine ⟨b, h₂, O', ?_, hlater.trans hlater₂, hcells₂, hQ⟩
  show (x h).bind (fun p => f p.1 p.2) = _
  rw [hrun, Option.bind_some, hrun₂]

/-- RULE (consequence) -/
theorem mono (hx : Takes C x P) (h : ∀ a O, P a O → P' a O) : Takes C x P' := by
  intro heap R hcells
  obtain ⟨a, h', O, hrun, hlater, hcells', hP⟩ := hx heap R hcells
  exact ⟨a, h', O, hrun, hlater, hcells', h a O hP⟩

/-- RULE (frame): the program leaves other cells alone. -/
theorem frame (hx : Takes C x P) (F : Multiset (Cell κ)) :
    Takes (C + F) x fun a O => ∃ O', P a O' ∧ O = O' + F := by
  intro h R hcells
  rw [add_assoc] at hcells
  obtain ⟨a, h', O, hrun, hlater, hcells', hP⟩ := hx h (F + R) hcells
  exact ⟨a, h', O + F, hrun, hlater, by rw [hcells', add_assoc], O, hP, rfl⟩

/-- RULE (sequence, with a frame): the first program needs only some of the cells. -/
theorem seq (F : Multiset (Cell κ)) (hx : Takes C x P) (hD : D = C + F)
    (hf : ∀ a O, P a O → Takes (O + F) (f a) Q) : Takes D (x >>= f) Q := by
  subst hD
  refine (hx.frame F).bind ?_
  rintro a _ ⟨O, hP, rfl⟩
  exact hf a O hP

/-! The three ways to work on the heap. -/

theorem new (k : κ) : Takes 0 (Owning.new k) fun p O => O = {(p, k)} := by
  intro h R hcells
  refine ⟨h.next, h.add k, {(h.next, k)}, rfl, h.later_add k, ?_, rfl⟩
  rw [zero_add] at hcells
  rw [← hcells]
  rfl

variable [DecidableEq κ]

theorem delete (c : Cell κ) : Takes {c} (Owning.delete c) fun _ O => O = 0 := by
  intro h R hcells
  have hmem : c ∈ h.cells := by simp [hcells]
  exact ⟨(), h.erase c, 0, if_pos hmem, h.later_erase c, by simp [Heap.erase, hcells], rfl⟩

theorem touch {c : Cell κ} (hc : c ∈ C) : Takes C (Owning.touch c) fun _ O => O = C := by
  intro h R hcells
  have hmem : c ∈ h.cells := by simp [hcells, hc]
  exact ⟨(), h, C, if_pos hmem, .refl h, hcells, rfl⟩

end Takes

/-! ### Objects and what is lost -/

/-- The heap has the cells of the objects and those that are lost, and no others. -/
def Balanced (cells : Address → σ → Multiset (Cell κ)) (objects : Address → Option σ) (h : Heap κ)
    (lost : Multiset (Cell κ)) : Prop :=
  ∃ table : Multiset (Address × σ), (table.map Prod.fst).Nodup ∧
    (∀ i o, objects i = some o ↔ (i, o) ∈ table) ∧
    h.cells = table.bind (fun p => cells p.1 p.2) + lost

namespace Balanced
variable {cells : Address → σ → Multiset (Cell κ)} {objects : Address → Option σ} {h : Heap κ}
  {C lost : Multiset (Cell κ)} {i : Address} {o : σ}

theorem empty : Balanced cells (fun _ => none) Heap.empty 0 := ⟨0, by simp, by simp, by simp [Heap.empty]⟩

/-- RULE (program): it works on cells that belong to no object. -/
theorem run {x : Owning κ α} {P : α → Multiset (Cell κ) → Prop} (hb : Balanced cells objects h (C + lost))
    (hx : Takes C x P) :
    ∃ a h' O, x h = some (a, h') ∧ h.Later h' ∧ (∀ c ∈ C, c ∉ O → h'.Gone c) ∧ P a O ∧
      Balanced cells objects h' (O + lost) := by
  obtain ⟨table, hnodup, htable, hcells⟩ := hb
  have hsplit : h.cells = C + (table.bind (fun p => cells p.1 p.2) + lost) := by
    rw [hcells, add_left_comm]
  obtain ⟨a, h', O, hrun, hlater, hcells', hP⟩ := hx h _ hsplit
  refine ⟨a, h', O, hrun, hlater, fun c hc hO => ?_, hP, table, hnodup, htable,
    by rw [hcells', add_left_comm]⟩
  exact hlater.gone_of_split hsplit hcells' hc hO

/-- RULE (release): an object is taken apart. -/
theorem release (hb : Balanced cells objects h lost) (hi : objects i = some o) :
    Balanced cells (Function.update objects i none) h (cells i o + lost) := by
  obtain ⟨table, hnodup, htable, hcells⟩ := hb
  obtain ⟨rest, rfl⟩ := Multiset.exists_cons_of_mem ((htable i o).mp hi)
  rw [Multiset.map_cons, Multiset.nodup_cons] at hnodup
  refine ⟨rest, hnodup.2, fun j p => ?_, ?_⟩
  · by_cases hj : j = i
    · subst hj
      have hrest : (j, p) ∉ rest := fun hmem => hnodup.1 (Multiset.mem_map.mpr ⟨(j, p), hmem, rfl⟩)
      simp [hrest]
    · rw [Function.update_of_ne hj, htable, Multiset.mem_cons]
      exact or_iff_right fun hpair => hj (congrArg Prod.fst hpair)
  · rw [hcells, Multiset.cons_bind, add_assoc, add_left_comm]

/-- An object that has a cell at its own address is not there yet while that cell belongs to none. -/
theorem not_there {k : κ} (hown : ∀ i o, (i, k) ∈ cells i o)
    (hb : Balanced cells objects h (cells i o + lost)) : objects i = none := by
  obtain ⟨table, hnodup, htable, hcells⟩ := hb
  have haddresses := h.nodup
  rw [hcells, Multiset.map_add, Multiset.nodup_add, Multiset.map_add] at haddresses
  obtain ⟨-, -, hdisjoint⟩ := haddresses
  rw [Option.eq_none_iff_forall_ne_some]
  intro p hp
  have hmine : i ∈ (table.bind fun p => cells p.1 p.2).map Prod.fst :=
    Multiset.mem_map.mpr ⟨(i, k), Multiset.mem_bind.mpr ⟨(i, p), (htable i p).mp hp, hown i p⟩, rfl⟩
  have hother : i ∈ (cells i o).map Prod.fst := Multiset.mem_map.mpr ⟨(i, k), hown i o, rfl⟩
  exact Multiset.disjoint_left.mp hdisjoint hmine (Multiset.mem_add.mpr (.inl hother))

/-- RULE (claim): cells become an object. -/
theorem claim {k : κ} (hown : ∀ i o, (i, k) ∈ cells i o)
    (hb : Balanced cells objects h (cells i o + lost)) :
    Balanced cells (Function.update objects i (some o)) h lost := by
  have hnone : objects i = none := hb.not_there hown
  obtain ⟨table, hnodup, htable, hcells⟩ := hb
  have hnew : ∀ p, (i, p) ∉ table := fun p hp => by simp [(htable i p).mpr hp] at hnone
  refine ⟨(i, o) ::ₘ table, ?_, fun j p => ?_, ?_⟩
  · rw [Multiset.map_cons, Multiset.nodup_cons]
    refine ⟨fun hmem => ?_, hnodup⟩
    obtain ⟨⟨j, p⟩, hp, rfl⟩ := Multiset.mem_map.mp hmem
    exact hnew p hp
  · by_cases hj : j = i
    · subst hj
      simp [hnew, eq_comm]
    · rw [Function.update_of_ne hj, htable, Multiset.mem_cons]
      exact (or_iff_right fun hpair => hj (congrArg Prod.fst hpair)).symm
  · rw [hcells, Multiset.cons_bind, add_assoc, add_left_comm]

/-- The cells of an object are in the heap. -/
theorem holds (hb : Balanced cells objects h lost) (hi : objects i = some o) : cells i o ≤ h.cells := by
  obtain ⟨table, -, htable, hcells⟩ := hb
  obtain ⟨rest, rfl⟩ := Multiset.exists_cons_of_mem ((htable i o).mp hi)
  rw [hcells, Multiset.cons_bind, add_assoc]
  exact Multiset.le_add_right _ _

/-- Without objects everything is lost. -/
theorem all_lost (hb : Balanced cells objects h lost) (hnone : ∀ i, objects i = none) :
    h.cells = lost := by
  obtain ⟨table, -, htable, hcells⟩ := hb
  have hempty : table = 0 := by
    refine Multiset.eq_zero_of_forall_notMem fun p hp => ?_
    have hsome : objects p.1 = some p.2 := (htable p.1 p.2).mpr hp
    simp [hnone] at hsome
  rw [hcells, hempty, Multiset.zero_bind, zero_add]

end Balanced

end Schemes
