import Mathlib.Data.List.Forall2
import ContestIndex.Schemes.Lexicographic

/-! @scheme prefix-rule | name:Column bounds behind a lexicographic start | layer:library

    Rows in lexicographic order, a walk that starts at a row and keeps what is nowhere above its upper
    bounds, and a query that means lower bounds too. Which queries get exactly the rows that they mean,
    whatever rows there are?

        columns      pre … pre        c           mid …        d           post …
        walk         = start          > start     free         below the lower bound

    The walk returns a row that is not meant if it can leave the start upwards in one column and then
    fall below the lower bound in a later one; it misses a row if a column has values below its start
    that are meant. -/

namespace Schemes

variable {α : Type} [Ord α]

/-- What a query says about a column: which values there are, where the walk starts, and the bounds. -/
structure Column (α : Type) where
  values : α → Prop
  start : α
  lower : Option α
  upper : Option α

namespace Column
variable (c : Column α)

/-- The start and the upper bound are values, and the walk starts at the lower bound. -/
structure Fits : Prop where
  start_value : c.values c.start
  upper_value : ∀ u ∈ c.upper, c.values u
  lower_start : ∀ a ∈ c.lower, c.start = a

def Under (v : α) : Prop := ∀ u ∈ c.upper, compare v u ≠ .gt

def Over (v : α) : Prop := ∀ a ∈ c.lower, compare v a ≠ .lt

/-- The walk can be above its start here. -/
def Room : Prop := ∃ v, c.values v ∧ c.Under v ∧ compare v c.start = .gt

/-- Some value is not above the upper bound and below the lower one. -/
def Cuts : Prop := ∃ v, c.values v ∧ c.Under v ∧ ¬c.Over v

/-- Some value that is meant is below the start. -/
def Hides : Prop := ∃ v, c.values v ∧ c.Under v ∧ c.Over v ∧ compare v c.start = .lt

/-- Some value is meant. -/
def Meets : Prop := ∃ v, c.values v ∧ c.Under v ∧ c.Over v

end Column

/-- Rows of the columns that the walk keeps once it has started. -/
def Kept (cs : List (Column α)) (row : List α) : Prop :=
  List.Forall₂ (fun c v => c.values v ∧ c.Under v) cs row

/-- Rows that the query means. -/
def Meant (cs : List (Column α)) (row : List α) : Prop :=
  List.Forall₂ (fun c v => c.values v ∧ c.Under v ∧ c.Over v) cs row

/-- The row is at or behind the start. -/
def Started (cs : List (Column α)) (row : List α) : Prop := compare row (cs.map (·.start)) ≠ .lt

/-- The walk leaves its start upwards in a column and falls below the lower bound of a later one. -/
def Overruns : List (Column α) → Prop
  | [] => False
  | c :: cs => c.Room ∧ (∃ d ∈ cs, d.Cuts) ∨ c.Under c.start ∧ Overruns cs

/-- The walk starts behind something that is meant. -/
def Misses : List (Column α) → Prop
  | [] => False
  | c :: cs => c.Hides ∧ (∀ d ∈ cs, d.Meets) ∨ c.Under c.start ∧ Misses cs

section
variable {c d : Column α} {cs : List (Column α)} {row : List α} {v : α}

/-- A kept row that is not meant is below the lower bound in some column. -/
theorem Kept.cuts (h : Kept cs row) (hnot : ¬Meant cs row) : ∃ d ∈ cs, d.Cuts := by
  induction h with
  | nil => exact absurd .nil hnot
  | @cons c v cs vs hv hvs ih =>
    by_cases hover : c.Over v
    · have hrest : ¬Meant cs vs := fun hm => hnot (.cons ⟨hv.1, hv.2, hover⟩ hm)
      obtain ⟨d, hd, hcuts⟩ := ih hrest
      exact ⟨d, List.mem_cons_of_mem c hd, hcuts⟩
    · exact ⟨c, List.mem_cons_self, v, hv.1, hv.2, hover⟩

/-- A row that is meant meets every column. -/
theorem Meant.meets (h : Meant cs row) : ∀ d ∈ cs, d.Meets := by
  induction h with
  | nil => simp
  | cons hv _ ih => exact List.forall_mem_cons.mpr ⟨⟨_, hv⟩, ih⟩

/-- Columns that all meet something have a row that is meant. -/
theorem exists_meant (h : ∀ d ∈ cs, d.Meets) : ∃ row, Meant cs row := by
  induction cs with
  | nil => exact ⟨[], .nil⟩
  | cons c cs ih =>
    obtain ⟨⟨v, hv⟩, hrest⟩ := List.forall_mem_cons.mp h
    obtain ⟨row, hrow⟩ := ih hrest
    exact ⟨v :: row, .cons hv hrow⟩

variable [Std.LawfulEqOrd α]

theorem Column.Fits.over_start (hc : c.Fits) : c.Over c.start := by
  intro a ha
  rw [hc.lower_start a ha]
  simp

/-- Every column has something to keep. -/
theorem Column.Fits.exists_kept (hc : c.Fits) : ∃ v, c.values v ∧ c.Under v := by
  cases hu : c.upper with
  | none => exact ⟨c.start, hc.start_value, by simp [Column.Under, hu]⟩
  | some u => exact ⟨u, hc.upper_value u hu, by simp [Column.Under, hu]⟩

theorem exists_kept (hfits : ∀ c ∈ cs, c.Fits) : ∃ row, Kept cs row := by
  induction cs with
  | nil => exact ⟨[], .nil⟩
  | cons c cs ih =>
    obtain ⟨hc, hcs⟩ := List.forall_mem_cons.mp hfits
    obtain ⟨v, hv⟩ := hc.exists_kept
    obtain ⟨row, hrow⟩ := ih hcs
    exact ⟨v :: row, .cons hv hrow⟩

/-- A column that cuts has a row that is kept and not meant. -/
theorem exists_kept_not_meant (hfits : ∀ c ∈ cs, c.Fits) (hd : d ∈ cs) (hcuts : d.Cuts) :
    ∃ row, Kept cs row ∧ ¬Meant cs row := by
  induction cs with
  | nil => cases hd
  | cons c cs ih =>
    obtain ⟨hc, hcs⟩ := List.forall_mem_cons.mp hfits
    rcases List.mem_cons.mp hd with rfl | hd
    · obtain ⟨v, hv, hunder, hover⟩ := hcuts
      obtain ⟨row, hrow⟩ := exists_kept hcs
      exact ⟨v :: row, .cons ⟨hv, hunder⟩ hrow, fun hm => hover (List.forall₂_cons.mp hm).1.2.2⟩
    · obtain ⟨v, hv⟩ := hc.exists_kept
      obtain ⟨row, hrow, hnot⟩ := ih hcs hd
      exact ⟨v :: row, .cons hv hrow, fun hm => hnot (List.forall₂_cons.mp hm).2⟩

theorem started_cons : Started (c :: cs) (v :: row) ↔
    compare v c.start = .gt ∨ v = c.start ∧ Started cs row := by
  simp only [Started, List.map_cons, List.compare_cons_cons]
  cases hcmp : compare v c.start with
  | lt =>
    refine iff_of_false (by simp) ?_
    rintro (h | ⟨rfl, -⟩)
    · contradiction
    · simp at hcmp
  | eq =>
    have heq : v = c.start := Std.LawfulEqCmp.eq_of_compare hcmp
    simp [heq]
  | gt => simp

/-- STEP: a row that is kept but not meant shows where the walk overruns. -/
theorem overruns_of_row (hfits : ∀ c ∈ cs, c.Fits) (hkept : Kept cs row) (hstarted : Started cs row)
    (hnot : ¬Meant cs row) : Overruns cs := by
  induction hkept with
  | nil => exact absurd .nil hnot
  | @cons c v cs vs hv hvs ih =>
    obtain ⟨hc, hcs⟩ := List.forall_mem_cons.mp hfits
    rcases started_cons.mp hstarted with hgt | ⟨rfl, hrest⟩
    · -- above the start, so the column itself is as meant
      have hover : c.Over v := by
        intro a ha
        rw [← hc.lower_start a ha, hgt]
        decide
      have hvs' : ¬Meant cs vs := fun hm => hnot (.cons ⟨hv.1, hv.2, hover⟩ hm)
      exact Or.inl ⟨⟨v, hv.1, hv.2, hgt⟩, Kept.cuts hvs hvs'⟩
    · have hvs' : ¬Meant cs vs := fun hm => hnot (.cons ⟨hv.1, hv.2, hc.over_start⟩ hm)
      exact Or.inr ⟨hv.2, ih hcs hrest hvs'⟩

/-- STEP: where the walk overruns there is such a row. -/
theorem row_of_overruns (hfits : ∀ c ∈ cs, c.Fits) (h : Overruns cs) :
    ∃ row, Kept cs row ∧ Started cs row ∧ ¬Meant cs row := by
  induction cs with
  | nil => exact absurd h id
  | cons c cs ih =>
    obtain ⟨hc, hcs⟩ := List.forall_mem_cons.mp hfits
    rcases h with ⟨⟨v, hv, hunder, hgt⟩, d, hd, hcuts⟩ | ⟨hunder, hrest⟩
    · obtain ⟨row, hkept, hnot⟩ := exists_kept_not_meant hcs hd hcuts
      exact ⟨v :: row, .cons ⟨hv, hunder⟩ hkept, started_cons.mpr (Or.inl hgt),
        fun hm => hnot (List.forall₂_cons.mp hm).2⟩
    · obtain ⟨row, hkept, hstarted, hnot⟩ := ih hcs hrest
      exact ⟨c.start :: row, .cons ⟨hc.start_value, hunder⟩ hkept,
        started_cons.mpr (Or.inr ⟨rfl, hstarted⟩), fun hm => hnot (List.forall₂_cons.mp hm).2⟩

/-- RULE (prefix, sound): everything that a walk keeps is meant, whatever rows there are, if and only if
    it overruns nowhere. -/
theorem kept_meant_iff (hfits : ∀ c ∈ cs, c.Fits) :
    (∀ row, Kept cs row → Started cs row → Meant cs row) ↔ ¬Overruns cs := by
  constructor
  · intro h hover
    obtain ⟨row, hkept, hstarted, hnot⟩ := row_of_overruns hfits hover
    exact hnot (h row hkept hstarted)
  · intro h row hkept hstarted
    by_contra hnot
    exact h (overruns_of_row hfits hkept hstarted hnot)

/-- STEP: a row that is meant but before the start shows where the walk misses. -/
theorem misses_of_row (hmeant : Meant cs row) (hnot : ¬Started cs row) : Misses cs := by
  induction hmeant with
  | nil => exact absurd (by simp [Started]) hnot
  | @cons c v cs vs hv hvs ih =>
    rw [started_cons, not_or] at hnot
    obtain ⟨hgt, hrest⟩ := hnot
    cases hcmp : compare v c.start with
    | gt => exact absurd hcmp hgt
    | eq =>
      obtain rfl : v = c.start := Std.LawfulEqCmp.eq_of_compare hcmp
      exact Or.inr ⟨hv.2.1, ih fun hs => hrest ⟨rfl, hs⟩⟩
    | lt => exact Or.inl ⟨⟨v, hv.1, hv.2.1, hv.2.2, hcmp⟩, Meant.meets hvs⟩

/-- STEP: where the walk misses there is such a row. -/
theorem row_of_misses (hfits : ∀ c ∈ cs, c.Fits) (h : Misses cs) :
    ∃ row, Meant cs row ∧ ¬Started cs row := by
  induction cs with
  | nil => exact absurd h id
  | cons c cs ih =>
    obtain ⟨hc, hcs⟩ := List.forall_mem_cons.mp hfits
    rcases h with ⟨⟨v, hv, hunder, hover, hlt⟩, hmeets⟩ | ⟨hunder, hrest⟩
    · obtain ⟨row, hrow⟩ := exists_meant hmeets
      refine ⟨v :: row, .cons ⟨hv, hunder, hover⟩ hrow, fun hs => ?_⟩
      rcases started_cons.mp hs with hgt | ⟨rfl, -⟩
      · rw [hgt] at hlt
        contradiction
      · simp at hlt
    · obtain ⟨row, hmeant, hnot⟩ := ih hcs hrest
      refine ⟨c.start :: row, .cons ⟨hc.start_value, hunder, hc.over_start⟩ hmeant, fun hs => ?_⟩
      rcases started_cons.mp hs with hgt | ⟨-, hs⟩
      · simp at hgt
      · exact hnot hs

/-- RULE (prefix, complete): everything that is meant is behind the start, whatever rows there are, if
    and only if the walk misses nowhere. -/
theorem meant_started_iff (hfits : ∀ c ∈ cs, c.Fits) :
    (∀ row, Meant cs row → Started cs row) ↔ ¬Misses cs := by
  constructor
  · intro h hmisses
    obtain ⟨row, hmeant, hnot⟩ := row_of_misses hfits hmisses
    exact hnot (h row hmeant)
  · intro h row hmeant
    by_contra hnot
    exact h (misses_of_row hmeant hnot)

end

end Schemes
