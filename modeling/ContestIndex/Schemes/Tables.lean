import ContestIndex.Schemes.UndoLog

/-! @scheme tables | name:Tables with one writer at a time | layer:library

    What a client sees of a store under transactions if at most one unresolved transaction writes to
    a place: every place holds a content and, while a transaction owns it, the content that aborting
    that transaction puts back. The before-images of an `UndoLog` without children say the same.

        clean c ──write a c'──▶ c', saved (a, c) ──write a c''──▶ c'', saved (a, c)
           ▲                                                        │ commit a: clean c''
           └──────────────────────── abort a ───────────────────────┘ -/

namespace Schemes

/-- How a transaction ends. -/
inductive Ending where
  | commit | abort
  deriving DecidableEq, Repr

/-- What is in a place, and who has written there with what to put back. -/
structure Table (χ : Type) where
  content : χ
  saved : Option (Nat × χ)
  deriving DecidableEq

namespace Table
variable {χ υ : Type}

/-- Nobody's. -/
def clean (c : χ) : Table χ := ⟨c, none⟩

/-- What was there before the unresolved changes. -/
def original (T : Table χ) : χ := (T.saved.map (·.2)).getD T.content

/-- The transaction (or a writer outside of transactions) may write: nobody else owns the place. -/
def FreeFor (T : Table χ) (tx : Option Nat) : Prop := ∀ e ∈ T.saved, tx = some e.1

/-- Write under a transaction, or for good. -/
def write (T : Table χ) (tx : Option Nat) (c : χ) : Table χ := ⟨c, tx.map fun a => (a, T.original)⟩

/-- The owner, if there is one, is `a`. -/
def OwnedBy (T : Table χ) (a : Nat) : Prop := T.saved.map (·.1) = some a

instance (T : Table χ) (a : Nat) : Decidable (T.OwnedBy a) :=
  inferInstanceAs (Decidable (T.saved.map (·.1) = some a))

/-- What is in the place after its owner has ended this way. -/
def settled (T : Table χ) : Ending → χ
  | .commit => T.content
  | .abort => T.original

/-- The transaction `a` ends. -/
def resolve (T : Table χ) (how : Ending) (a : Nat) : Table χ :=
  if T.OwnedBy a then clean (T.settled how) else T

/-- The same table, with its contents seen through `f`. -/
def map (f : χ → υ) (T : Table χ) : Table υ := ⟨f T.content, T.saved.map fun e => (e.1, f e.2)⟩

@[simp] theorem clean_content (c : χ) : (clean c).content = c := rfl
@[simp] theorem clean_saved (c : χ) : (clean c).saved = none := rfl
@[simp] theorem write_content (T : Table χ) (tx c) : (T.write tx c).content = c := rfl

theorem ownedBy_iff {T : Table χ} {a : Nat} : T.OwnedBy a ↔ ∃ c, T.saved = some (a, c) := by
  simp [OwnedBy]

theorem original_of_saved {T : Table χ} {a : Nat} {c : χ} (h : T.saved = some (a, c)) :
    T.original = c := by simp [original, h]

theorem original_of_unowned {T : Table χ} (h : T.saved = none) : T.original = T.content := by
  simp [original, h]

/-- Only the writer owns the table that it has written to. -/
theorem write_ownedBy {T : Table χ} {tx : Option Nat} {c : χ} {a : Nat} :
    (T.write tx c).OwnedBy a ↔ tx = some a := by
  cases tx <;> simp [OwnedBy, write]

theorem FreeFor.eq_of_owned {T : Table χ} {tx : Option Nat} (h : T.FreeFor tx) {a : Nat}
    (ha : T.OwnedBy a) : tx = some a := by
  obtain ⟨c, hc⟩ := ownedBy_iff.mp ha
  exact h (a, c) hc

theorem resolve_of_owned {T : Table χ} {a : Nat} (h : T.OwnedBy a) (how : Ending) :
    T.resolve how a = clean (T.settled how) := if_pos h

theorem resolve_of_other {T : Table χ} {a : Nat} (h : ¬T.OwnedBy a) (how : Ending) :
    T.resolve how a = T := if_neg h

/-- Whoever owns a table after `a` has ended owned it before. -/
theorem resolve_ownedBy {T : Table χ} {a b : Nat} {how : Ending} :
    (T.resolve how a).OwnedBy b ↔ T.OwnedBy b ∧ b ≠ a := by
  by_cases h : T.OwnedBy a
  · rw [resolve_of_owned h]
    refine iff_of_false (by simp [OwnedBy]) ?_
    rintro ⟨hb, hne⟩
    exact hne (Option.some.inj (hb.symm.trans h))
  · rw [resolve_of_other h]
    refine ⟨fun hb => ⟨hb, ?_⟩, fun hb => hb.1⟩
    rintro rfl
    exact h hb

theorem freeFor_none {T : Table χ} : T.FreeFor none ↔ T.saved = none := by
  cases h : T.saved <;> simp [FreeFor, h]

/-! ### Tables seen through a function -/

variable (T : Table χ) (f : χ → υ)

@[simp] theorem map_clean (c : χ) : (clean c).map f = clean (f c) := rfl
@[simp] theorem map_content : (T.map f).content = f T.content := rfl

theorem map_original : (T.map f).original = f T.original := by
  cases h : T.saved <;> simp [original, map, h]

theorem map_ownedBy {a : Nat} : (T.map f).OwnedBy a ↔ T.OwnedBy a := by
  simp [OwnedBy, map, Option.map_map, Function.comp_def]

theorem map_write (tx : Option Nat) (c : χ) : (T.write tx c).map f = (T.map f).write tx (f c) := by
  rw [write, write, map_original]
  cases tx <;> rfl

theorem map_resolve (how : Ending) (a : Nat) : (T.resolve how a).map f = (T.map f).resolve how a := by
  have hsettled : (T.map f).settled how = f (T.settled how) := by
    cases how
    · rfl
    · exact T.map_original f
  by_cases h : T.OwnedBy a
  · rw [resolve_of_owned h, resolve_of_owned ((T.map_ownedBy f).mpr h), hsettled, map_clean]
  · rw [resolve_of_other h, resolve_of_other fun hc => h ((T.map_ownedBy f).mp hc)]

end Table

/-! ### What undoing does in one place -/

namespace UndoLog
variable {ι χ : Type} [DecidableEq ι] {mine : Nat → Bool} {i : ι}

/-- Undoing in one place looks at the store in that place only. -/
theorem undo_at_congr : ∀ {l : List (Nat × ι × χ)} {s s' : ι → χ}, s i = s' i →
    undo mine l s i = undo mine l s' i
  | [], _, _, h => h
  | (a, j, v) :: l, s, s', h => by
    rw [undo, undo]
    refine undo_at_congr ?_
    split
    · rcases eq_or_ne i j with rfl | hij
      · rw [Function.update_self, Function.update_self]
      · rw [Function.update_of_ne hij, Function.update_of_ne hij, h]
    · exact h

/-- An entry of another transaction, or in another place, does not matter. -/
theorem undo_at_skip {e : Nat × ι × χ} (he : mine e.1 = true → e.2.1 ≠ i)
    (l : List (Nat × ι × χ)) (s : ι → χ) : undo mine (e :: l) s i = undo mine l s i := by
  rw [undo]
  refine undo_at_congr ?_
  split
  · next hmine => exact Function.update_of_ne (he hmine).symm _ _
  · rfl

/-- Where the undone transactions have not written nothing happens. -/
theorem undo_at_none : ∀ {l : List (Nat × ι × χ)} (s : ι → χ),
    (∀ e ∈ l, mine e.1 = true → e.2.1 ≠ i) → undo mine l s i = s i
  | [], _, _ => rfl
  | e :: l, s, h => by
    obtain ⟨hhead, htail⟩ := List.forall_mem_cons.mp h
    rw [undo_at_skip hhead]
    exact undo_at_none s htail

/-- Entries of transactions that are not undone may be dropped. -/
theorem undo_at_filter {keep : Nat × ι × χ → Bool} : ∀ {l : List (Nat × ι × χ)} (s : ι → χ),
    (∀ e ∈ l, mine e.1 = true → e.2.1 = i → keep e = true) →
      undo mine (l.filter keep) s i = undo mine l s i
  | [], _, _ => rfl
  | e :: l, s, h => by
    obtain ⟨hhead, htail⟩ := List.forall_mem_cons.mp h
    by_cases hkeep : keep e = true
    · rw [List.filter_cons_of_pos hkeep, undo, undo]
      exact undo_at_filter _ htail
    · have hskip : mine e.1 = true → e.2.1 ≠ i := fun hmine hi => hkeep (hhead hmine hi)
      rw [List.filter_cons_of_neg hkeep, undo_at_skip hskip]
      exact undo_at_filter s htail

/-! ### Tables of an undo log -/

/-- The tables describe the store: their contents, who owns the before-images, and where they lead
    back to. -/
structure Tables (t : UndoLog ι χ) (T : ι → Table χ) : Prop where
  content : ∀ i, t.store i = (T i).content
  owner : ∀ e ∈ t.log, (T e.2.1).OwnedBy e.1
  image : ∀ i a c, (T i).saved = some (a, c) → undo (fun x => decide (x = a)) t.log t.store i = c

variable {t : UndoLog ι χ} {T : ι → Table χ} {a : Nat}

/-- Where nobody has written there are no before-images. -/
theorem Tables.no_image (h : t.Tables T) (hnone : (T i).saved = none) : ∀ e ∈ t.log, e.2.1 ≠ i := by
  rintro e he rfl
  obtain ⟨c, hc⟩ := Table.ownedBy_iff.mp (h.owner e he)
  rw [hnone] at hc
  contradiction

theorem Tables.empty (s : ι → χ) (live : List (Nat × Option Nat)) :
    (⟨s, live, []⟩ : UndoLog ι χ).Tables fun i => .clean (s i) where
  content := fun _ => rfl
  owner := by simp
  image := by simp

/-- Beginning a transaction changes no table. -/
theorem Tables.begin (h : t.Tables T) (a : Nat) (parent : Option Nat) :
    (t.begin a parent).Tables T := ⟨h.content, h.owner, h.image⟩

/-- STEP: a write under a transaction that owns the place, or finds it clean. -/
theorem Tables.write (h : t.Tables T) (hfree : (T i).FreeFor (some a)) (v : χ) :
    (t.write a i v).Tables (Function.update T i ((T i).write (some a) v)) where
  content := fun j => by
    rcases eq_or_ne j i with rfl | hj
    · simp
    · simpa [hj] using h.content j
  owner := by
    have hhere : ((T i).write (some a) v).OwnedBy a := rfl
    intro e he
    rcases List.mem_cons.mp he with rfl | he
    · simpa using hhere
    · rcases eq_or_ne e.2.1 i with hi | hi
      · obtain ⟨c, hc⟩ := Table.ownedBy_iff.mp (h.owner e he)
        have hea : a = e.1 := by
          rw [hi] at hc
          exact Option.some.inj (hfree _ hc)
        rw [hi, Function.update_self, ← hea]
        exact hhere
      · rw [Function.update_of_ne hi]
        exact h.owner e he
  image := by
    intro j b c hsaved
    rcases eq_or_ne j i with rfl | hj
    · -- the newest before-image is the content, from which the older ones lead on
      rw [Function.update_self, Table.write, Option.map_some, Option.some.injEq, Prod.mk.injEq] at hsaved
      obtain ⟨rfl, rfl⟩ := hsaved
      have hback : undo (fun x => decide (x = a)) (t.write a j v).log (t.write a j v).store j =
          undo (fun x => decide (x = a)) t.log t.store j := by
        simp [undo]
      rw [hback]
      cases hold : (T j).saved with
      | none =>
        rw [Table.original_of_unowned hold, ← h.content]
        exact undo_at_none _ fun e he _ => h.no_image hold e he
      | some e =>
        obtain ⟨b, c⟩ := e
        obtain rfl : a = b := Option.some.inj (hfree (b, c) hold)
        rw [Table.original_of_saved hold]
        exact h.image j a c hold
    · rw [Function.update_of_ne hj] at hsaved
      rw [← h.image j b c hsaved, write_log, undo_at_skip fun _ => hj.symm]
      exact undo_at_congr (by simp [hj])

/-- STEP: a write for good where nobody has written. -/
theorem Tables.put (h : t.Tables T) (hfree : (T i).FreeFor none) (v : χ) :
    (t.put i v).Tables (Function.update T i ((T i).write none v)) where
  content := fun j => by
    rcases eq_or_ne j i with rfl | hj
    · simp
    · simpa [hj] using h.content j
  owner := by
    intro e he
    have hi : e.2.1 ≠ i := h.no_image (Table.freeFor_none.mp hfree) e he
    rw [Function.update_of_ne hi]
    exact h.owner e he
  image := by
    intro j b c hsaved
    rcases eq_or_ne j i with rfl | hj
    · simp [Table.write] at hsaved
    · rw [Function.update_of_ne hj] at hsaved
      rw [← h.image j b c hsaved]
      exact undo_at_congr (by simp [hj])

/-- Resolve the transaction `a`. -/
def resolve (t : UndoLog ι χ) : Ending → Nat → UndoLog ι χ
  | .commit, a => t.commit a
  | .abort, a => t.abort a

/-- Resolved either way, the transaction leaves the before-images of the others. -/
theorem Flat.resolve_log (h : t.Flat) (how : Ending) (a : Nat) :
    (t.resolve how a).log = t.log.filter fun e => decide (e.1 ≠ a) := by
  cases how <;> simp [resolve, UndoLog.commit, UndoLog.abort, h.parentOf_eq, h.family_eq]

/-- In a place that it does not own nothing happens. -/
theorem Tables.resolve_other (h : t.Tables T) (hflat : t.Flat) (how : Ending)
    (hnot : ¬(T i).OwnedBy a) : (t.resolve how a).store i = t.store i := by
  cases how with
  | commit => rfl
  | abort =>
    refine undo_at_none _ fun e he hea hi => hnot ?_
    rw [hflat.family_eq] at hea
    have howner : e.1 = a := by simpa using hea
    rw [← howner, ← hi]
    exact h.owner e he

/-- In a place that it owns its changes stay or are taken back. -/
theorem Tables.resolve_owned (h : t.Tables T) (hflat : t.Flat) (how : Ending)
    (howned : (T i).OwnedBy a) : (t.resolve how a).store i = (T i).settled how := by
  cases how with
  | commit => exact h.content i
  | abort =>
    obtain ⟨c, hc⟩ := Table.ownedBy_iff.mp howned
    have hmine : undo (fun x => decide (x ∈ family t.live a)) t.log t.store =
        undo (fun x => decide (x = a)) t.log t.store :=
      undo_congr fun e _ => by simp [hflat.family_eq]
    calc (t.abort a).store i
        = undo (fun x => decide (x = a)) t.log t.store i := congrFun hmine i
      _ = c := h.image i a c hc
      _ = (T i).original := (Table.original_of_saved hc).symm

/-- STEP: the end of a transaction gives up what it owns. -/
theorem Tables.resolve (h : t.Tables T) (hflat : t.Flat) (how : Ending) (a : Nat) :
    (t.resolve how a).Tables fun i => (T i).resolve how a where
  content := fun i => by
    by_cases howned : (T i).OwnedBy a
    · rw [Table.resolve_of_owned howned, h.resolve_owned hflat how howned, Table.clean_content]
    · rw [Table.resolve_of_other howned, h.resolve_other hflat how howned, h.content]
  owner := fun e he => by
    rw [hflat.resolve_log, List.mem_filter, decide_eq_true_eq] at he
    exact Table.resolve_ownedBy.mpr ⟨h.owner e he.1, he.2⟩
  image := fun i b c hsaved => by
    have hb : ((T i).resolve how a).OwnedBy b := Table.ownedBy_iff.mpr ⟨c, hsaved⟩
    obtain ⟨hold, hne⟩ := Table.resolve_ownedBy.mp hb
    have hnot : ¬(T i).OwnedBy a := fun hc => hne (Option.some.inj (hold.symm.trans hc))
    rw [Table.resolve_of_other hnot] at hsaved
    rw [← h.image i b c hsaved, hflat.resolve_log, undo_at_congr (h.resolve_other hflat how hnot)]
    refine undo_at_filter _ fun e _ hmine _ => ?_
    have heb : e.1 = b := by simpa using hmine
    simpa [heb] using hne

end UndoLog

end Schemes
