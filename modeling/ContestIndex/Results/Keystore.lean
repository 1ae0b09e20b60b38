import ContestIndex.Model.BaseDriver
import ContestIndex.Schemes.SlotRing

/-! @src benchmark/basedriver.c | name:The keys that are updated and deleted | layer:results

    A slot of the keystore is chosen by a random number `a` as `a * P / UINT64_MAX`, where `P` is
    BDR_KEY_PROVISIONING. Only the slots below a bound hold a key:

        slot   0      …      covered - 1 │ covered   …   P - 1 │ P
               KeystoreInsert wrote it   │ never written       │ outside the array
                                         │                     │ a = UINT64_MAX

    The bound is what the index was populated with, or what the thread has inserted since if that is
    more, up to `P`. Whether a choice is fine depends on the random number and the bound alone. -/

namespace Contest
namespace BaseDriver
open Schemes Prog

/-! ### What a choice should find, and when it does -/

/-- `KeystoreInsert` has stored the key in the slot, for a record that InsertRecord had accepted. -/
def Stored (log : List Event) (slot : Nat) (key : List Int) : Prop :=
  [.stored slot key, .called (.insertRecord key) .kOk] <:+: log

/-- The slot is one of the array and the key in it was stored there before. -/
def Inserted (before : List Event) (ksselect : Nat) (key : List (Option Int)) : Prop :=
  ksselect < BDR_KEY_PROVISIONING ∧ ∃ k : List Int, key = k.map some ∧ Stored before ksselect k

/-- Every slot that was read in a run held an inserted key. -/
def ReadsInserted (log : List Event) : Prop :=
  ∀ draw ksselect key before, .selected draw ksselect key :: before <:+ log →
    Inserted before ksselect key

def Event.isStored : Event → Bool
  | .stored _ _ => true
  | _ => false

/-- How many keys have been stored. -/
def stores (log : List Event) : Nat := log.countP Event.isStored

@[simp] theorem stores_stored (slot : Nat) (key : List Int) (log : List Event) :
    stores (.stored slot key :: log) = stores log + 1 := List.countP_cons_of_pos rfl

@[simp] theorem stores_called (c : ApiCall) (code : ErrorCode) (log : List Event) :
    stores (.called c code :: log) = stores log := List.countP_cons_of_neg (by simp [Event.isStored])

/-- The number of slots that hold a key, from the number of keys that have been stored: `main` sets the
    position back to 0 after the index was populated. -/
def covered (id : IndexId) (stores : Nat) : Nat :=
  SlotRing.covered BDR_KEY_PROVISIONING (populated id) (stores - populated id)

/-- The random number chooses a slot that holds a key. -/
def Low (id : IndexId) (before : List Event) (draw : UInt64) : Prop :=
  draw.toNat * BDR_KEY_PROVISIONING < covered id (stores before) * UINT64_MAX

/-- Every random number that chose a slot was low. -/
def DrawsLow (id : IndexId) (log : List Event) : Prop :=
  ∀ draw ksselect key before, .selected draw ksselect key :: before <:+ log → Low id before draw

/-- Whether a choice was fine was decided by its random number. -/
def Judged (id : IndexId) (log : List Event) : Prop :=
  ∀ draw ksselect key before, .selected draw ksselect key :: before <:+ log →
    (Inserted before ksselect key ↔ Low id before draw)

theorem Judged.nil (id : IndexId) : Judged id [] := by
  intro draw ksselect key before h
  simp at h

theorem Judged.cons {id : IndexId} {log : List Event} {ev : Event} (h : Judged id log)
    (hev : ∀ draw ksselect key, ev = .selected draw ksselect key →
      (Inserted log ksselect key ↔ Low id log draw)) : Judged id (ev :: log) := by
  intro draw ksselect key before hsuffix
  rcases List.suffix_cons_iff.mp hsuffix with heq | hold
  · obtain ⟨rfl, rfl⟩ := List.cons.inj heq
    exact hev draw ksselect key rfl
  · exact h draw ksselect key before hold

/-- What is decided by its random number is fine if that was low. -/
theorem Judged.iff {id : IndexId} {log : List Event} (h : Judged id log) :
    ReadsInserted log ↔ DrawsLow id log :=
  forall_congr' fun draw => forall_congr' fun ksselect => forall_congr' fun key =>
    forall_congr' fun before => forall_congr' fun hs => h draw ksselect key before hs

/-! ### The keystore is a ring of keys -/

theorem writeCells_apply (vs : List Int) (keystore : Nat → Option Int) (base i : Nat) :
    writeCells keystore base vs i =
      if base ≤ i ∧ i < base + vs.length then vs[i - base]? else keystore i := by
  induction vs generalizing keystore base with
  | nil => rw [writeCells, if_neg (by rw [List.length_nil]; omega)]
  | cons v vs ih =>
    rw [writeCells, ih, List.length_cons]
    by_cases hi : i = base
    · subst hi
      simp
    · rw [Function.update_of_ne hi]
      by_cases hin : base + 1 ≤ i ∧ i < base + 1 + vs.length
      · rw [if_pos hin, if_pos (by omega), show i - base = i - (base + 1) + 1 by omega,
          List.getElem?_cons_succ]
      · rw [if_neg hin, if_neg (by omega)]

/-- The cells of slot `c` are those of the key in slot `c` of the ring. -/
structure Represents (ti : ThreadInfo) (r : SlotRing (List Int)) : Prop where
  pos : ti.keypos = r.pos
  keys : ∀ c, ti.keyAt c =
    (r.slot c).elim (List.replicate (BDR_DIMENSIONS ti.indexid) none) (·.map some)

theorem fresh_represents (id : IndexId) : Represents (Task.initial id).ti SlotRing.fresh where
  pos := rfl
  keys := fun c => by simp [ThreadInfo.keyAt, Task.initial, SlotRing.fresh]

section Insert
variable {ti : ThreadInfo} {key : List Int}

theorem keyAt_keystoreInsert_self (hlen : key.length = BDR_DIMENSIONS ti.indexid) :
    (ti.keystoreInsert key).keyAt ti.keypos = key.map some := by
  refine List.ext_getElem? fun j => ?_
  simp only [ThreadInfo.keyAt, ThreadInfo.keystoreInsert, writeCells_apply, List.getElem?_map, hlen,
    Nat.le_add_right, Nat.add_lt_add_iff_left, true_and, Nat.add_sub_cancel_left]
  rcases Nat.lt_or_ge j (BDR_DIMENSIONS ti.indexid) with hj | hj
  · rw [List.getElem?_range hj, Option.map_some, if_pos hj, List.getElem?_eq_getElem (hlen ▸ hj)]
    rfl
  · rw [List.getElem?_eq_none (by rwa [List.length_range]), List.getElem?_eq_none (hlen ▸ hj)]
    rfl

theorem keyAt_keystoreInsert_of_ne (hlen : key.length = BDR_DIMENSIONS ti.indexid) {c : Nat}
    (hc : c ≠ ti.keypos) : (ti.keystoreInsert key).keyAt c = ti.keyAt c := by
  refine List.map_congr_left fun j hj => ?_
  have hj : j < BDR_DIMENSIONS ti.indexid := List.mem_range.mp hj
  simp only [ThreadInfo.keystoreInsert, writeCells_apply, hlen]
  refine if_neg fun hin => ?_
  -- the cells of different slots are disjoint
  rcases Nat.lt_or_gt_of_ne hc with hlt | hgt
  · have hend := Nat.mul_le_mul_right (BDR_DIMENSIONS ti.indexid) (Nat.succ_le_of_lt hlt)
    rw [Nat.succ_mul] at hend
    omega
  · have hend := Nat.mul_le_mul_right (BDR_DIMENSIONS ti.indexid) (Nat.succ_le_of_lt hgt)
    rw [Nat.succ_mul] at hend
    omega

/-- STEP (`KeystoreInsert`): it pushes the key. -/
theorem Represents.keystoreInsert {r : SlotRing (List Int)} (h : Represents ti r)
    (hlen : key.length = BDR_DIMENSIONS ti.indexid) :
    Represents (ti.keystoreInsert key) (r.push BDR_KEY_PROVISIONING key) where
  pos := by rw [ThreadInfo.keystoreInsert, SlotRing.push, h.pos]
  keys := by
    intro c
    by_cases hc : c = ti.keypos
    · subst hc
      rw [keyAt_keystoreInsert_self hlen, h.pos, SlotRing.push_slot_self]
      rfl
    · rw [keyAt_keystoreInsert_of_ne hlen hc, SlotRing.push_slot_of_ne (h.pos ▸ hc), h.keys]
      rfl

end Insert

/-! ### What holds between two events -/

/-- The keystore of a thread and what has happened so far. The first `filled` keys were stored before the
    position was set back, which is nowhere while the index is populated. -/
structure Consistent (id : IndexId) (filled : Nat) (ti : ThreadInfo) (log : List Event) : Prop where
  indexid : ti.indexid = id
  filled_le : filled ≤ stores log
  judged : Judged id log
  ring : ∃ r : SlotRing (List Int), Represents ti r ∧
    r.Covers BDR_KEY_PROVISIONING filled (stores log - filled) ∧ r.Holds (Stored log)

namespace Consistent
variable {id : IndexId} {filled : Nat} {ti : ThreadInfo} {log : List Event}

theorem initial (id : IndexId) : Consistent id 0 (Task.initial id).ti [] where
  indexid := rfl
  filled_le := Nat.le_refl 0
  judged := Judged.nil id
  ring := ⟨SlotRing.fresh, fresh_represents id, SlotRing.fresh_covers _, SlotRing.fresh_holds _⟩

/-- STEP: a call of the API. -/
theorem called (h : Consistent id filled ti log) (c : ApiCall) (code : ErrorCode) :
    Consistent id filled ti (.called c code :: log) where
  indexid := h.indexid
  filled_le := h.filled_le
  judged := h.judged.cons (by simp)
  ring := by
    obtain ⟨r, hti, hcovers, hholds⟩ := h.ring
    exact ⟨r, hti, hcovers, hholds.mono fun c key hs => List.infix_cons hs⟩

/-- STEP: a record was accepted and its key stored. -/
theorem stored (h : Consistent id filled ti log) {key : List Int}
    (hlen : key.length = BDR_DIMENSIONS id) :
    Consistent id filled (ti.keystoreInsert key)
      (.stored ti.keypos key :: .called (.insertRecord key) .kOk :: log) where
  indexid := h.indexid
  filled_le := h.filled_le.trans (by simp)
  judged := (h.called (.insertRecord key) .kOk).judged.cons (by simp)
  ring := by
    obtain ⟨r, hti, hcovers, hholds⟩ := (h.called (.insertRecord key) .kOk).ring
    have hpush := hcovers.push (by decide) key
    refine ⟨_, hti.keystoreInsert (h.indexid ▸ hlen), ?_, ?_⟩
    · rw [stores_called] at hpush
      rwa [stores_stored, stores_called, Nat.sub_add_comm h.filled_le]
    · refine SlotRing.Holds.push (hholds.mono fun c k hs => List.infix_cons hs) ?_ _
      rw [← hti.pos]
      exact (List.prefix_append _ log).isInfix

/-- STEP: `main` copies the keystore. -/
theorem copied (h : Consistent id 0 ti log) (hcount : stores log = populated id) :
    Consistent id (populated id) { ti with keypos := 0 } log where
  indexid := h.indexid
  filled_le := hcount.ge
  judged := h.judged
  ring := by
    obtain ⟨r, hti, hcovers, hholds⟩ := h.ring
    rw [Nat.sub_zero, hcount] at hcovers
    refine ⟨r.rewind, ⟨rfl, hti.keys⟩, ?_, hholds⟩
    rw [hcount, Nat.sub_self]
    exact hcovers.rewind

/-- A slot was chosen and read: if it is covered, an inserted key was found there. -/
theorem inserted_iff (h : Consistent id (populated id) ti log) (slot : Nat) :
    Inserted log slot (ti.keyAt slot) ↔ slot < covered id (stores log) := by
  obtain ⟨r, hti, hcovers, hholds⟩ := h.ring
  have hslot := hcovers.slot slot
  rw [hti.keys, covered, ← hslot]
  constructor
  · rintro ⟨-, k, hk, -⟩
    cases hr : r.slot slot with
    | some _ => rfl
    | none =>
      -- a slot that was never written does not hold a key
      have hmem : none ∈ k.map some := by
        rw [← hk, hr]
        exact List.mem_replicate.mpr ⟨(h.indexid ▸ BDR_DIMENSIONS_pos id).ne', rfl⟩
      simp at hmem
  · intro hsome
    obtain ⟨k, hk⟩ := Option.isSome_iff_exists.mp hsome
    refine ⟨(hslot.mp hsome).trans_le (SlotRing.covered_le_size ..), k, by rw [hk]; rfl, ?_⟩
    exact hholds slot k hk

/-- STEP: a random number chooses a slot. -/
theorem selected (h : Consistent id (populated id) ti log) (draw : UInt64) :
    Consistent id (populated id) ti
      (.selected draw (draw.toNat * BDR_KEY_PROVISIONING / UINT64_MAX)
        (ti.keyAt (draw.toNat * BDR_KEY_PROVISIONING / UINT64_MAX)) :: log) where
  indexid := h.indexid
  filled_le := h.filled_le
  judged := by
    refine h.judged.cons fun d slot key hev => ?_
    obtain ⟨rfl, rfl, rfl⟩ := Event.selected.inj hev
    rw [h.inserted_iff, Low, Nat.div_lt_iff_lt_mul (by decide)]
  ring := by
    obtain ⟨r, hti, hcovers, hholds⟩ := h.ring
    exact ⟨r, hti, hcovers, hholds.mono fun c key hs => List.infix_cons hs⟩

end Consistent

/-! ### What the functions keep -/

/-- A property of the thread and of what has happened, which random numbers do not change. -/
abbrev At (P : ThreadInfo → List Event → Prop) : Task → Prop := fun t => P t.ti t.log

section Draws
variable {E : Task → Prop} {P : ThreadInfo → List Event → Prop} {id : IndexId} (e : Surroundings)

theorem nextPair_ensures : Ensures E (At P) (nextPair e) fun _ => At P := fun _ hs => hs

/-- No generator of the driver ends the process. -/
theorem getRandomValue_ne_none {ri : RngInfo} (hri : ri.type ≠ .Zipf) (a b : UInt64) :
    getRandomValue e ri a b ≠ none := by
  have ha : a.toNat ≤ UINT64_MAX := Nat.le_of_lt_succ a.toNat_lt
  rw [getRandomValue]
  cases ht : ri.type with
  | Uniform => simp [ha.not_gt]
  | Normal => simp
  | Zipf => exact absurd ht hri

theorem random_ensures {ri : RngInfo} (hri : ri.type ≠ .Zipf) :
    Ensures E (At P) (random e ri) fun _ => At P :=
  .bind (nextPair_ensures e) fun p => .ofOption (fun _ _ _ hs => hs) fun hnone =>
    absurd hnone (getRandomValue_ne_none e hri p.1 p.2)

theorem randomKey_ensures (hid : ∀ ti log, P ti log → ti.indexid = id) :
    Ensures E (At P) (randomKey e) fun key t => At P t ∧ key.length = BDR_DIMENSIONS id := by
  refine .bind (R := fun t s => At P s ∧ t.ti.indexid = id) (.get fun t ht => ⟨ht, hid _ _ ht⟩)
    fun t => ?_
  refine .assuming fun hindex => ?_
  have hkeys := Ensures.mapM fun ri (hri : ri ∈ BDR_RNGS t.ti.indexid) =>
    @random_ensures E P e ri (BDR_RNGS_type _ ri hri)
  refine hkeys.mono (fun _ hs => hs) fun key s hs => ⟨hs.1, ?_⟩
  rw [hs.2, length_BDR_RNGS, hindex]

theorem toUInt32_natCast {n : Nat} (h : n < 4294967296) : toUInt32 n = n := by
  rw [toUInt32]
  omega

/-- The slot is what the random number chooses. -/
theorem toUInt32_chosen {draw b : UInt64} {v : Int}
    (h : getRandomValue e ⟨.Uniform, 0, BDR_KEY_PROVISIONING⟩ draw b = some v) :
    toUInt32 v = draw.toNat * BDR_KEY_PROVISIONING / UINT64_MAX := by
  have hdraw : draw.toNat ≤ UINT64_MAX := Nat.le_of_lt_succ draw.toNat_lt
  simp only [getRandomValue, if_neg hdraw.not_gt, Option.some.injEq] at h
  have hslot : draw.toNat * BDR_KEY_PROVISIONING / UINT64_MAX ≤ BDR_KEY_PROVISIONING :=
    Nat.div_le_of_le_mul (Nat.mul_le_mul_right _ hdraw)
  rw [← h, Int.sub_zero, Int.add_zero, ← Int.natCast_mul, ← Int.natCast_ediv]
  exact toUInt32_natCast (hslot.trans_lt (by decide))

theorem selectSlot_ensures :
    Ensures E (At P) (selectSlot e) fun p t =>
      At P t ∧ p.2 = p.1.toNat * BDR_KEY_PROVISIONING / UINT64_MAX := by
  refine .bind (nextPair_ensures e) fun p => ?_
  refine .bind (R := fun v t =>
    At P t ∧ toUInt32 v = p.1.toNat * BDR_KEY_PROVISIONING / UINT64_MAX) ?_ fun v => ?_
  · exact .ofOption (fun v hv s hs => ⟨hs, toUInt32_chosen e hv⟩) fun hnone =>
      absurd hnone (getRandomValue_ne_none e (by decide) p.1 p.2)
  · exact .pure fun s hs => hs

/-- InsertRecord has just answered; before that `P` was true. -/
abbrev Answered (key : List Int) (code : ErrorCode) (P : ThreadInfo → List Event → Prop) :
    Task → Prop :=
  fun t => ∃ log, t.log = .called (.insertRecord key) code :: log ∧ P t.ti log

theorem insertRecord_ensures (key : List Int) :
    Ensures E (At P) (call e (.insertRecord key)) fun code t =>
      Answered key code P t ∧ ∃ i, code = e.answer i :=
  fun s hs => ⟨⟨s.log, rfl, hs⟩, s.answered, rfl⟩

theorem keystoreInsert_ensures {P' : ThreadInfo → List Event → Prop} {key : List Int}
    (h : ∀ ti log, P ti log → P' (ti.keystoreInsert key)
      (.stored ti.keypos key :: .called (.insertRecord key) .kOk :: log)) :
    Ensures E (Answered key .kOk P) (keystoreInsert key) fun _ => At P' := by
  rintro t ⟨log, hlog, ht⟩
  have hafter := h t.ti log ht
  rwa [← hlog] at hafter

end Draws

/-- `E` is true when the process ends because a call has failed. -/
def ExitsInto (e : Surroundings) (id : IndexId) (E : Task → Prop) : Prop :=
  ∀ i t, e.answer i ≠ .kOk → Judged id t.log → E t

/-- The keystore is consistent before and after `x`. -/
abbrev Keeps {α : Type} (E : Task → Prop) (id : IndexId) (filled : Nat) (x : Prog Task α) : Prop :=
  Ensures E (At (Consistent id filled)) x fun _ => At (Consistent id filled)

section Branches
variable {E : Task → Prop} {id : IndexId} {filled : Nat} (e : Surroundings)

theorem call_keeps (c : ApiCall) : Keeps E id filled (call e c) := fun _ hs => hs.called c _

theorem call_answered (c : ApiCall) : Ensures E (At (Consistent id filled)) (call e c)
    fun code t => At (Consistent id filled) t ∧ ∃ i, code = e.answer i :=
  fun s hs => ⟨hs.called c _, s.answered, rfl⟩

theorem Consistent.answered {key : List Int} {code : ErrorCode} (t : Task)
    (h : Answered key code (Consistent id filled) t) : At (Consistent id filled) t := by
  obtain ⟨log, hlog, hlast⟩ := h
  have hcalled := hlast.called (.insertRecord key) code
  rwa [← hlog] at hcalled

theorem readKey_ensures (draw : UInt64) (slot : Nat) :
    Ensures E (fun t => At (Consistent id (populated id)) t ∧
      slot = draw.toNat * BDR_KEY_PROVISIONING / UINT64_MAX) (readKey draw slot)
      fun _ => At (Consistent id (populated id)) :=
  .assuming fun hslot t ht => by
    subst hslot
    exact ht.selected draw

theorem getNexts_keeps (n : Nat) : Keeps E id filled (getNexts e n) := by
  induction n with
  | zero => exact .pure fun _ hs => hs
  | succ n ih =>
    exact .bind (call_keeps e .getNext) fun _ => .ite (fun _ => ih) fun _ => .pure fun _ hs => hs

theorem rangeQuery_keeps : Keeps E id filled (rangeQuery e) := by
  refine .bind (call_keeps e .beginTransaction) fun _ => ?_
  refine .bind (randomKey_ensures e fun _ _ h => h.indexid) fun key => .assuming fun _ => ?_
  refine .bind (call_keeps e _) fun _ => .bind (getNexts_keeps e 200) fun _ => ?_
  refine .bind (call_keeps e .closeIterator) fun _ => ?_
  exact .bind (call_keeps e .commitTransaction) fun _ => .pure fun _ hs => hs

theorem pointKey_keeps : Keeps E id filled (pointKey e) := by
  refine .bind (R := fun _ => At (Consistent id filled)) (.get fun _ hs => hs) fun t => ?_
  refine .bind (random_ensures e (by simp)) fun colselect => ?_
  refine Ensures.mono (.mapM fun c hc => ?_) (fun _ hs => hs) fun _ _ hs => hs.1
  refine .ite (fun _ => ?_) fun _ => .pure fun _ hs => hs
  have hri := BDR_RNGS_type _ c.1 (List.fst_mem_of_mem_zipIdx hc)
  exact .bind (random_ensures e hri) fun _ => .pure fun _ hs => hs

theorem pointQuery_keeps (hE : ExitsInto e id E) : Keeps E id filled (pointQuery e) := by
  refine .bind (pointKey_keeps e) fun key => .bind (call_answered e _) fun code => ?_
  refine .assuming fun hcode => .ite (fun hne => .failure ?_) fun _ => ?_
  · obtain ⟨i, rfl⟩ := hcode
    exact fun t ht => hE i t hne ht.judged
  · refine .bind (call_keeps e .getNext) fun _ => ?_
    exact .bind (call_keeps e .closeIterator) fun _ => .pure fun _ hs => hs

theorem update_keeps : Keeps E id (populated id) (update e) := by
  refine .bind (selectSlot_ensures e) fun p => ?_
  -- the number that fills the payload is drawn between the choice and the read
  refine .bind (R := fun _ t => At (Consistent id (populated id)) t ∧
    p.2 = p.1.toNat * BDR_KEY_PROVISIONING / UINT64_MAX) (fun _ hs => hs) fun _ => ?_
  refine .bind (readKey_ensures p.1 p.2) fun key => ?_
  exact .bind (call_keeps e (.updateRecord key)) fun _ => .pure fun _ hs => hs

theorem delete_keeps : Keeps E id (populated id) (delete e) := by
  refine .bind (selectSlot_ensures e) fun p => .bind (readKey_ensures p.1 p.2) fun key => ?_
  exact .bind (call_keeps e (.deleteRecord key)) fun _ => .pure fun _ hs => hs

theorem insert_keeps : Keeps E id filled (insert e) := by
  refine .bind (randomKey_ensures e fun _ _ h => h.indexid) fun key => ?_
  refine .assuming fun hlen => .bind (insertRecord_ensures e key) fun code => ?_
  refine .assuming fun _ => .ite ?_ fun _ => .pure Consistent.answered
  rintro rfl
  exact keystoreInsert_ensures fun _ _ h => h.stored hlen

theorem inTransaction_keeps {body : Prog Task Unit} (n : Nat) (h : Keeps E id filled body) :
    Keeps E id filled (inTransaction e n body) := by
  refine .bind (call_keeps e .beginTransaction) fun _ => .bind (.times fun _ _ => h) fun _ => ?_
  exact .bind (call_keeps e .commitTransaction) fun _ => .pure fun _ hs => hs

/-- STEP (one round of `BenchmarkTask`). -/
theorem operation_keeps (hE : ExitsInto e id E) : Keeps E id (populated id) (operation e) :=
  .bind (random_ensures e (by decide)) fun _ =>
    .ite (fun _ => rangeQuery_keeps e) fun _ =>
    .ite (fun _ => inTransaction_keeps e 20 (pointQuery_keeps e hE)) fun _ =>
    .ite (fun _ => inTransaction_keeps e 5 (update_keeps e)) fun _ =>
    .ite (fun _ => inTransaction_keeps e 5 (insert_keeps e)) fun _ =>
    inTransaction_keeps e 5 (delete_keeps e)

/-- RUN (`BenchmarkTask`). -/
theorem benchmarkTask_keeps (hE : ExitsInto e id E) (n : Nat) :
    Keeps E id (populated id) (benchmarkTask e n) :=
  .bind (call_keeps e .openIndex) fun _ => .times fun _ _ => operation_keeps e hE

end Branches

/-! ### Whole runs -/

section Runs
variable {E : Task → Prop} {id : IndexId} (e e' : Surroundings)

/-- The index has been given `n` records so far. -/
def Populating (id : IndexId) (n : Nat) (ti : ThreadInfo) (log : List Event) : Prop :=
  Consistent id 0 ti log ∧ stores log = n

theorem Populating.answered {n : Nat} {key : List Int} {code : ErrorCode} (t : Task)
    (h : Answered key code (Populating id n) t) : Judged id t.log := by
  obtain ⟨log, hlog, hlast⟩ := h
  exact (Consistent.answered t ⟨log, hlog, hlast.1⟩).judged

/-- STEP: a record is inserted, or the process ends. -/
theorem populateRecord_ensures (hE : ExitsInto e id E) (n : Nat) :
    Ensures E (At (Populating id n)) (populateRecord e) fun _ => At (Populating id (n + 1)) := by
  refine .bind (randomKey_ensures e fun _ _ h => h.1.indexid) fun key => .assuming fun hlen => ?_
  refine .bind (insertRecord_ensures e key) fun code => .assuming fun hcode => .ite ?_ ?_
  · obtain ⟨i, rfl⟩ := hcode
    exact fun hne => .failure fun t ht => hE i t hne (Populating.answered t ht)
  · intro hok
    obtain rfl := not_not.mp hok
    refine keystoreInsert_ensures fun ti log h => ⟨h.1.stored hlen, ?_⟩
    rw [stores_stored, stores_called, h.2]

/-- RUN (`PopulateIndexTask`): behind it the keystore holds as many keys as the index has records. -/
theorem populateIndexTask_ensures (hE : ExitsInto e id E) :
    Ensures E (At (Populating id 0)) (populateIndexTask e)
      fun _ => At (Populating id (populated id)) := by
  have hcall : ∀ c, Ensures E (At (Populating id 0)) (call e c)
      fun code t => At (Populating id 0) t ∧ ∃ i, code = e.answer i :=
    fun c s hs => ⟨⟨hs.1.called c _, (stores_called c _ s.log).trans hs.2⟩, s.answered, rfl⟩
  have hexit : ∀ {code}, (∃ i, code = e.answer i) → code ≠ .kOk →
      ∀ t, At (Populating id 0) t → E t := by
    rintro code ⟨i, rfl⟩ hne t ht
    exact hE i t hne ht.1.judged
  refine .bind (R := fun t s => At (Populating id 0) s ∧ t.ti.indexid = id)
    (.get fun t ht => ⟨ht, ht.1.indexid⟩) fun t => .assuming fun hindex => ?_
  refine .bind (hcall _) fun _ => .assuming fun hcode => .ite (fun h => .failure (hexit hcode h)) ?_
  intro _
  refine .bind (hcall _) fun _ => .assuming fun hcode => .ite (fun h => .failure (hexit hcode h)) ?_
  intro _
  rw [hindex]
  exact .times (I := fun n => At (Populating id n)) fun n _ => populateRecord_ensures e hE n

/-- If every call succeeds, the index is populated. -/
theorem populateIndexTask_returns (id : IndexId) (hok : ∀ i, e.answer i = .kOk) :
    ∃ t, (populateIndexTask e).exec (Task.initial id) = (some (), t) := by
  have hpopulated := populateIndexTask_ensures (E := fun _ => False) e
    (fun i _ hne _ => hne (hok i)) (Task.initial id) ⟨.initial id, rfl⟩
  rcases hexec : (populateIndexTask e).exec (Task.initial id) with ⟨_ | _, t⟩ <;>
    rw [hexec] at hpopulated
  · exact hpopulated.elim
  · exact ⟨t, rfl⟩

theorem run_of_populated {t : Task} {n : Nat}
    (h : (populateIndexTask e).exec (Task.initial id) = (some (), t)) :
    run e e' id n = ((benchmarkTask e' n).exec t.copyKeystore).2.log := by
  simp only [run, main, exec_bind, h, exec_modify]

/-- RUN: whether a choice was fine was always decided by its random number. -/
theorem run_judged (id : IndexId) (n : Nat) : Judged id (run e e' id n) := by
  have hmain : Ensures (fun t => Judged id t.log) (At (Populating id 0)) (main e e' n)
      fun _ t => Judged id t.log := by
    refine .bind (populateIndexTask_ensures e fun _ _ _ h => h) fun _ => ?_
    refine .bind (R := fun _ => At (Consistent id (populated id))) ?_ fun _ => ?_
    · exact .update fun t ht => ht.1.copied ht.2
    · exact (benchmarkTask_keeps e' (fun _ _ _ h => h) n).mono (fun _ hs => hs) fun _ _ h => h.judged
  have hrun := hmain (Task.initial id) ⟨.initial id, rfl⟩
  rw [run]
  rcases hexec : (main e e' n).exec (Task.initial id) with ⟨_ | _, t⟩ <;> rw [hexec] at hrun
  · exact hrun
  · exact hrun

/-- DIVERGES (`PopulateIndexTask`, `BenchmarkTask`): in a run of any length, every slot that the update
    and the delete branch read held an inserted key if and only if every random number that chose one was
    below the share of slots that hold a key. -/
theorem reads_inserted_iff (id : IndexId) (n : Nat) :
    ReadsInserted (run e e' id n) ↔ DrawsLow id (run e e' id n) :=
  (run_judged e e' id n).iff

/-- Once the thread itself has filled the keystore, only the greatest random number is not low. -/
theorem low_iff_of_full {before : List Event}
    (hfull : BDR_KEY_PROVISIONING ≤ stores before - populated id) (draw : UInt64) :
    Low id before draw ↔ draw.toNat ≠ UINT64_MAX := by
  have hcovered : covered id (stores before) = BDR_KEY_PROVISIONING :=
    Nat.min_eq_left (hfull.trans (Nat.le_max_right ..))
  have hdraw : draw.toNat ≤ UINT64_MAX := Nat.le_of_lt_succ draw.toNat_lt
  rw [Low, hcovered, Nat.mul_comm BDR_KEY_PROVISIONING, Nat.mul_lt_mul_right (by decide)]
  exact ⟨Nat.ne_of_lt, fun hne => Nat.lt_of_le_of_ne hdraw hne⟩

/-- Every random number is the greatest one and every call succeeds. -/
def greatestDraws : Surroundings :=
  { draw := fun _ => 18446744073709551615, answer := fun _ => .kOk, normal := fun _ _ _ => 0 }

theorem greatest_not_low (before : List Event) : ¬Low id before 18446744073709551615 := by
  have hle := Nat.mul_le_mul_right UINT64_MAX
    (SlotRing.covered_le_size BDR_KEY_PROVISIONING (populated id) (stores before - populated id))
  rw [Nat.mul_comm BDR_KEY_PROVISIONING] at hle
  exact hle.not_gt

theorem random_greatest (t : Task) : (random greatestDraws ⟨.Uniform, 0, 100⟩).exec t =
    (some 100, { t with drawn := t.drawn + 2 }) := by
  have hdraw : ∀ n, greatestDraws.draw n = 18446744073709551615 := fun _ => rfl
  have hvalue : getRandomValue greatestDraws ⟨.Uniform, 0, 100⟩ 18446744073709551615
      18446744073709551615 = some 100 := rfl
  simp only [random, nextPair, next, exec_bind, exec_get, exec_modify, exec_pure, hdraw, hvalue,
    ofOption]

theorem selectSlot_greatest (t : Task) : (selectSlot greatestDraws).exec t =
    (some (18446744073709551615, 2097152), { t with drawn := t.drawn + 2 }) := by
  have hdraw : ∀ n, greatestDraws.draw n = 18446744073709551615 := fun _ => rfl
  have hvalue : getRandomValue greatestDraws ⟨.Uniform, 0, BDR_KEY_PROVISIONING⟩ 18446744073709551615
      18446744073709551615 = some 2097152 := rfl
  have hslot : toUInt32 2097152 = 2097152 := rfl
  simp only [selectSlot, nextPair, next, exec_bind, exec_get, exec_modify, exec_pure, hdraw, hvalue,
    hslot, ofOption]

theorem delete_greatest (t : Task) : (delete greatestDraws).exec t =
    (some (), { t with
      drawn := t.drawn + 2
      answered := t.answered + 1
      log := .called (.deleteRecord (t.ti.keyAt 2097152)) .kOk ::
        .selected 18446744073709551615 2097152 (t.ti.keyAt 2097152) :: t.log }) := by
  have hanswer : ∀ n, greatestDraws.answer n = .kOk := fun _ => rfl
  simp only [delete, readKey, call, exec_bind, exec_get, exec_modify, exec_pure, selectSlot_greatest,
    hanswer]

/-- The only operation is a deletion, which reads the slot behind the last one. -/
theorem benchmarkTask_greatest (t : Task) : ∃ key before,
    Event.selected 18446744073709551615 2097152 key :: before <:+
      ((benchmarkTask greatestDraws 1).exec t).2.log := by
  have hanswer : ∀ n, greatestDraws.answer n = .kOk := fun _ => rfl
  refine ⟨t.ti.keyAt 2097152, .called .beginTransaction .kOk :: .called .openIndex .kOk :: t.log, ?_⟩
  simp only [benchmarkTask, times, operation, inTransaction, call, exec_bind, exec_get, exec_modify,
    exec_pure, random_greatest, delete_greatest, hanswer, BDR_RANGE_PROB, BDR_POINT_PROB,
    BDR_UPDATE_PROB, BDR_INSERT_PROB, Int.reduceAdd, Int.reduceLE, if_false, List.suffix_cons_iff, true_or,
    or_true]

/-- A run on the first index that reads a slot outside the array. -/
theorem reads_behind_keystore : ¬ReadsInserted (run greatestDraws greatestDraws 0 1) := by
  rw [(run_judged greatestDraws greatestDraws 0 1).iff]
  intro hlow
  obtain ⟨t, hexec⟩ := populateIndexTask_returns greatestDraws 0 fun _ => rfl
  obtain ⟨key, before, hread⟩ := benchmarkTask_greatest t.copyKeystore
  rw [← run_of_populated greatestDraws greatestDraws hexec] at hread
  exact greatest_not_low before (hlow _ _ key before hread)

end Runs

end BaseDriver
end Contest
