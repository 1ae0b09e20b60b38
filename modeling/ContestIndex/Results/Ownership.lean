import ContestIndex.Model.Ownership
import ContestIndex.Schemes.Run
import Mathlib.Tactic.Abel

/-! @src example/Iterator.cc, example/Util.cc, example/Index.cc
    | name:What is freed and what is lost | layer:results

    Every cell of the heap belongs to an iterator that the client has in hand, or is lost for good. What
    a call loses can be read off its answers:

        InsertRecord     the Dbt and the buffer of the encoded key, always
        UpdateRecord     the Dbt and the cursor; the buffer too when an exception comes, also from
                         the commit
        DeleteRecord     the same, but not when the exception comes from the commit
        CloseIterator    the buffer, if no get of the iterator has ever found a pair
        GetRecords       the copies of both bounds, when `Db::cursor` throws

    Here stands what each function does with its cells; the runs of calls come after. -/

namespace Contest.Ownership
open Schemes Owning

/-! ### Cells -/

abbrev Cells := Multiset (Cell Kind)

def Data.cells : Data → Cells
  | .buffer p => {(p, .buffer)}
  | .berkeleyDB => 0

def attributeCells : List (Option Address) → Cells
  | [] => 0
  | none :: attributes => attributeCells attributes
  | some p :: attributes => {(p, .attribute)} + attributeCells attributes

def OwnedKey.cells (key : OwnedKey) : Cells := {(key.value, .attributes)} + attributeCells key.attributes

def OwnedRecord.cells (r : OwnedRecord) : Cells :=
  {(r.record, .record)} + r.key.cells + {(r.payload, .payload)}

/-- What is allocated for a key with so many attributes. -/
def keyKinds (n : Nat) : Multiset Kind := {.attributes} + Multiset.replicate n .attribute

/-- How many attributes are set. -/
def setAttributes (key : Key) : Nat := key.countP (·.isSome)

section Keys
variable {n : Nat} {data : Data} {value : Address}

theorem takes_read : Takes data.cells data.read fun _ O => O = data.cells := by
  cases data with
  | buffer p => exact .touch (Multiset.mem_singleton_self _)
  | berkeleyDB => exact .pure rfl

theorem takes_copyAttributes (key : Key) : Takes 0 (copyAttributes key) fun copied O =>
    O = attributeCells copied ∧ O.map Prod.snd = Multiset.replicate (setAttributes key) .attribute := by
  induction key with
  | nil => exact .pure ⟨rfl, rfl⟩
  | cons a key ih =>
    cases a with
    | none =>
      refine ih.bind ?_
      rintro copied _ ⟨rfl, hkinds⟩
      refine .pure ⟨rfl, ?_⟩
      rw [hkinds, setAttributes, setAttributes, List.countP_cons_of_neg (by simp)]
    | some a =>
      refine .bind (.new Kind.attribute) ?_
      rintro p _ rfl
      refine .seq {(p, Kind.attribute)} ih (zero_add _).symm ?_
      rintro copied _ ⟨rfl, hkinds⟩
      refine .pure ⟨add_comm _ _, ?_⟩
      rw [Multiset.map_add, hkinds, setAttributes, setAttributes, List.countP_cons_of_pos (by simp),
        Multiset.replicate_succ, ← Multiset.singleton_add, add_comm]
      rfl

theorem takes_copyKey (key : Key) : Takes 0 (copyKey key) fun copied O =>
    O = copied.cells ∧ O.map Prod.snd = keyKinds (setAttributes key) := by
  refine .bind (.new Kind.attributes) ?_
  rintro value _ rfl
  refine .seq {(value, Kind.attributes)} (takes_copyAttributes key) (zero_add _).symm ?_
  rintro copied _ ⟨rfl, hkinds⟩
  refine .pure ⟨add_comm _ _, ?_⟩
  rw [Multiset.map_add, hkinds, keyKinds, add_comm]
  rfl

theorem takes_deleteAttributes (attributes : List (Option Address)) :
    Takes ({(value, .attributes)} + attributeCells attributes) (deleteAttributes value attributes)
      fun _ O => O = {(value, .attributes)} := by
  induction attributes with
  | nil => exact .pure (add_zero _)
  | cons a attributes ih =>
    have htouch : (value, Kind.attributes) ∈ ({(value, .attributes)} + attributeCells (a :: attributes)) :=
      Multiset.mem_add.mpr (.inl (Multiset.mem_singleton_self _))
    cases a with
    | none =>
      refine .bind (.touch htouch) ?_
      rintro _ _ rfl
      exact ih
    | some p =>
      refine .bind (.touch htouch) ?_
      rintro _ _ rfl
      refine .seq ({(value, .attributes)} + attributeCells attributes) (.delete (p, Kind.attribute))
        (by rw [attributeCells]; abel) ?_
      rintro _ _ rfl
      rw [zero_add]
      exact ih

theorem takes_deleteKey (key : OwnedKey) : Takes key.cells (deleteKey key) fun _ O => O = 0 := by
  refine (takes_deleteAttributes key.attributes).bind ?_
  rintro _ _ rfl
  exact .delete _

theorem takes_deleteRecord (r : OwnedRecord) : Takes r.cells (deleteRecord r) fun _ O => O = 0 := by
  refine .bind (.touch (c := (r.record, Kind.record)) (by simp [OwnedRecord.cells])) ?_
  rintro _ _ rfl
  refine .seq ({(r.record, .record)} + {(r.payload, .payload)}) (takes_deleteKey r.key)
    (by rw [OwnedRecord.cells]; abel) ?_
  rintro _ _ rfl
  refine .seq {(r.record, .record)} (.delete (r.payload, Kind.payload)) (by abel) ?_
  rintro _ _ rfl
  rw [zero_add]
  exact .delete _

theorem takes_getAttributes (n : Nat) : Takes data.cells (getAttributes data n) fun attributes O =>
    O = data.cells + attributeCells attributes ∧
      (attributeCells attributes).map Prod.snd = Multiset.replicate n .attribute := by
  induction n with
  | zero => exact .pure ⟨(add_zero _).symm, rfl⟩
  | succ n ih =>
    refine .seq data.cells (.new Kind.attribute) (zero_add _).symm ?_
    rintro p _ rfl
    refine .seq {(p, Kind.attribute)} takes_read (add_comm _ _) ?_
    rintro _ _ rfl
    refine .seq {(p, Kind.attribute)} ih rfl ?_
    rintro attributes _ ⟨rfl, hkinds⟩
    refine .pure ⟨by rw [attributeCells]; abel, ?_⟩
    rw [attributeCells, Multiset.map_add, hkinds, Multiset.replicate_succ, ← Multiset.singleton_add]
    rfl

theorem takes_getKey (n : Nat) (data : Data) : Takes data.cells (getKey n data) fun key O =>
    O = data.cells + key.cells ∧ key.cells.map Prod.snd = keyKinds n := by
  refine .seq data.cells (.new Kind.attributes) (zero_add _).symm ?_
  rintro value _ rfl
  refine .seq {(value, Kind.attributes)} (takes_getAttributes n) (add_comm _ _) ?_
  rintro attributes _ ⟨rfl, hkinds⟩
  refine .pure ⟨by rw [OwnedKey.cells]; abel, ?_⟩
  rw [OwnedKey.cells, Multiset.map_add, hkinds, keyKinds]
  rfl

theorem takes_getBDBKey : Takes 0 getBDBKey fun rt O => O = {(rt.1, .buffer)} + {(rt.2, .dbt)} := by
  refine .bind (.new Kind.buffer) ?_
  rintro data _ rfl
  refine .seq {(data, Kind.buffer)} (.new Kind.dbt) (zero_add _).symm ?_
  rintro rt _ rfl
  exact .pure (add_comm _ _)

theorem takes_readAttributes (attributes : List (Option Address)) :
    Takes ({(value, .attributes)} + attributeCells attributes) (readAttributes value attributes)
      fun _ O => O = {(value, .attributes)} + attributeCells attributes := by
  induction attributes with
  | nil => exact .pure rfl
  | cons a attributes ih =>
    have htouch : (value, Kind.attributes) ∈ ({(value, .attributes)} + attributeCells (a :: attributes)) :=
      Multiset.mem_add.mpr (.inl (Multiset.mem_singleton_self _))
    cases a with
    | none =>
      refine .bind (.touch htouch) ?_
      rintro _ _ rfl
      exact ih
    | some p =>
      refine .bind (.touch htouch) ?_
      rintro _ _ rfl
      refine .bind (.touch (c := (p, Kind.attribute)) (by simp [attributeCells])) ?_
      rintro _ _ rfl
      have hcells : ({(value, .attributes)} + attributeCells (some p :: attributes) : Cells) =
          {(value, .attributes)} + attributeCells attributes + {(p, .attribute)} := by
        rw [attributeCells]; abel
      rw [hcells]
      refine (ih.frame _).mono ?_
      rintro _ _ ⟨_, rfl, rfl⟩
      rfl

theorem takes_readKey (key : OwnedKey) : Takes key.cells key.read fun _ O => O = key.cells :=
  takes_readAttributes key.attributes

end Keys

/-! ### Iterators -/

namespace Iterator

/-- The bounds and the two Dbts. -/
def keyCells (it : Iterator) : Cells :=
  it.minKey.cells + it.maxKey.cells + {(it.key, .dbt)} + {(it.value, .dbt)}

def cursorCells (it : Iterator) : Cells := it.cursor.elim 0 fun c => {(c, .cursor)}

def valueCells (it : Iterator) : Cells := it.cvalue.elim 0 OwnedRecord.cells

/-- What the members of the iterator point to; the cursor is gone when the iterator has ended. -/
def members (it : Iterator) : Cells :=
  it.keyCells + it.data.cells + it.valueCells + if it.ended then 0 else it.cursorCells

/-- Closing frees the members. -/
def held (it : Iterator) : Cells := if it.closed then 0 else it.members

def cells (i : Address) (it : Iterator) : Cells := {(i, .iterator)} + it.held

/-- What is lost when the iterator is closed. -/
def lost (thrown : Option DbException) (it : Iterator) : Cells :=
  it.data.cells + if it.cursor.isSome ∧ thrown.isSome then it.keyCells else 0

/-- What is lost when `Next` closes the iterator: its first `get` has failed. -/
def lostByNext (a : Answers) (it : Iterator) : Cells :=
  match it.initialized, a.gets with
  | false, .returns err :: _ => if err = .DB_NOTFOUND ∨ a.close.isSome then 0 else it.data.cells
  | _, _ => 0

/-- INVARIANT: an iterator that can go on has its cursor; what it has found is not in the buffer. -/
structure Sound (it : Iterator) : Prop where
  cursor : it.closed = false → it.ended = false → it.cursor.isSome
  data : it.closed = false → it.ended = false → it.initialized → it.data = .berkeleyDB
  ended : it.ended → it.initialized
  closed : it.closed → it.cvalue = none

variable {it : Iterator} {thrown : Option DbException}

theorem takes_closeCursor (it : Iterator) : Takes it.cursorCells (it.closeCursor thrown) fun r O =>
    O = 0 ∧ ((r = (.ok (), { it with cursor := none }) ∧ ¬ (it.cursor.isSome ∧ thrown.isSome)) ∨
      ∃ e, r = (.error e, it) ∧ it.cursor.isSome ∧ thrown.isSome) := by
  unfold closeCursor cursorCells
  cases hc : it.cursor with
  | none =>
    refine .pure ⟨rfl, .inl ⟨?_, by simp⟩⟩
    rw [← hc]
  | some c =>
    refine .bind (.delete (c, Kind.cursor)) ?_
    rintro _ _ rfl
    cases thrown with
    | none => exact .pure ⟨rfl, .inl ⟨rfl, by simp⟩⟩
    | some e => exact .pure ⟨rfl, .inr ⟨e, rfl, rfl, rfl⟩⟩

theorem takes_deleteValue (it : Iterator) : Takes it.valueCells it.deleteValue fun r O =>
    O = 0 ∧ r = { it with cvalue := none } := by
  unfold deleteValue valueCells
  cases hv : it.cvalue with
  | none =>
    refine .pure ⟨rfl, ?_⟩
    rw [← hv]
  | some r =>
    refine (takes_deleteRecord r).bind ?_
    rintro _ _ rfl
    exact .pure ⟨rfl, rfl⟩

/-- The cursor has not been closed in vain before. -/
def Closable (it : Iterator) : Prop := it.ended → it.cursor = none

theorem members_of_closable (h : it.Closable) :
    it.members = it.valueCells + (it.keyCells + it.data.cells + it.cursorCells) := by
  have hcursor : (if it.ended then 0 else it.cursorCells) = it.cursorCells := by
    split
    · rename_i hended
      rw [cursorCells, h hended]
      rfl
    · rfl
  rw [members, hcursor]
  abel

theorem takes_close (h : it.Closable) : Takes it.members (it.close thrown) fun r O =>
    O = it.lost thrown ∧ ((r = (.ok (), { it with cvalue := none, closed := true, cursor := none }) ∧
        ¬ (it.cursor.isSome ∧ thrown.isSome)) ∨
      ∃ e, r = (.error e, { it with cvalue := none, closed := true }) ∧ it.cursor.isSome ∧
        thrown.isSome) := by
  refine .seq _ (takes_deleteValue it) (members_of_closable h) ?_
  rintro _ _ ⟨rfl, rfl⟩
  refine .seq (it.keyCells + it.data.cells)
    (takes_closeCursor { it with cvalue := none, closed := true }) (by rw [zero_add, add_comm]; rfl) ?_
  rintro _ _ ⟨rfl, ⟨rfl, hopen⟩ | ⟨e, rfl, hclosed⟩⟩
  · refine .seq (it.maxKey.cells + {(it.key, .dbt)} + {(it.value, .dbt)} + it.data.cells)
      (takes_deleteKey it.minKey) (by rw [keyCells]; abel) ?_
    rintro _ _ rfl
    refine .seq ({(it.key, .dbt)} + {(it.value, .dbt)} + it.data.cells)
      (takes_deleteKey it.maxKey) (by abel) ?_
    rintro _ _ rfl
    refine .seq ({(it.value, .dbt)} + it.data.cells) (.delete (it.key, Kind.dbt)) (by abel) ?_
    rintro _ _ rfl
    refine .seq it.data.cells (.delete (it.value, Kind.dbt)) (by abel) ?_
    rintro _ _ rfl
    refine .pure ⟨?_, .inl ⟨rfl, hopen⟩⟩
    rw [lost, if_neg hopen, zero_add, add_zero]
  · refine .pure ⟨?_, .inr ⟨e, rfl, hclosed⟩⟩
    rw [lost, if_pos hclosed, zero_add, add_comm]

/-- The iterator after a call on it: an open one keeps its bounds, and its cursor until that is closed. -/
structure Follows (it it' : Iterator) : Prop where
  minKey : it'.minKey = it.minKey
  cursor : it'.cursor = it.cursor ∨ it'.cursor = none

theorem Follows.trans {it it' it'' : Iterator} (h : it.Follows it') (h' : it'.Follows it'') :
    it.Follows it'' := by
  refine ⟨h'.minKey.trans h.minKey, ?_⟩
  rcases h'.cursor with hcursor | hcursor
  · rw [hcursor]
    exact h.cursor
  · exact .inr hcursor

/-- What `Next` leaves behind; when the cursor's close does not throw, the answer tells whether the
    iterator has ended. -/
structure After (it : Iterator) (thrown : Option DbException) (lost : Cells)
    (r : Except DbException Bool × Iterator) (O : Cells) : Prop where
  cells : O = r.2.held + lost
  sound : r.2.Sound
  opened : r.1 = .ok true → r.2.closed = false
  follows : it.Follows r.2
  quiet : thrown = none → r.2.closed = false → r.2.Closable ∧ (r.2.ended → r.1 = .ok true)

theorem After.of_same (it₀ : Iterator) {lost O : Cells} {r : Except DbException Bool × Iterator}
    (h : it.After thrown lost r O) (hmin : it.minKey = it₀.minKey) (hcursor : it.cursor = it₀.cursor) :
    it₀.After thrown lost r O :=
  ⟨h.cells, h.sound, h.opened, ⟨hmin ▸ h.follows.minKey, hcursor ▸ h.follows.cursor⟩, h.quiet⟩

/-- Before a `get` of `Next`. -/
structure Ready (it : Iterator) : Prop where
  closed : it.closed = false
  ended : it.ended = false
  cursor : it.cursor.isSome

theorem Ready.held (h : it.Ready) :
    it.held = it.keyCells + it.data.cells + it.valueCells + it.cursorCells := by
  simp [Iterator.held, members, h.closed, h.ended]

/-- `Next` has changed nothing that matters. -/
theorem after_same (h : it.Ready) (hsound : it.Sound) (result : Except DbException Bool) :
    it.After thrown 0 (result, it) it.held :=
  ⟨(add_zero _).symm, hsound, fun _ => h.closed, ⟨rfl, .inl rfl⟩,
    fun _ _ => ⟨by simp [Closable, h.ended], by simp [h.ended]⟩⟩

/-- `Next` has closed the cursor. -/
theorem after_ended (h : it.Ready) (hinit : it.initialized) :
    it.After thrown 0 (.ok true, { it with ended := true, cursor := none })
      (held { it with ended := true, cursor := none }) :=
  ⟨(add_zero _).symm, ⟨by simp, by simp, fun _ => hinit, by simp [h.closed]⟩, fun _ => h.closed,
    ⟨rfl, .inr rfl⟩, fun _ _ => ⟨fun _ => rfl, fun _ => rfl⟩⟩

/-- The cursor has thrown. -/
theorem after_thrown (h : it.Ready) (hinit : it.initialized) (hthrown : thrown.isSome) (e : DbException) :
    it.After thrown 0 (.error e, { it with ended := true }) (held { it with ended := true }) :=
  ⟨(add_zero _).symm, ⟨by simp, by simp, fun _ => hinit, by simp [h.closed]⟩, by simp, ⟨rfl, .inl rfl⟩,
    fun hnone => by simp [hnone] at hthrown⟩

theorem takes_get (h : it.Ready) : Takes it.held it.get fun _ O => O = it.held := by
  have hheld : it.held = it.keyCells + it.data.cells + it.valueCells + it.cursorCells := h.held
  obtain ⟨c, hc⟩ := Option.isSome_iff_exists.mp h.cursor
  unfold get
  rw [hc]
  have hcursor : (c, Kind.cursor) ∈ it.held := by simp [hheld, cursorCells, hc]
  have hkey : (it.key, Kind.dbt) ∈ it.held := by simp [hheld, keyCells]
  have hvalue : (it.value, Kind.dbt) ∈ it.held := by simp [hheld, keyCells]
  refine .bind (.touch hcursor) ?_
  rintro _ _ rfl
  refine .bind (.touch hkey) ?_
  rintro _ _ rfl
  exact .touch hvalue

/-- `SetEnded` takes the cursor. -/
theorem takes_setEnded (h : it.Ready) : Takes it.held (it.setEnded thrown) fun r O =>
    O = r.2.held ∧ ((r = (.ok (), { it with ended := true, cursor := none }) ∧ thrown.isNone) ∨
      ∃ e, r = (.error e, { it with ended := true }) ∧ thrown.isSome) := by
  have hcells : it.held = it.cursorCells + (it.keyCells + it.data.cells + it.valueCells) := by
    rw [h.held, add_comm]
  rw [hcells]
  refine ((takes_closeCursor { it with ended := true }).frame _).mono ?_
  rintro _ _ ⟨_, ⟨rfl, ⟨rfl, hopen⟩ | ⟨e, rfl, hclosed⟩⟩, rfl⟩
  · refine ⟨?_, .inl ⟨rfl, ?_⟩⟩
    · simp [Iterator.held, members, h.closed, keyCells, valueCells]
    · simpa [h.cursor] using hopen
  · refine ⟨?_, .inr ⟨e, rfl, hclosed.2⟩⟩
    simp [Iterator.held, members, h.closed, keyCells, valueCells]

theorem takes_fetchFailed (h : it.Ready) (hinit : it.initialized) (err : DbError) :
    Takes it.held (it.fetchFailed thrown err)
      (After it thrown (if err = .DB_NOTFOUND ∨ thrown.isSome then 0 else it.data.cells)) := by
  unfold fetchFailed
  refine (takes_setEnded h).bind ?_
  rintro _ _ ⟨rfl, ⟨rfl, hnone⟩ | ⟨e, rfl, hsome⟩⟩
  · have hopen : thrown.isSome = false := by simpa using hnone
    by_cases herr : err = .DB_NOTFOUND
    · simp only [herr, if_true, true_or]
      exact .pure (after_ended h hinit)
    · simp only [herr, if_false, hopen, or_self, Bool.false_eq_true]
      have hheld : held { it with ended := true, cursor := none } =
          members { it with ended := true, cursor := none } := by simp [held, h.closed]
      rw [hheld]
      have hclosable : Closable { it with ended := true, cursor := none } := fun _ => rfl
      refine (takes_close hclosable).bind ?_
      rintro _ _ ⟨rfl, ⟨rfl, -⟩ | ⟨e, rfl, -⟩⟩
      all_goals
        exact .pure ⟨by simp [lost, held], ⟨by simp, by simp, fun _ => hinit, by simp⟩, by simp,
          ⟨rfl, .inr rfl⟩, by simp⟩
  · simp only [hsome, or_true, if_true]
    exact .pure (after_thrown h hinit hsome e)

theorem takes_onPair (h : it.Ready) (hinit : it.initialized) (hdata : it.data = .berkeleyDB)
    {more : Own (Except DbException Bool × Iterator)} (hmore : Takes it.held more (After it thrown 0))
    (bounds : Bounds) : Takes it.held (onPair thrown bounds it more) (After it thrown 0) := by
  have hkey : (it.key, Kind.dbt) ∈ it.held := by simp [h.held, keyCells]
  have hcells : it.held = it.maxKey.cells +
      (it.minKey.cells + {(it.key, .dbt)} + {(it.value, .dbt)} + it.valueCells + it.cursorCells) := by
    rw [h.held, keyCells, hdata, Data.cells]
    abel
  unfold onPair
  refine .bind (.touch hkey) ?_
  rintro _ _ rfl
  refine .seq it.held (takes_getKey it.columns it.data) (by simp [hdata, Data.cells]) ?_
  rintro key _ ⟨rfl, -⟩
  refine .seq it.held (takes_readKey key) (by simp [hdata, Data.cells]) ?_
  rintro _ _ rfl
  refine .seq (key.cells + (it.minKey.cells + {(it.key, .dbt)} + {(it.value, .dbt)} + it.valueCells +
    it.cursorCells)) (takes_readKey it.maxKey) (by rw [hcells]; abel) ?_
  rintro _ _ rfl
  refine .seq it.held (takes_deleteKey key) (by rw [hcells]; abel) ?_
  rintro _ _ rfl
  rw [zero_add]
  have hsound : it.Sound := ⟨fun _ _ => h.cursor, fun _ _ _ => hdata, fun _ => hinit, by simp [h.closed]⟩
  cases bounds with
  | within => exact .pure (after_same h hsound _)
  | exceeded index =>
    simp only
    split
    · refine (takes_setEnded h).bind ?_
      rintro _ _ ⟨rfl, ⟨rfl, -⟩ | ⟨e, rfl, hsome⟩⟩
      · exact .pure (after_ended h hinit)
      · exact .pure (after_thrown h hinit hsome e)
    · exact hmore

theorem takes_fetchNext (thrown : Option DbException) (gets : List Got) :
    ∀ {it : Iterator}, it.Ready → it.initialized →
    it.data = .berkeleyDB → Takes it.held (fetchNext thrown gets it) (After it thrown 0) := by
  induction gets with
  | nil =>
    intro it h hinit hdata
    refine (takes_get h).bind ?_
    rintro _ _ rfl
    exact takes_fetchFailed h hinit .DB_NOTFOUND
  | cons got gets ih =>
    intro it h hinit hdata
    refine (takes_get h).bind ?_
    rintro _ _ rfl
    cases got with
    | throws e =>
      have hsound : it.Sound :=
        ⟨fun _ _ => h.cursor, fun _ _ _ => hdata, fun _ => hinit, by simp [h.closed]⟩
      exact .pure (after_same h hsound _)
    | returns err =>
      have hfailed : Takes it.held (it.fetchFailed thrown err) _ := takes_fetchFailed h hinit err
      rw [hdata, Data.cells, ite_self] at hfailed
      exact hfailed
    | pair bounds =>
      have hsame : { it with data := .berkeleyDB } = it := by rw [← hdata]
      rw [hsame]
      exact takes_onPair h hinit hdata (ih h hinit hdata) bounds

theorem takes_freeBuffer (data : Data) : Takes data.cells (freeBuffer data) fun _ O => O = 0 := by
  cases data with
  | buffer p => exact .delete _
  | berkeleyDB => exact .pure rfl

theorem takes_next (h : it.Ready) (hsound : it.Sound) (a : Answers) :
    Takes it.held (it.next a) (After it a.close (it.lostByNext a)) := by
  unfold next
  cases hinit : it.initialized with
  | true =>
    have hdata : it.data = .berkeleyDB := hsound.data h.closed h.ended hinit
    have hlost : it.lostByNext a = 0 := by rw [lostByNext, hinit]
    rw [hlost]
    exact takes_fetchNext a.close a.gets h hinit hdata
  | false =>
    have hcells : it.held = it.data.cells + (it.keyCells + it.valueCells + it.cursorCells) := by
      rw [h.held]
      abel
    refine .seq _ takes_read hcells ?_
    rintro _ _ rfl
    rw [← hcells]
    refine (takes_get h).bind ?_
    rintro _ _ rfl
    have hready : Ready { it with initialized := true } := ⟨h.closed, h.ended, h.cursor⟩
    cases hgets : a.gets with
    | nil =>
      have hlost : it.lostByNext a = 0 := by rw [lostByNext, hinit, hgets]
      rw [hlost]
      exact (takes_fetchFailed hready rfl .DB_NOTFOUND).mono fun r O h => h.of_same it rfl rfl
    | cons got gets =>
      cases got with
      | throws e =>
        have hlost : it.lostByNext a = 0 := by rw [lostByNext, hinit, hgets]
        rw [hlost]
        exact .pure (after_same h hsound _)
      | returns err =>
        have hlost : it.lostByNext a =
            if err = .DB_NOTFOUND ∨ a.close.isSome then 0 else it.data.cells := by
          rw [lostByNext, hinit, hgets]
        rw [hlost]
        exact (takes_fetchFailed hready rfl err).mono fun r O h => h.of_same it rfl rfl
      | pair bounds =>
        have hlost : it.lostByNext a = 0 := by rw [lostByNext, hinit, hgets]
        rw [hlost]
        refine .seq _ (takes_freeBuffer it.data) hcells ?_
        rintro _ _ rfl
        have hready' : Ready { it with initialized := true, data := .berkeleyDB } :=
          ⟨h.closed, h.ended, h.cursor⟩
        have hheld : 0 + (it.keyCells + it.valueCells + it.cursorCells) =
            held { it with initialized := true, data := .berkeleyDB } := by
          rw [hready'.held, zero_add, Data.cells, add_zero]
          rfl
        rw [hheld]
        have hrest := takes_fetchNext a.close gets hready' rfl rfl
        exact (takes_onPair hready' rfl rfl hrest bounds).mono fun r O h => h.of_same it rfl rfl

/-- The record of an iterator that has found something. -/
theorem takes_newValue (h : it.Ready) (hsound : it.Sound) : Takes it.held it.newValue fun r O =>
    O = r.2.held ∧ r.2.Sound ∧ r.2.closed = false ∧ r.2.ended = false ∧ r.2.cvalue = r.1 ∧
      it.Follows r.2 := by
  have hcells : it.held = it.valueCells + (it.keyCells + it.data.cells + it.cursorCells) := by
    rw [h.held]
    abel
  have hkey : ∀ C, (it.key, Kind.dbt) ∈ C + (it.keyCells + it.data.cells + it.cursorCells) := by
    simp [keyCells]
  have hvalue : ∀ C, (it.value, Kind.dbt) ∈ C + (it.keyCells + it.data.cells + it.cursorCells) := by
    simp [keyCells]
  unfold newValue
  refine .seq _ (takes_deleteValue it) hcells ?_
  rintro _ _ ⟨rfl, rfl⟩
  simp only [h.ended, Bool.false_eq_true, if_false]
  refine .seq (it.keyCells + it.data.cells + it.cursorCells) (.new Kind.record) rfl ?_
  rintro record _ rfl
  refine .bind (.touch (hkey _)) ?_
  rintro _ _ rfl
  refine .seq ({(record, .record)} + it.keyCells + it.cursorCells) (takes_getKey it.columns it.data)
    (by abel) ?_
  rintro key _ ⟨rfl, -⟩
  have hall : it.data.cells + key.cells + ({(record, .record)} + it.keyCells + it.cursorCells) =
      ({(record, .record)} + key.cells) + (it.keyCells + it.data.cells + it.cursorCells) := by abel
  rw [hall]
  refine .bind (.touch (hvalue _)) ?_
  rintro _ _ rfl
  refine .seq _ (.new Kind.payload) (zero_add _).symm ?_
  rintro payload _ rfl
  refine .pure ⟨?_, ⟨fun _ _ => h.cursor, fun _ _ => hsound.data h.closed h.ended, by simp,
    by simp [h.closed]⟩, h.closed, rfl, rfl, rfl, .inl rfl⟩
  rw [held, members]
  simp only [h.closed, Bool.false_eq_true, if_false, valueCells, Option.elim, OwnedRecord.cells,
    keyCells, cursorCells]
  abel

end Iterator

/-! ### Calls on iterators -/

section Calls
open Contest.Ownership.Iterator
variable {i : Address} {it : Iterator} {thrown : Option DbException}

/-- The cells of an iterator that the client still has, or has not. -/
def kept (i : Address) (o : Option Iterator) : Cells := o.elim 0 (Iterator.cells i)

theorem kind_of_mem_attributes {attributes : List (Option Address)} {c : Cell Kind}
    (hc : c ∈ attributeCells attributes) : c.2 = .attribute := by
  induction attributes with
  | nil => simp [attributeCells] at hc
  | cons a attributes ih =>
    cases a with
    | none => exact ih hc
    | some p =>
      rcases Multiset.mem_add.mp hc with hc | hc
      · rw [Multiset.mem_singleton.mp hc]
      · exact ih hc

theorem kind_of_mem_key {key : OwnedKey} {c : Cell Kind} (hc : c ∈ key.cells) :
    c.2 = .attributes ∨ c.2 = .attribute := by
  rcases Multiset.mem_add.mp hc with hc | hc
  · rw [Multiset.mem_singleton.mp hc]
    exact .inl rfl
  · exact .inr (kind_of_mem_attributes hc)

theorem kind_of_mem_data {data : Data} {c : Cell Kind} (hc : c ∈ data.cells) : c.2 = .buffer := by
  cases data with
  | buffer p => rw [Multiset.mem_singleton.mp hc]
  | berkeleyDB => simp [Data.cells] at hc

theorem kind_of_mem_keyCells {c : Cell Kind} (hc : c ∈ it.keyCells) : c.2 ≠ .cursor := by
  simp only [keyCells, Multiset.mem_add, Multiset.mem_singleton] at hc
  rcases hc with ((hc | hc) | rfl) | rfl
  · rcases kind_of_mem_key hc with h | h <;> simp [h]
  · rcases kind_of_mem_key hc with h | h <;> simp [h]
  · simp
  · simp

theorem kind_of_mem_value {c : Cell Kind} (hc : c ∈ it.valueCells) : c.2 ≠ .cursor := by
  unfold valueCells at hc
  cases hv : it.cvalue with
  | none => simp [hv] at hc
  | some r =>
    simp only [hv, Option.elim, OwnedRecord.cells, Multiset.mem_add, Multiset.mem_singleton] at hc
    rcases hc with (rfl | hc) | rfl
    · simp
    · rcases kind_of_mem_key hc with h | h <;> simp [h]
    · simp

theorem kind_of_mem_lost {c : Cell Kind} (hc : c ∈ it.lost thrown) : c.2 ≠ .cursor := by
  rcases Multiset.mem_add.mp hc with hc | hc
  · simp [kind_of_mem_data hc]
  · split at hc
    · exact kind_of_mem_keyCells hc
    · simp at hc

theorem kind_of_mem_lostByNext {a : Answers} {c : Cell Kind} (hc : c ∈ it.lostByNext a) :
    c.2 = .buffer := by
  unfold lostByNext at hc
  split at hc
  · split at hc
    · simp at hc
    · exact kind_of_mem_data hc
  · simp at hc

theorem mem_cells : (i, Kind.iterator) ∈ it.cells i := by simp [Iterator.cells]

/-- What a call on an iterator leaves behind, and what it loses. -/
structure Leaves (i : Address) (it : Iterator) (L : Cells) (r : Reply × Option Iterator) (O : Cells) :
    Prop where
  cells : O = kept i r.2 + L
  sound : ∀ it', r.2 = some it' → it'.Sound ∧ it.Follows it' ∧ (it.closed → it' = it)
  noCursor : ∀ c ∈ L, c.2 ≠ .cursor
  noBounds : ∀ it', r.2 = some it' → it'.cursor = none → ∀ c ∈ L, c.2 ≠ .attributes

/-- The cursor's close has thrown. -/
theorem leaves_failed {reply : Reply} (hsound : it.Sound) (hopen : it.closed = false)
    (hcursor : it.cursor.isSome) :
    Leaves i it (it.lost thrown) (reply, some { it with cvalue := none, closed := true })
      (it.lost thrown + {(i, .iterator)}) := by
  refine ⟨?_, ?_, fun c => kind_of_mem_lost, ?_⟩
  · simp only [kept, Option.elim, Iterator.cells, held, if_true, add_zero]
    exact add_comm _ _
  · rintro _ ⟨⟩
    exact ⟨⟨by simp, by simp, hsound.ended, by simp⟩, ⟨rfl, .inl rfl⟩, by simp [hopen]⟩
  · rintro _ ⟨⟩ hnone
    rw [show it.cursor = none from hnone] at hcursor
    simp at hcursor

theorem catchRead_ne (e : DbException) :
    World.catchRead e ≠ .kOk ∧ World.catchRead e ≠ .kErrorNotFound := by
  cases e
  all_goals decide

/-- What `GetNext` tells about the iterator. -/
structure Told (a : Answers) (it' : Iterator) (reply : Reply) : Prop where
  record : ∀ record, reply.record = some record → it'.closed = false ∧ it'.cvalue = some record
  quiet : a.close = none → it'.closed = false →
    it'.Closable ∧ (it'.ended ↔ reply.answer = some .kErrorNotFound)

theorem takes_getNext (hsound : it.Sound) (hgo : it.closed ∨ it.ended = false) (a : Answers) :
    Takes (it.cells i) (getNext i a it) fun r O =>
      Leaves i it (if it.closed then 0 else it.lostByNext a) r O ∧
        ∃ it', r.2 = some it' ∧ Told a it' r.1 := by
  unfold getNext
  refine .bind (.touch mem_cells) ?_
  rintro _ _ rfl
  cases hclosed : it.closed with
  | true =>
    refine .pure ⟨⟨(add_zero _).symm, ?_, by simp, by simp⟩, it, rfl, by simp, by simp [hclosed]⟩
    rintro _ ⟨⟩
    exact ⟨hsound, ⟨rfl, .inl rfl⟩, fun _ => rfl⟩
  | false =>
    have hended : it.ended = false := by simpa [hclosed] using hgo
    have hready : it.Ready := ⟨hclosed, hended, hsound.cursor hclosed hended⟩
    have hkinds : ∀ c ∈ it.lostByNext a, c.2 = .buffer := fun c => kind_of_mem_lostByNext
    simp only [Bool.false_eq_true, if_false]
    refine .seq {(i, .iterator)} (takes_next hready hsound a) (add_comm _ _) ?_
    rintro ⟨result, it'⟩ O ⟨hcells, hsound', hopen, hfollows, hquiet⟩
    have hleaves : ∀ reply, Leaves i it (it.lostByNext a) (reply, some it') (O + {(i, .iterator)}) := by
      refine fun reply => ⟨?_, ?_, fun c hc => by simp [hkinds c hc],
        fun _ _ _ c hc => by simp [hkinds c hc]⟩
      · rw [hcells, kept, Option.elim, Iterator.cells]
        abel
      · rintro _ ⟨⟩
        exact ⟨hsound', hfollows, by simp [hclosed]⟩
    cases result with
    | error e =>
      refine .pure ⟨hleaves _, it', rfl, by simp, fun hnone hopen' => ?_⟩
      obtain ⟨hclosable, hended'⟩ := hquiet hnone hopen'
      have hended' : it'.ended = false := by simpa using hended'
      exact ⟨hclosable, by simp [hended', (catchRead_ne e).2]⟩
    | ok found =>
      cases found with
      | false =>
        refine .pure ⟨hleaves _, it', rfl, by simp, fun hnone hopen' => ?_⟩
        obtain ⟨hclosable, hended'⟩ := hquiet hnone hopen'
        exact ⟨hclosable, by simpa using hended'⟩
      | true =>
        cases hended' : it'.ended with
        | true =>
          simp only [hended', if_true]
          exact .pure ⟨hleaves _, it', rfl, by simp,
            fun hnone hopen' => ⟨(hquiet hnone hopen').1, by simp [hended']⟩⟩
        | false =>
          have hready' : it'.Ready := ⟨hopen rfl, hended', hsound'.cursor (hopen rfl) hended'⟩
          simp only [hended', Bool.false_eq_true, if_false]
          refine .seq ({(i, .iterator)} + it.lostByNext a) (takes_newValue hready' hsound')
            (by rw [hcells]; abel) ?_
          rintro ⟨record, it''⟩ _ ⟨rfl, hsound'', hopen'', hended'', hvalue, hfollows'⟩
          have hended'' : it''.ended = false := hended''
          refine .pure ⟨⟨?_, ?_, fun c hc => by simp [hkinds c hc],
            fun _ _ _ c hc => by simp [hkinds c hc]⟩,
            it'', rfl, fun r hr => ⟨hopen'', hvalue.trans hr⟩, fun _ _ => ⟨?_, ?_⟩⟩
          · simp only [kept, Option.elim, Iterator.cells]
            abel
          · rintro _ ⟨⟩
            exact ⟨hsound'', hfollows.trans hfollows', by simp [hclosed]⟩
          · simp [Closable, hended'']
          · simp [hended'']

theorem takes_closeIterator (hsound : it.Sound) (hgo : it.closed ∨ it.Closable) :
    Takes (it.cells i) (closeIterator i thrown it) fun r O =>
      Leaves i it (if it.closed then 0 else it.lost thrown) r O ∧
        (thrown = none → r.2 = none) := by
  unfold closeIterator
  refine .bind (.touch mem_cells) ?_
  rintro _ _ rfl
  cases hclosed : it.closed with
  | true =>
    have hcells : it.cells i = {(i, .iterator)} := by simp [Iterator.cells, held, hclosed]
    rw [hcells]
    refine .bind (.delete _) ?_
    rintro _ _ rfl
    exact .pure ⟨⟨(add_zero _).symm, by simp, by simp, by simp⟩, fun _ => rfl⟩
  | false =>
    have hclosable : it.Closable := by simpa [hclosed] using hgo
    have hcells : it.cells i = it.members + {(i, .iterator)} := by
      simp [Iterator.cells, held, hclosed, add_comm]
    simp only [Bool.false_eq_true, if_false]
    refine .seq _ (takes_close hclosable) hcells ?_
    rintro _ _ ⟨rfl, ⟨rfl, -⟩ | ⟨e, rfl, hcursor, hthrown⟩⟩
    · refine .seq (it.lost thrown) (.delete (i, Kind.iterator)) (add_comm _ _) ?_
      rintro _ _ rfl
      exact .pure ⟨⟨rfl, by simp, fun c => kind_of_mem_lost, by simp⟩, fun _ => rfl⟩
    · refine .pure ⟨leaves_failed hsound hclosed hcursor, ?_⟩
      rintro rfl
      simp at hthrown

theorem takes_closeOld (e : DbException) (thrown : Option DbException) (hsound : it.Sound)
    (hopen : it.closed = false) (hclosable : it.Closable) :
    Takes (it.cells i) (closeOld i e thrown it) fun r O =>
      Leaves i it (it.lost thrown) r O ∧ r.1.answer ≠ some .kOk := by
  unfold closeOld
  refine .bind (.touch mem_cells) ?_
  rintro _ _ rfl
  have hcells : it.cells i = it.members + {(i, .iterator)} := by
    simp [Iterator.cells, held, hopen, add_comm]
  refine .seq _ (takes_close hclosable) hcells ?_
  rintro _ _ ⟨rfl, ⟨rfl, hclosed⟩ | ⟨e, rfl, hcursor, -⟩⟩
  · refine .pure ⟨⟨?_, ?_, fun c => kind_of_mem_lost, ?_⟩, by simp [(catchRead_ne e).1]⟩
    · simp only [kept, Option.elim, Iterator.cells, held, if_true, add_zero]
      exact add_comm _ _
    · rintro _ ⟨⟩
      exact ⟨⟨by simp, by simp, hsound.ended, by simp⟩, ⟨rfl, .inr rfl⟩, by simp [hopen]⟩
    · rintro _ - - c hc
      rw [lost, if_neg hclosed, add_zero] at hc
      simp [kind_of_mem_data hc]
  · exact .pure ⟨leaves_failed hsound hopen hcursor, by simp⟩

/-- The constructor: the bounds that it has copied are lost when `Db::cursor` throws. -/
theorem takes_newIterator (n : Nat) (minKeys maxKeys : Key) : ∀ thrown : Option DbException,
    Takes 0 (newIterator n minKeys maxKeys thrown) fun r O =>
      match r with
      | .ok (i, it) =>
        thrown = none ∧ O = it.cells i ∧ it.Sound ∧ it.closed = false ∧ it.ended = false
      | .error e => thrown = some e ∧
        O.map Prod.snd = keyKinds (setAttributes minKeys) + keyKinds (setAttributes maxKeys) := by
  intro thrown
  unfold newIterator
  refine .bind (.new Kind.iterator) ?_
  rintro i _ rfl
  refine .seq {(i, .iterator)} (takes_copyKey minKeys) (zero_add _).symm ?_
  rintro minKey _ ⟨rfl, hmin⟩
  refine .seq (minKey.cells + {(i, .iterator)}) (takes_copyKey maxKeys) (zero_add _).symm ?_
  rintro maxKey _ ⟨rfl, hmax⟩
  cases thrown with
  | some e =>
    refine .seq (maxKey.cells + minKey.cells) (.delete (i, Kind.iterator)) (by abel) ?_
    rintro _ _ rfl
    refine .pure ⟨rfl, ?_⟩
    rw [zero_add, Multiset.map_add, hmin, hmax, add_comm]
  | none =>
    refine .seq _ (.new Kind.cursor) (zero_add _).symm ?_
    rintro cursor _ rfl
    refine .seq _ takes_getBDBKey (zero_add _).symm ?_
    rintro rt _ rfl
    refine .seq _ (.new Kind.dbt) (zero_add _).symm ?_
    rintro value _ rfl
    refine .pure ⟨rfl, ?_, ⟨by simp, by simp, by simp, by simp⟩, rfl, rfl⟩
    simp only [Iterator.cells, held, members, keyCells, cursorCells, valueCells, Data.cells, Option.elim,
      Bool.false_eq_true, if_false]
    abel

end Calls

/-! ### Modifications -/

def throws : Option Failure → Bool
  | some (.throws _) => true
  | _ => false

@[simp] theorem throws_none : throws none = false := rfl
@[simp] theorem throws_throws (e : DbException) : throws (some (.throws e)) = true := rfl
@[simp] theorem throws_returns (err : DbError) : throws (some (.returns err)) = false := rfl

@[simp] theorem isOk_error {α : Type} (e : DbException) :
    (.error e : Except DbException α).isOk = false := rfl
@[simp] theorem isOk_ok {α : Type} (a : α) : (.ok a : Except DbException α).isOk = true := rfl

/-- A round of the loop throws. -/
def roundsThrow (ignorePayload : Bool) : List Round → Bool
  | [] => false
  | r :: rounds =>
    throws r.got || (r.got.isNone && (r.same || !ignorePayload) &&
      (throws r.write || (r.write.isNone && roundsThrow ignorePayload rounds)))

namespace ModifyAnswers
variable (flags : UInt8) (a : ModifyAnswers)

/-- There is a record to write. -/
def found : Bool := a.first.isNone && (a.same || !hasFlag flags kIgnorePayload)

/-- The loop over the duplicates is entered. -/
def loops : Bool := a.found flags && a.write.isNone && hasFlag flags kMatchDuplicates

def loopThrows : Bool := a.loops flags && roundsThrow (hasFlag flags kIgnorePayload) a.rounds

def bodyThrows : Bool :=
  a.cursor.isSome || throws a.first || (a.found flags && throws a.write) || a.loopThrows flags

/-- The cursor is never closed; the key of the loop is lost with an exception. -/
def bodyLost (n : Nat) : Multiset Kind :=
  if a.cursor.isSome then 0
  else {.cursor} + if hasFlag flags kIgnorePayload ∧ a.loopThrows flags then keyKinds n else 0

/-- What a call to `Index::Update` or `Index::Delete` loses; `freed`: the buffer is freed before the
    commit. -/
def lost (freed : Bool) (n : Nat) : Multiset Kind :=
  {.dbt} +
    if a.begin.isSome then {.buffer}
    else if a.started then
      a.bodyLost flags n +
        if a.bodyThrows flags ∨ (¬ freed ∧ a.commit.isSome) then {.buffer} else 0
    else 0

end ModifyAnswers

section Modifications
variable {n : Nat} {flags : UInt8} {a : ModifyAnswers} {cursor buffer : Address}

theorem takes_indexInsert (joined : Bool) (put : Option Failure) :
    Takes 0 (indexInsert joined put) fun _ O =>
      O.map Prod.snd = if joined then {.buffer} + {.dbt} else 0 := by
  unfold indexInsert
  cases joined with
  | false => exact .pure rfl
  | true =>
    refine .bind takes_getBDBKey ?_
    rintro rt _ rfl
    refine .bind (.touch (c := (rt.2, Kind.dbt)) (by simp)) ?_
    rintro _ _ rfl
    refine .bind (.touch (c := (rt.1, Kind.buffer)) (by simp)) ?_
    rintro _ _ rfl
    rcases put with _ | _ | _
    all_goals exact .pure rfl

theorem takes_firstGet :
    Takes ({(cursor, .cursor)} + {(buffer, .buffer)}) (firstGet n flags a buffer cursor) fun r O =>
      O = {(cursor, .cursor)} + {(buffer, .buffer)} ∧ (r.isOk = !throws a.first) ∧
        (r = .ok none ↔ a.found flags) := by
  unfold firstGet
  refine .bind (.touch (c := (cursor, Kind.cursor)) (by simp)) ?_
  rintro _ _ rfl
  refine .bind (.touch (c := (buffer, Kind.buffer)) (by simp)) ?_
  rintro _ _ rfl
  rcases hfirst : a.first with _ | e | err
  · by_cases hflag : hasFlag flags kIgnorePayload
    · simp only [hflag, if_true]
      refine .seq _ (takes_getKey n .berkeleyDB) (zero_add _).symm ?_
      rintro key _ ⟨rfl, -⟩
      refine .seq _ (takes_readKey key) (by rw [Data.cells, zero_add]) ?_
      rintro _ _ rfl
      refine .seq _ (takes_deleteKey key) rfl ?_
      rintro _ _ rfl
      rw [zero_add]
      refine .pure ⟨rfl, rfl, ?_⟩
      cases hsame : a.same <;> simp [ModifyAnswers.found, hfirst, hsame, hflag]
    · simp only [hflag, Bool.false_eq_true, if_false]
      exact .pure ⟨rfl, rfl, by simp [ModifyAnswers.found, hfirst, hflag]⟩
  · exact .pure ⟨rfl, rfl, by simp [ModifyAnswers.found, hfirst]⟩
  · by_cases hflag : hasFlag flags kIgnorePayload
    · simp only [hflag, if_true]
      refine .seq {(cursor, .cursor)} (takes_getKey n (.buffer buffer)) (add_comm _ _) ?_
      rintro key _ ⟨rfl, -⟩
      refine .seq ({(buffer, .buffer)} + {(cursor, .cursor)}) (takes_readKey key)
        (by rw [Data.cells]; abel) ?_
      rintro _ _ rfl
      refine .seq _ (takes_deleteKey key) rfl ?_
      rintro _ _ rfl
      rw [zero_add]
      exact .pure ⟨add_comm _ _, rfl, by simp [ModifyAnswers.found, hfirst]⟩
    · simp only [hflag, Bool.false_eq_true, if_false]
      exact .pure ⟨rfl, rfl, by simp [ModifyAnswers.found, hfirst]⟩

theorem takes_stillSame (cmpkey : Option OwnedKey) (same : Bool) :
    Takes (cmpkey.elim 0 OwnedKey.cells) (stillSame cmpkey same) fun r O =>
      O = cmpkey.elim 0 OwnedKey.cells ∧ r = (same || !cmpkey.isSome) := by
  cases cmpkey with
  | none => exact .pure ⟨rfl, by simp⟩
  | some key =>
    refine (takes_readKey key).bind ?_
    rintro _ _ rfl
    exact .pure ⟨rfl, by simp⟩

theorem takes_dupLoop (cmpkey : Option OwnedKey) (rounds : List Round) :
    Takes ({(cursor, .cursor)} + cmpkey.elim 0 OwnedKey.cells) (dupLoop cursor cmpkey rounds) fun r O =>
      O = {(cursor, .cursor)} + cmpkey.elim 0 OwnedKey.cells ∧
        (r.isOk = !roundsThrow cmpkey.isSome rounds) := by
  have hcursor : (cursor, Kind.cursor) ∈
      ({(cursor, .cursor)} + cmpkey.elim 0 OwnedKey.cells : Cells) := by simp
  induction rounds with
  | nil =>
    refine .bind (.touch hcursor) ?_
    rintro _ _ rfl
    exact .pure ⟨rfl, rfl⟩
  | cons r rounds ih =>
    unfold dupLoop
    refine .bind (.touch hcursor) ?_
    rintro _ _ rfl
    rcases hgot : r.got with _ | e | err
    · refine .seq {(cursor, .cursor)} (takes_stillSame cmpkey r.same) (add_comm _ _) ?_
      rintro same _ ⟨rfl, hsame⟩
      rw [roundsThrow, hgot, ← hsame, add_comm]
      cases same with
      | false => exact .pure ⟨rfl, rfl⟩
      | true =>
        simp only [if_true]
        refine .bind (.touch hcursor) ?_
        rintro _ _ rfl
        rcases r.write with _ | e | err
        · simpa using ih
        · exact .pure ⟨rfl, rfl⟩
        · exact .pure ⟨rfl, rfl⟩
    · exact .pure ⟨rfl, by simp [roundsThrow, hgot]⟩
    · exact .pure ⟨rfl, by simp [roundsThrow, hgot]⟩

/-- The loop over the duplicates, with the key that is compared or without one. -/
theorem takes_duplicates (rounds : List Round) (code : Option DbError → ErrorCode) :
    Takes {(cursor, .cursor)} (do
      let cmpkey ← getKey n .berkeleyDB
      match ← dupLoop cursor (some cmpkey) rounds with
      | .error e => return .error e
      | .ok err => do
        deleteKey cmpkey
        return .ok (code err) : Own (Except DbException ErrorCode)) fun r O =>
      ∃ L, O = {(cursor, .cursor)} + L ∧
        L.map Prod.snd = (if roundsThrow true rounds then keyKinds n else 0) ∧
        (r.isOk = !roundsThrow true rounds) := by
  refine .seq {(cursor, .cursor)} (takes_getKey n .berkeleyDB) (zero_add _).symm ?_
  rintro cmpkey _ ⟨rfl, hkinds⟩
  refine .seq 0 (takes_dupLoop (some cmpkey) rounds)
    (by simp only [Data.cells, Option.elim]; abel) ?_
  rintro result _ ⟨rfl, hthrows⟩
  rw [Option.isSome_some] at hthrows
  cases result with
  | error e =>
    have hthrow : roundsThrow true rounds = true := by simpa using hthrows
    rw [hthrow]
    exact .pure ⟨cmpkey.cells, add_zero _, hkinds, rfl⟩
  | ok err =>
    have hthrow : roundsThrow true rounds = false := by simpa using hthrows
    rw [hthrow]
    refine .seq {(cursor, .cursor)} (takes_deleteKey cmpkey)
      (by simp only [Option.elim]; abel) ?_
    rintro _ _ rfl
    exact .pure ⟨0, add_comm _ _, rfl, rfl⟩

theorem takes_modifyBody (loopError : ErrorCode) :
    Takes {(buffer, .buffer)} (modifyBody n loopError flags a buffer) fun r O =>
      ∃ L, O = {(buffer, .buffer)} + L ∧ L.map Prod.snd = a.bodyLost flags n ∧
        (r.isOk = !a.bodyThrows flags) := by
  unfold modifyBody ModifyAnswers.bodyLost ModifyAnswers.bodyThrows ModifyAnswers.loopThrows
    ModifyAnswers.loops
  cases hcursor : a.cursor with
  | some e => exact .pure ⟨0, (add_zero _).symm, rfl, rfl⟩
  | none =>
    refine .seq {(buffer, .buffer)} (.new Kind.cursor) (zero_add _).symm ?_
    rintro cursor _ rfl
    refine takes_firstGet.bind ?_
    rintro first _ ⟨rfl, hfirst, hfound⟩
    have hcells : ({(cursor, .cursor)} + {(buffer, .buffer)} : Cells) =
        {(buffer, .buffer)} + {(cursor, .cursor)} := add_comm _ _
    rw [hcells]
    -- nothing is written without a record, and the cursor is lost
    rcases first with e | _ | err
    · have hthrows : throws a.first = true := by simpa using hfirst
      have hnot : a.found flags = false := by simpa using hfound
      exact .pure ⟨{(cursor, .cursor)}, rfl, by simp [hnot], by simp [hthrows]⟩
    · have hthrows : throws a.first = false := by simpa using hfirst
      have hyes : a.found flags = true := hfound.mp rfl
      refine .bind (.touch (c := (cursor, Kind.cursor)) (by simp)) ?_
      rintro _ _ rfl
      rcases a.write with _ | e | err
      · by_cases hmatch : hasFlag flags kMatchDuplicates
        · by_cases hignore : hasFlag flags kIgnorePayload
          · simp only [hmatch, hignore, if_true]
            rw [← hcells]
            refine ((takes_duplicates a.rounds _).frame _).mono ?_
            rintro result _ ⟨_, ⟨L, rfl, hL, hresult⟩, rfl⟩
            refine ⟨{(cursor, .cursor)} + L, by abel, ?_, ?_⟩
            · rw [Multiset.map_add, hL]
              simp [hyes]
            · simp [hresult, hthrows, hyes]
          · simp only [hmatch, hignore, Bool.false_eq_true, if_true, if_false]
            refine .seq {(buffer, .buffer)} (takes_dupLoop none a.rounds) (by simp [add_comm]) ?_
            rintro result _ ⟨rfl, hresult⟩
            cases result with
            | error e =>
              have hloop : roundsThrow false a.rounds = true := by simpa using hresult
              exact .pure ⟨{(cursor, .cursor)}, by simp [add_comm], by simp, by simp [hyes, hloop]⟩
            | ok err =>
              have hloop : roundsThrow false a.rounds = false := by simpa using hresult
              exact .pure ⟨{(cursor, .cursor)}, by simp [add_comm], by simp, by simp [hthrows, hloop]⟩
        · simp only [hmatch, Bool.false_eq_true, if_false]
          exact .pure ⟨{(cursor, .cursor)}, rfl, by simp, by simp [hthrows]⟩
      · exact .pure ⟨{(cursor, .cursor)}, rfl, by simp, by simp [hyes]⟩
      · exact .pure ⟨{(cursor, .cursor)}, rfl, by simp, by simp [hthrows]⟩
    · have hthrows : throws a.first = false := by simpa using hfirst
      have hnot : a.found flags = false := by simpa using hfound
      exact .pure ⟨{(cursor, .cursor)}, rfl, by simp [hnot], by simp [hthrows, hnot]⟩

theorem takes_abortModify : Takes {(buffer, .buffer)} (abortModify a buffer) fun _ O => O = 0 := by
  unfold abortModify
  refine (Takes.delete (buffer, Kind.buffer)).bind ?_
  rintro _ _ rfl
  cases a.abort with
  | none => exact .pure rfl
  | some e => exact .pure rfl

theorem takes_modify (loopError : ErrorCode) (freed : Bool)
    {finish : Address → ErrorCode → Own (Except DbException ErrorCode)}
    (hfinish : ∀ buffer code, Takes {(buffer, .buffer)} (finish buffer code) fun _ O =>
      O.map Prod.snd = if ¬ freed ∧ a.commit.isSome then {.buffer} else 0) :
    Takes 0 (modify loopError finish n flags a) fun _ O => O.map Prod.snd = a.lost flags freed n := by
  unfold modify ModifyAnswers.lost
  refine takes_getBDBKey.bind ?_
  rintro ⟨buffer, dbt⟩ _ rfl
  refine .bind (.touch (c := (dbt, Kind.dbt)) (by simp)) ?_
  rintro _ _ rfl
  cases a.begin with
  | some e =>
    refine .pure ?_
    simp only [Multiset.map_add, Multiset.map_singleton, Option.isSome_some, if_true, add_comm]
  | none =>
    cases a.started with
    | false =>
      refine (takes_abortModify.frame {(dbt, .dbt)}).mono ?_
      rintro _ _ ⟨_, rfl, rfl⟩
      simp
    | true =>
      refine .seq {(dbt, .dbt)} (takes_modifyBody loopError) rfl ?_
      rintro result _ ⟨L, rfl, hL, hresult⟩
      simp only [Option.isSome_none, Bool.false_eq_true, if_false, if_true]
      cases result with
      | error e =>
        have hthrows : a.bodyThrows flags = true := by simpa using hresult
        refine .pure ?_
        simp only [Multiset.map_add, hL, hthrows, Multiset.map_singleton, true_or, if_true]
        abel
      | ok code =>
        have hthrows : a.bodyThrows flags = false := by simpa using hresult
        have hcells : ({(buffer, .buffer)} + L + {(dbt, .dbt)} : Cells) =
            {(buffer, .buffer)} + (L + {(dbt, .dbt)}) := add_assoc _ _ _
        rw [hcells]
        refine ((hfinish buffer code).frame _).mono ?_
        rintro _ _ ⟨O, hO, rfl⟩
        simp only [Multiset.map_add, hL, hO, hthrows, Multiset.map_singleton, Bool.false_eq_true, false_or]
        abel

/-- `Index::Update` still has the buffer when it commits. -/
theorem takes_indexUpdate : Takes 0 (indexUpdate n flags a) fun _ O =>
    O.map Prod.snd = a.lost flags false n := by
  refine takes_modify .kErrorNotFound false fun buffer code => ?_
  cases a.commit with
  | some e => exact .pure rfl
  | none =>
    refine (Takes.delete (buffer, Kind.buffer)).bind ?_
    rintro _ _ rfl
    exact .pure rfl

theorem takes_indexDelete : Takes 0 (indexDelete n flags a) fun _ O =>
    O.map Prod.snd = a.lost flags true n := by
  refine takes_modify .kErrorGenericFailure true fun buffer code => ?_
  refine (Takes.delete (buffer, Kind.buffer)).bind ?_
  rintro _ _ rfl
  cases a.commit with
  | none => exact .pure rfl
  | some e => exact .pure rfl

end Modifications

end Contest.Ownership
