import ContestIndex.Results.Ownership

/-! @src example/Iterator.cc, example/BDBImpl.cc | name:Runs that free what they have | layer:results

    Over any calls: a run goes wrong exactly when it asks an iterator that has come to its end for more,
    closes one whose cursor has thrown before, or uses one that is not there. Every other run frees what
    it has, once, and the heap holds what the iterators in hand own and what has been lost, cell by cell.

        GetRecords ──▶ GetNext … GetNext ──▶ kErrorNotFound ──▶ CloseIterator
                          │                       └── GetNext ──▶ cursor_ is NULL
                          └── the record stays until the next call on this iterator -/

namespace Contest.Ownership
open Schemes Owning

/-! ### What may be called -/

/-- Nothing that the iterator needs for the call has been freed. -/
def allowed (s : State) : Call → Bool
  | .getRecords _ _ _ var cursor _ =>
    match cursor, var with
    | some _, some i => (s.iterators i).any fun it => !it.closed && (!it.ended || it.cursor.isNone)
    | _, _ => true
  | .getNext i _ => (s.iterators i).any fun it => it.closed || !it.ended
  | .closeIterator i _ => (s.iterators i).any fun it => it.closed || !it.ended || it.cursor.isNone
  | _ => true

/-- What an iterator loses, when it is there. -/
def lostOn (s : State) (i : Address) (lost : Iterator → Cells) : Multiset Kind :=
  ((s.iterators i).elim 0 lost).map Prod.snd

/-- What a call loses. -/
def lostIn (s : State) : Call → Multiset Kind
  | .getRecords _ minKeys maxKeys var cursor close =>
    if cursor.isSome then
      keyKinds (setAttributes minKeys) + keyKinds (setAttributes maxKeys) +
        var.elim 0 fun i => lostOn s i (·.lost close)
    else 0
  | .getNext i a => lostOn s i fun it => if it.closed then 0 else it.lostByNext a
  | .closeIterator i close => lostOn s i fun it => if it.closed then 0 else it.lost close
  | .insertRecord joined _ => if joined then {.buffer} + {.dbt} else 0
  | .updateRecord n flags a => a.lost flags false n
  | .deleteRecord n flags a => a.lost flags true n

/-- The calls that change the iterator. -/
def Concerns (i : Address) : Call → Prop
  | .getRecords _ _ _ var cursor _ => cursor.isSome ∧ var = some i
  | .getNext j _ => j = i
  | .closeIterator j _ => j = i
  | _ => False

/-! ### The invariant -/

/-- What an iterator that has ended or is closed still points to is gone. -/
structure Iterator.Spent (it : Iterator) (h : Heap Kind) : Prop where
  cursor : it.ended ∨ it.closed → ∀ c, it.cursor = some c → h.Gone (c, .cursor)
  bounds : it.closed → it.cursor = none → h.Gone (it.minKey.value, .attributes)

/-- INVARIANT of all runs. -/
structure Inv (s : State) (lost : Cells) : Prop where
  balanced : Balanced Iterator.cells s.iterators s.heap lost
  sound : ∀ i it, s.iterators i = some it → it.Sound ∧ it.Spent s.heap

variable {s s' : State} {lost L : Cells} {i : Address} {it it' : Iterator} {h h' : Heap Kind}

theorem Inv.start : Inv .start 0 := ⟨.empty, by simp [State.start]⟩

theorem Iterator.Spent.later (hspent : it.Spent h) (hlater : h.Later h') : it.Spent h' :=
  ⟨fun hdone c hc => (hspent.cursor hdone c hc).later hlater,
    fun hclosed hc => (hspent.bounds hclosed hc).later hlater⟩

theorem Iterator.valueCells_le (it : Iterator) : it.valueCells ≤ it.members := by
  rw [members, add_right_comm]
  exact Multiset.le_add_left _ _

theorem cursor_notMem (hdone : it.ended ∨ it.closed) (c : Address) : (c, Kind.cursor) ∉ it.cells i := by
  intro hmem
  rcases Multiset.mem_add.mp hmem with hmem | hmem
  · simp at hmem
  · unfold Iterator.held at hmem
    split at hmem
    · simp at hmem
    · rename_i hopen
      have hended : it.ended := hdone.resolve_right hopen
      simp only [Iterator.members, hended, if_true, add_zero, Multiset.mem_add] at hmem
      rcases hmem with (hmem | hmem) | hmem
      · exact kind_of_mem_keyCells hmem rfl
      · simpa using kind_of_mem_data hmem
      · exact kind_of_mem_value hmem rfl

/-- STEP: what a call on an iterator does not leave to it is gone. -/
theorem Iterator.Spent.step {r : Reply} {O : Cells} (hspent : it.Spent h) (hlater : h.Later h')
    (hgone : ∀ c ∈ it.cells i, c ∉ O → h'.Gone c) (hleaves : Leaves i it L (r, some it') O) :
    it'.Spent h' := by
  obtain ⟨-, hfollows, hsame⟩ := hleaves.sound it' rfl
  by_cases hclosed : it.closed
  · rw [hsame hclosed]
    exact hspent.later hlater
  have hopen : it.closed = false := by simpa using hclosed
  have hO : O = it'.cells i + L := hleaves.cells
  refine ⟨fun hdone c hc => ?_, fun hdone hc => ?_⟩
  · have hc₀ : it.cursor = some c := by
      rcases hfollows.cursor with hcursor | hcursor
      · rw [← hcursor, hc]
      · rw [hcursor] at hc
        contradiction
    by_cases hended : it.ended
    · exact (hspent.cursor (.inl hended) c hc₀).later hlater
    · refine hgone _ ?_ ?_
      · simp [Iterator.cells, Iterator.held, Iterator.members, Iterator.cursorCells, hopen, hended, hc₀]
      · rw [hO, Multiset.mem_add, not_or]
        exact ⟨cursor_notMem hdone c, fun hmem => hleaves.noCursor _ hmem rfl⟩
  · rw [hfollows.minKey]
    refine hgone _ ?_ ?_
    · simp [Iterator.cells, Iterator.held, Iterator.members, Iterator.keyCells, OwnedKey.cells, hopen]
    · rw [hO, Multiset.mem_add, not_or]
      refine ⟨?_, fun hmem => hleaves.noBounds it' rfl hc _ hmem rfl⟩
      simp [Iterator.cells, Iterator.held, hdone]

/-! ### Steps -/

/-- STEP: a program that works on no iterator. -/
theorem Inv.program {α : Type} {x : Own α} {P : α → Cells → Prop} (hinv : Inv s lost)
    (hx : Takes 0 x P) : ∃ a h' O, x s.heap = some (a, h') ∧ s.heap.Later h' ∧ P a O ∧
      Inv { s with heap := h' } (O + lost) := by
  have hbalanced : Balanced Iterator.cells s.iterators s.heap (0 + lost) := by
    rw [zero_add]
    exact hinv.balanced
  obtain ⟨a, h', O, hrun, hlater, -, hP, hbalanced'⟩ := hbalanced.run hx
  refine ⟨a, h', O, hrun, hlater, hP, hbalanced', fun i it hi => ?_⟩
  obtain ⟨hsound, hspent⟩ := hinv.sound i it hi
  exact ⟨hsound, hspent.later hlater⟩

/-- STEP: a program on an iterator. -/
theorem Inv.runOn {x : Own (Reply × Option Iterator)} (hinv : Inv s lost)
    (hi : s.iterators i = some it) {P : Reply × Option Iterator → Cells → Prop}
    (hx : Takes (it.cells i) x P)
    (hP : ∀ r O, P r O → Leaves i it L r O) : ∃ r s' O, s.runOn i x = some (r, s') ∧
      P (r, s'.iterators i) O ∧ (∀ j, j ≠ i → s'.iterators j = s.iterators j) ∧ Inv s' (L + lost) := by
  obtain ⟨hsound, hspent⟩ := hinv.sound i it hi
  obtain ⟨⟨r, o⟩, h', O, hrun, hlater, hgone, hPr, hbalanced⟩ := (hinv.balanced.release hi).run hx
  have hleaves : Leaves i it L (r, o) O := hP (r, o) O hPr
  have hstate : s.runOn i x = some (r, ⟨h', Function.update s.iterators i o⟩) := by
    simp [State.runOn, hrun]
  refine ⟨r, _, O, hstate, ?_, fun j hj => Function.update_of_ne hj _ _, ?_, fun j p hp => ?_⟩
  · show P (r, Function.update s.iterators i o i) O
    rw [Function.update_self]
    exact hPr
  · rw [hleaves.cells, add_assoc] at hbalanced
    cases o with
    | none => simpa [kept] using hbalanced
    | some it' =>
      have hclaim := hbalanced.claim fun i o => mem_cells
      rwa [Function.update_idem] at hclaim
  · have hp : Function.update s.iterators i o j = some p := hp
    by_cases hj : j = i
    · subst hj
      rw [Function.update_self] at hp
      subst hp
      exact ⟨(hleaves.sound p rfl).1, hspent.step hlater hgone hleaves⟩
    · rw [Function.update_of_ne hj] at hp
      obtain ⟨hsound', hspent'⟩ := hinv.sound j p hp
      exact ⟨hsound', hspent'.later hlater⟩

/-- What the client can tell from the reply. -/
def Seen (r : Reply) (s' : State) : Call → Prop
  | .getRecords .. => r.answer = some .kOk →
    ∃ i it, r.iterator = some i ∧ s'.iterators i = some it ∧ it.closed = false ∧ it.ended = false
  | .getNext i a => ∃ it, s'.iterators i = some it ∧ Told a it r
  | .closeIterator i close => close = none → s'.iterators i = none
  | _ => True

/-- What every allowed call does. -/
structure Done (s : State) (lost : Cells) (c : Call) (r : Reply) (s' : State) (L : Cells) : Prop where
  runs : perform s c = some (r, s')
  kinds : L.map Prod.snd = lostIn s c
  inv : Inv s' (L + lost)
  frame : ∀ i, ¬ Concerns i c → s'.iterators i = s.iterators i ∨
    (s.iterators i = none ∧ r.answer = some .kOk ∧ r.iterator = some i)
  seen : Seen r s' c

theorem done_run {c : Call} {x : Own (Except DbException ErrorCode)}
    {handler : DbException → ErrorCode} (hinv : Inv s lost) (hperform : perform s c = s.run x handler)
    (hx : Takes 0 x fun _ O => O.map Prod.snd = lostIn s c) (hseen : ∀ r s', Seen r s' c) :
    ∃ r s' L, Done s lost c r s' L := by
  obtain ⟨result, h', O, hrun, -, hO, hinv'⟩ := hinv.program hx
  refine ⟨caught handler result, { s with heap := h' }, O, ?_, hO, hinv', fun _ _ => .inl rfl, hseen _ _⟩
  simp [hperform, State.run, hrun]

theorem done_getNext {a : Answers} (hinv : Inv s lost) (hallowed : allowed s (.getNext i a)) :
    ∃ r s' L, Done s lost (.getNext i a) r s' L := by
  obtain ⟨it, hi, hgo⟩ := (Option.any_eq_true _ _).mp hallowed
  have hgo' : it.closed ∨ it.ended = false := by simpa using hgo
  obtain ⟨hsound, -⟩ := hinv.sound i it hi
  obtain ⟨r, s', O, hrun, ⟨hleaves, htold⟩, hothers, hinv'⟩ :=
    hinv.runOn hi (takes_getNext hsound hgo' a) fun r O h => h.1
  refine ⟨r, s', _, ?_, ?_, hinv', fun j hne => .inl (hothers j fun h => hne h.symm), htold⟩
  · simpa [perform, hi] using hrun
  · simp [lostIn, lostOn, hi]

theorem done_closeIterator {close : Option DbException} (hinv : Inv s lost)
    (hallowed : allowed s (.closeIterator i close)) :
    ∃ r s' L, Done s lost (.closeIterator i close) r s' L := by
  obtain ⟨it, hi, hgo⟩ := (Option.any_eq_true _ _).mp hallowed
  have hgo' : it.closed ∨ it.Closable := by
    simp only [Bool.or_eq_true, Bool.not_eq_true', Option.isNone_iff_eq_none] at hgo
    unfold Iterator.Closable
    grind
  obtain ⟨hsound, -⟩ := hinv.sound i it hi
  obtain ⟨r, s', O, hrun, ⟨hleaves, hremoved⟩, hothers, hinv'⟩ :=
    hinv.runOn hi (takes_closeIterator hsound hgo') fun r O h => h.1
  refine ⟨r, s', _, ?_, ?_, hinv', fun j hne => .inl (hothers j fun h => hne h.symm), hremoved⟩
  · simpa [perform, hi] using hrun
  · simp [lostIn, lostOn, hi]

/-- A new iterator is none of the others. -/
theorem Inv.made (hinv : Inv { s with heap := h } (it.cells i + lost)) (hsound : it.Sound)
    (hclosed : it.closed = false) (hended : it.ended = false) :
    Inv ⟨h, Function.update s.iterators i (some it)⟩ lost ∧ s.iterators i = none := by
  have hnone : s.iterators i = none := hinv.balanced.not_there fun i o => mem_cells
  refine ⟨⟨hinv.balanced.claim fun i o => mem_cells, fun j p hp => ?_⟩, hnone⟩
  have hp : Function.update s.iterators i (some it) j = some p := hp
  by_cases hj : j = i
  · subst hj
    rw [Function.update_self, Option.some.injEq] at hp
    subst hp
    exact ⟨hsound, by simp [hclosed, hended], by simp [hclosed]⟩
  · rw [Function.update_of_ne hj] at hp
    exact hinv.sound j p hp

theorem done_getRecords {n : Nat} {minKeys maxKeys : Key} {var : Option Address}
    {cursor close : Option DbException} (hinv : Inv s lost)
    (hallowed : allowed s (.getRecords n minKeys maxKeys var cursor close)) :
    ∃ r s' L, Done s lost (.getRecords n minKeys maxKeys var cursor close) r s' L := by
  obtain ⟨made, h', O, hrun, -, hmade, hinv'⟩ :=
    hinv.program (takes_newIterator n minKeys maxKeys cursor)
  cases made with
  | ok p =>
    obtain ⟨i, it⟩ := p
    obtain ⟨rfl, rfl, hsound, hclosed, hended⟩ := hmade
    obtain ⟨hinv'', hnone⟩ := hinv'.made hsound hclosed hended
    refine ⟨⟨some .kOk, some i, none⟩, ⟨h', Function.update s.iterators i (some it)⟩, 0, ?_, rfl, ?_,
      fun j _ => ?_, fun _ => ⟨i, it, rfl, Function.update_self _ _ _, hclosed, hended⟩⟩
    · simp [perform, hrun]
    · rw [zero_add]
      exact hinv''
    · by_cases hj : j = i
      · subst hj
        exact .inr ⟨hnone, rfl, rfl⟩
      · exact .inl (Function.update_of_ne hj _ _)
  | error e =>
    obtain ⟨rfl, hkinds⟩ := hmade
    cases var with
    | none =>
      refine ⟨⟨some (World.catchRead e), none, none⟩, { s with heap := h' }, O, ?_, ?_, hinv',
        fun _ _ => .inl rfl, fun hok => absurd (Option.some.inj hok) (catchRead_ne e).1⟩
      · simp [perform, hrun]
      · simp [lostIn, hkinds]
    | some i =>
      obtain ⟨old, hi, hgo⟩ := (Option.any_eq_true _ _).mp hallowed
      obtain ⟨hopen, hclosable⟩ : old.closed = false ∧ old.Closable := by
        simp only [Bool.and_eq_true, Bool.or_eq_true, Bool.not_eq_true', Option.isNone_iff_eq_none] at hgo
        unfold Iterator.Closable
        grind
      obtain ⟨hsound, -⟩ := hinv.sound i old hi
      obtain ⟨r, s', O', hrun', ⟨hleaves, hanswer⟩, hothers, hinv''⟩ :=
        hinv'.runOn hi (takes_closeOld e close hsound hopen hclosable) fun r O h => h.1
      refine ⟨r, s', _, ?_, ?_, by rwa [← add_assoc] at hinv'', fun j hne => .inl (hothers j ?_),
        fun hok => absurd hok hanswer⟩
      · simpa [perform, hrun, hi] using hrun'
      · simp only [lostIn, Option.isSome_some, if_true, Option.elim, lostOn, hi, Multiset.map_add, hkinds]
        abel
      · rintro rfl
        exact hne ⟨rfl, rfl⟩

/-- STEP: an allowed call goes right. -/
theorem done_of_allowed (hinv : Inv s lost) : ∀ c, allowed s c → ∃ r s' L, Done s lost c r s' L
  | .getRecords .., h => done_getRecords hinv h
  | .getNext .., h => done_getNext hinv h
  | .closeIterator .., h => done_closeIterator hinv h
  | .insertRecord joined put, _ => done_run hinv rfl (takes_indexInsert joined put) fun _ _ => trivial
  | .updateRecord .., _ => done_run hinv rfl takes_indexUpdate fun _ _ => trivial
  | .deleteRecord .., _ => done_run hinv rfl takes_indexDelete fun _ _ => trivial

/-! ### What goes wrong -/

section Stuck
variable {thrown : Option DbException}

theorem deleteKey_stuck {key : OwnedKey} (hgone : h.Gone (key.value, .attributes)) :
    deleteKey key h = none := by
  unfold deleteKey
  refine bind_none fun _ h' hx => ?_
  cases hattributes : key.attributes with
  | nil =>
    rw [hattributes] at hx
    obtain ⟨-, rfl⟩ := pure_eq hx
    exact delete_gone hgone
  | cons a attributes =>
    have htouch : deleteAttributes key.value (a :: attributes) h = none := by
      cases a
      all_goals
        refine bind_none fun _ h' ht => ?_
        rw [touch_gone hgone] at ht
        contradiction
    rw [hattributes, htouch] at hx
    contradiction

/-- `Close`, again or on a cursor that has thrown -/
theorem close_stuck (hsound : it.Sound) (hspent : it.Spent h) (hheld : it.held ≤ h.cells)
    (hbad : it.closed ∨ ¬ it.Closable) : it.close thrown h = none := by
  -- the record can be deleted
  have hvalue : it.valueCells ≤ h.cells := by
    refine le_trans ?_ hheld
    unfold Iterator.held
    split
    · rename_i hclosed
      rw [Iterator.valueCells, hsound.closed hclosed]
      exact le_rfl
    · exact it.valueCells_le
  obtain ⟨R, hR⟩ := Multiset.le_iff_exists_add.mp hvalue
  obtain ⟨it', h', O, hrun, hlater, -, -, rfl⟩ := Iterator.takes_deleteValue it h R hR
  unfold Iterator.close
  refine bind_none fun it'' h'' hx => ?_
  rw [hrun, Option.some.injEq, Prod.mk.injEq] at hx
  obtain ⟨rfl, rfl⟩ := hx
  refine bind_none fun r h'' hx => ?_
  unfold Iterator.closeCursor at hx
  cases hcursor : it.cursor with
  | some c =>
    have hdone : it.ended ∨ it.closed := by
      unfold Iterator.Closable at hbad
      grind
    have hgone : h'.Gone (c, .cursor) := (hspent.cursor hdone c hcursor).later hlater
    simp only [hcursor] at hx
    rw [bind_none fun _ _ hd => by rw [delete_gone hgone] at hd; contradiction] at hx
    contradiction
  | none =>
    have hclosed : it.closed := by
      refine hbad.resolve_right (not_not_intro fun _ => hcursor)
    simp only [hcursor] at hx
    obtain ⟨rfl, rfl⟩ := pure_eq hx
    refine bind_none fun _ _ hd => ?_
    rw [deleteKey_stuck ((hspent.bounds hclosed hcursor).later hlater)] at hd
    contradiction

/-- `cursor_->get` after the end -/
theorem get_stuck (hended : it.ended) (hspent : it.Spent h) : it.get h = none := by
  unfold Iterator.get
  cases hcursor : it.cursor with
  | none => rfl
  | some c =>
    refine bind_none fun _ _ ht => ?_
    rw [touch_gone (hspent.cursor (.inl hended) c hcursor)] at ht
    contradiction

theorem getNext_stuck {a : Answers} (hsound : it.Sound) (hspent : it.Spent h) (hopen : it.closed = false)
    (hended : it.ended) : getNext i a it h = none := by
  unfold getNext
  refine bind_none fun _ h' ht => ?_
  obtain rfl := touch_eq ht
  simp only [hopen, Bool.false_eq_true, if_false]
  refine bind_none fun r h' hx => ?_
  unfold Iterator.next at hx
  rw [if_pos (hsound.ended hended)] at hx
  have hfetch : it.fetchNext a.close a.gets h = none := by
    cases a.gets
    all_goals
      refine bind_none fun _ _ hget => ?_
      rw [get_stuck hended hspent] at hget
      contradiction
  rw [hfetch] at hx
  contradiction

theorem closeIterator_stuck (i : Address) (thrown : Option DbException) (hsound : it.Sound)
    (hspent : it.Spent h) (hheld : it.held ≤ h.cells) (hopen : it.closed = false)
    (hbad : ¬ it.Closable) : closeIterator i thrown it h = none := by
  unfold closeIterator
  refine bind_none fun _ h' ht => ?_
  obtain rfl := touch_eq ht
  simp only [hopen, Bool.false_eq_true, if_false]
  refine bind_none fun r h' hx => ?_
  rw [close_stuck hsound hspent hheld (.inr hbad)] at hx
  contradiction

theorem closeOld_stuck (i : Address) (e : DbException) (thrown : Option DbException)
    (hsound : it.Sound) (hspent : it.Spent h) (hheld : it.held ≤ h.cells)
    (hbad : it.closed ∨ ¬ it.Closable) : closeOld i e thrown it h = none := by
  unfold closeOld
  refine bind_none fun _ h' ht => ?_
  obtain rfl := touch_eq ht
  refine bind_none fun r h' hx => ?_
  rw [close_stuck hsound hspent hheld hbad] at hx
  contradiction

theorem Inv.held (hinv : Inv s lost) (hi : s.iterators i = some it) : it.held ≤ s.heap.cells :=
  (Multiset.le_add_left _ _).trans (hinv.balanced.holds hi)

theorem runOn_none (s : State) (i : Address) {x : Own (Reply × Option Iterator)} (hx : x s.heap = none) :
    s.runOn i x = none := by
  rw [State.runOn, hx, Option.map_none]

/-- STEP: any other call goes wrong. -/
theorem stuck_of_not_allowed (hinv : Inv s lost) : ∀ c, ¬ allowed s c → perform s c = none
  | .getRecords n minKeys maxKeys var cursor close, hnot => by
    obtain ⟨made, h', O, hrun, -, hmade, hinv'⟩ :=
      hinv.program (takes_newIterator n minKeys maxKeys cursor)
    rcases cursor with _ | e
    · simp [allowed] at hnot
    rcases var with _ | i
    · simp [allowed] at hnot
    cases made with
    | ok p => exact absurd hmade.1 (by simp)
    | error e' =>
      cases hi : s.iterators i with
      | none => simp [perform, hrun, hi]
      | some it =>
        obtain ⟨hsound, hspent⟩ := hinv'.sound i it hi
        have hbad : it.closed ∨ ¬ it.Closable := by
          simp only [allowed, hi, Option.any_some, Bool.and_eq_true, Bool.or_eq_true, Bool.not_eq_true',
            Option.isNone_iff_eq_none] at hnot
          unfold Iterator.Closable
          grind
        have hstuck := runOn_none { s with heap := h' } i
          (closeOld_stuck i e' close hsound hspent (hinv'.held hi) hbad)
        simpa [perform, hrun, hi] using hstuck
  | .getNext i a, hnot => by
    cases hi : s.iterators i with
    | none => simp [perform, hi]
    | some it =>
      obtain ⟨hsound, hspent⟩ := hinv.sound i it hi
      obtain ⟨hopen, hended⟩ : it.closed = false ∧ it.ended := by simpa [allowed, hi] using hnot
      simpa [perform, hi] using runOn_none s i (getNext_stuck hsound hspent hopen hended)
  | .closeIterator i close, hnot => by
    cases hi : s.iterators i with
    | none => simp [perform, hi]
    | some it =>
      obtain ⟨hsound, hspent⟩ := hinv.sound i it hi
      obtain ⟨hopen, hbad⟩ : it.closed = false ∧ ¬ it.Closable := by
        simp only [allowed, hi, Option.any_some, Bool.or_eq_true, Bool.not_eq_true',
          Option.isNone_iff_eq_none] at hnot
        unfold Iterator.Closable
        grind
      have hstuck := closeIterator_stuck i close hsound hspent (hinv.held hi) hopen hbad
      simpa [perform, hi] using runOn_none s i hstuck
  | .insertRecord .., hnot => absurd rfl hnot
  | .updateRecord .., hnot => absurd rfl hnot
  | .deleteRecord .., hnot => absurd rfl hnot

end Stuck

/-- STEP: exactly the allowed calls go right. -/
theorem perform_isSome_iff (hinv : Inv s lost) (c : Call) : (perform s c).isSome ↔ allowed s c := by
  constructor
  · intro hsome
    by_contra hnot
    simp [stuck_of_not_allowed hinv c hnot] at hsome
  · intro hallowed
    obtain ⟨r, s', L, hdone⟩ := done_of_allowed hinv c hallowed
    simp [hdone.runs]

theorem done_of_perform {c : Call} {r : Reply} (hinv : Inv s lost) (hstep : perform s c = some (r, s')) :
    ∃ L, Done s lost c r s' L := by
  have hallowed : allowed s c := (perform_isSome_iff hinv c).mp (by rw [hstep]; rfl)
  obtain ⟨r', t, L, hdone⟩ := done_of_allowed hinv c hallowed
  have hsame := hdone.runs
  rw [hstep, Option.some.injEq, Prod.mk.injEq] at hsame
  obtain ⟨rfl, rfl⟩ := hsame
  exact ⟨L, hdone⟩

/-! ### Runs -/

/-- The state, and what has been lost so far. -/
def account (p : State × Multiset Kind) (c : Call) : Option (State × Multiset Kind) :=
  (perform p.1 c).map fun r => (r.2, p.2 + lostIn p.1 c)

/-- What holds between two calls. -/
def Accounted (p : State × Multiset Kind) : Prop := ∃ lost : Cells, lost.map Prod.snd = p.2 ∧ Inv p.1 lost

theorem accounted_start : Accounted (.start, 0) := ⟨0, rfl, .start⟩

theorem account_isSome_iff {p : State × Multiset Kind} (h : Accounted p) (c : Call) :
    (account p c).isSome ↔ allowed p.1 c := by
  obtain ⟨lost, -, hinv⟩ := h
  rw [account, Option.isSome_map, perform_isSome_iff hinv]

theorem account_keeps {p p' : State × Multiset Kind} (h : Accounted p) {c : Call}
    (hstep : account p c = some p') : Accounted p' := by
  obtain ⟨⟨r, s'⟩, hrun, rfl⟩ := Option.map_eq_some_iff.mp hstep
  obtain ⟨lost, hlost, hinv⟩ := h
  obtain ⟨L, hdone⟩ := done_of_perform hinv hrun
  refine ⟨L + lost, ?_, hdone.inv⟩
  rw [Multiset.map_add, hdone.kinds, hlost, add_comm]

/-- CORRECT: exactly the runs of allowed calls go right. -/
theorem calls_go_right_iff_allowed (calls : List Call) :
    (exec account (State.start, 0) calls).isSome ↔
      Along (fun p c => allowed p.1 c) account (State.start, 0) calls :=
  exec_isSome_iff (fun _ _ _ h hstep => account_keeps h hstep) (fun _ c h => account_isSome_iff h c)
    accounted_start

/-- CORRECT: the heap has what the iterators in hand own and what has been lost; without iterators it
    has what has been lost. -/
theorem heap_is_owned_or_lost {calls : List Call} {s : State} {lostKinds : Multiset Kind}
    (h : exec account (State.start, 0) calls = some (s, lostKinds)) :
    (∃ lost : Cells, lost.map Prod.snd = lostKinds ∧
      Balanced Iterator.cells s.iterators s.heap lost) ∧
    ((∀ i, s.iterators i = none) → s.heap.cells.map Prod.snd = lostKinds) := by
  obtain ⟨lost, hlost, hinv⟩ : Accounted (s, lostKinds) :=
    exec_keeps (fun _ _ _ hp _ hstep => account_keeps hp hstep) accounted_start (.always calls _) h
  refine ⟨⟨lost, hlost, hinv.balanced⟩, fun hnone => ?_⟩
  rw [hinv.balanced.all_lost hnone, hlost]

/-- An insertion, and an iterator that is closed before its first record. -/
theorem heap_is_owned_or_lost_at : ∃ s lost, exec account (State.start, 0)
      [.insertRecord true none, .getRecords 1 [none] [none] none none none, .closeIterator 2 none] =
        some (s, {.buffer} + {.dbt} + {.buffer}) ∧
      Balanced Iterator.cells s.iterators s.heap lost := by
  have hlost : (exec account (State.start, 0)
      [.insertRecord true none, .getRecords 1 [none] [none] none none none, .closeIterator 2 none]).map
        Prod.snd = some ({.buffer} + {.dbt} + {.buffer}) := rfl
  obtain ⟨⟨s, kinds⟩, hrun, rfl⟩ := Option.map_eq_some_iff.mp hlost
  obtain ⟨⟨lost, -, hbalanced⟩, -⟩ := heap_is_owned_or_lost hrun
  exact ⟨s, lost, hrun, hbalanced⟩

/-- A step without the account. -/
def serve (s : State) (c : Call) : Option State := (perform s c).map Prod.snd

theorem serve_keeps {c : Call} (hinv : ∃ lost, Inv s lost) (hstep : serve s c = some s') :
    ∃ lost, Inv s' lost := by
  obtain ⟨⟨r, t⟩, hrun, rfl⟩ := Option.map_eq_some_iff.mp hstep
  obtain ⟨lost, hinv⟩ := hinv
  obtain ⟨L, hdone⟩ := done_of_perform hinv hrun
  exact ⟨L + lost, hdone.inv⟩

/-- FRAME: other calls leave the iterator alone. -/
theorem serve_frame {c : Call} (hinv : ∃ lost, Inv s lost) (hi : s.iterators i = some it)
    (hother : ¬ Concerns i c) (hstep : serve s c = some s') : s'.iterators i = some it := by
  obtain ⟨⟨r, t⟩, hrun, rfl⟩ := Option.map_eq_some_iff.mp hstep
  obtain ⟨lost, hinv⟩ := hinv
  obtain ⟨L, hdone⟩ := done_of_perform hinv hrun
  rcases hdone.frame i hother with hsame | ⟨hnone, -⟩
  · rw [hsame, hi]
  · rw [hi] at hnone
    contradiction

/-- CORRECT: the record that `GetNext` has returned stays while no other call is made on its iterator. -/
theorem records_stay {before later : List Call} {a : Answers} {s s₁ s₂ : State} {reply : Reply}
    {record : OwnedRecord} (hbefore : exec serve .start before = some s)
    (hnext : perform s (.getNext i a) = some (reply, s₁)) (hrecord : reply.record = some record)
    (hlater : exec serve s₁ later = some s₂) (hother : ∀ c ∈ later, ¬ Concerns i c) :
    record.cells ≤ s₂.heap.cells := by
  have hinv : ∃ lost, Inv s lost :=
    exec_keeps (fun _ _ _ h _ hstep => serve_keeps h hstep) ⟨0, .start⟩ (.always before _) hbefore
  have hinv₁ : ∃ lost, Inv s₁ lost := serve_keeps hinv (by rw [serve, hnext]; rfl)
  -- the iterator has the record
  obtain ⟨lost, hinv⟩ := hinv
  obtain ⟨L, hdone⟩ := done_of_perform hinv hnext
  obtain ⟨it, hi, htold⟩ := hdone.seen
  obtain ⟨hopen, hvalue⟩ := htold.record record hrecord
  have hkeep : ∀ s c s', (∃ lost, Inv s lost) ∧ s.iterators i = some it → ¬ Concerns i c ∧ True →
      serve s c = some s' → (∃ lost, Inv s' lost) ∧ s'.iterators i = some it :=
    fun _ _ _ h hc hstep => ⟨serve_keeps h.1 hstep, serve_frame h.1 h.2 hc.1 hstep⟩
  obtain ⟨⟨lost, hinv₂⟩, hi₂⟩ :=
    exec_keeps hkeep ⟨hinv₁, hi⟩ (Along.and_forall hother (.always later s₁)) hlater
  refine le_trans ?_ (hinv₂.held hi₂)
  have hrecord₂ : record.cells = it.valueCells := by
    rw [Iterator.valueCells, hvalue]
    rfl
  rw [Iterator.held, hopen, hrecord₂]
  exact it.valueCells_le

/-- An insertion comes after `GetNext`. -/
theorem records_stay_at : ∃ s s₁ s₂ reply,
    exec serve .start [.getRecords 1 [none] [none] none none none] = some s ∧
      perform s (.getNext 0 ⟨[.pair .within], none⟩) = some (reply, s₁) ∧
      exec serve s₁ [.insertRecord true none] = some s₂ ∧
      OwnedRecord.cells ⟨9, ⟨10, [some 11]⟩, 12⟩ ≤ s₂.heap.cells := by
  have hfound : ((exec serve .start [.getRecords 1 [none] [none] none none none]).bind fun s =>
      (perform s (.getNext 0 ⟨[.pair .within], none⟩)).bind fun r =>
        (exec serve r.2 [.insertRecord true none]).map fun _ => r.1.record) =
          some (some ⟨9, ⟨10, [some 11]⟩, 12⟩) := rfl
  obtain ⟨s, hbefore, hfound⟩ := Option.bind_eq_some_iff.mp hfound
  obtain ⟨⟨reply, s₁⟩, hnext, hfound⟩ := Option.bind_eq_some_iff.mp hfound
  obtain ⟨s₂, hlater, hrecord⟩ := Option.map_eq_some_iff.mp hfound
  exact ⟨s, s₁, s₂, reply, hbefore, hnext, hlater,
    records_stay hbefore hnext hrecord hlater (by simp [Concerns])⟩

end Contest.Ownership
