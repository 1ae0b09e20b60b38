import ContestIndex.Results.RangeScan

/-! @src example/Iterator.cc | name:The life of an iterator | layer:results

    An iterator made by `GetRecords` is driven by `GetNext` and given up by `CloseIterator`, while any
    cursor operation may report the end, return an error or throw. `GetNext` asks whether the
    iterator is closed, not whether it has ended, so the flags matter in this way:

        running ──GetNext──▶ running                         cursor_ set
           ├─────GetNext──▶ ended ──GetNext──▶ cursor_->get with cursor_ = NULL
           └─────GetNext──▶ closed ──GetNext──▶ kErrorIteratorClosed -/

namespace Contest
open Schemes

namespace Iterator
variable {F : Faults} {s : IndexStructure} {it : Iterator}

/-! ### One call of `Next` -/

/-- What every outcome of a call of `Next` on an open iterator leaves: the bounds and the handle, and a
    cursor unless the iterator has ended. Only an error closes it. -/
structure Leaves (F : Faults) (it : Iterator) (result : Outcome Bool × Iterator) : Prop where
  comesBack : result.1 ≠ .stuck
  index : result.2.index = it.index
  maxKey : result.2.maxKey = it.maxKey
  cursor : result.2.cursor = none → result.2.ended = true
  notClosed : result.1 = .ret true → result.2.closed = false
  spent : F.thrown .cursorClose = none → it.ended = false → result.2.ended = true →
    result.2.cursor = none

/-- `CloseCursor` touches the cursor only. -/
theorem closeCursor_cases (F : Faults) (it : Iterator) :
    (∃ e, it.closeCursor F = (.throws e, it) ∧ F.thrown .cursorClose = some e) ∨
      it.closeCursor F = (.ret (), { it with cursor := none }) := by
  unfold closeCursor
  rcases hc : it.cursor with _ | position
  · have hsame : { it with cursor := none } = it := by rw [← hc]
    exact Or.inr (by rw [hsame])
  · rcases hF : F.thrown .cursorClose with _ | e
    · exact Or.inr rfl
    · exact Or.inl ⟨e, rfl, rfl⟩

/-- A call of `Next` that could not fetch a pair. -/
theorem fetchFailed_leaves (err : DbError) (hclosed : it.closed = false) :
    Leaves F it (it.fetchFailed F err) := by
  unfold fetchFailed setEnded
  rcases closeCursor_cases F { it with ended := true } with ⟨e, hset, hthrown⟩ | hset
  · rw [hset]
    exact ⟨by simp, rfl, rfl, fun _ => rfl, by simp, by simp [hthrown]⟩
  · rw [hset]
    by_cases herr : err = .DB_NOTFOUND
    · simp only [if_pos herr]
      exact ⟨by simp, rfl, rfl, fun _ => rfl, fun _ => hclosed, fun _ _ _ => rfl⟩
    · -- the cursor is gone already, so `Close` cannot throw
      simp only [if_neg herr, close, hclosed, Bool.false_eq_true, if_false, closeCursor]
      exact ⟨by simp, rfl, rfl, fun _ => rfl, by simp, fun _ _ _ => rfl⟩

theorem onPair_leaves (hlen : it.maxKey.length = s.type.length) (hclosed : it.closed = false)
    (hcursor : it.cursor ≠ none) {n : Nat} {more : Outcome Bool × Iterator} (hmore : Leaves F it more) :
    Leaves F it (it.onPair F s n more) := by
  unfold onPair
  rw [checkBounds_getKey hlen]
  rcases checkBoundsLoop 0 (s.getKey it.key) it.maxKey with _ | index
  · exact ⟨by simp, rfl, rfl, fun hc => absurd hc hcursor, fun _ => hclosed, by simp +contextual⟩
  · by_cases hzero : index = 0
    · simp only [if_pos hzero, setEnded]
      rcases closeCursor_cases F { it with ended := true } with ⟨e, hset, hthrown⟩ | hset
      · rw [hset]
        exact ⟨by simp, rfl, rfl, fun _ => rfl, by simp, by simp [hthrown]⟩
      · rw [hset]
        exact ⟨by simp, rfl, rfl, fun _ => rfl, fun _ => hclosed, fun _ _ _ => rfl⟩
    · simp only [if_neg hzero]
      rcases F (.get n) with _ | ⟨e⟩ | ⟨err⟩
      · exact hmore
      · exact ⟨by simp, rfl, rfl, fun hc => absurd hc hcursor, by simp, by simp +contextual⟩
      · exact fetchFailed_leaves err hclosed

theorem nextLoop_leaves (rest : List Pair) : ∀ {n i : Nat} {it : Iterator},
    it.maxKey.length = s.type.length → it.closed = false → it.cursor ≠ none →
      Leaves F it (nextLoop F s n i it rest) := by
  induction rest with
  | nil =>
    intro n i it hlen hclosed hcursor
    exact onPair_leaves hlen hclosed hcursor (fetchFailed_leaves _ hclosed)
  | cons p rest ih =>
    intro n i it hlen hclosed hcursor
    have hrest := @ih (n + 1) (i + 1) (it.moveTo (i + 1) p) hlen hclosed (by simp [moveTo])
    exact onPair_leaves hlen hclosed hcursor
      ⟨hrest.comesBack, hrest.index, hrest.maxKey, hrest.cursor, hrest.notClosed, hrest.spent⟩

/-- STEP (`Iterator::Next`, whatever fails): with a cursor it comes back. -/
theorem next_leaves (B : BerkeleyDB) (F : Faults) (cmp : Bytes → Bytes → Ordering)
    (pairs : List Pair) (hlen : it.maxKey.length = s.type.length) (hclosed : it.closed = false)
    (hcursor : it.cursor ≠ none) : Leaves F it (it.next B F s cmp pairs) := by
  have hsame : ∀ {it' : Iterator} {result : Outcome Bool × Iterator}, it'.index = it.index →
      it'.maxKey = it.maxKey → it'.ended = it.ended → Leaves F it' result → Leaves F it result := by
    intro it' result hindex hmax hended h
    exact ⟨h.comesBack, h.index.trans hindex, h.maxKey.trans hmax, h.cursor, h.notClosed,
      fun hF hrunning => h.spent hF (hended.trans hrunning)⟩
  unfold next
  split
  · next hnone => exact absurd hnone hcursor
  · split
    · exact ⟨by simp, rfl, rfl, fun hn => absurd hn hcursor, by simp, by simp +contextual⟩
    · refine hsame ?_ ?_ ?_ (fetchFailed_leaves _ hclosed) <;> rfl
    · split
      · simp only
        split
        · exact fetchFailed_leaves _ hclosed
        · refine hsame ?_ ?_ ?_ (nextLoop_leaves _ hlen hclosed (Option.some_ne_none _)) <;> rfl
      · split
        · refine hsame ?_ ?_ ?_ (fetchFailed_leaves _ hclosed) <;> rfl
        · refine hsame ?_ ?_ ?_ (nextLoop_leaves _ hlen hclosed (Option.some_ne_none _)) <;> rfl

end Iterator

/-! ### Driving an iterator -/

namespace World
variable {B : BerkeleyDB} {F : Faults} {w : World} {i : IteratorPtr} {h : IndexPtr}

/-- What a caller of `GetNext` sees: the answer, and the new `*record` if it was written. -/
abbrev Fetched := Answer × Option (Option Record)

/-- A call of `GetNext` on the iterator `i` as a step of a run. -/
def fetch (B : BerkeleyDB) (i : IteratorPtr) (w : World) (F : Faults) : Fetched × World :=
  let ended := w.getNext B F (some i)
  ((ended.1, ended.2.1), ended.2.2)

/-- The end of the range: kErrorNotFound, and NULL in `*record`. -/
def endOfRange : Fetched := (some .kErrorNotFound, some none)

/-- What `GetNext` says about a closed iterator. -/
def iteratorClosed : Fetched := (some .kErrorIteratorClosed, none)

/-- If the iterator has ended, it has been closed. -/
def NotSpent (i : IteratorPtr) (w : World) : Prop :=
  ∀ it, w.iterators i = some it → it.ended = true → it.closed = true

/-- The calls of `GetNext` with the failures `Fs`, and a `CloseIterator` with the failures `F` behind
    them, use nothing that is gone, and the answers keep to the end and to the closing. -/
structure SafeLife (B : BerkeleyDB) (i : IteratorPtr) (w : World) (Fs : List Faults) : Prop where
  comesBack : ∀ a ∈ (run (fetch B i) w Fs).1, a.1 ≠ none
  staysEnded : (run (fetch B i) w Fs).1.Pairwise fun a b => a.1 = some .kErrorNotFound → b = endOfRange
  staysClosed : ∀ front back, Fs = front ++ back →
    (∀ it, (run (fetch B i) w front).2.iterators i = some it → it.closed = true) →
      run (fetch B i) (run (fetch B i) w front).2 back =
        (List.replicate back.length iteratorClosed, (run (fetch B i) w front).2)
  closes : ∀ F : Faults, F.thrown .cursorClose = none →
    ((run (fetch B i) w Fs).2.closeIterator F (some i)).1 ≠ none
  released : ∀ F F' : Faults,
    let closed := (run (fetch B i) w Fs).2.closeIterator F (some i)
    closed.1 ≠ none → closed.2.2.getNext B F' closed.2.1 =
      (some .kErrorIteratorClosed, none, closed.2.2)

/-- What holds of the iterator `i` between two calls. -/
structure Driven (i : IteratorPtr) (h : IndexPtr) (o : Opened) (w : World) (it : Iterator) : Prop where
  here : w.iterators i = some it
  opened : w.opened h = some o
  index : it.index = h
  maxKey : it.maxKey.length = o.s.type.length
  cursor : it.cursor = none → it.ended = true

variable {o : Opened} {it : Iterator}

/-- The iterator that a successful `GetRecords` makes. -/
theorem getRecords_driven {v : World} {tx : Option TxnPtr} {minKeys maxKeys : Key}
    {var : Option IteratorPtr}
    (hmade : v.getRecords F tx (some h) minKeys maxKeys (some var) = (some .kOk, some (some i), w)) :
    ∃ o it, Driven i h o w it ∧ it.ended = false := by
  unfold getRecords at hmade
  rcases hidx : v.handles h with _ | idx
  · simp [hidx] at hmade
  simp only [hidx] at hmade
  split at hmade
  · simp at hmade
  split at hmade
  · next hmin hmax =>
    rcases ho : v.opened h with _ | o
    · simp [ho] at hmade
    rcases hthrown : F.thrown .cursor with _ | e
    · simp only [ho, hthrown, Prod.mk.injEq, Option.some.injEq, true_and] at hmade
      obtain ⟨rfl, rfl⟩ := hmade
      obtain ⟨hhandle, hstructure, hlive, -⟩ := opened_eq_some ho
      obtain rfl : o.index = idx := Option.some.inj (hhandle.symm.trans hidx)
      refine ⟨o, _, ⟨Function.update_self .., ho, rfl, ?_, by simp⟩, rfl⟩
      next hopen =>
        simp only [compatible, hidx, hopen, Bool.false_eq_true, if_false, hstructure,
          Option.bind_some, hlive, Outcome.ret.injEq, decide_eq_true_eq] at hmax
        exact hmax
    · -- the caller's old iterator is closed, but the answer is not kOk
      simp only [ho, hthrown] at hmade
      have hcode : catchRead e ≠ .kOk := by cases e <;> simp [catchRead]
      split at hmade
      · simp [hcode] at hmade
      · split at hmade
        · simp at hmade
        · split at hmade <;> simp [hcode] at hmade
  · simp at hmade
  · simp at hmade

/-- A closed iterator stays as it is. -/
theorem fetch_closed (B : BerkeleyDB) (F : Faults) (hi : w.iterators i = some it)
    (hclosed : it.closed = true) : fetch B i w F = (iteratorClosed, w) := by
  simp [fetch, getNext, hi, hclosed, iteratorClosed]

theorem run_fetch_closed (B : BerkeleyDB) (hi : w.iterators i = some it)
    (hclosed : it.closed = true) (Fs : List Faults) :
    run (fetch B i) w Fs = (List.replicate Fs.length iteratorClosed, w) := by
  induction Fs with
  | nil => rfl
  | cons F Fs ih => rw [run_cons, fetch_closed B F hi hclosed, ih]; rfl

/-- What a call of `GetNext` on an open iterator with a cursor does. -/
structure Fetches (F : Faults) (i : IteratorPtr) (h : IndexPtr) (o : Opened) (it : Iterator)
    (result : Fetched × World) (it' : Iterator) : Prop where
  driven : Driven i h o result.2 it'
  comesBack : result.1.1 ≠ none
  ended : result.1.1 = some .kErrorNotFound →
    result.1 = endOfRange ∧ it'.ended = true ∧ it'.closed = false
  spent : F.thrown .cursorClose = none → it.ended = false → it'.ended = true → it'.cursor = none

/-- STEP (`GetNext`, whatever fails). -/
theorem fetch_open (B : BerkeleyDB) (F : Faults) (hd : Driven i h o w it)
    (hopen : it.closed = false) (hcursor : it.cursor ≠ none) :
    ∃ it', Fetches F i h o it (fetch B i w F) it' := by
  have hleaves := Iterator.next_leaves B F o.cmp o.pairs hd.maxKey hopen hcursor
  have hopened : w.opened it.index = some o := by rw [hd.index]; exact hd.opened
  rcases hnext : it.next B F o.s o.cmp o.pairs with ⟨outcome, it'⟩
  rw [hnext] at hleaves
  have hdriven : Driven i h o (w.setIterator i it') it' :=
    ⟨Function.update_self .., hd.opened, hleaves.index.trans hd.index, by
      rw [hleaves.maxKey]; exact hd.maxKey, hleaves.cursor⟩
  refine ⟨it', ?_⟩
  rcases outcome with found | e | _
  · cases found with
    | true =>
      by_cases hended : it'.ended = true
      · have hcall : fetch B i w F = (endOfRange, w.setIterator i it') := by
          simp [fetch, getNext, hd.here, hopen, hopened, hnext, hended, endOfRange]
        rw [hcall]
        exact ⟨hdriven, by simp [endOfRange], fun _ => ⟨rfl, hended, hleaves.notClosed rfl⟩,
          hleaves.spent⟩
      · have hcall : fetch B i w F = ((some .kOk, some (it'.record o.s)), w.setIterator i it') := by
          simp [fetch, getNext, hd.here, hopen, hopened, hnext, hended]
        rw [hcall]
        exact ⟨hdriven, by simp, by simp, hleaves.spent⟩
    | false =>
      have hcall : fetch B i w F = ((some .kErrorGenericFailure, none), w.setIterator i it') := by
        simp [fetch, getNext, hd.here, hopen, hopened, hnext]
      rw [hcall]
      exact ⟨hdriven, by simp, by simp, hleaves.spent⟩
  · have hcall : fetch B i w F = ((some (catchRead e), none), w.setIterator i it') := by
      simp [fetch, getNext, hd.here, hopen, hopened, hnext]
    rw [hcall]
    exact ⟨hdriven, by simp, by cases e <;> simp [catchRead], hleaves.spent⟩
  · exact absurd rfl hleaves.comesBack

/-- The call that follows a NULL cursor does not come back. -/
theorem fetch_stuck (B : BerkeleyDB) (F : Faults) (hd : Driven i h o w it)
    (hopen : it.closed = false) (hcursor : it.cursor = none) :
    fetch B i w F = ((none, none), w.setIterator i it) := by
  have hopened : w.opened it.index = some o := by rw [hd.index]; exact hd.opened
  simp [fetch, getNext, hd.here, hopen, hopened, Iterator.next, hcursor]

/-! ### Runs -/

/-- Whatever happens, the iterator keeps its handle and its bounds. -/
theorem fetch_driven (B : BerkeleyDB) (F : Faults) (hd : Driven i h o w it) :
    ∃ it', Driven i h o (fetch B i w F).2 it' := by
  rcases hopen : it.closed with _ | _
  · rcases hcursor : it.cursor with _ | position
    · rw [fetch_stuck B F hd hopen hcursor]
      exact ⟨it, Function.update_self .., hd.opened, hd.index, hd.maxKey, hd.cursor⟩
    · obtain ⟨it', hf⟩ := fetch_open B F hd hopen (by simp [hcursor])
      exact ⟨it', hf.driven⟩
  · rw [fetch_closed B F hd.here hopen]
    exact ⟨it, hd⟩

theorem run_driven (B : BerkeleyDB) (Fs : List Faults) : ∀ {w : World} {it : Iterator},
    Driven i h o w it → ∃ it', Driven i h o (run (fetch B i) w Fs).2 it' := by
  induction Fs with
  | nil => exact fun hd => ⟨_, hd⟩
  | cons F Fs ih =>
    intro w it hd
    obtain ⟨it', hd'⟩ := fetch_driven B F hd
    exact ih hd'

/-- RUN: while no call comes on a spent iterator, every call comes back, and kErrorNotFound is the
    last answer. -/
theorem run_answers (B : BerkeleyDB) (Fs : List Faults) : ∀ {w : World} {it : Iterator},
    Driven i h o w it → Admissible (fun w _ => NotSpent i w) (fetch B i) w Fs →
      (∀ a ∈ (run (fetch B i) w Fs).1, a.1 ≠ none) ∧
        (run (fetch B i) w Fs).1.Pairwise
          fun a b => a.1 = some .kErrorNotFound → b = endOfRange := by
  induction Fs with
  | nil => exact fun _ _ => ⟨by simp, .nil⟩
  | cons F Fs ih =>
    intro w it hd hadm
    rcases hopen : it.closed with _ | _
    · have hcursor : it.cursor ≠ none := by
        intro hnone
        have hclosed := hadm.1 it hd.here (hd.cursor hnone)
        rw [hopen] at hclosed
        contradiction
      obtain ⟨it', hf⟩ := fetch_open B F hd hopen hcursor
      obtain ⟨hback, hpairs⟩ := ih hf.driven hadm.2
      refine ⟨List.forall_mem_cons.mpr ⟨hf.comesBack, hback⟩, List.pairwise_cons.mpr ⟨?_, hpairs⟩⟩
      intro b hb hend
      -- a further call would come on a spent iterator
      obtain ⟨-, hended, hnotClosed⟩ := hf.ended hend
      rcases Fs with _ | ⟨F', Fs⟩
      · simp at hb
      · have hclosed := hadm.2.1 it' hf.driven.here hended
        rw [hnotClosed] at hclosed
        contradiction
    · rw [run_fetch_closed B hd.here hopen]
      refine ⟨fun a ha => ?_, ?_⟩
      · rw [List.eq_of_mem_replicate ha]
        simp [iteratorClosed]
      · exact List.pairwise_replicate.mpr (Or.inr (by simp [iteratorClosed]))

/-- RUN: if no close of the cursor throws, only a spent iterator keeps `GetNext` from coming back. -/
theorem run_notSpent (B : BerkeleyDB) (Fs : List Faults) : ∀ {w : World} {it : Iterator},
    Driven i h o w it → (it.ended = true → it.closed = false → it.cursor = none) →
      (∀ F ∈ Fs, F.thrown .cursorClose = none) → (∀ a ∈ (run (fetch B i) w Fs).1, a.1 ≠ none) →
        Admissible (fun w _ => NotSpent i w) (fetch B i) w Fs := by
  induction Fs with
  | nil => exact fun _ _ _ _ => trivial
  | cons F Fs ih =>
    intro w it hd hspent hcloses hback
    obtain ⟨hF, hFs⟩ := List.forall_mem_cons.mp hcloses
    obtain ⟨hfirst, hrest⟩ := List.forall_mem_cons.mp hback
    rcases hopen : it.closed with _ | _
    · have hcursor : it.cursor ≠ none := by
        intro hnone
        rw [fetch_stuck B F hd hopen hnone] at hfirst
        exact hfirst rfl
      have hrunning : it.ended = false := by
        by_contra hended
        exact hcursor (hspent (by simpa using hended) hopen)
      obtain ⟨it', hf⟩ := fetch_open B F hd hopen hcursor
      refine ⟨fun it₁ hit₁ hended => ?_, ih hf.driven (fun he _ => hf.spent hF hrunning he) hFs hrest⟩
      obtain rfl : it₁ = it := Option.some.inj (hit₁.symm.trans hd.here)
      rw [hrunning] at hended
      contradiction
    · refine ⟨fun it₁ hit₁ _ => ?_, ?_⟩
      · obtain rfl : it₁ = it := Option.some.inj (hit₁.symm.trans hd.here)
        exact hopen
      · rw [fetch_closed B F hd.here hopen] at hrest ⊢
        exact ih hd hspent hFs hrest

/-- `CloseIterator` comes back unless the cursor's close throws, and leaves NULL behind. -/
theorem closeIterator_driven (hd : Driven i h o w it) (F : Faults) :
    (F.thrown .cursorClose = none → (w.closeIterator F (some i)).1 ≠ none) ∧
      ((w.closeIterator F (some i)).1 ≠ none → (w.closeIterator F (some i)).2.1 = none) := by
  rcases hopen : it.closed with _ | _
  · have hclose : it.close F = { it with closed := true }.closeCursor F := by
      simp [Iterator.close, hopen]
    rcases Iterator.closeCursor_cases F { it with closed := true } with ⟨e, hcursor, hthrown⟩ | hcursor
    · simp [closeIterator, hd.here, hopen, hclose, hcursor, hthrown]
    · simp [closeIterator, hd.here, hopen, hclose, hcursor]
  · simp [closeIterator, hd.here, hopen]

theorem safeLife_of_answers (B : BerkeleyDB) (hd : Driven i h o w it) {Fs : List Faults}
    (hback : ∀ a ∈ (run (fetch B i) w Fs).1, a.1 ≠ none)
    (hends : (run (fetch B i) w Fs).1.Pairwise
      fun a b => a.1 = some .kErrorNotFound → b = endOfRange) : SafeLife B i w Fs where
  comesBack := hback
  staysEnded := hends
  staysClosed := by
    rintro front back rfl hclosed
    obtain ⟨it', hd'⟩ := run_driven B front hd
    exact run_fetch_closed B hd'.here (hclosed it' hd'.here) back
  closes := by
    intro F hF
    obtain ⟨it', hd'⟩ := run_driven B Fs hd
    exact (closeIterator_driven hd' F).1 hF
  released := by
    intro F F' closed hanswer
    obtain ⟨it', hd'⟩ := run_driven B Fs hd
    have hnull : closed.2.1 = none := (closeIterator_driven hd' F).2 hanswer
    rw [hnull]
    rfl

/-- DIVERGES: the life of an iterator made by `GetRecords` is safe if no call of `GetNext` comes on it
    after it has ended and before it is closed; as long as no close of the cursor throws, only if. -/
theorem life_cycle_safe (B : BerkeleyDB) {v w : World} {F₀ : Faults} {tx : Option TxnPtr}
    {h : IndexPtr} {minKeys maxKeys : Key} {var : Option IteratorPtr} {i : IteratorPtr}
    (hmade : v.getRecords F₀ tx (some h) minKeys maxKeys (some var) = (some .kOk, some (some i), w))
    (Fs : List Faults) :
    (Admissible (fun w _ => NotSpent i w) (fetch B i) w Fs → SafeLife B i w Fs) ∧
      ((∀ F ∈ Fs, F.thrown .cursorClose = none) → SafeLife B i w Fs →
        Admissible (fun w _ => NotSpent i w) (fetch B i) w Fs) := by
  obtain ⟨o, it, hd, hrunning⟩ := getRecords_driven hmade
  constructor
  · intro hadm
    obtain ⟨hback, hends⟩ := run_answers B Fs hd hadm
    exact safeLife_of_answers B hd hback hends
  · intro hcloses hsafe
    have hspent : it.ended = true → it.closed = false → it.cursor = none := by simp [hrunning]
    exact run_notSpent B Fs hd hspent hcloses hsafe.comesBack

/-- The second `GetNext` on an empty index. -/
theorem spent_iterator_dereferences_null :
    ∃ w, (single [.kShort] []).getRecords noFaults none (some 1) (shortKey 0) (shortKey 2)
        (some none) = (some .kOk, some (some 2), w) ∧
      (run (fetch .plain 2) w [noFaults, noFaults]).1 = [endOfRange, (none, none)] ∧
      ¬SafeLife .plain 2 w [noFaults, noFaults] := by
  have hanswers : ∀ w, (single [.kShort] []).getRecords noFaults none (some 1) (shortKey 0)
      (shortKey 2) (some none) = (some .kOk, some (some 2), w) →
        (run (fetch .plain 2) w [noFaults, noFaults]).1 = [endOfRange, (none, none)] := by
    rintro w ⟨⟩
    rfl
  refine ⟨_, rfl, hanswers _ rfl, fun hsafe => ?_⟩
  have hback := hsafe.comesBack (none, none)
  rw [hanswers _ rfl] at hback
  exact hback (by simp) rfl

/-- A `GetNext` that fails with a deadlock, and one that finds the end. -/
theorem life_cycle_safe_at :
    ∃ w, (single [.kShort] []).getRecords noFaults none (some 1) (shortKey 0) (shortKey 2)
        (some none) = (some .kOk, some (some 2), w) ∧
      SafeLife .plain 2 w
        [fun site => if site = .get 0 then some (.throws .DbDeadlockException) else none, noFaults] := by
  have hsafe := @life_cycle_safe .plain (single [.kShort] []) _ noFaults none 1 (shortKey 0)
    (shortKey 2) none 2 rfl
  refine ⟨_, rfl, (hsafe _).1 ⟨?_, ?_, trivial⟩⟩
  · rintro it ⟨⟩ hended
    cases hended
  · rintro it ⟨⟩ hended
    cases hended

/-! ### A `GetRecords` that fails -/

/-- The call has answered with an error and has left the iterators that existed before it alone. -/
def Spared (w : World) (ended : Answer × Option (Option IteratorPtr) × World) : Prop :=
  (ended.1 = some .kErrorDeadlock ∨ ended.1 = some .kErrorGenericFailure) ∧
    ∀ i it, w.iterators i = some it → ended.2.2.iterators i = some it

/-- `GetRecords` up to the `catch` blocks. -/
theorem getRecords_thrown {tx : Option TxnPtr} {minKeys maxKeys : Key} {e : DbException}
    (ho : w.opened h = some o) (hmin : w.compatible h minKeys = .ret true)
    (hmax : w.compatible h maxKeys = .ret true) (hthrown : F.thrown .cursor = some e)
    (var : Option IteratorPtr) :
    w.getRecords F tx (some h) minKeys maxKeys (some var) =
      match var with
      | none => (some (catchRead e), some none, w)
      | some i =>
        match w.iterators i with
        | none => (none, some var, w)
        | some old =>
          match old.close F with
          | (.ret _, old) => (some (catchRead e), some var, w.setIterator i old)
          | (_, old) => (none, some var, w.setIterator i old) := by
  obtain ⟨hhandle, -⟩ := opened_eq_some ho
  have hopen : o.index.closed = false := by
    rcases hclosed : o.index.closed with _ | _
    · rfl
    · simp [compatible, hhandle, hclosed] at hmin
  cases var with
  | none => simp only [getRecords, hhandle, hopen, Bool.false_eq_true, if_false, hmin, hmax, ho, hthrown]
  | some i =>
    rcases hold : w.iterators i with _ | old
    · simp only [getRecords, hhandle, hopen, Bool.false_eq_true, if_false, hmin, hmax, ho, hthrown, hold]
    · rcases hclose : old.close F with ⟨_ | _ | _, closed⟩ <;>
        simp only [getRecords, hhandle, hopen, Bool.false_eq_true, if_false, hmin, hmax, ho, hthrown,
          hold, hclose]

theorem catchRead_cases (e : DbException) :
    some (catchRead e) = some ErrorCode.kErrorDeadlock ∨
      some (catchRead e) = some ErrorCode.kErrorGenericFailure := by
  cases e <;> simp [catchRead]

/-- `Iterator::Close` never leaves an iterator as it was and comes back. -/
theorem close_changes {old old' : Iterator} (hclose : old.close F = (.ret (), old')) : old' ≠ old := by
  rintro rfl
  rcases hopen : old'.closed with _ | _
  · rcases Iterator.closeCursor_cases F { old' with closed := true } with ⟨e, hcursor, -⟩ | hcursor
    · simp [Iterator.close, hopen, hcursor] at hclose
    · simp only [Iterator.close, hopen, Bool.false_eq_true, if_false, hcursor, Prod.mk.injEq,
        true_and] at hclose
      have hclosed := congrArg Iterator.closed hclose
      rw [hopen] at hclosed
      contradiction
  · simp [Iterator.close, hopen] at hclose

/-- DIVERGES: when the constructor of the new iterator throws, the call spares the old iterators if and
    only if the caller's variable is NULL; what it points to otherwise is closed, if that is possible. -/
theorem failed_get_records_spares_iff {tx : Option TxnPtr} {minKeys maxKeys : Key} {e : DbException}
    (ho : w.opened h = some o) (hmin : w.compatible h minKeys = .ret true)
    (hmax : w.compatible h maxKeys = .ret true) (hthrown : F.thrown .cursor = some e)
    (var : Option IteratorPtr) :
    Spared w (w.getRecords F tx (some h) minKeys maxKeys (some var)) ↔ var = none := by
  rw [getRecords_thrown ho hmin hmax hthrown]
  rcases var with _ | i
  · exact ⟨fun _ => rfl, fun _ => ⟨catchRead_cases e, fun _ _ hi => hi⟩⟩
  refine ⟨fun hspared => ?_, fun hnull => by contradiction⟩
  rcases hi : w.iterators i with _ | old
  · simp [Spared, hi] at hspared
  rcases hclose : old.close F with ⟨_ | _ | _, old'⟩
  · have hkept := hspared.2 i old hi
    simp only [hi, hclose, setIterator, Function.update_self, Option.some.injEq] at hkept
    exact absurd hkept (close_changes hclose)
  · simp [Spared, hi, hclose] at hspared
  · simp [Spared, hi, hclose] at hspared

/-- Opening a cursor fails. -/
def failingCursor : Faults := fun site =>
  if site = .cursor then some (.throws .DbDeadlockException) else none

/-- The caller passes the iterator of an earlier call: it is closed, and closed again the next time. -/
theorem failed_get_records_closes_old :
    let get := fun (F : Faults) (w : World) (var : Option IteratorPtr) =>
      w.getRecords F none (some 1) (shortKey 0) (shortKey 2) (some var)
    let made := get noFaults (single [.kShort] []) none
    let failed := get failingCursor made.2.2 (some 2)
    made.2.1 = some (some 2) ∧ (made.2.2.iterators 2).map (·.closed) = some false ∧
      failed.1 = some .kErrorDeadlock ∧ (failed.2.2.iterators 2).map (·.closed) = some true ∧
      ¬Spared made.2.2 failed ∧ (get failingCursor failed.2.2 (some 2)).1 = none := by
  intro get made failed
  have hopen : (made.2.2.iterators 2).map (·.closed) = some false := rfl
  have hclosed : (failed.2.2.iterators 2).map (·.closed) = some true := by decide +kernel
  refine ⟨rfl, hopen, by decide +kernel, hclosed, fun hspared => ?_, by decide +kernel⟩
  obtain ⟨it, hit, hrunning⟩ := Option.map_eq_some_iff.mp hopen
  rw [hspared.2 2 it hit, Option.map_some, hrunning] at hclosed
  contradiction

/-- Iterator 2 stays as it is when the variable is fresh, and does not when it is passed again. -/
theorem failed_get_records_spares_iff_at :
    let get := fun (F : Faults) (w : World) (var : Option IteratorPtr) =>
      w.getRecords F none (some 1) (shortKey 0) (shortKey 2) (some var)
    let w := (get noFaults (single [.kShort] [shortPair 1 [7]]) none).2.2
    (w.iterators 2).map (·.closed) = some false ∧
      (get failingCursor w none).2.2.iterators 2 = w.iterators 2 ∧
      ¬Spared w (get failingCursor w (some 2)) := by
  intro get w
  have ho : w.opened 1 = some (singleOpened [.kShort] [shortPair 1 [7]]) := rfl
  have hspares : ∀ var, Spared w (get failingCursor w var) ↔ var = none :=
    failed_get_records_spares_iff ho rfl rfl rfl
  have hopen : (w.iterators 2).map (·.closed) = some false := rfl
  obtain ⟨it, hit, -⟩ := Option.map_eq_some_iff.mp hopen
  refine ⟨hopen, ?_, fun hspared => ?_⟩
  · rw [hit]
    exact ((hspares none).mpr rfl).2 2 it hit
  · have hnull := (hspares (some 2)).mp hspared
    contradiction

end World

end Contest
