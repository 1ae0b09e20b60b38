import ContestIndex.Results.Sound

/-! @src example/Iterator.cc | name:Iterators and what they depend on | layer:results

    An iterator needs its transaction, its handle and its index. The documentation promises that ending
    one of these closes the iterators that need it, but nothing in the code knows them: the
    registration in the iterator's constructor and the loop of `Index::Close` are commented out.
    Beside a run, `orphaned` records the iterators that have lost what they need.

        GetRecords(tx, idx) ──▶ it          CommitTransaction(tx), AbortTransaction(tx)  ─┐
                                            CloseIndex(idx), DeleteIndex(name of idx)    ─┴─▶ orphan -/

namespace Contest
open Schemes

namespace World
variable {B : BerkeleyDB} {F : Faults} {w w' : World} {i : IteratorPtr} {it : Iterator}

/-- The iterator needs what the call is about to end. -/
def Needs (w : World) (it : Iterator) : Call → Prop
  | .abortTransaction (some t) | .commitTransaction (some t) => it.txn = some t
  | .closeIndex (some h) => it.index = h
  | .deleteIndex name => ∃ idx, w.handles it.index = some idx ∧ idx.name = name
  | _ => False

/-- Nothing keeps the call from ending it: neither an exception of Berkeley DB nor, for an index, that it
    is unknown, closed already, or being modified by open transactions. -/
def GoesThrough (F : Faults) (w : World) : Call → Prop
  | .abortTransaction _ => F.thrown .txnAbort = none
  | .commitTransaction _ => F.thrown .txnCommit = none
  | .closeIndex (some h) => ∃ idx, w.handles h = some idx ∧ idx.closed = false ∧
      (idx.db = true → F.thrown (.dbClose h) = none)
  | .deleteIndex name => ∃ p s, w.find name = some p ∧ w.structures p = some s ∧
      s.transactions = ∅ ∧ F.thrown .dbremove = none
  | _ => False

/-- The client has closed all iterators that need what the call is about to end. -/
def Spares (w : World) (c : Faults × Call) : Prop :=
  GoesThrough c.1 w c.2 → ∀ i it, w.iterators i = some it → w.Needs it c.2 → it.closed = true

/-- The iterators that have lost what they need, after a call with this answer. -/
def orphaned (w : World) (answer : Answer) (orphans : Set IteratorPtr) (c : Call) :
    Set IteratorPtr :=
  orphans ∪ {i | answer = some .kOk ∧ ∃ it, w.iterators i = some it ∧ w.Needs it c}

/-- A call in which anything may fail, with the record beside it. -/
def observed (B : BerkeleyDB) (st : World × Set IteratorPtr) (c : Faults × Call) :
    Answer × World × Set IteratorPtr :=
  let ended := faultyCall B st.1 c
  (ended.1, ended.2, orphaned st.1 ended.1 st.2 c.2)

/-! ### What the calls do to iterators -/

/-- Objects keep their addresses, and no closed iterator is opened again. -/
structure Lasting (w w' : World) : Prop where
  free : w.free ≤ w'.free
  iterators : ∀ i it', w'.iterators i = some it' →
    (∃ it, w.iterators i = some it ∧ (it.closed = true → it'.closed = true)) ∨
      w.free ≤ i ∧ i < w'.free

namespace Lasting

theorem of_eq (hi : w'.iterators = w.iterators) (hfree : w.free ≤ w'.free) : Lasting w w' :=
  ⟨hfree, fun i it' hit' => Or.inl ⟨it', by rw [← hi, hit'], id⟩⟩

theorem refl (w : World) : Lasting w w := of_eq rfl le_rfl

theorem set (hi : w.iterators i = some it) {it' : Iterator}
    (hclosed : it.closed = true → it'.closed = true) : Lasting w (w.setIterator i it') where
  free := le_rfl
  iterators := by
    intro j it₁ hj
    rcases eq_or_ne j i with rfl | hne
    · obtain rfl : it' = it₁ := by simpa [setIterator] using hj
      exact Or.inl ⟨it, hi, hclosed⟩
    · exact Or.inl ⟨it₁, by simpa [setIterator, hne] using hj, id⟩

/-- Moving the cursors does not reopen an iterator. -/
theorem follow (hl : Lasting w w') (B : BerkeleyDB) (h : IndexPtr) (m : Modification) :
    Lasting w (w.follow B h m w') := by
  obtain ⟨g, hfollow⟩ := follow_shifted B w h m w'
  rw [hfollow]
  refine ⟨hl.free, fun i it' hit' => ?_⟩
  obtain ⟨it, hit, rfl⟩ := shifted_iterators.mp hit'
  exact hl.iterators i it hit

end Lasting

theorem closeTransaction_lasting (w : World) (t : TxnPtr) : Lasting w (w.closeTransaction t) := by
  rw [closeTransaction_eq]
  exact .of_eq rfl le_rfl

theorem abortTransaction_lasting (F : Faults) (w : World) (tx : Option TxnPtr) :
    Lasting w (w.abortTransaction F tx).2.2 := by
  rcases abortTransaction_cases F w tx with hsame | ⟨t, -, haborted⟩
  · rw [hsame]
    exact .refl w
  · rw [haborted]
    have hclosed := closeTransaction_lasting (w.setEnv (w.env.abort t)) t
    exact ⟨hclosed.free, hclosed.iterators⟩

theorem commitTransaction_lasting (F : Faults) (w : World) (tx : Option TxnPtr) :
    Lasting w (w.commitTransaction F tx).2.2 := by
  rcases commitTransaction_cases F w tx with hsame | ⟨t, -, haborted | hagain | hcommitted⟩
  · rw [hsame]
    exact .refl w
  · rw [haborted]
    exact .of_eq rfl le_rfl
  · rw [hagain]
    have hlasting := abortTransaction_lasting F (w.setEnv (w.env.abort t)) (some t)
    exact ⟨hlasting.free, hlasting.iterators⟩
  · rw [hcommitted]
    have hclosed := closeTransaction_lasting (w.setEnv (w.env.commit t)) t
    exact ⟨hclosed.free, hclosed.iterators⟩

theorem createIndex_lasting (F : Faults) (w : World) (name : String)
    (types : Option (List AttributeType)) : Lasting w (w.createIndex F name types).2 := by
  rcases createIndex_cases F w name types with ⟨code, -, hsame⟩ | ⟨ts, -, -, -, -, hcreated⟩
  · rw [hsame]
    exact .refl w
  · rw [hcreated]
    exact .of_eq rfl (Nat.le_succ _)

theorem openIndex_lasting (F : Faults) (w : World) (name : String) :
    Lasting w (w.openIndex F name).2.2 := by
  have hopen : (w.openHandle F name).2.2.iterators = w.iterators ∧
      (w.openHandle F name).2.2.free = w.free + 1 := by
    unfold openHandle
    simp only
    repeat' split
    all_goals exact ⟨rfl, rfl⟩
  have hlasting : Lasting w (w.openHandle F name).2.2 :=
    .of_eq hopen.1 ((Nat.le_succ _).trans hopen.2.ge)
  rcases openIndex_cases F w name with hsame | hended | hdeleted
  · rw [hsame]
    exact .refl w
  · rwa [hended]
  · rw [hdeleted]
    exact ⟨hlasting.free, hlasting.iterators⟩

/-- Closing handles leaves the iterators alone. -/
theorem closeHandle_iterators (F : Faults) (w : World) (h : IndexPtr) :
    (w.closeHandle F h).2.iterators = w.iterators ∧ (w.closeHandle F h).2.free = w.free := by
  unfold closeHandle
  simp only
  repeat' split
  all_goals exact ⟨rfl, rfl⟩

theorem closeHandles_iterators (F : Faults) (hs : List IndexPtr) : ∀ w : World,
    (closeHandles F hs w).2.iterators = w.iterators ∧ (closeHandles F hs w).2.free = w.free := by
  induction hs with
  | nil => exact fun w => ⟨rfl, rfl⟩
  | cons h hs ih =>
    intro w
    have hone := closeHandle_iterators F w h
    unfold closeHandles
    split
    · next heq =>
      rw [heq] at hone
      exact ⟨(ih _).1.trans hone.1, (ih _).2.trans hone.2⟩
    · exact hone

theorem closeIndex_lasting (F : Faults) (w : World) (idx : Option IndexPtr) :
    Lasting w (w.closeIndex F idx).2.2 := by
  unfold closeIndex
  split
  · exact .refl w
  · next h =>
    split
    · exact .refl w
    · have hclosed := closeHandle_iterators F w h
      simp only
      split <;> exact .of_eq hclosed.1 hclosed.2.ge

theorem deleteIndex_lasting (F : Faults) (w : World) (name : String) :
    Lasting w (w.deleteIndex F name).2 := by
  have hremove : (w.remove F name).2.iterators = w.iterators ∧
      (w.remove F name).2.free = w.free := by
    unfold remove
    split
    · exact ⟨rfl, rfl⟩
    · next p _ =>
      split
      · exact ⟨rfl, rfl⟩
      · next s _ =>
        split
        · have hclosed := closeHandles_iterators F (s.handles.sort (· ≤ ·))
            (w.setStructure p s.makeReadOnly.2)
          split
          all_goals
            next heq =>
              rw [destroyStructure, Prod.mk.injEq] at heq
              obtain ⟨-, rfl⟩ := heq
              exact hclosed
        · exact ⟨rfl, rfl⟩
  rcases deleteIndex_cases F w name with hsame | hended | ⟨v, hv, hdeleted⟩
  · rw [hsame]
    exact .refl w
  · rw [hended]
    exact .of_eq hremove.1 hremove.2.ge
  · rw [hv] at hremove
    rw [hdeleted]
    exact .of_eq hremove.1 hremove.2.ge

theorem modify_lasting (B : BerkeleyDB) (F : Faults) (w : World) (tx : Option TxnPtr) (h : IndexPtr)
    (m : Modification) : Lasting w (w.modify B F tx h m).2 := by
  rcases modify_worked B F w tx h m with hsame | ⟨o, env, txns, -, -, hafter⟩
  · rw [hsame]
    exact .refl w
  · rw [hafter]
    exact .of_eq rfl le_rfl

theorem getRecords_lasting (F : Faults) (w : World) (tx : Option TxnPtr) (idx : Option IndexPtr)
    (minKeys maxKeys : Key) (var : Option (Option IteratorPtr)) :
    Lasting w (w.getRecords F tx idx minKeys maxKeys var).2.2 := by
  have hclose : ∀ {i : IteratorPtr} {old : Iterator}, w.iterators i = some old →
      ∀ {outcome : Outcome Unit} {old' : Iterator}, old.close F = (outcome, old') →
        Lasting w (w.setIterator i old') := by
    intro i old hi outcome old' hclose
    refine .set hi fun hclosed => ?_
    rw [Iterator.close, if_pos hclosed, Prod.mk.injEq] at hclose
    rw [← hclose.2, hclosed]
  have hmade : ∀ h s, Lasting w (w.newIterator tx h s minKeys maxKeys).2 := by
    intro h s
    refine ⟨Nat.le_succ _, fun i it hi => ?_⟩
    rcases eq_or_ne i w.free with rfl | hne
    · exact Or.inr ⟨le_rfl, Nat.lt_succ_self _⟩
    · exact Or.inl ⟨it, by simpa [newIterator, setIterator, hne] using hi, id⟩
  unfold getRecords
  simp only
  repeat' split
  all_goals first
    | exact .refl w
    | exact hmade _ _
    | exact hclose ‹_› ‹_›

/-- Neither call opens an iterator again. -/
theorem getNext_lasting (B : BerkeleyDB) (F : Faults) (w : World) (var : Option IteratorPtr) :
    Lasting w (w.getNext B F var).2.2 := by
  unfold getNext
  split
  · exact .refl w
  · next i =>
    split
    · exact .refl w
    · next it hi =>
      split
      · exact .refl w
      · next hopen =>
        have hset : ∀ it', Lasting w (w.setIterator i it') := fun it' =>
          .set hi fun hclosed => absurd hclosed hopen
        repeat' split
        all_goals first
          | exact .refl w
          | exact hset _

theorem closeIterator_lasting (F : Faults) (w : World) (var : Option IteratorPtr) :
    Lasting w (w.closeIterator F var).2.2 := by
  have hgone : ∀ i, Lasting w { w with iterators := Function.update w.iterators i none } := by
    intro i
    refine ⟨le_rfl, fun j it hj => ?_⟩
    rcases eq_or_ne j i with rfl | hne
    · simp at hj
    · exact Or.inl ⟨it, by simpa [hne] using hj, id⟩
  unfold closeIterator
  split
  · exact .refl w
  · next i =>
    split
    · exact .refl w
    · next it hi =>
      split
      · exact hgone i
      · next hopen =>
        split
        · exact hgone i
        · exact .set hi fun hclosed => absurd hclosed hopen

/-- STEP: no call reopens an iterator, whatever fails in it. -/
theorem perform_lasting (B : BerkeleyDB) (F : Faults) (w : World) (c : Call) :
    Lasting w (w.perform B F c).2 := by
  cases c with
  | beginTransaction =>
    simp only [perform, beginTransaction]
    split
    · exact .refl w
    · exact .refl w
    · exact .of_eq rfl le_rfl
  | abortTransaction tx => exact abortTransaction_lasting F w tx
  | commitTransaction tx => exact commitTransaction_lasting F w tx
  | createIndex name types => exact createIndex_lasting F w name types
  | openIndex name => exact openIndex_lasting F w name
  | closeIndex idx => exact closeIndex_lasting F w idx
  | deleteIndex name => exact deleteIndex_lasting F w name
  | modify tx idx m => exact (modify_lasting B F w tx idx m).follow B idx m
  | getRecords tx idx minKeys maxKeys var => exact getRecords_lasting F w tx idx minKeys maxKeys var
  | getNext var => exact getNext_lasting B F w var
  | closeIterator var => exact closeIterator_lasting F w var

/-! ### When a call goes through -/

theorem commitTransaction_kOk {t : TxnPtr}
    (h : (w.commitTransaction F (some t)).1 = some .kOk) : F.thrown .txnCommit = none := by
  unfold commitTransaction at h
  simp only at h
  split at h
  · simp at h
  · split at h
    · simp at h
    · split at h
      · simp at h
      · simp at h
      · simp at h
    · next hnone => exact hnone

theorem abortTransaction_kOk {t : TxnPtr}
    (h : (w.abortTransaction F (some t)).1 = some .kOk) : F.thrown .txnAbort = none := by
  unfold abortTransaction at h
  simp only at h
  split at h
  · simp at h
  · split at h
    · simp at h
    · next hnone => exact hnone

theorem closeIndex_kOk {h : IndexPtr} (hcode : (w.closeIndex F (some h)).1 = some .kOk) :
    ∃ idx, w.handles h = some idx ∧ idx.closed = false ∧
      (idx.db = true → F.thrown (.dbClose h) = none) := by
  rcases hidx : w.handles h with _ | idx
  · simp [closeIndex, hidx] at hcode
  rcases hopen : idx.closed with _ | _
  · refine ⟨idx, rfl, hopen, fun hdb => ?_⟩
    rcases hthrown : F.thrown (.dbClose h) with _ | e
    · rfl
    · cases e <;> simp [closeIndex, closeHandle, hidx, hopen, hdb, hthrown] at hcode
  · simp [closeIndex, closeHandle, hidx, hopen] at hcode

theorem deleteIndex_kOk {name : String} (hcode : (w.deleteIndex F name).1 = some .kOk) :
    ∃ p s, w.find name = some p ∧ w.structures p = some s ∧ s.transactions = ∅ ∧
      F.thrown .dbremove = none := by
  have hdrop : ∀ e, catchDrop e ≠ .kOk := by intro e; cases e <;> simp [catchDrop]
  unfold deleteIndex at hcode
  split at hcode
  · simp at hcode
  · split at hcode
    · next w' hremove =>
      have hremoved : F.thrown .dbremove = none := by
        rcases hthrown : F.thrown .dbremove with _ | e
        · rfl
        · simp [hthrown, hdrop] at hcode
      unfold remove at hremove
      split at hremove
      · simp at hremove
      · next p hf =>
        split at hremove
        · simp at hremove
        · next s hs =>
          split at hremove
          · next hempty =>
            exact ⟨p, s, hf, hs, IndexStructure.makeReadOnly_fst_eq_true.mp hempty, hremoved⟩
          · simp at hremove
    · next hother =>
      rcases hremove : w.remove F name with ⟨code | e | _, w'⟩
      · rw [hremove] at hcode
        obtain rfl : code = .kOk := Option.some.inj hcode
        exact absurd hremove (hother w')
      · rw [hremove] at hcode
        exact absurd (Option.some.inj hcode) (hdrop e)
      · rw [hremove] at hcode
        simp [caught] at hcode

/-- A call that answers kOk has gone through. -/
theorem goesThrough_of_kOk {c : Call} (hcode : (w.perform B F c).1 = some .kOk)
    (hneeds : w.Needs it c) : GoesThrough F w c := by
  cases c with
  | abortTransaction tx =>
    rcases tx with _ | t
    · exact hneeds.elim
    · exact abortTransaction_kOk hcode
  | commitTransaction tx =>
    rcases tx with _ | t
    · exact hneeds.elim
    · exact commitTransaction_kOk hcode
  | closeIndex idx =>
    rcases idx with _ | h
    · exact hneeds.elim
    · exact closeIndex_kOk hcode
  | deleteIndex name => exact deleteIndex_kOk hcode
  | beginTransaction => exact hneeds.elim
  | createIndex name types => exact hneeds.elim
  | openIndex name => exact hneeds.elim
  | modify tx idx m => exact hneeds.elim
  | getRecords tx idx minKeys maxKeys var => exact hneeds.elim
  | getNext var => exact hneeds.elim
  | closeIterator var => exact hneeds.elim

/-! ### Runs -/

/-- Every orphan is an old object, and closed if it still exists. -/
structure OrphansClosed (st : World × Set IteratorPtr) : Prop where
  allocated : ∀ i it, st.1.iterators i = some it → i < st.1.free
  orphans : ∀ i ∈ st.2, i < st.1.free ∧ ∀ it, st.1.iterators i = some it → it.closed = true

/-- STEP: a call that spares the iterators that need what it ends leaves only closed orphans. -/
theorem observed_orphansClosed (B : BerkeleyDB) {st : World × Set IteratorPtr}
    (hst : OrphansClosed st) {c : Faults × Call} (hc : Spares st.1 c) :
    OrphansClosed (observed B st c).2 := by
  have hlasting := perform_lasting B c.1 st.1 c.2
  have hclosed : ∀ i, i < st.1.free →
      (∀ it, st.1.iterators i = some it → it.closed = true) →
        ∀ it', (st.1.perform B c.1 c.2).2.iterators i = some it' → it'.closed = true := by
    intro i hlt hold it' hit'
    rcases hlasting.iterators i it' hit' with ⟨it, hit, hkept⟩ | ⟨hge, -⟩
    · exact hkept (hold it hit)
    · exact absurd hlt (Nat.not_lt.mpr hge)
  constructor
  · intro i it' hit'
    rcases hlasting.iterators i it' hit' with ⟨it, hit, -⟩ | ⟨-, hlt⟩
    · exact (hst.allocated i it hit).trans_le hlasting.free
    · exact hlt
  · intro i hi
    rcases hi with hi | ⟨hcode, it, hit, hneeds⟩
    · obtain ⟨hlt, hold⟩ := hst.orphans i hi
      exact ⟨hlt.trans_le hlasting.free, hclosed i hlt hold⟩
    · have hlt := hst.allocated i it hit
      have hspared := hc (goesThrough_of_kOk hcode hneeds) i it hit hneeds
      refine ⟨hlt.trans_le hlasting.free, hclosed i hlt fun it₁ hit₁ => ?_⟩
      obtain rfl : it = it₁ := Option.some.inj (hit.symm.trans hit₁)
      exact hspared

/-- DIVERGES: if every call that ends a transaction, a handle or an index finds the iterators that need
    it closed, then in every state of the run the iterators that have lost what they need are closed:
    `GetNext` answers kErrorIteratorClosed and touches nothing. `DeleteIndex` takes `closeHandles` for
    the loop over the handles. -/
theorem orphans_closed (B : BerkeleyDB) {calls : List (Faults × Call)}
    (hok : Admissible (fun st c => Spares st.1 c) (observed B) (initial, ∅) calls) :
    let st := (run (observed B) (initial, ∅) calls).2
    ∀ i ∈ st.2, ∀ it, st.1.iterators i = some it →
      it.closed = true ∧
        ∀ F, st.1.getNext B F (some i) = (some .kErrorIteratorClosed, none, st.1) := by
  intro st i hi it hit
  have hinitial : OrphansClosed (initial, ∅) := ⟨by simp [initial], by simp⟩
  have hstep : ∀ st (c : Faults × Call), OrphansClosed st → Spares st.1 c →
      OrphansClosed (observed B st c).2 := fun _ _ hs hc => observed_orphansClosed B hs hc
  have hst : OrphansClosed st := run_keeps hstep hinitial hok
  have hclosed := (hst.orphans i hi).2 it hit
  exact ⟨hclosed, fun F => by simp [getNext, hit, hclosed]⟩

/-- An iterator of the transaction 1 through the handle 1 of the index "x", and a further call. -/
def withIterator (c : Call) : World × Set IteratorPtr :=
  (run (observed .plain) (initial, ∅) [(noFaults, .createIndex "x" (some [.kShort])),
    (noFaults, .openIndex "x"), (noFaults, .beginTransaction),
    (noFaults, .getRecords (some 1) (some 1) (shortKey 0) (shortKey 2) (some none)),
    (noFaults, c)]).2

/-- After the call the iterator is an orphan, but it is open and `GetNext` uses it. -/
def OpenOrphanAfter (c : Call) : Prop :=
  2 ∈ (withIterator c).2 ∧ ((withIterator c).1.iterators 2).map (·.closed) = some false ∧
    ((withIterator c).1.getNext .plain noFaults (some 2)).1 ≠ some .kErrorIteratorClosed

/-- Neither a commit nor an abort, closing the handle or deleting the index closes the iterator; the
    last with `closeHandles` for the loop. -/
theorem orphans_stay_open :
    OpenOrphanAfter (.commitTransaction (some 1)) ∧ OpenOrphanAfter (.abortTransaction (some 1)) ∧
      OpenOrphanAfter (.closeIndex (some 1)) ∧ OpenOrphanAfter (.deleteIndex "x") := by
  refine ⟨?_, ?_, ?_, ?_⟩
  · exact ⟨Or.inr ⟨rfl, _, rfl, rfl⟩, by decide +kernel, by decide +kernel⟩
  · exact ⟨Or.inr ⟨rfl, _, rfl, rfl⟩, by decide +kernel, by decide +kernel⟩
  · exact ⟨Or.inr ⟨rfl, _, rfl, rfl⟩, by decide +kernel, by decide +kernel⟩
  · exact ⟨Or.inr ⟨by decide +kernel, _, rfl, _, rfl, rfl⟩, by decide +kernel, by decide +kernel⟩

/-- An iterator that an error has closed before its transaction is committed. -/
theorem orphans_closed_at :
    let failing : Faults := fun site => if site = .get 0 then some (.returns .other) else none
    let calls : List (Faults × Call) := [(noFaults, .createIndex "x" (some [.kShort])),
      (noFaults, .openIndex "x"), (noFaults, .beginTransaction),
      (noFaults, .getRecords (some 1) (some 1) (shortKey 0) (shortKey 2) (some none)),
      (failing, .getNext (some 2)), (noFaults, .commitTransaction (some 1))]
    let st := (run (observed .plain) (initial, ∅) calls).2
    2 ∈ st.2 ∧ st.1.getNext .plain noFaults (some 2) = (some .kErrorIteratorClosed, none, st.1) := by
  intro failing calls st
  have hok : Admissible (fun st c => Spares st.1 c) (observed .plain) (initial, ∅) calls := by
    refine ⟨?_, ?_, ?_, ?_, ?_, ?_, trivial⟩
    · exact fun hgoes => hgoes.elim
    · exact fun hgoes => hgoes.elim
    · exact fun hgoes => hgoes.elim
    · exact fun hgoes => hgoes.elim
    · exact fun hgoes => hgoes.elim
    · intro _ i it hi _
      rcases eq_or_ne i 2 with rfl | hne
      · obtain rfl := Option.some.inj hi
        rfl
      · change Function.update (Function.update (fun _ => none) 2 _) 2 _ i = some it at hi
        rw [Function.update_of_ne hne, Function.update_of_ne hne] at hi
        cases hi
  have horphan : 2 ∈ st.2 := Or.inr ⟨rfl, _, rfl, rfl⟩
  exact ⟨horphan, (orphans_closed .plain hok 2 horphan _ rfl).2 noFaults⟩

end World

end Contest
