import ContestIndex.Model.Session
import ContestIndex.Results.Calls

/-! @src example/BDBImpl.cc | name:Reachable states | layer:specification

    What every call keeps, whatever fails in it: the transactions of the environment are well formed
    (parents unresolved and older, before-images owned by unresolved transactions), and no structure
    that still exists is read-only, because `IndexManager::Remove` destroys what it has made
    read-only. A modification does one operation in the sense of `UndoLog.Work`. Here, and wherever a run
    may delete indices, the handles are closed by `closeHandles`; with an open one the loop as written
    comes to no defined end (`CloseLoop`), and what is said is said of the loop that was meant. -/

namespace Contest
open Schemes

namespace World
variable {w w' : World} {h : IndexPtr} {o : Opened}

/-! ### What a modification can do -/

/-- From `w` to `w'` one operation under `tx` has been done through the handle `h`. -/
def Worked (B : BerkeleyDB) (tx : Option TxnPtr) (h : IndexPtr) (w w' : World) : Prop :=
  w' = w ∨ ∃ o env txns, w.opened h = some o ∧
    w.env.dbs.Work (w.env.txnBegin B tx).1 tx env.dbs ∧ w' = w.after o env txns

theorem bodyEnv_nested (B : BerkeleyDB) (w : World) (o : Opened) (tx : Option TxnPtr) (body : Body) :
    w.env.dbs.Nested (w.env.txnBegin B tx).1 tx (w.bodyEnv B o tx body).dbs := by
  unfold bodyEnv
  split
  · exact .wrote _ _
  · exact .idle

theorem write_work (B : BerkeleyDB) (w : World) (tx : Option TxnPtr) (name : String)
    (pairs : List Pair) :
    w.env.dbs.Work (w.env.txnBegin B tx).1 tx (w.env.write tx name pairs).dbs := by
  cases tx with
  | none => exact .put _ _
  | some t => exact .write t _ _

theorem indexInsert_worked (B : BerkeleyDB) (F : Faults) (w : World) (tx : Option TxnPtr)
    (h : IndexPtr) (r : Record) : Worked B tx h w (w.indexInsert B F tx h r).2 := by
  cases ho : w.opened h with
  | none => exact Or.inl (by simp [indexInsert, ho])
  | some o =>
    cases hw : o.s.readOnly with
    | false =>
      have hsame : ∀ txns, Worked B tx h w (w.after o w.env txns) := fun txns =>
        Or.inr ⟨o, w.env, txns, ho, .same tx, rfl⟩
      rw [indexInsert_opened B F ho hw]
      rcases F .put with _ | ⟨_ | _⟩
      · exact Or.inr ⟨o, _, _, ho, write_work B w tx _ _, rfl⟩
      · exact hsame _
      · exact hsame _
    | true =>
      cases tx with
      | none =>
        -- an insert outside of transactions does not ask whether the index is read-only
        simp only [indexInsert, ho, if_true]
        rcases F .put with _ | ⟨_ | _⟩
        · exact Or.inr ⟨o, _, _, ho, write_work B w none _ _, setEnv_eq_after ho _⟩
        · exact Or.inl rfl
        · exact Or.inl rfl
      | some t =>
        have hrefused : o.s.startTransaction t = (false, o.s) := by
          simp [IndexStructure.startTransaction, hw]
        have hself : w.setStructure o.ptr o.s = w := after_self ho
        simp only [indexInsert, ho, startTransaction, hrefused, Bool.false_eq_true, if_false, hself]
        exact Or.inl rfl

theorem indexModify_worked (B : BerkeleyDB) (F : Faults) (cw : CursorWrite) (loopError : ErrorCode)
    (w : World) (tx : Option TxnPtr) (h : IndexPtr) (r : Record) (flags : UInt8) :
    Worked B tx h w (w.indexModify B F cw loopError tx h r flags).2 := by
  cases ho : w.opened h with
  | none => exact Or.inl (by simp [indexModify, ho])
  | some o =>
    cases hw : o.s.readOnly with
    | false =>
      rw [indexModify_opened B F cw loopError ho hw]
      cases F.thrown .txnBegin with
      | some e => exact Or.inl rfl
      | none =>
        have hn := bodyEnv_nested B w o tx (modifyBody B F o.s o.cmp cw loopError r flags o.pairs)
        simp only
        cases (modifyBody B F o.s o.cmp cw loopError r flags o.pairs).outcome with
        | throws e => exact Or.inr ⟨o, _, _, ho, .unresolved hn, rfl⟩
        | stuck => exact Or.inr ⟨o, _, _, ho, .unresolved hn, rfl⟩
        | ret code =>
          cases F.thrown .txnCommit with
          | some e => exact Or.inr ⟨o, _, _, ho, .abort hn, rfl⟩
          | none => exact Or.inr ⟨o, _, _, ho, .commit hn, rfl⟩
    | true =>
      have hrefused : ∀ t, o.s.startTransaction t = (false, o.s) := by
        simp [IndexStructure.startTransaction, hw]
      simp only [indexModify, ho, hrefused, Bool.false_eq_true, if_false]
      cases F.thrown .txnBegin with
      | some e => exact Or.inl rfl
      | none => exact Or.inr ⟨o, _, _, ho, .abort .idle, setEnv_eq_after ho _⟩

theorem guarded_worked (B : BerkeleyDB) (tx : Option TxnPtr) (h : IndexPtr) (r : Record)
    {work : IndexPtr → Record → Answer × World} (hwork : Worked B tx h w (work h r).2) :
    Worked B tx h w (w.guarded (some h) (some r) work).2 := by
  unfold guarded
  split
  · next heq hidx hrec =>
    obtain rfl := Option.some.inj hidx
    obtain rfl := Option.some.inj hrec
    exact hwork
  · exact Or.inl rfl
  · exact Or.inl rfl

theorem caught_snd (handler : DbException → ErrorCode) (ended : Outcome ErrorCode × World) :
    (caught handler ended).2 = ended.2 := by
  obtain ⟨outcome, w⟩ := ended
  cases outcome <;> rfl

/-- STEP (`InsertRecord`, `UpdateRecord`, `DeleteRecord`, whatever fails). -/
theorem modify_worked (B : BerkeleyDB) (F : Faults) (w : World) (tx : Option TxnPtr) (h : IndexPtr)
    (m : Modification) : Worked B tx h w (w.modify B F tx h m).2 := by
  cases m with
  | insert r =>
    refine guarded_worked B tx h r ?_
    rw [caught_snd]
    exact indexInsert_worked B F w tx h r
  | update r payload flags =>
    refine guarded_worked B tx h r ?_
    rw [caught_snd]
    exact indexModify_worked B F _ _ w tx h r flags
  | delete r flags =>
    refine guarded_worked B tx h r ?_
    rw [caught_snd]
    exact indexModify_worked B F _ _ w tx h r flags

/-! ### What the other calls leave alone -/

/-- From `w` to `w'` the environment stays, and no structure appears or becomes read-only. -/
structure Frame (w w' : World) : Prop where
  env : w'.env = w.env
  structures : ∀ p s', w'.structures p = some s' →
    ∃ s, w.structures p = some s ∧ s'.readOnly = s.readOnly

namespace Frame

theorem of_eq (henv : w'.env = w.env) (hs : w'.structures = w.structures) : Frame w w' :=
  ⟨henv, fun p s' h => ⟨s', by rw [← hs, h], rfl⟩⟩

theorem refl (w : World) : Frame w w := of_eq rfl rfl

theorem trans {u v : World} (huv : Frame u v) (hvw : Frame v w) : Frame u w where
  env := hvw.env.trans huv.env
  structures := fun p s' h => by
    obtain ⟨t, ht, hr⟩ := hvw.structures p s' h
    obtain ⟨s, hs, hr'⟩ := huv.structures p t ht
    exact ⟨s, hs, hr.trans hr'⟩

theorem setHandle (w : World) (h : IndexPtr) (idx : Index) : Frame w (w.setHandle h idx) :=
  of_eq rfl rfl

theorem setStructure {p : StructurePtr} {s s' : IndexStructure} (hs : w.structures p = some s)
    (hr : s'.readOnly = s.readOnly) : Frame w (w.setStructure p s') where
  env := rfl
  structures := fun q t ht => by
    by_cases hq : q = p
    · subst hq
      obtain rfl : s' = t := by simpa [World.setStructure] using ht
      exact ⟨s, hs, hr⟩
    · exact ⟨t, by simpa [World.setStructure, hq] using ht, rfl⟩

end Frame

theorem closeTransaction_frame (w : World) (tx : TxnPtr) : Frame w (w.closeTransaction tx) := by
  have hstep : ∀ (v : World) (p : StructurePtr), Frame v (v.onStructure p (·.endTransaction tx)) := by
    intro v p
    unfold onStructure
    split
    · next s hs => exact .setStructure hs rfl
    · exact .refl v
  have hfold : ∀ (es : List (String × StructurePtr)) (v : World),
      Frame v (es.foldl (fun w e => w.onStructure e.2 (·.endTransaction tx)) v) := by
    intro es
    induction es with
    | nil => exact .refl
    | cons e es ih => exact fun v => (hstep v e.2).trans (ih _)
  exact hfold w.indices w

theorem closeHandle_frame (F : Faults) (w : World) (h : IndexPtr) :
    Frame w (w.closeHandle F h).2 := by
  unfold closeHandle
  split
  · exact .refl w
  · split
    · exact .refl w
    · simp only
      split
      · exact .of_eq rfl rfl
      · split
        · exact .of_eq rfl rfl
        · split
          · exact .of_eq rfl rfl
          · next s hs =>
            refine (Frame.setHandle w h _).trans (Frame.setStructure hs ?_)
            rfl

theorem closeHandles_frame (F : Faults) : ∀ (hs : List IndexPtr) (w : World),
    Frame w (closeHandles F hs w).2
  | [], w => .refl w
  | h :: hs, w => by
    have hone := closeHandle_frame F w h
    unfold closeHandles
    split
    · next heq =>
      rw [heq] at hone
      exact hone.trans (closeHandles_frame F hs _)
    · exact hone

/-- `IndexManager::Remove` leaves no read-only structure behind. -/
theorem remove_frame (F : Faults) (w : World) (name : String) : Frame w (w.remove F name).2 := by
  unfold remove
  split
  · exact .refl w
  · next p _ =>
    split
    · exact .refl w
    · next s hs =>
      split
      · have hclosed := closeHandles_frame F (s.handles.sort (· ≤ ·))
          (w.setStructure p s.makeReadOnly.2)
        have hdestroyed :
            Frame w ((w.setStructure p s.makeReadOnly.2).destroyStructure F p s).2 := by
          refine ⟨hclosed.env, fun q t ht => ?_⟩
          have hq : q ≠ p := by
            rintro rfl
            simp [destroyStructure] at ht
          obtain ⟨u, hu, hr⟩ := hclosed.structures q t (by simpa [destroyStructure, hq] using ht)
          exact ⟨u, by simpa [World.setStructure, hq] using hu, hr⟩
        split
        · next heq =>
          rw [heq] at hdestroyed
          exact hdestroyed.trans (.of_eq rfl rfl)
        · next heq => rw [heq] at hdestroyed; exact hdestroyed
        · next heq => rw [heq] at hdestroyed; exact hdestroyed
      · exact .refl w

theorem openHandle_frame (F : Faults) (w : World) (name : String) :
    Frame w (w.openHandle F name).2.2 := by
  unfold openHandle
  simp only
  split
  · exact .of_eq rfl rfl
  · split
    · exact .of_eq rfl rfl
    · next s hs =>
      have hfree : Frame w { w with free := w.free + 1 } := .of_eq rfl rfl
      have hnew := hfree.trans (Frame.setHandle _ w.free ⟨name, w.find name, false, true⟩)
      have hregistered := hnew.trans (@Frame.setStructure _ _ s
        { s with handles := Insert.insert w.free s.handles } hs rfl)
      split
      · exact hregistered
      · split
        · exact hregistered
        · exact hregistered.trans (.of_eq rfl rfl)

/-- `OpenIndex` refuses, or it ends behind `Index::Open`, whose handle it deletes after an exception. -/
theorem openIndex_cases (F : Faults) (w : World) (name : String) :
    (w.openIndex F name).2.2 = w ∨ (w.openIndex F name).2.2 = (w.openHandle F name).2.2 ∨
      (w.openIndex F name).2.2 = { (w.openHandle F name).2.2 with
        handles := Function.update (w.openHandle F name).2.2.handles (w.openHandle F name).2.1 none } := by
  rw [openIndex]
  split
  · exact Or.inl rfl
  · split
    · next heq => exact Or.inr (Or.inl (by rw [heq]))
    · next heq => exact Or.inr (Or.inl (by rw [heq]))
    · next heq => exact Or.inr (Or.inr (by rw [heq]))
    · next heq => exact Or.inr (Or.inl (by rw [heq]))

theorem openIndex_frame (F : Faults) (w : World) (name : String) :
    Frame w (w.openIndex F name).2.2 := by
  have hopen := openHandle_frame F w name
  rcases openIndex_cases F w name with hsame | hended | hdeleted
  · rw [hsame]
    exact .refl w
  · rwa [hended]
  · rw [hdeleted]
    exact hopen.trans (.of_eq rfl rfl)

theorem closeIndex_frame (F : Faults) (w : World) (idx : Option IndexPtr) :
    Frame w (w.closeIndex F idx).2.2 := by
  unfold closeIndex
  split
  · exact .refl w
  · next h =>
    split
    · exact .refl w
    · have hclosed := closeHandle_frame F w h
      simp only
      split <;> exact hclosed.trans (.of_eq rfl rfl)

/-- From `w` to `w'` nothing but iterators has changed. -/
def OnlyIterators (w w' : World) : Prop :=
  ∃ iterators free, w.free ≤ free ∧ w' = { w with iterators := iterators, free := free }

namespace OnlyIterators

theorem refl (w : World) : OnlyIterators w w := ⟨w.iterators, w.free, le_rfl, rfl⟩

theorem set (w : World) (iterators : IteratorPtr → Option Iterator) :
    OnlyIterators w { w with iterators := iterators } := ⟨iterators, w.free, le_rfl, rfl⟩

theorem frame (h : OnlyIterators w w') : Frame w w' := by
  obtain ⟨iterators, free, -, rfl⟩ := h
  exact .of_eq rfl rfl

end OnlyIterators

/-- Following moves cursors only. -/
theorem follow_only (B : BerkeleyDB) (w : World) (h : IndexPtr) (m : Modification) (w' : World) :
    OnlyIterators w' (w.follow B h m w') := by
  obtain ⟨g, hfollow⟩ := follow_shifted B w h m w'
  rw [hfollow]
  exact .set w' _

theorem getRecords_only (F : Faults) (w : World) (tx : Option TxnPtr) (idx : Option IndexPtr)
    (minKeys maxKeys : Key) (it : Option (Option IteratorPtr)) :
    OnlyIterators w (w.getRecords F tx idx minKeys maxKeys it).2.2 := by
  unfold getRecords
  simp only
  repeat' split
  all_goals first
    | exact .refl w
    | exact .set w _
    | exact ⟨_, _, Nat.le_succ _, rfl⟩

theorem getNext_only (B : BerkeleyDB) (F : Faults) (w : World) (it : Option IteratorPtr) :
    OnlyIterators w (w.getNext B F it).2.2 := by
  unfold getNext
  repeat' split
  all_goals first
    | exact .refl w
    | exact .set w _

theorem closeIterator_only (F : Faults) (w : World) (it : Option IteratorPtr) :
    OnlyIterators w (w.closeIterator F it).2.2 := by
  unfold closeIterator
  repeat' split
  all_goals first
    | exact .refl w
    | exact .set w _

/-! ### The invariant -/

/-- The transactions of the environment are well formed, and what exists may be written to. -/
structure Consistent (w : World) : Prop where
  wf : w.env.dbs.Wf
  writable : ∀ p s, w.structures p = some s → s.readOnly = false

theorem initial_consistent : initial.Consistent where
  wf := ⟨trivial, List.nodup_nil, by simp [initial, DbEnv.empty]⟩
  writable := by simp [initial]

theorem Consistent.frame (hw : w.Consistent) (hf : Frame w w') : w'.Consistent where
  wf := by rw [hf.env]; exact hw.wf
  writable := fun p s' hs' => by
    obtain ⟨s, hs, hr⟩ := hf.structures p s' hs'
    rw [hr, hw.writable p s hs]

theorem Consistent.setEnv (hw : w.Consistent) {env : DbEnv} (h : env.dbs.Wf) :
    (w.setEnv env).Consistent := ⟨h, hw.writable⟩

/-- The address of a new transaction is not that of an unresolved one. -/
theorem txnBegin_fresh (B : BerkeleyDB) (env : DbEnv) (parent : Option TxnPtr) :
    (env.txnBegin B parent).1 ∉ env.dbs.ids := B.txnAddress_fresh _ _

theorem Began.mem_ids {t : TxnPtr} (h : w.Began t) : t ∈ w.env.dbs.ids :=
  List.mem_map.mpr ⟨_, h, rfl⟩

theorem Consistent.worked (hw : w.Consistent) {B : BerkeleyDB} {tx : Option TxnPtr}
    (htx : ∀ t ∈ tx, t ∈ w.env.dbs.ids) (h : Worked B tx h w w') : w'.Consistent := by
  rcases h with rfl | ⟨o, env, txns, ho, hwork, rfl⟩
  · exact hw
  · refine ⟨hwork.wf hw.wf (txnBegin_fresh B w.env tx) htx, fun p s hs => ?_⟩
    have hlive := (opened_eq_some ho).2.2.1
    by_cases hp : p = o.ptr
    · subst hp
      obtain rfl : { o.s with transactions := txns } = s := by simpa using hs
      exact hw.writable o.ptr o.s hlive
    · exact hw.writable p s (by simpa [hp] using hs)

/-- `AbortTransaction` changes nothing, or it aborts the transaction and closes it. -/
theorem abortTransaction_cases (F : Faults) (w : World) (tx : Option TxnPtr) :
    (w.abortTransaction F tx).2.2 = w ∨ ∃ t, tx = some t ∧
      (w.abortTransaction F tx).2.2 = (w.setEnv (w.env.abort t)).closeTransaction t := by
  rcases tx with _ | t
  · exact Or.inl rfl
  rw [abortTransaction]
  split
  · exact Or.inl rfl
  · split
    · exact Or.inl rfl
    · exact Or.inr ⟨t, rfl, rfl⟩

/-- `CommitTransaction` changes nothing, or it commits the transaction and closes it. A commit that throws
    has aborted the transaction, and all but one kind of exception are followed by another abort. -/
theorem commitTransaction_cases (F : Faults) (w : World) (tx : Option TxnPtr) :
    (w.commitTransaction F tx).2.2 = w ∨ ∃ t, tx = some t ∧
      ((w.commitTransaction F tx).2.2 = w.setEnv (w.env.abort t) ∨
        (w.commitTransaction F tx).2.2 =
          ((w.setEnv (w.env.abort t)).abortTransaction F (some t)).2.2 ∨
        (w.commitTransaction F tx).2.2 = (w.setEnv (w.env.commit t)).closeTransaction t) := by
  rcases tx with _ | t
  · exact Or.inl rfl
  rw [commitTransaction]
  split
  · exact Or.inl rfl
  · refine Or.inr ⟨t, rfl, ?_⟩
    split
    · exact Or.inl rfl
    · split
      all_goals
        next heq => exact Or.inr (Or.inl (by rw [heq]))
    · exact Or.inr (Or.inr rfl)

theorem abortTransaction_consistent (F : Faults) (hw : w.Consistent) (tx : Option TxnPtr) :
    (w.abortTransaction F tx).2.2.Consistent := by
  rcases abortTransaction_cases F w tx with hsame | ⟨t, -, haborted⟩
  · rwa [hsame]
  · rw [haborted]
    exact (hw.setEnv (UndoLog.abort_wf hw.wf t)).frame (closeTransaction_frame _ t)

theorem commitTransaction_consistent (F : Faults) (hw : w.Consistent) (tx : Option TxnPtr) :
    (w.commitTransaction F tx).2.2.Consistent := by
  rcases commitTransaction_cases F w tx with hsame | ⟨t, -, haborted | hagain | hcommitted⟩
  · rwa [hsame]
  · rw [haborted]
    exact hw.setEnv (UndoLog.abort_wf hw.wf t)
  · rw [hagain]
    exact abortTransaction_consistent F (hw.setEnv (UndoLog.abort_wf hw.wf t)) (some t)
  · rw [hcommitted]
    exact (hw.setEnv (UndoLog.commit_wf hw.wf t)).frame (closeTransaction_frame _ t)

theorem find_insert (w : World) (name n : String) (p : StructurePtr) :
    (w.insert name p).find n = if n = name then some p else w.find n := by
  by_cases hn : n = name
  · subst hn
    simp [World.find, World.insert]
  · have hne : ¬name = n := fun hc => hn hc.symm
    simp only [World.find, World.insert, List.find?_cons, hne, decide_false, if_neg hn,
      List.find?_filter]
    congr 2
    funext e
    by_cases he : e.1 = n
    · simp [he, hn]
    · simp [he]

/-- The state in which `CreateIndex` ends, unless it refuses or fails. -/
def created (w : World) (name : String) (types : List AttributeType) : World :=
  (World.setStructure
    { w with env := { w.env with dbs := w.env.dbs.put name (some []) }, free := w.free + 1 } w.free
      (IndexStructure.new types)).insert name w.free

theorem created_find (name : String) (types : List AttributeType) (n : String) :
    (w.created name types).find n = if n = name then some w.free else w.find n :=
  find_insert _ name n _

theorem created_structures {name : String} (types : List AttributeType) {q : StructurePtr}
    (hq : q ≠ w.free) :
    (w.created name types).structures q = w.structures q := Function.update_of_ne hq _ _

theorem created_pairs (name : String) (types : List AttributeType) (n : String) :
    (w.created name types).env.pairs n = if n = name then some [] else w.env.pairs n := by
  change Function.update w.env.dbs.store name (some []) n = _
  split
  · next hn => rw [hn, Function.update_self]
  · next hn => rw [Function.update_of_ne hn]; rfl

/-- `CreateIndex` refuses or fails and changes nothing, or it creates an empty database and its entry. -/
theorem createIndex_cases (F : Faults) (w : World) (name : String)
    (types : Option (List AttributeType)) :
    (∃ code, code ≠ some .kOk ∧ w.createIndex F name types = (code, w)) ∨
      ∃ ts, types = some ts ∧ name ≠ "" ∧ ts.length ≠ 0 ∧ w.env.pairs name = none ∧
        w.createIndex F name types = (some .kOk, w.created name ts) := by
  rcases types with _ | ts
  · exact Or.inl ⟨_, by simp, rfl⟩
  by_cases hargs : name = "" ∨ ts.length = 0
  · exact Or.inl ⟨some .kErrorGenericFailure, by simp, by rw [createIndex, if_pos hargs]⟩
  · rw [createIndex, if_neg hargs]
    rw [not_or] at hargs
    rcases hthrown : F.thrown .dbOpen with _ | _ | _ | _
    case none =>
      rcases hpairs : w.env.pairs name with _ | pairs
      · exact Or.inr ⟨ts, rfl, hargs.1, hargs.2, rfl, rfl⟩
      · exact Or.inl ⟨_, by simp, rfl⟩
    all_goals exact Or.inl ⟨_, by simp, rfl⟩

theorem createIndex_consistent (F : Faults) (hw : w.Consistent) (name : String)
    (types : Option (List AttributeType)) : (w.createIndex F name types).2.Consistent := by
  rcases createIndex_cases F w name types with ⟨code, -, hsame⟩ | ⟨ts, -, -, -, -, hcreated⟩
  · rw [hsame]
    exact hw
  · rw [hcreated]
    refine ⟨UndoLog.put_wf hw.wf _ _, fun p s hs => ?_⟩
    by_cases hp : p = w.free
    · subst hp
      obtain rfl : IndexStructure.new ts = s := by
        simpa [created, World.insert, World.setStructure] using hs
      rfl
    · exact hw.writable p s ((created_structures ts hp).symm.trans hs)

/-- `DeleteIndex` refuses, or it ends behind `IndexManager::Remove`, or it deletes the database too. -/
theorem deleteIndex_cases (F : Faults) (w : World) (name : String) :
    (w.deleteIndex F name).2 = w ∨ (w.deleteIndex F name).2 = (w.remove F name).2 ∨
      ∃ v, w.remove F name = (.ret .kOk, v) ∧
        (w.deleteIndex F name).2 = v.setEnv { v.env with dbs := v.env.dbs.put name none } := by
  rw [deleteIndex]
  split
  · exact Or.inl rfl
  · split
    · next v heq =>
      rw [heq]
      simp only
      split
      · exact Or.inr (Or.inl rfl)
      · exact Or.inr (Or.inr ⟨v, rfl, rfl⟩)
    · rw [caught_snd]
      exact Or.inr (Or.inl rfl)

theorem deleteIndex_consistent (F : Faults) (hw : w.Consistent) (name : String) :
    (w.deleteIndex F name).2.Consistent := by
  have hremoved := hw.frame (remove_frame F w name)
  rcases deleteIndex_cases F w name with hsame | hended | ⟨v, hv, hdeleted⟩
  · rwa [hsame]
  · rwa [hended]
  · rw [hv] at hremoved
    rw [hdeleted]
    exact hremoved.setEnv (UndoLog.put_wf hremoved.wf _ _)

/-- STEP: every call keeps the invariant, whatever fails in it. -/
theorem perform_consistent (B : BerkeleyDB) (F : Faults) (hw : w.Consistent) {c : Call}
    (hc : c.Live w) : (w.perform B F c).2.Consistent := by
  cases c with
  | beginTransaction =>
    simp only [perform, beginTransaction]
    split
    · exact hw
    · exact hw
    · exact hw.setEnv (UndoLog.begin_wf hw.wf (txnBegin_fresh B w.env none) (by simp))
  | abortTransaction tx => exact abortTransaction_consistent F hw tx
  | commitTransaction tx => exact commitTransaction_consistent F hw tx
  | createIndex name types => exact createIndex_consistent F hw name types
  | openIndex name => exact hw.frame (openIndex_frame F w name)
  | closeIndex idx => exact hw.frame (closeIndex_frame F w idx)
  | deleteIndex name => exact deleteIndex_consistent F hw name
  | modify tx idx m =>
    have hworked := hw.worked (fun t ht => (hc.1 t ht).mem_ids) (modify_worked B F w tx idx m)
    exact hworked.frame (follow_only B w idx m _).frame
  | getRecords tx idx minKeys maxKeys it =>
    exact hw.frame (getRecords_only F w tx idx minKeys maxKeys it).frame
  | getNext it => exact hw.frame (getNext_only B F w it).frame
  | closeIterator it => exact hw.frame (closeIterator_only F w it).frame

/-- STEP: a call in a state that clients can reach leads to another one. -/
theorem Reachable.call {B : BerkeleyDB} {c : Faults × Call} (h : Reachable B w) (hc : c.2.Live w) :
    Reachable B (faultyCall B w c).2 := by
  obtain ⟨calls, hlive, rfl⟩ := h
  exact ⟨calls ++ [c], hlive.concat hc, by rw [run_concat]⟩

/-- RUN: every state that clients can reach is consistent. -/
theorem Reachable.consistent {B : BerkeleyDB} (h : Reachable B w) : w.Consistent := by
  obtain ⟨calls, hlive, rfl⟩ := h
  have hstep : ∀ v (c : Faults × Call), v.Consistent → c.2.Live v →
      (faultyCall B v c).2.Consistent := fun v c hv hc => perform_consistent B c.1 hv hc
  exact run_keeps hstep initial_consistent hlive

end World

end Contest
