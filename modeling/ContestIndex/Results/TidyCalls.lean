import ContestIndex.Results.Tidy

/-! @src example/BDBImpl.cc | name:Every call leaves a tidy state | layer:specification

    What a modification adds to the before-images belongs to the database of its handle. While the
    nested transaction of an update or delete is unresolved it is the owner, and it is registered;
    once it is committed the caller's transaction is. Resolving a transaction drops its
    before-images before `CloseTransaction` unregisters it.

        begin tid ─▶ register tid ─▶ write ─▶ register tx ─▶ commit tid ─▶ unregister tid
                                     image of tid            image of tx                    -/

namespace Contest
open Schemes

namespace World
variable {w : World} {h : IndexPtr} {o : Opened} {name : String} {t : TxnPtr}

/-! ### Modifications -/

/-- An operation through a handle, whatever it writes: the before-images that are added belong to
    the database of the handle, and their owners are registered. -/
theorem Tidy.after (hw : w.Tidy) (ho : w.opened h = some o) {env : DbEnv} {txns : Finset TxnPtr}
    (hpairs : ∀ n, (w.env.pairs n).isSome → (env.pairs n).isSome)
    (hkept : ∀ e ∈ w.env.dbs.log, e.1 ∈ o.s.transactions → e.1 ∈ txns)
    (hlog : ∀ e ∈ env.dbs.log, e ∈ w.env.dbs.log ∨
      e.2.1 = o.index.name ∧ e.2.2.isSome ∧ e.1 ∈ txns) : (w.after o env txns).Tidy := by
  obtain ⟨hfound, -, -⟩ := hw.opened ho
  have hlive := (opened_eq_some ho).2.2.1
  have hsome : ∀ q, ((w.after o env txns).structures q).isSome = (w.structures q).isSome := by
    intro q
    rcases eq_or_ne q o.ptr with rfl | hne
    · simp [hlive]
    · simp [hne]
  have hknown : ∀ n, ((w.after o env txns).known n).isSome → (w.known n).isSome := by
    intro n hn
    obtain ⟨s, hs⟩ := Option.isSome_iff_exists.mp hn
    obtain ⟨q, hq, hq'⟩ := known_eq_some.mp hs
    have hqs : (w.structures q).isSome := by rw [← hsome, hq']; rfl
    obtain ⟨s', hs'⟩ := Option.isSome_iff_exists.mp hqs
    exact Option.isSome_iff_exists.mpr ⟨s', known_eq_some.mpr ⟨q, hq, hs'⟩⟩
  exact
    { allocated := fun q hq => hw.allocated q (hsome q ▸ hq)
      mapped := hw.mapped
      held := hw.held
      referred := hw.referred
      iterated := hw.iterated
      named := fun k idx q hidx hq hq' => hw.named k idx q hidx hq (hsome q ▸ hq')
      stored := fun n hn => hpairs n (hw.stored n (hknown n hn))
      images := fun e he => by
        rcases hlog e he with hold | ⟨hname, himage, howner⟩
        · obtain ⟨himage, s, hs, howner⟩ := hw.images e hold
          obtain ⟨q, hq, hq'⟩ := known_eq_some.mp hs
          refine ⟨himage, ?_⟩
          rcases eq_or_ne q o.ptr with rfl | hne
          · rw [hlive, Option.some.injEq] at hq'
            subst hq'
            exact ⟨_, known_eq_some.mpr ⟨o.ptr, hq, Function.update_self ..⟩, hkept e hold howner⟩
          · exact ⟨s, known_eq_some.mpr ⟨q, hq, by simpa [hne] using hq'⟩, howner⟩
        · refine ⟨himage, _, known_eq_some.mpr ⟨o.ptr, ?_, Function.update_self ..⟩, howner⟩
          rw [hname]
          exact hfound }

theorem write_isSome (tx : Option TxnPtr) (pairs : List Pair) (n : String)
    (hn : (w.env.pairs n).isSome) : ((w.env.write tx name pairs).pairs n).isSome := by
  have hstore : (w.env.write tx name pairs).pairs n =
      Function.update w.env.dbs.store name (some pairs) n := by cases tx <;> rfl
  rw [hstore]
  rcases eq_or_ne n name with rfl | hne
  · simp
  · simpa [hne, DbEnv.pairs] using hn

/-- A write adds at most one before-image, and it belongs to the transaction. -/
theorem write_log (hpairs : (w.env.pairs name).isSome) {tx : Option TxnPtr} {pairs : List Pair}
    {e : TxnPtr × String × Option (List Pair)} (he : e ∈ (w.env.write tx name pairs).dbs.log) :
    e ∈ w.env.dbs.log ∨ e.2.1 = name ∧ e.2.2.isSome ∧ e.1 ∈ tx := by
  cases tx with
  | none => exact Or.inl he
  | some t =>
    rcases List.mem_cons.mp he with rfl | he
    · exact Or.inr ⟨rfl, hpairs, rfl⟩
    · exact Or.inl he

theorem indexInsert_tidy (hw : w.Tidy) (hc : w.Consistent) (B : BerkeleyDB) (F : Faults)
    (tx : Option TxnPtr) (h : IndexPtr) (r : Record) : (w.indexInsert B F tx h r).2.Tidy := by
  cases ho : w.opened h with
  | none => simpa [indexInsert, ho] using hw
  | some o =>
    obtain ⟨-, -, hlive, hpairs, -⟩ := opened_eq_some ho
    have hjoin : ∀ {a}, a ∈ o.s.transactions → a ∈ joining o.s.transactions tx := fun ha => by
      cases tx with
      | none => exact ha
      | some t => exact Finset.mem_insert_of_mem ha
    have hidle : (w.after o w.env (joining o.s.transactions tx)).Tidy :=
      hw.after ho (fun _ hn => hn) (fun _ _ => hjoin) fun _ he => Or.inl he
    rw [indexInsert_opened B F ho (hc.writable _ _ hlive)]
    rcases F .put with _ | ⟨_ | _⟩
    · refine hw.after ho (write_isSome tx _) (fun _ _ => hjoin) fun e he => ?_
      rcases write_log (by rw [hpairs]; rfl) he with hold | ⟨hname, himage, howner⟩
      · exact Or.inl hold
      · obtain rfl : tx = some e.1 := howner
        exact Or.inr ⟨hname, himage, Finset.mem_insert_self ..⟩
    · exact hidle
    · exact hidle

/-- Once the nested transaction is committed, its write is the caller's. -/
theorem bodyEnv_commit (hc : w.Consistent) (B : BerkeleyDB) {tx : Option TxnPtr}
    (htx : ∀ t ∈ tx, t ∈ w.env.dbs.ids) (o : Opened) (body : Body) :
    ((w.bodyEnv B o tx body).commit (w.env.txnBegin B tx).1).dbs =
      if body.wrote then (w.env.write tx o.index.name body.pairs).dbs else w.env.dbs := by
  have hfresh := txnBegin_fresh B w.env tx
  have hne : ∀ t ∈ tx, t ≠ (w.env.txnBegin B tx).1 := fun t ht hc => hfresh (hc ▸ htx t ht)
  cases hwrote : body.wrote with
  | false =>
    simp only [bodyEnv, hwrote, Bool.false_eq_true, if_false]
    exact UndoLog.begin_commit hc.wf hfresh fun hc => hne _ hc rfl
  | true =>
    simp only [bodyEnv, hwrote, if_true]
    cases tx with
    | none => exact UndoLog.begin_write_commit hc.wf hfresh _ _
    | some t => exact UndoLog.begin_write_commit_child hc.wf hfresh (hne t rfl) _ _

/-- What an update or a delete leaves behind: its own before-image, which belongs to the nested
    transaction while this is unresolved and to the caller's afterwards. -/
theorem indexModify_tidy (hw : w.Tidy) (hc : w.Consistent) (B : BerkeleyDB) (F : Faults)
    (cw : CursorWrite) (loopError : ErrorCode) {tx : Option TxnPtr}
    (htx : ∀ t ∈ tx, t ∈ w.env.dbs.ids) (h : IndexPtr) (r : Record) (flags : UInt8) :
    (w.indexModify B F cw loopError tx h r flags).2.Tidy := by
  cases ho : w.opened h with
  | none => simpa [indexModify, ho] using hw
  | some o =>
    obtain ⟨-, -, hlive, hpairs, -⟩ := opened_eq_some ho
    have hfresh := txnBegin_fresh B w.env tx
    rw [indexModify_opened B F cw loopError ho (hc.writable _ _ hlive)]
    cases F.thrown .txnBegin with
    | some e => exact hw
    | none =>
      simp only
      generalize modifyBody B F o.s o.cmp cw loopError r flags o.pairs = body
      have hname : (w.env.pairs o.index.name).isSome := by rw [hpairs]; rfl
      have hkept : ∀ {a}, a ∈ o.s.transactions →
          a ∈ registering o.s.transactions tx (w.env.txnBegin B tx).1 body.wrote := by
        intro a ha
        cases tx <;> cases body.wrote <;> simp [registering, ha]
      -- left unresolved
      have hopen : (w.after o (w.bodyEnv B o tx body)
          (registering o.s.transactions tx (w.env.txnBegin B tx).1 body.wrote)).Tidy := by
        refine hw.after ho (fun n hn => ?_) (fun _ _ => hkept) fun e he => ?_
        · rw [DbEnv.pairs, bodyEnv_store]
          split
          · rcases eq_or_ne n o.index.name with rfl | hne
            · simp
            · simpa [hne, DbEnv.pairs] using hn
          · exact hn
        · unfold bodyEnv at he
          split at he
          · rcases List.mem_cons.mp he with rfl | he
            · exact Or.inr ⟨rfl, hname, mem_registering ..⟩
            · exact Or.inl he
          · exact Or.inl he
      cases body.outcome with
      | throws e => exact hopen
      | stuck => exact hopen
      | ret code =>
        have hnested := bodyEnv_nested B w o tx body
        cases F.thrown .txnCommit with
        | some e =>
          have hne : tx ≠ some (w.env.txnBegin B tx).1 := fun hc => hfresh (htx _ hc)
          have habort : ((w.bodyEnv B o tx body).abort (w.env.txnBegin B tx).1).dbs = w.env.dbs :=
            hnested.abort_eq hc.wf hfresh hne
          refine hw.after ho (fun n hn => ?_) (fun _ _ => hkept) fun e he => ?_
          · rw [DbEnv.pairs, habort]; exact hn
          · rw [habort] at he; exact Or.inl he
        | none =>
          have hcommit := bodyEnv_commit hc B htx o body
          refine hw.after ho (fun n hn => ?_) (fun e he ha => ?_) fun e he => ?_
          · rw [DbEnv.pairs, hcommit]
            split
            · exact write_isSome tx _ n hn
            · exact hn
          · have hold : e.1 ≠ (w.env.txnBegin B tx).1 := fun hc' =>
              hfresh (hc' ▸ hc.wf.owners e he)
            exact Finset.mem_erase.mpr ⟨hold, hkept ha⟩
          · rw [hcommit] at he
            split at he
            · next hwrote =>
              rcases write_log hname he with hold | ⟨hplace, himage, howner⟩
              · exact Or.inl hold
              · obtain rfl : tx = some e.1 := howner
                refine Or.inr ⟨hplace, himage, Finset.mem_erase.mpr ⟨fun hc' => ?_, ?_⟩⟩
                · exact hfresh (hc' ▸ htx _ rfl)
                · simp [registering, hwrote]
            · exact Or.inl he

theorem guarded_tidy (hw : w.Tidy) {r : Record} {work : IndexPtr → Record → Answer × World}
    (hwork : (work h r).2.Tidy) : (w.guarded (some h) (some r) work).2.Tidy := by
  unfold guarded
  rcases w.refusal (some h) (some r) with (_ | code) | e | _
  · exact hwork
  · exact hw
  · exact hw
  · exact hw

theorem modify_tidy (hw : w.Tidy) (hc : w.Consistent) (B : BerkeleyDB) (F : Faults)
    {tx : Option TxnPtr} (htx : ∀ t ∈ tx, t ∈ w.env.dbs.ids) (h : IndexPtr) (m : Modification) :
    (w.modify B F tx h m).2.Tidy := by
  cases m with
  | insert r =>
    refine guarded_tidy hw ?_
    rw [caught_snd]
    exact indexInsert_tidy hw hc B F tx h r
  | update r payload flags =>
    refine guarded_tidy hw ?_
    rw [caught_snd]
    exact indexModify_tidy hw hc B F _ _ htx h r flags
  | delete r flags =>
    refine guarded_tidy hw ?_
    rw [caught_snd]
    exact indexModify_tidy hw hc B F _ _ htx h r flags

/-! ### Transactions -/

theorem Tidy.abort (hw : w.Tidy) (t : TxnPtr) : (w.setEnv (w.env.abort t)).Tidy :=
  hw.setEnv (fun _ he => (List.mem_filter.mp he).1) fun n hn => by
    change (UndoLog.undo _ w.env.dbs.log w.env.dbs.store n).isSome
    -- what is there stays, or an image is put back
    rcases UndoLog.undo_cases (· ∈ UndoLog.family w.env.dbs.live t) n w.env.dbs.log
      w.env.dbs.store with hsame | ⟨e, he, -, hback⟩
    · rw [hsame]
      exact hw.stored n hn
    · rw [hback]
      exact (hw.images e he).1

theorem abort_owners (w : World) (t : TxnPtr) : ∀ e ∈ (w.env.abort t).dbs.log, e.1 ≠ t :=
  fun e he hc => by
    have hout := (List.mem_filter.mp he).2
    rw [hc] at hout
    simp [UndoLog.self_mem_family] at hout

/-- A client's transaction has no parent. -/
theorem Began.parentOf (hwf : w.env.dbs.Wf) (ht : w.Began t) : w.env.dbs.parentOf t = none := by
  have hnodup := hwf.nodup
  unfold UndoLog.ids at hnodup
  unfold Began at ht
  unfold UndoLog.parentOf
  generalize w.env.dbs.live = live at hnodup ht
  induction live with
  | nil => simp at ht
  | cons e live ih =>
    obtain ⟨hhead, htail⟩ := List.nodup_cons.mp hnodup
    rcases List.mem_cons.mp ht with rfl | ht
    · simp
    · have hne : e.1 ≠ t := fun hc => hhead (List.mem_map.mpr ⟨_, ht, hc.symm⟩)
      rw [List.find?_cons_of_neg (by simpa using hne)]
      exact ih htail ht

theorem commit_log (hwf : w.env.dbs.Wf) (ht : w.Began t) :
    (w.env.commit t).dbs.log =
      w.env.dbs.log.filter fun e => e.1 ∉ UndoLog.family w.env.dbs.live t := by
  simp only [DbEnv.commit, UndoLog.commit, ht.parentOf hwf]

theorem Tidy.commit (hw : w.Tidy) (hwf : w.env.dbs.Wf) (ht : w.Began t) :
    (w.setEnv (w.env.commit t)).Tidy :=
  hw.setEnv (fun _ he => (List.mem_filter.mp (commit_log hwf ht ▸ he)).1) hw.stored

/-- A transaction without before-images can be unregistered everywhere. -/
theorem Tidy.closeTransaction (hw : w.Tidy) (hlog : ∀ e ∈ w.env.dbs.log, e.1 ≠ t) :
    (w.closeTransaction t).Tidy := by
  have hsome : ∀ p, ((w.closeTransaction t).structures p).isSome = (w.structures p).isSome := by
    intro p
    rw [closeTransaction_structures]
    split <;> simp
  have hfind : ∀ n, (w.closeTransaction t).find n = w.find n := fun n => by
    rw [closeTransaction_eq]; rfl
  generalize hv : w.closeTransaction t = v at hsome hfind ⊢
  have hsame : v.env = w.env ∧ v.handles = w.handles ∧ v.iterators = w.iterators ∧
      v.free = w.free := by
    rw [← hv, closeTransaction_eq]; exact ⟨rfl, rfl, rfl, rfl⟩
  obtain ⟨henv, hhandles, hiterators, hfree⟩ := hsame
  exact
    { allocated := fun p hp => hfree ▸ hw.allocated p (hsome p ▸ hp)
      mapped := fun n p hp => hfree ▸ hw.mapped n p (hfind n ▸ hp)
      held := fun h hh => hfree ▸ hw.held h (hhandles ▸ hh)
      referred := fun h idx p hidx hp => hfree ▸ hw.referred h idx p (hhandles ▸ hidx) hp
      iterated := fun i it hit => hfree ▸ hw.iterated i it (hiterators ▸ hit)
      named := fun h idx p hidx hp hlive =>
        (hfind idx.name).trans (hw.named h idx p (hhandles ▸ hidx) hp (hsome p ▸ hlive))
      stored := fun n hn => by
        have hknown : (v.known n).isSome = (w.known n).isSome := by
          rw [World.known, World.known, hfind]
          cases w.find n with
          | none => rfl
          | some p => exact hsome p
        rw [henv]
        exact hw.stored n (hknown ▸ hn)
      images := fun e he => by
        rw [henv] at he
        obtain ⟨himage, s, hs, howner⟩ := hw.images e he
        obtain ⟨p, hp, hp'⟩ := known_eq_some.mp hs
        have hstructure := closeTransaction_structures w t p
        rw [if_pos (mem_of_find hp), hp', hv] at hstructure
        exact ⟨himage, _, known_eq_some.mpr ⟨p, (hfind _).trans hp, hstructure⟩,
          Finset.mem_erase.mpr ⟨hlog e he, howner⟩⟩ }

theorem abortTransaction_tidy (hw : w.Tidy) (F : Faults) (tx : Option TxnPtr) :
    (w.abortTransaction F tx).2.2.Tidy := by
  rcases abortTransaction_cases F w tx with hsame | ⟨t, -, haborted⟩
  · rwa [hsame]
  · rw [haborted]
    exact (hw.abort t).closeTransaction (abort_owners w t)

theorem commitTransaction_tidy (hw : w.Tidy) (hc : w.Consistent) (F : Faults) {tx : Option TxnPtr}
    (htx : w.Passes tx) : (w.commitTransaction F tx).2.2.Tidy := by
  rcases commitTransaction_cases F w tx with hsame | ⟨t, rfl, haborted | hagain | hcommitted⟩
  · rwa [hsame]
  · rw [haborted]
    exact hw.abort t
  · rw [hagain]
    exact abortTransaction_tidy (hw.abort t) F (some t)
  · rw [hcommitted]
    have hlog := commit_log hc.wf (htx t rfl)
    refine (hw.commit hc.wf (htx t rfl)).closeTransaction fun e he hc' => ?_
    have hout := (List.mem_filter.mp (hlog ▸ he : e ∈ List.filter _ _)).2
    rw [hc'] at hout
    simp [UndoLog.self_mem_family] at hout

/-! ### Every call -/

/-- STEP: every call keeps a tidy state tidy, whatever fails in it. -/
theorem perform_tidy (B : BerkeleyDB) (F : Faults) (hw : w.Tidy) (hc : w.Consistent) {c : Call}
    (hlive : c.Live w) : (w.perform B F c).2.Tidy := by
  cases c with
  | beginTransaction =>
    simp only [perform, beginTransaction]
    split
    · exact hw
    · exact hw
    · exact hw.setEnv (fun _ he => he) hw.stored
  | abortTransaction tx => exact abortTransaction_tidy hw F tx
  | commitTransaction tx => exact commitTransaction_tidy hw hc F hlive
  | createIndex name types => exact createIndex_tidy hw F name types
  | openIndex name => exact openIndex_tidy hw F name
  | closeIndex idx => exact hw.onlyHandles (closeIndex_only F w idx)
  | deleteIndex name => exact deleteIndex_tidy hw F name
  | modify tx idx m =>
    exact (modify_tidy hw hc B F (fun t ht => (hlive.1 t ht).mem_ids) idx m).follow B w idx m
  | getRecords tx idx minKeys maxKeys it => exact getRecords_tidy hw F tx idx minKeys maxKeys it
  | getNext it => exact getNext_tidy hw B F it
  | closeIterator it => exact closeIterator_tidy hw F it

end World

end Contest
