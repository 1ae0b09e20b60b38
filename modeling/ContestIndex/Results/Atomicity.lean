import ContestIndex.Results.Reachable

/-! @src example/BDBImpl.cc | name:All or nothing | layer:results

    Between `BeginTransaction` and its end a client modifies indexes with its transaction. Inserts
    write under it, updates and deletes under a nested transaction of their own; a call may fail
    anywhere and leave its nested transaction open.

        w ──begin──▶ w₁ ──modify──▶ … ──modify──▶ v ──abort───▶ the content of w
                                                  v ──commit──▶ the content that the same calls
                                                                with tx = NULL make of w

    Aborting: everything between is one piece of work inside the transaction (`UndoLog.Inside`).
    Committing: what a call answers and stores does not depend on the transaction, so the two runs
    go side by side in states that differ only in what `forget` drops. -/

namespace Contest
open Schemes

namespace World
variable {w v u : World} {h : IndexPtr} {o : Opened} {t : TxnPtr}

/-- A modification made with `tx`: the Berkeley DB calls that fail in it, the handle, the call. -/
def under (B : BerkeleyDB) (tx : Option TxnPtr) (w : World)
    (call : Faults × IndexPtr × Modification) : Answer × World :=
  w.modify B call.1 tx call.2.1 call.2.2

/-- The same calls, and nothing fails. -/
def quiet (calls : List (IndexPtr × Modification)) : List (Faults × IndexPtr × Modification) :=
  calls.map (Prod.mk noFaults)

theorem beginTransaction_ok {B : BerkeleyDB} {F : Faults} {w₁ : World}
    (h : w.beginTransaction B F = (some .kOk, some t, w₁)) :
    t = (w.env.txnBegin B none).1 ∧ w₁ = w.setEnv (w.env.txnBegin B none).2 := by
  unfold beginTransaction at h
  split at h
  · simp at h
  · simp at h
  · simp only [Prod.mk.injEq, Option.some.injEq, true_and] at h
    exact ⟨h.1.symm, h.2.symm⟩

theorem abortTransaction_ok {F : Faults} (h : (w.abortTransaction F (some t)).1 = some .kOk) :
    (w.abortTransaction F (some t)).2.2.env = w.env.abort t := by
  by_cases hmem : t ∈ w.env.dbs.ids
  · cases hF : F.thrown .txnAbort with
    | some e => simp [abortTransaction, hmem, hF] at h
    | none => simp [abortTransaction, hmem, hF, setEnv]
  · simp [abortTransaction, hmem] at h

theorem commitTransaction_ok {F : Faults} (h : (w.commitTransaction F (some t)).1 = some .kOk) :
    (w.commitTransaction F (some t)).2.2.env = w.env.commit t := by
  by_cases hmem : t ∈ w.env.dbs.ids
  · cases hF : F.thrown .txnCommit with
    | some e =>
      -- a commit that throws never ends with kOk
      cases e with
      | DbDeadlockException => simp [commitTransaction, hmem, hF] at h
      | _ =>
        simp only [commitTransaction, hmem, hF, not_true_eq_false, if_false] at h
        split at h <;> simp at h
    | none => simp [commitTransaction, hmem, hF, setEnv]
  · simp [commitTransaction, hmem] at h

/-! ### Aborting -/

theorem beginTransaction_inside (B : BerkeleyDB) (hw : w.Consistent) :
    (w.setEnv (w.env.txnBegin B none).2).Consistent ∧
      UndoLog.Inside w.env.dbs (w.env.txnBegin B none).2.dbs (w.env.txnBegin B none).1 :=
  ⟨hw.setEnv (UndoLog.begin_wf hw.wf (txnBegin_fresh B w.env none) (by simp)),
    UndoLog.Inside.begin hw.wf (txnBegin_fresh B w.env none)⟩

/-- STEP: a modification with the transaction stays inside it. -/
theorem under_inside (B : BerkeleyDB) (hv : v.Consistent ∧ UndoLog.Inside w.env.dbs v.env.dbs t)
    (call : Faults × IndexPtr × Modification) :
    (under B (some t) v call).2.Consistent ∧
      UndoLog.Inside w.env.dbs (under B (some t) v call).2.env.dbs t := by
  obtain ⟨hc, hin⟩ := hv
  have hworked := modify_worked B call.1 v (some t) call.2.1 call.2.2
  have htx : ∀ s ∈ some t, s ∈ v.env.dbs.ids := by
    rintro s ⟨⟩
    exact hin.mem_ids
  refine ⟨hc.worked htx hworked, ?_⟩
  rcases hworked with hsame | ⟨o, env, txns, -, hwork, hnext⟩
  · rw [under, hsame]; exact hin
  · rw [under, hnext]
    exact hwork.inside hin hc.wf (txnBegin_fresh B v.env (some t))

/-- RUN: so does a whole run. -/
theorem run_inside (B : BerkeleyDB) (hv : v.Consistent ∧ UndoLog.Inside w.env.dbs v.env.dbs t)
    (calls : List (Faults × IndexPtr × Modification)) :
    UndoLog.Inside w.env.dbs (run (under B (some t)) v calls).2.env.dbs t := by
  have hstep : ∀ u call, u.Consistent ∧ UndoLog.Inside w.env.dbs u.env.dbs t → True →
      (under B (some t) u call).2.Consistent ∧
        UndoLog.Inside w.env.dbs (under B (some t) u call).2.env.dbs t :=
    fun u call hu _ => under_inside B hu call
  have hany : Admissible (fun _ _ => True) (under B (some t)) v calls :=
    .of_forall fun _ _ => trivial
  exact (run_keeps hstep hv hany).2

/-! ### Committing -/

/-- The environment without its transactions. -/
def forgetEnv (store : String → Option (List Pair)) : DbEnv := ⟨⟨store, [], []⟩, 0⟩

/-- The state without its transactions. -/
def forget (w : World) : World :=
  { w with
    env := forgetEnv w.env.dbs.store
    structures := fun p => (w.structures p).map fun s => { s with transactions := ∅ } }

/-- What a handle works with, without transactions. -/
def Opened.forget (o : Opened) : Opened := { o with s := { o.s with transactions := ∅ } }

theorem forget_forget (w : World) : w.forget.forget = w.forget := by
  simp only [forget, forgetEnv, Option.map_map]
  rfl

theorem forget_find (w : World) (name : String) : w.forget.find name = w.find name := rfl

theorem forget_opened (w : World) (h : IndexPtr) :
    w.forget.opened h = (w.opened h).map Opened.forget := by
  have hstructures : ∀ p, w.forget.structures p =
      (w.structures p).map fun s => { s with transactions := ∅ } := fun _ => rfl
  have hpairs : ∀ name, w.forget.env.pairs name = w.env.pairs name := fun _ => rfl
  have hhandles : w.forget.handles h = w.handles h := rfl
  simp only [World.opened, forget_find, hstructures, hpairs, hhandles, Option.bind_eq_bind,
    Option.map_bind, Option.bind_map, Function.comp_def, apply_ite (Option.map Opened.forget),
    Option.map_some, Option.map_none]
  rfl

theorem forget_after (ho : w.opened h = some o) (env : DbEnv) (txns : Finset TxnPtr) :
    (w.after o env txns).forget = { w.forget with env := forgetEnv env.dbs.store } := by
  have hlive := (opened_eq_some ho).2.2.1
  have hstructures : (w.after o env txns).forget.structures = w.forget.structures := by
    funext p
    by_cases hp : p = o.ptr
    · subst hp; simp [forget, hlive]
    · simp [forget, hp]
  simp only [forget, World.mk.injEq] at hstructures ⊢
  exact ⟨rfl, rfl, hstructures, rfl, rfl, rfl⟩

/-- Nothing the checks of the API look at is forgotten. -/
theorem forget_refusal (w : World) (idx : Option IndexPtr) (record : Option Record) :
    w.forget.refusal idx record = w.refusal idx record := by
  have hcompatible : ∀ h key, w.forget.compatible h key = w.compatible h key := by
    intro h key
    simp only [World.compatible, forget]
    cases w.handles h with
    | none => rfl
    | some idx =>
      have hbind : (idx.structure_.bind w.forget.structures) =
          (idx.structure_.bind w.structures).map fun s => { s with transactions := ∅ } :=
        Option.map_bind.symm
      simp only [forget] at hbind
      simp only [hbind]
      cases idx.structure_.bind w.structures <;> rfl
  simp only [refusal, hcompatible]
  rfl

/-- The two ended in the same way, up to transactions. -/
def Agree {α : Type} (ended ended' : α × World) : Prop :=
  ended.1 = ended'.1 ∧ ended.2.forget = ended'.2.forget

theorem agree_after {α : Type} {v : World} {o' : Opened} (ho : w.opened h = some o)
    (ho' : v.opened h = some o') (hv : w.forget = v.forget) (a : α) {env env' : DbEnv}
    (hstore : env.dbs.store = env'.dbs.store) (txns txns' : Finset TxnPtr) :
    Agree (a, w.after o env txns) (a, v.after o' env' txns') := by
  refine ⟨rfl, ?_⟩
  change (w.after o env txns).forget = (v.after o' env' txns').forget
  rw [forget_after ho, forget_after ho', hv, hstore]

/-- What is stored does not depend on the transaction. -/
theorem write_store (w : World) (tx : Option TxnPtr) (name : String) (pairs : List Pair) :
    (w.env.write tx name pairs).dbs.store = Function.update w.env.dbs.store name (some pairs) := by
  cases tx <;> rfl

theorem indexInsert_agree (B : BerkeleyDB) (hw : w.Consistent) (tx : Option TxnPtr) (h : IndexPtr)
    (r : Record) :
    Agree (w.indexInsert B noFaults tx h r) (w.forget.indexInsert B noFaults none h r) := by
  have ho' := forget_opened w h
  cases ho : w.opened h with
  | none => rw [ho] at ho'; simp [indexInsert, ho, ho', Agree, forget_forget]
  | some o =>
    rw [ho] at ho'
    have hro : o.s.readOnly = false := hw.writable o.ptr o.s (opened_eq_some ho).2.2.1
    rw [indexInsert_opened B noFaults ho hro, indexInsert_opened B noFaults ho' hro]
    refine agree_after ho ho' (forget_forget w).symm _ ?_ _ _
    rw [write_store, write_store]
    rfl

theorem indexModify_agree (B : BerkeleyDB) (cw : CursorWrite) (loopError : ErrorCode)
    (hw : w.Consistent) (tx : Option TxnPtr) (h : IndexPtr) (r : Record) (flags : UInt8) :
    Agree (w.indexModify B noFaults cw loopError tx h r flags)
      (w.forget.indexModify B noFaults cw loopError none h r flags) := by
  have ho' := forget_opened w h
  cases ho : w.opened h with
  | none => rw [ho] at ho'; simp [indexModify, ho, ho', Agree, forget_forget]
  | some o =>
    rw [ho] at ho'
    have hro : o.s.readOnly = false := hw.writable o.ptr o.s (opened_eq_some ho).2.2.1
    rw [indexModify_opened B noFaults cw loopError ho hro,
      indexModify_opened B noFaults cw loopError ho' hro]
    have hbody : modifyBody B noFaults o.forget.s o.forget.cmp cw loopError r flags o.forget.pairs =
        modifyBody B noFaults o.s o.cmp cw loopError r flags o.pairs := rfl
    simp only [noFaults_thrown, hbody]
    generalize modifyBody B noFaults o.s o.cmp cw loopError r flags o.pairs = body
    have hstore : (w.bodyEnv B o tx body).dbs.store =
        (w.forget.bodyEnv B o.forget none body).dbs.store := by
      rw [bodyEnv_store, bodyEnv_store]
      rfl
    cases body.outcome with
    | throws e => exact agree_after ho ho' (forget_forget w).symm _ hstore _ _
    | stuck => exact agree_after ho ho' (forget_forget w).symm _ hstore _ _
    | ret code => exact agree_after ho ho' (forget_forget w).symm _ hstore _ _

theorem caught_agree (handler : DbException → ErrorCode) {ended ended' : Outcome ErrorCode × World}
    (h : Agree ended ended') : Agree (caught handler ended) (caught handler ended') := by
  obtain ⟨outcome, w⟩ := ended
  obtain ⟨outcome', w'⟩ := ended'
  obtain ⟨houtcome, hforget⟩ := h
  obtain rfl : outcome = outcome' := houtcome
  cases outcome <;> exact ⟨rfl, hforget⟩

theorem guarded_agree (w : World) {h : IndexPtr} {r : Record}
    {work work' : IndexPtr → Record → Answer × World} (hwork : Agree (work h r) (work' h r)) :
    Agree (w.guarded (some h) (some r) work) (w.forget.guarded (some h) (some r) work') := by
  have hrefused : ∀ answer : Answer, Agree (answer, w) (answer, w.forget) := fun answer =>
    ⟨rfl, (forget_forget w).symm⟩
  unfold guarded
  rw [forget_refusal]
  rcases w.refusal (some h) (some r) with (_ | code) | e | _
  · exact hwork
  · exact hrefused _
  · exact hrefused _
  · exact hrefused _

/-- STEP: when nothing fails, what a modification answers and stores does not depend on the
    transaction. -/
theorem modify_agree (B : BerkeleyDB) (hw : w.Consistent) (tx : Option TxnPtr) (h : IndexPtr)
    (m : Modification) : Agree (w.modify B noFaults tx h m) (w.forget.modify B noFaults none h m) := by
  cases m with
  | insert r => exact guarded_agree w (caught_agree _ (indexInsert_agree B hw tx h r))
  | update r payload flags =>
    exact guarded_agree w (caught_agree _ (indexModify_agree B _ _ hw tx h r flags))
  | delete r flags =>
    exact guarded_agree w (caught_agree _ (indexModify_agree B _ _ hw tx h r flags))

/-- The state `v` of a run inside the transaction `t`, which began in `w`, goes with the state `u` of
    the same calls in autocommit mode. -/
structure Alike (w : World) (t : TxnPtr) (v u : World) : Prop where
  inside : v.Consistent ∧ UndoLog.Inside w.env.dbs v.env.dbs t
  consistent : u.Consistent
  forget : v.forget = u.forget

/-- STEP: two states that go together answer alike and go together afterwards. -/
theorem under_alike (B : BerkeleyDB) (hvu : Alike w t v u)
    {call : Faults × IndexPtr × Modification} (hquiet : call.1 = noFaults) :
    (under B (some t) v call).1 = (under B none u call).1 ∧
      Alike w t (under B (some t) v call).2 (under B none u call).2 := by
  obtain ⟨F, h, m⟩ := call
  obtain rfl : F = noFaults := hquiet
  have hv := modify_agree B hvu.inside.1 (some t) h m
  have hu := modify_agree B hvu.consistent none h m
  rw [hvu.forget] at hv
  refine ⟨hv.1.trans hu.1.symm, under_inside B hvu.inside _, ?_, hv.2.trans hu.2.symm⟩
  exact hvu.consistent.worked (by simp) (modify_worked B noFaults u none h m)

/-- RUN: the run inside the transaction and the run in autocommit mode go side by side. -/
theorem run_alike (B : BerkeleyDB) (hvu : Alike w t v u) (calls : List (IndexPtr × Modification)) :
    (run (under B (some t)) v (quiet calls)).1 = (run (under B none) u (quiet calls)).1 ∧
      Alike w t (run (under B (some t)) v (quiet calls)).2 (run (under B none) u (quiet calls)).2 := by
  have hstep : ∀ v u (call : Faults × IndexPtr × Modification), Alike w t v u → call.1 = noFaults →
      (under B (some t) v call).1 = (under B none u call).1 ∧
        Alike w t (under B (some t) v call).2 (under B none u call).2 :=
    fun v u call hvu hquiet => under_alike B hvu hquiet
  have hquiet : Admissible (fun _ call => call.1 = noFaults) (under B (some t)) v (quiet calls) := by
    refine .of_forall fun call hcall => ?_
    obtain ⟨c, -, rfl⟩ := List.mem_map.mp hcall
    rfl
  exact run_simulates hstep hvu hquiet

/-- Every transaction begun since `w` is resolved, and there is nothing that aborting one could take
    back but what there was in `w`: what has been stored since is there for good. -/
def SettledSince (w v : World) : Prop :=
  v.env.dbs.live = w.env.dbs.live ∧ v.env.dbs.log = w.env.dbs.log

/-- CORRECT: a transaction is all or nothing. -/
theorem transaction_all_or_nothing (B : BerkeleyDB) (hw : Reachable B w) {F F' : Faults} {w₁ : World}
    (hbegin : w.beginTransaction B F = (some .kOk, some t, w₁)) :
    (∀ calls : List (Faults × IndexPtr × Modification),
      let v := (run (under B (some t)) w₁ calls).2
      let ended := v.abortTransaction F' (some t)
      ended.1 = some .kOk →
        SettledSince w ended.2.2 ∧ ∀ name, ended.2.2.env.pairs name = w.env.pairs name) ∧
    (∀ calls : List (IndexPtr × Modification),
      let v := (run (under B (some t)) w₁ (quiet calls)).2
      let ended := v.commitTransaction F' (some t)
      ended.1 = some .kOk →
        SettledSince w ended.2.2 ∧ ∀ name, ended.2.2.env.pairs name =
          (run (under B none) w (quiet calls)).2.env.pairs name) := by
  have hc := hw.consistent
  obtain ⟨rfl, rfl⟩ := beginTransaction_ok hbegin
  have hstart := beginTransaction_inside B hc
  constructor
  · intro calls v ended habort
    have hback : ended.2.2.env.dbs = w.env.dbs := by
      rw [abortTransaction_ok habort]
      exact (run_inside B hstart calls).abort_eq
    exact ⟨⟨by rw [hback], by rw [hback]⟩, fun name => congrFun (congrArg (·.store) hback) name⟩
  · intro calls v ended hcommit
    have halike : Alike w _ (w.setEnv (w.env.txnBegin B none).2) w := ⟨hstart, hc, rfl⟩
    have hforget := (run_alike B halike calls).2.forget
    have hkept : ended.2.2.env.dbs = { w.env.dbs with store := v.env.dbs.store } := by
      rw [commitTransaction_ok hcommit]
      exact (run_inside B hstart (quiet calls)).commit_eq
    refine ⟨⟨by rw [hkept], by rw [hkept]⟩, fun name => ?_⟩
    change ended.2.2.env.dbs.store name = _
    rw [hkept]
    exact congrFun (congrArg (·.env.dbs.store) hforget) name

/-- The state after creating and opening the index "x". -/
theorem single_reachable (B : BerkeleyDB) {types : List AttributeType} (ht : types ≠ []) :
    Reachable B (single types []) :=
  ⟨[(noFaults, .createIndex "x" (some types)), (noFaults, .openIndex "x")],
    ⟨trivial, trivial, trivial⟩, single_created ht⟩

/-- An unresolved transaction can be ended either way. -/
theorem ends_ok (ht : t ∈ v.env.dbs.ids) : (v.abortTransaction noFaults (some t)).1 = some .kOk ∧
    (v.commitTransaction noFaults (some t)).1 = some .kOk := by
  simp [abortTransaction, commitTransaction, ht]

/-- Two open indexes, and modifications of both: aborted behind a call that fails, and committed. -/
theorem transaction_all_or_nothing_at :
    let setup : List (Faults × Call) := [.createIndex "x" (some [.kShort]),
      .createIndex "y" (some [.kInt, .kShort]), .openIndex "x", .openIndex "y"].map (Prod.mk noFaults)
    let w := (run (faultyCall .plain) initial setup).2
    let t := (w.env.txnBegin .plain none).1
    let w₁ := w.setEnv (w.env.txnBegin .plain none).2
    let long : Key := some (Attribute.ofBytes .kInt (leBytes 8 5)) :: shortKey 1
    let calls : List (IndexPtr × Modification) := [(2, .insert ⟨shortKey 1, [7]⟩),
      (3, .insert ⟨long, [8]⟩), (2, .update ⟨shortKey 1, [7]⟩ [9] kMatchDuplicates),
      (3, .delete ⟨long, []⟩ kIgnorePayload)]
    let failing : Faults := fun site => if site = .write 0 then some (.throws .other) else none
    let failed : Faults × IndexPtr × Modification := (failing, 2, .delete ⟨shortKey 1, [9]⟩ 0)
    let aborted := ((run (under .plain (some t)) w₁ (quiet calls ++ [failed])).2.abortTransaction
      noFaults (some t)).2.2
    let committed := ((run (under .plain (some t)) w₁ (quiet calls)).2.commitTransaction
      noFaults (some t)).2.2
    let direct := (run (under .plain none) w (quiet calls)).2
    (SettledSince w aborted ∧ ∀ name, aborted.env.pairs name = w.env.pairs name) ∧
      SettledSince w committed ∧ ∀ name, committed.env.pairs name = direct.env.pairs name := by
  intro setup w t w₁ long calls failing failed aborted committed direct
  have hw : Reachable .plain w := ⟨setup, ⟨trivial, trivial, trivial, trivial, trivial⟩, rfl⟩
  have hinside := run_inside .plain (beginTransaction_inside .plain hw.consistent)
  obtain ⟨habort, hcommit⟩ := @transaction_all_or_nothing w t .plain hw noFaults noFaults w₁ rfl
  exact ⟨habort _ (ends_ok (hinside _).mem_ids).1, hcommit calls (ends_ok (hinside _).mem_ids).2⟩

end World

end Contest
