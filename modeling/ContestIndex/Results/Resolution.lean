import ContestIndex.Results.Sound

/-! @src example/BDBImpl.cc | name:How a commit ends | layer:results

    `CommitTransaction` has three exits. Only the first one unregisters the transaction from the indexes
    and resets the caller's handle. The second one does neither. The third one leaves both to
    `AbortTransaction`, which begins with an abort on a handle that the commit has already released.

        commit ──ok──▶ CloseTransaction, *tx = NULL                          kOk
               ──DbDeadlockException──▶                                      kTransactionAborted
               ──DbException──▶ abort on the dead handle, CloseTransaction … kTransactionAborted -/

namespace Contest
open Schemes

namespace World
variable {F : Faults} {w : World} {t : TxnPtr}

/-- No index that the manager knows has `t` among its open transactions. -/
def Unregistered (w : World) (t : TxnPtr) : Prop :=
  ∀ p ∈ w.indices.map (·.2), ∀ s, w.structures p = some s → t ∉ s.transactions

/-- `CommitTransaction` comes back without using the handle again, and where it answers kOk or
    kTransactionAborted the caller's handle is NULL and no index has `t` registered. -/
def ResolvedByCommit (F : Faults) (w : World) (t : TxnPtr) : Prop :=
  let ended := w.commitTransaction F (some t)
  ended.1 ≠ none ∧ (ended.1 = some .kOk ∨ ended.1 = some .kTransactionAborted →
    ended.2.1 = none ∧ ended.2.2.Unregistered t)

/-- `CloseTransaction` reaches every index. -/
theorem closeTransaction_unregistered (w : World) (t : TxnPtr) :
    (w.closeTransaction t).Unregistered t := by
  have hindices : (w.closeTransaction t).indices = w.indices := by rw [closeTransaction_eq]
  intro p hp s hs
  rw [hindices] at hp
  rw [closeTransaction_structures, if_pos hp, Option.map_eq_some_iff] at hs
  obtain ⟨s', -, rfl⟩ := hs
  exact Finset.notMem_erase t s'.transactions

/-- Once a transaction is resolved, aborting it does not come back. -/
theorem abortTransaction_resolved (F : Faults) (w : World) (t : TxnPtr) :
    abortTransaction F (w.setEnv (w.env.abort t)) (some t) =
      (none, some t, w.setEnv (w.env.abort t)) := by
  have hgone : t ∉ (w.setEnv (w.env.abort t)).env.dbs.ids := UndoLog.not_mem_others w.env.dbs t
  simp [abortTransaction, hgone]

/-- DIVERGES: a commit resolves the transaction if and only if Berkeley DB's commit does not throw. -/
theorem commit_resolves_iff (ht : t ∈ w.env.dbs.ids) :
    ResolvedByCommit F w t ↔ F.thrown .txnCommit = none := by
  unfold ResolvedByCommit
  rcases hthrown : F.thrown .txnCommit with _ | e
  · have hcall : w.commitTransaction F (some t) =
        (some .kOk, none, (w.setEnv (w.env.commit t)).closeTransaction t) := by
      simp [commitTransaction, ht, hthrown]
    rw [hcall]
    exact iff_of_true ⟨by simp, fun _ => ⟨rfl, closeTransaction_unregistered _ t⟩⟩ rfl
  · refine iff_of_false ?_ (by simp)
    rintro ⟨hback, hresolved⟩
    by_cases he : e = .DbDeadlockException
    · -- this exit leaves the caller's handle as it is
      have hcall : w.commitTransaction F (some t) =
          (some .kTransactionAborted, some t, w.setEnv (w.env.abort t)) := by
        simp [commitTransaction, ht, hthrown, he]
      rw [hcall] at hresolved
      have hnull := (hresolved (Or.inr rfl)).1
      contradiction
    · have hcall : w.commitTransaction F (some t) =
          (none, some t, w.setEnv (w.env.abort t)) := by
        cases e <;> simp [commitTransaction, ht, hthrown, abortTransaction_resolved] at he ⊢
      rw [hcall] at hback
      exact hback rfl

/-- The transaction 1 has inserted into the index "x". -/
def oneWriter : World :=
  (run (perform .plain noFaults) initial [.createIndex "x" (some [.kShort]), .openIndex "x",
    .beginTransaction, .modify (some 1) 1 (.insert ⟨shortKey 1, [7]⟩)]).2

/-- After a deadlock the transaction is aborted, but its handle and its registration remain. -/
theorem deadlock_keeps_registration :
    let F : Faults := fun site =>
      if site = .txnCommit then some (.throws .DbDeadlockException) else none
    1 ∈ oneWriter.env.dbs.ids ∧ ¬ResolvedByCommit F oneWriter 1 ∧
      (oneWriter.commitTransaction F (some 1)).1 = some .kTransactionAborted ∧
      (oneWriter.commitTransaction F (some 1)).2.1 = some 1 ∧
      ((oneWriter.commitTransaction F (some 1)).2.2.deleteIndex noFaults "x").1 =
        some .kErrorOpenTransactions := by
  intro F
  have hhandle : (oneWriter.commitTransaction F (some 1)).2.1 = some 1 := by decide
  have hcode : (oneWriter.commitTransaction F (some 1)).1 = some .kTransactionAborted := by decide
  refine ⟨by decide, fun hresolved => ?_, hcode, hhandle, by decide⟩
  have hnull := (hresolved.2 (Or.inr hcode)).1
  rw [hhandle] at hnull
  contradiction

/-- A commit that does not throw. -/
theorem commit_resolves_at : ResolvedByCommit noFaults oneWriter 1 :=
  (commit_resolves_iff (by decide)).mpr rfl

end World

end Contest
