import ContestIndex.Results.Calls

/-! @src example/Index.cc | name:Calls that fail part-way | layer:results

    `UpdateRecord` and `DeleteRecord` work under a nested transaction that is registered with the
    structure. Nothing in `Index::Update` or `Index::Delete` catches an exception, and every other
    exit commits: an exception leaves the nested transaction open and registered, an exception of
    the commit leaves it registered, and an error in the loop over the duplicates commits what the
    loop has written so far. The theorem says which failures do no harm.

        txn_begin ─▶ cursor ─▶ get 0 ─▶ write 0 ─▶ [ get n ─▶ write n ]… ─▶ commit ─▶ end_transaction -/

namespace Contest
open Schemes World

/-! ### Which calls are made -/

/-- The number of a `get` or write. -/
def CallSite.ordinal : CallSite → Nat
  | .get n => n
  | .write n => n
  | _ => 0

/-- The calls of the loop over these duplicates, if none fails. -/
def loopCalls (n : Nat) : List Pair → List CallSite
  | [] => [.get n]
  | _ :: qs => .get n :: .write n :: loopCalls (n + 1) qs

/-- The pairs that are written, if no call fails. -/
def targets (s : IndexStructure) (r : Record) (flags : UInt8) (pairs : List Pair) : List Pair :=
  match search s r flags pairs with
  | some (some c) =>
    c.cur :: if hasFlag flags kMatchDuplicates then
      reached s.dbKeycmp (dupMove flags) c.cur.1 c.after else []
  | _ => []

/-- The calls of the cursor, if none fails. -/
def cursorCalls (s : IndexStructure) (r : Record) (flags : UInt8) (pairs : List Pair) :
    List CallSite :=
  .get 0 :: match search s r flags pairs with
    | some (some c) =>
      .write 0 :: if hasFlag flags kMatchDuplicates then
        loopCalls 1 (reached s.dbKeycmp (dupMove flags) c.cur.1 c.after) else []
    | _ => []

/-- The first call that fails. -/
def firstFailure (F : Faults) (calls : List CallSite) : Option CallSite :=
  calls.find? fun site => (F site).isSome

theorem firstFailure_here {F : Faults} {site : CallSite} {failure : Failure}
    (h : F site = some failure) (calls : List CallSite) :
    firstFailure F (site :: calls) = some site := by simp [firstFailure, h]

theorem firstFailure_later {F : Faults} {site : CallSite} (h : F site = none)
    (calls : List CallSite) : firstFailure F (site :: calls) = firstFailure F calls := by
  simp [firstFailure, h]

theorem failing_of_firstFailure {F : Faults} {calls : List CallSite} {site : CallSite}
    (h : firstFailure F calls = some site) : ∃ failure, F site = some failure :=
  Option.isSome_iff_exists.mp (@List.find?_some _ (fun site => (F site).isSome) site calls h)

/-- The process ends in an assertion of `keycmp` behind the first `get`. -/
def Asserts (F : Faults) (s : IndexStructure) (r : Record) (flags : UInt8) (pairs : List Pair) :
    Prop :=
  match F (.get 0) with
  | none => search s r flags pairs = none
  | some (.returns err) => searchFailed s r flags err = .stuck
  | some (.throws _) => False

/-- No call of the cursor throws, and when a `get` or write of the loop fails with an error other than
    DB_NOTFOUND, the pairs written before have not been changed by it. -/
def Harmless (F : Faults) (s : IndexStructure) (w : CursorWrite) (r : Record) (flags : UInt8)
    (pairs : List Pair) : Prop :=
  ∀ site ∈ firstFailure F (cursorCalls s r flags pairs),
    ∃ err, F site = some (.returns err) ∧
      (err ≠ .DB_NOTFOUND → ∀ q ∈ (targets s r flags pairs).take site.ordinal, w.pair q = some q)

/-! ### The body -/

/-- How the loop ends when one of its calls fails. -/
def Failure.ended : Failure → Outcome (Option DbError)
  | .throws e => .throws e
  | .returns err => .ret (some err)

theorem ordinal_loopCalls : ∀ {n : Nat} {qs : List Pair} {site : CallSite},
    site ∈ loopCalls n qs → n ≤ site.ordinal
  | n, [], site, h => by
    obtain rfl : site = .get n := by simpa [loopCalls] using h
    exact Nat.le_refl n
  | n, _ :: qs, site, h => by
    simp only [loopCalls, List.mem_cons] at h
    rcases h with rfl | rfl | h
    · exact Nat.le_refl n
    · exact Nat.le_refl n
    · exact (Nat.le_succ n).trans (ordinal_loopCalls h)

/-- The loop writes until its first failing call. -/
theorem dupList_of_failure {F : Faults} (w : CursorWrite) :
    ∀ {n : Nat} {qs : List Pair} {site : CallSite} {failure : Failure},
      firstFailure F (loopCalls n qs) = some site → F site = some failure →
      dupList F w n qs = (failure.ended,
        (qs.take (site.ordinal - n)).filterMap w.pair ++ qs.drop (site.ordinal - n))
  | n, [], site, failure, h, hF => by
    obtain rfl : site = .get n := by
      simpa [loopCalls, eq_comm] using List.mem_of_find?_eq_some h
    cases failure <;> simp [dupList, hF, Failure.ended]
  | n, q :: qs, site, failure, h, hF => by
    rw [loopCalls] at h
    cases hget : F (.get n) with
    | some f =>
      rw [firstFailure_here hget, Option.some.injEq] at h
      subst h
      obtain rfl : f = failure := Option.some.inj (hget.symm.trans hF)
      cases f <;> simp [dupList, hget, Failure.ended, CallSite.ordinal]
    | none =>
      rw [firstFailure_later hget] at h
      cases hwrite : F (.write n) with
      | some f =>
        rw [firstFailure_here hwrite, Option.some.injEq] at h
        subst h
        obtain rfl : f = failure := Option.some.inj (hwrite.symm.trans hF)
        cases f <;> simp [dupList, hget, hwrite, Failure.ended, CallSite.ordinal]
      | none =>
        rw [firstFailure_later hwrite] at h
        have ih := dupList_of_failure w h hF
        have hle := ordinal_loopCalls (List.mem_of_find?_eq_some h)
        obtain ⟨k, hk⟩ : ∃ k, site.ordinal - n = k + 1 := ⟨site.ordinal - (n + 1), by omega⟩
        have hk' : site.ordinal - (n + 1) = k := by omega
        rw [hk'] at ih
        rw [dupList, hget, hwrite, ih, hk, List.take_succ_cons, List.drop_succ_cons]
        cases hq : w.pair q <;> simp [hq]

theorem dupList_of_no_failure {F : Faults} (w : CursorWrite) : ∀ {n : Nat} {qs : List Pair},
    firstFailure F (loopCalls n qs) = none →
      dupList F w n qs = (.ret (some .DB_NOTFOUND), qs.filterMap w.pair)
  | n, [], h => by
    have hget : F (.get n) = none := by simpa [firstFailure, loopCalls] using h
    rw [dupList, hget]; rfl
  | n, q :: qs, h => by
    rw [loopCalls] at h
    cases hget : F (.get n) with
    | some f => rw [firstFailure_here hget] at h; contradiction
    | none =>
      rw [firstFailure_later hget] at h
      cases hwrite : F (.write n) with
      | some f => rw [firstFailure_here hwrite] at h; contradiction
      | none =>
        rw [firstFailure_later hwrite] at h
        rw [dupList, hget, hwrite, dupList_of_no_failure w h]
        cases hq : w.pair q <;> simp [hq]

/-- Writing changes nothing exactly if it changes no single pair. -/
theorem filterMap_pair_eq_self (w : CursorWrite) : ∀ {l : List Pair},
    l.filterMap w.pair = l ↔ ∀ q ∈ l, w.pair q = some q
  | [] => by simp
  | q :: l => by
    rw [List.forall_mem_cons, ← filterMap_pair_eq_self w, List.filterMap_cons]
    cases hq : w.pair q with
    | some p => simp
    | none =>
      simp only [reduceCtorEq, false_and, iff_false]
      intro h
      have hlen := List.length_filterMap_le w.pair l
      rw [h, List.length_cons] at hlen
      omega

/-- How much harm is done when the body has ended like this. -/
def Body.Clean (F : Faults) (pairs : List Pair) (b : Body) : Prop :=
  match b.outcome with
  | .throws _ => False
  | .stuck => True
  | .ret code =>
    F.thrown .txnCommit = none ∧ (code ≠ .kOk → b.wrote = true → b.pairs = pairs)

section Body
variable {F : Faults} {s : IndexStructure} {w : CursorWrite} {r : Record} {flags : UInt8}
  {pairs : List Pair} {loopError : ErrorCode}

/-- What a loop has written up to its failing call is harmless exactly if no pair has changed. -/
theorem written_eq_iff {c : Cursor Pair} {n : Nat} {qs ys : List Pair}
    (hsplit : pairs = c.before ++ c.cur :: (qs ++ ys)) :
    c.before ++ (w.pair c.cur).toList ++ ((qs.take n).filterMap w.pair ++ qs.drop n) ++ ys = pairs ↔
      ∀ q ∈ (c.cur :: qs).take (n + 1), w.pair q = some q := by
  have hpairs : pairs = c.before ++ ((c.cur :: qs.take n) ++ (qs.drop n ++ ys)) := by
    rw [hsplit, List.cons_append, ← List.append_assoc (qs.take n), List.take_append_drop]
  have hwritten : (w.pair c.cur).toList ++ (qs.take n).filterMap w.pair =
      (c.cur :: qs.take n).filterMap w.pair := by
    cases hc : w.pair c.cur <;> simp [hc]
  rw [List.take_succ_cons, ← filterMap_pair_eq_self, ← hwritten, hpairs]
  simp only [List.append_assoc, List.append_cancel_left_eq]
  rw [← List.append_assoc, List.append_cancel_right_eq]

/-- The loop with its failures. -/
theorem writeFrom_clean_iff (hloop : loopError ≠ .kOk) {c : Cursor Pair}
    (hfound : search s r flags pairs = some (some c)) (hget : F (.get 0) = none) :
    (writeFrom F s w loopError flags c).Clean F pairs ↔
      F.thrown .txnCommit = none ∧ Harmless F s w r flags pairs := by
  obtain ⟨-, hsplit, -⟩ := search_found hfound
  rw [← @reached_append_beyond s.dbKeycmp (dupMove flags) c.cur.1 c.after] at hsplit
  have hcalls : firstFailure F (cursorCalls s r flags pairs) =
      firstFailure F (.write 0 :: if hasFlag flags kMatchDuplicates then
        loopCalls 1 (reached s.dbKeycmp (dupMove flags) c.cur.1 c.after) else []) := by
    simp only [cursorCalls, hfound]
    rw [firstFailure_later hget]
  rw [writeFrom, Harmless, hcalls]
  cases hwrite : F (.write 0) with
  | some failure =>
    rw [firstFailure_here hwrite]
    cases failure with
    | throws e => simp [Body.Clean, hwrite]
    | returns err => simp [Body.Clean, hwrite, CallSite.ordinal]
  | none =>
    rw [firstFailure_later hwrite]
    by_cases hdup : hasFlag flags kMatchDuplicates = true
    · have htargets : targets s r flags pairs =
          c.cur :: reached s.dbKeycmp (dupMove flags) c.cur.1 c.after := by
        simp only [targets, hfound, if_pos hdup]
      simp only [if_pos hdup]
      cases hf : firstFailure F (loopCalls 1 (reached s.dbKeycmp (dupMove flags) c.cur.1 c.after)) with
      | none => simp [dupList_of_no_failure w hf, loopResult, Body.Clean]
      | some site =>
        obtain ⟨failure, hsite⟩ := failing_of_firstFailure hf
        rw [dupList_of_failure w hf hsite]
        cases failure with
        | throws e => simp [Failure.ended, loopResult, Body.Clean, hsite]
        | returns err =>
          cases err with
          | DB_NOTFOUND => simp [Failure.ended, loopResult, Body.Clean, hsite]
          | other =>
            have hle := ordinal_loopCalls (List.mem_of_find?_eq_some hf)
            have hwritten := @written_eq_iff w pairs c (site.ordinal - 1) _ _ hsplit
            rw [Nat.sub_add_cancel hle, ← htargets] at hwritten
            simp only [Failure.ended, loopResult, Body.Clean, Option.some.injEq, reduceCtorEq, if_false,
              hloop, ne_eq, not_false_eq_true, forall_const, hwritten, Option.mem_def, forall_eq', hsite,
              Failure.returns.injEq, exists_eq_left']
    · simp [if_neg hdup, Body.Clean, firstFailure]

theorem body_clean_iff (B : BerkeleyDB) (hs : SortedBy s.dbKeycmp pairs) (hloop : loopError ≠ .kOk) :
    (modifyBody B F s s.dbKeycmp w loopError r flags pairs).Clean F pairs ↔
      F.thrown .cursor = none ∧ (Asserts F s r flags pairs ∨
        F.thrown .txnCommit = none ∧ Harmless F s w r flags pairs) := by
  rw [modifyBody_eq B F hs]
  cases F.thrown .cursor with
  | some e => simp [Body.Clean]
  | none =>
    cases hget : F (.get 0) with
    | some failure =>
      have hcalls : firstFailure F (cursorCalls s r flags pairs) = some (.get 0) :=
        firstFailure_here hget _
      cases failure with
      | throws e => simp [Body.Clean, Asserts, Harmless, hcalls, hget]
      | returns err =>
        have hharmless : Harmless F s w r flags pairs := by
          simp [Harmless, hcalls, hget, CallSite.ordinal]
        have hended : ∀ e, searchFailed s r flags err ≠ .throws e := by
          intro e
          unfold searchFailed
          split
          · split <;> simp
          · simp
        cases hend : searchFailed s r flags err with
        | throws e => exact absurd hend (hended e)
        | stuck => simp [Body.Clean, Asserts, hget, hend]
        | ret code => simp [Body.Clean, Asserts, hget, hend, hharmless]
    | none =>
      cases hfound : search s r flags pairs with
      | none => simp [Body.Clean, Asserts, hget, hfound]
      | some found =>
        cases found with
        | none =>
          have hcalls : firstFailure F (cursorCalls s r flags pairs) = none := by
            simp [cursorCalls, hfound, firstFailure, hget]
          simp [Body.Clean, Asserts, Harmless, hget, hfound, hcalls]
        | some c =>
          have hwrite := writeFrom_clean_iff (w := w) hloop hfound hget
          simp [Asserts, hget, hfound, hwrite]

end Body

/-! ### The call -/

section Call
variable {w w' : World} {h : IndexPtr} {o : Opened} {r : Record} {tx : Option TxnPtr}

/-- The state once the caller's transaction, if there is one, has been committed. -/
def settled (w : World) : Option TxnPtr → World
  | none => w
  | some t => (w.commitTransaction noFaults (some t)).2.2

/-- The call from `w` to `w'` has had no effect: the nested transaction, if one has begun, is neither
    unresolved nor registered, and the content is what it was. -/
structure NoEffect (B : BerkeleyDB) (w w' : World) (o : Opened) (tx : Option TxnPtr) : Prop where
  resolved : w'.env.begun ≠ w.env.begun → (w.env.txnBegin B tx).1 ∉ w'.env.dbs.ids
  unregistered : w'.env.begun ≠ w.env.begun → ∀ s, w'.structures o.ptr = some s →
    (w.env.txnBegin B tx).1 ∉ s.transactions
  content : (settled w' tx).env.pairs o.index.name = w.env.pairs o.index.name

/-- When the call answers with an error it has had no effect. -/
def FailsClean (B : BerkeleyDB) (w : World) (o : Opened) (tx : Option TxnPtr)
    (result : Answer × World) : Prop :=
  ∀ code, result.1 = some code → code ≠ .kOk → NoEffect B w result.2 o tx

/-- The failures after which nothing is left: the record is refused, or `txn_begin` fails, or the cursor
    opens and then either the process ends in an assertion or the commit does not fail and neither
    does the rest in a harmful way. -/
def Recovers (F : Faults) (o : Opened) (w : CursorWrite) (r : Record) (flags : UInt8) : Prop :=
  r.key.length ≠ o.s.type.length ∨ F.thrown .txnBegin ≠ none ∨
    F.thrown .cursor = none ∧ (Asserts F o.s r flags o.pairs ∨
      F.thrown .txnCommit = none ∧ Harmless F o.s w r flags o.pairs)

theorem settled_pairs (w : World) (tx : Option TxnPtr) (name : String) :
    (settled w tx).env.pairs name = w.env.pairs name := by
  cases tx with
  | none => rfl
  | some t =>
    simp only [settled, commitTransaction, noFaults_thrown]
    split
    · rfl
    · rw [closeTransaction_env]; rfl

theorem indexModify_clean_iff (B : BerkeleyDB) (F : Faults) (cw : CursorWrite)
    (loopError : ErrorCode) {handler : DbException → ErrorCode}
    (hhandler : ∀ e, handler e ≠ .kOk) (ho : w.Open h o) (flags : UInt8) :
    FailsClean B w o tx (caught handler (w.indexModify B F cw loopError tx h r flags)) ↔
      F.thrown .txnBegin ≠ none ∨
        (modifyBody B F o.s o.s.dbKeycmp cw loopError r flags o.pairs).Clean F o.pairs := by
  rw [indexModify_opened B F cw loopError ho.opened ho.writable, ho.cmp]
  cases F.thrown .txnBegin with
  | some e =>
    simp only [ne_eq, reduceCtorEq, not_false_eq_true, true_or, iff_true]
    intro code _ _
    exact ⟨fun hc => absurd rfl hc, fun hc => absurd rfl hc, settled_pairs w tx _⟩
  | none =>
    simp only [ne_eq, not_true_eq_false, false_or]
    generalize hbody : modifyBody B F o.s o.s.dbKeycmp cw loopError r flags o.pairs = body
    cases hout : body.outcome with
    | throws e =>
      -- the nested transaction stays open
      simp only [Body.Clean, hout, iff_false]
      intro hclean
      have heffect := hclean (handler e) rfl (hhandler e)
      exact heffect.resolved (by simp [caught]) (by simp [caught])
    | stuck =>
      simp only [Body.Clean, hout, iff_true]
      intro code hcode
      simp [caught] at hcode
    | ret code =>
      cases hcommit : F.thrown .txnCommit with
      | some e =>
        -- the nested transaction is resolved, but stays registered
        simp only [Body.Clean, hout, hcommit, reduceCtorEq, false_and, iff_false]
        intro hclean
        have heffect := hclean (handler e) rfl (hhandler e)
        have hunreg := heffect.unregistered (by simp [caught, DbEnv.abort]) _
          (Function.update_self ..)
        exact hunreg (mem_registering ..)
      | none =>
        simp only [Body.Clean, hout, hcommit, true_and]
        have hstore : ((w.bodyEnv B o tx body).commit (w.env.txnBegin B tx).1).pairs o.index.name =
            if body.wrote then some body.pairs else some o.pairs := by
          change (w.bodyEnv B o tx body).dbs.store o.index.name = _
          rw [bodyEnv_store]
          cases body.wrote with
          | true => simp
          | false => exact ho.pairs
        constructor
        · intro hclean hne hwrote
          have hcontent := (hclean code rfl hne).content
          rw [settled_pairs, ho.pairs] at hcontent
          simp only [caught, after_env, hstore, hwrote, if_true, Option.some.injEq] at hcontent
          exact hcontent
        · intro hsame c hc hne
          obtain rfl : code = c := by simpa [caught] using hc
          refine ⟨fun _ => ?_, fun _ s hs => ?_, ?_⟩
          · exact UndoLog.not_mem_others _ _
          · obtain rfl : _ = s := by simpa [caught] using hs
            simp
          · rw [settled_pairs, ho.pairs]
            simp only [caught, after_env, hstore]
            cases hwrote : body.wrote with
            | true => simp [hsame hne hwrote]
            | false => rfl

/-- DIVERGES: a failing `UpdateRecord` or `DeleteRecord` leaves no trace if and only if the failure is
    one of those after which the code recovers. -/
theorem failed_call_no_effect_iff (B : BerkeleyDB) (F : Faults) (ho : w.Open h o)
    (tx : Option TxnPtr) (r : Record) (payload : Bytes) (flags : UInt8) :
    (FailsClean B w o tx (w.updateRecord B F tx (some h) (some r) (some payload) flags) ↔
      Recovers F o (.putCurrent payload) r flags) ∧
    (FailsClean B w o tx (w.deleteRecord B F tx (some h) (some r) flags) ↔
      Recovers F o .del r flags) := by
  have hwrite : ∀ e, catchWrite e ≠ .kOk := fun e => by cases e <;> simp [catchWrite]
  have hread : ∀ e, catchRead e ≠ .kOk := fun e => by cases e <;> simp [catchRead]
  have hrefused : FailsClean B w o tx (some .kErrorIncompatibleKey, w) :=
    fun _ _ _ => ⟨fun hc => absurd rfl hc, fun hc => absurd rfl hc, settled_pairs w tx _⟩
  rw [updateRecord, deleteRecord, ho.guarded_iff, ho.guarded_iff]
  unfold Recovers
  by_cases hlen : r.key.length = o.s.type.length
  · simp only [hlen, if_true, ne_eq, not_true_eq_false, false_or]
    constructor
    · rw [indexUpdate, indexModify_clean_iff B F _ _ hwrite ho, body_clean_iff B ho.sorted (by decide)]
    · rw [indexDelete, indexModify_clean_iff B F _ _ hread ho, body_clean_iff B ho.sorted (by decide)]
  · simp [hlen, hrefused]

end Call

/-- One call fails, the others do not. -/
def Faults.only (site : CallSite) (failure : Failure) : Faults :=
  fun x => if x = site then some failure else none

/-- A deadlock while the first pair is rewritten: the answer is kErrorDeadlock, and the nested
    transaction stays open. -/
theorem deadlock_leaves_transaction :
    ¬FailsClean .plain (single [.kShort] [shortPair 1 [7]]) (singleOpened [.kShort] [shortPair 1 [7]])
      none ((single [.kShort] [shortPair 1 [7]]).updateRecord .plain
        (.only (.write 0) (.throws .DbDeadlockException)) none (some 1) (some ⟨shortKey 1, [7]⟩)
        (some [9]) 0) := by
  intro hclean
  have heffect := hclean .kErrorDeadlock (by rfl) (by decide)
  exact heffect.resolved (by decide) (by decide)

/-- An error of the first search is reported and leaves nothing behind. -/
theorem failed_call_no_effect_at :
    FailsClean .plain (single [.kShort] [shortPair 1 [7]]) (singleOpened [.kShort] [shortPair 1 [7]])
      none ((single [.kShort] [shortPair 1 [7]]).updateRecord .plain
        (.only (.get 0) (.returns .other)) none (some 1) (some ⟨shortKey 1, [7]⟩) (some [9]) 0) := by
  have ho : (single [.kShort] [shortPair 1 [7]]).Open 1 (singleOpened [.kShort] [shortPair 1 [7]]) :=
    single_open (by decide)
  have hharmless : Harmless (.only (.get 0) (.returns .other)) (singleOpened [.kShort]
      [shortPair 1 [7]]).s (.putCurrent [9]) ⟨shortKey 1, [7]⟩ 0 [shortPair 1 [7]] := by
    intro site hsite
    obtain rfl : CallSite.get 0 = site := by
      simpa [cursorCalls, firstFailure, Faults.only] using hsite
    exact ⟨.other, rfl, fun _ q hq => by simp [CallSite.ordinal] at hq⟩
  exact (failed_call_no_effect_iff .plain _ ho none ⟨shortKey 1, [7]⟩ [9] 0).1.mpr
    (Or.inr (Or.inr ⟨rfl, Or.inr ⟨rfl, hharmless⟩⟩))

end Contest
