import ContestIndex.Results.Sound

/-! @src example/Index.cc | name:The registry of open transactions | layer:results

    `IndexStructure::transactions_` is there for one question: may the index be deleted? The answer is
    right if the set holds exactly the unresolved transactions that have modified the index. Who they
    are is recorded beside the run, from nothing but the calls and their answers (`note`):

        modify tx h m ──kOk──▶ tx joins the modifiers of h's index
        abort, commit tx ──kOk──▶ tx leaves the modifiers of every index -/

namespace Contest
open Schemes

namespace World
variable {w : World} {modifiers : String → Finset TxnPtr} {name : String} {p : StructurePtr}

/-- The unresolved transactions that have modified each index, after a call with this answer. -/
def note (w : World) (answer : Answer) (modifiers : String → Finset TxnPtr) :
    Call → String → Finset TxnPtr
  | .abortTransaction (some t) | .commitTransaction (some t) =>
    if answer = some .kOk then fun name => (modifiers name).erase t else modifiers
  | .modify (some t) h _ =>
    match w.handles h with
    | some idx =>
      if answer = some .kOk then
        Function.update modifiers idx.name (Insert.insert t (modifiers idx.name))
      else modifiers
    | none => modifiers
  | _ => modifiers

/-- A call in which nothing fails, with the record beside it. -/
def tracked (B : BerkeleyDB) (st : World × (String → Finset TxnPtr)) (c : Call) :
    Answer × World × (String → Finset TxnPtr) :=
  let ended := st.1.perform B noFaults c
  (ended.1, ended.2, note st.1 ended.1 st.2 c)

/-- Where a modification reaches an index, its key is fully set. -/
def KeyFullySet (w : World) : Call → Prop
  | .modify _ h m => ∀ o, w.opened h = some o → m.record.key.FullySet o.s.type
  | _ => True

/-- A call as a correct client makes it. -/
def Proper (st : World × (String → Finset TxnPtr)) (c : Call) : Prop :=
  c.Live st.1 ∧ st.1.KeyFullySet c

/-- The record does not influence the run. -/
theorem tracked_run (B : BerkeleyDB) : ∀ (calls : List Call) (st : World × (String → Finset TxnPtr)),
    (run (tracked B) st calls).1 = (run (perform B noFaults) st.1 calls).1 ∧
      (run (tracked B) st calls).2.1 = (run (perform B noFaults) st.1 calls).2
  | [], _ => ⟨rfl, rfl⟩
  | c :: calls, st => by
    obtain ⟨hanswers, hend⟩ := tracked_run B calls (tracked B st c).2
    exact ⟨congrArg (List.cons _) hanswers, hend⟩

/-- A modification through a handle that is not open is refused. -/
theorem modify_closed (B : BerkeleyDB) {h : IndexPtr} {idx : Index} (hidx : w.handles h = some idx)
    (hclosed : idx.closed = true) (tx : Option TxnPtr) (m : Modification) :
    w.modify B noFaults tx h m = (some .kErrorUnknownIndex, w) := by
  have hrefused : ∀ r work, w.guarded (some h) (some r) work = (some .kErrorUnknownIndex, w) := by
    intro r work
    simp [guarded, refusal, hidx, hclosed]
  cases m <;> exact hrefused _ _

theorem modify_sound (B : BerkeleyDB) (hs : w.Sound modifiers) {tx : Option TxnPtr} {h : IndexPtr}
    {m : Modification} (hlive : (Call.modify tx h m).Live w)
    (hkey : w.KeyFullySet (.modify tx h m)) :
    (w.modify B noFaults tx h m).2.Sound
      (note w (w.modify B noFaults tx h m).1 modifiers (.modify tx h m)) := by
  obtain ⟨hpasses, halive⟩ := hlive
  obtain ⟨idx, hidx⟩ := Option.isSome_iff_exists.mp halive
  cases hclosed : idx.closed with
  | true =>
    rw [modify_closed B hidx hclosed]
    cases tx <;> simpa [note, hidx] using hs
  | false =>
    obtain ⟨o, ho, rfl, he⟩ := hs.open_ hidx hclosed
    have htx : ∀ t ∈ tx, t ∈ w.env.dbs.ids := fun t ht => (hpasses t ht).mem_ids
    have htxns : ∀ t ∈ o.s.transactions, t ∈ w.env.dbs.ids := fun t ht =>
      hs.unresolved _ t (he.exact ▸ ht)
    obtain ⟨env, hcall, hdbs⟩ := modify_settles B ho hs.wf htx htxns (hkey o ho.opened)
    have hsettled := hs.settled ho htx (m.effect_sorted B ho.sorted) hdbs
    rw [hcall]
    have hnote : note w (some (m.effect B o.s o.pairs).1) modifiers (.modify tx h m) =
        settledModifiers modifiers tx o.index.name (m.effect B o.s o.pairs).1 := by
      by_cases hcode : (m.effect B o.s o.pairs).1 = .kOk
      · cases tx <;> simp [note, hidx, hcode, settledModifiers, settledTxns, joining]
      · cases tx <;> simp [note, hidx, hcode, settledModifiers, settledTxns]
    rw [hnote]
    exact hsettled

/-- STEP: a call in which nothing fails keeps the state sound, with the modifiers on record. -/
theorem tracked_sound (B : BerkeleyDB) {st : World × (String → Finset TxnPtr)}
    (hs : st.1.Sound st.2) {c : Call} (hc : Proper st c) :
    (tracked B st c).2.1.Sound (tracked B st c).2.2 := by
  obtain ⟨w, modifiers⟩ := st
  cases c with
  | beginTransaction => exact begin_sound B hs
  | abortTransaction tx =>
    cases tx with
    | none => exact hs
    | some t =>
      have hmem : t ∈ w.env.dbs.ids := (hc.1 t rfl).mem_ids
      have hcall : w.abortTransaction noFaults (some t) =
          (some .kOk, none, (w.setEnv (w.env.abort t)).closeTransaction t) := by
        simp [abortTransaction, hmem]
      simp only [tracked, perform, hcall, note, if_true]
      exact resolve_sound hs (abort_resolves hs t)
  | commitTransaction tx =>
    cases tx with
    | none => exact hs
    | some t =>
      have hmem : t ∈ w.env.dbs.ids := (hc.1 t rfl).mem_ids
      have hcall : w.commitTransaction noFaults (some t) =
          (some .kOk, none, (w.setEnv (w.env.commit t)).closeTransaction t) := by
        simp [commitTransaction, hmem]
      simp only [tracked, perform, hcall, note, if_true]
      exact resolve_sound hs (commit_resolves hs t)
  | createIndex name types =>
    change (w.createIndex noFaults name types).2.Sound modifiers
    rcases createIndex_cases noFaults w name types with
      ⟨code, -, hsame⟩ | ⟨ts, -, hname, -, hpairs, hcreated⟩
    · rw [hsame]
      exact hs
    · rw [hcreated]
      exact create_sound hs hname hpairs ts
  | openIndex name => exact openIndex_sound hs name
  | closeIndex idx => exact closeIndex_sound hs idx
  | deleteIndex name => exact deleteIndex_sound hs name
  | modify tx idx m => exact (modify_sound B hs hc.1 hc.2).iterators (follow_only B w idx m _)
  | getRecords tx idx minKeys maxKeys it =>
    exact hs.iterators (getRecords_only noFaults w tx idx minKeys maxKeys it)
  | getNext it => exact hs.iterators (getNext_only B noFaults w it)
  | closeIterator it => exact hs.iterators (closeIterator_only noFaults w it)

/-- RUN: so does a whole session. -/
theorem session_sound (B : BerkeleyDB) {calls : List Call}
    (hok : Admissible Proper (tracked B) (initial, fun _ => ∅) calls) :
    (run (tracked B) (initial, fun _ => ∅) calls).2.1.Sound
      (run (tracked B) (initial, fun _ => ∅) calls).2.2 := by
  have hstep : ∀ (st : World × (String → Finset TxnPtr)) c, st.1.Sound st.2 → Proper st c →
      (tracked B st c).2.1.Sound (tracked B st c).2.2 := fun _ _ hs hc =>
    tracked_sound B hs hc
  have hinitial : ((initial, fun _ => ∅) : World × (String → Finset TxnPtr)).1.Sound fun _ => ∅ :=
    initial_sound
  exact run_keeps hstep hinitial hok

/-- `DeleteIndex` on an index that exists. -/
theorem deleteIndex_answer (hs : w.Sound modifiers) (hf : w.find name = some p) :
    (w.deleteIndex noFaults name).1 = some .kErrorOpenTransactions ↔ (modifiers name).Nonempty := by
  obtain ⟨s, he⟩ := hs.entry name p hf
  rw [← he.exact]
  by_cases hempty : s.transactions = ∅
  · obtain ⟨handles, structures, hcall, -⟩ := remove_empty hs hf he hempty
    obtain ⟨pairs, hpairs, -⟩ := he.stored
    simp [deleteIndex, he.named, hcall, hpairs, hempty]
  · have hcard : s.transactions.card > 0 := Finset.card_pos.mpr
      (Finset.nonempty_iff_ne_empty.mpr hempty)
    simp [deleteIndex, he.named, remove, hf, he.live, IndexStructure.makeReadOnly, hcard, caught,
      Finset.nonempty_iff_ne_empty.mpr hempty]

/-- CORRECT: after every session in which no Berkeley DB call fails, the set of each index holds
    exactly the unresolved transactions that have modified it, and `DeleteIndex` goes by them. It takes
    `closeHandles` for the loop over the handles. -/
theorem registry_exact (B : BerkeleyDB) {calls : List Call}
    (hok : Admissible Proper (tracked B) (initial, fun _ => ∅) calls) :
    let st := (run (tracked B) (initial, fun _ => ∅) calls).2
    ∀ name p, st.1.find name = some p →
      (∃ s, st.1.structures p = some s ∧ s.transactions = st.2 name) ∧
      (∀ t ∈ st.2 name, st.1.Began t) ∧
      ((st.1.deleteIndex noFaults name).1 = some .kErrorOpenTransactions ↔ (st.2 name).Nonempty) := by
  intro st name p hf
  have hs : st.1.Sound st.2 := session_sound B hok
  obtain ⟨s, he⟩ := hs.entry name p hf
  refine ⟨⟨s, he.live, he.exact⟩, fun t ht => ?_, deleteIndex_answer hs hf⟩
  obtain ⟨e, hlive, rfl⟩ := List.mem_map.mp (hs.unresolved name t ht)
  have htop : e.2 = none := hs.flat e hlive
  change (e.1, none) ∈ st.1.env.dbs.live
  rw [← htop]
  exact hlive

/-- An index that a transaction has inserted into. -/
theorem registry_exact_at :
    let calls : List Call := [.createIndex "x" (some [.kShort]), .openIndex "x", .beginTransaction,
      .modify (some 1) 1 (.insert ⟨shortKey 1, [7]⟩)]
    let st := (run (tracked .plain) (initial, fun _ => ∅) calls).2
    st.2 "x" = {1} ∧ (st.1.deleteIndex noFaults "x").1 = some .kErrorOpenTransactions := by
  have hok : Admissible Proper (tracked .plain) (initial, fun _ => ∅)
      [.createIndex "x" (some [.kShort]), .openIndex "x", .beginTransaction,
        .modify (some 1) 1 (.insert ⟨shortKey 1, [7]⟩)] := by
    refine ⟨⟨trivial, trivial⟩, ⟨trivial, trivial⟩, ⟨trivial, trivial⟩, ⟨⟨?_, by decide⟩, ?_⟩, trivial⟩
    · rintro t ⟨⟩
      exact List.mem_cons_self
    · intro o ho
      have ho' : some (singleOpened [.kShort] []) = some o := ho
      obtain rfl := Option.some.inj ho'
      exact shortKey_fullySet 1
  have hexact := registry_exact .plain hok "x" 0 (by rfl)
  exact ⟨rfl, hexact.2.2.mpr ⟨1, by decide⟩⟩

end World

end Contest
