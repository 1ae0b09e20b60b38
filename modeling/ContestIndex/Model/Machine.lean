import ContestIndex.Model.IndexStructure
import ContestIndex.Schemes.Run
import Mathlib.Data.Finset.Sort

/-! @src example/Index.cc, example/BDBImpl.cc | name:Clients whose calls overlap | layer:model

    Any number of clients, each at one place of the call that it is in. A step of a client is one
    call of Berkeley DB, one section under a mutex, or less: a test of `closed_` and a use of
    `structure_` outside the mutexes are steps of their own. What Berkeley DB answers, and what the
    client has passed, is the `Reply`.

        InsertRecord   closedCheck ▸ compatible ▸ attributeCount ▸ insertStart ▸ insertKey ▸ insertPut
        DeleteRecord   closedCheck ▸ compatible ▸ attributeCount ▸ modifyKey ▸ modifyBegin ▸
                       start ▸ cursor ▸ get ▸ write ▸ join ▸ loop ▸ rewrite ▸ … ▸ commit ▸ endTransaction
        UpdateRecord   the same between modifyLock and unlock
        Commit, Abort  resolve ▸ closeLock ▸ closing ▸ … ▸ closing
        DeleteIndex    removeLock ▸ makeReadOnly ▸ closeMark ▸ closeDb ▸ … ▸ closeMark ▸ dbremove

    A client that uses `db_` after it was closed, or a structure after it was destroyed, has no next
    step. `op_count_` is not here: nothing counts it up, so the loop of `Index::Close` that waits for
    it ends at once. The compare function's short lock of the IndexManager is not here either: it
    only makes clients wait. Berkeley DB fails in operations on records only. `CloseHandles` goes on
    from every handle that it has closed to the next, as it was meant to. -/

namespace Contest.Machine
open Schemes

abbrev ClientId := Nat

/-- A transaction that is neither committed nor aborted. -/
structure Txn where
  owner : ClientId
  /-- begun inside `Index::Update` or `Index::Delete` -/
  nested : Bool
  parent : Option TxnPtr
  /-- the indices that it has written to -/
  wrote : Finset StructurePtr
  deriving DecidableEq

/-- An operation on a handle, with what it is passed as far as the steps depend on it. -/
inductive Operation where
  | insert (tx : Option TxnPtr)
  | update (tx : Option TxnPtr) (flags : UInt8)
  | delete (tx : Option TxnPtr) (flags : UInt8)
  | getRecords
  deriving DecidableEq

def Operation.tx : Operation → Option TxnPtr
  | .insert tx | .update tx _ | .delete tx _ => tx
  | .getRecords => none

/-- A running `Index::Update` (which holds the mutex of the handle) or `Index::Delete`. -/
structure Modifying where
  locked : Bool
  h : IndexPtr
  tx : Option TxnPtr
  flags : UInt8
  deriving DecidableEq

/-- Where it is, once its nested transaction has begun. -/
inductive Stage where
  /-- `structure_->start_transaction(tid)` -/
  | start
  | cursor
  | get
  /-- the re-check of the found key (`GetKey`, `keycmp`), with kIgnorePayload -/
  | key (found : Bool)
  | write
  /-- `structure_->start_transaction(tx)` -/
  | join
  /-- `Key cmpkey = GetKey(&key)` -/
  | cmpkey
  | loop
  | rewrite
  | commit
  | endTransaction
  | abort
  deriving DecidableEq

/-- What a client does next. -/
inductive Pc where
  | idle
  /-- `idx->closed()` -/
  | closedCheck (op : Operation) (h : IndexPtr)
  /-- `closed_` in `Index::Compatible`, which GetRecords calls a second time -/
  | compatible (op : Operation) (h : IndexPtr) (second : Bool)
  | attributeCount (op : Operation) (h : IndexPtr) (second : Bool)
  | insertStart (h : IndexPtr) (t : TxnPtr)
  | insertKey (h : IndexPtr) (tx : Option TxnPtr)
  | insertPut (h : IndexPtr) (tx : Option TxnPtr)
  | modifyLock (m : Modifying)
  | modifyKey (m : Modifying)
  | modifyBegin (m : Modifying)
  | modify (stage : Stage) (m : Modifying) (tid : TxnPtr)
  | unlock (h : IndexPtr)
  | cursorOpen (h : IndexPtr)
  | iteratorKey (h : IndexPtr)
  | nextGet (h : IndexPtr)
  | nextKey (h : IndexPtr)
  | nextValue (h : IndexPtr)
  | closeLock (t : TxnPtr)
  | closing (t : TxnPtr) (todo : List StructurePtr)
  | removeLock (x : StructurePtr)
  | makeReadOnly (x : StructurePtr)
  | closeMark (x : StructurePtr) (todo : List IndexPtr)
  | closeDb (x : StructurePtr) (h : IndexPtr) (todo : List IndexPtr)
  | dbremove (x : StructurePtr)
  deriving DecidableEq

/-- How a step is answered: whether the call of Berkeley DB throws, whether it returns 0 (or the
    tested condition on the client's data holds), whether a scan goes on, and the new transaction. -/
structure Reply where
  throws : Bool := false
  ok : Bool := true
  more : Bool := false
  address : TxnPtr := 0
  deriving DecidableEq

/-- The indices and the handles at the start. -/
structure Config where
  structureOf : IndexPtr → StructurePtr
  structures : StructurePtr → IndexStructure
  indices : List StructurePtr
  mem_handles : ∀ x h, h ∈ (structures x).handles ↔ structureOf h = x
  transactions_eq : ∀ x, (structures x).transactions = ∅

structure State where
  pc : ClientId → Pc
  live : TxnPtr → Option Txn
  structures : StructurePtr → IndexStructure
  destroyed : StructurePtr → Bool
  /-- the structures in `IndexManager::indices_` -/
  indices : List StructurePtr
  /-- who holds the mutex of the IndexManager -/
  manager : Option ClientId
  closed : IndexPtr → Bool
  /-- whether `db_` is open -/
  db : IndexPtr → Bool
  /-- who holds the mutex of the handle -/
  mutex : IndexPtr → Option ClientId
  /-- whether the client has an iterator over the handle -/
  iterators : ClientId → IndexPtr → Bool

def Config.start (cfg : Config) : State where
  pc _ := .idle
  live _ := none
  structures := cfg.structures
  destroyed _ := false
  indices := cfg.indices
  manager := none
  closed _ := false
  db _ := true
  mutex _ := none
  iterators _ _ := false

/-! ### Changes of the state -/

namespace State
variable (s : State)

def goto (c : ClientId) (pc : Pc) : State := { s with pc := Function.update s.pc c pc }

def onStructure (x : StructurePtr) (f : IndexStructure → IndexStructure) : State :=
  { s with structures := Function.update s.structures x (f (s.structures x)) }

/-- `start_transaction` -/
def register (x : StructurePtr) (t : TxnPtr) : State :=
  s.onStructure x fun st => (st.startTransaction t).2

/-- `end_transaction` -/
def unregister (x : StructurePtr) (t : TxnPtr) : State :=
  s.onStructure x fun st => st.endTransaction t

def setLive (t : TxnPtr) (T : Option Txn) : State :=
  { s with live := Function.update s.live t T }

/-- A write to the index `x` in the transaction, if there is one. -/
def write (x : StructurePtr) : Option TxnPtr → State
  | none => s
  | some t => s.setLive t ((s.live t).map fun T => { T with wrote := Insert.insert x T.wrote })

/-- Commit a nested transaction: what it has written becomes its parent's. -/
def commitNested (t : TxnPtr) : State :=
  match s.live t with
  | none => s
  | some T =>
    let s' := s.setLive t none
    match T.parent with
    | none => s'
    | some p => s'.setLive p ((s'.live p).map fun P => { P with wrote := P.wrote ∪ T.wrote })

/-- Commit or abort a transaction of the client, and with it the nested ones it left behind. -/
def resolve (c : ClientId) (t : TxnPtr) : State :=
  { s with live := fun a => (s.live a).filter fun T => a ≠ t ∧ ¬(T.owner = c ∧ T.parent = some t) }

/-- The transaction was begun by the client, and is unresolved. -/
def owns (c : ClientId) (t : TxnPtr) : Bool := (s.live t).any fun T => T.owner = c ∧ T.nested = false

end State

namespace State
variable (s : State)

@[simp] theorem goto_pc_self (c : ClientId) (pc : Pc) : (s.goto c pc).pc c = pc := by simp [goto]
@[simp] theorem goto_pc_of_ne {c d : ClientId} (h : d ≠ c) (pc : Pc) :
    (s.goto c pc).pc d = s.pc d := by simp [goto, h]

@[simp] theorem onStructure_structures_self (x : StructurePtr) (f : IndexStructure → IndexStructure) :
    (s.onStructure x f).structures x = f (s.structures x) := by simp [onStructure]
@[simp] theorem onStructure_structures_of_ne {x y : StructurePtr} (h : y ≠ x)
    (f : IndexStructure → IndexStructure) :
    (s.onStructure x f).structures y = s.structures y := by simp [onStructure, h]

/-- What the change keeps of the structure is kept of all. -/
theorem onStructure_keeps (x : StructurePtr) (f : IndexStructure → IndexStructure) {β : Type}
    (g : IndexStructure → β) (h : g (f (s.structures x)) = g (s.structures x)) (y : StructurePtr) :
    g ((s.onStructure x f).structures y) = g (s.structures y) := by
  by_cases hy : y = x
  · subst hy
    rw [onStructure_structures_self, h]
  · rw [s.onStructure_structures_of_ne hy]

@[simp] theorem setLive_live_self (t : TxnPtr) (T : Option Txn) : (s.setLive t T).live t = T := by
  simp [setLive]
@[simp] theorem setLive_live_of_ne {a t : TxnPtr} (h : a ≠ t) (T : Option Txn) :
    (s.setLive t T).live a = s.live a := by simp [setLive, h]

/-- Registering removes nobody. -/
theorem mem_register {x : StructurePtr} {a : TxnPtr} (t : TxnPtr)
    (h : a ∈ (s.structures x).transactions) :
    a ∈ ((s.register x t).structures x).transactions := by
  rw [register, onStructure_structures_self, IndexStructure.startTransaction]
  split
  · exact h
  · exact Finset.mem_insert_of_mem h

@[simp] theorem commitNested_structures (t : TxnPtr) :
    (s.commitNested t).structures = s.structures := by
  unfold commitNested
  split
  · rfl
  · dsimp only
    split <;> rfl

theorem owns_iff {c : ClientId} {t : TxnPtr} :
    s.owns c t = true ↔ ∃ T, s.live t = some T ∧ T.owner = c ∧ T.nested = false := by
  simp [owns, Option.any_eq_true]

end State

/-! ### Steps -/

/-- What comes behind a successful `Index::Compatible`. -/
def Operation.proceed (h : IndexPtr) (second : Bool) : Operation → Pc
  | .insert (some t) => .insertStart h t
  | .insert none => .insertKey h none
  | .update tx flags => .modifyLock ⟨true, h, tx, flags⟩
  | .delete tx flags => .modifyKey ⟨false, h, tx, flags⟩
  | .getRecords => if second then .cursorOpen h else .compatible .getRecords h true

namespace Modifying
variable (m : Modifying)

def ignorePayload : Bool := hasFlag m.flags kIgnorePayload

/-- Leave the function: `Index::Update` gives the mutex back. -/
def leave : Pc := if m.locked then .unlock m.h else .idle

/-- What comes behind the first write and the registration of the parent. -/
def written : Stage :=
  if hasFlag m.flags kMatchDuplicates then
    if m.ignorePayload then .cmpkey else .loop
  else .commit

/-- A step of `Index::Update` or `Index::Delete` behind its txn_begin. -/
def next (x : StructurePtr) (s : State) (c : ClientId) (r : Reply) (tid : TxnPtr) : Stage → State
  | .start =>
    if ((s.structures x).startTransaction tid).1 then
      (s.register x tid).goto c (.modify .cursor m tid)
    else s.goto c (.modify .abort m tid)
  | .cursor => s.goto c (if r.throws then m.leave else .modify .get m tid)
  | .get =>
    if r.throws then s.goto c m.leave
    else if m.ignorePayload then s.goto c (.modify (.key r.ok) m tid)
    else s.goto c (.modify (if r.ok then .write else .commit) m tid)
  | .key found => s.goto c (.modify (if found ∧ r.ok then .write else .commit) m tid)
  | .write =>
    if r.throws then s.goto c m.leave
    else if r.ok then
      (s.write x (some tid)).goto c (.modify (if m.tx.isSome then .join else m.written) m tid)
    else s.goto c (.modify .commit m tid)
  | .join =>
    match m.tx with
    | some t => (s.register x t).goto c (.modify m.written m tid)
    | none => s.goto c (.modify m.written m tid)
  | .cmpkey => s.goto c (.modify .loop m tid)
  | .loop =>
    s.goto c (if r.throws then m.leave else .modify (if r.ok then .rewrite else .commit) m tid)
  | .rewrite =>
    if r.throws then s.goto c m.leave
    else if r.ok then (s.write x (some tid)).goto c (.modify .loop m tid)
    else s.goto c (.modify .commit m tid)
  | .commit =>
    if r.throws then (s.setLive tid none).goto c m.leave
    else (s.commitNested tid).goto c (.modify .endTransaction m tid)
  | .endTransaction => (s.unregister x tid).goto c m.leave
  | .abort => (s.setLive tid none).goto c m.leave

end Modifying

/-- The step of a client that is at `pc`. A client that waits for a mutex has none. -/
def next (cfg : Config) (s : State) (c : ClientId) (r : Reply) : Pc → Option State
  | .idle => none
  | .closedCheck op h => some (s.goto c (if s.closed h then .idle else .compatible op h false))
  | .compatible op h second =>
    some (s.goto c (if s.closed h then .idle else .attributeCount op h second))
  | .attributeCount op h second => some (s.goto c (if r.ok then op.proceed h second else .idle))
  | .insertStart h t =>
    let x := cfg.structureOf h
    if ((s.structures x).startTransaction t).1 then
      some ((s.register x t).goto c (.insertKey h (some t)))
    else some (s.goto c .idle)
  | .insertKey h tx => some (s.goto c (.insertPut h tx))
  | .insertPut h tx =>
    if r.throws ∨ ¬r.ok then some (s.goto c .idle)
    else some ((s.write (cfg.structureOf h) tx).goto c .idle)
  | .modifyLock m =>
    if s.mutex m.h = none then
      some ({ s with mutex := Function.update s.mutex m.h (some c) }.goto c (.modifyKey m))
    else none
  | .modifyKey m => some (s.goto c (.modifyBegin m))
  | .modifyBegin m =>
    if r.throws then some (s.goto c m.leave)
    else if s.live r.address = none then
      some ((s.setLive r.address (some ⟨c, true, m.tx, ∅⟩)).goto c (.modify .start m r.address))
    else none
  | .modify stage m tid => some (m.next (cfg.structureOf m.h) s c r tid stage)
  | .unlock h => some ({ s with mutex := Function.update s.mutex h none }.goto c .idle)
  | .cursorOpen h => some (s.goto c (if r.throws then .idle else .iteratorKey h))
  | .iteratorKey h =>
    let mine := Function.update (s.iterators c) h true
    some ({ s with iterators := Function.update s.iterators c mine }.goto c .idle)
  | .nextGet h => some (s.goto c (if r.throws ∨ ¬r.ok then .idle else .nextKey h))
  | .nextKey h =>
    some (s.goto c (if r.ok then .nextValue h else if r.more then .nextGet h else .idle))
  | .nextValue _ => some (s.goto c .idle)
  | .closeLock t =>
    if s.manager = none then some ({ s with manager := some c }.goto c (.closing t s.indices))
    else none
  | .closing t (x :: xs) => some ((s.unregister x t).goto c (.closing t xs))
  | .closing _ [] => some ({ s with manager := none }.goto c .idle)
  | .removeLock x =>
    if s.manager = none then
      some (if x ∈ s.indices then { s with manager := some c }.goto c (.makeReadOnly x)
        else s.goto c .idle)
    else none
  | .makeReadOnly x =>
    if (s.structures x).makeReadOnly.1 then
      some ((s.onStructure x fun st => st.makeReadOnly.2).goto c
        (.closeMark x ((s.structures x).handles.sort (· ≤ ·))))
    else some ({ s with manager := none }.goto c .idle)
  | .closeMark x (h :: hs) =>
    if s.mutex h = none then
      some (if s.closed h then s.goto c (.closeMark x hs)
        else { s with closed := Function.update s.closed h true }.goto c (.closeDb x h hs))
    else none
  | .closeMark x [] =>
    some ({ s with destroyed := Function.update s.destroyed x true,
                   indices := s.indices.filter (· ≠ x), manager := none }.goto c (.dbremove x))
  -- `db_->close` and `unregister_handle`, after which nothing of the handle is used here
  | .closeDb x h hs =>
    some (({ s with db := Function.update s.db h false }.onStructure x fun st =>
      { st with handles := st.handles.erase h }).goto c (.closeMark x hs))
  | .dbremove _ => some (s.goto c .idle)

/-- The handle whose `db_` the step uses, directly or through a cursor. -/
def Pc.usesDb : Pc → Option IndexPtr
  | .insertPut h _ | .cursorOpen h | .nextGet h => some h
  | .modify .cursor m _ | .modify .get m _ | .modify .write m _ | .modify .loop m _
  | .modify .rewrite m _ => some m.h
  | _ => none

/-- The handle whose `structure_` the step uses. -/
def Pc.usesStructure : Pc → Option IndexPtr
  | .attributeCount _ h _ | .insertStart h _ | .insertKey h _ | .iteratorKey h | .nextKey h
  | .nextValue h => some h
  | .modifyKey m | .modify .start m _ | .modify (.key _) m _ | .modify .join m _
  | .modify .cmpkey m _ | .modify .endTransaction m _ => some m.h
  | _ => none

/-- The next step of the client uses a closed database or a destroyed structure. -/
def State.harmed (cfg : Config) (s : State) (c : ClientId) : Bool :=
  (s.pc c).usesDb.any (fun h => !s.db h) ||
    (s.pc c).usesStructure.any fun h => s.destroyed (cfg.structureOf h)

inductive Action where
  | beginTransaction (c : ClientId) (t : TxnPtr)
  /-- the commit or the abort of CommitTransaction or AbortTransaction -/
  | resolve (c : ClientId) (t : TxnPtr)
  | call (c : ClientId) (op : Operation) (h : IndexPtr)
  | getNext (c : ClientId) (h : IndexPtr)
  | deleteIndex (c : ClientId) (x : StructurePtr)
  /-- the next step of the call that the client is in -/
  | advance (c : ClientId) (r : Reply)

def step (cfg : Config) (s : State) : Action → Option State
  | .beginTransaction c t =>
    if s.pc c = .idle ∧ s.live t = none then some (s.setLive t (some ⟨c, false, none, ∅⟩)) else none
  | .resolve c t =>
    if s.pc c = .idle ∧ s.owns c t then some ((s.resolve c t).goto c (.closeLock t)) else none
  | .call c op h =>
    if s.pc c = .idle ∧ op.tx.all (s.owns c ·) then some (s.goto c (.closedCheck op h)) else none
  | .getNext c h =>
    if s.pc c = .idle ∧ s.iterators c h then some (s.goto c (.nextGet h)) else none
  | .deleteIndex c x => if s.pc c = .idle then some (s.goto c (.removeLock x)) else none
  | .advance c r => if s.harmed cfg c then none else next cfg s c r (s.pc c)

end Contest.Machine
