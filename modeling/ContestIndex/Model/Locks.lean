import ContestIndex.Model.Opening
import ContestIndex.Schemes.Threads

/-! @src example/Index.cc, example/BDBImpl.cc, example/Util.cc, example/Iterator.cc
    | name:Threads and the mutexes they lock | layer:model

    The calls as the mutexes see them. A `lock(m){ … }` of the source is a `lock`, what is done inside and
    an `unlock`; what a thread does between two such places is one step or several. Any number of threads
    are inside of calls, which end without interference by Berkeley DB: it fails nowhere, and it compares
    keys (`keycmp`) in every put and every cursor get, as often as it likes.

        IndexManager::mutex_                  Find, Insert, Remove, CloseTransaction
        Index::mutex_                         Update, Close
        IndexStructure::mutex_                register_handle, unregister_handle
        IndexStructure::transaction_mutex_    start_transaction, end_transaction, MakeReadOnly

    Objects keep their address after they are destroyed, and no address is given out twice. What a
    destructor does to the members of its object is left out: a structure that `Remove` deletes only
    leaves the catalogue. The loop of `CloseHandles` goes on from a handle that it has closed to the next, as it
    was meant to. The records are not here, nor NULL arguments. GetRecords and CloseIterator lock
    nothing. -/

namespace Contest.Locks
open Schemes

inductive Mutex where
  /-- `IndexManager::mutex_` -/
  | manager
  /-- `Index::mutex_` -/
  | handle (h : IndexPtr)
  /-- `IndexStructure::mutex_` -/
  | handles (x : StructurePtr)
  /-- `IndexStructure::transaction_mutex_` -/
  | transactions (x : StructurePtr)
  deriving DecidableEq

/-- Who has begun a transaction. -/
inductive Origin where
  /-- a client, with BeginTransaction -/
  | client
  /-- `Index::Update` or `Index::Delete`, in this thread -/
  | nested (c : ThreadId)
  deriving DecidableEq

structure Shared where
  /-- `IndexManager::indices_` -/
  indices : List (String × StructurePtr)
  structures : StructurePtr → Option IndexStructure
  handles : IndexPtr → Option Index
  /-- all transactions so far, resolved ones too -/
  origin : TxnPtr → Option Origin

/-- Before the first call. -/
def Shared.initial : Shared := ⟨[], fun _ => none, fun _ => none, fun _ => none⟩

/-- A running `Index::Update` (which holds the mutex of the handle) or `Index::Delete`. -/
structure Modifying where
  locked : Bool
  h : IndexPtr
  tx : Option TxnPtr
  flags : UInt8
  deriving DecidableEq

/-- The calls, and the loops inside of them. -/
inductive Point where
  | beginTransaction
  | commitTransaction (tx : TxnPtr)
  | abortTransaction (tx : TxnPtr)
  | createIndex (name : String) (types : List AttributeType)
  | openIndex (name : String)
  | closeIndex (h : IndexPtr)
  | deleteIndex (name : String)
  | insertRecord (tx : Option TxnPtr) (h : IndexPtr)
  | updateRecord (tx : Option TxnPtr) (h : IndexPtr) (flags : UInt8)
  | deleteRecord (tx : Option TxnPtr) (h : IndexPtr) (flags : UInt8)
  /-- with an iterator over the handle -/
  | getNext (h : IndexPtr)
  /-- the loop of `Iterator::Next` -/
  | next (h : IndexPtr)
  /-- the loops over the duplicates -/
  | duplicates (m : Modifying) (tid : TxnPtr)
  /-- the loop of `CloseHandles`, with the handle that was visited last -/
  | closeHandles (name : String) (x : StructurePtr) (last : Option IndexPtr)
  deriving DecidableEq

/-- What is not determined by the shared state: whether Berkeley DB finds something (or the arguments pass
    a test), how often it compares keys, and the address of a new object. -/
structure Reply where
  ok : Bool := true
  comparisons : Nat := 0
  address : Nat := 0
  deriving DecidableEq

abbrev Proc := Code Mutex Shared Reply Point

/-! ### The shared state -/

namespace Shared
variable (s : Shared)

/-- `structure_` of the handle -/
def structureOf (h : IndexPtr) : Option StructurePtr := (s.handles h).bind (·.structure_)

/-- A handle that does not exist is as good as closed. -/
def closed (h : IndexPtr) : Bool := (s.handles h).all (·.closed)

def readOnly (x : StructurePtr) : Bool := (s.structures x).any (·.readOnly)

def transactions (x : StructurePtr) : Finset TxnPtr := ((s.structures x).map (·.transactions)).getD ∅

/-- `handles_` of the structure -/
def registered (x : StructurePtr) : Finset IndexPtr := ((s.structures x).map (·.handles)).getD ∅

def find (name : String) : Option StructurePtr := (s.indices.find? (·.1 = name)).map (·.2)

def setStructure (x : StructurePtr) (st : IndexStructure) : Shared :=
  { s with structures := Function.update s.structures x (some st) }

def setHandle (h : IndexPtr) (idx : Index) : Shared :=
  { s with handles := Function.update s.handles h (some idx) }

/-- Change the structure, which exists. -/
def onStructure (x : StructurePtr) (f : IndexStructure → IndexStructure) : Option Shared :=
  (s.structures x).map fun st => s.setStructure x (f st)

/-- Change the handle, which exists. -/
def onHandle (h : IndexPtr) (f : Index → Index) : Option Shared :=
  (s.handles h).map fun idx => s.setHandle h (f idx)

/-- `new IndexStructure` -/
def newStructure (x : StructurePtr) (types : List AttributeType) : Option Shared :=
  if s.structures x = none then some (s.setStructure x (IndexStructure.new types)) else none

/-- `new Index`, and `structure_` -/
def newHandle (h : IndexPtr) (name : String) (x : Option StructurePtr) : Option Shared :=
  if s.handles h = none then some (s.setHandle h ⟨name, x, false, true⟩) else none

/-- `txn_begin` -/
def newTransaction (tx : TxnPtr) (o : Origin) : Option Shared :=
  if s.origin tx = none then some { s with origin := Function.update s.origin tx (some o) } else none

/-- `indices_[name] = structure` -/
def insert (name : String) (x : StructurePtr) : Shared :=
  { s with indices := (name, x) :: s.indices.filter (·.1 ≠ name) }

/-- `delete it->second`, of which nothing is seen here, and `indices_.erase(it)` -/
def erase (name : String) : Shared := { s with indices := s.indices.filter (·.1 ≠ name) }

end Shared

/-! ### Steps and sections -/

/-- A step that changes nothing, and decides by what it finds. -/
def look (rest : Shared → Reply → Proc) : Proc := .act (fun s _ => some s) rest

/-- A step of Berkeley DB that touches no mutex. -/
def berkeleyDB (rest : Proc) : Proc := look fun _ _ => rest

/-- A call through `structure_`, which is not NULL there. -/
def structureOf (h : IndexPtr) (rest : StructurePtr → Proc) : Proc :=
  .act (fun s _ => (s.structureOf h).map fun _ => s) fun s _ => (s.structureOf h).elim .ret rest

/-- `IndexManager::Find` -/
def find (name : String) (rest : Option StructurePtr → Proc) : Proc :=
  .lock .manager <| look fun s _ => .unlock .manager <| rest (s.find name)

/-- `IndexManager::Insert` -/
def insert (name : String) (x : StructurePtr) (rest : Proc) : Proc :=
  .lock .manager <| .act (fun s _ => some (s.insert name x)) fun _ _ => .unlock .manager rest

def registerHandle (x : StructurePtr) (h : IndexPtr) (rest : Proc) : Proc :=
  .lock (.handles x) <|
    .act (fun s _ => s.onStructure x fun st => { st with handles := Insert.insert h st.handles })
      fun _ _ => .unlock (.handles x) rest

def unregisterHandle (x : StructurePtr) (h : IndexPtr) (rest : Proc) : Proc :=
  .lock (.handles x) <|
    .act (fun s _ => s.onStructure x fun st => { st with handles := st.handles.erase h })
      fun _ _ => .unlock (.handles x) rest

def startTransaction (x : StructurePtr) (tx : TxnPtr) (rest : Bool → Proc) : Proc :=
  .lock (.transactions x) <|
    .act (fun s _ => s.onStructure x fun st => (st.startTransaction tx).2)
      fun s _ => .unlock (.transactions x) <|
        rest ((s.structures x).any fun st => (st.startTransaction tx).1)

def endTransaction (x : StructurePtr) (tx : TxnPtr) (rest : Proc) : Proc :=
  .lock (.transactions x) <|
    .act (fun s _ => s.onStructure x fun st => st.endTransaction tx)
      fun _ _ => .unlock (.transactions x) rest

def makeReadOnly (x : StructurePtr) (rest : Bool → Proc) : Proc :=
  .lock (.transactions x) <|
    .act (fun s _ => s.onStructure x fun st => st.makeReadOnly.2)
      fun s _ => .unlock (.transactions x) <|
        rest ((s.structures x).any fun st => st.makeReadOnly.1)

/-- The compare function of the database: it looks for the structure by the name of the index. What it
    compares, and the assertion that there is one, are nothing to the mutexes. -/
def keycmp (h : IndexPtr) (rest : Proc) : Proc :=
  look fun s _ => find (((s.handles h).map (·.name)).getD "") fun _ => rest

def comparisons (h : IndexPtr) (rest : Proc) : Nat → Proc
  | 0 => rest
  | n + 1 => keycmp h (comparisons h rest n)

/-- A put or a cursor get. -/
def search (h : IndexPtr) (rest : Reply → Proc) : Proc :=
  look fun _ r => comparisons h (rest r) r.comparisons

/-- `idx->closed()`, then `Index::Compatible` and what else is tested before the operation -/
def checked (h : IndexPtr) (rest : Proc) : Proc :=
  look fun s _ => if s.closed h then .ret else
    look fun s r => if s.closed h ∨ ¬r.ok then .ret else rest

/-! ### Operations on records -/

/-- `Index::Insert` -/
def indexInsert (tx : Option TxnPtr) (h : IndexPtr) : Proc :=
  match tx with
  | some t => structureOf h fun x => startTransaction x t fun ok =>
      if ok then search h fun _ => .ret else .ret
  | none => search h fun _ => .ret

namespace Modifying
variable (m : Modifying)

/-- Leave the function: `Index::Update` gives the mutex back. -/
def leave : Proc := if m.locked then .unlock (.handle m.h) .ret else .ret

/-- `cursor->put` with DB_CURRENT, or `cursor->del` -/
def write (rest : Proc) : Proc := if m.locked then search m.h fun _ => rest else berkeleyDB rest

/-- `structure_->start_transaction(tx)` for the transaction of the client -/
def join (rest : Proc) : Proc :=
  match m.tx with
  | some t => structureOf m.h fun x => startTransaction x t fun _ => rest
  | none => rest

/-- `tid->commit` and `end_transaction` -/
def finish (tid : TxnPtr) : Proc :=
  berkeleyDB <| structureOf m.h fun x => endTransaction x tid m.leave

/-- The common body of `Index::Update` and `Index::Delete`. -/
def run (c : ThreadId) : Proc :=
  .act (fun s r => s.newTransaction r.address (.nested c)) fun _ r =>
    structureOf m.h fun x => startTransaction x r.address fun ok =>
      if ok then
        -- the first get, with the test of the key that was found
        search m.h fun found =>
          if found.ok then
            m.write <| m.join <|
              if hasFlag m.flags kMatchDuplicates then .jump (.duplicates m r.address)
              else m.finish r.address
          else m.finish r.address
      else berkeleyDB m.leave

/-- The loop over the duplicates, in one of its two forms. -/
def duplicates (tid : TxnPtr) : Proc :=
  search m.h fun found =>
    if found.ok then m.write (.jump (.duplicates m tid)) else m.finish tid

end Modifying

/-- `Index::Update` -/
def indexUpdate (c : ThreadId) (tx : Option TxnPtr) (h : IndexPtr) (flags : UInt8) : Proc :=
  .lock (.handle h) (Modifying.run ⟨true, h, tx, flags⟩ c)

/-- `Index::Delete` -/
def indexDelete (c : ThreadId) (tx : Option TxnPtr) (h : IndexPtr) (flags : UInt8) : Proc :=
  Modifying.run ⟨false, h, tx, flags⟩ c

/-- The loop of `Iterator::Next`. -/
def iteratorNext (h : IndexPtr) : Proc :=
  search h fun r => if r.ok then .jump (.next h) else .ret

/-! ### Handles, transactions, indices -/

/-- `Index::Open`; nobody else knows the new object before it is registered -/
def indexOpen (name : String) : Proc :=
  find name fun found =>
    .act (fun s r => s.newHandle r.address name found) fun _ r =>
      match found with
      | some x =>
        registerHandle x r.address <|
          .act (fun s _ => s.onHandle r.address fun idx => { idx with db := true }) fun _ _ =>
            .act (fun s _ => s.onHandle r.address fun idx => { idx with closed := false }) fun _ _ =>
              .ret
      | none => .ret

/-- `Index::Close` -/
def indexClose (h : IndexPtr) (rest : Proc) : Proc :=
  .lock (.handle h) <|
    .act (fun s _ => s.onHandle h fun idx => { idx with closed := true }) fun s _ =>
      .unlock (.handle h) <|
        if s.closed h then rest
        else
          .act (fun s _ => s.onHandle h fun idx => { idx with db := false }) fun _ _ =>
            look fun s _ =>
              let marked := .act (fun s _ => s.onHandle h fun idx => { idx with closed := true })
                fun _ _ => rest
              match s.structureOf h with
              | some x => unregisterHandle x h marked
              | none => marked

/-- The loop of `IndexManager::CloseTransaction`. -/
def closing (tx : TxnPtr) : List StructurePtr → Proc
  | [] => .unlock .manager .ret
  | x :: xs => endTransaction x tx (closing tx xs)

/-- The commit or the abort, then `IndexManager::CloseTransaction`. -/
def resolve (tx : TxnPtr) : Proc :=
  berkeleyDB <| .lock .manager <| look fun s _ => closing tx (s.indices.map (·.2))

/-- The loop of `CloseHandles`, and what comes behind it. -/
def closeHandles (name : String) (x : StructurePtr) (last : Option IndexPtr) : Proc :=
  look fun s _ =>
    match Opening.nextHandle (s.registered x) last with
    | some h => indexClose h (.jump (.closeHandles name x (some h)))
    | none => .act (fun s _ => some (s.erase name)) fun _ _ => .unlock .manager <| berkeleyDB .ret

/-- `IndexManager::Remove` and the removal of the database -/
def remove (name : String) : Proc :=
  .lock .manager <| look fun s _ =>
    match s.find name with
    | some x => makeReadOnly x fun ok =>
        if ok then .jump (.closeHandles name x none) else .unlock .manager .ret
    | none => .unlock .manager .ret

/-- The rest of CreateIndex, where `Db::open` says no if there is a database of this name. -/
def create (name : String) (types : List AttributeType) : Proc :=
  look fun _ r =>
    if r.ok then .act (fun s r => s.newStructure r.address types) fun _ r => insert name r.address .ret
    else .ret

def body (c : ThreadId) : Point → Proc
  | .beginTransaction => .act (fun s r => s.newTransaction r.address .client) fun _ _ => .ret
  | .commitTransaction tx | .abortTransaction tx => resolve tx
  | .createIndex name types => if name = "" ∨ types = [] then .ret else create name types
  | .openIndex name => if name = "" then .ret else indexOpen name
  -- the test of `closed()` before only decides the status code
  | .closeIndex h => indexClose h .ret
  | .deleteIndex name => if name = "" then .ret else remove name
  | .insertRecord tx h => checked h (indexInsert tx h)
  | .updateRecord tx h flags => checked h (indexUpdate c tx h flags)
  | .deleteRecord tx h flags => checked h (indexDelete c tx h flags)
  -- nothing is read from an iterator that has been closed
  | .getNext h => look fun _ r => if r.ok then .jump (.next h) else .ret
  | .next h => iteratorNext h
  | .duplicates m tid => m.duplicates tid
  | .closeHandles name x last => closeHandles name x last

/-- What clients may call: with handles that were opened, and with transactions that they began
    (the nested ones are not theirs). -/
def admits (s : Shared) : Point → Bool
  | .beginTransaction | .createIndex _ _ | .openIndex _ | .deleteIndex _ => true
  | .commitTransaction tx | .abortTransaction tx => s.origin tx = some .client
  | .closeIndex h | .getNext h => (s.handles h).isSome
  | .insertRecord tx h | .updateRecord tx h _ | .deleteRecord tx h _ =>
    (s.handles h).isSome ∧ tx.all fun t => s.origin t = some .client
  | .next _ | .duplicates _ _ | .closeHandles _ _ _ => false

def procedures : Procedures Mutex Shared Reply Point := ⟨body, admits⟩

end Contest.Locks
