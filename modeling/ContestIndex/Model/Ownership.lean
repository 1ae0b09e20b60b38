import ContestIndex.Schemes.Heap
import ContestIndex.Model.Api

/-! @src example/Iterator.cc, example/Util.cc, example/Index.cc | name:Who owns the memory | layer:model

    What iterators, records and keys do to the heap: every `new`, `delete`, `malloc` and `free` of the
    calls on records, with what they touch, in the order of the source. What Berkeley DB answers and what
    the comparisons say is given with each call. A cursor is a cell too: `Db::cursor` makes it and
    `Dbc::close` takes it away, even when it throws.

        iterator   min_key_, max_key_      arrays of attributes           CopyKey      DeleteKey
                   key_                    a Dbt, and a buffer until      GetBDBKey    the first get that
                                           the first get that finds                    finds
                   cvalue                  a record, its key, payload     value        next value, Close

    Memory that Berkeley DB returns belongs to it. The calls that begin and end transactions, indices and
    handles touch no iterator and no record, since the loops that would close iterators there are commented
    out, and are not here. While an iterator is used its handle stays open and its transaction
    unresolved. -/

namespace Contest.Ownership
open Schemes Owning

inductive Kind where
  | iterator | cursor
  /-- `new Dbt` and `new char[size_]` -/
  | dbt | buffer
  /-- `new Attribute*[]` and `new Attribute` -/
  | attributes | attribute
  | record | payload
  deriving DecidableEq, Repr

abbrev Own := Owning Kind

/-! ### Keys and records -/

/-- An array of pointers to attributes. -/
structure OwnedKey where
  value : Address
  attributes : List (Option Address)
  deriving DecidableEq

structure OwnedRecord where
  record : Address
  key : OwnedKey
  payload : Address
  deriving DecidableEq

/-- Where the data of a Dbt is: in the buffer that `GetBDBKey` has allocated, or at Berkeley DB. -/
inductive Data where
  | buffer (p : Address)
  | berkeleyDB
  deriving DecidableEq

def Data.read : Data → Own Unit
  | .buffer p => touch (p, .buffer)
  | .berkeleyDB => pure ()

/-- The loop of `CopyKey`. -/
def copyAttributes : Key → Own (List (Option Address))
  | [] => pure []
  | none :: key => do
    let copied ← copyAttributes key
    return none :: copied
  | some _ :: key => do
    let p ← new .attribute
    let copied ← copyAttributes key
    return some p :: copied

def copyKey (key : Key) : Own OwnedKey := do
  let value ← new .attributes
  let attributes ← copyAttributes key
  return ⟨value, attributes⟩

/-- The loop of `DeleteKey` and `Index::FreeKey`. -/
def deleteAttributes (value : Address) : List (Option Address) → Own Unit
  | [] => pure ()
  | none :: attributes => do
    touch (value, .attributes)
    deleteAttributes value attributes
  | some p :: attributes => do
    touch (value, .attributes)
    delete (p, .attribute)
    deleteAttributes value attributes

/-- `DeleteKey`, `Index::FreeKey` -/
def deleteKey (key : OwnedKey) : Own Unit := do
  deleteAttributes key.value key.attributes
  delete (key.value, .attributes)

/-- `DeleteRecord` -/
def deleteRecord (r : OwnedRecord) : Own Unit := do
  touch (r.record, .record)
  deleteKey r.key
  delete (r.payload, .payload)
  delete (r.record, .record)

/-- The loop of `IndexStructure::GetKey`. -/
def getAttributes (data : Data) : Nat → Own (List (Option Address))
  | 0 => pure []
  | n + 1 => do
    let p ← new .attribute
    data.read
    let attributes ← getAttributes data n
    return some p :: attributes

/-- `IndexStructure::GetKey`, with `n` columns -/
def getKey (n : Nat) (data : Data) : Own OwnedKey := do
  let value ← new .attributes
  let attributes ← getAttributes data n
  return ⟨value, attributes⟩

/-- `IndexStructure::GetBDBKey`: the buffer and the Dbt. -/
def getBDBKey : Own (Address × Address) := do
  let data ← new .buffer
  let rt ← new .dbt
  return (data, rt)

/-- All attributes are read: at least what `CheckBounds` and `keycmp` look at. -/
def readAttributes (value : Address) : List (Option Address) → Own Unit
  | [] => pure ()
  | none :: attributes => do
    touch (value, .attributes)
    readAttributes value attributes
  | some p :: attributes => do
    touch (value, .attributes)
    touch (p, .attribute)
    readAttributes value attributes

def OwnedKey.read (key : OwnedKey) : Own Unit := readAttributes key.value key.attributes

/-! ### Iterators -/

structure Iterator where
  /-- `attribute_count_` of the index -/
  columns : Nat
  closed : Bool
  ended : Bool
  initialized : Bool
  cvalue : Option OwnedRecord
  minKey : OwnedKey
  maxKey : OwnedKey
  cursor : Option Address
  /-- `key_`, with its data, and `value_` -/
  key : Address
  data : Data
  value : Address

/-- What a `get` of `Next` answers, with what `CheckBounds` says of the pair. -/
inductive Got where
  | throws (e : DbException)
  | returns (err : DbError)
  | pair (bounds : Bounds)

/-- The answers to a call of `Next`; behind the last one nothing is found. -/
structure Answers where
  gets : List Got
  /-- the exception of `Dbc::close` -/
  close : Option DbException

/-- `Iterator::Iterator` behind `new`; when `Db::cursor` throws, the object is given back. -/
def newIterator (n : Nat) (minKeys maxKeys : Key) (thrown : Option DbException) :
    Own (Except DbException (Address × Iterator)) := do
  let object ← new .iterator
  let minKey ← copyKey minKeys
  let maxKey ← copyKey maxKeys
  match thrown with
  | some e => do
    delete (object, .iterator)
    return .error e
  | none => do
    let cursor ← new .cursor
    let rt ← getBDBKey
    let value ← new .dbt
    return .ok (object,
      { columns := n, closed := false, ended := false, initialized := false, cvalue := none,
        minKey := minKey, maxKey := maxKey, cursor := some cursor, key := rt.2,
        data := .buffer rt.1, value := value })

namespace Iterator

/-- `Iterator::CloseCursor` -/
def closeCursor (thrown : Option DbException) (it : Iterator) :
    Own (Except DbException Unit × Iterator) :=
  match it.cursor with
  | none => return (.ok (), it)
  | some c => do
    delete (c, .cursor)
    match thrown with
    | some e => return (.error e, it)
    | none => return (.ok (), { it with cursor := none })

/-- `Iterator::SetEnded` -/
def setEnded (thrown : Option DbException) (it : Iterator) :
    Own (Except DbException Unit × Iterator) := { it with ended := true }.closeCursor thrown

/-- `if (cvalue != NULL) DeleteRecord(&cvalue)` -/
def deleteValue (it : Iterator) : Own Iterator :=
  match it.cvalue with
  | none => return it
  | some r => do
    deleteRecord r
    return { it with cvalue := none }

/-- `Iterator::Close` -/
def close (thrown : Option DbException) (it : Iterator) :
    Own (Except DbException Unit × Iterator) := do
  let it ← it.deleteValue
  match ← { it with closed := true }.closeCursor thrown with
  | (.error e, it) => return (.error e, it)
  | (.ok _, it) => do
    deleteKey it.minKey
    deleteKey it.maxKey
    delete (it.key, .dbt)
    delete (it.value, .dbt)
    return (.ok (), it)

/-- The last branch of `Next`: no pair could be fetched. -/
def fetchFailed (thrown : Option DbException) (err : DbError) (it : Iterator) :
    Own (Except DbException Bool × Iterator) := do
  match ← it.setEnded thrown with
  | (.error e, it) => return (.error e, it)
  | (.ok _, it) =>
    if err = .DB_NOTFOUND then return (.ok true, it)
    else
      match ← it.close thrown with
      | (.error e, it) => return (.error e, it)
      | (.ok _, it) => return (.ok false, it)

/-- The body of the loop of `Next` with `err == 0`. -/
def onPair (thrown : Option DbException) (bounds : Bounds) (it : Iterator)
    (more : Own (Except DbException Bool × Iterator)) :
    Own (Except DbException Bool × Iterator) := do
  touch (it.key, .dbt)
  let key ← getKey it.columns it.data
  key.read
  it.maxKey.read
  deleteKey key
  match bounds with
  | .within => return (.ok true, it)
  | .exceeded index =>
    if index = 0 then
      match ← it.setEnded thrown with
      | (.error e, it) => return (.error e, it)
      | (.ok _, it) => return (.ok true, it)
    else more

/-- `cursor_->get(key_, value_, …)` -/
def get (it : Iterator) : Own Unit :=
  match it.cursor with
  | none => undefined
  | some c => do
    touch (c, .cursor)
    touch (it.key, .dbt)
    touch (it.value, .dbt)

/-- DB_NEXT, and the rest of `Next`. -/
def fetchNext (thrown : Option DbException) : List Got → Iterator →
    Own (Except DbException Bool × Iterator)
  | [], it => do
    it.get
    it.fetchFailed thrown .DB_NOTFOUND
  | got :: gets, it => do
    it.get
    match got with
    | .throws e => return (.error e, it)
    | .returns err => it.fetchFailed thrown err
    | .pair bounds =>
      onPair thrown bounds { it with data := .berkeleyDB }
        (fetchNext thrown gets { it with data := .berkeleyDB })

/-- `delete [] pkey`, when the data is somewhere else now -/
def freeBuffer : Data → Own Unit
  | .buffer p => delete (p, .buffer)
  | .berkeleyDB => pure ()

/-- `Iterator::Next` -/
def next (a : Answers) (it : Iterator) : Own (Except DbException Bool × Iterator) :=
  if it.initialized then fetchNext a.close a.gets it
  else do
    -- DB_SET_RANGE looks for what is in the buffer
    it.data.read
    it.get
    match a.gets with
    | [] => fetchFailed a.close .DB_NOTFOUND { it with initialized := true }
    | .throws e :: _ => return (.error e, it)
    | .returns err :: _ => fetchFailed a.close err { it with initialized := true }
    | .pair bounds :: gets => do
      freeBuffer it.data
      let it := { it with initialized := true, data := .berkeleyDB }
      onPair a.close bounds it (fetchNext a.close gets it)

/-- `Iterator::value` -/
def newValue (it : Iterator) : Own (Option OwnedRecord × Iterator) := do
  let it ← it.deleteValue
  if it.ended then return (none, it)
  else do
    let record ← new .record
    touch (it.key, .dbt)
    let key ← getKey it.columns it.data
    touch (it.value, .dbt)
    let payload ← new .payload
    return (some ⟨record, key, payload⟩, { it with cvalue := some ⟨record, key, payload⟩ })

end Iterator

/-! ### Modifications -/

/-- `Index::Insert`; `joined` is what `start_transaction` says. `*GetBDBKey(…)` is copied, and nobody
    has the address of the Dbt after that. -/
def indexInsert (joined : Bool) (put : Option Failure) : Own (Except DbException ErrorCode) :=
  if joined then do
    let rt ← getBDBKey
    touch (rt.2, .dbt)
    touch (rt.1, .buffer)
    match put with
    | none => return .ok .kOk
    | some (.returns _) => return .ok .kErrorGenericFailure
    | some (.throws e) => return .error e
  else return .ok .kErrorUnknownIndex

/-- A round of a loop over the duplicates: what `get` answers, whether the keys are the same, and what
    the write answers. -/
structure Round where
  got : Option Failure
  same : Bool
  write : Option Failure

/-- The answers to a call of `Index::Update` or `Index::Delete`. -/
structure ModifyAnswers where
  begin : Option DbException
  started : Bool
  cursor : Option DbException
  first : Option Failure
  same : Bool
  write : Option Failure
  /-- behind the last round nothing is found -/
  rounds : List Round
  commit : Option DbException
  abort : Option DbException

/-- The first `get`, and with kIgnorePayload the test of the key that was found. -/
def firstGet (n : Nat) (flags : UInt8) (a : ModifyAnswers) (buffer cursor : Address) :
    Own (Except DbException (Option DbError)) := do
  touch (cursor, .cursor)
  touch (buffer, .buffer)
  match a.first with
  | some (.throws e) => return .error e
  | some (.returns err) =>
    if hasFlag flags kIgnorePayload then do
      -- the data is still in the buffer
      let otkey ← getKey n (.buffer buffer)
      otkey.read
      deleteKey otkey
      return .ok (some (if a.same then err else .DB_NOTFOUND))
    else return .ok (some err)
  | none =>
    if hasFlag flags kIgnorePayload then do
      let otkey ← getKey n .berkeleyDB
      otkey.read
      deleteKey otkey
      return .ok (if a.same then none else some .DB_NOTFOUND)
    else return .ok none

/-- `keycmp(cmpkey, record->key) == 0`, where there is a key to compare -/
def stillSame (cmpkey : Option OwnedKey) (same : Bool) : Own Bool :=
  match cmpkey with
  | some key => do
    key.read
    return same
  | none => return true

/-- The loop over DB_NEXT_DUP, or over DB_NEXT with the key that is compared. -/
def dupLoop (cursor : Address) (cmpkey : Option OwnedKey) : List Round →
    Own (Except DbException (Option DbError))
  | [] => do
    touch (cursor, .cursor)
    return .ok (some .DB_NOTFOUND)
  | r :: rounds => do
    touch (cursor, .cursor)
    match r.got with
    | some (.throws e) => return .error e
    | some (.returns err) => return .ok (some err)
    | none => do
      if ← stillSame cmpkey r.same then do
        touch (cursor, .cursor)
        match r.write with
        | some (.throws e) => return .error e
        | some (.returns err) => return .ok (some err)
        | none => dupLoop cursor cmpkey rounds
      else return .ok none

/-- From `Db::cursor` to the commit. Nobody closes the cursor. -/
def modifyBody (n : Nat) (loopError : ErrorCode) (flags : UInt8) (a : ModifyAnswers)
    (buffer : Address) : Own (Except DbException ErrorCode) :=
  match a.cursor with
  | some e => return .error e
  | none => do
    let cursor ← new .cursor
    match ← firstGet n flags a buffer cursor with
    | .error e => return .error e
    | .ok (some err) => return .ok err.code
    | .ok none => do
      touch (cursor, .cursor)
      match a.write with
      | some (.throws e) => return .error e
      | some (.returns err) => return .ok err.code
      | none =>
        if hasFlag flags kMatchDuplicates then
          if hasFlag flags kIgnorePayload then do
            let cmpkey ← getKey n .berkeleyDB
            match ← dupLoop cursor (some cmpkey) a.rounds with
            | .error e => return .error e
            | .ok err => do
              deleteKey cmpkey
              return .ok (if err = some .DB_NOTFOUND then .kOk else loopError)
          else do
            match ← dupLoop cursor none a.rounds with
            | .error e => return .error e
            | .ok err => return .ok (if err = some .DB_NOTFOUND then .kOk else loopError)
        else return .ok .kOk

/-- The end of `Index::Update` and `Index::Delete` when the index is read-only. -/
def abortModify (a : ModifyAnswers) (buffer : Address) : Own (Except DbException ErrorCode) := do
  delete (buffer, .buffer)
  match a.abort with
  | some e => return .error e
  | none => return .ok .kErrorUnknownIndex

/-- `Index::Update` and `Index::Delete`; `finish` commits and frees the buffer. -/
def modify (loopError : ErrorCode) (finish : Address → ErrorCode → Own (Except DbException ErrorCode))
    (n : Nat) (flags : UInt8) (a : ModifyAnswers) : Own (Except DbException ErrorCode) := do
  let rt ← getBDBKey
  touch (rt.2, .dbt)
  match a.begin with
  | some e => return .error e
  | none =>
    if a.started then do
      match ← modifyBody n loopError flags a rt.1 with
      | .error e => return .error e
      | .ok code => finish rt.1 code
    else abortModify a rt.1

/-- `Index::Update` commits first, and then frees the buffer. -/
def indexUpdate (n : Nat) (flags : UInt8) (a : ModifyAnswers) : Own (Except DbException ErrorCode) :=
  modify .kErrorNotFound (fun buffer code =>
    match a.commit with
    | some e => return .error e
    | none => do
      delete (buffer, .buffer)
      return .ok code) n flags a

/-- `Index::Delete` frees the buffer, and then commits. -/
def indexDelete (n : Nat) (flags : UInt8) (a : ModifyAnswers) : Own (Except DbException ErrorCode) :=
  modify .kErrorGenericFailure (fun buffer code => do
    delete (buffer, .buffer)
    match a.commit with
    | some e => return .error e
    | none => return .ok code) n flags a

/-! ### Calls -/

structure State where
  heap : Heap Kind
  /-- the iterators that `CloseIterator` has not taken back -/
  iterators : Address → Option Iterator

/-- Before the first call. -/
def State.start : State := ⟨.empty, fun _ => none⟩

/-- A call on records or iterators with compatible arguments, and what is answered inside of it. -/
inductive Call where
  /-- with the caller's variable -/
  | getRecords (n : Nat) (minKeys maxKeys : Key) (var : Option Address)
      (cursor close : Option DbException)
  | getNext (i : Address) (a : Answers)
  | closeIterator (i : Address) (close : Option DbException)
  | insertRecord (joined : Bool) (put : Option Failure)
  | updateRecord (n : Nat) (flags : UInt8) (a : ModifyAnswers)
  | deleteRecord (n : Nat) (flags : UInt8) (a : ModifyAnswers)

/-- The status code (`none`: an exception leaves the call), the new value of the caller's variable, and
    the record. -/
structure Reply where
  answer : Answer
  iterator : Option Address
  record : Option OwnedRecord

/-- The code behind a `catch`. -/
def caught (handler : DbException → ErrorCode) : Except DbException ErrorCode → Reply
  | .ok code => ⟨some code, none, none⟩
  | .error e => ⟨some (handler e), none, none⟩

namespace State
variable (s : State)

/-- Run a program that works on no iterator. -/
def run (x : Own (Except DbException ErrorCode)) (handler : DbException → ErrorCode) :
    Option (Reply × State) :=
  (x s.heap).map fun p => (caught handler p.1, { s with heap := p.2 })

/-- Run a program that works on the iterator, and keep what becomes of it. -/
def runOn (i : Address) (x : Own (Reply × Option Iterator)) : Option (Reply × State) :=
  (x s.heap).map fun p => (p.1.1, ⟨p.2, Function.update s.iterators i p.1.2⟩)

end State

/-- `GetNext` -/
def getNext (i : Address) (a : Answers) (it : Iterator) : Own (Reply × Option Iterator) := do
  touch (i, .iterator)
  if it.closed then return (⟨some .kErrorIteratorClosed, none, none⟩, some it)
  else do
    match ← it.next a with
    | (.error e, it) => return (⟨some (World.catchRead e), none, none⟩, some it)
    | (.ok false, it) => return (⟨some .kErrorGenericFailure, none, none⟩, some it)
    | (.ok true, it) =>
      if it.ended then return (⟨some .kErrorNotFound, none, none⟩, some it)
      else do
        let (record, it) ← it.newValue
        return (⟨some .kOk, none, record⟩, some it)

/-- `CloseIterator`. Nothing catches an exception of the cursor's close. -/
def closeIterator (i : Address) (thrown : Option DbException) (it : Iterator) :
    Own (Reply × Option Iterator) := do
  touch (i, .iterator)
  if it.closed then do
    delete (i, .iterator)
    return (⟨some .kErrorIteratorClosed, none, none⟩, none)
  else do
    match ← it.close thrown with
    | (.error _, it) => return (⟨none, some i, none⟩, some it)
    | (.ok _, _) => do
      delete (i, .iterator)
      return (⟨some .kOk, none, none⟩, none)

/-- The `catch` blocks of `GetRecords`: what the caller's variable points to is closed. -/
def closeOld (i : Address) (e : DbException) (thrown : Option DbException) (it : Iterator) :
    Own (Reply × Option Iterator) := do
  touch (i, .iterator)
  match ← it.close thrown with
  | (.error _, it) => return (⟨none, some i, none⟩, some it)
  | (.ok _, it) => return (⟨some (World.catchRead e), some i, none⟩, some it)

/-- A call; without a result it has accessed what is not there. -/
def perform (s : State) : Call → Option (Reply × State)
  | .getRecords n minKeys maxKeys var cursor close => do
    let (made, heap) ← newIterator n minKeys maxKeys cursor s.heap
    match made with
    | .ok (i, it) => some (⟨some .kOk, some i, none⟩, ⟨heap, Function.update s.iterators i (some it)⟩)
    | .error e =>
      match var with
      | none => some (⟨some (World.catchRead e), none, none⟩, { s with heap := heap })
      | some i => do
        let old ← s.iterators i
        State.runOn { s with heap := heap } i (closeOld i e close old)
  | .getNext i a => do
    let it ← s.iterators i
    s.runOn i (getNext i a it)
  | .closeIterator i close => do
    let it ← s.iterators i
    s.runOn i (closeIterator i close it)
  | .insertRecord joined put => s.run (indexInsert joined put) World.catchWrite
  | .updateRecord n flags a => s.run (indexUpdate n flags a) World.catchWrite
  | .deleteRecord n flags a => s.run (indexDelete n flags a) World.catchRead

end Contest.Ownership
