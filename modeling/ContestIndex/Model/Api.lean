import ContestIndex.Model.World

/-! @src example/BDBImpl.cc | name:API calls | layer:model

    Each call checks its arguments, lets the handle, the manager or Berkeley DB do the work, and turns
    what comes back into a status code. `none` is a call that does not come back. NULL arguments are
    `none`; a NULL name is refused like the empty one and not modelled separately. A caller's variable
    of pointer type (`Transaction **`, `Index **`, `Iterator **`) is passed by its value and
    returned with the value it has after the call. -/

namespace Contest
open Schemes

/-- A status code, unless the call does not come back. -/
abbrev Answer := Option ErrorCode

/-- A modification of an index, with its arguments. -/
inductive Modification where
  | insert (record : Record)
  | update (record : Record) (payload : Bytes) (flags : UInt8)
  | delete (record : Record) (flags : UInt8)
  deriving DecidableEq

def Modification.record : Modification → Record
  | insert r => r
  | update r _ _ => r
  | delete r _ => r

namespace World

/-- The `try` block of a call: exceptions become status codes. -/
def caught (handler : DbException → ErrorCode) : Outcome ErrorCode × World → Answer × World
  | (.ret code, w) => (some code, w)
  | (.throws e, w) => (some (handler e), w)
  | (.stuck, w) => (none, w)

/-- The `catch` blocks of `InsertRecord` and `UpdateRecord`. -/
def catchWrite : DbException → ErrorCode
  | .DbDeadlockException => .kErrorDeadlock
  | .ENOMEM => .kErrorOutOfMemory
  | _ => .kErrorGenericFailure

/-- The `catch` blocks of `DeleteRecord`, `GetRecords` and `GetNext`. -/
def catchRead : DbException → ErrorCode
  | .DbDeadlockException => .kErrorDeadlock
  | _ => .kErrorGenericFailure

/-- The `catch` block of `OpenIndex`. -/
def catchOpen : DbException → ErrorCode
  | .ENOENT => .kErrorUnknownIndex
  | .ENOMEM => .kErrorOutOfMemory
  | _ => .kErrorGenericFailure

/-- The `catch` block of `DeleteIndex`. -/
def catchDrop : DbException → ErrorCode
  | .ENOENT => .kErrorUnknownIndex
  | _ => .kErrorGenericFailure

/-! ### Transactions -/

/-- `BeginTransaction`. When it fails it leaves the caller's variable alone (`none`). -/
def beginTransaction (B : BerkeleyDB) (F : Faults) (w : World) : Answer × Option TxnPtr × World :=
  match F.thrown .txnBegin with
  | some .ENOMEM => (some .kErrorOutOfMemory, none, w)
  | some _ => (some .kErrorGenericFailure, none, w)
  | none =>
    (some .kOk, some (w.env.txnBegin B none).1, w.setEnv (w.env.txnBegin B none).2)

/-- `AbortTransaction`. The handle of a resolved transaction must not be used. -/
def abortTransaction (F : Faults) (w : World) : Option TxnPtr → Answer × Option TxnPtr × World
  | none => (some .kErrorTransactionClosed, none, w)
  | some t =>
    if t ∉ w.env.dbs.ids then (none, some t, w)
    else
      match F.thrown .txnAbort with
      | some _ => (some .kErrorGenericFailure, some t, w)
      | none => (some .kOk, none, (w.setEnv (w.env.abort t)).closeTransaction t)

/-- `CommitTransaction`. A commit that throws has aborted the transaction. -/
def commitTransaction (F : Faults) (w : World) : Option TxnPtr → Answer × Option TxnPtr × World
  | none => (some .kErrorTransactionClosed, none, w)
  | some t =>
    if t ∉ w.env.dbs.ids then (none, some t, w)
    else
      match F.thrown .txnCommit with
      | some .DbDeadlockException =>
        (some .kTransactionAborted, some t, w.setEnv (w.env.abort t))
      | some _ =>
        match abortTransaction F (w.setEnv (w.env.abort t)) (some t) with
        | (some .kOk, tx, w) => (some .kTransactionAborted, tx, w)
        | (some _, tx, w) => (some .kErrorGenericFailure, tx, w)
        | (none, tx, w) => (none, tx, w)
      | none => (some .kOk, none, (w.setEnv (w.env.commit t)).closeTransaction t)

/-! ### The catalogue -/

/-- `CreateIndex`. The array `types` has `column_count` elements. -/
def createIndex (F : Faults) (w : World) (name : String) (types : Option (List AttributeType)) :
    Answer × World :=
  match types with
  | none => (some .kErrorGenericFailure, w)
  | some types =>
    if name = "" ∨ types.length = 0 then (some .kErrorGenericFailure, w)
    else
      let failure := match F.thrown .dbOpen with
        | some e => some e
        | none => if (w.env.pairs name).isSome then some .EEXIST else none
      match failure with
      | some .EEXIST => (some .kErrorIndexExists, w)
      | some .ENOMEM => (some .kErrorOutOfMemory, w)
      | some _ => (some .kErrorGenericFailure, w)
      | none =>
        let p := w.free
        let w := { w with env := { w.env with dbs := w.env.dbs.put name (some []) }, free := p + 1 }
        (some .kOk, (w.setStructure p (IndexStructure.new types)).insert name p)

/-- `OpenIndex`. The second component is the new `*idx` (`none`: the variable was not written). -/
def openIndex (F : Faults) (w : World) (name : String) :
    Answer × Option (Option IndexPtr) × World :=
  if name = "" then (some .kErrorGenericFailure, none, w)
  else
    match w.openHandle F name with
    | (.ret .kErrorUnknownIndex, h, w) => (some .kErrorUnknownIndex, some (some h), w)
    | (.ret _, h, w) => (some .kOk, some (some h), w)
    | (.throws e, h, w) =>
      -- `delete *idx`: the handle is not open, so its destructor does nothing
      (some (catchOpen e), some none, { w with handles := Function.update w.handles h none })
    | (.stuck, h, w) => (none, some (some h), w)

/-- `CloseIndex`. The object is gone even if its destructor throws. -/
def closeIndex (F : Faults) (w : World) : Option IndexPtr → Answer × Option IndexPtr × World
  | none => (some .kErrorUnknownIndex, none, w)
  | some h =>
    match w.handles h with
    | none => (none, some h, w)
    | some idx =>
      let result : ErrorCode := if idx.closed then .kErrorUnknownIndex else .kOk
      let ended := w.closeHandle F h
      let w := { ended.2 with handles := Function.update ended.2.handles h none }
      match ended.1 with
      | .ret _ => (some result, none, w)
      | .throws .EINVAL => (some .kErrorUnknownIndex, none, w)
      | .throws _ => (some .kErrorGenericFailure, some h, w)
      | .stuck => (none, some h, w)

/-- `DeleteIndex` -/
def deleteIndex (F : Faults) (w : World) (name : String) : Answer × World :=
  if name = "" then (some .kErrorGenericFailure, w)
  else
    match w.remove F name with
    | (.ret .kOk, w) =>
      let failure := match F.thrown .dbremove with
        | some e => some e
        | none => if (w.env.pairs name).isSome then none else some .ENOENT
      match failure with
      | some e => (some (catchDrop e), w)
      | none => (some .kOk, w.setEnv { w.env with dbs := w.env.dbs.put name none })
    | ended => caught catchDrop ended

/-! ### Records -/

/-- The checks that `InsertRecord`, `UpdateRecord` and `DeleteRecord` share: the code with which they
    refuse the arguments. -/
def refusal (w : World) (idx : Option IndexPtr) (record : Option Record) : Outcome (Option ErrorCode) :=
  match idx with
  | none => .ret (some .kErrorUnknownIndex)
  | some h =>
    match w.handles h with
    | none => .stuck
    | some idx =>
      if idx.closed then .ret (some .kErrorUnknownIndex)
      else
        match record with
        | none => .ret (some .kErrorIncompatibleKey)
        | some record =>
          match w.compatible h record.key with
          | .ret true => .ret none
          | .ret false => .ret (some .kErrorIncompatibleKey)
          | .throws e => .throws e
          | .stuck => .stuck

/-- The frame of the three calls: `work` runs when nothing is refused. -/
def guarded (w : World) (idx : Option IndexPtr) (record : Option Record)
    (work : IndexPtr → Record → Answer × World) : Answer × World :=
  match w.refusal idx record, idx, record with
  | .ret none, some h, some record => work h record
  | .ret code, _, _ => (code, w)
  | _, _, _ => (none, w)

/-- `InsertRecord` -/
def insertRecord (B : BerkeleyDB) (F : Faults) (w : World) (tx : Option TxnPtr)
    (idx : Option IndexPtr) (record : Option Record) : Answer × World :=
  w.guarded idx record fun h record => caught catchWrite (w.indexInsert B F tx h record)

/-- `UpdateRecord` -/
def updateRecord (B : BerkeleyDB) (F : Faults) (w : World) (tx : Option TxnPtr)
    (idx : Option IndexPtr) (record : Option Record) (newPayload : Option Bytes) (flags : UInt8) :
    Answer × World :=
  w.guarded idx record fun h record =>
    match newPayload with
    | none => (some .kErrorGenericFailure, w)
    | some payload => caught catchWrite (w.indexUpdate B F tx h record payload flags)

/-- `DeleteRecord` -/
def deleteRecord (B : BerkeleyDB) (F : Faults) (w : World) (tx : Option TxnPtr)
    (idx : Option IndexPtr) (record : Option Record) (flags : UInt8) : Answer × World :=
  w.guarded idx record fun h record => caught catchRead (w.indexDelete B F tx h record flags)

/-- Call the API function of a modification. -/
def modify (B : BerkeleyDB) (F : Faults) (w : World) (tx : Option TxnPtr) (h : IndexPtr) :
    Modification → Answer × World
  | .insert record => w.insertRecord B F tx (some h) (some record)
  | .update record payload flags => w.updateRecord B F tx (some h) (some record) (some payload) flags
  | .delete record flags => w.deleteRecord B F tx (some h) (some record) flags

/-! ### Range queries -/

/-- `Iterator::Iterator`, up to the call that may throw. -/
def newIterator (w : World) (tx : Option TxnPtr) (h : IndexPtr) (s : IndexStructure)
    (minKeys maxKeys : Key) : IteratorPtr × World :=
  (w.free, { w with free := w.free + 1 }.setIterator w.free
    { index := h, txn := tx, closed := false, ended := false, initialized := false,
      minKey := minKeys, maxKey := maxKeys, key := s.getBDBKey minKeys false, value := [],
      cursor := some none })

/-- `GetRecords`. The last argument is the caller's `Iterator *`, or `none` for a NULL `it`; the
    second component is its value after the call. -/
def getRecords (F : Faults) (w : World) (tx : Option TxnPtr) (idx : Option IndexPtr)
    (minKeys maxKeys : Key) (it : Option (Option IteratorPtr)) :
    Answer × Option (Option IteratorPtr) × World :=
  match idx with
  | none => (some .kErrorUnknownIndex, it, w)
  | some h =>
    match w.handles h with
    | none => (none, it, w)
    | some idx =>
      if idx.closed then (some .kErrorUnknownIndex, it, w)
      else
        match w.compatible h minKeys, w.compatible h maxKeys with
        | .ret true, .ret true =>
          match it with
          | none => (some .kErrorGenericFailure, none, w)
          | some var =>
            match w.opened h with
            | none => (none, some var, w)
            | some o =>
              match F.thrown .cursor with
              | none =>
                let made := w.newIterator tx h o.s minKeys maxKeys
                (some .kOk, some (some made.1), made.2)
              | some e =>
                -- the variable still has the value it had before the call
                match var with
                | none => (some (catchRead e), some none, w)
                | some i =>
                  match w.iterators i with
                  | none => (none, some var, w)
                  | some old =>
                    match old.close F with
                    | (.ret _, old) => (some (catchRead e), some var, w.setIterator i old)
                    | (_, old) => (none, some var, w.setIterator i old)
        | .ret _, .ret _ => (some .kErrorIncompatibleKey, it, w)
        | _, _ => (none, it, w)

/-- `GetNext`. The second component is the new `*record` (`none`: the variable was not written). -/
def getNext (B : BerkeleyDB) (F : Faults) (w : World) (it : Option IteratorPtr) :
    Answer × Option (Option Record) × World :=
  match it with
  | none => (some .kErrorIteratorClosed, none, w)
  | some i =>
    match w.iterators i with
    | none => (none, none, w)
    | some it =>
      if it.closed then (some .kErrorIteratorClosed, none, w)
      else
        match w.opened it.index with
        | none => (none, none, w)
        | some o =>
          match it.next B F o.s o.cmp o.pairs with
          | (.ret true, it) =>
            if it.ended then (some .kErrorNotFound, some none, w.setIterator i it)
            else (some .kOk, some (it.record o.s), w.setIterator i it)
          | (.ret false, it) => (some .kErrorGenericFailure, none, w.setIterator i it)
          | (.throws e, it) => (some (catchRead e), none, w.setIterator i it)
          | (.stuck, it) => (none, none, w.setIterator i it)

/-- `CloseIterator`. Nothing catches an exception of the cursor's close. -/
def closeIterator (F : Faults) (w : World) : Option IteratorPtr → Answer × Option IteratorPtr × World
  | none => (some .kErrorIteratorClosed, none, w)
  | some i =>
    match w.iterators i with
    | none => (none, some i, w)
    | some it =>
      if it.closed then
        (some .kErrorIteratorClosed, none,
          { w with iterators := Function.update w.iterators i none })
      else
        match it.close F with
        | (.ret _, _) =>
          (some .kOk, none, { w with iterators := Function.update w.iterators i none })
        | (_, it) => (none, some i, w.setIterator i it)

end World

end Contest
