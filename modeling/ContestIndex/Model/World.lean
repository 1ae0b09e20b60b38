import ContestIndex.Model.Modify
import ContestIndex.Model.Iterator
import ContestIndex.Schemes.SetWalk

/-! @src example/Index.cc | name:Handles, structures and the index manager | layer:model

    The whole state of the program: the Berkeley DB environment, the map of the IndexManager, and
    the objects on the heap. A destroyed object is `none`; an operation that follows a pointer to
    one is `stuck`. Operations here are run to their end without interference. -/

namespace Contest
open Schemes

/-- An index handle. -/
structure Index where
  name : String
  /-- `structure_`, NULL until the structure was found -/
  structure_ : Option StructurePtr
  /-- whether `db_` refers to an open database -/
  db : Bool
  closed : Bool
  deriving DecidableEq

/-- `Index::GetBDBKey` of a handle on the structure. -/
def Index.getBDBKey (s : IndexStructure) (key : Key) (_max : Bool) : Bytes :=
  -- the flag is not passed on, and the parameter it would set is false by default
  s.getBDBKey key false

structure World where
  env : DbEnv
  /-- `IndexManager::indices_` -/
  indices : List (String × StructurePtr)
  structures : StructurePtr → Option IndexStructure
  handles : IndexPtr → Option Index
  iterators : IteratorPtr → Option Iterator
  /-- the next free heap address -/
  free : Nat

namespace World

/-- The state before the first API call. -/
def initial : World :=
  { env := DbEnv.empty, indices := [], structures := fun _ => none, handles := fun _ => none,
    iterators := fun _ => none, free := 0 }

def setStructure (w : World) (p : StructurePtr) (s : IndexStructure) : World :=
  { w with structures := Function.update w.structures p (some s) }

def setHandle (w : World) (h : IndexPtr) (idx : Index) : World :=
  { w with handles := Function.update w.handles h (some idx) }

def setIterator (w : World) (i : IteratorPtr) (it : Iterator) : World :=
  { w with iterators := Function.update w.iterators i (some it) }

def setEnv (w : World) (env : DbEnv) : World := { w with env := env }

/-- Every cursor moves with the pairs of its database (`Iterator.shift`). -/
def shifted (w : World) (g : Iterator → Nat → Nat) : World :=
  { w with iterators := fun i => (w.iterators i).map fun it => it.shift (g it) }

theorem shifted_iterators {w : World} {g : Iterator → Nat → Nat} {i : IteratorPtr} {it' : Iterator} :
    (w.shifted g).iterators i = some it' ↔
      ∃ it, w.iterators i = some it ∧ it.shift (g it) = it' := Option.map_eq_some_iff

/-- Change the structure at `p`, if it exists. -/
def onStructure (w : World) (p : StructurePtr) (f : IndexStructure → IndexStructure) : World :=
  match w.structures p with
  | some s => w.setStructure p (f s)
  | none => w

/-! ### IndexManager -/

/-- `IndexManager::Insert` -/
def insert (w : World) (name : String) (p : StructurePtr) : World :=
  { w with indices := (name, p) :: w.indices.filter (·.1 ≠ name) }

/-- `IndexManager::Find` -/
def find (w : World) (name : String) : Option StructurePtr :=
  (w.indices.find? (·.1 = name)).map (·.2)

/-- `IndexManager::CloseTransaction` -/
def closeTransaction (w : World) (tx : TxnPtr) : World :=
  w.indices.foldl (fun w e => w.onStructure e.2 (·.endTransaction tx)) w

theorem onStructure_eq (w : World) (p : StructurePtr) (f : IndexStructure → IndexStructure) :
    w.onStructure p f =
      { w with structures := Function.update w.structures p ((w.structures p).map f) } := by
  unfold onStructure
  cases hp : w.structures p with
  | none =>
    have hself : Function.update w.structures p none = w.structures := by
      rw [← hp, Function.update_eq_self]
    simp [hself]
  | some s => rfl

/-- Unregistering changes structures only, one after the other. -/
theorem closeTransaction_eq (w : World) (tx : TxnPtr) :
    w.closeTransaction tx =
      { w with structures := w.indices.foldl (fun st e =>
          Function.update st e.2 ((st e.2).map (·.endTransaction tx))) w.structures } := by
  have hfold : ∀ (es : List (String × StructurePtr)) (v : World),
      es.foldl (fun w e => w.onStructure e.2 (·.endTransaction tx)) v =
        { v with structures := es.foldl (fun st e =>
            Function.update st e.2 ((st e.2).map (·.endTransaction tx))) v.structures } := by
    intro es
    induction es with
    | nil => exact fun v => rfl
    | cons e es ih =>
      intro v
      rw [List.foldl_cons, List.foldl_cons, ih, onStructure_eq]
  exact hfold w.indices w

@[simp] theorem closeTransaction_env (w : World) (tx : TxnPtr) :
    (w.closeTransaction tx).env = w.env := by rw [closeTransaction_eq]

/-! ### Index handles -/

/-- What an operation on the handle `h` works with: its structure, the compare function (which
    looks the structure up again, by the name of the database) and the pairs of the database. -/
structure Opened where
  index : Index
  ptr : StructurePtr
  s : IndexStructure
  cmp : Bytes → Bytes → Ordering
  pairs : List Pair

def opened (w : World) (h : IndexPtr) : Option Opened := do
  let idx ← w.handles h
  let p ← idx.structure_
  let s ← w.structures p
  let q ← w.find idx.name
  let t ← w.structures q
  let pairs ← w.env.pairs idx.name
  if idx.db then some ⟨idx, p, s, t.dbKeycmp, pairs⟩ else none

/-- `structure_->start_transaction(tx)` -/
def startTransaction (w : World) (p : StructurePtr) (s : IndexStructure) (tx : TxnPtr) :
    Bool × World :=
  ((s.startTransaction tx).1, w.setStructure p (s.startTransaction tx).2)

/-- `Index::Insert` -/
def indexInsert (B : BerkeleyDB) (F : Faults) (w : World) (tx : Option TxnPtr) (h : IndexPtr)
    (record : Record) : Outcome ErrorCode × World :=
  match w.opened h with
  | none => (.stuck, w)
  | some o =>
    let started : Bool × World :=
      match tx with
      | some t => w.startTransaction o.ptr o.s t
      | none => (true, w)
    if started.1 then
      match F .put with
      | some (.throws e) => (.throws e, started.2)
      | some (.returns _) => (.ret .kErrorGenericFailure, started.2)
      | none =>
        let pair := (o.s.getBDBKey record.key false, record.payload)
        (.ret .kOk,
          started.2.setEnv (w.env.write tx o.index.name (B.put o.cmp o.pairs pair)))
    else (.ret .kErrorUnknownIndex, started.2)

/-- `Index::Update` and `Index::Delete`, by their write through the cursor and the result of a loop
    that ends with an error. A commit that throws has aborted the transaction. -/
def indexModify (B : BerkeleyDB) (F : Faults) (cw : CursorWrite) (loopError : ErrorCode) (w : World)
    (tx : Option TxnPtr) (h : IndexPtr) (record : Record) (flags : UInt8) :
    Outcome ErrorCode × World :=
  match w.opened h with
  | none => (.stuck, w)
  | some o =>
    match F.thrown .txnBegin with
    | some e => (.throws e, w)
    | none =>
      let tid := (w.env.txnBegin B tx).1
      let begun := (w.env.txnBegin B tx).2
      if (o.s.startTransaction tid).1 then
        let body := modifyBody B F o.s o.cmp cw loopError record flags o.pairs
        let env := if body.wrote then begun.write (some tid) o.index.name body.pairs else begun
        -- the parent is registered after the first write, the nested transaction before it
        let s := (o.s.startTransaction tid).2
        let s := match tx with
          | some t => if body.wrote then (s.startTransaction t).2 else s
          | none => s
        match body.outcome with
        | .throws e => (.throws e, (w.setEnv env).setStructure o.ptr s)
        | .stuck => (.stuck, (w.setEnv env).setStructure o.ptr s)
        | .ret result =>
          match F.thrown .txnCommit with
          | some e => (.throws e, (w.setEnv (env.abort tid)).setStructure o.ptr s)
          | none =>
            (.ret result, (w.setEnv (env.commit tid)).setStructure o.ptr (s.endTransaction tid))
      else (.ret .kErrorUnknownIndex, w.setEnv (begun.abort tid))

/-- `Index::Update` -/
def indexUpdate (B : BerkeleyDB) (F : Faults) (w : World) (tx : Option TxnPtr) (h : IndexPtr)
    (record : Record) (payload : Bytes) (flags : UInt8) : Outcome ErrorCode × World :=
  indexModify B F (.putCurrent payload) .kErrorNotFound w tx h record flags

/-- `Index::Delete` -/
def indexDelete (B : BerkeleyDB) (F : Faults) (w : World) (tx : Option TxnPtr) (h : IndexPtr)
    (record : Record) (flags : UInt8) : Outcome ErrorCode × World :=
  indexModify B F .del .kErrorGenericFailure w tx h record flags

/-- `Index::Compatible`, for a record's key or a range bound. -/
def compatible (w : World) (h : IndexPtr) (key : Key) : Outcome Bool :=
  match w.handles h with
  | none => .stuck
  | some idx =>
    if idx.closed then .ret false
    else
      match idx.structure_.bind w.structures with
      | none => .stuck
      | some s => .ret (key.length = s.attributeCount)

/-- `Index::Close` -/
def closeHandle (F : Faults) (w : World) (h : IndexPtr) : Outcome Unit × World :=
  match w.handles h with
  | none => (.stuck, w)
  | some idx =>
    if idx.closed then (.ret (), w)
    else
      let failure := if idx.db then F.thrown (.dbClose h) else none
      match failure with
      | some e => (.throws e, w.setHandle h { idx with closed := true })
      | none =>
        let w := w.setHandle h { idx with closed := true, db := false }
        match idx.structure_ with
        | none => (.ret (), w)
        | some p =>
          match w.structures p with
          | none => (.stuck, w)
          | some s => (.ret (), w.setStructure p { s with handles := s.handles.erase h })

/-- `IndexStructure::CloseHandles`, taken to close each handle of the set, in the order of their
    addresses. The calls run to their end with it. The loop as it is written (`closeHandlesLoop`) does
    the same while no handle of the set is open; with an open one its next step is undefined, and
    what is said of a run that deletes such an index is said of the loop that was meant. -/
def closeHandles (F : Faults) : List IndexPtr → World → Outcome Unit × World
  | [], w => (.ret (), w)
  | h :: hs, w =>
    match w.closeHandle F h with
    | (.ret _, w) => closeHandles F hs w
    | ended => ended

/-- The handles registered with the structure at `p`. -/
def registered (p : StructurePtr) (w : World) : Finset IndexPtr :=
  match w.structures p with
  | some s => s.handles
  | none => ∅

theorem registered_eq {w : World} {p : StructurePtr} {s : IndexStructure}
    (hs : w.structures p = some s) : registered p w = s.handles := by
  simp only [registered, hs]

/-- The body of the loop in `IndexStructure::CloseHandles`. -/
def closeHandlesBody (F : Faults) (w : World) (h : IndexPtr) : BodyEnd × World :=
  match w.closeHandle F h with
  | (.ret _, w) => (.goesOn, w)
  | (.throws _, w) => (.leaves, w)
  | (.stuck, w) => (.undefined, w)

/-- That loop as it is written, by an iterator of the set from which `Index::Close` erases. -/
def closeHandlesLoop (F : Faults) (p : StructurePtr) (n : Nat) (w : World) : Walk World IndexPtr :=
  setWalk (registered p) (closeHandlesBody F) n (setBegin (registered p w)) w

/-- `delete it->second`: the destructor closes the handles; the object is gone however it ends. -/
def destroyStructure (F : Faults) (w : World) (p : StructurePtr) (s : IndexStructure) :
    Outcome Unit × World :=
  let ended := closeHandles F (s.handles.sort (· ≤ ·)) w
  (ended.1, { ended.2 with structures := Function.update ended.2.structures p none })

/-- `IndexManager::Remove` -/
def remove (F : Faults) (w : World) (name : String) : Outcome ErrorCode × World :=
  match w.find name with
  | none => (.ret .kErrorUnknownIndex, w)
  | some p =>
    match w.structures p with
    | none => (.stuck, w)
    | some s =>
      if s.makeReadOnly.1 then
        match (w.setStructure p s.makeReadOnly.2).destroyStructure F p s with
        | (.ret _, w) => (.ret .kOk, { w with indices := w.indices.filter (·.1 ≠ name) })
        | (.throws e, w) => (.throws e, w)
        | (.stuck, w) => (.stuck, w)
      else (.ret .kErrorOpenTransactions, w)

/-- `Index::Open`. The handle exists however it ends; it is what `*index` points to. -/
def openHandle (F : Faults) (w : World) (name : String) : Outcome ErrorCode × IndexPtr × World :=
  let h := w.free
  let idx : Index := { name := name, structure_ := w.find name, db := false, closed := true }
  let w := { w with free := h + 1 }.setHandle h idx
  match idx.structure_ with
  | none => (.ret .kErrorUnknownIndex, h, w)
  | some p =>
    match w.structures p with
    | none => (.stuck, h, w)
    | some s =>
      let w := w.setStructure p { s with handles := Insert.insert h s.handles }
      match F.thrown .dbOpen with
      | some e => (.throws e, h, w)
      | none =>
        match w.env.pairs name with
        | none => (.throws .ENOENT, h, w)
        | some _ => (.ret .kOk, h, w.setHandle h { idx with db := true, closed := false })

end World

end Contest
