import ContestIndex.Model.IndexStructure
import ContestIndex.Schemes.Exits
import Mathlib.Logic.Function.Basic

/-! @src benchmark/basedriver.c | name:The benchmark driver | layer:model

    The driver fills four indexes and then lets threads query and change them. A thread remembers keys
    it has inserted in its keystore, an array with room for BDR_KEY_PROVISIONING keys, and takes the keys
    it updates and deletes from there.

        PopulateIndexTask   malloc, insert DATASIZE / (8 * DIMENSIONS + PAYLOAD) records
              │ memcpy of the whole keystore, keypos = 0
        BenchmarkTask       until halt: range | point | update | insert | delete

    The random numbers, the answers of the API and the floating point of the normal distribution come
    from outside (`Surroundings`). `exit(-1)` ends the process. What a task has done stays visible in its
    log, which no function reads. -/

namespace Contest
namespace BaseDriver
open Schemes Prog

/-! ### Tables -/

inductive RngType where
  | Uniform | Normal | Zipf
  deriving DecidableEq, Repr

structure RngInfo where
  type : RngType
  a : Int
  b : Int
  deriving DecidableEq, Repr

def BDR_SIZE_MB : Nat := 1048576

abbrev BDR_INDEXCOUNT : Nat := 4

/-- The indexes of the driver. -/
abbrev IndexId := Fin BDR_INDEXCOUNT

def BDR_DATASIZES : IndexId → Nat
  | 0 => BDR_SIZE_MB * 32
  | 1 => BDR_SIZE_MB * 16
  | 2 => BDR_SIZE_MB * 32
  | 3 => BDR_SIZE_MB * 64

def BDR_DIMENSIONS : IndexId → Nat
  | 0 => 3
  | 1 => 1
  | 2 => 4
  | 3 => 8

def BDR_PAYLOADS : IndexId → Nat
  | 0 => 8
  | 1 => 8
  | 2 => 64
  | 3 => 64

def BDR_IDX_0 : List RngInfo := [⟨.Uniform, 1, 1000⟩, ⟨.Uniform, 2001, 3000⟩, ⟨.Uniform, 3001, 4000⟩]

def BDR_IDX_1 : List RngInfo := [⟨.Normal, 20000, 5000⟩]

def BDR_IDX_2 : List RngInfo :=
  [⟨.Uniform, 1, 1000⟩, ⟨.Normal, 2000, 100⟩, ⟨.Normal, 1000, 500⟩, ⟨.Uniform, 1, 100000⟩]

def BDR_IDX_3 : List RngInfo :=
  [⟨.Uniform, 1, 1000⟩, ⟨.Normal, 2000, 100⟩, ⟨.Normal, 1000, 500⟩, ⟨.Uniform, 1, 100000⟩,
    ⟨.Uniform, 1, 1000⟩, ⟨.Normal, 2000, 100⟩, ⟨.Normal, 1000, 500⟩, ⟨.Uniform, 1, 100000⟩]

def BDR_RNGS : IndexId → List RngInfo
  | 0 => BDR_IDX_0
  | 1 => BDR_IDX_1
  | 2 => BDR_IDX_2
  | 3 => BDR_IDX_3

def BDR_KEY_PROVISIONING : Nat := 1024 * 1024 * 2

def BDR_RANGE_PROB : Int := 10
def BDR_POINT_PROB : Int := 40
def BDR_UPDATE_PROB : Int := 20
def BDR_INSERT_PROB : Int := 15

/-- Every column has its generator. -/
theorem length_BDR_RNGS (id : IndexId) : (BDR_RNGS id).length = BDR_DIMENSIONS id := by
  revert id
  decide

/-- "RNG not implemented" is never printed. -/
theorem BDR_RNGS_type (id : IndexId) : ∀ ri ∈ BDR_RNGS id, ri.type ≠ .Zipf := by
  revert id
  decide

theorem BDR_DIMENSIONS_pos (id : IndexId) : 0 < BDR_DIMENSIONS id := by
  revert id
  decide

/-! ### What the tasks work on -/

/-- The calls of the API with the keys they are given; an attribute is `none` if it is NULL or was read
    from memory that nobody has written. -/
inductive ApiCall where
  | createIndex (types : List AttributeType)
  | openIndex
  | beginTransaction
  | commitTransaction
  | getRecords (minKeys maxKeys : List (Option Int))
  | getNext
  | closeIterator
  | insertRecord (key : List Int)
  | updateRecord (key : List (Option Int))
  | deleteRecord (key : List (Option Int))
  deriving DecidableEq, Repr

inductive Event where
  | called (call : ApiCall) (code : ErrorCode)
  /-- `KeystoreInsert` has written the slot -/
  | stored (slot : Nat) (key : List Int)
  /-- the random number `draw` has chosen the slot, which was then read -/
  | selected (draw : UInt64) (ksselect : Nat) (key : List (Option Int))
  deriving DecidableEq, Repr

structure ThreadInfo where
  indexid : IndexId
  /-- the cells that have been written, `none` for all other memory -/
  keystore : Nat → Option Int
  keypos : Nat

structure Task where
  ti : ThreadInfo
  /-- how many random numbers have been drawn -/
  drawn : Nat
  /-- how many calls have been answered -/
  answered : Nat
  /-- the latest event comes first -/
  log : List Event

/-- Where a task gets its random numbers and its answers from. -/
structure Surroundings where
  draw : Nat → UInt64
  answer : Nat → ErrorCode
  /-- `ri->b * r1 * cos(r2) + ri->a`, in floating point -/
  normal : RngInfo → UInt64 → UInt64 → Int

variable (e : Surroundings)

/-- BDR_RNG_NEXT, the new value of rngz. -/
def next : Prog Task UInt64 := do
  let t ← get
  modify fun t => { t with drawn := t.drawn + 1 }
  return e.draw t.drawn

/-- BDR_RNG_NEXTPAIR, the new values of rngz and rngz2. -/
def nextPair : Prog Task (UInt64 × UInt64) := do
  let rngz2 ← next e
  let rngz ← next e
  return (rngz, rngz2)

def call (c : ApiCall) : Prog Task ErrorCode := do
  let t ← get
  modify fun t =>
    { t with answered := t.answered + 1, log := .called c (e.answer t.answered) :: t.log }
  return e.answer t.answered

def UINT64_MAX : Nat := 18446744073709551615

/-- In exact arithmetic; without a value the process prints an error and exits. -/
def getRandomValue (ri : RngInfo) (a b : UInt64) : Option Int :=
  match ri.type with
  | .Uniform =>
    if a.toNat > UINT64_MAX then none
    else some ((a.toNat : Int) * (ri.b - ri.a) / UINT64_MAX + ri.a)
  | .Normal => some (e.normal ri a b)
  | .Zipf => none

/-- BDR_RNG_NEXTPAIR and `getRandomValue`. -/
def random (ri : RngInfo) : Prog Task Int := do
  let p ← nextPair e
  ofOption (getRandomValue e ri p.1 p.2)

/-- Conversion to u_int32_t. -/
def toUInt32 (v : Int) : Nat := (v % 4294967296).toNat

/-! ### The keystore -/

/-- Writes consecutive cells. -/
def writeCells (keystore : Nat → Option Int) (base : Nat) : List Int → Nat → Option Int
  | [] => keystore
  | v :: vs => writeCells (Function.update keystore base (some v)) (base + 1) vs

/-- `KeystoreInsert` -/
def ThreadInfo.keystoreInsert (ti : ThreadInfo) (key : List Int) : ThreadInfo :=
  { ti with
    keystore := writeCells ti.keystore (ti.keypos * BDR_DIMENSIONS ti.indexid) key
    keypos := (ti.keypos + 1) % BDR_KEY_PROVISIONING }

/-- The loop of the update and the delete branch that reads a key. -/
def ThreadInfo.keyAt (ti : ThreadInfo) (ksselect : Nat) : List (Option Int) :=
  (List.range (BDR_DIMENSIONS ti.indexid)).map fun j =>
    ti.keystore (ksselect * BDR_DIMENSIONS ti.indexid + j)

def keystoreInsert (key : List Int) : Prog Task Unit :=
  modify fun t => { t with ti := t.ti.keystoreInsert key, log := .stored t.ti.keypos key :: t.log }

/-- A random number and the slot that it chooses. -/
def selectSlot : Prog Task (UInt64 × Nat) := do
  let p ← nextPair e
  let v ← ofOption (getRandomValue e ⟨.Uniform, 0, BDR_KEY_PROVISIONING⟩ p.1 p.2)
  return (p.1, toUInt32 v)

def readKey (draw : UInt64) (ksselect : Nat) : Prog Task (List (Option Int)) := do
  let t ← get
  modify fun t => { t with log := .selected draw ksselect (t.ti.keyAt ksselect) :: t.log }
  return t.ti.keyAt ksselect

/-- A new random key. -/
def randomKey : Prog Task (List Int) := do
  let t ← get
  (BDR_RNGS t.ti.indexid).mapM (random e)

/-! ### BenchmarkTask -/

/-- At most `n` calls of GetNext, up to the first that fails. -/
def getNexts : Nat → Prog Task Unit
  | 0 => pure ()
  | n + 1 => do
    let code ← call e .getNext
    if code = .kOk then getNexts n else pure ()

def rangeQuery : Prog Task Unit := do
  let _ ← call e .beginTransaction
  let key ← randomKey e
  let _ ← call e (.getRecords (key.map some) (key.map fun _ => some INT64_MAX))
  getNexts e 200
  let _ ← call e .closeIterator
  let _ ← call e .commitTransaction

/-- The key of a point query: one random attribute, if the random column is one of the index. -/
def pointKey : Prog Task (List (Option Int)) := do
  let t ← get
  let colselect ← random e ⟨.Uniform, 0, BDR_DIMENSIONS t.ti.indexid⟩
  (BDR_RNGS t.ti.indexid).zipIdx.mapM fun c =>
    if (c.2 : Int) = colselect then do
      let v ← random e c.1
      return some v
    else return none

def pointQuery : Prog Task Unit := do
  let key ← pointKey e
  let code ← call e (.getRecords key key)
  if code ≠ .kOk then failure
  else do
    let _ ← call e .getNext
    let _ ← call e .closeIterator

def update : Prog Task Unit := do
  let p ← selectSlot e
  -- the payload is set to this number
  let _ ← next e
  let key ← readKey p.1 p.2
  let _ ← call e (.updateRecord key)

def insert : Prog Task Unit := do
  let key ← randomKey e
  let code ← call e (.insertRecord key)
  if code = .kOk then keystoreInsert key else pure ()

def delete : Prog Task Unit := do
  let p ← selectSlot e
  let key ← readKey p.1 p.2
  let _ ← call e (.deleteRecord key)

/-- A branch that does something `n` times in a transaction. -/
def inTransaction (n : Nat) (body : Prog Task Unit) : Prog Task Unit := do
  let _ ← call e .beginTransaction
  times body n
  let _ ← call e .commitTransaction

/-- The body of the loop of `BenchmarkTask`. -/
def operation : Prog Task Unit := do
  let op ← random e ⟨.Uniform, 0, 100⟩
  if op ≤ BDR_RANGE_PROB then rangeQuery e
  else if op ≤ BDR_RANGE_PROB + BDR_POINT_PROB then inTransaction e 20 (pointQuery e)
  else if op ≤ BDR_RANGE_PROB + BDR_POINT_PROB + BDR_UPDATE_PROB then inTransaction e 5 (update e)
  else if op ≤ BDR_RANGE_PROB + BDR_POINT_PROB + BDR_UPDATE_PROB + BDR_INSERT_PROB then
    inTransaction e 5 (insert e)
  else inTransaction e 5 (delete e)

/-- `BenchmarkTask`, halted after `n` operations. -/
def benchmarkTask (n : Nat) : Prog Task Unit := do
  let _ ← call e .openIndex
  times (operation e) n

/-! ### PopulateIndexTask -/

/-- How many records an index gets. -/
def populated (id : IndexId) : Nat := BDR_DATASIZES id / (8 * BDR_DIMENSIONS id + BDR_PAYLOADS id)

def populateRecord : Prog Task Unit := do
  let key ← randomKey e
  let code ← call e (.insertRecord key)
  if code ≠ .kOk then failure else keystoreInsert key

/-- `PopulateIndexTask`; `main` gives a populating thread the same `id` and `indexid`. -/
def populateIndexTask : Prog Task Unit := do
  let t ← get
  let code ← call e (.createIndex (List.replicate (BDR_DIMENSIONS t.ti.indexid) .kInt))
  if code ≠ .kOk then failure
  else do
    let code ← call e .openIndex
    if code ≠ .kOk then failure else times (populateRecord e) (populated t.ti.indexid)

/-! ### Main -/

/-- A keystore that has just been allocated. -/
def Task.initial (id : IndexId) : Task :=
  { ti := { indexid := id, keystore := fun _ => none, keypos := 0 }, drawn := 0, answered := 0,
    log := [] }

/-- The thread that `main` makes from the one that has populated the index. -/
def Task.copyKeystore (t : Task) : Task :=
  { ti := { t.ti with keypos := 0 }, drawn := 0, answered := 0, log := t.log }

variable (e' : Surroundings)

/-- What `main` does about one benchmark thread: the index is populated, then the thread works on a copy
    of the keystore for `n` operations. -/
def main (n : Nat) : Prog Task Unit := do
  populateIndexTask e
  modify Task.copyKeystore
  benchmarkTask e' n

/-- Everything that has happened at the end or at the exit. -/
def run (id : IndexId) (n : Nat) : List Event := ((main e e' n).exec (Task.initial id)).2.log

end BaseDriver
end Contest
