import ContestIndex.Model.BerkeleyDB

/-! @src example/Iterator.cc | name:Range iterator | layer:model

    An iterator owns a cursor. Its first move is DB_SET_RANGE to the encoded minimum key, every
    further move is DB_NEXT; it skips pairs above the maximum key and ends at the first one whose
    attribute 0 is above it. The position of the cursor is the number of pairs up to the one it stands
    on; while others are put in or deleted it stays where it is among them (`shift`).

        initialized_ = false ──get SET_RANGE──▶ found … ──get NEXT──▶ end_ (cursor_ = NULL)
                                                                      error: closed_ -/

namespace Contest
open Schemes

structure Iterator where
  index : IndexPtr
  /-- the transaction under which the cursor was opened -/
  txn : Option TxnPtr
  closed : Bool
  ended : Bool
  initialized : Bool
  minKey : Key
  maxKey : Key
  /-- `key_` and `value_` -/
  key : Bytes
  value : Bytes
  /-- `cursor_`: NULL, or a cursor that stands nowhere yet or on the last one of so many pairs (behind
      them, if its pair has been deleted) -/
  cursor : Option (Option Nat)
  deriving DecidableEq

namespace Iterator

/-- `Iterator::CloseCursor` -/
def closeCursor (F : Faults) (it : Iterator) : Outcome Unit × Iterator :=
  match it.cursor with
  | none => (.ret (), it)
  | some _ =>
    match F.thrown .cursorClose with
    | some e => (.throws e, it)
    | none => (.ret (), { it with cursor := none })

/-- `Iterator::SetEnded` -/
def setEnded (F : Faults) (it : Iterator) : Outcome Unit × Iterator :=
  { it with ended := true }.closeCursor F

/-- `Iterator::Close`. It frees `key_`, `value_` and the bounds, so it must not run twice. -/
def close (F : Faults) (it : Iterator) : Outcome Unit × Iterator :=
  if it.closed then (.stuck, it) else { it with closed := true }.closeCursor F

/-- The last branch of `Next`: no pair could be fetched. -/
def fetchFailed (F : Faults) (err : DbError) (it : Iterator) : Outcome Bool × Iterator :=
  match it.setEnded F with
  | (.throws e, it) => (.throws e, it)
  | (.stuck, it) => (.stuck, it)
  | (.ret _, it) =>
    if err = .DB_NOTFOUND then (.ret true, it)
    else
      match it.close F with
      | (.throws e, it) => (.throws e, it)
      | (.stuck, it) => (.stuck, it)
      | (.ret _, it) => (.ret false, it)

/-- The cursor has fetched the pair with index `i`. -/
def moveTo (i : Nat) (p : Pair) (it : Iterator) : Iterator :=
  { it with key := p.1, value := p.2, cursor := some (some (i + 1)) }

/-- The pairs under the cursor have changed: what was behind `n` of them is now behind `g n`. -/
def shift (g : Nat → Nat) (it : Iterator) : Iterator :=
  { it with cursor := it.cursor.map (·.map g) }

/-- The body of the loop of `Next` with `err == 0`: the fetched pair ends the iteration, is returned,
    or is skipped. `more` is what follows when the `n`-th `get`, the next one, does not fail. -/
def onPair (F : Faults) (s : IndexStructure) (n : Nat) (it : Iterator)
    (more : Outcome Bool × Iterator) : Outcome Bool × Iterator :=
  match checkBounds (s.getKey it.key) it.maxKey with
  | none => (.stuck, it)
  | some .within => (.ret true, it)
  | some (.exceeded index) =>
    if index = 0 then
      match it.setEnded F with
      | (.throws e, it) => (.throws e, it)
      | (.stuck, it) => (.stuck, it)
      | (.ret _, it) => (.ret true, it)
    else
      match F (.get n) with
      | some (.throws e) => (.throws e, it)
      | some (.returns err) => it.fetchFailed F err
      | none => more

/-- The loop of `Next`, with the iterator on the pair with index `i` and the given pairs behind. -/
def nextLoop (F : Faults) (s : IndexStructure) (n i : Nat) (it : Iterator) :
    List Pair → Outcome Bool × Iterator
  | [] => it.onPair F s n (it.fetchFailed F .DB_NOTFOUND)
  | p :: rest => it.onPair F s n (nextLoop F s (n + 1) (i + 1) (it.moveTo (i + 1) p) rest)

/-- `Iterator::Next` on a database with these pairs. -/
def next (B : BerkeleyDB) (F : Faults) (s : IndexStructure) (cmp : Bytes → Bytes → Ordering)
    (pairs : List Pair) (it : Iterator) : Outcome Bool × Iterator :=
  match it.cursor with
  | none => (.stuck, it)
  | some position =>
    match F (.get 0) with
    | some (.throws e) => (.throws e, it)
    | some (.returns err) => { it with initialized := true }.fetchFailed F err
    | none =>
      if it.initialized then
        let i := match position with
          | some j => j
          | none => 0
        match pairs.drop i with
        | [] => it.fetchFailed F .DB_NOTFOUND
        | p :: rest => nextLoop F s 1 i (it.moveTo i p) rest
      else
        match B.setRange cmp pairs it.key with
        | none => { it with initialized := true }.fetchFailed F .DB_NOTFOUND
        | some c =>
          nextLoop F s 1 c.before.length
            ({ it with initialized := true }.moveTo c.before.length c.cur) c.after

/-- `Iterator::value` -/
def record (s : IndexStructure) (it : Iterator) : Option Record :=
  if it.ended then none else some { key := s.getKey it.key, payload := it.value }

end Iterator

end Contest
