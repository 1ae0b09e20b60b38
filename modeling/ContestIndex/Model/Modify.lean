import ContestIndex.Model.BerkeleyDB

/-! @src example/Index.cc | name:Update and delete through a cursor | layer:model

    `Index::Update` and `Index::Delete` are one piece of code written twice. Between opening the
    cursor and committing the nested transaction they differ in the write (`put` with DB_CURRENT,
    `del`) and in the result when the loop over the duplicates ends with an error, so that part is
    one definition with these two as parameters (`modifyBody`).

        get ──▶ write ──▶ [kMatchDuplicates]  get ──▶ write ──▶ get ──▶ write ──▶ … ──▶ DB_NOTFOUND
        0       0                             1       1         2       2 -/

namespace Contest
open Schemes

/-- The loops `while((err = cursor->get(..)) == 0 && ..)` behind the first write. The loop over
    DB_NEXT evaluates `keycmp(cmpkey, record->key)` after every `get`; `cmpkey` was decoded before
    the loop, so its result is always the same (`check`). The loop over DB_NEXT_DUP has no such
    condition. Returns `err` and the cursor. -/
def dupLoop (F : Faults) (cmp : Bytes → Bytes → Ordering) (move : Move) (check : Option Ordering)
    (w : CursorWrite) (n : Nat) (c : Cursor Pair) : Outcome (Option DbError) × Cursor Pair :=
  match F (.get n) with
  | some (.throws e) => (.throws e, c)
  | some (.returns err) => (.ret (some err), c)
  | none =>
    match _h : moveCursor cmp move c with
    | none => (.ret (some .DB_NOTFOUND), c)
    | some d =>
      match check with
      | none => (.stuck, d)
      | some .eq =>
        match F (.write n) with
        | some (.throws e) => (.throws e, d)
        | some (.returns err) => (.ret (some err), d)
        | none => dupLoop F cmp move check w (n + 1) (w.apply d)
      | some _ => (.ret none, d)
termination_by c.after.length
decreasing_by simpa using moveCursor_after_lt _h

/-- "Retrieve the first record": the cursor, or the error of the `get`. With kIgnorePayload the key
    is decoded again, whether or not the `get` has replaced it, and compared with the record's. -/
def firstGet (B : BerkeleyDB) (F : Faults) (s : IndexStructure) (cmp : Bytes → Bytes → Ordering)
    (record : Record) (ignorePayload : Bool) (pairs : List Pair) :
    Outcome (Except DbError (Cursor Pair)) :=
  let key := s.getBDBKey record.key false
  match F (.get 0) with
  | some (.throws e) => .throws e
  | failure =>
    let got : Except DbError (Cursor Pair) :=
      match failure with
      | some (.returns err) => .error err
      | _ =>
        match if ignorePayload then B.setRange cmp pairs key
            else B.getBoth cmp pairs key record.payload with
        | some c => .ok c
        | none => .error .DB_NOTFOUND
    if ignorePayload then
      let found := match got with
        | .ok c => c.cur.1
        | .error _ => key
      match keycmp (s.getKey found) record.key with
      | none => .stuck
      | some .eq => .ret got
      | some _ => .ret (.error .DB_NOTFOUND)
    else .ret got

/-- The result for an error of the first `get` or write. -/
def DbError.code : DbError → ErrorCode
  | .DB_NOTFOUND => .kErrorNotFound
  | .other => .kErrorGenericFailure

/-- How the part between opening the cursor and the commit ends: its outcome, the pairs of the
    database, and whether the first write was done. -/
structure Body where
  outcome : Outcome ErrorCode
  pairs : List Pair
  wrote : Bool

/-- Opening the cursor, the first `get`, the first write and the duplicates. -/
def modifyBody (B : BerkeleyDB) (F : Faults) (s : IndexStructure) (cmp : Bytes → Bytes → Ordering)
    (w : CursorWrite) (loopError : ErrorCode) (record : Record) (flags : UInt8)
    (pairs : List Pair) : Body :=
  let ignorePayload := hasFlag flags kIgnorePayload
  match F.thrown .cursor with
  | some e => ⟨.throws e, pairs, false⟩
  | none =>
    match firstGet B F s cmp record ignorePayload pairs with
    | .throws e => ⟨.throws e, pairs, false⟩
    | .stuck => ⟨.stuck, pairs, false⟩
    | .ret (.error err) => ⟨.ret err.code, pairs, false⟩
    | .ret (.ok c) =>
      match F (.write 0) with
      | some (.throws e) => ⟨.throws e, pairs, false⟩
      | some (.returns err) => ⟨.ret err.code, pairs, false⟩
      | none =>
        if hasFlag flags kMatchDuplicates then
          let cmpkey := s.getKey (w.apply c).cur.1
          let ended :=
            if ignorePayload then
              dupLoop F cmp .DB_NEXT (keycmp cmpkey record.key) w 1 (w.apply c)
            else dupLoop F cmp .DB_NEXT_DUP (some .eq) w 1 (w.apply c)
          match ended with
          | (.throws e, d) => ⟨.throws e, d.contents, true⟩
          | (.stuck, d) => ⟨.stuck, d.contents, true⟩
          | (.ret err, d) =>
            ⟨.ret (if err = some .DB_NOTFOUND then .kOk else loopError), d.contents, true⟩
        else ⟨.ret .kOk, (w.apply c).contents, true⟩

end Contest
