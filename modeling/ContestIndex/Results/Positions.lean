import ContestIndex.Results.MatchDuplicates
import Mathlib.Data.List.Range

/-! @src example/Index.cc | name:Update and Delete select the same pairs | layer:results

    The body of `Index::Update` and `Index::Delete` once more, with a record of where its cursor stands
    when it writes: the positions of the pairs in the list as it was before the call. A `del` takes pairs
    out of the list that the loop walks, a `put` does not.

        position   0 … b-1    b     b+1 … b+n         b+n+1 …
        pairs      before     hit   reached           beyond
        writes                b ▸   b+1 ▸ … ▸ b+n     (with kMatchDuplicates) -/

namespace Contest
open Schemes

/-- Where the loop over the duplicates writes when no call fails, from a cursor at position `i`. -/
def loopWrites (cmp : Bytes → Bytes → Ordering) (move : Move) (check : Option Ordering)
    (w : CursorWrite) (i : Nat) (c : Cursor Pair) : List Nat :=
  match _h : moveCursor cmp move c with
  | none => []
  | some d =>
    match check with
    | some .eq => (i + 1) :: loopWrites cmp move check w (i + 1) (w.apply d)
    | _ => []
termination_by c.after.length
decreasing_by simpa using moveCursor_after_lt _h

/-- Where the body writes when no call fails. -/
def bodyWrites (B : BerkeleyDB) (s : IndexStructure) (cmp : Bytes → Bytes → Ordering)
    (w : CursorWrite) (record : Record) (flags : UInt8) (pairs : List Pair) : List Nat :=
  let ignorePayload := hasFlag flags kIgnorePayload
  match firstGet B noFaults s cmp record ignorePayload pairs with
  | .ret (.ok c) =>
    let i := c.before.length
    if hasFlag flags kMatchDuplicates then
      let cmpkey := s.getKey (w.apply c).cur.1
      if ignorePayload then
        i :: loopWrites cmp .DB_NEXT (keycmp cmpkey record.key) w i (w.apply c)
      else i :: loopWrites cmp .DB_NEXT_DUP (some .eq) w i (w.apply c)
    else [i]
  | _ => []

/-- The pairs after a write at each of the positions. -/
def CursorWrite.at (w : CursorWrite) (positions : List Nat) (pairs : List Pair) : List Pair :=
  pairs.zipIdx.filterMap fun p => if p.2 ∈ positions then w.pair p.1 else some p.1

/-! ### A write at consecutive positions -/

section At
variable (w : CursorWrite)

/-- Positions that the list does not have. -/
theorem filterMap_zipIdx_out {positions : List Nat} : ∀ (pairs : List Pair) (n : Nat),
    (∀ i ∈ positions, i < n ∨ n + pairs.length ≤ i) →
      ((pairs.zipIdx n).filterMap fun p => if p.2 ∈ positions then w.pair p.1 else some p.1) = pairs
  | [], _, _ => rfl
  | p :: pairs, n, h => by
    have hn : n ∉ positions := fun hmem => by
      have hout := h n hmem
      rw [List.length_cons] at hout
      omega
    have hrest : ∀ i ∈ positions, i < n + 1 ∨ n + 1 + pairs.length ≤ i := fun i hi => by
      have hout := h i hi
      rw [List.length_cons] at hout
      omega
    rw [List.zipIdx_cons, List.filterMap_cons, if_neg hn, filterMap_zipIdx_out pairs (n + 1) hrest]

/-- Positions that are all positions of the list. -/
theorem filterMap_zipIdx_in {positions : List Nat} : ∀ (pairs : List Pair) (n : Nat),
    (∀ i, n ≤ i → i < n + pairs.length → i ∈ positions) →
      ((pairs.zipIdx n).filterMap fun p => if p.2 ∈ positions then w.pair p.1 else some p.1) =
        pairs.filterMap w.pair
  | [], _, _ => rfl
  | p :: pairs, n, h => by
    have hn : n ∈ positions := h n le_rfl (by rw [List.length_cons]; omega)
    have ih := filterMap_zipIdx_in pairs (n + 1) fun i hle hlt =>
      h i (by omega) (by rw [List.length_cons]; omega)
    rw [List.zipIdx_cons, List.filterMap_cons, List.filterMap_cons, if_pos hn, ih]

theorem CursorWrite.at_range (front hit back : List Pair) :
    w.at (List.range' front.length hit.length) (front ++ hit ++ back) =
      front ++ hit.filterMap w.pair ++ back := by
  rw [CursorWrite.at, List.zipIdx_append, List.zipIdx_append, List.filterMap_append,
    List.filterMap_append]
  congr 1
  · congr 1
    · refine filterMap_zipIdx_out w front 0 fun i hi => ?_
      rw [List.mem_range'_1] at hi
      omega
    · refine filterMap_zipIdx_in w hit _ fun i hle hlt => ?_
      rw [List.mem_range'_1]
      omega
  · refine filterMap_zipIdx_out w back _ fun i hi => ?_
    rw [List.mem_range'_1] at hi
    rw [List.length_append]
    omega

end At

/-! ### Where the body writes -/

section
variable {s : IndexStructure} {r : Record} {pairs : List Pair} {flags : UInt8}

/-- The loop writes every pair that it reaches, one position after the other. -/
theorem loopWrites_eq {cmp : Bytes → Bytes → Ordering} [Std.TransCmp cmp] (move : Move) (w : CursorWrite)
    (i : Nat) (c : Cursor Pair) : loopWrites cmp move (some .eq) w i c =
      List.range' (i + 1) (reached cmp move c.cur.1 c.after).length := by
  fun_induction loopWrites cmp move (some .eq) w i c with
  | case1 i c hmove => rw [moveCursor_eq_none hmove, List.length_nil, List.range'_zero]
  | case2 i c d hmove _ ih =>
    obtain ⟨-, -, hreached, -⟩ := moveCursor_eq_some hmove
    rw [CursorWrite.apply_key, CursorWrite.apply_after] at ih
    rw [hreached, List.length_cons, List.range'_succ, ih]
  | case3 i c d hmove hcheck => exact absurd rfl hcheck

theorem bodyWrites_eq (B : BerkeleyDB) (hr : r.key.FullySet s.type) (hs : SortedBy s.dbKeycmp pairs)
    (w : CursorWrite) : bodyWrites B s s.dbKeycmp w r flags pairs =
      match Cursor.first (r.selects s flags) pairs with
      | none => []
      | some c =>
        List.range' c.before.length (if hasFlag flags kMatchDuplicates then
          (reached s.dbKeycmp (dupMove flags) c.cur.1 c.after).length + 1 else 1) := by
  have hsearch : search s r flags pairs = some (Cursor.first (r.selects s flags) pairs) :=
    search_fullySet hr hs flags
  rw [bodyWrites, firstGet_eq B noFaults hs, noFaults]
  simp only [hsearch]
  cases hc : Cursor.first (r.selects s flags) pairs with
  | none => rfl
  | some c =>
    rw [hc] at hsearch
    obtain ⟨-, -, hkey⟩ := search_found hsearch
    have hloop : (if hasFlag flags kIgnorePayload then
        c.before.length :: loopWrites s.dbKeycmp .DB_NEXT (keycmp (s.getKey c.cur.1) r.key) w
          c.before.length (w.apply c)
        else c.before.length ::
          loopWrites s.dbKeycmp .DB_NEXT_DUP (some .eq) w c.before.length (w.apply c)) =
        c.before.length ::
          loopWrites s.dbKeycmp (dupMove flags) (some .eq) w c.before.length (w.apply c) := by
      by_cases hip : hasFlag flags kIgnorePayload = true
      · rw [if_pos hip, hkey hip, dupMove, if_pos hip]
      · rw [if_neg hip, dupMove, if_neg hip]
    simp only [CursorWrite.apply_key, hloop]
    rw [loopWrites_eq, CursorWrite.apply_key, CursorWrite.apply_after]
    split
    · rw [List.range'_succ]
    · rfl

/-- What is answered does not depend on the write. -/
theorem effect_answer (w w' : CursorWrite) :
    (w.effect s pairs r flags).1 = (w'.effect s pairs r flags).1 := by
  rw [CursorWrite.effect, CursorWrite.effect]
  cases Cursor.first (r.selects s flags) pairs <;> rfl

/-- The effect of the body is a write at each of its positions. -/
theorem effect_eq_at (B : BerkeleyDB) (hr : r.key.FullySet s.type) (hs : SortedBy s.dbKeycmp pairs)
    (w : CursorWrite) : (w.effect s pairs r flags).2 =
      w.at (bodyWrites B s s.dbKeycmp w r flags pairs) pairs := by
  rw [bodyWrites_eq B hr hs, CursorWrite.effect]
  cases hc : Cursor.first (r.selects s flags) pairs with
  | none => exact (filterMap_zipIdx_out w pairs 0 (by simp)).symm
  | some c =>
    have hsplit := split_of_first hc
    generalize hreached : reached s.dbKeycmp (dupMove flags) c.cur.1 c.after = hit at hsplit
    generalize hbeyond : beyond s.dbKeycmp (dupMove flags) c.cur.1 c.after = back at hsplit
    dsimp only
    rw [afterHit, hreached, hbeyond]
    split
    · have hat := w.at_range c.before (c.cur :: hit) back
      rw [List.length_cons, List.append_assoc, List.cons_append, ← hsplit] at hat
      rw [hat]
      cases w <;> simp [CursorWrite.pair]
    · have hat := w.at_range c.before [c.cur] (hit ++ back)
      rw [List.length_singleton, List.append_assoc, List.singleton_append, ← hsplit] at hat
      rw [hat, ← hreached, ← hbeyond, reached_append_beyond]
      cases w <;> simp [CursorWrite.pair]

end

/-! ### The two calls -/

namespace World
variable {w : World} {h : IndexPtr} {o : Opened} {r : Record}

/-- CORRECT: `UpdateRecord` overwrites the pairs at the positions at which `DeleteRecord` removes them,
    and both give the same answer. -/
theorem update_delete_select_same (B : BerkeleyDB) (ho : w.Open h o) (tx : Option TxnPtr)
    (hr : r.key.FullySet o.s.type) (payload : Bytes) (flags : UInt8) :
    let updated := w.updateRecord B noFaults tx (some h) (some r) (some payload) flags
    let deleted := w.deleteRecord B noFaults tx (some h) (some r) flags
    let overwrites := bodyWrites B o.s o.cmp (.putCurrent payload) r flags o.pairs
    let removes := bodyWrites B o.s o.cmp .del r flags o.pairs
    overwrites = removes ∧ updated.1 = deleted.1 ∧
      updated.2.env.pairs o.index.name =
        some ((CursorWrite.putCurrent payload).at overwrites o.pairs) ∧
      deleted.2.env.pairs o.index.name = some (CursorWrite.del.at removes o.pairs) := by
  dsimp only
  obtain ⟨env, txns, hupdate, -⟩ := ho.modify (m := .update r payload flags) B tx hr
  obtain ⟨env', txns', hdelete, -⟩ := ho.modify (m := .delete r flags) B tx hr
  simp only [World.modify] at hupdate hdelete
  rw [ho.cmp]
  refine ⟨?_, ?_, ?_, ?_⟩
  · rw [bodyWrites_eq B hr ho.sorted, bodyWrites_eq B hr ho.sorted]
  · rw [hupdate, hdelete]
    exact congrArg some (effect_answer ..)
  · rw [updateRecord_pairs B ho tx hr, effect_eq_at B hr ho.sorted]
  · rw [deleteRecord_pairs B ho tx hr, effect_eq_at B hr ho.sorted]

/-- Two records under key 1 and one under key 2. -/
def threePairs : List Pair := [shortPair 1 [7], shortPair 1 [8], shortPair 2 [7]]

/-- With kMatchDuplicates the calls select both duplicates of key 1, the second with another payload. -/
theorem update_delete_select_same_at :
    let updated := (single [.kShort] threePairs).updateRecord .plain noFaults none (some 1)
      (some ⟨shortKey 1, [7]⟩) (some [9]) kMatchDuplicates
    let deleted := (single [.kShort] threePairs).deleteRecord .plain noFaults none (some 1)
      (some ⟨shortKey 1, [7]⟩) kMatchDuplicates
    updated.1 = deleted.1 ∧
      updated.2.env.pairs "x" = some [shortPair 1 [9], shortPair 1 [9], shortPair 2 [7]] ∧
      deleted.2.env.pairs "x" = some [shortPair 2 [7]] := by
  have ho : (single [.kShort] threePairs).Open 1 (singleOpened [.kShort] threePairs) :=
    single_open (by decide)
  have hr : (⟨shortKey 1, [7]⟩ : Record).key.FullySet [.kShort] := shortKey_fullySet 1
  obtain ⟨hsame, hanswer, hupdated, hdeleted⟩ :=
    update_delete_select_same .plain ho none hr [9] kMatchDuplicates
  have hremoves : bodyWrites .plain (singleOpened [.kShort] threePairs).s
      (singleOpened [.kShort] threePairs).cmp .del ⟨shortKey 1, [7]⟩ kMatchDuplicates threePairs =
        [0, 1] :=
    (bodyWrites_eq .plain hr ho.sorted .del).trans (by decide)
  have hwritten := congrArg (fun l => some ((CursorWrite.putCurrent [9]).at l threePairs))
    (hsame.trans hremoves)
  have hremoved := congrArg (fun l => some (CursorWrite.del.at l threePairs)) hremoves
  exact ⟨hanswer, (hupdated.trans hwritten).trans (by decide),
    (hdeleted.trans hremoved).trans (by decide)⟩

end World
end Contest
