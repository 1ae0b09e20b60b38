import ContestIndex.Results.Calls
import Mathlib.Data.List.TakeWhile

/-! @src example/Index.cc | name:kMatchDuplicates | layer:results

    What `UpdateRecord` and `DeleteRecord` should touch with kMatchDuplicates are the pairs that the
    record selects. What they touch is what the cursor reaches from the first of these: with
    kIgnorePayload every pair up to the end of the tree, since the loop compares a key that it decoded
    before the loop, and without it all duplicates of the key, since the loop never looks at the
    payload. Each theorem says for which contents the two agree. -/

namespace Contest
open Schemes World

variable {w : World} {h : IndexPtr} {o : Opened} {r : Record}

/-- The pairs of the index after `UpdateRecord`. -/
theorem updateRecord_pairs (B : BerkeleyDB) (ho : w.Open h o) (tx : Option TxnPtr)
    (hr : r.key.FullySet o.s.type) (payload : Bytes) (flags : UInt8) :
    (w.updateRecord B noFaults tx (some h) (some r) (some payload) flags).2.env.pairs o.index.name =
      some ((CursorWrite.putCurrent payload).effect o.s o.pairs r flags).2 := by
  have hm : (Modification.update r payload flags).record.key.FullySet o.s.type := hr
  obtain ⟨env, txns, hcall, hstore⟩ := ho.modify B tx hm
  simp only [World.modify] at hcall
  rw [hcall]
  exact (congrFun hstore o.index.name).trans (Function.update_self ..)

/-- The pairs of the index after `DeleteRecord`. -/
theorem deleteRecord_pairs (B : BerkeleyDB) (ho : w.Open h o) (tx : Option TxnPtr)
    (hr : r.key.FullySet o.s.type) (flags : UInt8) :
    (w.deleteRecord B noFaults tx (some h) (some r) flags).2.env.pairs o.index.name =
      some (CursorWrite.del.effect o.s o.pairs r flags).2 := by
  have hm : (Modification.delete r flags).record.key.FullySet o.s.type := hr
  obtain ⟨env, txns, hcall, hstore⟩ := ho.modify B tx hm
  simp only [World.modify] at hcall
  rw [hcall]
  exact (congrFun hstore o.index.name).trans (Function.update_self ..)

/-! ### Which contents the loops handle -/

section Exact
variable {s : IndexStructure} {pairs : List Pair} {flags : UInt8}

/-- An update touches exactly the selected pairs if nothing is selected, or if the loop reaches
    selected pairs only. -/
theorem update_effect_iff (hr : r.key.FullySet s.type) (hs : SortedBy s.dbKeycmp pairs)
    (hdup : hasFlag flags kMatchDuplicates = true) (payload : Bytes) :
    ((CursorWrite.putCurrent payload).effect s pairs r flags).2 =
      pairs.map (fun q => if r.selects s flags q then (q.1, payload) else q) ↔
    ∀ c, Cursor.first (r.selects s flags) pairs = some c →
      ∀ q ∈ reached s.dbKeycmp (dupMove flags) c.cur.1 c.after,
        r.selects s flags q = true ∨ q.2 = payload := by
  rw [CursorWrite.effect]
  cases hc : Cursor.first (r.selects s flags) pairs with
  | none =>
    have hnone := Cursor.first_eq_none.mp hc
    have hmap : pairs.map (fun q => if r.selects s flags q then (q.1, payload) else q) = pairs :=
      (List.map_congr_left fun q hq => by rw [hnone q hq]; rfl).trans (List.map_id pairs)
    simp [hmap]
  | some c =>
    rw [update_exact_iff hr hs hdup hc payload]
    simp

theorem delete_effect_iff (hr : r.key.FullySet s.type) (hs : SortedBy s.dbKeycmp pairs)
    (hdup : hasFlag flags kMatchDuplicates = true) :
    (CursorWrite.del.effect s pairs r flags).2 = pairs.filter (fun q => !r.selects s flags q) ↔
    ∀ c, Cursor.first (r.selects s flags) pairs = some c →
      ∀ q ∈ reached s.dbKeycmp (dupMove flags) c.cur.1 c.after, r.selects s flags q = true := by
  rw [CursorWrite.effect]
  cases hc : Cursor.first (r.selects s flags) pairs with
  | none =>
    have hfilter : pairs.filter (fun q => !r.selects s flags q) = pairs :=
      List.filter_eq_self.mpr fun q hq => by rw [Cursor.first_eq_none.mp hc q hq]; rfl
    simp [hfilter]
  | some c =>
    rw [delete_exact_iff hr hs hdup hc]
    simp

theorem not_same_of_greater {q : Pair} (h : r.greaterKey s q = true) : r.sameKey s q = false := by
  rw [Record.greaterKey, beq_iff_eq] at h
  rw [Record.sameKey, h]; rfl

/-- With kIgnorePayload the loop reaches all pairs behind the key: the question is what is stored
    under greater keys. -/
theorem reached_ignoring_iff (hr : r.key.FullySet s.type) (hs : SortedBy s.dbKeycmp pairs)
    (hip : hasFlag flags kIgnorePayload = true) (P : Pair → Prop) :
    (∀ c, Cursor.first (r.selects s flags) pairs = some c →
      ∀ q ∈ reached s.dbKeycmp (dupMove flags) c.cur.1 c.after,
        r.selects s flags q = true ∨ P q) ↔
    (∀ q ∈ pairs, r.sameKey s q = false) ∨ ∀ q ∈ pairs, r.greaterKey s q = true → P q := by
  rw [selects_ignoring hip]
  have hreach : ∀ c : Cursor Pair, reached s.dbKeycmp (dupMove flags) c.cur.1 c.after = c.after := by
    intro c; simp [dupMove, hip, reached]
  simp only [hreach]
  constructor
  · intro hP
    cases hc : Cursor.first (r.sameKey s) pairs with
    | none => exact Or.inl (Cursor.first_eq_none.mp hc)
    | some c =>
      obtain ⟨-, hsplit, hcur, -⟩ := Cursor.first_eq_some hc
      refine Or.inr fun q hq hgt => ?_
      have hqs := not_same_of_greater hgt
      have hqa : q ∈ c.after := by
        rw [hsplit] at hq hs
        rcases List.mem_append.mp hq with hb | hq
        · -- nothing before the key is above it
          have hle := (List.pairwise_append.mp hs).2.2 q hb c.cur List.mem_cons_self
          rw [sameKey_eq hr, beq_iff_eq] at hcur
          rw [greaterKey_eq hr, beq_iff_eq, ← Std.TransCmp.congr_right hcur] at hgt
          rw [hgt] at hle
          contradiction
        · rcases List.mem_cons.mp hq with rfl | hq
          · rw [hcur] at hqs; contradiction
          · exact hq
      exact (hP c hc q hqa).resolve_left (by simp [hqs])
  · rintro hcond c hc q hq
    obtain ⟨-, hsplit, hcur, -⟩ := Cursor.first_eq_some hc
    have hmem : ∀ x, x ∈ c.cur :: c.after → x ∈ pairs := fun x hx => by
      rw [hsplit]; exact List.mem_append_right _ hx
    rcases hcond with hnone | hP
    · rw [hnone _ (hmem _ List.mem_cons_self)] at hcur; contradiction
    · exact (same_or_greater_behind hr hs hsplit hcur hq).imp_right
        (hP q (hmem _ (List.mem_cons_of_mem _ hq)))

/-- Without it the loop reaches the later duplicates of the key: the question is what payloads they
    have. -/
theorem reached_matching_iff (hr : r.key.FullySet s.type) (hs : SortedBy s.dbKeycmp pairs)
    (hip : hasFlag flags kIgnorePayload = false) (P : Pair → Prop) :
    (∀ c, Cursor.first (r.selects s flags) pairs = some c →
      ∀ q ∈ reached s.dbKeycmp (dupMove flags) c.cur.1 c.after,
        r.selects s flags q = true ∨ P q) ↔
    pairs.Pairwise fun a b => r.sameKey s a = true → a.2 = r.payload → r.sameKey s b = true →
      b.2 = r.payload ∨ P b := by
  have hsel : ∀ q, r.selects s flags q = true ↔ r.sameKey s q = true ∧ q.2 = r.payload := by
    intro q; simp [selects_matching hip]
  have hmove : dupMove flags = .DB_NEXT_DUP := by simp [dupMove, hip]
  rw [hmove]
  constructor
  · intro hP
    cases hc : Cursor.first (r.selects s flags) pairs with
    | none =>
      refine List.pairwise_of_forall_mem_list fun a ha b _ hsame hpay _ => ?_
      exact absurd ((hsel a).mpr ⟨hsame, hpay⟩) (by simp [Cursor.first_eq_none.mp hc a ha])
    | some c =>
      obtain ⟨-, hsplit, hcur, hbefore⟩ := Cursor.first_eq_some hc
      have hbehind : ∀ b ∈ c.after, r.sameKey s b = true → b.2 = r.payload ∨ P b := by
        intro b hb hsame
        have hmem : b ∈ reached s.dbKeycmp .DB_NEXT_DUP c.cur.1 c.after := by
          rw [← reached_append_beyond .DB_NEXT_DUP c.cur.1 c.after] at hb
          refine (List.mem_append.mp hb).resolve_right fun hbeyond => ?_
          have hne := not_sameKey_beyond hr hs hsplit (selects_sameKey hcur) _ b hbeyond
          rw [hsame] at hne; contradiction
        exact (hP c hc b hmem).imp_left fun h => ((hsel b).mp h).2
      rw [hsplit]
      refine List.pairwise_append.mpr ⟨?_, List.pairwise_cons.mpr ⟨?_, ?_⟩, ?_⟩
      · refine List.pairwise_of_forall_mem_list fun a ha b _ hsame hpay _ => ?_
        exact absurd ((hsel a).mpr ⟨hsame, hpay⟩) (by simp [hbefore a ha])
      · exact fun b hb _ _ => hbehind b hb
      · exact List.pairwise_of_forall_mem_list fun _ _ b hb _ _ => hbehind b hb
      · exact fun a ha b _ hsame hpay _ =>
          absurd ((hsel a).mpr ⟨hsame, hpay⟩) (by simp [hbefore a ha])
  · intro hcond c hc q hq
    obtain ⟨-, hsplit, hcur, -⟩ := Cursor.first_eq_some hc
    have hqa : q ∈ c.after := by
      rw [← reached_append_beyond .DB_NEXT_DUP c.cur.1 c.after]; exact List.mem_append_left _ hq
    have hsame : r.sameKey s q = true := by
      have hcq : s.dbKeycmp c.cur.1 q.1 = .eq := by simpa using List.mem_takeWhile_imp hq
      have hckey := selects_sameKey hcur
      rw [sameKey_eq hr, beq_iff_eq] at hckey ⊢
      rwa [← Std.TransCmp.congr_left hcq]
    rw [hsplit] at hcond
    have hrel := (List.pairwise_cons.mp (List.pairwise_append.mp hcond).2.1).1 q hqa
    obtain ⟨hcsame, hcpay⟩ := (hsel c.cur).mp hcur
    exact (hrel hcsame hcpay hsame).imp_left fun hpay => (hsel q).mpr ⟨hsame, hpay⟩

end Exact

/-! ### kMatchDuplicates and kIgnorePayload -/

theorem selects_both (s : IndexStructure) :
    r.selects s (kMatchDuplicates ||| kIgnorePayload) = r.sameKey s :=
  selects_ignoring rfl

/-- DIVERGES: with both flags `UpdateRecord` replaces the payloads of the records with the key, and no
    others, if and only if no record has the key or all records with greater keys have the new
    payload already; `DeleteRecord` removes the records with the key, and no others, if and only if
    no record has the key or no record has a greater one. -/
theorem match_key_exact_iff (B : BerkeleyDB) (ho : w.Open h o) (tx : Option TxnPtr)
    (hr : r.key.FullySet o.s.type) (payload : Bytes) :
    ((w.updateRecord B noFaults tx (some h) (some r) (some payload)
        (kMatchDuplicates ||| kIgnorePayload)).2.env.pairs o.index.name =
        some (o.pairs.map fun q => if r.sameKey o.s q then (q.1, payload) else q) ↔
      (∀ q ∈ o.pairs, r.sameKey o.s q = false) ∨
        ∀ q ∈ o.pairs, r.greaterKey o.s q = true → q.2 = payload) ∧
    ((w.deleteRecord B noFaults tx (some h) (some r)
        (kMatchDuplicates ||| kIgnorePayload)).2.env.pairs o.index.name =
        some (o.pairs.filter fun q => !r.sameKey o.s q) ↔
      (∀ q ∈ o.pairs, r.sameKey o.s q = false) ∨
        ∀ q ∈ o.pairs, r.greaterKey o.s q = false) := by
  have hdup : hasFlag (kMatchDuplicates ||| kIgnorePayload) kMatchDuplicates = true := rfl
  have hip : hasFlag (kMatchDuplicates ||| kIgnorePayload) kIgnorePayload = true := rfl
  rw [← selects_both o.s]
  constructor
  · rw [updateRecord_pairs B ho tx hr, Option.some.injEq, update_effect_iff hr ho.sorted hdup,
      reached_ignoring_iff hr ho.sorted hip, selects_both]
  · have hfalse := reached_ignoring_iff hr ho.sorted hip fun _ => False
    simp only [or_false, imp_false, Bool.not_eq_true] at hfalse
    rw [deleteRecord_pairs B ho tx hr, Option.some.injEq, delete_effect_iff hr ho.sorted hdup, hfalse,
      selects_both]

/-- With the keys 1 and 2 stored, both calls for key 1 also hit key 2. -/
theorem match_key_overruns :
    ¬(((single [.kShort] [shortPair 1 [7], shortPair 2 [8]]).updateRecord .plain noFaults none (some 1)
        (some ⟨shortKey 1, []⟩) (some [9]) (kMatchDuplicates ||| kIgnorePayload)).2.env.pairs "x" =
      some [shortPair 1 [9], shortPair 2 [8]]) ∧
    ¬(((single [.kShort] [shortPair 1 [7], shortPair 2 [8]]).deleteRecord .plain noFaults none (some 1)
        (some ⟨shortKey 1, []⟩) (kMatchDuplicates ||| kIgnorePayload)).2.env.pairs "x" =
      some [shortPair 2 [8]]) := by
  have ho : (single [.kShort] [shortPair 1 [7], shortPair 2 [8]]).Open 1
      (singleOpened [.kShort] [shortPair 1 [7], shortPair 2 [8]]) := single_open (by decide)
  have hr : (⟨shortKey 1, []⟩ : Record).key.FullySet [.kShort] := shortKey_fullySet 1
  constructor
  · rw [show "x" = (singleOpened [.kShort] [shortPair 1 [7], shortPair 2 [8]]).index.name from rfl,
      updateRecord_pairs .plain ho none hr]
    decide
  · rw [show "x" = (singleOpened [.kShort] [shortPair 1 [7], shortPair 2 [8]]).index.name from rfl,
      deleteRecord_pairs .plain ho none hr]
    decide

theorem match_key_exact_at :
    ((single [.kShort] [shortPair 1 [7], shortPair 2 [8]]).updateRecord .plain noFaults none (some 1)
        (some ⟨shortKey 1, []⟩) (some [8]) (kMatchDuplicates ||| kIgnorePayload)).2.env.pairs "x" =
      some [shortPair 1 [8], shortPair 2 [8]] := by
  have ho : (single [.kShort] [shortPair 1 [7], shortPair 2 [8]]).Open 1
      (singleOpened [.kShort] [shortPair 1 [7], shortPair 2 [8]]) := single_open (by decide)
  have hr : (⟨shortKey 1, []⟩ : Record).key.FullySet [.kShort] := shortKey_fullySet 1
  exact (match_key_exact_iff .plain ho none hr [8]).1.mpr (Or.inr (by decide))

/-! ### kMatchDuplicates alone -/

theorem selects_payload (s : IndexStructure) :
    r.selects s kMatchDuplicates = fun q => r.sameKey s q && q.2 == r.payload :=
  selects_matching rfl

/-- DIVERGES: with kMatchDuplicates alone `UpdateRecord` replaces the payloads of the records with the
    key and payload given, and no others, if and only if every later duplicate of the key has that
    payload or the new one; `DeleteRecord` removes these records, and no others, if and only if every
    later duplicate has that payload. -/
theorem match_payload_exact_iff (B : BerkeleyDB) (ho : w.Open h o) (tx : Option TxnPtr)
    (hr : r.key.FullySet o.s.type) (payload : Bytes) :
    ((w.updateRecord B noFaults tx (some h) (some r) (some payload)
        kMatchDuplicates).2.env.pairs o.index.name =
        some (o.pairs.map fun q =>
          if r.sameKey o.s q && q.2 == r.payload then (q.1, payload) else q) ↔
      o.pairs.Pairwise fun a b => r.sameKey o.s a = true → a.2 = r.payload →
        r.sameKey o.s b = true → b.2 = r.payload ∨ b.2 = payload) ∧
    ((w.deleteRecord B noFaults tx (some h) (some r) kMatchDuplicates).2.env.pairs o.index.name =
        some (o.pairs.filter fun q => !(r.sameKey o.s q && q.2 == r.payload)) ↔
      o.pairs.Pairwise fun a b => r.sameKey o.s a = true → a.2 = r.payload →
        r.sameKey o.s b = true → b.2 = r.payload) := by
  have hdup : hasFlag kMatchDuplicates kMatchDuplicates = true := rfl
  have hip : hasFlag kMatchDuplicates kIgnorePayload = false := rfl
  have hupdate := @update_effect_iff r o.s o.pairs kMatchDuplicates hr ho.sorted hdup payload
  have hdelete := @delete_effect_iff r o.s o.pairs kMatchDuplicates hr ho.sorted hdup
  have hfalse := reached_matching_iff hr ho.sorted hip fun _ => False
  simp only [or_false] at hfalse
  simp only [selects_payload o.s] at hupdate hdelete hfalse
  constructor
  · rw [updateRecord_pairs B ho tx hr, Option.some.injEq, hupdate]
    have hreach := reached_matching_iff hr ho.sorted hip fun q => q.2 = payload
    simpa only [selects_payload o.s] using hreach
  · rw [deleteRecord_pairs B ho tx hr, Option.some.injEq, hdelete, hfalse]

/-- With the payloads 7, 8, 7 stored under one key, both calls for payload 7 also hit payload 8. -/
theorem match_payload_overruns :
    ¬(((single [.kShort] [shortPair 1 [7], shortPair 1 [8], shortPair 1 [7]]).updateRecord .plain
        noFaults none (some 1) (some ⟨shortKey 1, [7]⟩) (some [9]) kMatchDuplicates).2.env.pairs "x" =
      some [shortPair 1 [9], shortPair 1 [8], shortPair 1 [9]]) ∧
    ¬(((single [.kShort] [shortPair 1 [7], shortPair 1 [8], shortPair 1 [7]]).deleteRecord .plain
        noFaults none (some 1) (some ⟨shortKey 1, [7]⟩) kMatchDuplicates).2.env.pairs "x" =
      some [shortPair 1 [8]]) := by
  have ho : (single [.kShort] [shortPair 1 [7], shortPair 1 [8], shortPair 1 [7]]).Open 1
      (singleOpened [.kShort] [shortPair 1 [7], shortPair 1 [8], shortPair 1 [7]]) :=
    single_open (by decide)
  have hr : (⟨shortKey 1, [7]⟩ : Record).key.FullySet [.kShort] := shortKey_fullySet 1
  have hupdate := updateRecord_pairs .plain ho none hr [9] kMatchDuplicates
  have hdelete := deleteRecord_pairs .plain ho none hr kMatchDuplicates
  constructor
  · rw [show "x" = (singleOpened [.kShort] _).index.name from rfl, hupdate]; decide
  · rw [show "x" = (singleOpened [.kShort] _).index.name from rfl, hdelete]; decide

theorem match_payload_exact_at :
    ((single [.kShort] [shortPair 1 [8], shortPair 1 [7], shortPair 1 [7]]).deleteRecord .plain
        noFaults none (some 1) (some ⟨shortKey 1, [7]⟩) kMatchDuplicates).2.env.pairs "x" =
      some [shortPair 1 [8]] := by
  have ho : (single [.kShort] [shortPair 1 [8], shortPair 1 [7], shortPair 1 [7]]).Open 1
      (singleOpened [.kShort] [shortPair 1 [8], shortPair 1 [7], shortPair 1 [7]]) :=
    single_open (by decide)
  have hr : (⟨shortKey 1, [7]⟩ : Record).key.FullySet [.kShort] := shortKey_fullySet 1
  exact (match_payload_exact_iff .plain ho none hr []).2.mpr (by decide)

end Contest
