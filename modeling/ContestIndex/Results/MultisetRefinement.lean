import ContestIndex.Schemes.Run
import ContestIndex.Results.Calls
import Mathlib.Data.Multiset.Basic

/-! @src example/Index.cc | name:An index as a multiset | layer:results

    What an index is for: a multiset of (key, payload) pairs, where a key is the list of its attribute
    values. An insert adds one pair; an update or a delete picks one matching pair and replaces or
    removes it. Every run of calls without kMatchDuplicates is a run of this specification. The
    invariant that carries the proof is that the pairs stay in the order of the compare function.

        pairs    ──InsertRecord / UpdateRecord / DeleteRecord──▶ pairs'
          │ content                                               │ content
        multiset ───────────────Reference───────────────────────▶ multiset' -/

namespace Contest
open Schemes World

/-- A key's attribute values and a payload. -/
abbrev AbstractRecord := List AttrValue × Bytes

/-- The attribute values of a fully set key. -/
def Key.values (key : Key) : List AttrValue := Contest.values (key.filterMap id)

@[simp] theorem Key.values_ofAttributes (as : List Attribute) :
    (Key.ofAttributes as).values = Contest.values as := by
  simp [Key.values, Key.ofAttributes, List.filterMap_map]

/-- Equal values are what `keycmp` calls equal. -/
theorem keycmp_eq_iff {types : List AttributeType} {a b : Key} (ha : a.FullySet types)
    (hb : b.FullySet types) : keycmp a b = some .eq ↔ a.values = b.values := by
  obtain ⟨as, rfl, hta⟩ := ha
  obtain ⟨bs, rfl, htb⟩ := hb
  rw [keycmp_ofAttributes (hta.trans htb.symm), Key.values_ofAttributes, Key.values_ofAttributes,
    Option.some.injEq, Std.LawfulEqCmp.compare_eq_iff_eq]

/-- The pair matches the record of an update or delete. -/
def Record.Matches (r : Record) (flags : UInt8) (x : AbstractRecord) : Prop :=
  x.1 = r.key.values ∧ (hasFlag flags kIgnorePayload = true ∨ x.2 = r.payload)

/-- The specification: what a modification may answer and turn the multiset into. -/
inductive Reference : Multiset AbstractRecord → Modification → ErrorCode →
    Multiset AbstractRecord → Prop
  | insert (M r) : Reference M (.insert r) .kOk ((r.key.values, r.payload) ::ₘ M)
  | update {M r payload flags x} : x ∈ M → r.Matches flags x →
      Reference M (.update r payload flags) .kOk ((x.1, payload) ::ₘ M.erase x)
  | updateNone {M r payload flags} : (∀ x ∈ M, ¬r.Matches flags x) →
      Reference M (.update r payload flags) .kErrorNotFound M
  | delete {M r flags x} : x ∈ M → r.Matches flags x →
      Reference M (.delete r flags) .kOk (M.erase x)
  | deleteNone {M r flags} : (∀ x ∈ M, ¬r.Matches flags x) →
      Reference M (.delete r flags) .kErrorNotFound M

/-- What a stored pair stands for. -/
def abstractRecord (s : IndexStructure) (p : Pair) : AbstractRecord := (s.keyValues p.1, p.2)

/-- The content of an index. -/
def content (s : IndexStructure) (pairs : List Pair) : Multiset AbstractRecord :=
  (pairs.map (abstractRecord s) : List AbstractRecord)

section Effect
variable {s : IndexStructure} {pairs : List Pair} {r : Record} {flags : UInt8}

theorem selects_iff_matches (hr : r.key.FullySet s.type) (p : Pair) :
    r.selects s flags p = true ↔ r.Matches flags (abstractRecord s p) := by
  have hkey : r.sameKey s p = true ↔ s.keyValues p.1 = r.key.values := by
    obtain ⟨as, hkey, htypes⟩ := hr
    rw [Record.sameKey, beq_iff_eq, hkey, s.keycmp_getKey_ofAttributes htypes, Option.some.injEq,
      Std.LawfulEqCmp.compare_eq_iff_eq, Key.values_ofAttributes]
  simp [Record.selects, Record.Matches, abstractRecord, hkey]

/-- One pair is one element, wherever it is. -/
theorem content_middle (front back : List Pair) (p : Pair) :
    content s (front ++ p :: back) = abstractRecord s p ::ₘ content s (front ++ back) := by
  simp only [content, List.map_append, List.map_cons, Multiset.cons_coe]
  exact Multiset.coe_eq_coe.mpr List.perm_middle

theorem content_erase (front back : List Pair) (p : Pair) :
    (content s (front ++ p :: back)).erase (abstractRecord s p) = content s (front ++ back) := by
  rw [content_middle, Multiset.erase_cons_head]

/-- Inserting adds one element. -/
theorem insert_reference (B : BerkeleyDB) (hr : r.key.FullySet s.type)
    (hs : SortedBy s.dbKeycmp pairs) :
    content s (B.put s.dbKeycmp pairs (s.getBDBKey r.key false, r.payload)) =
      (r.key.values, r.payload) ::ₘ content s pairs := by
  obtain ⟨front, back, hpairs, hput, -⟩ := B.put_adds (s.getBDBKey r.key false, r.payload) hs
  have habs : abstractRecord s (s.getBDBKey r.key false, r.payload) = (r.key.values, r.payload) := by
    obtain ⟨as, hkey, htypes⟩ := hr
    rw [abstractRecord, hkey, s.keyValues_getBDBKey htypes, Key.values_ofAttributes]
  rw [hput, hpairs, content_middle, habs]

/-- Without kMatchDuplicates nothing behind the pair that was found changes. -/
theorem effect_of_single (w : CursorWrite) (hdup : hasFlag flags kMatchDuplicates = false) :
    w.effect s pairs r flags =
      match Cursor.first (r.selects s flags) pairs with
      | none => (.kErrorNotFound, pairs)
      | some c => (.kOk, c.before ++ (w.pair c.cur).toList ++ c.after) := by
  rw [CursorWrite.effect]
  cases Cursor.first (r.selects s flags) pairs with
  | none => rfl
  | some c => simp [afterHit, hdup]

/-- What the first search says about the content. -/
theorem none_matches (hr : r.key.FullySet s.type)
    (hc : Cursor.first (r.selects s flags) pairs = none) :
    ∀ x ∈ content s pairs, ¬r.Matches flags x := by
  intro x hx hmatch
  obtain ⟨p, hp, rfl⟩ := List.mem_map.mp (Multiset.mem_coe.mp hx)
  have hsel := (selects_iff_matches hr p).mpr hmatch
  rw [Cursor.first_eq_none.mp hc p hp] at hsel
  contradiction

theorem found_matches (hr : r.key.FullySet s.type) {c : Cursor Pair}
    (hc : Cursor.first (r.selects s flags) pairs = some c) :
    abstractRecord s c.cur ∈ content s pairs ∧ r.Matches flags (abstractRecord s c.cur) := by
  obtain ⟨-, hsplit, hsel, -⟩ := Cursor.first_eq_some hc
  refine ⟨?_, (selects_iff_matches hr c.cur).mp hsel⟩
  rw [hsplit, content_middle]
  exact Multiset.mem_cons_self ..

end Effect

/-- No kMatchDuplicates among the flags. -/
def Modification.Single : Modification → Prop
  | insert _ => True
  | update _ _ flags => hasFlag flags kMatchDuplicates = false
  | delete _ flags => hasFlag flags kMatchDuplicates = false

/-- STEP: the effect of a modification is one the specification allows. -/
theorem effect_reference (B : BerkeleyDB) {s : IndexStructure} {pairs : List Pair}
    (hs : SortedBy s.dbKeycmp pairs) {m : Modification} (hm : m.record.key.FullySet s.type)
    (hsingle : m.Single) :
    Reference (content s pairs) m (m.effect B s pairs).1 (content s (m.effect B s pairs).2) := by
  cases m with
  | insert r =>
    have hr : r.key.FullySet s.type := hm
    rw [Modification.effect, insert_reference B hr hs]
    exact .insert _ r
  | update r payload flags =>
    have hr : r.key.FullySet s.type := hm
    simp only [Modification.effect, effect_of_single _ hsingle]
    cases hc : Cursor.first (r.selects s flags) pairs with
    | none => exact .updateNone (none_matches hr hc)
    | some c =>
      obtain ⟨hmem, hmatch⟩ := found_matches hr hc
      have hrest : (content s pairs).erase (abstractRecord s c.cur) =
          content s (c.before ++ c.after) := by
        rw [(Cursor.first_eq_some hc).2.1, content_erase]
      simp only [CursorWrite.pair, Option.toList_some, List.append_assoc, List.singleton_append]
      rw [content_middle, ← hrest]
      exact .update hmem hmatch
  | delete r flags =>
    have hr : r.key.FullySet s.type := hm
    simp only [Modification.effect, effect_of_single _ hsingle]
    cases hc : Cursor.first (r.selects s flags) pairs with
    | none => exact .deleteNone (none_matches hr hc)
    | some c =>
      obtain ⟨hmem, hmatch⟩ := found_matches hr hc
      have hrest : (content s pairs).erase (abstractRecord s c.cur) =
          content s (c.before ++ c.after) := by
        rw [(Cursor.first_eq_some hc).2.1, content_erase]
      simp only [CursorWrite.pair, Option.toList_none, List.append_nil]
      rw [← hrest]
      exact .delete hmem hmatch

/-! ### Runs -/

/-- The content of the index behind a handle. -/
def World.contentOf (w : World) (h : IndexPtr) : Multiset AbstractRecord :=
  match w.opened h with
  | some o => content o.s o.pairs
  | none => 0

/-- Calls of the API with a transaction or NULL, on one handle and when no Berkeley DB call fails. -/
def modifyStep (B : BerkeleyDB) (h : IndexPtr) (w : World) (c : Option TxnPtr × Modification) :
    Answer × World :=
  w.modify B noFaults c.1 h c.2

/-- The specification of one call: it comes back, with a code and a content that are allowed. -/
def Specified (M : Multiset AbstractRecord) (c : Option TxnPtr × Modification) (answer : Answer)
    (M' : Multiset AbstractRecord) : Prop :=
  ∃ code, answer = some code ∧ Reference M c.2 code M'

/-- The calls of a run: fully set keys of the column types, no kMatchDuplicates. -/
def Admitted (types : List AttributeType) (c : Option TxnPtr × Modification) : Prop :=
  c.2.record.key.FullySet types ∧ c.2.Single

/-- The invariant of a run: the handle stays open on an index of these column types. -/
def OpenOn (types : List AttributeType) (h : IndexPtr) (w : World) : Prop :=
  ∃ o, w.Open h o ∧ o.s.type = types

/-- STEP: one call keeps the invariant and does what is specified. -/
theorem modifyStep_refines (B : BerkeleyDB) {types : List AttributeType} {h : IndexPtr} (w : World)
    (c : Option TxnPtr × Modification) (hw : OpenOn types h w) (hc : Admitted types c) :
    OpenOn types h (modifyStep B h w c).2 ∧
      Specified (w.contentOf h) c (modifyStep B h w c).1 ((modifyStep B h w c).2.contentOf h) := by
  obtain ⟨o, ho, rfl⟩ := hw
  obtain ⟨env, txns, hcall, hstore⟩ := ho.modify B c.1 hc.1
  have hpairs : env.pairs o.index.name = some (c.2.effect B o.s o.pairs).2 :=
    (congrFun hstore o.index.name).trans (Function.update_self ..)
  have ho' := ho.after txns hpairs (c.2.effect_sorted B ho.sorted)
  rw [modifyStep, hcall]
  refine ⟨⟨_, ho', rfl⟩, _, rfl, ?_⟩
  rw [contentOf, contentOf, ho.opened, ho'.opened]
  exact effect_reference B ho.sorted hc.1 hc.2

/-- CORRECT (refinement): every run of `InsertRecord`, `UpdateRecord` and `DeleteRecord` calls on an
    open handle is a run of the specification, with the same answers. -/
theorem modifications_refine_multiset (B : BerkeleyDB) {w : World} {h : IndexPtr} {o : Opened}
    (ho : w.Open h o) {calls : List (Option TxnPtr × Modification)}
    (hcalls : ∀ c ∈ calls, Admitted o.s.type c) :
    Allows Specified (w.contentOf h) calls (run (modifyStep B h) w calls).1
      ((run (modifyStep B h) w calls).2.contentOf h) := by
  have hw : OpenOn o.s.type h w := ⟨o, ho, rfl⟩
  exact run_refines (contentOf · h) (modifyStep_refines B) hw (Admissible.of_forall hcalls)

/-- An insert, a delete that finds the record and one that does not. -/
def insertDeleteDelete : List (Option TxnPtr × Modification) :=
  [(none, .insert ⟨shortKey 1, [7]⟩), (none, .delete ⟨shortKey 1, [7]⟩ 0),
    (none, .delete ⟨shortKey 1, []⟩ kIgnorePayload)]

theorem modifications_refine_multiset_at :
    Allows Specified 0 insertDeleteDelete [some .kOk, some .kOk, some .kErrorNotFound] 0 := by
  have ho : (single [.kShort] []).Open 1 (singleOpened [.kShort] []) := single_open (by decide)
  have hcalls : ∀ c ∈ insertDeleteDelete, Admitted [.kShort] c := by
    simp [insertDeleteDelete, Admitted, Modification.record, Modification.Single, shortKey_fullySet]
    decide
  have hrun : (run (modifyStep .plain 1) (single [.kShort] []) insertDeleteDelete).1 =
      [some .kOk, some .kOk, some .kErrorNotFound] := by decide
  have hend : (run (modifyStep .plain 1) (single [.kShort] []) insertDeleteDelete).2.contentOf 1 =
      0 := by rfl
  have h := modifications_refine_multiset .plain ho hcalls
  rw [hrun, hend] at h
  exact h

end Contest
