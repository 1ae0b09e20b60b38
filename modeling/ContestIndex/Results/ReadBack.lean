import ContestIndex.Results.Calls

/-! @src example/Index.cc | name:What is inserted and what is read back | layer:results

    `Compatible` accepts a record by the number of its attributes. The encoder then copies as many bytes
    of each attribute as the column takes, whatever the attribute's type, and the decoder gives every
    attribute the type of its column. A NULL is stored as if it were a bound of a range query.

        (kInt 5) into a kShort column    ──encode──▶ 5, 0, 0, 0             ──decode──▶ (kShort 5)
        NULL into a kShort column        ──encode──▶ bytes of INT32_MIN     ──decode──▶ (INT32_MIN) -/

namespace Contest
open Schemes

/-- The key of the stored pair decodes to set attributes with the types and the values of the record's,
    and the data is its payload. -/
def Record.ReadsBack (s : IndexStructure) (r : Record) (p : Pair) : Prop :=
  List.Forall₂ (fun passed stored => ∃ a b : Attribute, passed = some a ∧ stored = some b ∧
    b.type = a.type ∧ b.value = a.value) r.key (s.getKey p.1) ∧ p.2 = r.payload

/-- Attributes with the same types and values, one by one. -/
theorem forall₂_of_values : ∀ {as bs : List Attribute}, bs.map (·.type) = as.map (·.type) →
    values bs = values as →
      List.Forall₂ (fun passed stored => ∃ a b : Attribute, passed = some a ∧ stored = some b ∧
        b.type = a.type ∧ b.value = a.value) (Key.ofAttributes as) (Key.ofAttributes bs)
  | [], [], _, _ => .nil
  | [], _ :: _, h, _ => by simp at h
  | _ :: _, [], h, _ => by simp at h
  | a :: as, b :: bs, htypes, hvalues => by
    obtain ⟨htype, htypes⟩ := List.cons.inj htypes
    obtain ⟨hvalue, hvalues⟩ := List.cons.inj hvalues
    exact .cons ⟨a, b, rfl, rfl, htype, hvalue⟩ (forall₂_of_values htypes hvalues)

/-- Only a fully set key can be read back. -/
theorem fullySet_of_forall₂ : ∀ {key : Key} {bs : List Attribute},
    List.Forall₂ (fun passed stored => ∃ a b : Attribute, passed = some a ∧ stored = some b ∧
      b.type = a.type ∧ b.value = a.value) key (Key.ofAttributes bs) →
    key.FullySet (bs.map (·.type))
  | [], [], _ => ⟨[], rfl, rfl⟩
  | _ :: _, [], h => by simp [Key.ofAttributes] at h
  | [], _ :: _, h => by simp [Key.ofAttributes] at h
  | o :: key, b :: bs, h => by
    obtain ⟨⟨a, b', rfl, hb, htype, -⟩, hrest⟩ := List.forall₂_cons.mp h
    obtain rfl : b = b' := Option.some.inj hb
    obtain ⟨as, rfl, htypes⟩ := fullySet_of_forall₂ hrest
    exact ⟨a :: as, rfl, by simp only [List.map_cons, htype, htypes]⟩

theorem Record.ReadsBack.fullySet {s : IndexStructure} {r : Record} {p : Pair}
    (h : r.ReadsBack s p) : r.key.FullySet s.type := by
  have hset := fullySet_of_forall₂ h.1
  rwa [map_type_attributesOf] at hset

/-- CORRECT (`GetKey` after `GetBDBKey`): a fully set key is read back. -/
theorem readsBack_of_fullySet {s : IndexStructure} {r : Record} (hr : r.key.FullySet s.type) :
    r.ReadsBack s (s.getBDBKey r.key false, r.payload) := by
  obtain ⟨as, hkey, htypes⟩ := hr
  refine ⟨?_, rfl⟩
  rw [hkey]
  exact forall₂_of_values (by rw [map_type_attributesOf, htypes]) (s.keyValues_getBDBKey htypes false)

namespace World
variable {w : World} {h : IndexPtr} {o : Opened} {r : Record}

/-- `InsertRecord` refuses the record and leaves the content alone, or adds one pair from which the
    record is read back. -/
def InsertFaithful (B : BerkeleyDB) (w : World) (tx : Option TxnPtr) (h : IndexPtr) (o : Opened)
    (r : Record) : Prop :=
  let ended := w.insertRecord B noFaults tx (some h) (some r)
  (ended.1 = some .kErrorIncompatibleKey ∧ ended.2.env.pairs o.index.name = some o.pairs) ∨
    (ended.1 = some .kOk ∧ ∃ front p back, o.pairs = front ++ back ∧
      ended.2.env.pairs o.index.name = some (front ++ p :: back) ∧ r.ReadsBack o.s p)

/-- A record with the right number of attributes is stored, whatever they are. -/
theorem insertRecord_stores (B : BerkeleyDB) (ho : w.Open h o)
    (hlen : r.key.length = o.s.type.length) (tx : Option TxnPtr) :
    (w.insertRecord B noFaults tx (some h) (some r)).1 = some .kOk ∧
      ∃ front back, o.pairs = front ++ back ∧
        (w.insertRecord B noFaults tx (some h) (some r)).2.env.pairs o.index.name =
          some (front ++ (o.s.getBDBKey r.key false, r.payload) :: back) := by
  obtain ⟨front, back, hsplit, hput, -⟩ := B.put_adds (o.s.getBDBKey r.key false, r.payload) ho.sorted
  have hcall : w.insertRecord B noFaults tx (some h) (some r) =
      (some .kOk, w.after o (w.env.write tx o.index.name (front ++
        (o.s.getBDBKey r.key false, r.payload) :: back)) (joining o.s.transactions tx)) := by
    simp only [insertRecord, ho.guarded_iff, if_pos hlen, indexInsert_opened B _ ho.opened ho.writable,
      ho.cmp, hput]
    rfl
  rw [hcall]
  refine ⟨rfl, front, back, hsplit, ?_⟩
  cases tx <;> exact Function.update_self ..

/-- DIVERGES: `InsertRecord` refuses a record or stores what is read back if and only if all attributes
    are set and have the types of the columns. -/
theorem insert_faithful_iff (B : BerkeleyDB) (ho : w.Open h o)
    (hlen : r.key.length = o.s.attributeCount) (tx : Option TxnPtr) :
    InsertFaithful B w tx h o r ↔ r.key.FullySet o.s.type := by
  obtain ⟨hcode, front, back, hsplit, hcontent⟩ := insertRecord_stores B ho hlen tx
  constructor
  · rintro (⟨hrefused, -⟩ | ⟨-, _, p, _, -, -, hreads⟩)
    · rw [hcode] at hrefused
      contradiction
    · exact hreads.fullySet
  · intro hr
    exact Or.inr ⟨hcode, front, _, back, hsplit, hcontent, readsBack_of_fullySet hr⟩

/-- A NULL and a kInt attribute are accepted for a column of type kShort. -/
theorem insert_stores_other :
    let wide : Key := [some (Attribute.ofBytes .kInt (leBytes 8 5))]
    ¬InsertFaithful .plain (single [.kShort] []) none 1 (singleOpened [.kShort] []) ⟨[none], [7]⟩ ∧
      ¬InsertFaithful .plain (single [.kShort] []) none 1 (singleOpened [.kShort] []) ⟨wide, [7]⟩ := by
  intro wide
  have hnone : ∀ p, ¬Record.ReadsBack (singleOpened [.kShort] []).s ⟨[none], [7]⟩ p := by
    intro p hreads
    obtain ⟨as, hkey, -⟩ := hreads.fullySet
    cases as <;> simp [Key.ofAttributes] at hkey
  have hwide : ∀ p, ¬Record.ReadsBack (singleOpened [.kShort] []).s ⟨wide, [7]⟩ p := by
    intro p hreads
    have htyped := hreads.fullySet.typed
    have htype := (List.forall₂_cons.mp htyped).1 _ rfl
    contradiction
  constructor
  · rintro (⟨hcode, -⟩ | ⟨-, _, p, _, -, -, hreads⟩)
    · cases hcode
    · exact hnone p hreads
  · rintro (⟨hcode, -⟩ | ⟨-, _, p, _, -, -, hreads⟩)
    · cases hcode
    · exact hwide p hreads

/-- The record (2, "b") next to (1, "a"). -/
theorem insert_faithful_at :
    let word : Int → UInt8 → Key := fun v c =>
      shortKey v ++ [some (Attribute.ofBytes .kVarchar [c])]
    let stored : Pair := ((IndexStructure.new [.kShort, .kVarchar]).getBDBKey (word 1 97) false, [7])
    InsertFaithful .plain (single [.kShort, .kVarchar] [stored]) none 1
      (singleOpened [.kShort, .kVarchar] [stored]) ⟨word 2 98, [8]⟩ := by
  intro word stored
  have hset : (word 2 98).FullySet [.kShort, .kVarchar] :=
    ⟨[.ofBytes .kShort (leBytes 4 2), .ofBytes .kVarchar [98]], rfl, rfl⟩
  exact (insert_faithful_iff .plain (single_open (List.pairwise_singleton ..)) rfl none).mpr hset

end World

end Contest
