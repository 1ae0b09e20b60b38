import ContestIndex.Model.KeyBuffer
import ContestIndex.Results.ReadBack

/-! @src example/Index.cc | name:Encoding and decoding a key | layer:results

    The constructor, the encoder and the decoder each add up the sizes of the columns. They agree: the
    encoder fills the `size_` bytes of the buffer without a gap, and each attribute is decoded from the
    bytes that were written for it.

        key ──GetBDBKey──▶ size_ bytes ──GetKey──▶ key with the same types and values
        size_ bytes ──GetKey──▶ key ──GetBDBKey──▶ the same bytes -/

namespace Contest
open Schemes

/-! ### What the encoder writes -/

/-- The writes for one attribute fill its column, whatever the attribute is. -/
theorem fieldWrites_consecutive (max : Bool) (offset : Nat) (t : AttributeType)
    (o : Option Attribute) :
    Consecutive offset (fieldWrites max offset t o) (offset + t.size) := by
  rcases o with _ | a
  · cases t <;> simp [fieldWrites, Consecutive, AttributeType.size, Nat.add_assoc]
  · have hlen : (a.mem.take t.size).length = t.size := length_bdbField max t (some a)
    simp [fieldWrites, Consecutive, a.mem_length, t.size_le]

/-- RUN (the loop of `GetBDBKey`). -/
theorem bdbWrites_consecutive (max : Bool) : ∀ {types : List AttributeType} {key : Key} (offset : Nat),
    key.length = types.length →
      Consecutive offset (bdbWrites max offset types key) (offset + (types.map (·.size)).sum)
  | [], [], offset, _ => by simp [bdbWrites, Consecutive]
  | t :: ts, o :: key, offset, hlen => by
    have hrest := bdbWrites_consecutive max (offset + t.size) (Nat.succ.inj hlen)
    rw [Nat.add_assoc] at hrest
    exact (fieldWrites_consecutive max offset t o).append hrest

/-- Decoded bytes are encoded as they were. -/
theorem bdbFields_attributesOf (max : Bool) : ∀ (types : List AttributeType) {data : Bytes},
    data.length = (types.map (·.size)).sum →
      bdbFields max types (Key.ofAttributes (attributesOf types data)) = data
  | [], data, hlen => by
    rw [List.length_eq_zero_iff.mp hlen]
    rfl
  | t :: ts, data, hlen => by
    rw [List.map_cons, List.sum_cons] at hlen
    have hrest := @bdbFields_attributesOf max ts (data.drop t.size) (by rw [List.length_drop]; omega)
    have hfirst : (Attribute.ofBytes t (data.take t.size)).mem.take t.size = data.take t.size := by
      rw [Attribute.ofBytes_mem_take (by rw [List.length_take]; omega) t.size_le, List.take_take,
        Nat.min_self]
    rw [Key.ofAttributes] at hrest ⊢
    rw [attributesOf, List.map_cons, bdbFields, bdbField, hfirst, hrest, List.take_append_drop]

/-- The encoder and the decoder of an index are inverse to each other, and the encoder fills its buffer
    exactly. -/
structure EncodingExact (s : IndexStructure) : Prop where
  decodes : ∀ k : Key, k.FullySet s.type → ∀ max,
    List.Forall₂ (fun passed decoded => ∃ a b : Attribute, passed = some a ∧ decoded = some b ∧
      b.type = a.type ∧ b.value = a.value) k (s.getKey (s.getBDBKey k max))
  encodes : ∀ b : Bytes, b.length = s.size → ∀ max, s.getBDBKey (s.getKey b) max = b
  consecutive : ∀ k : Key, k.length = s.attributeCount → ∀ max,
    Consecutive 0 (s.bdbKeyWrites k max) s.size
  touchedOnce : ∀ k : Key, k.length = s.attributeCount → ∀ max i,
    (s.bdbKeyWrites k max).countP (fun w => Touches i w) = if i < s.size then 1 else 0
  fills : ∀ k : Key, k.length = s.attributeCount → ∀ max,
    (s.bdbKeyWrites k max).foldl store (freshBuffer s.size) = (s.getBDBKey k max).map some

/-- CORRECT (`GetBDBKey`, `GetKey`): for every list of column types. -/
theorem encoding_exact (s : IndexStructure) : EncodingExact s where
  decodes := by
    rintro k ⟨as, rfl, htypes⟩ max
    exact forall₂_of_values (by rw [map_type_attributesOf, htypes])
      (s.keyValues_getBDBKey htypes max)
  encodes := fun b hlen max => bdbFields_attributesOf max s.type hlen
  consecutive := by
    intro k hlen max
    have hall := bdbWrites_consecutive max 0 hlen
    rwa [Nat.zero_add] at hall
  touchedOnce := by
    intro k hlen max i
    have hall := (bdbWrites_consecutive max 0 hlen).countP_touches i
    simp only [Nat.zero_le, true_and, Nat.zero_add] at hall
    exact hall
  fills := by
    intro k hlen max
    have hall := bdbWrites_consecutive max 0 hlen
    rw [Nat.zero_add] at hall
    exact hall.fills.trans (congrArg (List.map some) (bdbWrites_data max 0 s.type k))

/-- A NULL between two attributes, in columns of all types. -/
example : ((IndexStructure.new [.kShort, .kVarchar, .kInt]).bdbKeyWrites
    [some (.ofBytes .kShort [1, 0, 0, 0]), none, some (.ofBytes .kInt [2])] false).map
      (fun w => (w.1, w.2.length)) = [(0, 4), (4, 512), (516, 1), (517, 8)] := by decide +kernel

end Contest
