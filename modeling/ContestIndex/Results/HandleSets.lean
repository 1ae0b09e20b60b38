import ContestIndex.Results.Tidy

/-! @src example/Index.cc | name:The handle set of a structure | layer:results

    `Index::Open` registers the new handle before it opens the database, and `Index::Close` closes
    the database before it unregisters the handle. In between, `closed_` says closed, so the
    destructor that cleans up after an exception returns early and leaves the handle in the set.

        closed_ = true ─▶ insert ─▶ Db::open ─▶ closed_ = false       Open
                                    may throw ─▶ delete ─▶ Close returns early
        closed_ = true ─▶ Db::close ─▶ erase                           Close
                          may throw ─▶ the object is gone -/

namespace Contest
open Schemes

namespace World
variable {B : BerkeleyDB} {F : Faults} {w w' : World} {h g : IndexPtr} {idx : Index} {name : String}
  {p : StructurePtr} {s : IndexStructure}

/-- The handles registered with an existing structure are the open handles that belong to it. -/
def Exact (w : World) : Prop :=
  ∀ p s, w.structures p = some s → ∀ h, h ∈ s.handles ↔
    ∃ idx, w.handles h = some idx ∧ idx.closed = false ∧ idx.structure_ = some p

/-- The call is no `OpenIndex` of a known index in which `Db::open` throws (for a missing database it
    does), and no `CloseIndex` of an open handle of an existing structure in which `Db::close` does. -/
def KeepsHandles (w : World) (c : Faults × Call) : Prop :=
  match c.2 with
  | .openIndex name => (w.known name).isSome → c.1.thrown .dbOpen = none ∧ (w.env.pairs name).isSome
  | .closeIndex (some h) => ∀ idx p, w.handles h = some idx → idx.closed = false → idx.db = true →
      idx.structure_ = some p → (w.structures p).isSome → c.1.thrown (.dbClose h) = none
  | _ => True

/-- Together with what makes a new object distinct from the old ones. -/
structure HandleSets (w : World) : Prop where
  exact : w.Exact
  held : ∀ h, (w.handles h).isSome → h < w.free
  referred : ∀ h idx p, w.handles h = some idx → idx.structure_ = some p → p < w.free
  mapped : ∀ name p, w.find name = some p → p < w.free

theorem initial_handleSets : initial.HandleSets where
  exact := by simp [Exact, initial]
  held := by simp [initial]
  referred := by simp [initial]
  mapped := by simp [initial, World.find]

/-- A registered handle is an old object. -/
theorem HandleSets.registered (hw : w.HandleSets) (hs : w.structures p = some s) (hh : h ∈ s.handles) :
    h < w.free := by
  obtain ⟨idx, hidx, -⟩ := (hw.exact p s hs h).mp hh
  exact hw.held h (by rw [hidx]; rfl)

/-! ### Calls that leave the objects alone -/

/-- From `w` to `w'` no handle or iterator and no entry of the map has changed, and no handle set or
    column of a structure. -/
structure SameObjects (w w' : World) : Prop where
  handles : w'.handles = w.handles
  iterators : w'.iterators = w.iterators
  indices : w'.indices = w.indices
  free : w'.free = w.free
  structures : ∀ p s', w'.structures p = some s' →
    ∃ s, w.structures p = some s ∧ s'.handles = s.handles ∧ s'.type = s.type

namespace SameObjects

theorem setEnv (w : World) (env : DbEnv) : SameObjects w (w.setEnv env) :=
  ⟨rfl, rfl, rfl, rfl, fun _ s hs => ⟨s, hs, rfl, rfl⟩⟩

theorem refl (w : World) : SameObjects w w := setEnv w w.env

end SameObjects

theorem HandleSets.same (hw : w.HandleSets) (hk : SameObjects w w') : w'.HandleSets where
  exact := by
    intro p s' hs' h
    obtain ⟨s, hs, hsame, -⟩ := hk.structures p s' hs'
    rw [hsame, hk.handles]
    exact hw.exact p s hs h
  held := by
    intro h hh
    rw [hk.handles] at hh
    exact (hw.held h hh).trans_eq hk.free.symm
  referred := by
    intro h idx p hidx hp
    rw [hk.handles] at hidx
    exact (hw.referred h idx p hidx hp).trans_eq hk.free.symm
  mapped := by
    intro name p hf
    rw [World.find, hk.indices] at hf
    exact (hw.mapped name p hf).trans_eq hk.free.symm

theorem HandleSets.only (hw : w.HandleSets) (hk : OnlyIterators w w') : w'.HandleSets := by
  obtain ⟨iterators, free, hfree, rfl⟩ := hk
  exact
    { exact := hw.exact
      held := fun h hh => (hw.held h hh).trans_le hfree
      referred := fun h idx p hidx hp => (hw.referred h idx p hidx hp).trans_le hfree
      mapped := fun name p hf => (hw.mapped name p hf).trans_le hfree }

theorem closeTransaction_same (w : World) (t : TxnPtr) (env : DbEnv) :
    SameObjects w ((w.setEnv env).closeTransaction t) where
  handles := by rw [closeTransaction_eq]; rfl
  iterators := by rw [closeTransaction_eq]; rfl
  indices := by rw [closeTransaction_eq]; rfl
  free := by rw [closeTransaction_eq]; rfl
  structures := by
    intro p s' hs'
    rw [closeTransaction_structures] at hs'
    split at hs'
    · obtain ⟨s, hs, rfl⟩ := Option.map_eq_some_iff.mp hs'
      exact ⟨s, hs, rfl, rfl⟩
    · exact ⟨s', hs', rfl, rfl⟩

theorem abortTransaction_same (F : Faults) (w : World) (tx : Option TxnPtr) :
    SameObjects w (w.abortTransaction F tx).2.2 := by
  rcases abortTransaction_cases F w tx with hsame | ⟨t, -, haborted⟩
  · rw [hsame]
    exact .refl w
  · rw [haborted]
    exact closeTransaction_same w t _

theorem commitTransaction_same (F : Faults) (w : World) (tx : Option TxnPtr) :
    SameObjects w (w.commitTransaction F tx).2.2 := by
  rcases commitTransaction_cases F w tx with hsame | ⟨t, -, haborted | hagain | hcommitted⟩
  · rw [hsame]
    exact .refl w
  · rw [haborted]
    exact .setEnv w _
  · rw [hagain]
    have hsame := abortTransaction_same F (w.setEnv (w.env.abort t)) (some t)
    exact ⟨hsame.handles, hsame.iterators, hsame.indices, hsame.free, hsame.structures⟩
  · rw [hcommitted]
    exact closeTransaction_same w t _

theorem beginTransaction_same (B : BerkeleyDB) (F : Faults) (w : World) :
    SameObjects w (w.beginTransaction B F).2.2 := by
  rw [beginTransaction]
  split
  · exact .refl w
  · exact .refl w
  · exact .setEnv w _

theorem modify_same (B : BerkeleyDB) (F : Faults) (w : World) (tx : Option TxnPtr) (h : IndexPtr)
    (m : Modification) : SameObjects w (w.modify B F tx h m).2 := by
  rcases modify_worked B F w tx h m with hsame | ⟨o, env, txns, ho, -, hafter⟩
  · rw [hsame]
    exact .refl w
  · rw [hafter]
    refine ⟨rfl, rfl, rfl, rfl, fun p s' hs' => ?_⟩
    rw [after_structures] at hs'
    rcases eq_or_ne p o.ptr with rfl | hne
    · rw [Function.update_self, Option.some.injEq] at hs'
      exact ⟨o.s, (opened_eq_some ho).2.2.1, hs' ▸ rfl, hs' ▸ rfl⟩
    · rw [Function.update_of_ne hne] at hs'
      exact ⟨s', hs', rfl, rfl⟩

/-! ### Creating -/

/-- No handle belongs to a structure that has just been made. -/
theorem HandleSets.create (hw : w.HandleSets) (types : List AttributeType) :
    (w.created name types).HandleSets where
  exact := by
    intro q t ht h
    rcases eq_or_ne q w.free with rfl | hne
    · obtain rfl : IndexStructure.new types = t := by
        simpa [created, World.insert, setStructure] using ht
      refine ⟨fun hh => by simp [IndexStructure.new] at hh, ?_⟩
      rintro ⟨idx, hidx, -, hq⟩
      exact absurd (hw.referred h idx _ hidx hq) (lt_irrefl _)
    · rw [created_structures types hne] at ht
      exact hw.exact q t ht h
  held := fun h hh => Nat.lt_succ_of_lt (hw.held h hh)
  referred := fun h idx p hidx hp => Nat.lt_succ_of_lt (hw.referred h idx p hidx hp)
  mapped := by
    intro n q hf
    rw [created_find] at hf
    split at hf
    · obtain rfl := Option.some.inj hf
      exact Nat.lt_succ_self _
    · exact Nat.lt_succ_of_lt (hw.mapped n q hf)

theorem createIndex_handleSets (hw : w.HandleSets) (F : Faults) (name : String)
    (types : Option (List AttributeType)) : (w.createIndex F name types).2.HandleSets := by
  rcases createIndex_cases F w name types with ⟨code, -, hsame⟩ | ⟨ts, -, -, -, -, hcreated⟩
  · rw [hsame]
    exact hw
  · rw [hcreated]
    exact hw.create ts

/-! ### Opening -/

/-- A handle has been made at the next free address. It is registered if it is open. -/
theorem HandleSets.withHandle (hw : w.HandleSets) (value : Option Index)
    (hfound : ∀ idx q, value = some idx → idx.structure_ = some q → w.find name = some q)
    {structures : StructurePtr → Option IndexStructure}
    (hset : ∀ q t, structures q = some t → ∃ s, w.structures q = some s ∧ ∀ h, h ∈ t.handles ↔
      h ∈ s.handles ∨
        h = w.free ∧ ∃ idx, value = some idx ∧ idx.closed = false ∧ idx.structure_ = some q) :
    { w with
      handles := Function.update w.handles w.free value
      structures := structures
      free := w.free + 1 }.HandleSets where
  exact := by
    intro q t ht h
    obtain ⟨s, hs, hmem⟩ := hset q t ht
    rw [hmem]
    rcases eq_or_ne h w.free with rfl | hne
    · have hfresh : w.free ∉ s.handles := fun hh => absurd (hw.registered hs hh) (lt_irrefl _)
      simp [hfresh]
    · simpa [hne] using hw.exact q s hs h
  held := by
    intro h hh
    rcases eq_or_ne h w.free with rfl | hne
    · exact Nat.lt_succ_self _
    · exact Nat.lt_succ_of_lt (hw.held h (by simpa [hne] using hh))
  referred := by
    intro h idx q hidx hq
    rcases eq_or_ne h w.free with rfl | hne
    · have hvalue : value = some idx := by simpa using hidx
      exact Nat.lt_succ_of_lt (hw.mapped name q (hfound idx q hvalue hq))
    · exact Nat.lt_succ_of_lt (hw.referred h idx q (by simpa [hne] using hidx) hq)
  mapped := fun n q hf => Nat.lt_succ_of_lt (hw.mapped n q hf)

/-- A new handle that is closed, or deleted again, belongs to no set. -/
theorem HandleSets.unregistered (hw : w.HandleSets) {value : Option Index}
    (hfound : ∀ idx q, value = some idx → idx.structure_ = some q → w.find name = some q)
    (hclosed : ∀ idx, value = some idx → idx.closed = true) :
    { w with
      handles := Function.update w.handles w.free value
      free := w.free + 1 }.HandleSets := by
  refine hw.withHandle value hfound fun q t ht => ⟨t, ht, fun h => ?_⟩
  refine ⟨Or.inl, ?_⟩
  rintro (hh | ⟨-, idx, hidx, hopen, -⟩)
  · exact hh
  · rw [hclosed idx hidx] at hopen
    contradiction

theorem openIndex_handleSets (hw : w.HandleSets) (hk : KeepsHandles w (F, .openIndex name)) :
    (w.openIndex F name).2.2.HandleSets := by
  by_cases hname : name = ""
  · simp only [openIndex, if_pos hname]
    exact hw
  rcases hf : w.find name with _ | p
  · simp only [openIndex, if_neg hname, openHandle, hf]
    refine @HandleSets.unregistered w name hw _ ?_ ?_
    · rintro idx q ⟨⟩ hq
      cases hq
    · rintro idx ⟨⟩
      rfl
  rcases hs : w.structures p with _ | s
  · -- the map leads to a destroyed structure
    simp only [openIndex, if_neg hname, openHandle, hf, setHandle, hs]
    refine @HandleSets.unregistered w name hw _ ?_ ?_
    · rintro idx q ⟨⟩ hq
      exact hf.trans hq
    · rintro idx ⟨⟩
      rfl
  obtain ⟨hthrown, hsome⟩ := hk (by rw [known_eq_some.mpr ⟨p, hf, hs⟩]; rfl)
  obtain ⟨pairs, hpairs⟩ := Option.isSome_iff_exists.mp hsome
  simp only [openIndex, if_neg hname, openHandle, hf, setHandle, setStructure, hs, hthrown, hpairs,
    Function.update_idem]
  refine @HandleSets.withHandle w name hw (some ⟨name, some p, true, false⟩) ?_ _ ?_
  · rintro idx q ⟨⟩ hq
    exact hf.trans hq
  · intro q t ht
    rcases eq_or_ne q p with rfl | hne
    · obtain rfl : { s with handles := Insert.insert w.free s.handles } = t := by simpa using ht
      exact ⟨s, hs, fun h => by simp [or_comm]⟩
    · rw [Function.update_of_ne hne] at ht
      exact ⟨t, ht, fun h => by simp [hne.symm]⟩

/-! ### Closing -/

/-- From `w` to `w'` only the structure at `p` and the handles that belong to it have changed. -/
structure Apart (p : StructurePtr) (w w' : World) : Prop where
  indices : w'.indices = w.indices
  free : w'.free = w.free
  structures : ∀ q, q ≠ p → w'.structures q = w.structures q
  handles : ∀ h, w'.handles h = w.handles h ∨ ∃ idx idx', w.handles h = some idx ∧
    w'.handles h = some idx' ∧ idx.structure_ = some p ∧ idx'.structure_ = some p

namespace Apart

theorem refl (p : StructurePtr) (w : World) : Apart p w w :=
  ⟨rfl, rfl, fun _ _ => rfl, fun _ => Or.inl rfl⟩

theorem trans {u v : World} (huv : Apart p u v) (hvw : Apart p v w) : Apart p u w where
  indices := hvw.indices.trans huv.indices
  free := hvw.free.trans huv.free
  structures := fun q hq => (hvw.structures q hq).trans (huv.structures q hq)
  handles := by
    intro h
    rcases huv.handles h with hu | ⟨i, i', hi, hi', hp, hp'⟩
    · rcases hvw.handles h with hv | ⟨i, i', hi, hi', hp, hp'⟩
      · exact Or.inl (hv.trans hu)
      · exact Or.inr ⟨i, i', hu ▸ hi, hi', hp, hp'⟩
    · rcases hvw.handles h with hv | ⟨j, j', -, hj', -, hq'⟩
      · exact Or.inr ⟨i, i', hi, hv.trans hi', hp, hp'⟩
      · exact Or.inr ⟨i, j', hi, hj', hp, hq'⟩

theorem setStructure (w : World) (p : StructurePtr) (s : IndexStructure) :
    Apart p w (w.setStructure p s) :=
  ⟨rfl, rfl, fun _ hq => Function.update_of_ne hq .., fun _ => Or.inl rfl⟩

theorem setHandle {idx' : Index} (hidx : w.handles h = some idx) (hp : idx.structure_ = some p)
    (hp' : idx'.structure_ = some p) : Apart p w (w.setHandle h idx') := by
  refine ⟨rfl, rfl, fun _ _ => rfl, fun g => ?_⟩
  rcases eq_or_ne g h with rfl | hne
  · exact Or.inr ⟨idx, idx', hidx, Function.update_self .., hp, hp'⟩
  · exact Or.inl (Function.update_of_ne hne ..)

/-- The handles of the structure remain its handles. -/
theorem belongs (ha : Apart p w w') (hg : ∃ idx, w.handles g = some idx ∧ idx.structure_ = some p) :
    ∃ idx, w'.handles g = some idx ∧ idx.structure_ = some p := by
  rcases ha.handles g with hsame | ⟨-, idx', -, hidx', -, hp'⟩
  · rwa [hsame]
  · exact ⟨idx', hidx', hp'⟩

/-- Every handle is an old one, and belongs to the same structure. -/
theorem handle (ha : Apart p w w') {idx' : Index} (hidx' : w'.handles h = some idx') :
    ∃ idx, w.handles h = some idx ∧ idx'.structure_ = idx.structure_ := by
  rcases ha.handles h with hsame | ⟨idx, i, hidx, hi, hp, hp'⟩
  · exact ⟨idx', hsame ▸ hidx', rfl⟩
  · obtain rfl : i = idx' := Option.some.inj (hi.symm.trans hidx')
    exact ⟨idx, hidx, hp'.trans hp.symm⟩

end Apart

/-- `Index::Close` on a handle of the structure at `p`. -/
theorem closeHandle_apart (F : Faults) (hidx : w.handles h = some idx)
    (hp : idx.structure_ = some p) : Apart p w (w.closeHandle F h).2 := by
  obtain ⟨name, structure_, db, closed⟩ := idx
  obtain rfl : structure_ = some p := hp
  simp only [closeHandle, hidx]
  split
  · exact .refl p w
  · have hset : ∀ db', Apart p w (w.setHandle h ⟨name, some p, db', true⟩) := fun db' =>
      .setHandle hidx rfl rfl
    split
    · exact hset db
    · split
      · exact hset false
      · exact (hset false).trans (.setStructure _ p _)

/-- RUN (`IndexStructure::CloseHandles`). -/
theorem closeHandles_apart (F : Faults) (hs : List IndexPtr) : ∀ {w : World},
    (∀ h ∈ hs, ∃ idx, w.handles h = some idx ∧ idx.structure_ = some p) →
      Apart p w (closeHandles F hs w).2 := by
  induction hs with
  | nil => exact fun _ => .refl p _
  | cons h hs ih =>
    intro w hall
    obtain ⟨⟨idx, hidx, hp⟩, hrest⟩ := List.forall_mem_cons.mp hall
    have hone := closeHandle_apart F hidx hp
    rw [closeHandles]
    split
    · next heq =>
      rw [heq] at hone
      exact hone.trans (ih fun g hg => hone.belongs (hrest g hg))
    · exact hone

/-- `delete it->second` -/
theorem HandleSets.destroy (hw : w.HandleSets) (ha : Apart p w w') :
    { w' with structures := Function.update w'.structures p none }.HandleSets where
  exact := by
    intro q t ht h
    have hne : q ≠ p := by
      rintro rfl
      simp at ht
    have hold : w.structures q = some t := by
      rw [← ha.structures q hne]
      simpa [hne] using ht
    rw [hw.exact q t hold h]
    rcases ha.handles h with hsame | ⟨idx, idx', hidx, hidx', hp, hp'⟩
    · simp only [hsame]
    · -- a handle of the destroyed structure belongs to no other one
      simp [hidx, hidx', hp, hp', hne.symm]
  held := by
    intro h hh
    obtain ⟨idx', hidx'⟩ := Option.isSome_iff_exists.mp hh
    obtain ⟨idx, hidx, -⟩ := ha.handle hidx'
    exact (hw.held h (by rw [hidx]; rfl)).trans_eq ha.free.symm
  referred := by
    intro h idx' q hidx' hq
    obtain ⟨idx, hidx, hsame⟩ := ha.handle hidx'
    exact (hw.referred h idx q hidx (hsame ▸ hq)).trans_eq ha.free.symm
  mapped := by
    intro n q hf
    rw [World.find, ha.indices] at hf
    exact (hw.mapped n q hf).trans_eq ha.free.symm

/-- `indices_.erase(it)` -/
theorem HandleSets.erase (hw : w.HandleSets) (name : String) :
    { w with indices := w.indices.filter (·.1 ≠ name) }.HandleSets where
  exact := hw.exact
  held := hw.held
  referred := hw.referred
  mapped := by
    intro n q hf
    rw [@find_erased w _ name rfl] at hf
    split at hf
    · contradiction
    · exact hw.mapped n q hf

theorem remove_handleSets (hw : w.HandleSets) (F : Faults) (name : String) :
    (w.remove F name).2.HandleSets := by
  rw [remove]
  split
  · exact hw
  · next p hf =>
    split
    · exact hw
    · next s hs =>
      split
      · have hread : Apart p w (w.setStructure p s.makeReadOnly.2) := .setStructure w p _
        have hbelong : ∀ h ∈ s.handles.sort (· ≤ ·), ∃ idx,
            (w.setStructure p s.makeReadOnly.2).handles h = some idx ∧ idx.structure_ = some p := by
          intro h hh
          obtain ⟨idx, hidx, -, hp⟩ := (hw.exact p s hs h).mp ((Finset.mem_sort _).mp hh)
          exact ⟨idx, hidx, hp⟩
        have hdestroyed := hw.destroy (hread.trans (closeHandles_apart F _ hbelong))
        change ((w.setStructure p s.makeReadOnly.2).destroyStructure F p s).2.HandleSets at hdestroyed
        split
        · next heq =>
          rw [heq] at hdestroyed
          exact hdestroyed.erase name
        · next heq =>
          rw [heq] at hdestroyed
          exact hdestroyed
        · next heq =>
          rw [heq] at hdestroyed
          exact hdestroyed
      · exact hw

theorem deleteIndex_handleSets (hw : w.HandleSets) (F : Faults) (name : String) :
    (w.deleteIndex F name).2.HandleSets := by
  have hremoved := remove_handleSets hw F name
  rcases deleteIndex_cases F w name with hsame | hended | ⟨v, hv, hdeleted⟩
  · rwa [hsame]
  · rwa [hended]
  · rw [hv] at hremoved
    rw [hdeleted]
    exact hremoved.same (.setEnv _ _)

/-- The handle at `h` is deleted, and registered nowhere. -/
theorem HandleSets.delete (hw : w.HandleSets) (hindices : w'.indices = w.indices)
    (hfree : w'.free = w.free) (hothers : ∀ g, g ≠ h → w'.handles g = w.handles g)
    (hset : ∀ q t, w'.structures q = some t → ∃ s, w.structures q = some s ∧
      ∀ g, g ∈ t.handles ↔ g ∈ s.handles ∧ g ≠ h) :
    { w' with handles := Function.update w'.handles h none }.HandleSets where
  exact := by
    intro q t ht g
    obtain ⟨s, hs, hmem⟩ := hset q t ht
    rw [hmem]
    rcases eq_or_ne g h with rfl | hne
    · simp
    · simpa [hne, hothers g hne] using hw.exact q s hs g
  held := by
    intro g hg
    rcases eq_or_ne g h with rfl | hne
    · simp at hg
    · rw [hfree]
      exact hw.held g (by simpa [hne, hothers g hne] using hg)
  referred := by
    intro g i q hi hq
    rcases eq_or_ne g h with rfl | hne
    · simp at hi
    · rw [hfree]
      exact hw.referred g i q (by simpa [hne, hothers g hne] using hi) hq
  mapped := by
    intro n q hf
    rw [World.find, hindices] at hf
    rw [hfree]
    exact hw.mapped n q hf

/-- What `Index::Close` does to the structures: an open handle is taken out of the set of its
    structure, unless the close of the database throws or the structure does not exist. -/
theorem closeHandle_structures (F : Faults) (hidx : w.handles h = some idx) :
    ((w.closeHandle F h).2.structures = w.structures ∧
        ∀ q, idx.closed = false → idx.structure_ = some q → (w.structures q).isSome →
          idx.db = true ∧ F.thrown (.dbClose h) ≠ none) ∨
      ∃ p s, idx.structure_ = some p ∧ w.structures p = some s ∧
        (w.closeHandle F h).2.structures =
          Function.update w.structures p (some { s with handles := s.handles.erase h }) := by
  simp only [closeHandle, hidx]
  split
  · next hclosed => exact Or.inl ⟨rfl, by simp [hclosed]⟩
  · split
    · next e hthrown =>
      refine Or.inl ⟨rfl, fun _ _ _ _ => ?_⟩
      split at hthrown
      · next hdb => exact ⟨hdb, by simp [hthrown]⟩
      · contradiction
    · split
      · next hnone => exact Or.inl ⟨rfl, by simp [hnone]⟩
      · next p hp =>
        split
        · next hgone =>
          refine Or.inl ⟨rfl, fun q _ hq hlive => ?_⟩
          obtain rfl : p = q := Option.some.inj (hp.symm.trans hq)
          rw [show w.structures p = none from hgone] at hlive
          contradiction
        · next s hs => exact Or.inr ⟨p, s, hp, hs, rfl⟩

theorem closeHandle_others (F : Faults) (w : World) (h : IndexPtr) :
    (w.closeHandle F h).2.indices = w.indices ∧ (w.closeHandle F h).2.free = w.free ∧
      ∀ g, g ≠ h → (w.closeHandle F h).2.handles g = w.handles g := by
  have hset : ∀ i g, g ≠ h → (w.setHandle h i).handles g = w.handles g := fun _ _ hg =>
    Function.update_of_ne hg ..
  unfold closeHandle
  simp only
  repeat' split
  all_goals first
    | exact ⟨rfl, rfl, fun _ _ => rfl⟩
    | exact ⟨rfl, rfl, hset _⟩

theorem closeIndex_handleSets (hw : w.HandleSets) {var : Option IndexPtr}
    (hk : KeepsHandles w (F, .closeIndex var)) : (w.closeIndex F var).2.2.HandleSets := by
  rcases var with _ | h
  · exact hw
  rcases hidx : w.handles h with _ | idx
  · simp only [closeIndex, hidx]
    exact hw
  obtain ⟨hindices, hfree, hothers⟩ := closeHandle_others F w h
  have hset : ∀ q t, (w.closeHandle F h).2.structures q = some t → ∃ s, w.structures q = some s ∧
      ∀ g, g ∈ t.handles ↔ g ∈ s.handles ∧ g ≠ h := by
    intro q t ht
    rcases closeHandle_structures F hidx with ⟨hsame, hfails⟩ | ⟨p, s, hp, hs, herased⟩
    · -- the handle is not in the set: it is closed, or belongs to another structure
      rw [hsame] at ht
      have hout : h ∉ t.handles := by
        intro hh
        obtain ⟨i, hi, hopen, hq⟩ := (hw.exact q t ht h).mp hh
        obtain rfl : idx = i := Option.some.inj (hidx.symm.trans hi)
        have hlive : (w.structures q).isSome := by rw [ht]; rfl
        obtain ⟨hdb, hthrows⟩ := hfails q hopen hq hlive
        exact hthrows (hk idx q hidx hopen hdb hq hlive)
      exact ⟨t, ht, fun g => ⟨fun hg => ⟨hg, fun hc => hout (hc ▸ hg)⟩, And.left⟩⟩
    · rw [herased] at ht
      rcases eq_or_ne q p with rfl | hne
      · obtain rfl : { s with handles := s.handles.erase h } = t := by simpa using ht
        exact ⟨s, hs, fun g => by simp [and_comm]⟩
      · rw [Function.update_of_ne hne] at ht
        have hout : h ∉ t.handles := by
          intro hh
          obtain ⟨i, hi, -, hq⟩ := (hw.exact q t ht h).mp hh
          obtain rfl : idx = i := Option.some.inj (hidx.symm.trans hi)
          exact hne (Option.some.inj (hq.symm.trans hp))
        exact ⟨t, ht, fun g => ⟨fun hg => ⟨hg, fun hc => hout (hc ▸ hg)⟩, And.left⟩⟩
  have hdeleted := hw.delete hindices hfree hothers hset
  simp only [closeIndex, hidx]
  split <;> exact hdeleted

/-! ### Runs -/

/-- STEP: every call keeps the sets exact, unless the database of a handle that is about to enter or leave
    its set cannot be opened or closed. -/
theorem perform_handleSets (B : BerkeleyDB) (hw : w.HandleSets) {c : Faults × Call}
    (hk : KeepsHandles w c) : (faultyCall B w c).2.HandleSets := by
  obtain ⟨F, call⟩ := c
  cases call with
  | beginTransaction => exact hw.same (beginTransaction_same B F w)
  | abortTransaction tx => exact hw.same (abortTransaction_same F w tx)
  | commitTransaction tx => exact hw.same (commitTransaction_same F w tx)
  | createIndex name types => exact createIndex_handleSets hw F name types
  | openIndex name => exact openIndex_handleSets hw hk
  | closeIndex idx => exact closeIndex_handleSets hw hk
  | deleteIndex name => exact deleteIndex_handleSets hw F name
  | modify tx idx m => exact (hw.same (modify_same B F w tx idx m)).only (follow_only B w idx m _)
  | getRecords tx idx minKeys maxKeys var =>
    exact hw.only (getRecords_only F w tx idx minKeys maxKeys var)
  | getNext var => exact hw.only (getNext_only B F w var)
  | closeIterator var => exact hw.only (closeIterator_only F w var)

/-- DIVERGES: in a run of API calls in which whatever else may fail, but no `OpenIndex` or `CloseIndex`
    fails between its two steps, every handle set holds exactly the open handles of its structure. Where
    `DeleteIndex` walks over a set (by `closeHandles`), the structure goes with it. -/
theorem handle_sets_exact (B : BerkeleyDB) {calls : List (Faults × Call)}
    (hok : Admissible KeepsHandles (faultyCall B) initial calls) :
    (run (faultyCall B) initial calls).2.Exact := by
  have hstep : ∀ v (c : Faults × Call), HandleSets v → KeepsHandles v c →
      (faultyCall B v c).2.HandleSets := fun _ _ hv hc => perform_handleSets B hv hc
  exact (run_keeps hstep initial_handleSets hok).exact

/-- A database that cannot be opened, and one that cannot be closed. -/
def failingOpen : Faults := fun site => if site = .dbOpen then some (.throws .other) else none
def failingClose (h : IndexPtr) : Faults := fun site =>
  if site = .dbClose h then some (.throws .other) else none

/-- Two handles, one of which is closed, and failures that do no harm. -/
theorem handle_sets_exact_at :
    (run (faultyCall .plain) initial [(failingClose 1, .createIndex "x" (some [.kShort])),
      (failingClose 1, .openIndex "x"), (failingOpen, .openIndex "y"),
      (failingClose 1, .openIndex "x"), (failingOpen, .closeIndex (some 1))]).2.Exact := by
  refine handle_sets_exact .plain ⟨trivial, ?_, ?_, ?_, ?_, trivial⟩
  · exact fun _ => ⟨rfl, rfl⟩
  · exact fun hknown => absurd hknown (by decide +kernel)
  · exact fun _ => ⟨rfl, rfl⟩
  · exact fun _ _ _ _ _ _ _ => rfl

/-- The set of the structure 0 holds the handle 1, which has been deleted. -/
def Dangling (w : World) : Prop :=
  (w.structures 0).map (·.handles) = some {1} ∧ w.handles 1 = none

/-- An `OpenIndex` that fails leaves its handle in the set, and so does a `CloseIndex` that fails. -/
theorem deleted_handle_registered :
    let opened := (run (faultyCall .plain) initial [(noFaults, .createIndex "x" (some [.kShort])),
      (failingOpen, .openIndex "x")]).2
    let closed := (run (faultyCall .plain) initial [(noFaults, .createIndex "x" (some [.kShort])),
      (noFaults, .openIndex "x"), (failingClose 1, .closeIndex (some 1))]).2
    (Dangling opened ∧ ¬opened.Exact) ∧ Dangling closed ∧ ¬closed.Exact := by
  have hnot : ∀ {w : World}, Dangling w → ¬w.Exact := by
    rintro w ⟨hset, hgone⟩ hexact
    obtain ⟨s, hs, hhandles⟩ := Option.map_eq_some_iff.mp hset
    obtain ⟨idx, hidx, -⟩ := (hexact 0 s hs 1).mp (by simp [hhandles])
    rw [hgone] at hidx
    contradiction
  intro opened closed
  have hopened : Dangling opened := ⟨by decide +kernel, rfl⟩
  have hclosed : Dangling closed := ⟨by decide +kernel, rfl⟩
  exact ⟨⟨hopened, hnot hopened⟩, hclosed, hnot hclosed⟩

end World

end Contest
