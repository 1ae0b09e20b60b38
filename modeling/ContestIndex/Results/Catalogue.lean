import ContestIndex.Results.Sound

/-! @src example/BDBImpl.cc | name:The two catalogues under failures | layer:results

    The indexes that exist are listed twice: as databases of the environment and as entries of the
    manager's map. `CreateIndex` adds to both and `DeleteIndex` takes away from both, in two steps,
    and a Berkeley DB call that fails between the two steps leaves them different.

        CreateIndex    Db::open ──▶ Insert              DeleteIndex    Remove ──▶ dbremove
                       may fail                                 closes handles    may fail
                                                                may fail -/

namespace Contest
open Schemes

namespace World
variable {B : BerkeleyDB} {F : Faults} {w w' : World} {name : String} {p : StructurePtr}
  {s : IndexStructure} {h : IndexPtr}

/-! ### Closing handles, whatever fails -/

/-- From `w` to `w'` handles have been closed and unregistered. -/
structure Closing (w w' : World) : Prop where
  env : w'.env = w.env
  indices : w'.indices = w.indices
  free : w'.free = w.free
  structures : ∀ p, w'.structures p = none ∧ w.structures p = none ∨
    ∃ s registered, w.structures p = some s ∧ registered ⊆ s.handles ∧
      w'.structures p = some { s with handles := registered }
  handles : ∀ h idx', w'.handles h = some idx' →
    ∃ idx, w.handles h = some idx ∧ idx'.structure_ = idx.structure_

namespace Closing

theorem refl (w : World) : Closing w w where
  env := rfl
  indices := rfl
  free := rfl
  structures := by
    intro p
    rcases hs : w.structures p with _ | s
    · exact Or.inl ⟨rfl, rfl⟩
    · exact Or.inr ⟨s, s.handles, rfl, subset_rfl, rfl⟩
  handles := fun _ idx hidx => ⟨idx, hidx, rfl⟩

theorem trans {u v : World} (huv : Closing u v) (hvw : Closing v w) : Closing u w where
  env := hvw.env.trans huv.env
  indices := hvw.indices.trans huv.indices
  free := hvw.free.trans huv.free
  structures := by
    intro p
    rcases hvw.structures p with ⟨hw, hv⟩ | ⟨s, registered, hs, hsub, hw⟩
    · rcases huv.structures p with ⟨-, hu⟩ | ⟨s, _, -, -, hv'⟩
      · exact Or.inl ⟨hw, hu⟩
      · rw [hv] at hv'
        contradiction
    · rcases huv.structures p with ⟨hv, -⟩ | ⟨t, registered', ht, hsub', hv⟩
      · rw [hv] at hs
        contradiction
      · obtain rfl : { t with handles := registered' } = s := Option.some.inj (hv.symm.trans hs)
        exact Or.inr ⟨t, registered, ht, hsub.trans hsub', hw⟩
  handles := by
    intro h idx' hidx'
    obtain ⟨i, hi, hsame⟩ := hvw.handles h idx' hidx'
    obtain ⟨idx, hidx, hsame'⟩ := huv.handles h i hi
    exact ⟨idx, hidx, hsame.trans hsame'⟩

theorem find (hc : Closing w w') (name : String) : w'.find name = w.find name := by
  rw [World.find, World.find, hc.indices]

/-- A handle is marked closed. -/
theorem setHandle {idx idx' : Index} (hidx : w.handles h = some idx)
    (hsame : idx'.structure_ = idx.structure_) : Closing w (w.setHandle h idx') where
  env := rfl
  indices := rfl
  free := rfl
  structures := (refl w).structures
  handles := by
    intro g i hi
    rcases eq_or_ne g h with rfl | hne
    · obtain rfl : idx' = i := by simpa [World.setHandle] using hi
      exact ⟨idx, hidx, hsame⟩
    · exact ⟨i, by simpa [World.setHandle, hne] using hi, rfl⟩

/-- A handle is unregistered. -/
theorem unregister (hs : w.structures p = some s) (h : IndexPtr) :
    Closing w (w.setStructure p { s with handles := s.handles.erase h }) where
  env := rfl
  indices := rfl
  free := rfl
  structures := by
    intro q
    rcases eq_or_ne q p with rfl | hne
    · exact Or.inr ⟨s, s.handles.erase h, hs, Finset.erase_subset _ _, Function.update_self ..⟩
    · rcases (refl w).structures q with ⟨hq, -⟩ | ⟨t, registered, ht, hsub, -⟩
      · exact Or.inl ⟨(Function.update_of_ne hne ..).trans hq, hq⟩
      · exact Or.inr ⟨t, t.handles, ht, subset_rfl, (Function.update_of_ne hne ..).trans ht⟩
  handles := (refl w).handles

/-- The object of a handle is deleted. -/
theorem deleteHandle (w : World) (h : IndexPtr) :
    Closing w { w with handles := Function.update w.handles h none } where
  env := rfl
  indices := rfl
  free := rfl
  structures := (refl w).structures
  handles := by
    intro g i hi
    rcases eq_or_ne g h with rfl | hne
    · simp at hi
    · exact ⟨i, by simpa [hne] using hi, rfl⟩

end Closing

/-- `Index::Close` -/
theorem closeHandle_closing (F : Faults) (w : World) (h : IndexPtr) :
    Closing w (w.closeHandle F h).2 := by
  unfold closeHandle
  split
  · exact .refl w
  · next idx hidx =>
    split
    · exact .refl w
    · simp only
      split
      · exact .setHandle hidx rfl
      · have hset := @Closing.setHandle w h idx { idx with closed := true, db := false } hidx rfl
        split
        · exact hset
        · split
          · exact hset
          · next hs => exact hset.trans (.unregister hs h)

theorem closeHandles_closing (F : Faults) (hs : List IndexPtr) : ∀ w : World,
    Closing w (closeHandles F hs w).2 := by
  induction hs with
  | nil => exact .refl
  | cons h hs ih =>
    intro w
    have hone := closeHandle_closing F w h
    unfold closeHandles
    split
    · next heq =>
      rw [heq] at hone
      exact hone.trans (ih _)
    · exact hone

/-- RUN (`IndexStructure::CloseHandles`): closed handles are passed by. -/
theorem closeHandles_closed (F : Faults) {w : World} : ∀ {hs : List IndexPtr},
    (∀ h ∈ hs, ∃ idx, w.handles h = some idx ∧ idx.closed = true) →
      closeHandles F hs w = (.ret (), w)
  | [], _ => rfl
  | h :: hs, hall => by
    obtain ⟨⟨idx, hidx, hclosed⟩, hrest⟩ := List.forall_mem_cons.mp hall
    have hfirst : w.closeHandle F h = (.ret (), w) := by simp [closeHandle, hidx, hclosed]
    rw [closeHandles, hfirst]
    exact closeHandles_closed F hrest

/-! ### What holds between the calls -/

/-- The map and the environment list the same names; the structures are there, apart from each other
    and not being modified; the handles registered with a structure belong to it. -/
structure Catalogued (w : World) : Prop where
  agree : ∀ name, (w.find name).isSome ↔ (w.env.pairs name).isSome
  named : w.find "" = none
  live : ∀ name p, w.find name = some p → ∃ s, w.structures p = some s ∧ s.transactions = ∅
  injective : ∀ name n p, w.find name = some p → w.find n = some p → name = n
  allocated : ∀ p s, w.structures p = some s → p < w.free
  registered : ∀ p s h, w.structures p = some s → h ∈ s.handles →
    h < w.free ∧ ∀ idx, w.handles h = some idx → idx.structure_ = some p

theorem initial_catalogued : initial.Catalogued where
  agree := by simp [initial, World.find, DbEnv.pairs, DbEnv.empty]
  named := rfl
  live := by simp [initial, World.find]
  injective := by simp [initial, World.find]
  allocated := by simp [initial]
  registered := by simp [initial]

theorem Catalogued.closing (hw : w.Catalogued) (hc : Closing w w') : w'.Catalogued where
  agree := by
    intro name
    rw [hc.find, hc.env]
    exact hw.agree name
  named := by rw [hc.find]; exact hw.named
  live := by
    intro name p hf
    rw [hc.find] at hf
    obtain ⟨s, hs, hempty⟩ := hw.live name p hf
    rcases hc.structures p with ⟨-, hnone⟩ | ⟨t, registered, ht, -, hw'⟩
    · rw [hs] at hnone
      contradiction
    · obtain rfl : s = t := Option.some.inj (hs.symm.trans ht)
      exact ⟨_, hw', hempty⟩
  injective := by
    intro a b p ha hb
    rw [hc.find] at ha hb
    exact hw.injective a b p ha hb
  allocated := by
    intro p s hs
    rcases hc.structures p with ⟨hnone, -⟩ | ⟨t, _, ht, -, -⟩
    · rw [hs] at hnone
      contradiction
    · rw [hc.free]
      exact hw.allocated p t ht
  registered := by
    intro p s h hs hh
    rcases hc.structures p with ⟨hnone, -⟩ | ⟨t, registered, ht, hsub, hw'⟩
    · rw [hs] at hnone
      contradiction
    · obtain rfl : { t with handles := registered } = s := Option.some.inj (hw'.symm.trans hs)
      obtain ⟨hlt, hbelongs⟩ := hw.registered p t h ht (hsub hh)
      refine ⟨by rw [hc.free]; exact hlt, fun idx' hidx' => ?_⟩
      obtain ⟨idx, hidx, hsame⟩ := hc.handles h idx' hidx'
      rw [hsame, hbelongs idx hidx]

/-- A handle has been made at the next free address, and registered with the structure at `p` if it
    belongs to it. -/
theorem Catalogued.withHandle (hw : w.Catalogued) {handles : IndexPtr → Option Index}
    {structures : StructurePtr → Option IndexStructure}
    (hothers : ∀ g, g ≠ w.free → handles g = w.handles g)
    (hregistered : structures = w.structures ∨ ∃ p s, w.structures p = some s ∧
      structures = Function.update w.structures p
        (some { s with handles := Insert.insert w.free s.handles }) ∧
      ∀ idx, handles w.free = some idx → idx.structure_ = some p) :
    { w with handles := handles, structures := structures, free := w.free + 1 }.Catalogued := by
  have hold : ∀ q t h, w.structures q = some t → h ∈ t.handles → h < w.free + 1 ∧
      ∀ idx, handles h = some idx → idx.structure_ = some q := by
    intro q t h ht hh
    obtain ⟨hlt, hbelongs⟩ := hw.registered q t h ht hh
    refine ⟨Nat.lt_succ_of_lt hlt, fun idx hidx => hbelongs idx ?_⟩
    rw [← hothers h hlt.ne, hidx]
  have hnew : ∀ q t, structures q = some t → ∃ s, w.structures q = some s ∧
      t.transactions = s.transactions ∧ ∀ h ∈ t.handles, h < w.free + 1 ∧
        ∀ idx, handles h = some idx → idx.structure_ = some q := by
    intro q t ht
    rcases hregistered with rfl | ⟨p, s, hs, rfl, hbelongs⟩
    · exact ⟨t, ht, rfl, fun h hh => hold q t h ht hh⟩
    · rcases eq_or_ne q p with rfl | hne
      · obtain rfl : { s with handles := Insert.insert w.free s.handles } = t := by simpa using ht
        refine ⟨s, hs, rfl, fun h hh => ?_⟩
        rcases Finset.mem_insert.mp hh with rfl | hh
        · exact ⟨Nat.lt_succ_self _, hbelongs⟩
        · exact hold q s h hs hh
      · rw [Function.update_of_ne hne] at ht
        exact ⟨t, ht, rfl, fun h hh => hold q t h ht hh⟩
  exact {
    agree := hw.agree
    named := hw.named
    live := by
      intro name q hf
      obtain ⟨s, hs, hempty⟩ := hw.live name q hf
      rcases hregistered with rfl | ⟨p, t, ht, rfl, -⟩
      · exact ⟨s, hs, hempty⟩
      · rcases eq_or_ne q p with rfl | hne
        · obtain rfl : s = t := Option.some.inj (hs.symm.trans ht)
          exact ⟨_, Function.update_self .., hempty⟩
        · exact ⟨s, (Function.update_of_ne hne ..).trans hs, hempty⟩
    injective := hw.injective
    allocated := by
      intro q t ht
      obtain ⟨s, hs, -⟩ := hnew q t ht
      exact Nat.lt_succ_of_lt (hw.allocated q s hs)
    registered := by
      intro q t h ht hh
      obtain ⟨-, -, -, hall⟩ := hnew q t ht
      exact hall h hh }

/-! ### The four calls -/

theorem openIndex_catalogued (hw : w.Catalogued) (F : Faults) (name : String) :
    (w.openIndex F name).2.2.Catalogued := by
  by_cases hname : name = ""
  · simp only [openIndex, if_pos hname]
    exact hw
  have hothers : ∀ {value : Option Index} (g : IndexPtr), g ≠ w.free →
      Function.update w.handles w.free value g = w.handles g := fun g hg =>
    Function.update_of_ne hg ..
  rcases hf : w.find name with _ | p
  · -- the handle exists, but it belongs to no structure
    simp only [openIndex, if_neg hname, openHandle, hf]
    exact hw.withHandle hothers (Or.inl rfl)
  obtain ⟨s, hs, -⟩ := hw.live name p hf
  have hregister : ∀ value : Option Index,
      (∀ idx, value = some idx → idx.structure_ = some p) →
      { w with
        handles := Function.update w.handles w.free value
        structures := Function.update w.structures p
          (some { s with handles := Insert.insert w.free s.handles })
        free := w.free + 1 }.Catalogued := by
    intro value hvalue
    refine hw.withHandle hothers (Or.inr ⟨p, s, hs, rfl, fun idx hidx => hvalue idx ?_⟩)
    rwa [Function.update_self] at hidx
  rcases hthrown : F.thrown .dbOpen with _ | e
  · rcases hpairs : w.env.pairs name with _ | pairs
    · have hsome := (hw.agree name).mp (by rw [hf]; rfl)
      rw [hpairs] at hsome
      contradiction
    · simp only [openIndex, if_neg hname, openHandle, hf, setHandle, setStructure, hs, hthrown, hpairs,
        Function.update_idem]
      exact hregister _ (by rintro idx ⟨⟩; rfl)
  · -- the handle is deleted again, but stays registered
    simp only [openIndex, if_neg hname, openHandle, hf, setHandle, setStructure, hs, hthrown,
      Function.update_idem]
    exact hregister none (by simp)

theorem closeIndex_catalogued (hw : w.Catalogued) (F : Faults) (idx : Option IndexPtr) :
    (w.closeIndex F idx).2.2.Catalogued := by
  unfold closeIndex
  split
  · exact hw
  · next h =>
    split
    · exact hw
    · have hclosed := hw.closing
        ((closeHandle_closing F w h).trans (Closing.deleteHandle (w.closeHandle F h).2 h))
      simp only
      split <;> exact hclosed

/-- Both catalogues get the name. -/
theorem Catalogued.create (hw : w.Catalogued) (hname : name ≠ "") (types : List AttributeType) :
    (w.created name types).Catalogued := by
  have hlt : ∀ {n p}, w.find n = some p → p < w.free := by
    intro n p hf
    obtain ⟨s, hs, -⟩ := hw.live n p hf
    exact hw.allocated p s hs
  exact {
    agree := by
      intro n
      rw [created_find, created_pairs]
      split
      · exact iff_of_true rfl rfl
      · exact hw.agree n
    named := by
      rw [created_find, if_neg hname.symm]
      exact hw.named
    live := by
      intro n p hf
      rw [created_find] at hf
      split at hf
      · obtain rfl := Option.some.inj hf
        exact ⟨IndexStructure.new types, Function.update_self .., rfl⟩
      · obtain ⟨s, hs, hempty⟩ := hw.live n p hf
        exact ⟨s, (created_structures types (hlt hf).ne).trans hs, hempty⟩
    injective := insert_injective (fun _ _ hf => (hlt hf).ne) hw.injective
    allocated := by
      intro p s hs
      rcases eq_or_ne p w.free with rfl | hp
      · exact Nat.lt_succ_self _
      · exact Nat.lt_succ_of_lt (hw.allocated p s ((created_structures types hp).symm.trans hs))
    registered := by
      intro p s h hs hh
      rcases eq_or_ne p w.free with rfl | hp
      · obtain rfl : IndexStructure.new types = s := by
          simpa [created, World.insert, setStructure] using hs
        simp [IndexStructure.new] at hh
      · obtain ⟨hlt', hbelongs⟩ :=
          hw.registered p s h ((created_structures types hp).symm.trans hs) hh
        exact ⟨Nat.lt_succ_of_lt hlt', hbelongs⟩ }

/-- `CreateIndex` does nothing or adds a name to both catalogues. -/
theorem createIndex_catalogued (hw : w.Catalogued) (F : Faults) (name : String)
    (types : Option (List AttributeType)) :
    (w.createIndex F name types).2.Catalogued ∧
      ((w.createIndex F name types).1 ≠ some .kOk → (w.createIndex F name types).2 = w) := by
  rcases createIndex_cases F w name types with ⟨code, -, hsame⟩ | ⟨ts, -, hname, -, -, hcreated⟩
  · rw [hsame]
    exact ⟨hw, fun _ => rfl⟩
  · rw [hcreated]
    exact ⟨hw.create hname ts, fun hcode => absurd rfl hcode⟩

/-- When the index is being deleted `dbremove` does not fail, and no handle that is registered with it is
    open or has been deleted: over such a set the loop of `CloseHandles` is defined and does nothing. -/
def Deletable (F : Faults) (w : World) (name : String) : Prop :=
  ∀ p s, w.find name = some p → w.structures p = some s → s.transactions = ∅ →
    F.thrown .dbremove = none ∧
      ∀ h ∈ s.handles, ∃ idx, w.handles h = some idx ∧ idx.closed = true

/-- `IndexManager::Remove` on an entry that is deletable. -/
theorem remove_deletable (hf : w.find name = some p) (hs : w.structures p = some s)
    (hempty : s.transactions = ∅) (hd : Deletable F w name) :
    w.remove F name = (.ret .kOk, { w with
      structures := Function.update w.structures p none
      indices := w.indices.filter (·.1 ≠ name) }) := by
  have hro : s.makeReadOnly.1 = true := IndexStructure.makeReadOnly_fst_eq_true.mpr hempty
  have hclosed : ∀ h ∈ s.handles.sort (· ≤ ·), ∃ idx,
      (w.setStructure p s.makeReadOnly.2).handles h = some idx ∧ idx.closed = true := fun h hh =>
    (hd p s hf hs hempty).2 h ((Finset.mem_sort _).mp hh)
  simp only [remove, hf, hs, hro, if_true, destroyStructure, closeHandles_closed F hclosed]
  simp only [setStructure, Function.update_idem]

/-- An entry, its structure and its database are gone. -/
theorem Catalogued.dropped (hw : w.Catalogued) (hf : w.find name = some p) :
    { w with
      env := { w.env with dbs := w.env.dbs.put name none }
      structures := Function.update w.structures p none
      indices := w.indices.filter (·.1 ≠ name) }.Catalogued := by
  have hfind : ∀ n, ({ w with
      env := { w.env with dbs := w.env.dbs.put name none }
      structures := Function.update w.structures p none
      indices := w.indices.filter (·.1 ≠ name) } : World).find n =
        if n = name then none else w.find n := find_erased rfl
  exact {
    agree := by
      intro n
      rw [hfind]
      by_cases hn : n = name
      · subst hn
        simp [DbEnv.pairs, UndoLog.put]
      · rw [if_neg hn]
        change _ ↔ (Function.update w.env.dbs.store name none n).isSome
        rw [Function.update_of_ne hn]
        exact hw.agree n
    named := by
      rw [hfind]
      split
      · rfl
      · exact hw.named
    live := by
      intro n q hn
      obtain ⟨hne, hfn⟩ := find_of_erased rfl hn
      obtain ⟨t, ht, hte⟩ := hw.live n q hfn
      have hq : q ≠ p := fun hc => hne (hw.injective n name p (hc ▸ hfn) hf)
      exact ⟨t, (Function.update_of_ne hq ..).trans ht, hte⟩
    injective := by
      intro a b q ha hb
      exact hw.injective a b q (find_of_erased rfl ha).2 (find_of_erased rfl hb).2
    allocated := by
      intro q t ht
      rcases eq_or_ne q p with rfl | hne
      · simp at ht
      · exact hw.allocated q t ((Function.update_of_ne hne ..).symm.trans ht)
    registered := by
      intro q t h ht hh
      rcases eq_or_ne q p with rfl | hne
      · simp at ht
      · exact hw.registered q t h ((Function.update_of_ne hne ..).symm.trans ht) hh }

/-- `DeleteIndex` does nothing or takes a name away from both catalogues. -/
theorem deleteIndex_catalogued (hw : w.Catalogued) (hd : Deletable F w name) :
    (w.deleteIndex F name).2.Catalogued ∧
      ((w.deleteIndex F name).1 ≠ some .kOk → (w.deleteIndex F name).2 = w) := by
  by_cases hname : name = ""
  · simp only [deleteIndex, if_pos hname]
    exact ⟨hw, fun _ => trivial⟩
  rcases hf : w.find name with _ | p
  · simp only [deleteIndex, if_neg hname, remove, hf, caught]
    exact ⟨hw, fun _ => trivial⟩
  obtain ⟨s, hs, hempty⟩ := hw.live name p hf
  have hremove := remove_deletable hf hs hempty hd
  have hpairs : (w.env.pairs name).isSome := (hw.agree name).mp (by rw [hf]; rfl)
  have hcall : w.deleteIndex F name = (some .kOk, { w with
      env := { w.env with dbs := w.env.dbs.put name none }
      structures := Function.update w.structures p none
      indices := w.indices.filter (·.1 ≠ name) }) := by
    simp only [deleteIndex, if_neg hname, hremove, (hd p s hf hs hempty).1, hpairs, if_true]
    rfl
  rw [hcall]
  exact ⟨hw.dropped hf, fun hcode => absurd rfl hcode⟩

/-! ### Runs -/

/-- The four calls that work on the catalogues. -/
inductive OnCatalogue : Call → Prop
  | create (name : String) (types : Option (List AttributeType)) : OnCatalogue (.createIndex name types)
  | opening (name : String) : OnCatalogue (.openIndex name)
  | close (idx : Option IndexPtr) : OnCatalogue (.closeIndex idx)
  | delete (name : String) : OnCatalogue (.deleteIndex name)

/-- If the call is the deletion of an index, it does not fail half-way. -/
def NotHalfway (w : World) (c : Faults × Call) : Prop :=
  ∀ name, c.2 = .deleteIndex name → Deletable c.1 w name

/-- Whether the call creates or deletes an index. -/
def Changes : Call → Bool
  | .createIndex .. | .deleteIndex _ => true
  | _ => false

/-- STEP: the four calls keep the catalogues together, and a creation or deletion that fails does
    nothing. -/
theorem perform_catalogued (B : BerkeleyDB) (hw : w.Catalogued) {c : Faults × Call}
    (hcall : OnCatalogue c.2) (hsafe : NotHalfway w c) :
    (faultyCall B w c).2.Catalogued ∧
      (Changes c.2 = true → (faultyCall B w c).1 ≠ some .kOk → (faultyCall B w c).2 = w) := by
  obtain ⟨F, call⟩ := c
  cases hcall with
  | create name types =>
    obtain ⟨hcat, hsame⟩ := createIndex_catalogued hw F name types
    exact ⟨hcat, fun _ => hsame⟩
  | opening name => exact ⟨openIndex_catalogued hw F name, by simp [Changes]⟩
  | close idx => exact ⟨closeIndex_catalogued hw F idx, by simp [Changes]⟩
  | delete name =>
    obtain ⟨hcat, hsame⟩ := deleteIndex_catalogued hw (hsafe name rfl)
    exact ⟨hcat, fun _ => hsame⟩

/-- The map has an entry for a name if and only if the environment has a database of that name. Such an
    index can be opened, and what `CreateIndex` says exists is known to the other two calls. -/
structure Agrees (w : World) : Prop where
  entries : ∀ name, (w.find name).isSome ↔ (w.env.pairs name).isSome
  opens : ∀ name, (w.env.pairs name).isSome → (w.openIndex noFaults name).1 = some .kOk
  known : ∀ name types, (w.createIndex noFaults name types).1 = some .kErrorIndexExists →
    (w.openIndex noFaults name).1 ≠ some .kErrorUnknownIndex ∧
      (w.deleteIndex noFaults name).1 ≠ some .kErrorUnknownIndex

theorem Catalogued.entry (hw : w.Catalogued) (hsome : (w.env.pairs name).isSome) :
    name ≠ "" ∧ ∃ p s pairs, w.find name = some p ∧ w.structures p = some s ∧
      s.transactions = ∅ ∧ w.env.pairs name = some pairs := by
  obtain ⟨p, hf⟩ := Option.isSome_iff_exists.mp ((hw.agree name).mpr hsome)
  obtain ⟨s, hs, hempty⟩ := hw.live name p hf
  obtain ⟨pairs, hpairs⟩ := Option.isSome_iff_exists.mp hsome
  refine ⟨?_, p, s, pairs, hf, hs, hempty, hpairs⟩
  rintro rfl
  rw [hw.named] at hf
  contradiction

theorem Catalogued.opens (hw : w.Catalogued) (hsome : (w.env.pairs name).isSome) :
    (w.openIndex noFaults name).1 = some .kOk := by
  obtain ⟨hname, p, s, pairs, hf, hs, -, hpairs⟩ := hw.entry hsome
  simp only [openIndex, if_neg hname, openHandle, hf, setHandle, setStructure, hs, noFaults_thrown,
    hpairs]

/-- Closing handles does not throw by itself. -/
theorem closeHandles_noFaults (hs : List IndexPtr) : ∀ (w : World) (e : DbException),
    (closeHandles noFaults hs w).1 ≠ .throws e := by
  induction hs with
  | nil => simp [closeHandles]
  | cons h hs ih =>
    intro w e
    have hone : (w.closeHandle noFaults h).1 ≠ .throws e := by
      unfold closeHandle
      simp only [noFaults_thrown, ite_self]
      repeat' split
      all_goals simp
    rw [closeHandles]
    split
    · exact ih _ e
    · exact hone

/-- A deletion that finds the index removes it or does not come back. -/
theorem Catalogued.deletes (hw : w.Catalogued) (hsome : (w.env.pairs name).isSome) :
    (w.deleteIndex noFaults name).1 ≠ some .kErrorUnknownIndex := by
  obtain ⟨hname, p, s, pairs, hf, hs, hempty, hpairs⟩ := hw.entry hsome
  have hro : s.makeReadOnly.1 = true := IndexStructure.makeReadOnly_fst_eq_true.mpr hempty
  have henv := (closeHandles_closing noFaults (s.handles.sort (· ≤ ·))
    (w.setStructure p s.makeReadOnly.2)).env
  have hthrows := closeHandles_noFaults (s.handles.sort (· ≤ ·))
    (w.setStructure p s.makeReadOnly.2)
  rcases hended : closeHandles noFaults (s.handles.sort (· ≤ ·))
    (w.setStructure p s.makeReadOnly.2) with ⟨outcome, v⟩
  rw [hended] at henv hthrows
  rcases outcome with _ | e | _
  · have hpairs' : ∀ indices structures, ({ v with
        indices := indices, structures := structures } : World).env.pairs name = some pairs := by
      intro _ _
      change v.env.pairs name = some pairs
      rw [henv]
      exact hpairs
    simp [deleteIndex, hname, remove, hf, hs, hro, destroyStructure, hended, hpairs']
  · exact absurd rfl (hthrows e)
  · simp [deleteIndex, hname, remove, hf, hs, hro, destroyStructure, hended, caught]

theorem createIndex_exists {types : Option (List AttributeType)}
    (hcode : (w.createIndex noFaults name types).1 = some .kErrorIndexExists) :
    (w.env.pairs name).isSome := by
  rcases hpairs : w.env.pairs name with _ | pairs
  · rcases types with _ | types
    · simp [createIndex] at hcode
    · simp only [createIndex, noFaults_thrown, hpairs] at hcode
      split at hcode <;> simp at hcode
  · rfl

theorem Catalogued.agrees (hw : w.Catalogued) : w.Agrees where
  entries := hw.agree
  opens := fun _ hsome => hw.opens hsome
  known := by
    intro name types hcode
    have hsome := createIndex_exists hcode
    exact ⟨by rw [hw.opens hsome]; simp, hw.deletes hsome⟩

/-- DIVERGES: as long as no deletion of an index fails half-way, the catalogues agree after every call,
    whatever else fails, and a creation or deletion that does not answer kOk has changed nothing. -/
theorem catalogues_agree (B : BerkeleyDB) {calls : List (Faults × Call)}
    (hok : Admissible (fun w c => OnCatalogue c.2 ∧ NotHalfway w c) (faultyCall B) initial calls) :
    let w := (run (faultyCall B) initial calls).2
    w.Agrees ∧ ∀ c : Faults × Call, OnCatalogue c.2 → NotHalfway w c → Changes c.2 = true →
      (faultyCall B w c).1 ≠ some .kOk → (faultyCall B w c).2 = w := by
  intro w
  have hstep : ∀ v (c : Faults × Call), Catalogued v → OnCatalogue c.2 ∧ NotHalfway v c →
      (faultyCall B v c).2.Catalogued := fun v c hv hc => (perform_catalogued B hv hc.1 hc.2).1
  have hw : w.Catalogued := run_keeps hstep initial_catalogued hok
  exact ⟨hw.agrees, fun c hc hsafe => (perform_catalogued B hw hc hsafe).2⟩

/-- The database of "x" cannot be removed. -/
def failingRemove : Faults := fun site => if site = .dbremove then some (.throws .other) else none

/-- After a failing `dbremove` the index exists for `CreateIndex` and is unknown to the others. -/
theorem failing_remove_splits_catalogues :
    let w := (run (faultyCall .plain) initial [(noFaults, .createIndex "x" (some [.kShort])),
      (failingRemove, .deleteIndex "x")]).2
    ¬w.Agrees ∧ (w.createIndex noFaults "x" (some [.kShort])).1 = some .kErrorIndexExists ∧
      (w.openIndex noFaults "x").1 = some .kErrorUnknownIndex ∧
      (w.deleteIndex noFaults "x").1 = some .kErrorUnknownIndex := by
  intro w
  have hanswers : (w.createIndex noFaults "x" (some [.kShort])).1 = some .kErrorIndexExists ∧
      (w.openIndex noFaults "x").1 = some .kErrorUnknownIndex ∧
      (w.deleteIndex noFaults "x").1 = some .kErrorUnknownIndex := by decide +kernel
  exact ⟨fun hagrees => (hagrees.known _ _ hanswers.1).1 hanswers.2.1, hanswers⟩

/-- An index is created, opened, closed and deleted; a creation, an opening and two deletions fail. -/
def catalogueSession : List (Faults × Call) :=
  let full : Faults := fun site => if site = .dbOpen then some (.throws .ENOMEM) else none
  [(noFaults, .createIndex "x" (some [.kShort])), (full, .createIndex "y" (some [.kInt])),
    (noFaults, .openIndex "x"), (noFaults, .closeIndex (some 1)), (noFaults, .deleteIndex "x"),
    (failingRemove, .deleteIndex "x"), (noFaults, .deleteIndex ""), (full, .openIndex "x"),
    (noFaults, .createIndex "y" (some [.kInt, .kVarchar]))]

/-- The session, and a deletion behind it whose `dbremove` would fail, of an unknown index. -/
theorem catalogues_agree_at :
    let ended := run (faultyCall .plain) initial catalogueSession
    ended.1 = [some .kOk, some .kErrorOutOfMemory, some .kOk, some .kOk, some .kOk,
        some .kErrorUnknownIndex, some .kErrorGenericFailure, some .kErrorUnknownIndex, some .kOk] ∧
      ended.2.Agrees ∧ (faultyCall .plain ended.2 (failingRemove, .deleteIndex "x")).1 =
        some .kErrorUnknownIndex ∧
      (faultyCall .plain ended.2 (failingRemove, .deleteIndex "x")).2 = ended.2 := by
  intro ended
  let after (n : Nat) : World := (run (faultyCall .plain) initial (catalogueSession.take n)).2
  have hcomputed : ended.1 = [some .kOk, some .kErrorOutOfMemory, some .kOk, some .kOk, some .kOk,
        some .kErrorUnknownIndex, some .kErrorGenericFailure, some .kErrorUnknownIndex, some .kOk] ∧
      (faultyCall .plain ended.2 (failingRemove, .deleteIndex "x")).1 = some .kErrorUnknownIndex ∧
      ended.2.find "x" = none ∧ registered 0 (after 4) = ∅ ∧ (after 5).find "x" = none ∧
      (after 6).find "" = none := by
    decide +kernel
  obtain ⟨hanswers, hfails, hgone, hnobody, hdeleted, hunnamed⟩ := hcomputed
  have hunknown : ∀ {w : World} {F : Faults} {name : String}, w.find name = none →
      NotHalfway w (F, .deleteIndex name) := by
    rintro w F name hnone _ ⟨⟩ p s hf
    rw [hnone] at hf
    contradiction
  have hok : Admissible (fun w c => OnCatalogue c.2 ∧ NotHalfway w c) (faultyCall .plain) initial
      catalogueSession := by
    refine ⟨⟨.create .., ?_⟩, ⟨.create .., ?_⟩, ⟨.opening .., ?_⟩, ⟨.close .., ?_⟩, ⟨.delete .., ?_⟩,
      ⟨.delete .., hunknown hdeleted⟩, ⟨.delete .., hunknown hunnamed⟩, ⟨.opening .., ?_⟩,
      ⟨.create .., ?_⟩, trivial⟩
    -- the one deletion that goes through: the handle that was registered has been closed
    case refine_5 =>
      rintro _ ⟨⟩ p s hf hs -
      obtain rfl : 0 = p := Option.some.inj hf
      have hempty : s.handles = ∅ := (registered_eq hs).symm.trans hnobody
      exact ⟨rfl, by simp [hempty]⟩
    all_goals rintro name ⟨⟩
  obtain ⟨hagrees, hunchanged⟩ := catalogues_agree .plain hok
  exact ⟨hanswers, hagrees, hfails, hunchanged _ (.delete "x") (hunknown hgone) rfl
    (by rw [hfails]; decide)⟩

end World

end Contest
