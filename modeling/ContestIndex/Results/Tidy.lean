import ContestIndex.Results.Sound

/-! @src example/BDBImpl.cc | name:What holds between any two calls | layer:specification

    `Sound` is lost as soon as a Berkeley DB call fails: handles stay registered, map entries point
    to destroyed structures. What remains, whatever fails, is enough to say with which column types
    the content of a database was stored, and to which columns an abort would take it back.

        handle ─▶ structure  ──if it exists──▶  the one the manager knows under the handle's name
        before-image         ──▶  its database is known, its owner registered there -/

namespace Contest
open Schemes

namespace World
variable {w w' : World} {h : IndexPtr} {o : Opened} {name : String} {p : StructurePtr} {t : TxnPtr}

/-- The structure that the manager finds under a name, if it still exists. -/
def known (w : World) (name : String) : Option IndexStructure := (w.find name).bind w.structures

theorem known_eq_some {s : IndexStructure} :
    w.known name = some s ↔ ∃ p, w.find name = some p ∧ w.structures p = some s :=
  Option.bind_eq_some_iff

structure Tidy (w : World) : Prop where
  allocated : ∀ p, (w.structures p).isSome → p < w.free
  mapped : ∀ name p, w.find name = some p → p < w.free
  held : ∀ h, (w.handles h).isSome → h < w.free
  referred : ∀ h idx p, w.handles h = some idx → idx.structure_ = some p → p < w.free
  iterated : ∀ i it, w.iterators i = some it → it.index < w.free
  named : ∀ h idx p, w.handles h = some idx → idx.structure_ = some p → (w.structures p).isSome →
    w.find idx.name = some p
  stored : ∀ name, (w.known name).isSome → (w.env.pairs name).isSome
  images : ∀ e ∈ w.env.dbs.log, e.2.2.isSome ∧ ∃ s, w.known e.2.1 = some s ∧ e.1 ∈ s.transactions

theorem initial_tidy : initial.Tidy where
  allocated := by simp [initial]
  mapped := by simp [initial, World.find]
  held := by simp [initial]
  referred := by simp [initial]
  iterated := by simp [initial]
  named := by simp [initial]
  stored := by simp [initial, known, World.find]
  images := by simp [initial, DbEnv.empty]

/-- What an open handle works with is what the manager knows under its name. -/
theorem Tidy.opened (hw : w.Tidy) (ho : w.opened h = some o) :
    w.find o.index.name = some o.ptr ∧ w.known o.index.name = some o.s ∧ o.cmp = o.s.dbKeycmp := by
  obtain ⟨hhandle, hstructure, hlive, -, -, q, t, hq, ht, hcmp⟩ := opened_eq_some ho
  have hfound := hw.named h _ _ hhandle hstructure (by rw [hlive]; rfl)
  rw [hfound, Option.some.injEq] at hq
  subst hq
  rw [hlive, Option.some.injEq] at ht
  subst ht
  exact ⟨hfound, known_eq_some.mpr ⟨o.ptr, hfound, hlive⟩, hcmp⟩

/-! ### Calls that change handles -/

/-- The columns of an index and the transactions that are registered. -/
def core (s : IndexStructure) : List AttributeType × Finset TxnPtr := (s.type, s.transactions)

/-- From `w` to `w'` the content, the manager's map, columns and registered transactions stay, and
    no handle appears or moves to another structure. -/
structure OnlyHandles (w w' : World) : Prop where
  env : w'.env = w.env
  indices : w'.indices = w.indices
  iterators : w'.iterators = w.iterators
  free : w'.free = w.free
  structures : ∀ p, (w'.structures p).map core = (w.structures p).map core
  handles : ∀ h idx', w'.handles h = some idx' →
    ∃ idx, w.handles h = some idx ∧ idx'.name = idx.name ∧ idx'.structure_ = idx.structure_

namespace OnlyHandles

theorem refl (w : World) : OnlyHandles w w :=
  ⟨rfl, rfl, rfl, rfl, fun _ => rfl, fun _ idx h => ⟨idx, h, rfl, rfl⟩⟩

theorem trans {u v : World} (huv : OnlyHandles u v) (hvw : OnlyHandles v w) : OnlyHandles u w where
  env := hvw.env.trans huv.env
  indices := hvw.indices.trans huv.indices
  iterators := hvw.iterators.trans huv.iterators
  free := hvw.free.trans huv.free
  structures := fun p => (hvw.structures p).trans (huv.structures p)
  handles := fun h idx'' hidx'' => by
    obtain ⟨idx', hidx', hname', hstructure'⟩ := hvw.handles h idx'' hidx''
    obtain ⟨idx, hidx, hname, hstructure⟩ := huv.handles h idx' hidx'
    exact ⟨idx, hidx, hname'.trans hname, hstructure'.trans hstructure⟩

theorem setHandle {idx idx' : Index} (hidx : w.handles h = some idx) (hname : idx'.name = idx.name)
    (hstructure : idx'.structure_ = idx.structure_) : OnlyHandles w (w.setHandle h idx') where
  env := rfl
  indices := rfl
  iterators := rfl
  free := rfl
  structures := fun _ => rfl
  handles := fun k idx'' hk => by
    rcases eq_or_ne k h with rfl | hne
    · obtain rfl : idx' = idx'' := by simpa [World.setHandle] using hk
      exact ⟨idx, hidx, hname, hstructure⟩
    · exact ⟨idx'', by simpa [World.setHandle, hne] using hk, rfl, rfl⟩

theorem dropHandle (w : World) (h : IndexPtr) :
    OnlyHandles w { w with handles := Function.update w.handles h none } where
  env := rfl
  indices := rfl
  iterators := rfl
  free := rfl
  structures := fun _ => rfl
  handles := fun k idx hk => by
    rcases eq_or_ne k h with rfl | hne
    · simp at hk
    · exact ⟨idx, by simpa [hne] using hk, rfl, rfl⟩

theorem setStructure {s s' : IndexStructure} (hs : w.structures p = some s)
    (hcore : core s' = core s) : OnlyHandles w (w.setStructure p s') where
  env := rfl
  indices := rfl
  iterators := rfl
  free := rfl
  structures := fun q => by
    rcases eq_or_ne q p with rfl | hne
    · simp [World.setStructure, hs, hcore]
    · simp [World.setStructure, hne]
  handles := fun _ idx hidx => ⟨idx, hidx, rfl, rfl⟩

theorem find_eq (hk : OnlyHandles w w') (name : String) : w'.find name = w.find name := by
  rw [World.find, World.find, hk.indices]

theorem isSome_structures (hk : OnlyHandles w w') (p : StructurePtr) :
    (w'.structures p).isSome = (w.structures p).isSome := by
  simpa using congrArg Option.isSome (hk.structures p)

theorem known_core (hk : OnlyHandles w w') (name : String) :
    (w'.known name).map core = (w.known name).map core := by
  rw [World.known, World.known, hk.find_eq]
  cases w.find name with
  | none => rfl
  | some p => exact hk.structures p

end OnlyHandles

theorem Tidy.onlyHandles (hw : w.Tidy) (hk : OnlyHandles w w') : w'.Tidy where
  allocated := fun p hp => by
    rw [hk.isSome_structures] at hp
    rw [hk.free]
    exact hw.allocated p hp
  mapped := fun name p hp => by
    rw [hk.free]
    exact hw.mapped name p (hk.find_eq name ▸ hp)
  held := fun h hh => by
    obtain ⟨idx', hidx'⟩ := Option.isSome_iff_exists.mp hh
    obtain ⟨idx, hidx, -, -⟩ := hk.handles h idx' hidx'
    rw [hk.free]
    exact hw.held h (by rw [hidx]; rfl)
  referred := fun h idx' p hidx' hp => by
    obtain ⟨idx, hidx, -, hstructure⟩ := hk.handles h idx' hidx'
    rw [hk.free]
    exact hw.referred h idx p hidx (hstructure ▸ hp)
  iterated := by rw [hk.iterators, hk.free]; exact hw.iterated
  named := fun h idx' p hidx' hp hlive => by
    obtain ⟨idx, hidx, hname, hstructure⟩ := hk.handles h idx' hidx'
    rw [hk.isSome_structures] at hlive
    rw [hk.find_eq, hname]
    exact hw.named h idx p hidx (hstructure ▸ hp) hlive
  stored := fun name hknown => by
    have hcore := congrArg Option.isSome (hk.known_core name)
    simp only [Option.isSome_map] at hcore
    rw [hk.env]
    exact hw.stored name (hcore ▸ hknown)
  images := fun e he => by
    rw [hk.env] at he
    obtain ⟨himage, s, hs, howner⟩ := hw.images e he
    have hcore := hk.known_core e.2.1
    rw [hs, Option.map_some, Option.map_eq_some_iff] at hcore
    obtain ⟨s', hs', hcore⟩ := hcore
    have htxns : s'.transactions = s.transactions := congrArg Prod.snd hcore
    exact ⟨himage, s', hs', by rw [htxns]; exact howner⟩

theorem closeHandle_only (F : Faults) (w : World) (h : IndexPtr) :
    OnlyHandles w (w.closeHandle F h).2 := by
  unfold closeHandle
  split
  · exact .refl w
  · next idx hidx =>
    split
    · exact .refl w
    · simp only
      split
      · exact .setHandle hidx rfl rfl
      · have hclosed : OnlyHandles w (w.setHandle h { idx with closed := true, db := false }) :=
          .setHandle hidx rfl rfl
        split
        · exact hclosed
        · split
          · exact hclosed
          · next s hs => exact hclosed.trans (.setStructure hs rfl)

theorem closeHandles_only (F : Faults) : ∀ (hs : List IndexPtr) (w : World),
    OnlyHandles w (closeHandles F hs w).2
  | [], w => .refl w
  | h :: hs, w => by
    have hone := closeHandle_only F w h
    unfold closeHandles
    split
    · next heq =>
      rw [heq] at hone
      exact hone.trans (closeHandles_only F hs _)
    · exact hone

theorem closeIndex_only (F : Faults) (w : World) (idx : Option IndexPtr) :
    OnlyHandles w (w.closeIndex F idx).2.2 := by
  unfold closeIndex
  split
  · exact .refl w
  · next h =>
    split
    · exact .refl w
    · have hclosed := (closeHandle_only F w h).trans (.dropHandle _ h)
      simp only
      split <;> exact hclosed

/-! ### The catalogue -/

theorem makeReadOnly_core (s : IndexStructure) : core s.makeReadOnly.2 = core s := by
  rw [IndexStructure.makeReadOnly]
  split <;> rfl

/-- A structure with no registered transaction can be destroyed. -/
theorem Tidy.destroy (hw : w.Tidy) {s : IndexStructure} (hs : w.structures p = some s)
    (hempty : s.transactions = ∅) :
    { w with structures := Function.update w.structures p none }.Tidy := by
  have hlive : ∀ {q}, (Function.update w.structures p none q).isSome → (w.structures q).isSome := by
    intro q hq
    rcases eq_or_ne q p with rfl | hne
    · simp at hq
    · simpa [hne] using hq
  have hknown : ∀ name, (World.known { w with structures := Function.update w.structures p none }
      name).isSome → (w.known name).isSome := by
    intro name hsome
    obtain ⟨s', hs'⟩ := Option.isSome_iff_exists.mp hsome
    obtain ⟨q, hq, hq'⟩ := known_eq_some.mp hs'
    have hq'' := hlive (Option.isSome_iff_exists.mpr ⟨s', hq'⟩)
    obtain ⟨s'', hs''⟩ := Option.isSome_iff_exists.mp hq''
    exact Option.isSome_iff_exists.mpr ⟨s'', known_eq_some.mpr ⟨q, hq, hs''⟩⟩
  exact
    { allocated := fun q hq => hw.allocated q (hlive hq)
      mapped := hw.mapped
      held := hw.held
      referred := hw.referred
      iterated := hw.iterated
      named := fun h idx q hidx hq hsome => hw.named h idx q hidx hq (hlive hsome)
      stored := fun name hsome => hw.stored name (hknown name hsome)
      images := fun e he => by
        obtain ⟨himage, s', hs', howner⟩ := hw.images e he
        obtain ⟨q, hq, hq'⟩ := known_eq_some.mp hs'
        have hne : q ≠ p := by
          rintro rfl
          rw [hs, Option.some.injEq] at hq'
          subst hq'
          simp [hempty] at howner
        exact ⟨himage, s', known_eq_some.mpr ⟨q, hq, by simpa [hne] using hq'⟩, howner⟩ }

/-- An entry whose structure is gone can be erased. -/
theorem Tidy.erase (hw : w.Tidy) (hgone : w.known name = none) :
    { w with indices := w.indices.filter (·.1 ≠ name) }.Tidy := by
  have hfind := @find_erased w { w with indices := w.indices.filter (·.1 ≠ name) } name rfl
  have hknown : ∀ n,
      World.known { w with indices := w.indices.filter (·.1 ≠ name) } n = w.known n := by
    intro n
    rw [World.known, hfind]
    split
    · next hn => rw [hn, hgone]; rfl
    · rfl
  exact
    { allocated := hw.allocated
      mapped := fun n p hp => by
        rw [hfind] at hp
        split at hp
        · contradiction
        · exact hw.mapped n p hp
      held := hw.held
      referred := hw.referred
      iterated := hw.iterated
      named := fun h idx p hidx hp hsome => by
        have hnamed := hw.named h idx p hidx hp hsome
        rw [hfind, if_neg]
        · exact hnamed
        · rintro rfl
          rw [World.known, hnamed, Option.bind_some] at hgone
          rw [hgone] at hsome
          contradiction
      stored := fun n hsome => hw.stored n (hknown n ▸ hsome)
      images := fun e he => by rw [hknown]; exact hw.images e he }

/-- `IndexManager::Remove` does nothing, or it closes handles, destroys the structure, and erases
    the entry if all that went well. -/
theorem remove_cases (F : Faults) (w : World) (name : String) :
    ((w.remove F name).1 ≠ .ret .kOk ∧ (w.remove F name).2 = w) ∨
    ∃ p s v, w.find name = some p ∧ v.structures p = some s ∧ s.transactions = ∅ ∧ OnlyHandles w v ∧
      (((w.remove F name).1 ≠ .ret .kOk ∧
          (w.remove F name).2 = { v with structures := Function.update v.structures p none }) ∨
        ((w.remove F name).1 = .ret .kOk ∧ (w.remove F name).2 =
          { v with
            structures := Function.update v.structures p none
            indices := v.indices.filter (·.1 ≠ name) })) := by
  unfold remove
  split
  · exact Or.inl ⟨by simp, rfl⟩
  · next p hp =>
    split
    · exact Or.inl ⟨by simp, rfl⟩
    · next s hs =>
      split
      · next hempty =>
        have hread : OnlyHandles w (w.setStructure p s.makeReadOnly.2) :=
          .setStructure hs (makeReadOnly_core s)
        have hclosed := hread.trans (closeHandles_only F (s.handles.sort (· ≤ ·)) _)
        have hcore := hclosed.structures p
        rw [hs, Option.map_some, Option.map_eq_some_iff] at hcore
        obtain ⟨s', hs', hcore⟩ := hcore
        have htxns : s'.transactions = ∅ :=
          (congrArg Prod.snd hcore).trans (IndexStructure.makeReadOnly_fst_eq_true.mp hempty)
        refine Or.inr ⟨p, s', _, hp, hs', htxns, hclosed, ?_⟩
        unfold destroyStructure
        rcases closeHandles F _ _ with ⟨_ | _ | _, v⟩
        · exact Or.inr ⟨rfl, rfl⟩
        · exact Or.inl ⟨by simp, rfl⟩
        · exact Or.inl ⟨by simp, rfl⟩
      · exact Or.inl ⟨by simp, rfl⟩

theorem remove_tidy (hw : w.Tidy) (F : Faults) (name : String) : (w.remove F name).2.Tidy ∧
    ((w.remove F name).1 = .ret .kOk → (w.remove F name).2.find name = none) := by
  rcases remove_cases F w name with
    ⟨hcode, hsame⟩ | ⟨p, s, v, hp, hs, hempty, hclosed, ⟨hcode, hdestroyed⟩ | ⟨-, herased⟩⟩
  · rw [hsame]
    exact ⟨hw, fun hok => absurd hok hcode⟩
  · rw [hdestroyed]
    exact ⟨(hw.onlyHandles hclosed).destroy hs hempty, fun hok => absurd hok hcode⟩
  · have hfound : v.find name = some p := (hclosed.find_eq name).trans hp
    have hgone :
        World.known { v with structures := Function.update v.structures p none } name = none :=
      (congrArg (Option.bind · _) hfound).trans (Function.update_self ..)
    rw [herased]
    exact ⟨((hw.onlyHandles hclosed).destroy hs hempty).erase hgone, fun _ => by
      rw [find_erased rfl, if_pos rfl]⟩

/-- Before-images may be dropped, and what the manager does not know may change. -/
theorem Tidy.setEnv (hw : w.Tidy) {env : DbEnv} (hlog : ∀ e ∈ env.dbs.log, e ∈ w.env.dbs.log)
    (hpairs : ∀ name, (w.known name).isSome → (env.pairs name).isSome) : (w.setEnv env).Tidy where
  allocated := hw.allocated
  mapped := hw.mapped
  held := hw.held
  referred := hw.referred
  iterated := hw.iterated
  named := hw.named
  stored := hpairs
  images := fun e he => hw.images e (hlog e he)

theorem deleteIndex_tidy (hw : w.Tidy) (F : Faults) (name : String) :
    (w.deleteIndex F name).2.Tidy := by
  obtain ⟨hremoved, hgone⟩ := remove_tidy hw F name
  rcases deleteIndex_cases F w name with hsame | hended | ⟨v, hv, hdeleted⟩
  · rwa [hsame]
  · rwa [hended]
  · rw [hv] at hremoved hgone
    rw [hdeleted]
    refine hremoved.setEnv (fun _ he => he) fun n hn => ?_
    have hne : n ≠ name := by
      rintro rfl
      rw [World.known, hgone rfl] at hn
      contradiction
    simpa [DbEnv.pairs, hne] using hremoved.stored n hn

section Created
variable (types : List AttributeType)

/-- The other indexes stay as they are. -/
theorem created_known (hw : w.Tidy) {n : String} (hn : n ≠ name) :
    (w.created name types).known n = w.known n := by
  rw [World.known, World.known, created_find, if_neg hn]
  cases hq : w.find n with
  | none => rfl
  | some q => exact created_structures types (hw.mapped n q hq).ne

/-- A name whose database does not exist is not known. -/
theorem Tidy.unknown (hw : w.Tidy) (hnew : w.env.pairs name = none) : w.known name = none := by
  by_contra hknown
  have hstored := hw.stored name (Option.isSome_iff_ne_none.mpr hknown)
  rw [hnew] at hstored
  contradiction

theorem Tidy.create (hw : w.Tidy) (hnew : w.env.pairs name = none) :
    (w.created name types).Tidy where
  allocated := fun q hq => by
    rcases eq_or_ne q w.free with rfl | hne
    · exact Nat.lt_succ_self _
    · rw [created_structures types hne] at hq
      exact Nat.lt_succ_of_lt (hw.allocated q hq)
  mapped := fun n q hq => by
    rw [created_find] at hq
    split at hq
    · obtain rfl := Option.some.inj hq
      exact Nat.lt_succ_self _
    · exact Nat.lt_succ_of_lt (hw.mapped n q hq)
  held := fun h hh => Nat.lt_succ_of_lt (hw.held h hh)
  referred := fun h idx q hidx hq => Nat.lt_succ_of_lt (hw.referred h idx q hidx hq)
  iterated := fun i it hit => Nat.lt_succ_of_lt (hw.iterated i it hit)
  named := fun h idx q hidx hq hlive => by
    rw [created_structures types (hw.referred h idx q hidx hq).ne] at hlive
    have hnamed := hw.named h idx q hidx hq hlive
    rw [created_find, if_neg]
    · exact hnamed
    · rintro rfl
      have hunknown := hw.unknown hnew
      rw [World.known, hnamed, Option.bind_some] at hunknown
      rw [hunknown] at hlive
      contradiction
  stored := fun n hn => by
    rw [created_pairs]
    split
    · rfl
    · next hne => exact hw.stored n (created_known types hw hne ▸ hn)
  images := fun e he => by
    obtain ⟨himage, s, hs, howner⟩ := hw.images e he
    have hne : e.2.1 ≠ name := by
      rintro hname
      rw [hname, hw.unknown hnew] at hs
      contradiction
    exact ⟨himage, s, (created_known types hw hne).trans hs, howner⟩

end Created

theorem createIndex_tidy (hw : w.Tidy) (F : Faults) (name : String)
    (types : Option (List AttributeType)) : (w.createIndex F name types).2.Tidy := by
  rcases createIndex_cases F w name types with ⟨code, -, hsame⟩ | ⟨ts, -, -, -, hpairs, hcreated⟩
  · rw [hsame]
    exact hw
  · rw [hcreated]
    exact hw.create ts hpairs

/-- A new handle for what the manager finds under the name. -/
theorem Tidy.newHandle (hw : w.Tidy) {idx : Index}
    (hidx : ∀ p, idx.structure_ = some p → w.find idx.name = some p) :
    ({ w with free := w.free + 1 }.setHandle w.free idx).Tidy where
  allocated := fun p hp => Nat.lt_succ_of_lt (hw.allocated p hp)
  mapped := fun n p hp => Nat.lt_succ_of_lt (hw.mapped n p hp)
  held := fun h hh => by
    rcases eq_or_ne h w.free with rfl | hne
    · exact Nat.lt_succ_self _
    · exact Nat.lt_succ_of_lt (hw.held h (by simpa [World.setHandle, hne] using hh))
  referred := fun h idx' p hidx' hp => by
    rcases eq_or_ne h w.free with rfl | hne
    · obtain rfl : idx = idx' := by simpa [World.setHandle] using hidx'
      exact Nat.lt_succ_of_lt (hw.mapped _ p (hidx p hp))
    · exact Nat.lt_succ_of_lt
        (hw.referred h idx' p (by simpa [World.setHandle, hne] using hidx') hp)
  iterated := fun i it hit => Nat.lt_succ_of_lt (hw.iterated i it hit)
  named := fun h idx' p hidx' hp hlive => by
    rcases eq_or_ne h w.free with rfl | hne
    · obtain rfl : idx = idx' := by simpa [World.setHandle] using hidx'
      exact hidx p hp
    · exact hw.named h idx' p (by simpa [World.setHandle, hne] using hidx') hp hlive
  stored := hw.stored
  images := hw.images

theorem openHandle_tidy (hw : w.Tidy) (F : Faults) (name : String) :
    (w.openHandle F name).2.2.Tidy := by
  have hnew := @Tidy.newHandle w hw ⟨name, w.find name, false, true⟩ fun p hp => hp
  unfold openHandle
  simp only
  split
  · exact hnew
  · split
    · exact hnew
    · next s hs =>
      have hsame : core { s with handles := Insert.insert w.free s.handles } = core s := rfl
      have hregistered := hnew.onlyHandles (.setStructure hs hsame)
      split
      · exact hregistered
      · split
        · exact hregistered
        · exact hregistered.onlyHandles (.setHandle (Function.update_self ..) rfl rfl)

theorem openIndex_tidy (hw : w.Tidy) (F : Faults) (name : String) :
    (w.openIndex F name).2.2.Tidy := by
  have hopen := openHandle_tidy hw F name
  rcases openIndex_cases F w name with hsame | hended | hdeleted
  · rwa [hsame]
  · rwa [hended]
  · rw [hdeleted]
    exact hopen.onlyHandles (.dropHandle _ _)

/-! ### Iterators -/

section Iterators
variable {F : Faults} {it : Iterator}

theorem closeCursor_index : (it.closeCursor F).2.index = it.index := by
  unfold Iterator.closeCursor
  split
  · rfl
  · split <;> rfl

theorem setEnded_index : (it.setEnded F).2.index = it.index := closeCursor_index

theorem close_index : (it.close F).2.index = it.index := by
  unfold Iterator.close
  split
  · rfl
  · exact closeCursor_index

theorem fetchFailed_index (err : DbError) : (it.fetchFailed F err).2.index = it.index := by
  have hended := @setEnded_index F it
  unfold Iterator.fetchFailed
  generalize it.setEnded F = ended at hended ⊢
  rcases ended with ⟨_ | _ | _, u⟩
  · have hclosed := @close_index F u
    simp only
    split
    · exact hended
    · generalize u.close F = closed at hclosed ⊢
      rcases closed with ⟨_ | _ | _, v⟩ <;> exact hclosed.trans hended
  · exact hended
  · exact hended

theorem onPair_index {s : IndexStructure} {n : Nat} {more : Outcome Bool × Iterator}
    (hmore : more.2.index = it.index) : (it.onPair F s n more).2.index = it.index := by
  unfold Iterator.onPair
  split
  · rfl
  · rfl
  · split
    · have hended := @setEnded_index F it
      generalize it.setEnded F = ended at hended ⊢
      rcases ended with ⟨_ | _ | _, u⟩ <;> exact hended
    · split
      · rfl
      · exact fetchFailed_index _
      · exact hmore

theorem nextLoop_index {s : IndexStructure} : ∀ {rest : List Pair} {n i : Nat} {it : Iterator},
    (Iterator.nextLoop F s n i it rest).2.index = it.index
  | [], _, _, _ => onPair_index (fetchFailed_index _)
  | _ :: _, _, _, _ => onPair_index nextLoop_index

/-- An iterator keeps its handle. -/
theorem next_index {B : BerkeleyDB} {s : IndexStructure} {cmp : Bytes → Bytes → Ordering}
    {pairs : List Pair} : (it.next B F s cmp pairs).2.index = it.index := by
  unfold Iterator.next
  split
  · rfl
  · split
    · rfl
    · exact fetchFailed_index _
    · split
      · simp only
        split
        · exact fetchFailed_index _
        · exact nextLoop_index
      · split
        · exact fetchFailed_index _
        · exact nextLoop_index

end Iterators

theorem Tidy.setIterators (hw : w.Tidy) {iterators : IteratorPtr → Option Iterator} {free : Nat}
    (hfree : w.free ≤ free) (hi : ∀ i it, iterators i = some it → it.index < w.free) :
    { w with iterators := iterators, free := free }.Tidy where
  allocated := fun p hp => (hw.allocated p hp).trans_le hfree
  mapped := fun n p hp => (hw.mapped n p hp).trans_le hfree
  held := fun h hh => (hw.held h hh).trans_le hfree
  referred := fun h idx p hidx hp => (hw.referred h idx p hidx hp).trans_le hfree
  iterated := fun i it hit => (hi i it hit).trans_le hfree
  named := hw.named
  stored := hw.stored
  images := hw.images

/-- Change one iterator, which keeps its handle. -/
theorem Tidy.setIterator (hw : w.Tidy) (i : IteratorPtr) {it : Iterator} (hit : it.index < w.free) :
    (w.setIterator i it).Tidy :=
  hw.setIterators le_rfl fun j it' hj => by
    rcases eq_or_ne j i with rfl | hne
    · obtain rfl : it = it' := by simpa using hj
      exact hit
    · exact hw.iterated j it' (by simpa [hne] using hj)

theorem Tidy.follow {w' : World} (hw' : w'.Tidy) (B : BerkeleyDB) (w : World) (h : IndexPtr)
    (m : Modification) : (w.follow B h m w').Tidy := by
  obtain ⟨g, hfollow⟩ := follow_shifted B w h m w'
  rw [hfollow]
  refine hw'.setIterators le_rfl fun i it' hit' => ?_
  obtain ⟨it, hit, rfl⟩ := shifted_iterators.mp hit'
  exact hw'.iterated i it hit

theorem Tidy.dropIterator (hw : w.Tidy) (i : IteratorPtr) :
    { w with iterators := Function.update w.iterators i none }.Tidy :=
  hw.setIterators le_rfl fun j it' hj => by
    rcases eq_or_ne j i with rfl | hne
    · simp at hj
    · exact hw.iterated j it' (by simpa [hne] using hj)

theorem getRecords_tidy (hw : w.Tidy) (F : Faults) (tx : Option TxnPtr) (idx : Option IndexPtr)
    (minKeys maxKeys : Key) (it : Option (Option IteratorPtr)) :
    (w.getRecords F tx idx minKeys maxKeys it).2.2.Tidy := by
  have hset : ∀ i (old : Iterator), w.iterators i = some old →
      ∀ v, (old.close F).2 = v → (w.setIterator i v).Tidy := by
    rintro i old hold v rfl
    exact hw.setIterator i (close_index.trans_lt (hw.iterated i old hold))
  unfold getRecords
  split
  · exact hw
  · next h =>
    split
    · exact hw
    · next idx hidx =>
      split
      · exact hw
      · split
        · split
          · exact hw
          · split
            · exact hw
            · next o ho =>
              split
              · refine hw.setIterators (Nat.le_succ _) fun j it' hj => ?_
                rcases eq_or_ne j w.free with rfl | hne
                · rw [Function.update_self, Option.some.injEq] at hj
                  rw [← hj]
                  exact hw.held h (by rw [hidx]; rfl)
                · exact hw.iterated j it' (by simpa [hne] using hj)
              · split
                · exact hw
                · split
                  · exact hw
                  · next old hold =>
                    split
                    · next heq => exact hset _ old hold _ (by rw [heq])
                    · next heq => exact hset _ old hold _ (by rw [heq])
        · exact hw
        · exact hw

theorem getNext_tidy (hw : w.Tidy) (B : BerkeleyDB) (F : Faults) (it : Option IteratorPtr) :
    (w.getNext B F it).2.2.Tidy := by
  unfold getNext
  split
  · exact hw
  · split
    · exact hw
    · next i _ it hit =>
      split
      · exact hw
      · split
        · exact hw
        · next o ho =>
          have hset : ∀ v, (it.next B F o.s o.cmp o.pairs).2 = v → (w.setIterator i v).Tidy := by
            rintro v rfl
            exact hw.setIterator i (next_index.trans_lt (hw.iterated i it hit))
          split
          · next heq => split <;> exact hset _ (by rw [heq])
          · next heq => exact hset _ (by rw [heq])
          · next heq => exact hset _ (by rw [heq])
          · next heq => exact hset _ (by rw [heq])

theorem closeIterator_tidy (hw : w.Tidy) (F : Faults) (it : Option IteratorPtr) :
    (w.closeIterator F it).2.2.Tidy := by
  unfold closeIterator
  split
  · exact hw
  · split
    · exact hw
    · next i _ it hit =>
      split
      · exact hw.dropIterator i
      · split
        · exact hw.dropIterator i
        · next heq =>
          exact hw.setIterator i (by
            have hindex := @close_index F it
            rw [heq] at hindex
            exact hindex.trans_lt (hw.iterated i it hit))

end World

end Contest
