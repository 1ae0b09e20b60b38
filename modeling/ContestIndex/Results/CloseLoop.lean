import ContestIndex.Results.Tidy

/-! @src example/Index.cc | name:The loop that closes the handles of a structure | layer:results

    `CloseHandles` walks `handles_` by an iterator. Its body calls `Index::Close`, which calls
    `unregister_handle`, which erases the element under the iterator; then the loop advances it.

        it = begin ──▶ (*it)->Close() ──▶ unregister_handle ──▶ handles_.erase(*it)
                        it++  ◀── not defined any more ───────────┘

    `World.closeHandles` visits the handles that were registered when the loop began. The loop as it is
    written does that as well if it comes to its end, but then it has closed nothing: it comes there
    when no handle of the set is open. -/

namespace Contest
open Schemes

namespace World
variable {F : Faults} {w w' : World} {p : StructurePtr} {s : IndexStructure} {h : IndexPtr}

/-- The loop of `CloseHandles` comes to its end with no undefined step on the way, has visited every
    handle of the set once, and leaves the set empty and the handles closed. -/
def Clears (F : Faults) (w : World) (p : StructurePtr) (s : IndexStructure) : Prop :=
  ∃ n visited w' s', closeHandlesLoop F p n w = .finished visited w' ∧
    visited.Nodup ∧ (∀ h, h ∈ visited ↔ h ∈ s.handles) ∧
    w'.structures p = some s' ∧ s'.handles = ∅ ∧
    ∀ h ∈ s.handles, ∃ idx, w'.handles h = some idx ∧ idx.closed = true

theorem registered_setStructure (w : World) (p : StructurePtr) (s : IndexStructure) :
    registered p (w.setStructure p s) = s.handles := registered_eq (Function.update_self ..)

/-- `Index::Close` erases the handle it closes from one set, and changes no other structure. -/
theorem closeHandle_registered (F : Faults) (w : World) (h : IndexPtr) (p : StructurePtr) :
    registered p (w.closeHandle F h).2 = registered p w ∨
      registered p (w.closeHandle F h).2 = (registered p w).erase h := by
  unfold closeHandle
  split
  · exact Or.inl rfl
  · split
    · exact Or.inl rfl
    · simp only
      split
      · exact Or.inl rfl
      · split
        · exact Or.inl rfl
        · next q _ =>
          split
          · exact Or.inl rfl
          · next s hs =>
            rcases eq_or_ne p q with rfl | hne
            · right
              rw [registered_setStructure]
              exact congrArg (Finset.erase · h) (registered_eq hs).symm
            · left
              simp only [registered, setStructure, Function.update_of_ne hne]
              rfl

theorem closeHandlesBody_snd (F : Faults) (w : World) (h : IndexPtr) :
    (closeHandlesBody F w h).2 = (w.closeHandle F h).2 := by
  rw [closeHandlesBody]
  split <;> next heq => rw [heq]

/-- What the loop does to the set it walks. -/
theorem closeHandlesBody_erasesOwn (F : Faults) (p : StructurePtr) :
    ErasesOwn (registered p) (closeHandlesBody F) := by
  intro w h
  rw [closeHandlesBody_snd]
  exact closeHandle_registered F w h p

/-- A visit is one step of `closeHandles`. -/
theorem closeHandles_of_visits {hs : List IndexPtr} (hv : Visits (closeHandlesBody F) hs w w') :
    closeHandles F hs w = (.ret (), w') := by
  induction hv with
  | nil w => rfl
  | @cons h hs w v w' hstep _ ih =>
    rw [closeHandlesBody] at hstep
    rw [closeHandles]
    rcases hclose : w.closeHandle F h with ⟨_ | _ | _, u⟩
    · rw [hclose] at hstep
      obtain ⟨-, rfl⟩ := Prod.mk.inj hstep
      exact ih
    · simp [hclose] at hstep
    · simp [hclose] at hstep

/-- Where the loop is defined to its end, it is `closeHandles`, and the set is as it was. -/
theorem closeHandlesLoop_finished {n : Nat} {visited : List IndexPtr}
    (hs : w.structures p = some s) (h : closeHandlesLoop F p n w = .finished visited w') :
    visited = s.handles.sort (· ≤ ·) ∧ closeHandles F visited w = (.ret (), w') ∧
      registered p w' = s.handles := by
  obtain ⟨hvisited, hend, hvisits⟩ := (closeHandlesBody_erasesOwn F p).walk_finished h
  rw [registered_eq hs] at hvisited hend
  exact ⟨hvisited, closeHandles_of_visits hvisits, hend⟩

/-- Over handles that have been closed before it is defined to its end, and both do nothing. -/
theorem closeHandlesLoop_closed (F : Faults) (hs : w.structures p = some s)
    (hclosed : ∀ h ∈ s.handles, ∃ idx, w.handles h = some idx ∧ idx.closed = true) :
    ∃ n, closeHandlesLoop F p n w = .finished (s.handles.sort (· ≤ ·)) w ∧
      closeHandles F (s.handles.sort (· ≤ ·)) w = (.ret (), w) := by
  have hidle : ∀ h ∈ registered p w, closeHandlesBody F w h = (.goesOn, w) := by
    intro h hh
    rw [registered_eq hs] at hh
    obtain ⟨idx, hidx, hdone⟩ := hclosed h hh
    simp [closeHandlesBody, closeHandle, hidx, hdone]
  have hwalk : closeHandlesLoop F p _ w = .finished _ w :=
    setWalk_idle hidle (fun h hh => setBegin_mem hh) le_rfl
  rw [ahead_begin, registered_eq hs] at hwalk
  exact ⟨_, hwalk, (closeHandlesLoop_finished hs hwalk).2.1⟩

theorem Clears.empty (hs : w.structures p = some s) (hclears : Clears F w p s) : s.handles = ∅ := by
  obtain ⟨n, visited, w', s', hloop, -, -, hs', hempty, -⟩ := hclears
  obtain ⟨-, -, hsame⟩ := closeHandlesLoop_finished hs hloop
  rw [← hsame, registered_eq hs', hempty]

/-- DIVERGES: the loop does its work on the empty set and on no other one. -/
theorem close_loop_clears_iff (F : Faults) (hs : w.structures p = some s) :
    Clears F w p s ↔ s.handles = ∅ := by
  refine ⟨Clears.empty hs, fun hempty => ?_⟩
  have hbegin : closeHandlesLoop F p 0 w = .finished [] w := by
    rw [closeHandlesLoop, registered_eq hs, hempty, setBegin, Finset.sort_empty]
    rfl
  exact ⟨0, [], w, s, hbegin, List.nodup_nil, by simp [hempty], hs, hempty, by simp [hempty]⟩

/-- A structure without handles. -/
theorem close_loop_clears_iff_at :
    Clears noFaults (initial.createIndex noFaults "x" (some [.kShort])).2 0
      (IndexStructure.new [.kShort]) :=
  (close_loop_clears_iff noFaults rfl).mpr rfl

/-- On a set of open handles the first step forward is undefined, unless the first close throws. -/
theorem closeHandlesLoop_open {n : Nat} (hs : w.structures p = some s) (hne : s.handles.Nonempty)
    (hopen : ∀ h ∈ s.handles, ∃ idx, w.handles h = some idx ∧ idx.closed = false ∧
      idx.structure_ = some p ∧ (idx.db = true → F.thrown (.dbClose h) = none)) :
    ∃ h ∈ s.handles, closeHandlesLoop F p (n + 1) w = .undefined (w.closeHandle F h).2 := by
  rcases hfirst : setBegin s.handles with _ | h
  · have hcard := congrArg List.length (List.head?_eq_none_iff.mp hfirst)
    rw [Finset.length_sort, List.length_nil, Finset.card_eq_zero] at hcard
    exact absurd hcard hne.ne_empty
  have hmem := setBegin_mem hfirst
  obtain ⟨idx, hidx, hnotClosed, hp, hthrown⟩ := hopen h hmem
  have hclose := closeHandle_open hidx hnotClosed hp hs hthrown
  refine ⟨h, hmem, ?_⟩
  rw [closeHandlesLoop, registered_eq hs, hfirst]
  refine setWalk_erased (by rw [registered_eq hs]; exact hmem) ?_ ?_
  · rw [closeHandlesBody, hclose]
  · rw [hclose, registered_setStructure]
    exact Finset.notMem_erase h s.handles

/-- One open handle: `it++` on the erased element. -/
theorem close_loop_advances_erased :
    let w := single [.kShort] []
    closeHandlesLoop noFaults 0 1 w = .undefined (w.closeHandle noFaults 1).2 ∧
      ¬Clears noFaults w 0 { IndexStructure.new [.kShort] with handles := {1} } := by
  intro w
  have hopen : ∃ h ∈ ({1} : Finset IndexPtr),
      closeHandlesLoop noFaults 0 1 w = .undefined (w.closeHandle noFaults h).2 := by
    refine @closeHandlesLoop_open _ w 0 { IndexStructure.new [.kShort] with handles := {1} } 0 rfl
      (Finset.singleton_nonempty 1) fun h hh => ?_
    obtain rfl := Finset.mem_singleton.mp hh
    exact ⟨_, rfl, rfl, rfl, fun _ => rfl⟩
  obtain ⟨h, hh, hloop⟩ := hopen
  obtain rfl := Finset.mem_singleton.mp hh
  exact ⟨hloop, fun hclears => absurd (hclears.empty rfl) (Finset.singleton_ne_empty 1)⟩

end World

end Contest
