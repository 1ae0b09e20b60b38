import Mathlib.Logic.Function.Basic
import Mathlib.Data.List.Forall2
import Mathlib.Data.List.Nodup
import Mathlib.Tactic.Common

/-! @scheme undo-log | name:Nested transactions over a store | layer:library

    A store that is written in place. Every write under a transaction leaves a before-image in a
    log; committing a child hands its before-images to the parent, committing a top-level
    transaction forgets them, and aborting puts them back, newest first. A transaction that is
    resolved resolves its unresolved descendants with it.

    Main rule: whatever a transaction and its children wrote, and however the children ended,
    aborting it restores the store it began with (`Inside.abort_store`).

        begin a ──▶ write a ──▶ begin k (child) ──▶ write k ──▶ commit k ──▶ … ──▶ abort a
        store₀                                                                     store₀  -/

namespace Schemes

/-- A store, the unresolved transactions with their parents (newest first) and the before-images
    their writes left behind (newest first). -/
structure UndoLog (ι χ : Type) where
  store : ι → χ
  live : List (Nat × Option Nat)
  log : List (Nat × ι × χ)

namespace UndoLog
variable {ι χ : Type}

/-- The ids of the unresolved transactions. -/
def ids (t : UndoLog ι χ) : List Nat := t.live.map (·.1)

def parentOf (t : UndoLog ι χ) (a : Nat) : Option Nat := (t.live.find? (·.1 = a)).bind (·.2)

/-- The transaction `a` and its unresolved descendants. -/
def family (live : List (Nat × Option Nat)) (a : Nat) : List Nat :=
  live.foldr (fun e fam => if ∃ p ∈ fam, e.2 = some p then e.1 :: fam else fam) [a]

/-- Begin the transaction `a`, as a child when a parent is given. -/
def begin (t : UndoLog ι χ) (a : Nat) (parent : Option Nat) : UndoLog ι χ :=
  { t with live := (a, parent) :: t.live }

/-- The unresolved transactions outside the family of `a`. -/
def others (t : UndoLog ι χ) (a : Nat) : List (Nat × Option Nat) :=
  t.live.filter fun e => e.1 ∉ family t.live a

def commit (t : UndoLog ι χ) (a : Nat) : UndoLog ι χ :=
  { store := t.store
    live := t.others a
    log := match t.parentOf a with
      | some p => t.log.map fun e => (if e.1 ∈ family t.live a then p else e.1, e.2)
      | none => t.log.filter fun e => e.1 ∉ family t.live a }

@[simp] theorem begin_store (t : UndoLog ι χ) (a p) : (t.begin a p).store = t.store := rfl
@[simp] theorem begin_live (t : UndoLog ι χ) (a p) : (t.begin a p).live = (a, p) :: t.live := rfl
@[simp] theorem begin_ids (t : UndoLog ι χ) (a p) : (t.begin a p).ids = a :: t.ids := rfl
@[simp] theorem commit_live (t : UndoLog ι χ) (a) : (t.commit a).live = t.others a := rfl

section Store
variable [DecidableEq ι]

/-- Put back the before-images of the transactions in `mine`. -/
def undo (mine : Nat → Bool) : List (Nat × ι × χ) → (ι → χ) → ι → χ
  | [], s => s
  | (a, i, v) :: log, s => undo mine log (if mine a then Function.update s i v else s)

/-- Write under the transaction `a`. -/
def write (t : UndoLog ι χ) (a : Nat) (i : ι) (v : χ) : UndoLog ι χ :=
  { t with store := Function.update t.store i v, log := (a, i, t.store i) :: t.log }

/-- Write outside of every transaction. -/
def put (t : UndoLog ι χ) (i : ι) (v : χ) : UndoLog ι χ :=
  { t with store := Function.update t.store i v }

def abort (t : UndoLog ι χ) (a : Nat) : UndoLog ι χ :=
  { store := undo (· ∈ family t.live a) t.log t.store
    live := t.others a
    log := t.log.filter fun e => e.1 ∉ family t.live a }

@[simp] theorem write_store (t : UndoLog ι χ) (a i v) :
    (t.write a i v).store = Function.update t.store i v := rfl
@[simp] theorem write_log (t : UndoLog ι χ) (a i v) :
    (t.write a i v).log = (a, i, t.store i) :: t.log := rfl
@[simp] theorem put_store (t : UndoLog ι χ) (i v) :
    (t.put i v).store = Function.update t.store i v := rfl
@[simp] theorem abort_live (t : UndoLog ι χ) (a) : (t.abort a).live = t.others a := rfl

theorem undo_append (mine : Nat → Bool) : ∀ (l r : List (Nat × ι × χ)) (s : ι → χ),
    undo mine (l ++ r) s = undo mine r (undo mine l s)
  | [], _, _ => rfl
  | (a, i, v) :: l, r, s => by rw [List.cons_append, undo, undo, undo_append mine l r]

theorem undo_none {mine : Nat → Bool} : ∀ {l : List (Nat × ι × χ)} {s : ι → χ},
    (∀ e ∈ l, mine e.1 = false) → undo mine l s = s
  | [], _, _ => rfl
  | (a, i, v) :: l, s, h => by
    have ha : mine a = false := h (a, i, v) List.mem_cons_self
    rw [undo, ha, if_neg (by simp)]
    exact undo_none fun e he => h e (List.mem_cons_of_mem _ he)

theorem undo_congr {mine other : Nat → Bool} : ∀ {l : List (Nat × ι × χ)} {s : ι → χ},
    (∀ e ∈ l, mine e.1 = other e.1) → undo mine l s = undo other l s
  | [], _, _ => rfl
  | (a, i, v) :: l, s, h => by
    have ha : mine a = other a := h (a, i, v) List.mem_cons_self
    rw [undo, undo, ha]
    exact undo_congr fun e he => h e (List.mem_cons_of_mem _ he)

/-- Undoing everything does not look at who wrote. -/
theorem undo_all_relabel (f : Nat → Nat) : ∀ (l : List (Nat × ι × χ)) (s : ι → χ),
    undo (fun _ => true) (l.map fun e => (f e.1, e.2)) s = undo (fun _ => true) l s
  | [], _ => rfl
  | (a, i, v) :: l, s => by
    simp only [List.map_cons, undo, if_true]
    exact undo_all_relabel f l _

end Store

/-! ### The family of a transaction -/

/-- A transaction that nobody has as parent is its whole family. -/
theorem family_of_childless {a : Nat} : ∀ {live : List (Nat × Option Nat)},
    (∀ e ∈ live, e.2 ≠ some a) → family live a = [a]
  | [], _ => rfl
  | e :: live, h => by
    have ih := family_of_childless fun x hx => h x (List.mem_cons_of_mem _ hx)
    have he := h e List.mem_cons_self
    simp only [family, List.foldr_cons] at ih ⊢
    rw [ih, if_neg (by simpa using he)]

theorem self_mem_family (live : List (Nat × Option Nat)) (a : Nat) : a ∈ family live a := by
  induction live with
  | nil => simp [family]
  | cons e live ih =>
    simp only [family, List.foldr_cons] at ih ⊢
    split
    · exact List.mem_cons_of_mem _ ih
    · exact ih

/-- Children begun after their parent are the rest of its family. -/
theorem family_of_children {a : Nat} {rest : List (Nat × Option Nat)}
    (hr : ∀ e ∈ rest, e.2 ≠ some a) : ∀ {kids : List (Nat × Option Nat)},
    (∀ e ∈ kids, e.2 = some a) → family (kids ++ rest) a = kids.map (·.1) ++ [a]
  | [], _ => family_of_childless hr
  | e :: kids, h => by
    have ih := family_of_children hr fun x hx => h x (List.mem_cons_of_mem _ hx)
    have he := h e List.mem_cons_self
    simp only [family, List.cons_append, List.foldr_cons, List.map_cons] at ih ⊢
    rw [ih, if_pos ⟨a, by simp, he⟩]

/-- Every parent occurs further down, that is, began earlier. -/
def Older : List (Nat × Option Nat) → Prop
  | [] => True
  | e :: live => (∀ p ∈ e.2, p ∈ live.map (·.1)) ∧ Older live

theorem Older.tail : ∀ {pre live : List (Nat × Option Nat)}, Older (pre ++ live) → Older live
  | [], _, h => h
  | _ :: _, _, h => Older.tail h.2

theorem Older.known : ∀ {live : List (Nat × Option Nat)}, Older live →
    ∀ e ∈ live, ∀ p ∈ e.2, p ∈ live.map (·.1)
  | f :: live, h, e, he, p, hp => by
    rcases List.mem_cons.mp he with rfl | he
    · exact List.mem_cons_of_mem _ (h.1 p hp)
    · exact List.mem_cons_of_mem _ (h.2.known e he p hp)

/-- From a transaction on, nobody is its child. -/
theorem Older.childless {a : Nat} {q : Option Nat} {live : List (Nat × Option Nat)}
    (h : Older ((a, q) :: live)) (ha : a ∉ live.map (·.1)) : ∀ e ∈ (a, q) :: live, e.2 ≠ some a := by
  intro e he hea
  rcases List.mem_cons.mp he with rfl | he
  · exact ha (h.1 a (by simpa using hea))
  · exact ha (h.2.known e he a (by simp [hea]))

/-- A family contains the children of its members. -/
theorem family_closed {a : Nat} : ∀ {live : List (Nat × Option Nat)}, Older live →
    (live.map (·.1)).Nodup → ∀ e ∈ live, ∀ p ∈ e.2, p ∈ family live a → e.1 ∈ family live a
  | f :: live, ho, hn, e, he, p, hp, hpf => by
    obtain ⟨hf, hn⟩ := List.nodup_cons.mp hn
    have ih := @family_closed a live ho.2 hn
    simp only [family, List.foldr_cons] at hpf ih ⊢
    rcases List.mem_cons.mp he with rfl | he
    · have hpe : p ≠ e.1 := by rintro rfl; exact hf (ho.1 _ hp)
      by_cases hc : ∃ p ∈ family live a, e.2 = some p
      · simp only [family] at hc; rw [if_pos hc]; exact List.mem_cons_self
      · simp only [family] at hc
        rw [if_neg hc] at hpf
        exact absurd ⟨p, hpf, by simpa using hp⟩ hc
    · have hpl : p ∈ live.map (·.1) := ho.2.known e he p hp
      have hpne : p ≠ f.1 := by rintro rfl; exact hf hpl
      by_cases hc : ∃ p ∈ family live a, f.2 = some p
      · simp only [family] at hc
        rw [if_pos hc] at hpf ⊢
        exact List.mem_cons_of_mem _ (ih e he p hp ((List.mem_cons.mp hpf).resolve_left hpne))
      · simp only [family] at hc
        rw [if_neg hc] at hpf ⊢
        exact ih e he p hp hpf

/-- A family consists of its root and of transactions that began after it. -/
theorem mem_family_newer {a : Nat} {rest : List (Nat × Option Nat)}
    (hr : ∀ e ∈ rest, e.2 ≠ some a) : ∀ {pre : List (Nat × Option Nat)} {x : Nat},
    x ∈ family (pre ++ rest) a → x = a ∨ x ∈ pre.map (·.1)
  | [], x, h => by
    rw [List.nil_append, family_of_childless hr] at h
    exact Or.inl (by simpa using h)
  | e :: pre, x, h => by
    simp only [family, List.cons_append, List.foldr_cons] at h
    have ih : x ∈ family (pre ++ rest) a → x = a ∨ x ∈ (e :: pre).map (·.1) := fun hx =>
      (mem_family_newer hr hx).imp_right (List.mem_cons_of_mem _)
    split at h
    · rcases List.mem_cons.mp h with rfl | h
      · exact Or.inr List.mem_cons_self
      · exact ih h
    · exact ih h

theorem Older.filter {fam : List Nat} : ∀ {live : List (Nat × Option Nat)}, Older live →
    (∀ e ∈ live, ∀ p ∈ e.2, p ∈ fam → e.1 ∈ fam) → Older (live.filter fun e => e.1 ∉ fam)
  | [], _, _ => trivial
  | e :: live, ho, hc => by
    have ih := ho.2.filter fun f hf => hc f (List.mem_cons_of_mem _ hf)
    by_cases he : e.1 ∈ fam
    · rw [List.filter_cons_of_neg (by simpa using he)]; exact ih
    · rw [List.filter_cons_of_pos (by simpa using he)]
      refine ⟨fun p hp => ?_, ih⟩
      obtain ⟨f, hf, rfl⟩ := List.mem_map.mp (ho.1 p hp)
      refine List.mem_map.mpr ⟨f, List.mem_filter.mpr ⟨hf, ?_⟩, rfl⟩
      simpa using fun hfam => he (hc e List.mem_cons_self f.1 hp hfam)

/-- Parents are unresolved and older, ids are unique, and only unresolved transactions have
    before-images. -/
structure Wf (t : UndoLog ι χ) : Prop where
  older : Older t.live
  nodup : t.ids.Nodup
  owners : ∀ e ∈ t.log, e.1 ∈ t.ids

theorem begin_wf {t : UndoLog ι χ} (h : t.Wf) {a : Nat} {parent : Option Nat} (ha : a ∉ t.ids)
    (hp : ∀ p ∈ parent, p ∈ t.ids) : (t.begin a parent).Wf where
  older := ⟨hp, h.older⟩
  nodup := List.nodup_cons.mpr ⟨ha, h.nodup⟩
  owners := fun e he => List.mem_cons_of_mem _ (h.owners e he)

theorem write_wf [DecidableEq ι] {t : UndoLog ι χ} (h : t.Wf) {a : Nat} (ha : a ∈ t.ids) (i : ι)
    (v : χ) : (t.write a i v).Wf where
  older := h.older
  nodup := h.nodup
  owners := by
    intro e he
    rcases List.mem_cons.mp he with rfl | he
    · exact ha
    · exact h.owners e he

theorem put_wf [DecidableEq ι] {t : UndoLog ι χ} (h : t.Wf) (i : ι) (v : χ) : (t.put i v).Wf :=
  ⟨h.older, h.nodup, h.owners⟩

theorem mem_others {t : UndoLog ι χ} {a x : Nat} :
    x ∈ (t.others a).map (·.1) ↔ x ∈ t.ids ∧ x ∉ family t.live a := by
  simp only [others, ids, List.mem_map, List.mem_filter, decide_eq_true_eq]
  constructor
  · rintro ⟨e, ⟨he, hf⟩, rfl⟩
    exact ⟨⟨e, he, rfl⟩, hf⟩
  · rintro ⟨⟨e, he, rfl⟩, hf⟩
    exact ⟨e, ⟨he, hf⟩, rfl⟩

/-- A resolved transaction is not among the unresolved ones. -/
theorem not_mem_others (t : UndoLog ι χ) (a : Nat) : a ∉ (t.others a).map (·.1) := fun h =>
  (mem_others.mp h).2 (self_mem_family t.live a)

theorem Wf.others_older {t : UndoLog ι χ} (h : t.Wf) (a : Nat) : Older (t.others a) :=
  h.older.filter (family_closed h.older h.nodup)

theorem Wf.others_nodup {t : UndoLog ι χ} (h : t.Wf) (a : Nat) : ((t.others a).map (·.1)).Nodup :=
  h.nodup.sublist (List.filter_sublist.map _)

theorem abort_wf [DecidableEq ι] {t : UndoLog ι χ} (h : t.Wf) (a : Nat) : (t.abort a).Wf where
  older := h.others_older a
  nodup := h.others_nodup a
  owners := by
    intro e he
    obtain ⟨hl, hf⟩ := List.mem_filter.mp he
    exact mem_others.mpr ⟨h.owners e hl, by simpa using hf⟩

/-- The parent of an unresolved transaction outlives its family. -/
theorem Wf.parent_mem_others {t : UndoLog ι χ} (h : t.Wf) {a p : Nat} (hp : t.parentOf a = some p) :
    p ∈ (t.others a).map (·.1) := by
  obtain ⟨e, hfind, hep⟩ := Option.bind_eq_some_iff.mp hp
  have hea : e.1 = a := by simpa using List.find?_some hfind
  subst hea
  obtain ⟨pre, post, hlive⟩ := List.append_of_mem (List.mem_of_find?_eq_some hfind)
  have ho : Older (e :: post) := Older.tail (hlive ▸ h.older)
  have hn : (pre.map (·.1) ++ e.1 :: post.map (·.1)).Nodup := by
    have hn := h.nodup; rw [ids, hlive] at hn; simpa using hn
  have hpost : p ∈ post.map (·.1) := ho.1 p (by simpa using hep)
  obtain ⟨-, hn2, hdisj⟩ := List.nodup_append.mp hn
  refine mem_others.mpr ⟨by rw [ids, hlive]; simp only [List.map_append, List.map_cons,
    List.mem_append, List.mem_cons]; exact Or.inr (Or.inr hpost), fun hfam => ?_⟩
  rw [hlive] at hfam
  rcases mem_family_newer (ho.childless (List.nodup_cons.mp hn2).1) hfam with rfl | hpre
  · exact (List.nodup_cons.mp hn2).1 hpost
  · exact hdisj p hpre p (List.mem_cons_of_mem _ hpost) rfl

theorem commit_wf {t : UndoLog ι χ} (h : t.Wf) (a : Nat) : (t.commit a).Wf where
  older := h.others_older a
  nodup := h.others_nodup a
  owners := by
    intro e he
    change e.1 ∈ (t.others a).map (·.1)
    simp only [commit] at he
    cases hp : t.parentOf a with
    | none =>
      simp only [hp] at he
      obtain ⟨hl, hf⟩ := List.mem_filter.mp he
      exact mem_others.mpr ⟨h.owners e hl, by simpa using hf⟩
    | some p =>
      simp only [hp] at he
      obtain ⟨f, hl, rfl⟩ := List.mem_map.mp he
      by_cases hf : f.1 ∈ family t.live a
      · simpa only [if_pos hf] using h.parent_mem_others hp
      · simpa only [if_neg hf] using mem_others.mpr ⟨h.owners f hl, hf⟩

/-! ### Work inside one transaction -/

section Inside
variable [DecidableEq ι]

/-- `t` is what became of `t₀` by beginning `a` and working under `a` and its children `kids` only;
    `new` are the before-images of that work. -/
structure InsideBy (t₀ t : UndoLog ι χ) (a : Nat) (kids : List (Nat × Option Nat))
    (new : List (Nat × ι × χ)) : Prop where
  wf : t₀.Wf
  live : t.live = kids ++ (a, none) :: t₀.live
  parent : ∀ e ∈ kids, e.2 = some a
  nodup : (kids.map (·.1) ++ a :: t₀.ids).Nodup
  log : t.log = new ++ t₀.log
  owners : ∀ e ∈ new, e.1 ∈ kids.map (·.1) ++ [a]
  store : undo (fun _ => true) new t.store = t₀.store

def Inside (t₀ t : UndoLog ι χ) (a : Nat) : Prop := ∃ kids new, InsideBy t₀ t a kids new

namespace InsideBy
variable {t₀ t : UndoLog ι χ} {a : Nat} {kids : List (Nat × Option Nat)} {new : List (Nat × ι × χ)}

theorem root_fresh (h : InsideBy t₀ t a kids new) : a ∉ t₀.ids :=
  (List.nodup_cons.mp (List.nodup_append.mp h.nodup).2.1).1

theorem ids_eq (h : InsideBy t₀ t a kids new) : t.ids = kids.map (·.1) ++ a :: t₀.ids := by
  rw [ids, h.live]; simp [ids]

theorem rest_childless (h : InsideBy t₀ t a kids new) : ∀ e ∈ (a, none) :: t₀.live, e.2 ≠ some a :=
  Older.childless ⟨by simp, h.wf.older⟩ h.root_fresh

theorem family_eq (h : InsideBy t₀ t a kids new) : family t.live a = kids.map (·.1) ++ [a] := by
  rw [h.live, family_of_children h.rest_childless h.parent]

/-- Members of the family are not among the transactions that were there before. -/
theorem not_mem_before (h : InsideBy t₀ t a kids new) {x : Nat} (hx : x ∈ kids.map (·.1) ++ [a]) :
    x ∉ t₀.ids := by
  intro hx₀
  obtain ⟨-, -, hdisj⟩ := List.nodup_append.mp h.nodup
  rcases List.mem_append.mp hx with hk | ha
  · exact hdisj x hk x (List.mem_cons_of_mem _ hx₀) rfl
  · exact h.root_fresh ((List.mem_singleton.mp ha) ▸ hx₀)

theorem family_not_before (h : InsideBy t₀ t a kids new) :
    ∀ e ∈ t₀.log, decide (e.1 ∈ family t.live a) = false := by
  intro e he
  rw [h.family_eq, decide_eq_false_iff_not]
  exact fun hf => h.not_mem_before hf (h.wf.owners e he)

/-- Outside the family nothing has begun. -/
theorem others_eq (h : InsideBy t₀ t a kids new) : t.others a = t₀.live := by
  have hkids : kids.filter (fun e => e.1 ∉ family t.live a) = [] := by
    refine List.filter_eq_nil_iff.mpr fun e he hout => of_decide_eq_true hout ?_
    rw [h.family_eq]
    exact List.mem_append_left _ (List.mem_map_of_mem he)
  have hbefore : t₀.live.filter (fun e => e.1 ∉ family t.live a) = t₀.live := by
    refine List.filter_eq_self.mpr fun e he => decide_eq_true fun hin => ?_
    rw [h.family_eq] at hin
    exact h.not_mem_before hin (List.mem_map_of_mem he)
  have hroot : ((a, none) :: t₀.live).filter (fun e => e.1 ∉ family t.live a) = t₀.live := by
    rw [List.filter_cons_of_neg (by simpa using self_mem_family t.live a), hbefore]
  calc t.others a
      = (kids ++ (a, none) :: t₀.live).filter (fun e => e.1 ∉ family t.live a) :=
        congrArg (List.filter _) h.live
    _ = t₀.live := by rw [List.filter_append, hkids, hroot, List.nil_append]

/-- What the family has left in the log is the new part of it. -/
theorem log_outside (h : InsideBy t₀ t a kids new) :
    t.log.filter (fun e => e.1 ∉ family t.live a) = t₀.log := by
  have hnew : new.filter (fun e => e.1 ∉ family t.live a) = [] := by
    refine List.filter_eq_nil_iff.mpr fun e he hout => of_decide_eq_true hout ?_
    rw [h.family_eq]
    exact h.owners e he
  have hbefore : t₀.log.filter (fun e => e.1 ∉ family t.live a) = t₀.log := by
    refine List.filter_eq_self.mpr fun e he => decide_eq_true ?_
    exact of_decide_eq_false (h.family_not_before e he)
  rw [h.log, List.filter_append, hnew, hbefore, List.nil_append]

theorem root_topLevel (h : InsideBy t₀ t a kids new) : t.parentOf a = none := by
  have hkids : kids.find? (fun e => e.1 = a) = none := by
    refine List.find?_eq_none.mpr fun e he heq => ?_
    obtain ⟨-, -, hdisj⟩ := List.nodup_append.mp h.nodup
    exact hdisj e.1 (List.mem_map_of_mem he) a List.mem_cons_self (of_decide_eq_true heq)
  rw [parentOf, h.live, List.find?_append, hkids, Option.none_or, List.find?_cons_of_pos (by simp)]
  rfl

end InsideBy

namespace Inside
variable {t₀ t : UndoLog ι χ} {a : Nat}

theorem begin (h : t₀.Wf) (ha : a ∉ t₀.ids) : Inside t₀ (t₀.begin a none) a :=
  ⟨[], [], { wf := h, live := rfl, parent := by simp, nodup := List.nodup_cons.mpr ⟨ha, h.nodup⟩,
             log := rfl, owners := by simp, store := rfl }⟩

theorem mem_ids (h : Inside t₀ t a) : a ∈ t.ids := by
  obtain ⟨kids, new, h⟩ := h
  rw [h.ids_eq]; simp

theorem write (h : Inside t₀ t a) {b : Nat} (hb : b ∈ family t.live a) (i : ι) (v : χ) :
    Inside t₀ (t.write b i v) a := by
  obtain ⟨kids, new, h⟩ := h
  refine ⟨kids, (b, i, t.store i) :: new, { h with log := ?_, owners := ?_, store := ?_ }⟩
  · rw [write_log, h.log]; rfl
  · intro e he
    rcases List.mem_cons.mp he with rfl | he
    · rw [← h.family_eq]; exact hb
    · exact h.owners e he
  · simp only [undo, write_store, if_true, Function.update_idem, Function.update_eq_self]
    exact h.store

theorem root_mem (h : Inside t₀ t a) : a ∈ family t.live a := by
  obtain ⟨kids, new, h⟩ := h
  rw [h.family_eq]; simp

theorem beginChild (h : Inside t₀ t a) {k : Nat} (hk : k ∉ t.ids) :
    Inside t₀ (t.begin k (some a)) a := by
  obtain ⟨kids, new, h⟩ := h
  have hids := h.ids_eq
  refine ⟨(k, some a) :: kids, new, { h with live := ?_, parent := ?_, nodup := ?_, owners := ?_ }⟩
  · rw [begin_live, h.live]; rfl
  · intro e he
    rcases List.mem_cons.mp he with rfl | he
    · rfl
    · exact h.parent e he
  · rw [hids] at hk
    exact List.nodup_cons.mpr ⟨hk, h.nodup⟩
  · exact fun e he => List.mem_cons_of_mem _ (h.owners e he)

theorem child_mem (h : Inside t₀ t a) {k : Nat} (hk : (k, some a) ∈ t.live) :
    k ∈ family t.live a := by
  obtain ⟨kids, new, h⟩ := h
  rw [h.live] at hk
  rcases List.mem_append.mp hk with hk | hk
  · rw [h.family_eq]; exact List.mem_append_left _ (List.mem_map.mpr ⟨_, hk, rfl⟩)
  · exact absurd rfl (h.rest_childless _ hk)

/-- Committing a child hands its before-images to the parent. -/
theorem commitChild (h : Inside t₀ t a) {k : Nat} (hk : (k, some a) ∈ t.live) :
    Inside t₀ (t.commit k) a := by
  obtain ⟨kids, new, h⟩ := h
  have hkk : (k, some a) ∈ kids := by
    rw [h.live] at hk
    exact (List.mem_append.mp hk).resolve_right fun hr => absurd rfl (h.rest_childless _ hr)
  have hkm : k ∈ kids.map (·.1) := List.mem_map.mpr ⟨_, hkk, rfl⟩
  obtain ⟨hnk, hnr, hdisj⟩ := List.nodup_append.mp h.nodup
  have hka : k ≠ a := fun hc => hdisj k hkm a List.mem_cons_self hc
  have hk₀ : k ∉ t₀.ids := fun hc => hdisj k hkm k (List.mem_cons_of_mem _ hc) rfl
  have hfam : family t.live k = [k] := by
    refine family_of_childless fun e he hek => ?_
    rw [h.live] at he
    rcases List.mem_append.mp he with he | he
    · exact hka ((Option.some.inj ((h.parent e he).symm.trans hek)).symm)
    · rcases List.mem_cons.mp he with rfl | he
      · simp at hek
      · exact hk₀ (h.wf.older.known e he k (by simp [hek]))
  have hpar : t.parentOf k = some a := by
    have hfind : ∃ e, t.live.find? (fun e => e.1 = k) = some e :=
      Option.isSome_iff_exists.mp (List.find?_isSome.mpr ⟨_, hk, by simp⟩)
    obtain ⟨e, he⟩ := hfind
    have hek : e.1 = k := by simpa using List.find?_some he
    have hel := List.mem_of_find?_eq_some he
    rw [h.live] at hel
    have hep : e.2 = some a := by
      rcases List.mem_append.mp hel with hel | hel
      · exact h.parent e hel
      · rcases List.mem_cons.mp hel with rfl | hel
        · exact absurd hek.symm hka
        · exact absurd (List.mem_map.mpr ⟨e, hel, hek⟩) hk₀
    rw [parentOf, he]; exact hep
  have hrest : ((a, none) :: t₀.live).filter (fun e => e.1 ∉ [k]) = (a, none) :: t₀.live := by
    refine List.filter_eq_self.mpr fun e he => ?_
    rcases List.mem_cons.mp he with rfl | he
    · simpa using Ne.symm hka
    · simpa using fun hc : e.1 = k => hk₀ (List.mem_map.mpr ⟨e, he, hc⟩)
  refine ⟨kids.filter (fun e => e.1 ∉ [k]), new.map fun e => (if e.1 ∈ [k] then a else e.1, e.2),
    { wf := h.wf, live := ?_, parent := ?_, nodup := ?_, log := ?_, owners := ?_, store := ?_ }⟩
  · rw [commit_live, others, hfam, h.live, List.filter_append, hrest]
  · exact fun e he => h.parent e (List.mem_of_mem_filter he)
  · exact h.nodup.sublist ((List.filter_sublist.map _).append (List.Sublist.refl _))
  · simp only [commit, hpar, hfam, h.log, List.map_append]
    congr 1
    refine (List.map_congr_left fun e he => ?_).trans (List.map_id _)
    have : e.1 ∉ [k] := by simpa using fun hc : e.1 = k => hk₀ (hc ▸ h.wf.owners e he)
    simp only [if_neg this, id]
  · intro e he
    obtain ⟨f, hf, rfl⟩ := List.mem_map.mp he
    by_cases hfk : f.1 ∈ [k]
    · simp [hfk]
    · simp only [if_neg hfk]
      rcases List.mem_append.mp (h.owners f hf) with hm | hm
      · obtain ⟨g, hg, hgf⟩ := List.mem_map.mp hm
        refine List.mem_append_left _ (List.mem_map.mpr ⟨g, List.mem_filter.mpr ⟨hg, ?_⟩, hgf⟩)
        simpa [hgf] using hfk
      · exact List.mem_append_right _ hm
  · rw [undo_all_relabel (fun x => if x ∈ [k] then a else x)]; exact h.store

/-- MAIN RULE: aborting a transaction restores the store it began with. -/
theorem abort_store (h : Inside t₀ t a) : (t.abort a).store = t₀.store := by
  obtain ⟨kids, new, h⟩ := h
  calc (t.abort a).store
      = undo (· ∈ family t.live a) t₀.log (undo (· ∈ family t.live a) new t.store) := by
        rw [← undo_append, ← h.log]; rfl
    _ = undo (· ∈ family t.live a) new t.store := undo_none h.family_not_before
    _ = undo (fun _ => true) new t.store :=
        undo_congr fun e he => by rw [h.family_eq]; simpa using h.owners e he
    _ = t₀.store := h.store

/-- Aborting it leaves nothing behind. -/
theorem abort_eq (h : Inside t₀ t a) : t.abort a = t₀ := by
  have hstore : (t.abort a).store = t₀.store := h.abort_store
  obtain ⟨kids, new, h⟩ := h
  cases t₀
  simp only [abort, UndoLog.mk.injEq] at hstore ⊢
  exact ⟨hstore, h.others_eq, h.log_outside⟩

/-- Committing it leaves what it has stored, and nothing that could take it back. -/
theorem commit_eq (h : Inside t₀ t a) : t.commit a = { t₀ with store := t.store } := by
  obtain ⟨kids, new, h⟩ := h
  rw [commit, h.root_topLevel, h.others_eq]
  exact congrArg (UndoLog.mk t.store t₀.live) h.log_outside

end Inside

end Inside

/-! ### The transaction that began last -/

section Newest
variable {t : UndoLog ι χ} {a : Nat} {parent : Option Nat}

/-- A transaction that began last is its whole family. -/
theorem family_newest (h : t.Wf) (ha : a ∉ t.ids) (hp : parent ≠ some a) :
    family ((a, parent) :: t.live) a = [a] := by
  refine family_of_childless fun e he hea => ?_
  rcases List.mem_cons.mp he with rfl | he
  · exact hp hea
  · exact ha (h.older.known e he a (by simp [hea]))

/-- Once it is resolved the same transactions are unresolved as before it began. -/
theorem others_newest (h : t.Wf) (ha : a ∉ t.ids) (hp : parent ≠ some a) {s : ι → χ}
    {log : List (Nat × ι × χ)} : others ⟨s, (a, parent) :: t.live, log⟩ a = t.live := by
  have hlive : ∀ e ∈ t.live, e.1 ≠ a := fun e he hc => ha (List.mem_map.mpr ⟨e, he, hc⟩)
  simp only [others, family_newest h ha hp]
  rw [List.filter_cons_of_neg (by simp), List.filter_eq_self.mpr (by simpa using hlive)]

/-- Committing it hands its before-images to the parent. -/
theorem commit_newest (h : t.Wf) (ha : a ∉ t.ids) (hp : parent ≠ some a) {s : ι → χ}
    {new : List (Nat × ι × χ)} (hnew : ∀ e ∈ new, e.1 = a) :
    commit ⟨s, (a, parent) :: t.live, new ++ t.log⟩ a =
      ⟨s, t.live, (parent.elim [] fun p => new.map fun e => (p, e.2)) ++ t.log⟩ := by
  have hlog : ∀ e ∈ t.log, e.1 ≠ a := fun e he hc => ha (hc ▸ h.owners e he)
  have hparent : parentOf ⟨s, (a, parent) :: t.live, new ++ t.log⟩ a = parent := by
    simp [parentOf]
  have hlive := @others_newest ι χ t a parent h ha hp s (new ++ t.log)
  simp only [commit, hlive, hparent, family_newest h ha hp]
  cases parent with
  | none =>
    simp only [Option.elim_none]
    rw [List.filter_append, List.filter_eq_nil_iff.mpr (by simpa using hnew),
      List.filter_eq_self.mpr (by simpa using hlog)]
  | some p =>
    simp only [Option.elim_some, List.map_append]
    congr 2
    · refine List.map_congr_left fun e he => ?_
      simp [hnew e he]
    · refine (List.map_congr_left fun e he => ?_).trans (List.map_id _)
      simp [hlog e he]

theorem begin_commit (h : t.Wf) (ha : a ∉ t.ids) (hp : parent ≠ some a) :
    (t.begin a parent).commit a = t := by
  have hnone : ∀ e ∈ ([] : List (Nat × ι × χ)), e.1 = a := by simp
  refine (commit_newest h ha hp hnone).trans ?_
  cases parent <;> rfl

variable [DecidableEq ι]

/-- Aborting it takes back everything since it began. -/
theorem abort_newest (h : t.Wf) (ha : a ∉ t.ids) (hp : parent ≠ some a) {s : ι → χ}
    {new : List (Nat × ι × χ)} (hnew : ∀ e ∈ new, e.1 = a)
    (hs : undo (fun _ => true) new s = t.store) :
    abort ⟨s, (a, parent) :: t.live, new ++ t.log⟩ a = t := by
  have hlog : ∀ e ∈ t.log, e.1 ≠ a := fun e he hc => ha (hc ▸ h.owners e he)
  have hmine : undo (fun x => decide (x ∈ [a])) new s = undo (fun _ => true) new s :=
    undo_congr (by simpa using hnew)
  have hstore : undo (fun x => decide (x ∈ [a])) (new ++ t.log) s = t.store := by
    rw [undo_append, hmine, hs, undo_none (by simpa using hlog)]
  have hlive := @others_newest ι χ t a parent h ha hp s (new ++ t.log)
  simp only [abort, hlive, family_newest h ha hp, hstore]
  rw [List.filter_append, List.filter_eq_nil_iff.mpr (by simpa using hnew),
    List.filter_eq_self.mpr (by simpa using hlog), List.nil_append]

theorem begin_abort (h : t.Wf) (ha : a ∉ t.ids) (hp : parent ≠ some a) :
    (t.begin a parent).abort a = t := by
  have hnone : ∀ e ∈ ([] : List (Nat × ι × χ)), e.1 = a := by simp
  exact abort_newest h ha hp hnone rfl

theorem begin_write_abort (h : t.Wf) (ha : a ∉ t.ids) (hp : parent ≠ some a) (i : ι) (v : χ) :
    ((t.begin a parent).write a i v).abort a = t := by
  have hone : ∀ e ∈ [(a, i, t.store i)], e.1 = a := by simp
  exact abort_newest h ha hp hone (by simp [undo])

/-- A write through a top-level transaction is a write for good. -/
theorem begin_write_commit (h : t.Wf) (ha : a ∉ t.ids) (i : ι) (v : χ) :
    ((t.begin a none).write a i v).commit a = t.put i v := by
  have hone : ∀ e ∈ [(a, i, t.store i)], e.1 = a := by simp
  exact commit_newest h ha (by simp) hone

/-- A write through a child is a write of the parent. -/
theorem begin_write_commit_child (h : t.Wf) (ha : a ∉ t.ids) {b : Nat} (hb : b ≠ a) (i : ι) (v : χ) :
    ((t.begin a (some b)).write a i v).commit a = t.write b i v := by
  have hone : ∀ e ∈ [(a, i, t.store i)], e.1 = a := by simp
  exact commit_newest h ha (by simpa using hb) hone

end Newest

/-! ### Stores without children -/

section Flat

/-- No unresolved transaction is a child. -/
def Flat (t : UndoLog ι χ) : Prop := ∀ e ∈ t.live, e.2 = none

variable {t : UndoLog ι χ} {a : Nat}

theorem Flat.family_eq (h : t.Flat) (a : Nat) : family t.live a = [a] :=
  family_of_childless fun e he => by simp [h e he]

theorem Flat.parentOf_eq (h : t.Flat) (a : Nat) : t.parentOf a = none := by
  cases hf : t.live.find? (·.1 = a) with
  | none => simp [parentOf, hf]
  | some e => simp [parentOf, hf, h e (List.mem_of_find?_eq_some hf)]

theorem Flat.others (h : t.Flat) (a : Nat) : ∀ e ∈ t.others a, e.2 = none := fun e he =>
  h e (List.mem_of_mem_filter he)

theorem Flat.mem_others_iff (h : t.Flat) {x : Nat} :
    x ∈ (t.others a).map (·.1) ↔ x ∈ t.ids ∧ x ≠ a := by
  rw [mem_others, h.family_eq, List.mem_singleton]

theorem Flat.mem_commit_log (h : t.Flat) {e : Nat × ι × χ} :
    e ∈ (t.commit a).log ↔ e ∈ t.log ∧ e.1 ≠ a := by
  simp [commit, h.parentOf_eq, h.family_eq]

variable [DecidableEq ι]

theorem Flat.mem_abort_log (h : t.Flat) {e : Nat × ι × χ} :
    e ∈ (t.abort a).log ↔ e ∈ t.log ∧ e.1 ≠ a := by
  simp [abort, h.family_eq]

/-- Undoing leaves what is there or puts back a before-image. -/
theorem undo_cases (mine : Nat → Bool) (i : ι) : ∀ (l : List (Nat × ι × χ)) (s : ι → χ),
    undo mine l s i = s i ∨ ∃ e ∈ l, e.2.1 = i ∧ undo mine l s i = e.2.2
  | [], s => Or.inl rfl
  | (a, j, v) :: l, s => by
    rw [undo]
    rcases undo_cases mine i l (if mine a then Function.update s j v else s) with h | ⟨e, he, h⟩
    · rw [h]
      by_cases hij : i = j
      · subst hij
        by_cases ha : mine a = true
        · exact Or.inr ⟨(a, i, v), List.mem_cons_self, rfl, by simp [ha]⟩
        · exact Or.inl (by simp [ha])
      · refine Or.inl ?_
        by_cases ha : mine a = true <;> simp [ha, hij]
    · exact Or.inr ⟨e, List.mem_cons_of_mem _ he, h⟩

end Flat

/-! ### One operation, perhaps through a nested transaction -/

section Work
variable [DecidableEq ι]

/-- The transaction `k` has begun under `parent` and has perhaps written. -/
inductive Nested (t : UndoLog ι χ) (k : Nat) (parent : Option Nat) : UndoLog ι χ → Prop
  | idle : Nested t k parent (t.begin k parent)
  | wrote (i : ι) (v : χ) : Nested t k parent ((t.begin k parent).write k i v)

/-- What an operation under `parent` may do to the store: nothing, one write, or one write through a
    nested transaction `k` that is left unresolved, committed or aborted. -/
inductive Work (t : UndoLog ι χ) (k : Nat) : Option Nat → UndoLog ι χ → Prop
  | same (parent : Option Nat) : Work t k parent t
  | write (a : Nat) (i : ι) (v : χ) : Work t k (some a) (t.write a i v)
  | put (i : ι) (v : χ) : Work t k none (t.put i v)
  | unresolved {parent : Option Nat} {u : UndoLog ι χ} : Nested t k parent u → Work t k parent u
  | commit {parent : Option Nat} {u : UndoLog ι χ} :
      Nested t k parent u → Work t k parent (u.commit k)
  | abort {parent : Option Nat} {u : UndoLog ι χ} :
      Nested t k parent u → Work t k parent (u.abort k)

variable {t₀ t u : UndoLog ι χ} {a k : Nat} {parent : Option Nat}

theorem Nested.live (h : Nested t k parent u) : u.live = (k, parent) :: t.live := by
  cases h <;> rfl

theorem Nested.wf (h : Nested t k parent u) (ht : t.Wf) (hk : k ∉ t.ids)
    (hp : ∀ p ∈ parent, p ∈ t.ids) : u.Wf := by
  have hbegin : (t.begin k parent).Wf := begin_wf ht hk hp
  cases h with
  | idle => exact hbegin
  | wrote i v => exact write_wf hbegin (by simp) i v

/-- Aborting the nested transaction leaves no trace of the operation. -/
theorem Nested.abort_eq (h : Nested t k parent u) (ht : t.Wf) (hk : k ∉ t.ids)
    (hp : parent ≠ some k) : u.abort k = t := by
  cases h with
  | idle => exact begin_abort ht hk hp
  | wrote i v => exact begin_write_abort ht hk hp i v

/-- RULE: an operation keeps the store well formed. -/
theorem Work.wf (h : Work t k parent u) (ht : t.Wf) (hk : k ∉ t.ids)
    (hp : ∀ p ∈ parent, p ∈ t.ids) : u.Wf := by
  cases h with
  | same => exact ht
  | write a i v => exact write_wf ht (hp a rfl) i v
  | put i v => exact put_wf ht i v
  | unresolved hn => exact hn.wf ht hk hp
  | commit hn => exact commit_wf (hn.wf ht hk hp) k
  | abort hn => exact abort_wf (hn.wf ht hk hp) k

theorem Inside.nested (hin : Inside t₀ t a) (h : Nested t k (some a) u) (hk : k ∉ t.ids) :
    Inside t₀ u a := by
  have hbegin : Inside t₀ (t.begin k (some a)) a := hin.beginChild hk
  cases h with
  | idle => exact hbegin
  | wrote i v => exact hbegin.write (hbegin.child_mem List.mem_cons_self) i v

/-- RULE: an operation under a transaction stays inside it. -/
theorem Work.inside (h : Work t k (some a) u) (hin : Inside t₀ t a) (ht : t.Wf) (hk : k ∉ t.ids) :
    Inside t₀ u a := by
  cases h with
  | same => exact hin
  | write a i v => exact hin.write hin.root_mem i v
  | unresolved hn => exact hin.nested hn hk
  | commit hn => exact (hin.nested hn hk).commitChild (by rw [hn.live]; exact List.mem_cons_self)
  | abort hn =>
    have hka : some a ≠ some k := by
      rintro ⟨rfl⟩
      exact hk hin.mem_ids
    rw [hn.abort_eq ht hk hka]
    exact hin

end Work

/-! ### Two stores side by side -/

section Related

/-- The before-images of one write, in two stores. -/
def SameImage (R : ι → χ → χ → Prop) (e e' : Nat × ι × χ) : Prop :=
  e.1 = e'.1 ∧ e.2.1 = e'.2.1 ∧ R e.2.1 e.2.2 e'.2.2

/-- The same transactions have written in the same places, and what is there is related. -/
structure Related (R : ι → χ → χ → Prop) (t t' : UndoLog ι χ) : Prop where
  store : ∀ i, R i (t.store i) (t'.store i)
  live : t.live = t'.live
  log : List.Forall₂ (SameImage R) t.log t'.log

variable {R R' : ι → χ → χ → Prop} {t t' : UndoLog ι χ}

theorem Related.ids_eq (h : Related R t t') : t.ids = t'.ids := by rw [ids, ids, h.live]

theorem images_mono {log log' : List (Nat × ι × χ)} (h : List.Forall₂ (SameImage R) log log')
    (hmono : ∀ e ∈ log, ∀ v, R e.2.1 e.2.2 v → R' e.2.1 e.2.2 v) :
    List.Forall₂ (SameImage R') log log' := by
  induction h with
  | nil => exact .nil
  | cons he _ ih =>
    obtain ⟨hhead, htail⟩ := List.forall_mem_cons.mp hmono
    exact .cons ⟨he.1, he.2.1, hhead _ he.2.2⟩ (ih htail)

/-- RULE: the relation may change where it stays true of what is stored. -/
theorem Related.mono (h : Related R t t') (hstore : ∀ i v, R i (t.store i) v → R' i (t.store i) v)
    (hlog : ∀ e ∈ t.log, ∀ v, R e.2.1 e.2.2 v → R' e.2.1 e.2.2 v) : Related R' t t' where
  store := fun i => hstore i _ (h.store i)
  live := h.live
  log := images_mono h.log hlog

theorem Related.begin (h : Related R t t') (a : Nat) (parent : Option Nat) :
    Related R (t.begin a parent) (t'.begin a parent) :=
  ⟨h.store, congrArg (List.cons _) h.live, h.log⟩

theorem filter_images {log log' : List (Nat × ι × χ)} (h : List.Forall₂ (SameImage R) log log')
    (fam : List Nat) :
    List.Forall₂ (SameImage R) (log.filter fun e => e.1 ∉ fam) (log'.filter fun e => e.1 ∉ fam) :=
  List.rel_filter (fun e e' he => by simp [he.1]) h

theorem Related.commit (h : Related R t t') (a : Nat) : Related R (t.commit a) (t'.commit a) where
  store := h.store
  live := by rw [commit_live, commit_live, others, others, h.live]
  log := by
    have hparent : t.parentOf a = t'.parentOf a := by rw [parentOf, parentOf, h.live]
    simp only [UndoLog.commit, ← hparent, ← h.live]
    cases t.parentOf a with
    | none => exact filter_images h.log _
    | some p =>
      refine List.rel_map (fun e e' he => ?_) h.log
      obtain ⟨howner, hplace, hvalue⟩ := he
      exact ⟨by simp only [howner], hplace, hvalue⟩

variable [DecidableEq ι]

theorem Related.write (h : Related R t t') (a : Nat) {i : ι} {v v' : χ} (hv : R i v v') :
    Related R (t.write a i v) (t'.write a i v') where
  store := fun j => by
    rcases eq_or_ne j i with rfl | hj
    · simpa using hv
    · simpa [hj] using h.store j
  live := h.live
  log := .cons ⟨rfl, rfl, h.store i⟩ h.log

theorem Related.put (h : Related R t t') {i : ι} {v v' : χ} (hv : R i v v') :
    Related R (t.put i v) (t'.put i v') where
  store := (h.write 0 hv).store
  live := h.live
  log := h.log

theorem undo_related (mine : Nat → Bool) {log log' : List (Nat × ι × χ)}
    (h : List.Forall₂ (SameImage R) log log') : ∀ {s s' : ι → χ}, (∀ i, R i (s i) (s' i)) →
      ∀ i, R i (undo mine log s i) (undo mine log' s' i) := by
  induction h with
  | nil => exact fun hs => hs
  | @cons e e' log log' he _ ih =>
    intro s s' hs
    obtain ⟨a, j, v⟩ := e
    obtain ⟨a', j', v'⟩ := e'
    obtain ⟨rfl, rfl, hv⟩ := he
    refine ih fun i => ?_
    split
    · rcases eq_or_ne i j with rfl | hi
      · simpa using hv
      · simpa [hi] using hs i
    · exact hs i

theorem Related.abort (h : Related R t t') (a : Nat) : Related R (t.abort a) (t'.abort a) where
  store := by
    simp only [UndoLog.abort, ← h.live]
    exact undo_related _ h.log h.store
  live := by rw [abort_live, abort_live, others, others, h.live]
  log := by
    simp only [UndoLog.abort, ← h.live]
    exact filter_images h.log _

end Related

end UndoLog

end Schemes
