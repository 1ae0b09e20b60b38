import Mathlib.Data.List.Nodup
import Mathlib.Logic.Function.Basic
import Mathlib.Tactic.Common

/-! @scheme linearization | name:Linearizability by effects | layer:library

    Calls of an object that overlap. A history records when each call begins and when it answers. It is
    linearizable if the calls can be put into one order, each with its answer, that the sequential
    object produces and that keeps every call behind those that answered before it began.

        history   call 0 ─────── call 1 ── answer 1 ── answer 0 ── call 2 …
        effects            ▲ 0          ▲ 1                          ▲ 2      in this order

    An order is built along the history by four rules: a call begins, takes its effect, answers, or takes
    back an effect that has changed nothing. -/

namespace Schemes

variable {σ Op Res : Type}

inductive Event (Op Res : Type) where
  /-- the call with this number begins -/
  | call (n : Nat) (op : Op)
  | answer (n : Nat) (r : Res)
  deriving DecidableEq

/-- A call that has taken effect, with the answer that it gives or will give. -/
structure Effect (Op Res : Type) where
  id : Nat
  op : Op
  res : Res
  deriving DecidableEq

/-- The state of the object after the effects. -/
def replay (obj : σ → Op → Res × σ) : σ → List (Effect Op Res) → σ
  | s, [] => s
  | s, e :: es => replay obj (obj s e.op).2 es

/-- The object answers every call as recorded. -/
def Legal (obj : σ → Op → Res × σ) : σ → List (Effect Op Res) → Prop
  | _, [] => True
  | s, e :: es => (obj s e.op).1 = e.res ∧ Legal obj (obj s e.op).2 es

/-- The call `m` answered before the call `n` began. -/
def Precedes (h : List (Event Op Res)) (m n : Nat) : Prop :=
  ∃ front back r op, h = front ++ back ∧ .answer m r ∈ front ∧ .call n op ∈ back

/-- The effects are in an order that explains the history. -/
structure Linearizes (obj : σ → Op → Res × σ) (s₀ : σ) (h : List (Event Op Res))
    (es : List (Effect Op Res)) : Prop where
  nodup : (es.map (·.id)).Nodup
  legal : Legal obj s₀ es
  called : ∀ e ∈ es, .call e.id e.op ∈ h
  answered : ∀ n r, .answer n r ∈ h → ∃ e ∈ es, e.id = n ∧ e.res = r
  ordered : ∀ m n, Precedes h m n → n ∈ es.map (·.id) → [m, n].Sublist (es.map (·.id))

def Linearizable (obj : σ → Op → Res × σ) (s₀ : σ) (h : List (Event Op Res)) : Prop :=
  ∃ es, Linearizes obj s₀ h es

variable {obj : σ → Op → Res × σ} {s s₀ : σ} {h : List (Event Op Res)} {es fs : List (Effect Op Res)}
  {e : Effect Op Res} {m n k : Nat} {op : Op} {r : Res}

@[simp] theorem replay_append : replay obj s (es ++ fs) = replay obj (replay obj s es) fs := by
  induction es generalizing s with
  | nil => rfl
  | cons e es ih => exact ih

theorem legal_append : Legal obj s (es ++ fs) ↔ Legal obj s es ∧ Legal obj (replay obj s es) fs := by
  induction es generalizing s with
  | nil => simp [Legal, replay]
  | cons e es ih => simp only [List.cons_append, Legal, replay, ih, and_assoc]

/-- An effect that changes nothing can be left out. -/
theorem legal_without (hlegal : Legal obj s (es ++ e :: fs))
    (hreads : ∀ s, (obj s e.op).1 = e.res → (obj s e.op).2 = s) :
    Legal obj s (es ++ fs) ∧ replay obj s (es ++ fs) = replay obj s (es ++ e :: fs) := by
  rw [legal_append] at hlegal
  obtain ⟨hes, hres, hfs⟩ := hlegal
  have hsame := hreads _ hres
  rw [hsame] at hfs
  refine ⟨legal_append.mpr ⟨hes, hfs⟩, ?_⟩
  rw [replay_append, replay_append, replay, hsame]

/-! ### What precedes what -/

/-- The beginning of a call comes behind all answers so far. -/
theorem precedes_call : Precedes (h ++ [.call k op]) m n ↔
    Precedes h m n ∨ n = k ∧ ∃ r, .answer m r ∈ h := by
  constructor
  · rintro ⟨front, back, r, op', hsplit, hm, hn⟩
    rcases List.eq_nil_or_concat back with rfl | ⟨back, x, rfl⟩
    · simp at hn
    · rw [List.concat_eq_append, ← List.append_assoc] at hsplit
      obtain ⟨hh, hx⟩ := List.append_inj' hsplit rfl
      obtain rfl : .call k op = x := by simpa using hx
      rw [List.concat_eq_append] at hn
      rcases List.mem_append.mp hn with hn | hn
      · exact Or.inl ⟨front, back, r, op', hh, hm, hn⟩
      · have hkn : n = k ∧ op' = op := by simpa using hn
        exact Or.inr ⟨hkn.1, r, by rw [hh]; exact List.mem_append_left _ hm⟩
  · rintro (⟨front, back, r, op', rfl, hm, hn⟩ | ⟨rfl, r, hm⟩)
    · exact ⟨front, back ++ [.call k op], r, op', List.append_assoc .., hm,
        List.mem_append_left _ hn⟩
    · exact ⟨h, [.call n op], r, op, rfl, hm, List.mem_singleton_self _⟩

/-- An answer comes before no call so far. -/
theorem precedes_answer : Precedes (h ++ [.answer k r]) m n ↔ Precedes h m n := by
  constructor
  · rintro ⟨front, back, r', op', hsplit, hm, hn⟩
    rcases List.eq_nil_or_concat back with rfl | ⟨back, x, rfl⟩
    · simp at hn
    · rw [List.concat_eq_append, ← List.append_assoc] at hsplit
      obtain ⟨hh, hx⟩ := List.append_inj' hsplit rfl
      obtain rfl : .answer k r = x := by simpa using hx
      rw [List.concat_eq_append] at hn
      rcases List.mem_append.mp hn with hn | hn
      · exact ⟨front, back, r', op', hh, hm, hn⟩
      · simp at hn
  · rintro ⟨front, back, r', op', rfl, hm, hn⟩
    exact ⟨front, back ++ [.answer k r], r', op', List.append_assoc .., hm, List.mem_append_left _ hn⟩

/-! ### The four rules -/

namespace Linearizes

theorem nil (obj : σ → Op → Res × σ) (s₀ : σ) : Linearizes obj s₀ [] [] where
  nodup := List.nodup_nil
  legal := trivial
  called := by simp
  answered := by simp
  ordered := by simp

theorem mem_of_answer (hl : Linearizes obj s₀ h es) (hm : .answer m r ∈ h) :
    m ∈ es.map (·.id) := by
  obtain ⟨e, he, rfl, -⟩ := hl.answered m r hm
  exact List.mem_map_of_mem he

/-- Of two answered calls, one before the other, the effects are in this order. -/
theorem split (hl : Linearizes obj s₀ h es) (hprec : Precedes h m n) {r' : Res}
    (hm : .answer m r ∈ h) (hn : .answer n r' ∈ h) :
    ∃ e f as bs cs, es = as ++ e :: (bs ++ f :: cs) ∧ (e.id = m ∧ e.res = r) ∧ f.id = n ∧ f.res = r' := by
  obtain ⟨e, he, rfl, hre⟩ := hl.answered m r hm
  obtain ⟨f, hf, rfl, hrf⟩ := hl.answered n r' hn
  have hord := hl.ordered e.id f.id hprec (List.mem_map_of_mem hf)
  have hnodup := hl.nodup
  obtain ⟨as, bs, rfl⟩ := List.append_of_mem he
  rw [List.map_append, List.map_cons] at hord hnodup
  have hnot : e.id ∉ as.map (·.id) := by
    rw [List.nodup_middle, List.nodup_cons] at hnodup
    exact fun hmem => hnodup.1 (List.mem_append_left _ hmem)
  have hbehind : f.id ∈ bs.map (·.id) := by
    obtain ⟨front, back, hsplit, hfront, hback⟩ := List.sublist_append_iff.mp hord
    rcases front with _ | ⟨x, front⟩
    · rw [List.nil_append] at hsplit
      rw [← hsplit] at hback
      exact List.singleton_sublist.mp (List.cons_sublist_cons.mp hback)
    · obtain ⟨rfl, -⟩ := List.cons.inj hsplit
      exact absurd (hfront.mem List.mem_cons_self) hnot
  obtain ⟨f', hf', hid⟩ := List.mem_map.mp hbehind
  have hsame : f' = f := by
    refine List.inj_on_of_nodup_map hl.nodup ?_ hf hid
    exact List.mem_append_right _ (List.mem_cons_of_mem _ hf')
  obtain ⟨bs, cs, rfl⟩ := List.append_of_mem (hsame ▸ hf')
  exact ⟨e, f, as, bs, cs, rfl, ⟨rfl, hre⟩, rfl, hrf⟩

/-- RULE: a new call begins. -/
theorem call (hl : Linearizes obj s₀ h es) (hnew : ∀ op, .call n op ∉ h) (op : Op) :
    Linearizes obj s₀ (h ++ [.call n op]) es where
  nodup := hl.nodup
  legal := hl.legal
  called := fun e he => List.mem_append_left _ (hl.called e he)
  answered := by
    intro k r hk
    rcases List.mem_append.mp hk with hk | hk
    · exact hl.answered k r hk
    · simp at hk
  ordered := by
    intro m k hprec hk
    rcases precedes_call.mp hprec with hprec | ⟨rfl, -⟩
    · exact hl.ordered m k hprec hk
    · obtain ⟨e, he, rfl⟩ := List.mem_map.mp hk
      exact absurd (hl.called e he) (hnew e.op)

/-- RULE: a call that has begun takes its effect, with the answer of the object. -/
theorem effect (hl : Linearizes obj s₀ h es) (hcalled : .call n op ∈ h) (hn : n ∉ es.map (·.id))
    (hres : (obj (replay obj s₀ es) op).1 = r) : Linearizes obj s₀ h (es ++ [⟨n, op, r⟩]) where
  nodup := by
    rw [List.map_append, List.map_singleton]
    exact List.nodup_append.mpr ⟨hl.nodup, List.nodup_singleton _, by
      intro a ha b hb hab
      obtain rfl : a = n := hab.trans (List.mem_singleton.mp hb)
      exact hn ha⟩
  legal := legal_append.mpr ⟨hl.legal, hres, trivial⟩
  called := by
    intro e he
    rcases List.mem_append.mp he with he | he
    · exact hl.called e he
    · rw [List.mem_singleton.mp he]
      exact hcalled
  answered := by
    intro k r' hk
    obtain ⟨e, he, hid⟩ := hl.answered k r' hk
    exact ⟨e, List.mem_append_left _ he, hid⟩
  ordered := by
    intro m k hprec hk
    rw [List.map_append, List.map_singleton] at hk ⊢
    rcases List.mem_append.mp hk with hk | hk
    · exact (hl.ordered m k hprec hk).trans (List.sublist_append_left _ _)
    · obtain rfl : k = n := List.mem_singleton.mp hk
      obtain ⟨front, back, r', op', rfl, hm, -⟩ := hprec
      have hmem := hl.mem_of_answer (List.mem_append_left _ hm)
      exact (List.singleton_sublist.mpr hmem).append (List.Sublist.refl [k])

/-- RULE: a call that has taken effect answers. -/
theorem answer (hl : Linearizes obj s₀ h es) (he : e ∈ es) :
    Linearizes obj s₀ (h ++ [.answer e.id e.res]) es where
  nodup := hl.nodup
  legal := hl.legal
  called := fun f hf => List.mem_append_left _ (hl.called f hf)
  answered := by
    intro k r hk
    rcases List.mem_append.mp hk with hk | hk
    · exact hl.answered k r hk
    · obtain ⟨rfl, rfl⟩ : k = e.id ∧ r = e.res := by simpa using hk
      exact ⟨e, he, rfl, rfl⟩
  ordered := fun m k hprec hk => hl.ordered m k (precedes_answer.mp hprec) hk

/-- RULE: a call that has not answered takes back an effect that has changed nothing. -/
theorem retract (hl : Linearizes obj s₀ h es) (he : e ∈ es) (hopen : ∀ r, .answer e.id r ∉ h)
    (hreads : ∀ s, (obj s e.op).1 = e.res → (obj s e.op).2 = s) :
    ∃ fs, Linearizes obj s₀ h fs ∧ replay obj s₀ fs = replay obj s₀ es ∧
      (∀ f, f ∈ fs ↔ f ∈ es ∧ f.id ≠ e.id) := by
  obtain ⟨as, bs, rfl⟩ := List.append_of_mem he
  obtain ⟨hlegal, hreplay⟩ := legal_without hl.legal hreads
  have hsub : (as ++ bs).Sublist (as ++ e :: bs) :=
    (List.Sublist.refl as).append (List.sublist_cons_self e bs)
  have hnodup := hl.nodup
  rw [List.map_append, List.map_cons, List.nodup_middle, List.nodup_cons] at hnodup
  have hmem : ∀ f, f ∈ as ++ bs ↔ f ∈ as ++ e :: bs ∧ f.id ≠ e.id := by
    intro f
    constructor
    · intro hf
      refine ⟨hsub.mem hf, fun hid => hnodup.1 ?_⟩
      rw [← hid, ← List.map_append]
      exact List.mem_map_of_mem hf
    · rintro ⟨hf, hid⟩
      simp only [List.mem_append, List.mem_cons] at hf ⊢
      rcases hf with hf | rfl | hf
      · exact Or.inl hf
      · exact absurd rfl hid
      · exact Or.inr hf
  refine ⟨as ++ bs, ⟨?_, hlegal, ?_, ?_, ?_⟩, hreplay, hmem⟩
  · rw [List.map_append]
    exact hnodup.2
  · exact fun f hf => hl.called f (hsub.mem hf)
  · intro k r hk
    obtain ⟨f, hf, rfl, hres⟩ := hl.answered k r hk
    exact ⟨f, (hmem f).mpr ⟨hf, fun hid => hopen r (hid ▸ hk)⟩, rfl, hres⟩
  · -- of two effects that stay, the order stays
    intro m k hprec hk
    have hm : m ≠ e.id := by
      rintro rfl
      obtain ⟨front, back, r, op, rfl, hm, -⟩ := hprec
      exact hopen r (List.mem_append_left _ hm)
    obtain ⟨f, hf, rfl⟩ := List.mem_map.mp hk
    have hk' := ((hmem f).mp hf).2
    have hold := hl.ordered m f.id hprec (List.mem_map_of_mem (hsub.mem hf))
    have hfilter := hold.filter (fun x => decide (x ≠ e.id))
    have hpair : [m, f.id].filter (fun x => decide (x ≠ e.id)) = [m, f.id] := by
      simp [hm, hk']
    have hrest : ((as ++ e :: bs).map (·.id)).filter (fun x => decide (x ≠ e.id)) =
        (as ++ bs).map (·.id) := by
      rw [List.map_append, List.map_cons, List.filter_append, List.filter_cons_of_neg (by simp),
        ← List.filter_append, List.map_append, List.filter_eq_self]
      intro x hx
      simp only [decide_eq_true_eq]
      rintro rfl
      exact hnodup.1 hx
    rwa [hpair, hrest] at hfilter

end Linearizes

/-! ### Calls in progress

    Clients make one call at a time. A call in progress may have taken its effect already. -/

variable {κ : Type}

/-- The effects explain the history up to here: `pending` are the calls in progress with the answers of
    those that have taken effect, `current` their numbers, and `s` is the state of the object. -/
structure Tracks (obj : σ → Op → Res × σ) (s₀ : σ) (h : List (Event Op Res)) (calls : Nat)
    (current : κ → Nat) (pending : κ → Option (Op × Option Res)) (s : σ)
    (es : List (Effect Op Res)) : Prop where
  linearizes : Linearizes obj s₀ h es
  replays : replay obj s₀ es = s
  numbered : ∀ n op, .call n op ∈ h → n < calls
  called : ∀ c op r, pending c = some (op, r) → .call (current c) op ∈ h
  unanswered : ∀ c op r r', pending c = some (op, r) → .answer (current c) r' ∉ h
  distinct : ∀ c d op op' r r', pending c = some (op, r) → pending d = some (op', r') →
    current c = current d → c = d
  taken : ∀ c op r, pending c = some (op, some r) → ⟨current c, op, r⟩ ∈ es
  untaken : ∀ c op, pending c = some (op, none) → current c ∉ es.map (·.id)

def Explained (obj : σ → Op → Res × σ) (s₀ : σ) (h : List (Event Op Res)) (calls : Nat)
    (current : κ → Nat) (pending : κ → Option (Op × Option Res)) (s : σ) : Prop :=
  ∃ es, Tracks obj s₀ h calls current pending s es

namespace Explained

variable {calls : Nat} {current : κ → Nat} {pending : κ → Option (Op × Option Res)} {c : κ}

theorem initial (obj : σ → Op → Res × σ) (s₀ : σ) (current : κ → Nat) :
    Explained obj s₀ [] 0 current (fun _ => none) s₀ :=
  ⟨[], .nil obj s₀, rfl, by simp, by simp, by simp, by simp, by simp, by simp⟩

theorem linearizable (hx : Explained obj s₀ h calls current pending s) : Linearizable obj s₀ h :=
  hx.imp fun _ ht => ht.linearizes

variable [DecidableEq κ]

/-- RULE: a client begins a call. -/
theorem begin (hx : Explained obj s₀ h calls current pending s) (c : κ) (op : Op) :
    Explained obj s₀ (h ++ [.call calls op]) (calls + 1) (Function.update current c calls)
      (Function.update pending c (some (op, none))) s := by
  obtain ⟨es, hl, hreplay, hnumbered, hcalled, hunanswered, hdistinct, htaken, huntaken⟩ := hx
  have hnew : ∀ op, .call calls op ∉ h := fun op hop => absurd (hnumbered calls op hop) (Nat.lt_irrefl _)
  have hnoEffect : calls ∉ es.map (·.id) := by
    intro hmem
    obtain ⟨e, he, heq⟩ := List.mem_map.mp hmem
    exact hnew e.op (heq ▸ hl.called e he)
  have hnoAnswer : ∀ r, .answer calls r ∉ h := fun r hr => hnoEffect (hl.mem_of_answer hr)
  have hother : ∀ d op r, pending d = some (op, r) → current d ≠ calls := by
    intro d op r hd heq
    exact hnew op (heq ▸ hcalled d op r hd)
  refine ⟨es, hl.call hnew op, hreplay, ?_, ?_, ?_, ?_, ?_, ?_⟩
  · intro n op' hn
    rcases List.mem_append.mp hn with hn | hn
    · exact Nat.lt_succ_of_lt (hnumbered n op' hn)
    · obtain ⟨rfl, -⟩ : n = calls ∧ op' = op := by simpa using hn
      exact Nat.lt_succ_self n
  · grind [Function.update_apply]
  · grind [Function.update_apply]
  · grind [Function.update_apply]
  · grind [Function.update_apply]
  · grind [Function.update_apply]

/-- RULE: a call in progress takes its effect. -/
theorem take (hx : Explained obj s₀ h calls current pending s) (hc : pending c = some (op, none))
    (hr : (obj s op).1 = r) : Explained obj s₀ h calls current
      (Function.update pending c (some (op, some r))) (obj s op).2 := by
  obtain ⟨es, hl, rfl, hnumbered, hcalled, hunanswered, hdistinct, htaken, huntaken⟩ := hx
  have heffect := hl.effect (hcalled c op none hc) (huntaken c op hc) hr
  have hother : ∀ d op' r', d ≠ c → pending d = some (op', r') → current d ≠ current c :=
    fun d op' r' hne hd heq => hne (hdistinct d c op' op r' none hd hc heq)
  refine ⟨es ++ [⟨current c, op, r⟩], heffect, by rw [replay_append]; rfl, hnumbered, ?_, ?_, ?_, ?_, ?_⟩
  · grind [Function.update_apply]
  · grind [Function.update_apply]
  · grind [Function.update_apply]
  · grind [Function.update_apply]
  · grind [Function.update_apply]

/-- RULE: a call in progress takes back an effect that has changed nothing. -/
theorem untake (hx : Explained obj s₀ h calls current pending s) (hc : pending c = some (op, some r))
    (hreads : ∀ s, (obj s op).1 = r → (obj s op).2 = s) :
    Explained obj s₀ h calls current (Function.update pending c (some (op, none))) s := by
  obtain ⟨es, hl, rfl, hnumbered, hcalled, hunanswered, hdistinct, htaken, huntaken⟩ := hx
  obtain ⟨fs, hl', hreplay, hmem⟩ :=
    hl.retract (htaken c op r hc) (fun r' => hunanswered c op (some r) r' hc) hreads
  have hother : ∀ d op' r', d ≠ c → pending d = some (op', r') → current d ≠ current c :=
    fun d op' r' hne hd heq => hne (hdistinct d c op' op r' (some r) hd hc heq)
  refine ⟨fs, hl', hreplay, hnumbered, ?_, ?_, ?_, ?_, ?_⟩
  · grind [Function.update_apply]
  · grind [Function.update_apply]
  · grind [Function.update_apply]
  · grind [Function.update_apply]
  · grind [Function.update_apply]

/-- RULE: a call that has taken effect answers. -/
theorem finish (hx : Explained obj s₀ h calls current pending s) (hc : pending c = some (op, some r)) :
    Explained obj s₀ (h ++ [.answer (current c) r]) calls current
      (Function.update pending c none) s := by
  obtain ⟨es, hl, rfl, hnumbered, hcalled, hunanswered, hdistinct, htaken, huntaken⟩ := hx
  have hother : ∀ d op' r', d ≠ c → pending d = some (op', r') → current d ≠ current c :=
    fun d op' r' hne hd heq => hne (hdistinct d c op' op r' (some r) hd hc heq)
  refine ⟨es, hl.answer (htaken c op r hc), rfl, ?_, ?_, ?_, ?_, ?_, ?_⟩
  · grind
  · grind [Function.update_apply]
  · grind [Function.update_apply]
  · grind [Function.update_apply]
  · grind [Function.update_apply]
  · grind [Function.update_apply]

/-- RULE: a call that is over in one step. -/
theorem atOnce (hx : Explained obj s₀ h calls current pending s) (hc : pending c = none)
    (hr : (obj s op).1 = r) (hreads : (obj s op).2 = s) :
    Explained obj s₀ (h ++ [.call calls op] ++ [.answer calls r]) (calls + 1)
      (Function.update current c calls) pending s := by
  have hbegun := hx.begin c op
  have htaken := hbegun.take (Function.update_self ..) hr
  have hfinished := htaken.finish (Function.update_self ..)
  rw [hreads, Function.update_idem, Function.update_idem, Function.update_self] at hfinished
  rwa [← hc, Function.update_eq_self] at hfinished

end Explained

end Schemes
