/-
  Two levels of reference counting: holders hold handles, handles refer to objects.

  A handle counts its holders, an object the holders of its handles, and a handle
  without holders refers to nothing (`Sharing.Ok`). A holder may open a fresh handle on
  an object (`opened`), get a handle that is in use (`shared`), or drop its handle
  (`dropped`); each keeps the counts right. Then an object's count is also the sum of the
  counts of its handles (`Ok.objectCount_eq_sum`).

  When some holders leave and the others stay (`Left`), each count goes down by the
  references of those that left.
-/
import Mathlib.Algebra.BigOperators.Group.Finset.Basic
import Mathlib.Data.Fintype.Card

namespace Os64.Lib

open Finset

/-- Holders `η`, handles `δ` and objects `γ` with their counts. -/
structure Sharing (η δ γ : Type) where
  held : η → Option δ
  object : δ → Option γ
  handleCount : δ → Nat
  objectCount : γ → Nat

namespace Sharing

variable {η δ γ : Type} [Fintype η] [DecidableEq δ] [DecidableEq γ]
  {S : Sharing η δ γ} {h : η} {d : δ} {c : γ}

def holders (S : Sharing η δ γ) (d : δ) : Finset η := {h | S.held h = some d}

def users (S : Sharing η δ γ) (c : γ) : Finset η := {h | (S.held h).bind S.object = some c}

omit [DecidableEq γ] in
@[simp] theorem mem_holders : h ∈ S.holders d ↔ S.held h = some d := by simp [holders]

omit [DecidableEq δ] in
@[simp] theorem mem_users : h ∈ S.users c ↔ (S.held h).bind S.object = some c := by simp [users]

structure Ok (S : Sharing η δ γ) : Prop where
  handle : ∀ d, S.handleCount d = #(S.holders d)
  null : ∀ d, S.object d = none ↔ S.handleCount d = 0
  object : ∀ c, S.objectCount c = #(S.users c)

namespace Ok

/-- A handle that somebody holds refers to an object. -/
theorem object_of_held (hS : S.Ok) (hh : S.held h = some d) : ∃ c, S.object d = some c := by
  cases ho : S.object d with
  | some c => exact ⟨c, rfl⟩
  | none =>
      have hz := (hS.null d).mp ho
      rw [hS.handle, card_eq_zero] at hz
      have : h ∈ S.holders d := mem_holders.mpr hh
      rw [hz] at this
      exact absurd this (notMem_empty h)

/-- An unused handle is held by nobody. -/
theorem free_of_null (hS : S.Ok) (ho : S.object d = none) (h : η) : S.held h ≠ some d := by
  intro hh
  obtain ⟨c, hc⟩ := hS.object_of_held hh
  rw [ho] at hc
  cases hc

theorem handleCount_pos (hS : S.Ok) (hh : S.held h = some d) : 0 < S.handleCount d := by
  rw [hS.handle]
  exact card_pos.mpr ⟨h, mem_holders.mpr hh⟩

theorem objectCount_pos (hS : S.Ok) (hh : S.held h = some d) (ho : S.object d = some c) :
    0 < S.objectCount c := by
  rw [hS.object]
  refine card_pos.mpr ⟨h, mem_users.mpr ?_⟩
  rw [hh]
  exact ho

/-- A handle that refers to an object is held by somebody. -/
theorem held_of_object (hS : S.Ok) (ho : S.object d = some c) : ∃ h, S.held h = some d := by
  have hne : S.handleCount d ≠ 0 := fun h0 => by
    rw [(hS.null d).mpr h0] at ho
    cases ho
  rw [hS.handle] at hne
  obtain ⟨h, hh⟩ := card_pos.mp (Nat.pos_of_ne_zero hne)
  exact ⟨h, mem_holders.mp hh⟩

theorem handleCount_le (hS : S.Ok) (d : δ) : S.handleCount d ≤ Fintype.card η := by
  rw [hS.handle]
  exact card_le_univ _

theorem objectCount_le (hS : S.Ok) (c : γ) : S.objectCount c ≤ Fintype.card η := by
  rw [hS.object]
  exact card_le_univ _

variable [DecidableEq η]

/-- The count of an object is the sum of the counts of its handles. -/
theorem objectCount_eq_sum (hS : S.Ok) (c : γ) {all : Finset δ}
    (hall : ∀ h d, S.held h = some d → d ∈ all) :
    S.objectCount c = ∑ d ∈ all with S.object d = some c, S.handleCount d := by
  have hu : S.users c = (all.filter fun d => S.object d = some c).biUnion S.holders := by
    ext h
    rw [mem_users, mem_biUnion]
    constructor
    · intro hb
      cases hh : S.held h with
      | none =>
          rw [hh] at hb
          cases hb
      | some d =>
          rw [hh] at hb
          exact ⟨d, mem_filter.mpr ⟨hall h d hh, hb⟩, mem_holders.mpr hh⟩
    · rintro ⟨d, hd, hh⟩
      rw [mem_holders.mp hh]
      exact (mem_filter.mp hd).2
  rw [hS.object, hu, card_biUnion]
  · exact sum_congr rfl fun d _ => (hS.handle d).symm
  · intro d _ d' _ hne
    rw [Function.onFun, disjoint_left]
    intro h hd hd'
    rw [mem_holders] at hd hd'
    exact hne (Option.some.inj (hd.symm.trans hd'))

end Ok

/-! ## Holders that leave -/

/-- From `S` to `S'` the holders `P` gave up what they held, and the others hold what they
    held. -/
structure Left (P : η → Prop) (S S' : Sharing η δ γ) : Prop where
  gone : ∀ h, P h → S'.held h = none
  stay : ∀ h, ¬ P h → S'.held h = S.held h
  object : ∀ d c, S.object d = some c → S'.object d = some c ∨ S'.object d = none

namespace Left

variable {P : η → Prop} [DecidablePred P] {S' : Sharing η δ γ}

/-- A handle's count goes down by the holders that left it. -/
theorem handleCount (hL : Left P S S') (hS : S.Ok) (hS' : S'.Ok) (d : δ) :
    S'.handleCount d + #{h | P h ∧ S.held h = some d} = S.handleCount d := by
  have hin : (S.holders d).filter P = ({h | P h ∧ S.held h = some d} : Finset η) := by
    ext h
    simp [and_comm]
  have hout : (S.holders d).filter (¬ P ·) = S'.holders d := by
    ext h
    rw [mem_filter, mem_holders, mem_holders]
    by_cases hP : P h
    · simp [hP, hL.gone h hP]
    · simp [hP, hL.stay h hP]
  rw [hS.handle, hS'.handle, ← hin, ← hout, Nat.add_comm]
  exact card_filter_add_card_filter_not P

/-- Whoever stays uses the object that it used. -/
theorem users (hL : Left P S S') (hS' : S'.Ok) (hS : S.Ok) (c : γ) :
    (S.users c).filter (¬ P ·) = S'.users c := by
  ext h
  rw [mem_filter, mem_users, mem_users]
  by_cases hP : P h
  · simp [hP, hL.gone h hP]
  · rw [hL.stay h hP]
    cases hh : S.held h with
    | none => simp
    | some d =>
        obtain ⟨c₀, hc₀⟩ := hS.object_of_held hh
        obtain ⟨c₁, hc₁⟩ := hS'.object_of_held ((hL.stay h hP).trans hh)
        have hkeep : S'.object d = S.object d := by
          rcases hL.object d c₀ hc₀ with h₀ | h₀
          · rw [h₀, hc₀]
          · rw [hc₁] at h₀
            cases h₀
        simp [hP, hkeep]

/-- An object's count goes down by the holders that left a handle of it. -/
theorem objectCount (hL : Left P S S') (hS : S.Ok) (hS' : S'.Ok) (c : γ) :
    S'.objectCount c + #{h | P h ∧ (S.held h).bind S.object = some c} = S.objectCount c := by
  have hin : (S.users c).filter P =
      ({h | P h ∧ (S.held h).bind S.object = some c} : Finset η) := by
    ext h
    simp [and_comm]
  rw [hS.object, hS'.object, ← hin, ← hL.users hS' hS, Nat.add_comm]
  exact card_filter_add_card_filter_not P

/-- A handle without holders refers to nothing, and any other to what it referred to. -/
theorem object_eq (hL : Left P S S') (hS : S.Ok) (hS' : S'.Ok) (d : δ) :
    S'.object d = if S'.handleCount d = 0 then none else S.object d := by
  split
  · rename_i h0
    exact (hS'.null d).mpr h0
  · rename_i hne
    cases ho : S.object d with
    | none =>
        have h0 := hL.handleCount hS hS' d
        rw [(hS.null d).mp ho] at h0
        omega
    | some c =>
        refine (hL.object d c ho).resolve_right fun hno => hne ((hS'.null d).mp hno)

end Left

/-! ## The operations -/

variable [DecidableEq η]

/-- `h` opens the unused handle `d` on object `c`. -/
def opened (S : Sharing η δ γ) (h : η) (d : δ) (c : γ) : Sharing η δ γ where
  held := Function.update S.held h (some d)
  object := Function.update S.object d (some c)
  handleCount := Function.update S.handleCount d 1
  objectCount := Function.update S.objectCount c (S.objectCount c + 1)

/-- `h` gets the handle `d`, which refers to `c`. -/
def shared (S : Sharing η δ γ) (h : η) (d : δ) (c : γ) : Sharing η δ γ where
  held := Function.update S.held h (some d)
  object := S.object
  handleCount := Function.update S.handleCount d (S.handleCount d + 1)
  objectCount := Function.update S.objectCount c (S.objectCount c + 1)

/-- `h` drops its handle `d`, which refers to `c`. -/
def dropped (S : Sharing η δ γ) (h : η) (d : δ) (c : γ) : Sharing η δ γ where
  held := Function.update S.held h none
  object := if S.handleCount d = 1 then Function.update S.object d none else S.object
  handleCount := Function.update S.handleCount d (S.handleCount d - 1)
  objectCount := Function.update S.objectCount c (S.objectCount c - 1)

namespace Ok

theorem opened (hS : S.Ok) (hh : S.held h = none) (hd : S.object d = none) :
    (S.opened h d c).Ok := by
  have hfree := hS.free_of_null hd
  refine ⟨fun x => ?_, fun x => ?_, fun x => ?_⟩
  · by_cases hx : x = d
    · subst hx
      have : (S.opened h x c).holders x = {h} := by
        ext k
        by_cases hk : k = h
        · simp [Sharing.opened, hk]
        · simp [Sharing.opened, hk, hfree k]
      rw [this]
      simp [Sharing.opened]
    · have : (S.opened h d c).holders x = S.holders x := by
        ext k
        by_cases hk : k = h
        · simp [Sharing.opened, hk, hh, Ne.symm hx]
        · simp [Sharing.opened, hk]
      rw [this]
      simp [Sharing.opened, hx, hS.handle]
  · by_cases hx : x = d
    · simp [Sharing.opened, hx]
    · simp [Sharing.opened, hx, hS.null]
  · have hne : ∀ k d', S.held k = some d' → d' ≠ d := fun k d' hk he => hfree k (he ▸ hk)
    have hbind : ∀ k, k ≠ h →
        (((S.opened h d c).held k).bind (S.opened h d c).object) = (S.held k).bind S.object := by
      intro k hk
      have : (S.opened h d c).held k = S.held k := by simp [Sharing.opened, hk]
      rw [this]
      cases hk' : S.held k with
      | none => rfl
      | some d' => simp [Sharing.opened, hne k d' hk']
    have hself : ((S.opened h d c).held h).bind (S.opened h d c).object = some c := by
      simp [Sharing.opened]
    by_cases hx : x = c
    · subst hx
      have : (S.opened h d x).users x = insert h (S.users x) := by
        ext k
        by_cases hk : k = h
        · simp [hk, hself]
        · simp [hk, hbind k hk]
      rw [this, card_insert_of_notMem (by simp [hh])]
      simp [Sharing.opened, hS.object]
    · have : (S.opened h d c).users x = S.users x := by
        ext k
        by_cases hk : k = h
        · simp [hk, hself, hh, Ne.symm hx]
        · simp [hbind k hk]
      rw [this]
      simp [Sharing.opened, hx, hS.object]

theorem shared (hS : S.Ok) (hh : S.held h = none) (hd : S.object d = some c) :
    (S.shared h d c).Ok := by
  refine ⟨fun x => ?_, fun x => ?_, fun x => ?_⟩
  · by_cases hx : x = d
    · subst hx
      have : (S.shared h x c).holders x = insert h (S.holders x) := by
        ext k
        by_cases hk : k = h
        · simp [Sharing.shared, hk]
        · simp [Sharing.shared, hk]
      rw [this, card_insert_of_notMem (by simp [hh])]
      simp [Sharing.shared, hS.handle]
    · have : (S.shared h d c).holders x = S.holders x := by
        ext k
        by_cases hk : k = h
        · simp [Sharing.shared, hk, hh, Ne.symm hx]
        · simp [Sharing.shared, hk]
      rw [this]
      simp [Sharing.shared, hx, hS.handle]
  · by_cases hx : x = d
    · simp [Sharing.shared, hx, hd]
    · simp [Sharing.shared, hx, hS.null]
  · have hbind : ∀ k, k ≠ h →
        (((S.shared h d c).held k).bind (S.shared h d c).object) = (S.held k).bind S.object := by
      intro k hk
      simp [Sharing.shared, hk]
    have hself : ((S.shared h d c).held h).bind (S.shared h d c).object = some c := by
      simp [Sharing.shared, hd]
    by_cases hx : x = c
    · subst hx
      have : (S.shared h d x).users x = insert h (S.users x) := by
        ext k
        by_cases hk : k = h
        · simp [hk, hself]
        · simp [hk, hbind k hk]
      rw [this, card_insert_of_notMem (by simp [hh])]
      simp [Sharing.shared, hS.object]
    · have : (S.shared h d c).users x = S.users x := by
        ext k
        by_cases hk : k = h
        · simp [hk, hself, hh, Ne.symm hx]
        · simp [hbind k hk]
      rw [this]
      simp [Sharing.shared, hx, hS.object]

theorem dropped (hS : S.Ok) (hh : S.held h = some d) (hd : S.object d = some c) :
    (S.dropped h d c).Ok := by
  have hholders : ∀ x, (S.dropped h d c).holders x = (S.holders x).erase h := by
    intro x
    ext k
    by_cases hk : k = h
    · simp [Sharing.dropped, hk]
    · simp [Sharing.dropped, hk]
  have hcount : ∀ x, (S.dropped h d c).handleCount x = #((S.dropped h d c).holders x) := by
    intro x
    rw [hholders]
    by_cases hx : x = d
    · subst hx
      rw [card_erase_of_mem (mem_holders.mpr hh)]
      simp [Sharing.dropped, hS.handle]
    · rw [erase_eq_of_notMem (by simp [hh, Ne.symm hx])]
      simp [Sharing.dropped, hx, hS.handle]
  have hobject : ∀ x, x ≠ d → (S.dropped h d c).object x = S.object x := by
    intro x hx
    unfold Sharing.dropped
    dsimp only
    split
    · rw [Function.update_of_ne hx]
    · rfl
  refine ⟨hcount, fun x => ?_, fun x => ?_⟩
  · by_cases hx : x = d
    · subst hx
      have hpos := hS.handleCount_pos hh
      by_cases h1 : S.handleCount x = 1
      · simp [Sharing.dropped, h1]
      · simp only [Sharing.dropped, h1, if_false, hd, Function.update_self]
        constructor
        · exact nofun
        · omega
    · rw [hobject x hx, hS.null]
      simp [Sharing.dropped, hx]
  · -- a handle that others still hold keeps its object
    have hkeep : ∀ k, k ≠ h →
        ((S.dropped h d c).held k).bind (S.dropped h d c).object = (S.held k).bind S.object := by
      intro k hk
      have hheld : (S.dropped h d c).held k = S.held k := by simp [Sharing.dropped, hk]
      rw [hheld]
      cases hk' : S.held k with
      | none => rfl
      | some d' =>
          rw [Option.bind_some, Option.bind_some]
          by_cases hd' : d' = d
          · subst hd'
            have hne : S.handleCount d' ≠ 1 := by
              rw [hS.handle]
              intro h1
              obtain ⟨y, hy⟩ := card_eq_one.mp h1
              have hm1 : h ∈ S.holders d' := mem_holders.mpr hh
              have hm2 : k ∈ S.holders d' := mem_holders.mpr hk'
              rw [hy, mem_singleton] at hm1 hm2
              exact hk (hm2.trans hm1.symm)
            simp [Sharing.dropped, hne]
          · exact hobject d' hd'
    have hself : ((S.dropped h d c).held h).bind (S.dropped h d c).object = none := by
      simp [Sharing.dropped]
    have husers : (S.dropped h d c).users x = (S.users x).erase h := by
      ext k
      by_cases hk : k = h
      · simp [hk, hself]
      · simp [hk, hkeep k hk]
    rw [husers]
    by_cases hx : x = c
    · subst hx
      rw [card_erase_of_mem (by simp [hh, hd])]
      simp [Sharing.dropped, hS.object]
    · rw [erase_eq_of_notMem (by simp [hh, hd, Ne.symm hx])]
      simp [Sharing.dropped, hx, hS.object]

/-- To drop a handle right after it was opened undoes the opening. -/
theorem opened_dropped (hS : S.Ok) (hh : S.held h = none) (hd : S.object d = none) :
    (S.opened h d c).dropped h d c = S := by
  have hcount := (hS.null d).mp hd
  have hheld : Function.update S.held h none = S.held := by rw [← hh, Function.update_eq_self]
  have hobject : Function.update S.object d none = S.object := by
    rw [← hd, Function.update_eq_self]
  have hhandles : Function.update S.handleCount d (1 - 1) = S.handleCount := by
    rw [Nat.sub_self, ← hcount, Function.update_eq_self]
  unfold Sharing.dropped Sharing.opened
  simp only [Function.update_self, Function.update_idem, if_true, Nat.add_sub_cancel]
  rw [hheld, hobject, hhandles, Function.update_eq_self]

end Ok

end Sharing

end Os64.Lib
