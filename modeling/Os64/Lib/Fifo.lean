/-
  A queue that is served at its front and joined at its end.

  `Served xs ts ys`: with `xs` waiting, those in `ts` were served one after the other, and `ys`
  waits now. Whoever is served when nobody waits comes from elsewhere, so `ts` may go on after
  the last of `xs`.

  * `Served.join`, `Served.serve`, `Served.trans`: joining, one service, and one stretch of
    time after another.
  * `Served.none`, `Served.one`: what no service and one service mean for those waiting.
  * `Served.turn`, `Served.wait`: the one at position `k` is the `k`-th to be served; until
    then the same ones are before it.
-/
import Mathlib.Data.List.Basic

namespace Os64.Lib

variable {α : Type} {xs ys zs ts us : List α}

def Served (xs ts ys : List α) : Prop := xs <+: ts ∨ ∃ ms, xs = ts ++ ms ∧ ms <+: ys

namespace Served

theorem join (h : xs <+: ys) : Served xs [] ys := Or.inr ⟨xs, rfl, h⟩

theorem serve (x : α) (xs : List α) : Served (x :: xs) [x] xs := Or.inr ⟨xs, rfl, List.prefix_rfl⟩

theorem other (x : α) (ys : List α) : Served [] [x] ys := Or.inl List.nil_prefix

theorem trans (h : Served xs ts ys) (h' : Served ys us zs) : Served xs (ts ++ us) zs := by
  rcases h with h | ⟨ms, rfl, hm⟩
  · exact Or.inl (h.trans (List.prefix_append ts us))
  · rcases h' with h' | ⟨ns, rfl, hn⟩
    · exact Or.inl ((List.prefix_append_right_inj ts).mpr (hm.trans h'))
    · -- those still waiting reach beyond the ones served, or do not
      rcases List.prefix_or_prefix_of_prefix hm (List.prefix_append us ns) with hp | ⟨rs, rfl⟩
      · exact Or.inl ((List.prefix_append_right_inj ts).mpr hp)
      · refine Or.inr ⟨rs, (List.append_assoc ts us rs).symm, ?_⟩
        exact ((List.prefix_append_right_inj us).mp hm).trans hn

theorem none (h : Served xs [] ys) : xs <+: ys := by
  rcases h with h | ⟨ms, rfl, hm⟩
  · rw [List.prefix_nil.mp h]
    exact List.nil_prefix
  · exact hm

theorem one {x : α} (h : Served xs [x] ys) : xs = [] ∨ ∃ rest, xs = x :: rest ∧ rest <+: ys := by
  rcases h with h | ⟨ms, rfl, hm⟩
  · rcases List.prefix_cons_iff.mp h with rfl | ⟨rest, rfl, hr⟩
    · exact Or.inl rfl
    · rw [List.prefix_nil.mp hr]
      exact Or.inr ⟨[], rfl, List.nil_prefix⟩
  · exact Or.inr ⟨ms, rfl, hm⟩

variable {k : Nat}

theorem turn (h : Served xs ts ys) (hk : k < xs.length) (hs : k < ts.length) :
    ts[k]? = xs[k]? := by
  rcases h with ⟨rs, rfl⟩ | ⟨ms, rfl, -⟩
  · rw [List.getElem?_append_left hk]
  · rw [List.getElem?_append_left hs]

theorem wait (h : Served xs ts ys) (hk : k < xs.length) (hs : ts.length ≤ k) :
    ys[k - ts.length]? = xs[k]? ∧ ys.take (k - ts.length) = (xs.take k).drop ts.length := by
  rcases h with h | ⟨ms, rfl, rs, rfl⟩
  · have := h.length_le
    omega
  · rw [List.length_append] at hk
    have hlt : k - ts.length < ms.length := by omega
    constructor
    · rw [List.getElem?_append_left hlt, List.getElem?_append_right hs]
    · rw [List.take_append_of_le_length (by omega), List.take_append,
        List.drop_append_of_le_length (by rw [List.length_take]; omega),
        List.take_of_length_le hs, List.drop_length, List.nil_append]

end Served

end Os64.Lib
