/-
  The list type of lib.c is a sequence.

  `Represents l xs`: the `next` pointers lead through `xs`, each item once, to `NULL`, and `tail`
  points at the last of them.

  * `appendListTail_represents`, `removeListHead_represents`, `removeList_represents`: the calls.
  * `evolves_represents`: any calls, from the empty list, with anything in between that leaves the
    list alone.
  * `appendListTail_items`, `removeListHead_items`, `removeList_items`: the kernel's lists are such
    lists.
-/
import Os64.Kernel.HeadList
import Os64.Sched.Queues

namespace Os64

open Os64.Lib

namespace Items

variable {α : Type}

structure Represents (l : Items α) (xs : List α) : Prop where
  queue : Queue l.next l.head l.tail xs
  nodup : xs.Nodup

variable [DecidableEq α] {l l' : Items α} {xs : List α}

/-! ## The calls -/

theorem appendListTail_represents (h : Represents l xs) {i : α} (hi : i ∉ xs) :
    ∃ l', l.appendListTail i = some l' ∧ Represents l' (xs ++ [i]) ∧ l'.wait = l.wait := by
  have hnd : (xs ++ [i]).Nodup := List.nodup_append.mpr
    ⟨h.nodup, List.nodup_singleton i, fun a ha b hb => by
      rw [List.mem_singleton.mp hb]
      rintro rfl
      exact hi ha⟩
  unfold appendListTail isListEmpty setNext
  dsimp only
  rcases List.eq_nil_or_concat xs with rfl | ⟨ys, p, rfl⟩
  · rw [h.queue.empty_iff.mpr rfl]
    exact ⟨_, rfl, ⟨.single i, hnd⟩, rfl⟩
  · have hhead : l.head.isNone = false := by
      cases hn : l.head with
      | none =>
          have h0 := h.queue.empty_iff.mp hn
          rw [List.concat_eq_append] at h0
          exact absurd h0 (List.append_ne_nil_of_right_ne_nil ys (List.cons_ne_nil p []))
      | some _ => rfl
    rw [List.concat_eq_append] at h hi hnd ⊢
    have htail : l.tail = some p := by
      rw [h.queue.last, List.getLast?_append, List.getLast?_singleton]
      rfl
    rw [hhead, htail]
    exact ⟨_, rfl, ⟨h.queue.append hi h.nodup, hnd⟩, rfl⟩

omit [DecidableEq α] in
theorem removeListHead_represents (h : Represents l xs) :
    (l.removeListHead).1 = xs.head? ∧ Represents (l.removeListHead).2 xs.tail ∧
      (l.removeListHead).2.wait = l.wait := by
  unfold removeListHead
  cases xs with
  | nil =>
      rw [h.queue.empty_iff.mpr rfl]
      exact ⟨rfl, h, rfl⟩
  | cons x xs =>
      have hhead : l.head = some x := h.queue.chain.1
      have hq := h.queue.dropHead
      rw [hhead]
      dsimp only
      refine ⟨rfl, ⟨?_, (List.nodup_cons.mp h.nodup).2⟩, ?_⟩
      · split at hq
        · rw [if_pos ‹_›]
          exact hq
        · rw [if_neg ‹_›]
          exact hq
      · split <;> rfl

/-- The state of the list after `x`, which comes behind `us`, was taken off. -/
theorem unlinked_represents {us vs : List α} {x : α} (h : Represents l (us ++ x :: vs)) {w : Int}
    (hw : l.wait x = w) (fuel : Nat) :
    ∃ l', removeListLoop w (fuel + 1) us.getLast? (some x) l = some (some x, l') ∧
      Represents l' (us ++ vs) ∧ l'.wait = l.wait := by
  have hnd : (us ++ vs).Nodup :=
    h.nodup.sublist (List.Sublist.append (List.Sublist.refl us) (List.sublist_cons_self x vs))
  unfold removeListLoop
  rw [if_pos hw]
  rcases List.eq_nil_or_concat us with rfl | ⟨ys, p, rfl⟩
  · -- `prev` is the list head
    have hq := h.queue.dropHead
    rw [List.getLast?_nil]
    dsimp only
    split at hq
    · rename_i hn
      rw [if_pos hn]
      exact ⟨_, rfl, ⟨hq, hnd⟩, rfl⟩
    · rename_i hn
      rw [if_neg hn, if_neg hn]
      exact ⟨_, rfl, ⟨hq, hnd⟩, rfl⟩
  · rw [List.concat_eq_append] at h hnd ⊢
    have hlast : (ys ++ [p]).getLast? = some p := by
      rw [List.getLast?_append, List.getLast?_singleton]
      rfl
    rw [List.append_assoc] at h
    have hq := h.queue.unlink h.nodup
    have hhead : l.head ≠ none := fun hn =>
      List.append_ne_nil_of_right_ne_nil ys (List.cons_ne_nil p _) (h.queue.empty_iff.mp hn)
    -- `current->next` is what it was, also if `prev` is `current`
    have hnext : (l.setNext p (l.next x)).next x = l.next x := by
      unfold setNext
      dsimp only
      by_cases hxp : x = p
      · rw [hxp, Function.update_self]
      · rw [Function.update_of_ne hxp]
    have hsome : ¬ (l.setNext p (l.next x)).head.isNone = true := by
      rw [Option.isNone_iff_eq_none]
      exact hhead
    rw [List.append_assoc] at hnd ⊢
    rw [hlast]
    dsimp only
    rw [if_neg hsome, hnext]
    split at hq
    · rename_i hn
      rw [if_pos hn]
      exact ⟨_, rfl, ⟨hq, hnd⟩, rfl⟩
    · rename_i hn
      rw [if_neg hn]
      exact ⟨_, rfl, ⟨hq, hnd⟩, rfl⟩

/-- From the item behind `us` on, the loop finds the first one that waits for `w`. -/
theorem removeListLoop_represents {us ys : List α} (h : Represents l (us ++ ys)) (w : Int)
    {fuel : Nat} (hf : ys.length < fuel) :
    (∀ i ∈ ys, l.wait i ≠ w) ∧ removeListLoop w fuel us.getLast? ys.head? l = some (none, l) ∨
      ∃ zs x vs l', ys = zs ++ x :: vs ∧ (∀ i ∈ zs, l.wait i ≠ w) ∧ l.wait x = w ∧
        removeListLoop w fuel us.getLast? ys.head? l = some (some x, l') ∧
        Represents l' (us ++ zs ++ vs) ∧ l'.wait = l.wait := by
  induction ys generalizing us fuel with
  | nil =>
      obtain ⟨fuel, rfl⟩ := Nat.exists_eq_succ_of_ne_zero (Nat.ne_zero_of_lt hf)
      exact Or.inl ⟨nofun, rfl⟩
  | cons y ys ih =>
      obtain ⟨fuel, rfl⟩ := Nat.exists_eq_succ_of_ne_zero (Nat.ne_zero_of_lt hf)
      by_cases hw : l.wait y = w
      · obtain ⟨l', hrun, hr, hwait⟩ := unlinked_represents h hw fuel
        refine Or.inr ⟨[], y, ys, l', rfl, nofun, hw, hrun, ?_, hwait⟩
        rw [List.append_nil]
        exact hr
      · have hassoc : us ++ y :: ys = us ++ [y] ++ ys := by
          rw [List.append_assoc]
          rfl
        have hnext : l.next y = ys.head? := by
          have hc := h.queue.chain
          rw [hassoc] at hc
          have hd := hc.drop_prefix
          rw [List.getLast?_append, List.getLast?_singleton] at hd
          exact hd.head_eq
        have hstep : removeListLoop w (fuel + 1) us.getLast? (y :: ys).head? l =
            removeListLoop w fuel (us ++ [y]).getLast? ys.head? l := by
          rw [List.getLast?_append, List.getLast?_singleton, ← hnext]
          exact if_neg hw
        rw [hstep]
        rw [List.length_cons] at hf
        have hcons : ∀ {zs : List α}, (∀ i ∈ zs, l.wait i ≠ w) → ∀ i ∈ y :: zs, l.wait i ≠ w :=
          fun hzs i hi => (List.mem_cons.mp hi).elim (fun he => he ▸ hw) (hzs i)
        rw [hassoc] at h
        have hlt : ys.length < fuel := by omega
        rcases ih h hlt with ⟨hno, hrun⟩ | ⟨zs, x, vs, l', rfl, hno, hx, hrun, hr, hwait⟩
        · exact Or.inl ⟨hcons hno, hrun⟩
        · refine Or.inr ⟨y :: zs, x, vs, l', rfl, hcons hno, hx, hrun, ?_, hwait⟩
          rw [List.append_assoc us [y] zs] at hr
          exact hr

theorem removeList_represents (h : Represents l xs) (w : Int) {fuel : Nat} (hf : xs.length < fuel) :
    ∃ l', l.removeList fuel w = some (xs.find? (fun i => l.wait i = w), l') ∧
      Represents l' (xs.eraseP fun i => l.wait i = w) ∧ l'.wait = l.wait ∧
      ((xs.find? fun i => l.wait i = w) = none → l' = l) := by
  unfold removeList
  rw [h.queue.chain.head_eq]
  have h0 : Represents l ([] ++ xs) := h
  rcases removeListLoop_represents h0 w hf with
    ⟨hno, hrun⟩ | ⟨zs, x, vs, l', rfl, hno, hx, hrun, hr, hwait⟩
  · have hnone : xs.find? (fun i => l.wait i = w) = none :=
      List.find?_eq_none.mpr fun i hi => by
        rw [decide_eq_true_iff]
        exact hno i hi
    have hsame : xs.eraseP (fun i => l.wait i = w) = xs :=
      List.eraseP_of_forall_not fun i hi => by
        rw [decide_eq_true_iff]
        exact hno i hi
    rw [hnone, hsame]
    exact ⟨l, hrun, h, rfl, fun _ => rfl⟩
  · have hfind : (zs ++ x :: vs).find? (fun i => l.wait i = w) = some x :=
      List.find?_eq_some_iff_append.mpr ⟨by rw [decide_eq_true_iff]; exact hx, zs, vs, rfl,
        fun i hi => by
          rw [Bool.not_eq_true', decide_eq_false_iff_not]
          exact hno i hi⟩
    have herase : (zs ++ x :: vs).eraseP (fun i => l.wait i = w) = zs ++ vs := by
      rw [List.eraseP_append_right _ fun i hi => by
        rw [decide_eq_true_iff]
        exact hno i hi]
      rw [List.eraseP_cons_of_pos (by rw [decide_eq_true_iff]; exact hx)]
    rw [hfind, herase]
    exact ⟨l', hrun, hr, hwait, fun hn => nomatch hn⟩

/-! ## Any calls -/

inductive Call (α : Type) where
  | append (item : α)
  | removeHead
  | remove (wait : Int)

/-- A call on the list: what it returns (nothing, for an append) and leaves. -/
def Call.run (fuel : Nat) (l : Items α) : Call α → Option (Option α × Items α)
  | .append item => (l.appendListTail item).map fun l => (none, l)
  | .removeHead => some l.removeListHead
  | .remove wait => l.removeList fuel wait

omit [DecidableEq α] in
/-- The call on the sequence, whose items wait as `wait` says. -/
def Call.act (wait : α → Int) (xs : List α) : Call α → Option α × List α
  | .append item => (none, xs ++ [item])
  | .removeHead => (xs.head?, xs.tail)
  | .remove w => (xs.find? (fun i => wait i = w), xs.eraseP fun i => wait i = w)

/-- An item that is appended is not on the list already. -/
def Call.Fresh (xs : List α) : Call α → Prop
  | .append item => item ∉ xs
  | _ => True

/-- One call takes the list to what it takes the sequence to. -/
theorem call_represents (h : Represents l xs) {c : Call α} (hc : c.Fresh xs) {fuel : Nat}
    (hf : xs.length < fuel) : ∃ l', c.run fuel l = some ((c.act l.wait xs).1, l') ∧
      Represents l' (c.act l.wait xs).2 ∧ l'.wait = l.wait := by
  cases c with
  | append item =>
      obtain ⟨l', hrun, hr, hw⟩ := appendListTail_represents h hc
      refine ⟨l', ?_, hr, hw⟩
      unfold Call.run
      dsimp only
      rw [hrun]
      rfl
  | removeHead =>
      obtain ⟨hx, hr, hw⟩ := removeListHead_represents h
      refine ⟨l.removeListHead.2, ?_, hr, hw⟩
      unfold Call.run Call.act
      dsimp only
      rw [← hx]
  | remove wait =>
      obtain ⟨l', hrun, hr, hw, -⟩ := removeList_represents h wait hf
      exact ⟨l', hrun, hr, hw⟩

/-- Calls from `l₀`, with the sequence that they should lead to. Other steps change `wait` fields
    and items off the list. -/
inductive Evolves (l₀ : Items α) : List α → Items α → Prop
  | start : Evolves l₀ [] l₀
  | call {xs : List α} {l l' : Items α} {r : Option α} {fuel : Nat} (h : Evolves l₀ xs l) (c : Call α)
      (hc : c.Fresh xs) (hf : xs.length < fuel) (hrun : c.run fuel l = some (r, l')) :
      Evolves l₀ (c.act l.wait xs).2 l'
  | other {xs : List α} {l l' : Items α} (h : Evolves l₀ xs l) (hhead : l'.head = l.head)
      (htail : l'.tail = l.tail) (hnext : ∀ i ∈ xs, l'.next i = l.next i) : Evolves l₀ xs l'

theorem Evolves.represents {l₀ : Items α} (h₀ : l₀.head = none ∧ l₀.tail = none)
    (h : Evolves l₀ xs l) : Represents l xs := by
  induction h with
  | start => exact ⟨⟨h₀.1, h₀.2⟩, List.nodup_nil⟩
  | call _ c hc hf hrun ih =>
      obtain ⟨l', hrun', hr, -⟩ := call_represents ih hc hf
      rw [hrun'] at hrun
      obtain ⟨-, rfl⟩ := Prod.mk.inj (Option.some.inj hrun)
      exact hr
  | other _ hhead htail hnext ih =>
      refine ⟨⟨?_, ?_⟩, ih.nodup⟩
      · rw [hhead]
        exact ih.queue.chain.congr hnext
      · rw [htail]
        exact ih.queue.last

/-- Whatever calls were made, the list is the sequence they should lead to. Each next call returns
    what it should and leads to the next sequence; `remove_list` returns `NULL` exactly when no item
    matches, and changes nothing then. -/
theorem evolves_represents {l₀ : Items α} (h₀ : l₀.head = none ∧ l₀.tail = none)
    (h : Evolves l₀ xs l) : Represents l xs ∧
      (∀ c : Call α, c.Fresh xs → ∀ fuel, xs.length < fuel →
        ∃ l', c.run fuel l = some ((c.act l.wait xs).1, l') ∧ Represents l' (c.act l.wait xs).2) ∧
      ∀ w fuel, xs.length < fuel → ((∃ l', l.removeList fuel w = some (none, l')) ↔
          ∀ i ∈ xs, l.wait i ≠ w) ∧
        ∀ l', l.removeList fuel w = some (none, l') → l' = l := by
  have hr := h.represents h₀
  refine ⟨hr, fun c hc fuel hf => ?_, fun w fuel hf => ?_⟩
  · obtain ⟨l', hrun, hr', -⟩ := call_represents hr hc hf
    exact ⟨l', hrun, hr'⟩
  · obtain ⟨l₁, hrun, -, -, hsame⟩ := removeList_represents hr w hf
    have hnone : xs.find? (fun i => l.wait i = w) = none ↔ ∀ i ∈ xs, l.wait i ≠ w := by
      rw [List.find?_eq_none]
      exact forall₂_congr fun i _ => by rw [decide_eq_true_iff]
    rw [hrun, ← hnone]
    refine ⟨⟨?_, fun hn => ⟨l₁, by rw [hn]⟩⟩, ?_⟩
    · rintro ⟨l', hl⟩
      exact (Prod.mk.inj (Option.some.inj hl)).1
    · intro l' hl
      obtain ⟨hn, rfl⟩ := Prod.mk.inj (Option.some.inj hl)
      exact hsame hn

/-- Numbers as items; two of them are appended to the empty list. -/
theorem evolves_represents_two : ∃ l : Items Nat, Evolves ⟨fun _ => none, fun _ => 0, none, none⟩ [3, 5] l ∧
    Represents l [3, 5] ∧
      (∀ c : Call Nat, c.Fresh [3, 5] → ∀ fuel, [3, 5].length < fuel →
        ∃ l', c.run fuel l = some ((c.act l.wait [3, 5]).1, l') ∧ Represents l' (c.act l.wait [3, 5]).2) ∧
      ∀ w fuel, [3, 5].length < fuel → ((∃ l', l.removeList fuel w = some (none, l')) ↔
          ∀ i ∈ [3, 5], l.wait i ≠ w) ∧
        ∀ l', l.removeList fuel w = some (none, l') → l' = l := by
  have h1 : Evolves (⟨fun _ => none, fun _ => 0, none, none⟩ : Items Nat) [3] _ :=
    .call .start (.append 3) List.not_mem_nil (Nat.lt_succ_self 0) rfl
  have h2 : Evolves (⟨fun _ => none, fun _ => 0, none, none⟩ : Items Nat) [3, 5] _ :=
    .call h1 (.append 5) (show 5 ∉ [3] by decide) (Nat.lt_succ_self 1) rfl
  exact ⟨_, h2, evolves_represents ⟨rfl, rfl⟩ h2⟩

end Items

/-! ## The kernel's lists -/

/-- List `q` of the control block, with the process table behind it. -/
def Kernel.items (s : Kernel) (q : ListId) : Items Slot where
  next := s.links
  wait i := (s.processTable i).wait
  head := (s.pc.list q).next
  tail := (s.pc.list q).tail

section Kernel

variable {s s' : Kernel} {q : ListId}

theorem items_setNext (s : Kernel) (q : ListId) (i : Slot) (n : Option Slot) :
    (s.setProcess i fun p => { p with next := n }).items q = (s.items q).setNext i n := by
  have hwait : (fun j => ((s.setProcess i fun p => { p with next := n }).processTable j).wait) =
      fun j => (s.processTable j).wait := by
    funext j
    exact (sameButLinks_setNext s i n).wait j
  unfold Kernel.items Items.setNext
  rw [links_setProcess, hwait]
  rfl

theorem items_setList (s : Kernel) (q : ListId) (l : HeadList) :
    (s.setList q l).items q = ⟨s.links, fun i => (s.processTable i).wait, l.next, l.tail⟩ := by
  unfold Kernel.items Kernel.setList
  rw [ProcessControl.list_setList]
  rfl

theorem appendListTail_items {i : Slot} {u : Unit} (h : appendListTail q i s = .ok u s') :
    (s.items q).appendListTail i = some (s'.items q) := by
  unfold appendListTail at h
  rw [bind_run (setProcess_run i _ s), bind_run (get_run _)] at h
  have hitems := items_setNext s q i none
  generalize s.setProcess i (fun p => { p with next := none }) = s₁ at h hitems
  have hempty : ((s.items q).setNext i none).isListEmpty = isListEmpty (s₁.pc.list q) := by
    rw [← hitems]
    rfl
  have htail : ((s.items q).setNext i none).tail = (s₁.pc.list q).tail := by
    rw [← hitems]
    rfl
  unfold Items.appendListTail
  dsimp only
  rw [hempty, htail]
  split at h
  · rename_i he
    obtain ⟨-, rfl⟩ := EStateM.Result.ok.inj h
    have hset := items_setList s₁ q ⟨some i, some i⟩
    rw [if_pos he, ← hitems]
    exact congrArg some hset.symm
  · rename_i he
    rw [if_neg he]
    cases ht : (s₁.pc.list q).tail with
    | none =>
        rw [ht] at h
        cases h
    | some t =>
        rw [ht] at h
        dsimp only at h ⊢
        rw [bind_run (setProcess_run t _ s₁)] at h
        obtain ⟨-, rfl⟩ := EStateM.Result.ok.inj h
        have ht' := items_setNext s₁ q t (some i)
        have hset := items_setList (s₁.setProcess t fun p => { p with next := some i }) q
          { s₁.pc.list q with tail := some i }
        rw [← hitems, ← ht']
        exact congrArg some hset.symm

theorem removeListHead_items {v : Option Slot} (h : removeListHead q s = .ok v s') :
    (s.items q).removeListHead = (v, s'.items q) := by
  unfold removeListHead at h
  rw [bind_run (get_run s)] at h
  unfold Items.removeListHead
  have hhead : (s.items q).head = (s.pc.list q).next := rfl
  rw [hhead]
  cases hn : (s.pc.list q).next with
  | none =>
      rw [hn] at h
      obtain ⟨rfl, rfl⟩ := EStateM.Result.ok.inj h
      rfl
  | some item =>
      rw [hn] at h
      obtain ⟨rfl, rfl⟩ := EStateM.Result.ok.inj h
      have hset := items_setList s q ⟨(s.processTable item).next,
        if (s.processTable item).next.isNone then none else (s.pc.list q).tail⟩
      refine Prod.ext rfl (Eq.trans ?_ hset.symm)
      change (if (s.processTable item).next.isNone = true then _ else _ : Items Slot) = _
      split <;> rfl

/-- The repair of `tail` after an item was taken off. -/
theorem repair_items {x : Slot} {next prev v : Option Slot} (hnext : (s.items q).next x = next)
    (h : (do
      let s ← get
      if isListEmpty (s.pc.list q) then
        setList q { s.pc.list q with tail := none }
      else if next.isNone then
        setList q { s.pc.list q with tail := prev }
      return some x : LowM (Option Slot)) s = .ok v s') :
    (if (s.items q).head.isNone then some (some x, { s.items q with tail := none })
      else if ((s.items q).next x).isNone then some (some x, { s.items q with tail := prev })
      else some (some x, s.items q)) = some (v, s'.items q) := by
  rw [bind_run (get_run s)] at h
  have hempty : (s.items q).head.isNone = isListEmpty (s.pc.list q) := rfl
  have hset : ∀ t, some (some x, { s.items q with tail := t }) =
      some (some x, (s.setList q { s.pc.list q with tail := t }).items q) := fun t =>
    congrArg (fun l => some (some x, l)) (items_setList s q { s.pc.list q with tail := t }).symm
  rw [hempty, hnext]
  by_cases he : isListEmpty (s.pc.list q) = true
  · rw [if_pos he] at h ⊢
    obtain ⟨rfl, rfl⟩ := EStateM.Result.ok.inj h
    exact hset none
  · rw [if_neg he] at h ⊢
    by_cases hn : next.isNone = true
    · rw [if_pos hn] at h ⊢
      obtain ⟨rfl, rfl⟩ := EStateM.Result.ok.inj h
      exact hset prev
    · rw [if_neg hn] at h ⊢
      obtain ⟨rfl, rfl⟩ := EStateM.Result.ok.inj h
      rfl

theorem removeListLoop_items {w : Int} {fuel : Nat} {prev current v : Option Slot}
    (h : removeListLoop q w fuel prev current s = .ok v s') :
    Items.removeListLoop w fuel prev current (s.items q) = some (v, s'.items q) := by
  induction fuel generalizing prev current with
  | zero => cases h
  | succ fuel ih =>
      cases current with
      | none =>
          obtain ⟨rfl, rfl⟩ := EStateM.Result.ok.inj h
          rfl
      | some x =>
          unfold removeListLoop at h
          rw [bind_run (get_run s)] at h
          unfold Items.removeListLoop
          have hwait : (s.items q).wait x = (s.processTable x).wait := rfl
          rw [hwait]
          by_cases he : (s.processTable x).wait = w
          · rw [if_pos he] at h ⊢
            cases prev with
            | none =>
                have hset := items_setList s q { s.pc.list q with next := (s.processTable x).next }
                have hsame : ((s.setList q { s.pc.list q with next := (s.processTable x).next }).items
                    q).next x = (s.processTable x).next := by
                  rw [hset]
                  rfl
                have hrep := repair_items hsame h
                rw [hset] at hrep
                exact hrep
            | some p =>
                have hset := items_setNext s q p (s.processTable x).next
                have hsame : ((s.setProcess p fun pr => { pr with next := (s.processTable x).next }).items
                    q).next x = (s.processTable x).next := by
                  rw [hset]
                  unfold Items.setNext
                  dsimp only
                  by_cases hxp : x = p
                  · rw [hxp, Function.update_self]
                  · rw [Function.update_of_ne hxp]
                    rfl
                have hrep := repair_items hsame h
                rw [hset] at hrep
                exact hrep
          · rw [if_neg he] at h ⊢
            exact ih h

theorem removeList_items {w : Int} {v : Option Slot} (h : removeList q w s = .ok v s') :
    (s.items q).removeList (numProc + 1) w = some (v, s'.items q) := by
  unfold removeList at h
  rw [bind_run (get_run s)] at h
  exact removeListLoop_items h

end Kernel

end Os64
