/-
  The three lists of the process control block as sequences of slots.

  `ListsOk s L`: the `next` pointers and the list heads of `s` represent `L`, with no
  slot twice on a list or on two lists. The list functions of lib.c keep it and act on
  `L` as append, removal of the head and removal of the first match
  (`appendListTail_run`, `removeListHead_run`, `removeList_run`). Each of them changes
  links and list heads only (`SameButLinks`).
-/
import Mathlib.Data.Fintype.Card
import Os64.Kernel.List
import Os64.Lib.Chain

namespace Os64

open Os64.Lib

/-- The `next` fields. -/
def Kernel.links (s : Kernel) : Slot → Option Slot := fun i => (s.processTable i).next

structure ListsOk (s : Kernel) (L : ListId → List Slot) : Prop where
  queue : ∀ q, Queue s.links (s.pc.list q).next (s.pc.list q).tail (L q)
  nodup : ∀ q, (L q).Nodup
  apart : ∀ q q' i, i ∈ L q → i ∈ L q' → q = q'

/-- Equal but for `next` fields and list heads. -/
structure SameButLinks (s s' : Kernel) : Prop where
  ram : s'.ram = s.ram
  fcbTable : s'.fcbTable = s.fcbTable
  fileDescTable : s'.fileDescTable = s.fileDescTable
  pidNum : s'.pidNum = s.pidNum
  current : s'.pc.currentProcess = s.pc.currentProcess
  keyBuffer : s'.keyBuffer = s.keyBuffer
  flag : s'.flag = s.flag
  ticks : s'.ticks = s.ticks
  cr3 : s'.cr3 = s.cr3
  rsp0 : s'.rsp0 = s.rsp0
  hist : s'.hist = s.hist
  process : ∀ i, ∃ n, s'.processTable i = { s.processTable i with next := n }

namespace SameButLinks

theorem trans {s s' s'' : Kernel} (h : SameButLinks s s') (h' : SameButLinks s' s'') :
    SameButLinks s s'' where
  ram := h'.ram.trans h.ram
  fcbTable := h'.fcbTable.trans h.fcbTable
  fileDescTable := h'.fileDescTable.trans h.fileDescTable
  pidNum := h'.pidNum.trans h.pidNum
  current := h'.current.trans h.current
  keyBuffer := h'.keyBuffer.trans h.keyBuffer
  flag := h'.flag.trans h.flag
  ticks := h'.ticks.trans h.ticks
  cr3 := h'.cr3.trans h.cr3
  rsp0 := h'.rsp0.trans h.rsp0
  hist := h'.hist.trans h.hist
  process i := by
    obtain ⟨n, hn⟩ := h.process i
    obtain ⟨n', hn'⟩ := h'.process i
    exact ⟨n', by rw [hn', hn]⟩

variable {s s' : Kernel}

theorem state (h : SameButLinks s s') (i : Slot) :
    (s'.processTable i).state = (s.processTable i).state := by
  obtain ⟨n, hn⟩ := h.process i
  rw [hn]

theorem pid (h : SameButLinks s s') (i : Slot) :
    (s'.processTable i).pid = (s.processTable i).pid := by
  obtain ⟨n, hn⟩ := h.process i
  rw [hn]

theorem wait (h : SameButLinks s s') (i : Slot) :
    (s'.processTable i).wait = (s.processTable i).wait := by
  obtain ⟨n, hn⟩ := h.process i
  rw [hn]

theorem kont (h : SameButLinks s s') (i : Slot) :
    (s'.processTable i).kont = (s.processTable i).kont := by
  obtain ⟨n, hn⟩ := h.process i
  rw [hn]

end SameButLinks

/-! ## Effects of the field updates -/

/-- `setProcess` as a function on states. -/
def Kernel.setProcess (s : Kernel) (i : Slot) (f : Process → Process) : Kernel :=
  { s with processTable := Function.update s.processTable i (f (s.processTable i)) }

/-- `setList` as a function on states. -/
def Kernel.setList (s : Kernel) (q : ListId) (l : HeadList) : Kernel :=
  { s with pc := s.pc.setList q l }

section Runs

variable {ε : Type}

@[simp] theorem setProcess_run (i : Slot) (f : Process → Process) (s : Kernel) :
    (setProcess i f : EStateM ε Kernel Unit) s = .ok () (s.setProcess i f) := rfl

@[simp] theorem setList_run (q : ListId) (l : HeadList) (s : Kernel) :
    (setList q l : EStateM ε Kernel Unit) s = .ok () (s.setList q l) := rfl

@[simp] theorem observe_run (o : Obs) (s : Kernel) :
    (observe o : EStateM ε Kernel Unit) s = .ok () { s with hist := s.hist ++ [o] } := rfl

end Runs

@[simp] theorem ProcessControl.list_setList (pc : ProcessControl) (q : ListId) (l : HeadList) :
    (pc.setList q l).list q = l := by cases q <;> rfl

theorem ProcessControl.list_setList_ne (pc : ProcessControl) {q q' : ListId} (h : q' ≠ q)
    (l : HeadList) : (pc.setList q l).list q' = pc.list q' := by
  cases q <;> cases q' <;> first | rfl | exact absurd rfl h

@[simp] theorem ProcessControl.currentProcess_setList (pc : ProcessControl) (q : ListId)
    (l : HeadList) : (pc.setList q l).currentProcess = pc.currentProcess := by cases q <;> rfl

theorem links_setProcess (s : Kernel) (i : Slot) (f : Process → Process) :
    (s.setProcess i f).links = Function.update s.links i (f (s.processTable i)).next := by
  funext j
  by_cases h : j = i
  · subst h
    simp [Kernel.links, Kernel.setProcess]
  · simp [Kernel.links, Kernel.setProcess, Function.update_of_ne h]

@[simp] theorem links_setList (s : Kernel) (q : ListId) (l : HeadList) :
    (s.setList q l).links = s.links := rfl

theorem sameButLinks_setList (s : Kernel) (q : ListId) (l : HeadList) :
    SameButLinks s (s.setList q l) where
  ram := rfl
  fcbTable := rfl
  fileDescTable := rfl
  pidNum := rfl
  current := by simp [Kernel.setList]
  keyBuffer := rfl
  flag := rfl
  ticks := rfl
  cr3 := rfl
  rsp0 := rfl
  hist := rfl
  process _ := ⟨_, rfl⟩

theorem sameButLinks_setNext (s : Kernel) (i : Slot) (n : Option Slot) :
    SameButLinks s (s.setProcess i fun p => { p with next := n }) where
  ram := rfl
  fcbTable := rfl
  fileDescTable := rfl
  pidNum := rfl
  current := rfl
  keyBuffer := rfl
  flag := rfl
  ticks := rfl
  cr3 := rfl
  rsp0 := rfl
  hist := rfl
  process j := by
    by_cases h : j = i
    · subst h
      exact ⟨n, by simp [Kernel.setProcess]⟩
    · exact ⟨_, by simp [Kernel.setProcess, Function.update_of_ne h]; rfl⟩

/-- An update that keeps a `next` field keeps the lists. -/
theorem ListsOk.setProcess {s : Kernel} {L : ListId → List Slot} (h : ListsOk s L) (i : Slot)
    {f : Process → Process} (hf : (f (s.processTable i)).next = (s.processTable i).next) :
    ListsOk (s.setProcess i f) L := by
  refine ⟨fun q => ?_, h.nodup, h.apart⟩
  rw [links_setProcess, hf]
  have : Function.update s.links i (s.processTable i).next = s.links := Function.update_eq_self i s.links
  rw [this]
  exact h.queue q

/-- So does an update of a slot that is on no list. -/
theorem ListsOk.setFree {s : Kernel} {L : ListId → List Slot} (h : ListsOk s L) {i : Slot}
    (hi : ∀ q, i ∉ L q) (f : Process → Process) : ListsOk (s.setProcess i f) L := by
  refine ⟨fun q => ?_, h.nodup, h.apart⟩
  rw [links_setProcess]
  exact (h.queue q).update (hi q) _

/-- Fields other than the process table and the control block do not matter. -/
theorem ListsOk.of_eq {s s' : Kernel} {L : ListId → List Slot} (h : ListsOk s L)
    (ht : s'.processTable = s.processTable) (hp : ∀ q, s'.pc.list q = s.pc.list q) :
    ListsOk s' L := by
  refine ⟨fun q => ?_, h.nodup, h.apart⟩
  unfold Kernel.links
  rw [ht, hp q]
  exact h.queue q

/-! ## Appending -/

variable {s : Kernel} {L : ListId → List Slot} {q : ListId} {i : Slot}

/-- Installing a new representation of one list. -/
theorem ListsOk.replace {s' : Kernel} {xs : List Slot} (h : ListsOk s L)
    (hq : Queue s'.links (s'.pc.list q).next (s'.pc.list q).tail xs) (hnd : xs.Nodup)
    (hxs : ∀ q' ≠ q, ∀ j ∈ xs, j ∉ L q')
    (hother : ∀ q' ≠ q, Queue s'.links (s'.pc.list q').next (s'.pc.list q').tail (L q')) :
    ListsOk s' (Function.update L q xs) := by
  have hne : ∀ {q'}, q' ≠ q → Function.update L q xs q' = L q' := fun h => Function.update_of_ne h _ _
  refine ⟨fun q' => ?_, fun q' => ?_, fun q₁ q₂ j h₁ h₂ => ?_⟩
  · by_cases he : q' = q
    · subst he
      rw [Function.update_self]
      exact hq
    · rw [hne he]
      exact hother q' he
  · by_cases he : q' = q
    · subst he
      rw [Function.update_self]
      exact hnd
    · rw [hne he]
      exact h.nodup q'
  · by_cases he₁ : q₁ = q <;> by_cases he₂ : q₂ = q
    · exact he₁.trans he₂.symm
    · rw [he₁, Function.update_self] at h₁
      rw [hne he₂] at h₂
      exact absurd h₂ (hxs q₂ he₂ j h₁)
    · rw [hne he₁] at h₁
      rw [he₂, Function.update_self] at h₂
      exact absurd h₁ (hxs q₁ he₁ j h₂)
    · rw [hne he₁] at h₁
      rw [hne he₂] at h₂
      exact h.apart q₁ q₂ j h₁ h₂

theorem appendListTail_run (h : ListsOk s L) (hi : ∀ q', i ∉ L q') :
    ∃ s', appendListTail q i s = .ok () s' ∧
      ListsOk s' (Function.update L q (L q ++ [i])) ∧ SameButLinks s s' := by
  unfold appendListTail
  have hlist : ((s.setProcess i fun p => { p with next := none }).pc.list q) = s.pc.list q := rfl
  have hnd : (L q ++ [i]).Nodup := by
    rw [List.nodup_append]
    refine ⟨h.nodup q, List.nodup_singleton i, ?_⟩
    rintro a ha b hb rfl
    exact hi q (by simpa using (by simpa using hb : a = i) ▸ ha)
  have hxs : ∀ q' ≠ q, ∀ j ∈ L q ++ [i], j ∉ L q' := by
    intro q' hq' j hj hj'
    rcases List.mem_append.mp hj with hj | hj
    · exact hq' (h.apart q' q j hj' hj)
    · rw [List.mem_singleton.mp hj] at hj'
      exact hi q' hj'
  have hq := h.queue q
  by_cases he : L q = []
  · -- the list is empty: the item becomes head and tail
    have hnone : isListEmpty (s.pc.list q) = true := by
      unfold isListEmpty
      rw [(hq.empty_iff).mpr he]
      rfl
    refine ⟨_, by simp [bind_apply, hlist, hnone]; rfl, ?_, ?_⟩
    · refine h.replace ?_ hnd hxs fun q' hq' => ?_
      · rw [he]
        simp only [links_setList, links_setProcess, List.nil_append]
        have : ((s.setProcess i fun p => { p with next := none }).setList q
            ⟨some i, some i⟩).pc.list q = ⟨some i, some i⟩ := by simp [Kernel.setList]
        rw [this]
        exact Queue.single i
      · simp only [links_setList, links_setProcess]
        have : ((s.setProcess i fun p => { p with next := none }).setList q
            ⟨some i, some i⟩).pc.list q' = s.pc.list q' := by
          simp [Kernel.setList, ProcessControl.list_setList_ne _ hq', Kernel.setProcess]
        rw [this]
        exact (h.queue q').update (hi q') none
    · exact (sameButLinks_setNext s i none).trans (sameButLinks_setList _ q _)
  · -- the old tail points at the item
    obtain ⟨xs, p, hp⟩ : ∃ xs p, L q = xs ++ [p] := by
      rcases List.eq_nil_or_concat (L q) with h0 | ⟨xs, p, h1⟩
      · exact absurd h0 he
      · exact ⟨xs, p, by simpa using h1⟩
    have hsome : isListEmpty (s.pc.list q) = false := by
      unfold isListEmpty
      cases hn : (s.pc.list q).next with
      | none => exact absurd (hq.empty_iff.mp hn) he
      | some _ => rfl
    have htail : (s.pc.list q).tail = some p := by rw [hq.last, hp]; simp
    refine ⟨_, by simp [bind_apply, hlist, hsome, htail]; rfl, ?_, ?_⟩
    · have hpi : p ≠ i := by
        rintro rfl
        exact hi q (by rw [hp]; simp)
      have hlinks : ∀ l, (((s.setProcess i fun p => { p with next := none }).setProcess p
          fun pr => { pr with next := some i }).setList q l).links =
          Function.update (Function.update s.links i none) p (some i) := by
        intro l
        rw [links_setList, links_setProcess, links_setProcess]
      refine h.replace ?_ hnd hxs fun q' hq' => ?_
      · rw [hlinks]
        simp only [Kernel.setList, ProcessControl.list_setList]
        rw [hp] at hq ⊢
        exact hq.append (by rw [← hp]; exact hi q) (by rw [← hp]; exact h.nodup q)
      · rw [hlinks]
        have hlq' : (((s.setProcess i fun p => { p with next := none }).setProcess p
            fun pr => { pr with next := some i }).setList q
            { s.pc.list q with tail := some i }).pc.list q' = s.pc.list q' := by
          simp [Kernel.setList, ProcessControl.list_setList_ne _ hq', Kernel.setProcess]
        rw [hlq']
        refine ((h.queue q').update (hi q') none).update ?_ _
        exact hxs q' hq' p (by rw [hp]; simp)
    · exact ((sameButLinks_setNext s i none).trans (sameButLinks_setNext _ p (some i))).trans
        (sameButLinks_setList _ q _)

/-! ## Removal -/

theorem removeListHead_run {x : Slot} {xs : List Slot} (h : ListsOk s L) (hL : L q = x :: xs) :
    ∃ s', removeListHead q s = .ok (some x) s' ∧ ListsOk s' (Function.update L q xs) ∧
      SameButLinks s s' := by
  have hq := h.queue q
  rw [hL] at hq
  have hhead : (s.pc.list q).next = some x := hq.chain.1
  refine ⟨s.setList q ⟨(s.processTable x).next, if (s.processTable x).next.isNone then none
    else (s.pc.list q).tail⟩, ?_, ?_, sameButLinks_setList s q _⟩
  · unfold removeListHead
    rw [bind_run (get_run s), hhead]
    rfl
  · refine h.replace ?_ ?_ ?_ fun q' hq' => ?_
    · simp only [Kernel.setList, ProcessControl.list_setList]
      exact hq.dropHead
    · exact (List.nodup_cons.mp (hL ▸ h.nodup q)).2
    · intro q' hq' j hj hj'
      exact hq' (h.apart q' q j hj' (by rw [hL]; exact List.mem_cons_of_mem x hj))
    · simp only [Kernel.setList, ProcessControl.list_setList_ne _ hq']
      exact h.queue q'

/-- The state after `remove_list` took `x`, whose predecessor is `prev`, off list `q`. -/
def unlinked (s : Kernel) (q : ListId) (prev : Option Slot) (x : Slot) : Kernel :=
  let next := (s.processTable x).next
  match prev with
  | none => s.setList q ⟨next, if next.isNone then none else (s.pc.list q).tail⟩
  | some p =>
      (s.setProcess p fun pr => { pr with next := next }).setList q
        { s.pc.list q with tail := if next.isNone then some p else (s.pc.list q).tail }

theorem sameButLinks_unlinked (s : Kernel) (q : ListId) (prev : Option Slot) (x : Slot) :
    SameButLinks s (unlinked s q prev x) := by
  cases prev with
  | none => exact sameButLinks_setList s q _
  | some p => exact (sameButLinks_setNext s p _).trans (sameButLinks_setList _ q _)

/-- Taking `x` out of the middle. -/
theorem ListsOk.unlinked {x : Slot} {xs ys : List Slot} (h : ListsOk s L)
    (hL : L q = xs ++ x :: ys) :
    ListsOk (Os64.unlinked s q xs.getLast? x) (Function.update L q (xs ++ ys)) := by
  have hq := h.queue q
  have hnd := h.nodup q
  rw [hL] at hq hnd
  have hsub : ∀ j ∈ xs ++ ys, j ∈ L q := by
    intro j hj
    rw [hL]
    rcases List.mem_append.mp hj with hj | hj
    · exact List.mem_append_left _ hj
    · exact List.mem_append_right _ (List.mem_cons_of_mem x hj)
  refine h.replace ?_ ?_ (fun q' hq' j hj hj' => hq' (h.apart q' q j hj' (hsub j hj)))
    fun q' hq' => ?_
  · rcases List.eq_nil_or_concat xs with rfl | ⟨zs, p, rfl⟩
    · simp only [Os64.unlinked, List.getLast?_nil, Kernel.setList, ProcessControl.list_setList]
      exact hq.dropHead
    · have hlast : (zs.concat p).getLast? = some p := by simp
      simp only [Os64.unlinked, hlast, links_setList, links_setProcess]
      simp only [Kernel.setList, ProcessControl.list_setList]
      have := hq
      rw [List.concat_eq_append, List.append_assoc] at this hnd ⊢
      exact Queue.unlink this hnd
  · exact hnd.sublist (List.Sublist.append_left (List.sublist_cons_self x ys) xs)
  · rcases List.eq_nil_or_concat xs with rfl | ⟨zs, p, rfl⟩
    · simp only [Os64.unlinked, List.getLast?_nil, Kernel.setList,
        ProcessControl.list_setList_ne _ hq']
      exact h.queue q'
    · have hlast : (zs.concat p).getLast? = some p := by simp
      have hp : p ∈ L q := by rw [hL]; simp
      simp only [Os64.unlinked, hlast, links_setList, links_setProcess]
      simp only [Kernel.setList, ProcessControl.list_setList_ne _ hq', Kernel.setProcess]
      exact (h.queue q').update (fun hp' => hq' (h.apart q' q p hp' hp)) _

/-- The loop of `remove_list`, standing before `ys`; nothing before it matches. -/
theorem removeListLoop_run {w : Int} (h : ListsOk s L) {xs ys : List Slot} {fuel : Nat}
    (hL : L q = xs ++ ys) (hf : ys.length < fuel) :
    (∀ i ∈ ys, (s.processTable i).wait ≠ w) ∧
        removeListLoop q w fuel xs.getLast? ys.head? s = .ok none s ∨
      ∃ us x vs, ys = us ++ x :: vs ∧ (∀ i ∈ us, (s.processTable i).wait ≠ w) ∧
        (s.processTable x).wait = w ∧
        removeListLoop q w fuel xs.getLast? ys.head? s =
          .ok (some x) (Os64.unlinked s q (xs ++ us).getLast? x) := by
  induction ys generalizing xs fuel with
  | nil =>
      obtain ⟨f, rfl⟩ : ∃ f, fuel = f + 1 := ⟨fuel - 1, by simp at hf; omega⟩
      exact Or.inl ⟨fun i hi => (List.not_mem_nil hi).elim, rfl⟩
  | cons y ys ih =>
      obtain ⟨f, rfl⟩ : ∃ f, fuel = f + 1 := ⟨fuel - 1, by simp at hf; omega⟩
      have hq := h.queue q
      rw [hL] at hq
      by_cases hw : (s.processTable y).wait = w
      · -- the first match
        refine Or.inr ⟨[], y, ys, rfl, fun i hi => (List.not_mem_nil hi).elim, hw, ?_⟩
        rw [List.append_nil]
        have hdrop : Chain s.links (s.processTable y).next ys := by
          have hc : Chain s.links (s.pc.list q).next ((xs ++ [y]) ++ ys) := by
            simpa using hq.chain
          have := hc.drop_prefix
          simpa [Kernel.links] using this
        rcases List.eq_nil_or_concat xs with rfl | ⟨zs, p, rfl⟩
        · have hhead : (s.pc.list q).next = some y := hq.chain.1
          cases hn : (s.processTable y).next with
          | none => simp [removeListLoop, bind_apply, hw, hn, isListEmpty, Os64.unlinked,
              Kernel.setList]; cases q <;> rfl
          | some z => simp [removeListLoop, bind_apply, hw, hn, isListEmpty, Os64.unlinked,
              Kernel.setList]
        · have hlast : (zs.concat p).getLast? = some p := by simp
          have hne : (s.pc.list q).next ≠ none := by
            intro h0
            have := hq.empty_iff.mp h0
            simp at this
          obtain ⟨z, hz⟩ := Option.ne_none_iff_exists'.mp hne
          rw [hlast]
          cases hn : (s.processTable y).next with
          | none =>
              simp [removeListLoop, bind_apply, hw, hn, hz, isListEmpty, Os64.unlinked,
                Kernel.setList, Kernel.setProcess]
              rfl
          | some z' =>
              simp [removeListLoop, bind_apply, hw, hn, hz, isListEmpty, Os64.unlinked,
                Kernel.setList, Kernel.setProcess]
              rw [← hz]
              cases q <;> rfl
      · -- the loop moves on
        have hnext : (s.processTable y).next = ys.head? := by
          have hc : Chain s.links (s.pc.list q).next ((xs ++ [y]) ++ ys) := by
            simpa using hq.chain
          have := hc.drop_prefix
          rw [List.getLast?_append, List.getLast?_singleton] at this
          exact this.head_eq
        have hgo : removeListLoop q w (f + 1) xs.getLast? (y :: ys).head? s =
            removeListLoop q w f (xs ++ [y]).getLast? ys.head? s := by
          simp [removeListLoop, bind_apply, hw, hnext]
        rw [hgo]
        have hL' : L q = (xs ++ [y]) ++ ys := by simpa using hL
        rcases ih hL' (by simp at hf; omega) with ⟨hall, hrun⟩ | ⟨us, x, vs, hys, hus, hx, hrun⟩
        · refine Or.inl ⟨fun i hi => ?_, hrun⟩
          rcases List.mem_cons.mp hi with rfl | hi
          · exact hw
          · exact hall i hi
        · refine Or.inr ⟨y :: us, x, vs, by rw [hys]; rfl, ?_, hx, ?_⟩
          · intro i hi
            rcases List.mem_cons.mp hi with rfl | hi
            · exact hw
            · exact hus i hi
          · rw [hrun]
            simp

/-- A list of distinct slots is no longer than the process table. -/
theorem ListsOk.length_le (h : ListsOk s L) (q : ListId) : (L q).length ≤ numProc := by
  have := List.Nodup.length_le_card (h.nodup q)
  simpa using this

/-- `remove_list` takes the first process whose `wait` is `w`. -/
theorem removeList_run (h : ListsOk s L) (q : ListId) (w : Int) :
    (∀ i ∈ L q, (s.processTable i).wait ≠ w) ∧ removeList q w s = .ok none s ∨
      ∃ xs x ys s', L q = xs ++ x :: ys ∧ (∀ i ∈ xs, (s.processTable i).wait ≠ w) ∧
        (s.processTable x).wait = w ∧ removeList q w s = .ok (some x) s' ∧
        ListsOk s' (Function.update L q (xs ++ ys)) ∧ SameButLinks s s' := by
  have hrun : removeList q w s = removeListLoop q w (numProc + 1) ([] : List Slot).getLast?
      (L q).head? s := by
    rw [← (h.queue q).chain.head_eq]
    rfl
  have hlen := h.length_le q
  have hall : L q = [] ++ L q := rfl
  rcases removeListLoop_run (w := w) h hall (Nat.lt_succ_of_le hlen) with ⟨hall, hl⟩ | ⟨us, x, vs, hL, hus, hx, hl⟩
  · exact Or.inl ⟨hall, hrun.trans hl⟩
  · refine Or.inr ⟨us, x, vs, _, hL, hus, hx, hrun.trans hl, ?_, sameButLinks_unlinked _ _ _ _⟩
    exact h.unlinked hL

end Os64
