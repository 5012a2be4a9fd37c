/-
  The invariant of processes on one processor.

  * `Good`: the memory holds what the ghosts of a machine say, for every process that waits, and no
    two of them share a byte of their stacks.
  * `Same`: a step does not concern a process.
  * `step_good`, `run_good`: no step of any process breaks the invariant.
  * `switch_resumes`, `leave_loads`: what it says about who goes on.
-/
import Os64.Trap.Switch

namespace Os64

open Os64.Lib

/-! ## The initial stack -/

theorem initialStack_of_outside {t top x : Nat} {m : Mem} (hroom : trapFrameSize + 8 ≤ top)
    (hx : x < top - trapFrameSize - 8 ∨ top ≤ x) : initialStack t m top x = m x := by
  have hsize : trapFrameSize = 176 := rfl
  unfold initialStack entryFrame
  rw [store_of_outside _ _ _ _ (by omega), store_of_outside _ _ _ _ (by omega),
    store_of_outside _ _ _ _ (by omega), store_of_outside _ _ _ _ (by omega),
    store_of_outside _ _ _ _ (by omega), store_of_outside _ _ _ _ (by omega)]

theorem frameAt_initialStack {t top : Nat} {m : Mem} (hroom : trapFrameSize + 8 ≤ top)
    (hzero : ∀ x, top - trapFrameSize ≤ x → x < top → m x = 0) :
    frameAt (initialStack t m top) (top - trapFrameSize) = entryTrap := by
  have hfill : fill (store m (top - trapFrameSize - 8) 8 t) (top - trapFrameSize) trapFrameSize 0 =
      store m (top - trapFrameSize - 8) 8 t := by
    funext x
    unfold fill
    split
    · rename_i hx
      rw [store_of_outside _ _ _ _ (by omega), hzero x hx.1 (by omega)]
    · rfl
  rw [← frameAt_entry (store m (top - trapFrameSize - 8) 8 t) (top - trapFrameSize), hfill]
  rfl

/-- `swap` finds six zeros and the address of `TrapReturn`. -/
theorem holds_initialStack {t top : Nat} {m : Mem} (ht : t < 2 ^ 64)
    (hroom : trapFrameSize + 56 ≤ top)
    (hzero : ∀ x, top - trapFrameSize - 56 ≤ x → x < top → m x = 0) :
    Holds (initialStack t m top) (top - trapFrameSize - 56) (savedWords keptRegs (fun _ => 0) t) := by
  have hsize : trapFrameSize = 176 := rfl
  have hlen : (keptRegs.reverse.map fun _ => 0).length = 6 := rfl
  refine holds_append.mpr ⟨holds_iff.mpr fun k hk => ?_, ?_, trivial⟩
  · rw [hlen] at hk
    have hget : ∀ k < 6, (keptRegs.reverse.map fun _ => 0).getD k 0 = 0 := by decide
    rw [hget k hk]
    refine load_zero fun x hx1 hx2 => ?_
    rw [initialStack_of_outside (by omega) (by omega)]
    exact hzero x (by omega) (by omega)
  · have haddr : top - trapFrameSize - 56 + 8 * 6 = top - trapFrameSize - 8 := by omega
    rw [hlen, haddr, load_initialStack t m top (by omega)]
    exact Nat.mod_eq_of_lt ht

namespace Machine

variable {ι : Type} [DecidableEq ι] (L : Labels ι)

/-! ## The invariant -/

/-- The frame of `i` is on its stack, and it returns to the ring of its program. -/
def FrameOk (m : Machine ι) (i : ι) : Prop :=
  ∀ a f, m.inside i = some (a, f) → m.bottom L i ≤ a ∧ a + trapFrameSize ≤ m.top L i ∧
    Holds m.cpu.mem a f.words ∧ (f.cs % 4 = 3 ↔ i ≠ L.idle)

/-- What `swap` needs to go on with `i` is on its stack, below its frame. -/
structure Waits (m : Machine ι) (i : ι) (sv : Saved) : Prop where
  cell : load m.cpu.mem (L.context i) 8 = sv.rsp - 56
  words : Holds m.cpu.mem (sv.rsp - 56) (savedWords keptRegs sv.reg sv.rip)
  room : m.bottom L i + 56 ≤ sv.rsp
  below : ∃ a f, m.inside i = some (a, f) ∧ sv.rsp ≤ a

structure Good (m : Machine ι) : Prop where
  wf : m.cpu.Wf
  running : m.saved m.current = none
  rsp0 : m.current ≠ L.idle → m.rsp0 = m.top L m.current
  cr3 : m.cr3 = v2p (m.pageMap m.current)
  ring : m.inside m.current = none → (m.cpu.cs % 4 = 3 ↔ m.current ≠ L.idle)
  bounds : ∀ i, m.Live i → kernelBase ≤ m.bottom L i ∧ m.top L i < 2 ^ 64
  apart : ∀ i j, m.Live i → m.Live j → i ≠ j →
    m.top L i ≤ m.bottom L j ∨ m.top L j ≤ m.bottom L i
  contexts : ∀ i j, m.Live i → L.context j + 8 ≤ m.bottom L i ∨ m.top L i ≤ L.context j
  inside : ∀ i, m.Live i → m.FrameOk L i
  saved : ∀ i sv, m.saved i = some sv → m.Waits L i sv

variable {L} {m m' : Machine ι} {i j : ι}

/-- A step that does not concern `i`. -/
structure Same (L : Labels ι) (m m' : Machine ι) (i : ι) : Prop where
  stack : m'.stack i = m.stack i
  inside : m'.inside i = m.inside i
  mem : ∀ x, m.Owns L i x → m'.cpu.mem x = m.cpu.mem x

theorem Same.bottom (h : Same L m m' i) : m'.bottom L i = m.bottom L i := by
  unfold Machine.bottom
  rw [h.stack]

theorem Same.top (h : Same L m m' i) : m'.top L i = m.top L i := by
  unfold Machine.top
  rw [h.stack]

theorem Same.frameOk (h : Same L m m' i) (hf : m.FrameOk L i) : m'.FrameOk L i := by
  intro a f hi
  rw [h.inside] at hi
  obtain ⟨h1, h2, h3, h4⟩ := hf a f hi
  rw [h.bottom, h.top]
  refine ⟨h1, h2, h3.congr fun x hx1 hx2 => h.mem x (Or.inl ?_), h4⟩
  have hlen : f.words.length = 22 := rfl
  have hsize : trapFrameSize = 176 := rfl
  omega

theorem Same.waits {sv : Saved} (h : Same L m m' i) (hf : m.FrameOk L i) (hw : m.Waits L i sv) :
    m'.Waits L i sv := by
  obtain ⟨a, f, hi, ha⟩ := hw.below
  obtain ⟨-, h2, -, -⟩ := hf a f hi
  have hroom := hw.room
  refine ⟨?_, hw.words.congr fun x hx1 hx2 => h.mem x (Or.inl ?_), ?_, a, f, ?_, ha⟩
  · rw [← hw.cell]
    exact load_congr fun x hx1 hx2 => h.mem x (Or.inr ⟨hx1, hx2⟩)
  · rw [savedWords_length] at hx2
    have hlen : keptRegs.length = 6 := rfl
    omega
  · rw [h.bottom]
    exact hroom
  · rw [h.inside]
    exact hi

/-! ## Steps of one process -/

theorem Good.ne_current (h : m.Good L) (hi : m.saved i ≠ none) : i ≠ m.current := by
  rintro rfl
  exact hi h.running

/-- The current process goes on, in its own memory. -/
theorem Good.advance (h : m.Good L) {c : Cpu} {x : Option (Nat × TrapFrame)} (hwf : c.Wf)
    (hkeeps : m.Keeps L c.mem)
    (hframe : FrameOk L { m with cpu := c, inside := Function.update m.inside m.current x } m.current)
    (hring : x = none → (c.cs % 4 = 3 ↔ m.current ≠ L.idle)) :
    Good L { m with cpu := c, inside := Function.update m.inside m.current x } := by
  have hsame : ∀ i, m.saved i ≠ none →
      Same L m { m with cpu := c, inside := Function.update m.inside m.current x } i := fun i hi =>
    ⟨rfl, Function.update_of_ne (h.ne_current hi) _ _, hkeeps i hi⟩
  refine ⟨hwf, h.running, h.rsp0, h.cr3, fun hx => hring ?_, h.bounds, h.apart, h.contexts,
    fun i hl => ?_, fun i sv hsv => ?_⟩
  · rw [← hx]
    exact (Function.update_self m.current x m.inside).symm
  · rcases hl with rfl | hi
    · exact hframe
    · exact (hsame i hi).frameOk (h.inside i (Or.inr hi))
  · have hi : m.saved i ≠ none := fun hn => nomatch hn.symm.trans hsv
    exact (hsame i hi).waits (h.inside i (Or.inr hi)) (h.saved i sv hsv)

/-- What lies in the kernel's memory, a waiting process owns. -/
theorem Good.owns_kernel (h : m.Good L) (hi : m.Live i) {x : Nat} (hx : m.Owns L i x) :
    kernelBase ≤ x := by
  have hb := h.bounds i hi
  have hc := L.context_lt i
  rcases hx with hx | hx <;> omega

theorem Good.program (h : m.Good L) {c : Cpu} (hin : m.inside m.current = none) (hwf : c.Wf)
    (hmem : ∀ x, kernelBase ≤ x → c.mem x = m.cpu.mem x) (hcs : c.cs % 4 = m.cpu.cs % 4) :
    Good L { m with cpu := c } := by
  have hnone : Function.update m.inside m.current none = m.inside := by
    rw [← hin]
    exact Function.update_eq_self _ _
  have hgood : Good L { m with cpu := c, inside := Function.update m.inside m.current none } := by
    refine h.advance hwf (fun i hi x hx => hmem x (h.owns_kernel (Or.inr hi) hx)) ?_ fun _ => ?_
    · intro a f hf
      exact nomatch (Function.update_self m.current _ m.inside).symm.trans hf
    · rw [hcs]
      exact h.ring hin
  rw [hnone] at hgood
  exact hgood

theorem Good.handler (h : m.Good L) {c : Cpu} {a : Nat} {f : TrapFrame}
    (hin : m.inside m.current = some (a, f)) (hwf : c.Wf) (hkeeps : m.Keeps L c.mem)
    (hmem : ∀ x, a ≤ x → x < m.top L m.current → c.mem x = m.cpu.mem x) :
    Good L { m with cpu := c } := by
  have hsome : Function.update m.inside m.current (some (a, f)) = m.inside := by
    rw [← hin]
    exact Function.update_eq_self _ _
  obtain ⟨h1, h2, h3, h4⟩ := h.inside m.current (Or.inl rfl) a f hin
  have hgood : Good L { m with cpu := c, inside := Function.update m.inside m.current (some (a, f)) } := by
    refine h.advance hwf hkeeps ?_ nofun
    intro b g hg
    have he : (a, f) = (b, g) := Option.some.inj ((Function.update_self m.current _ m.inside).symm.trans hg)
    injection he with ha hf
    rw [← ha, ← hf]
    refine ⟨h1, h2, h3.congr fun x hx1 hx2 => hmem x hx1 ?_, h4⟩
    have hlen : f.words.length = 22 := rfl
    have hsize : trapFrameSize = 176 := rfl
    omega
  rw [hsome] at hgood
  exact hgood

theorem Good.base_room (h : m.Good L) (hin : m.inside m.current = none)
    (hzero : m.cpu.cs % 4 ≠ 3 →
      m.bottom L m.current + trapFrameSize + 8 ≤ m.base ∧ m.base ≤ m.top L m.current) :
    m.bottom L m.current + trapFrameSize + 8 ≤ m.base ∧ m.base ≤ m.top L m.current := by
  by_cases hcs : m.cpu.cs % 4 = 3
  · have hne : m.current ≠ L.idle := (h.ring hin).mp hcs
    have hbase : m.base = m.top L m.current := by
      unfold base
      rw [if_pos hcs, h.rsp0 hne]
    have htop : m.top L m.current = m.bottom L m.current + stackSize := by
      unfold top bottom
      rw [if_neg hne, if_neg hne]
    have hstack : stackSize = 2 * 1024 * 1024 := rfl
    have hframe : trapFrameSize = 176 := rfl
    omega
  · exact hzero hcs

/-- Nothing between the bounds of the current stack belongs to a process that waits. -/
theorem Good.own_stack (h : m.Good L) (hi : m.saved i ≠ none) {x : Nat} (hx : m.Owns L i x) :
    x < m.bottom L m.current ∨ m.top L m.current ≤ x := by
  have hapart := h.apart i m.current (Or.inr hi) (Or.inl rfl) (h.ne_current hi)
  have hcontext := h.contexts m.current i (Or.inl rfl)
  rcases hx with hx | hx <;> omega

theorem Good.trap (h : m.Good L) {n errorcode entry : Nat} (hin : m.inside m.current = none)
    (hv : n ∈ vectors) (he : errorcode < 2 ^ 64) (h0 : ¬ pushesError n → errorcode = 0)
    (hentry : entry < 2 ^ 64) (hzero : m.cpu.cs % 4 ≠ 3 →
      m.bottom L m.current + trapFrameSize + 8 ≤ m.base ∧ m.base ≤ m.top L m.current) :
    (m.trapped L n errorcode entry).Good L := by
  obtain ⟨h1, h2⟩ := h.base_room hin hzero
  have hn := vectors_lt n hv
  have hlt := (h.bounds m.current (Or.inl rfl)).2
  have hent : Entered m.cpu (enterKernel m.cpu m.base entry L.handler L.trapReturn n
      (if pushesError n then some errorcode else none)) m.base n errorcode L.handler L.trapReturn :=
    enter_frame h.wf (by omega) (by omega) (by omega) L.trapReturn_lt he rfl h0
  refine h.advance (enterKernel_wf h.wf (by omega) hentry L.handler_lt L.trapReturn_lt (by omega) _)
    (fun i hi x hx => hent.mem x ?_) ?_ nofun
  · have hout := h.own_stack hi hx
    omega
  · intro b g hg
    have hbg : (m.base - trapFrameSize, cpuFrame m.cpu n errorcode) = (b, g) :=
      Option.some.inj ((Function.update_self m.current _ m.inside).symm.trans hg)
    injection hbg with hb hg
    rw [← hb, ← hg]
    change m.bottom L m.current ≤ m.base - trapFrameSize ∧
      m.base - trapFrameSize + trapFrameSize ≤ m.top L m.current ∧ _
    exact ⟨by omega, by omega, hent.frame, h.ring hin⟩

theorem Good.leave (h : m.Good L) {a : Nat} {f : TrapFrame} (hin : m.inside m.current = some (a, f))
    (hsp : m.cpu.reg .rsp = a) :
    Left f m.cpu m.returned.cpu ∧ m.returned.Good L := by
  obtain ⟨-, h2, h3, h4⟩ := h.inside m.current (Or.inl rfl) a f hin
  have hlt := (h.bounds m.current (Or.inl rfl)).2
  have hleft : Left f m.cpu (runCode trapReturnCode m.cpu) :=
    leave_frame (by omega) (by rw [hsp]; exact h3)
  refine ⟨hleft, h.advance (runCode_wf trapReturnCode_fits h.wf) (fun i _ x _ => ?_) ?_ fun _ => ?_⟩
  · rw [hleft.mem]
  · intro b g hg
    exact nomatch (Function.update_self m.current _ m.inside).symm.trans hg
  · rw [hleft.cs]
    exact h4

/-- Another frame is written for `i`. -/
theorem Good.answer (h : m.Good L) {a : Nat} {f g : TrapFrame} (hl : m.Live i)
    (hin : m.inside i = some (a, f)) (hg : ∀ w ∈ g.words, w < 2 ^ 64) (hcs : g.cs % 4 = f.cs % 4) :
    (m.answered i a g).Good L := by
  obtain ⟨h1, h2, h3, h4⟩ := h.inside i hl a f hin
  have hself : (m.answered i a g).inside i = some (a, g) := Function.update_self _ _ _
  have hlen : g.words.length = 22 := rfl
  have hsize : trapFrameSize = 176 := rfl
  have hout : ∀ x, x < a ∨ a + trapFrameSize ≤ x → (m.answered i a g).cpu.mem x = m.cpu.mem x :=
    fun x hx => putWords_of_outside g.words m.cpu.mem a (by omega)
  have hsame : ∀ j, m.Live j → j ≠ i → Same L m (m.answered i a g) j := fun j hj hne => by
    refine ⟨rfl, Function.update_of_ne hne _ _, fun x hx => hout x ?_⟩
    have hapart := h.apart j i hj hl hne
    have hcontext := h.contexts i j hl
    rcases hx with hx | hx <;> omega
  refine ⟨h.wf.withMem _, h.running, h.rsp0, h.cr3, fun hx => h.ring ?_, h.bounds, h.apart,
    h.contexts, fun j hj => ?_, fun j sv hsv => ?_⟩
  · by_cases hi : m.current = i
    · have hx : (m.answered i a g).inside m.current = none := hx
      rw [hi, hself] at hx
      exact nomatch hx
    · exact (Function.update_of_ne hi _ _).symm.trans hx
  · by_cases hj' : j = i
    · intro b g' hb
      rw [hj', hself] at hb
      injection hb with hb
      injection hb with hab hgg
      rw [hj', ← hab, ← hgg, hcs]
      exact ⟨h1, h2, holds_frame.mpr (frameAt_putWords m.cpu.mem a hg), h4⟩
    · exact (hsame j hj hj').frameOk (h.inside j hj)
  · have hj : m.Live j := Or.inr fun hn => nomatch hn.symm.trans hsv
    have hw := h.saved j sv hsv
    by_cases hj' : j = i
    · rw [hj'] at hw ⊢
      obtain ⟨b, f', hb, hle⟩ := hw.below
      have hab : a = b := (Prod.mk.inj (Option.some.inj (hin.symm.trans hb))).1
      have hcontext := h.contexts i i hl
      have hroom := hw.room
      refine ⟨?_, hw.words.congr fun x hx1 hx2 => hout x ?_, hroom, a, g, hself, hab ▸ hle⟩
      · rw [← hw.cell]
        exact load_congr fun x hx1 hx2 => hout x (by omega)
      · rw [savedWords_length] at hx2
        have hkept : keptRegs.length = 6 := rfl
        omega
    · exact (hsame j hj hj').waits (h.inside j hj) hw

/-! ## Switches -/

/-- What a `switch` does to the processor. -/
theorem Good.switch_cpu (h : m.Good L) {a : Nat} {f : TrapFrame} {sv : Saved} {mem : Mem}
    (hin : m.inside m.current = some (a, f)) (hj : m.saved j = some sv)
    (hmem : ∀ x, kernelBase ≤ x → mem x = m.cpu.mem x) (hrdi : m.cpu.reg .rdi = L.context m.current)
    (hrsi : m.cpu.reg .rsi = load mem (L.context j) 8)
    (hroom : m.bottom L m.current + 48 ≤ m.cpu.reg .rsp) (hbelow : m.cpu.reg .rsp + 8 ≤ a) :
    Switched keptRegs sv.reg sv.rip { m.cpu with mem := mem } (m.switched j mem).cpu ∧
      m.cpu.reg .rsi = sv.rsp - 56 ∧ 56 ≤ sv.rsp := by
  have hsaved : m.saved j ≠ none := fun hn => nomatch hn.symm.trans hj
  have hlive : m.Live j := Or.inr hsaved
  have hw := h.saved j sv hj
  have hwords := hw.words
  have hjroom := hw.room
  obtain ⟨b, g, hb, hle⟩ := hw.below
  obtain ⟨-, hb2, -, -⟩ := h.inside j hlive b g hb
  obtain ⟨-, ha2, -, -⟩ := h.inside m.current (Or.inl rfl) a f hin
  have hkj := h.bounds j hlive
  have hki := h.bounds m.current (Or.inl rfl)
  have hapart := h.apart j m.current hlive (Or.inl rfl) (h.ne_current hsaved)
  have hcj := h.contexts j m.current hlive
  have hci := h.contexts m.current m.current (Or.inl rfl)
  have hctx := L.context_lt m.current
  have hctxj := L.context_lt j
  have hbase : kernelBase = 0xffff800000000000 := rfl
  have hlen : keptRegs.length = 6 := rfl
  have hsize : trapFrameSize = 176 := rfl
  have hcell : m.cpu.reg .rsi = sv.rsp - 56 := by
    rw [hrsi, ← hw.cell]
    exact load_congr fun x hx1 _ => hmem x (by omega)
  refine ⟨?_, hcell, by omega⟩
  have hother : Holds mem (sv.rsp - 56) (savedWords keptRegs sv.reg sv.rip) :=
    hwords.congr fun x hx1 _ => hmem x (by omega)
  have hrun : (m.switched j mem).cpu = runCode (switchCode keptRegs) { m.cpu with mem := mem } := by
    rw [← swapCode_eq]
    rfl
  rw [hrun]
  refine runCode_switch (h.wf.withMem mem) (by decide) ?_ ?_ ?_ ?_ ?_ ?_ ?_
  · dsimp only
    omega
  · dsimp only
    omega
  · unfold Separate
    dsimp only
    omega
  · dsimp only
    omega
  · unfold Separate
    dsimp only
    omega
  · unfold Separate
    dsimp only
    omega
  · dsimp only
    rw [hcell]
    exact hother

theorem Good.switch (h : m.Good L) {a : Nat} {f : TrapFrame} {sv : Saved} {mem : Mem}
    (hin : m.inside m.current = some (a, f)) (hne : j ≠ m.current) (hj : m.saved j = some sv)
    (hmem : ∀ x, kernelBase ≤ x → mem x = m.cpu.mem x) (hrdi : m.cpu.reg .rdi = L.context m.current)
    (hrsi : m.cpu.reg .rsi = load mem (L.context j) 8)
    (hroom : m.bottom L m.current + 48 ≤ m.cpu.reg .rsp) (hbelow : m.cpu.reg .rsp + 8 ≤ a) :
    (m.switched j mem).Good L := by
  obtain ⟨hsw, hcell, hsp⟩ := h.switch_cpu hin hj hmem hrdi hrsi hroom hbelow
  obtain ⟨m', hm'⟩ : ∃ m', m.switched j mem = m' := ⟨_, rfl⟩
  have hsaved : m.saved j ≠ none := fun hn => nomatch hn.symm.trans hj
  have hlive : m.Live j := Or.inr hsaved
  have hlen : keptRegs.length = 6 := rfl
  have hsize : trapFrameSize = 176 := rfl
  have hbase : kernelBase = 0xffff800000000000 := rfl
  -- who is live, and what is saved
  have hcur' : m'.current = j := by
    rw [← hm']
    rfl
  have hself : m'.saved j = none := by
    rw [← hm']
    exact Function.update_self _ _ _
  have hprev : m'.saved m.current = some ⟨m.cpu.reg, m.cpu.top, m.cpu.reg .rsp + 8⟩ := by
    rw [← hm']
    exact (Function.update_of_ne hne.symm _ _).trans (Function.update_self _ _ _)
  have hrest : ∀ i, i ≠ m.current → i ≠ j → m'.saved i = m.saved i := fun i h1 h2 => by
    rw [← hm']
    exact (Function.update_of_ne h2 _ _).trans (Function.update_of_ne h1 _ _)
  have hlive' : ∀ i, m'.Live i → m.Live i := fun i hi => by
    by_cases h1 : i = m.current
    · exact Or.inl h1
    · by_cases h2 : i = j
      · exact h2 ▸ hlive
      · rcases hi with hi | hi
        · exact absurd (hi.trans hcur') h2
        · exact Or.inr (hrest i h1 h2 ▸ hi)
  have hbot : ∀ i, m'.bottom L i = m.bottom L i := fun i => by
    rw [← hm']
    rfl
  have htop : ∀ i, m'.top L i = m.top L i := fun i => by
    rw [← hm']
    rfl
  have hin' : ∀ i, m'.inside i = m.inside i := fun i => by
    rw [← hm']
    rfl
  -- which memory is the same
  rw [hm'] at hsw
  have hmem' : ∀ x, kernelBase ≤ x → (x < m.cpu.reg .rsp - 48 ∨ m.cpu.reg .rsp ≤ x) →
      (x < L.context m.current ∨ L.context m.current + 8 ≤ x) → m'.cpu.mem x = m.cpu.mem x := by
    intro x hx h1 h2
    rw [← hmem x hx]
    rw [← hrdi] at h2
    exact hsw.mem x h1 h2
  obtain ⟨ha1, ha2, ha3, ha4⟩ := h.inside m.current (Or.inl rfl) a f hin
  have hcur := h.bounds m.current (Or.inl rfl)
  have hown := h.contexts m.current m.current (Or.inl rfl)
  have hsame : ∀ i, m.Live i → i ≠ m.current → Same L m m' i := fun i hi hi' => by
    refine ⟨by rw [← hm']; rfl, hin' i, fun x hx => hmem' x (h.owns_kernel hi hx) ?_ ?_⟩
    · have hapart := h.apart i m.current hi (Or.inl rfl) hi'
      have hcontext := h.contexts m.current i (Or.inl rfl)
      rcases hx with hx | hx <;> omega
    · have hcontext := h.contexts i m.current hi
      have hapart := L.context_apart i m.current hi'
      rcases hx with hx | hx <;> omega
  have htopword : Cpu.top { m.cpu with mem := mem } = m.cpu.top :=
    load_congr fun x hx1 _ => hmem x (by dsimp only at hx1; omega)
  rw [hm']
  refine ⟨?_, ?_, ?_, ?_, ?_, fun i hi => ?_, fun i k hi hk hik => ?_, fun i k hi => ?_,
    fun i hi => ?_, fun i sv' hsv' => ?_⟩
  · rw [← hm']
    exact runCode_wf swapCode_fits (h.wf.withMem mem)
  · rw [hcur']
    exact hself
  · rw [hcur']
    intro hidle
    have hjtop : m.top L j = m.stack j + stackSize := by
      unfold top
      rw [if_neg hidle]
    have hlt := (h.bounds j hlive).2
    rw [htop, hjtop, ← hm']
    change u64 (m.stack j + stackSize) = _
    exact Nat.mod_eq_of_lt (by omega)
  · rw [← hm']
    rfl
  · intro hnone
    obtain ⟨b, g, hb, -⟩ := (h.saved j sv hj).below
    rw [hcur', hin', hb] at hnone
    exact nomatch hnone
  · rw [hbot, htop]
    exact h.bounds i (hlive' i hi)
  · rw [hbot, htop, hbot, htop]
    exact h.apart i k (hlive' i hi) (hlive' k hk) hik
  · rw [hbot, htop]
    exact h.contexts i k (hlive' i hi)
  · by_cases hi' : i = m.current
    · rw [hi']
      intro b g hb
      rw [hin', hin] at hb
      injection hb with hb
      injection hb with hab hfg
      rw [hbot, htop, ← hab, ← hfg]
      refine ⟨ha1, ha2, ha3.congr fun x hx1 hx2 => hmem' x (by omega) (by omega) ?_, ha4⟩
      have hwords : f.words.length = 22 := rfl
      omega
    · exact (hsame i (hlive' i hi) hi').frameOk (h.inside i (hlive' i hi))
  · by_cases hi' : i = m.current
    · rw [hi', hprev] at hsv'
      rw [hi', ← Option.some.inj hsv']
      refine ⟨?_, ?_, ?_, a, f, ?_, hbelow⟩
      · have hcell' := hsw.cell
        dsimp only at hcell'
        rw [hrdi] at hcell'
        rw [hcell', hlen]
        dsimp only
        omega
      · have hwords := hsw.saved
        rw [htopword, hlen] at hwords
        have haddr : m.cpu.reg .rsp + 8 - 56 = m.cpu.reg .rsp - 8 * 6 := by omega
        dsimp only
        rw [haddr]
        exact hwords
      · rw [hbot]
        dsimp only
        omega
      · rw [hin', hin]
    · have hij : i ≠ j := by
        rintro rfl
        exact nomatch hself.symm.trans hsv'
      have hi := hrest i hi' hij
      have hl : m.Live i := Or.inr fun hn => nomatch (hi.trans hn).symm.trans hsv'
      exact (hsame i hl hi').waits (h.inside i hl) (h.saved i sv' (hi ▸ hsv'))

/-! ## Creation and the end -/

theorem Good.create (h : m.Good L) {stack pageMap : Nat} (hj : ¬ m.Live j) (hidle : j ≠ L.idle)
    (hlo : kernelBase ≤ stack) (hhi : stack + stackSize < 2 ^ 64)
    (hstacks : ∀ i, m.Live i → m.top L i ≤ stack ∨ stack + stackSize ≤ m.bottom L i)
    (hcontexts : ∀ i, L.context i + 8 ≤ stack ∨ stack + stackSize ≤ L.context i) :
    (m.created L j stack pageMap).Good L := by
  obtain ⟨m', hm'⟩ : ∃ m', m.created L j stack pageMap = m' := ⟨_, rfl⟩
  have hpage : stackSize = pageSize := rfl
  have hps : pageSize = 2 * 1024 * 1024 := rfl
  have hsize : trapFrameSize = 176 := rfl
  have hcj := hcontexts j
  have hlt := L.context_lt j
  -- the new stack
  obtain ⟨mem₀, hmem₀⟩ : ∃ mem₀, fill m.cpu.mem stack pageSize 0 = mem₀ := ⟨_, rfl⟩
  have hzero : ∀ x, stack ≤ x → x < stack + stackSize → mem₀ x = 0 := fun x h1 h2 => by
    rw [← hmem₀]
    exact fill_of_inside _ _ h1 h2
  have hmem' : m'.cpu.mem = store (initialStack L.trapReturn mem₀ (stack + stackSize))
      (L.context j) 8 (stack + stackSize - trapFrameSize - 7 * 8) := by
    rw [← hm', ← hmem₀]
    rfl
  have hoff : ∀ x, x < L.context j ∨ L.context j + 8 ≤ x →
      m'.cpu.mem x = initialStack L.trapReturn mem₀ (stack + stackSize) x := fun x hx => by
    rw [hmem']
    exact store_of_outside _ _ _ _ hx
  have hout : ∀ x, (x < L.context j ∨ L.context j + 8 ≤ x) → (x < stack ∨ stack + stackSize ≤ x) →
      m'.cpu.mem x = m.cpu.mem x := fun x h1 h2 => by
    rw [hoff x h1, initialStack_of_outside (by omega) (by omega), ← hmem₀]
    exact fill_of_outside _ _ _ _ h2
  -- the new process
  have hstack : m'.stack j = stack := by
    rw [← hm']
    exact Function.update_self j stack m.stack
  have hbot : m'.bottom L j = stack := by
    unfold bottom
    rw [if_neg hidle, hstack]
  have htop : m'.top L j = stack + stackSize := by
    unfold top
    rw [if_neg hidle, hstack]
  have hsaved : m'.saved j =
      some ⟨fun _ => 0, L.trapReturn, stack + stackSize - trapFrameSize⟩ := by
    rw [← hm']
    exact Function.update_self j _ m.saved
  have hin : m'.inside j = some (stack + stackSize - trapFrameSize, entryTrap) := by
    rw [← hm']
    exact Function.update_self j _ m.inside
  -- the others
  have hcur : m'.current = m.current := by
    rw [← hm']
    rfl
  have hne : m.current ≠ j := fun he => hj (Or.inl he.symm)
  have hsaved' : ∀ i, i ≠ j → m'.saved i = m.saved i := fun i hi => by
    rw [← hm']
    exact Function.update_of_ne hi _ _
  have hlive : ∀ i, m'.Live i → i ≠ j → m.Live i := fun i hi hne => by
    rcases hi with hi | hi
    · exact Or.inl (hi.trans hcur)
    · exact Or.inr (hsaved' i hne ▸ hi)
  have hsame : ∀ i, m.Live i → i ≠ j → Same L m m' i := fun i hi hij => by
    refine ⟨?_, ?_, fun x hx => hout x ?_ ?_⟩
    · rw [← hm']
      exact Function.update_of_ne hij _ _
    · rw [← hm']
      exact Function.update_of_ne hij _ _
    · have hcontext := h.contexts i j hi
      have hapart := L.context_apart i j hij
      rcases hx with hx | hx <;> omega
    · have hstack := hstacks i hi
      have hcontext := hcontexts i
      rcases hx with hx | hx <;> omega
  have hcurrent := hsame m.current (Or.inl rfl) hne
  have hbounds : ∀ i, m'.Live i → kernelBase ≤ m'.bottom L i ∧ m'.top L i < 2 ^ 64 := fun i hi => by
    by_cases hij : i = j
    · rw [hij, hbot, htop]
      exact ⟨hlo, hhi⟩
    · have hs := hsame i (hlive i hi hij) hij
      rw [hs.bottom, hs.top]
      exact h.bounds i (hlive i hi hij)
  rw [hm']
  refine ⟨?_, ?_, ?_, ?_, ?_, hbounds, fun i k hi hk hik => ?_, fun i k hi => ?_, fun i hi => ?_,
    fun i sv hsv => ?_⟩
  · rw [← hm']
    exact h.wf.withMem _
  · rw [hcur, hsaved' _ hne]
    exact h.running
  · rw [hcur, hcurrent.top, ← hm']
    exact h.rsp0
  · have hmap : m'.pageMap m.current = m.pageMap m.current := by
      rw [← hm']
      exact Function.update_of_ne hne _ _
    rw [hcur, hmap, ← hm']
    exact h.cr3
  · rw [hcur, hcurrent.inside, ← hm']
    exact h.ring
  · by_cases hij : i = j
    · have hkj : k ≠ j := fun hkj => hik (hij.trans hkj.symm)
      have hs := hsame k (hlive k hk hkj) hkj
      rw [hij, hbot, htop, hs.bottom, hs.top]
      exact (hstacks k (hlive k hk hkj)).symm
    · have hs := hsame i (hlive i hi hij) hij
      rw [hs.bottom, hs.top]
      by_cases hkj : k = j
      · rw [hkj, hbot, htop]
        exact hstacks i (hlive i hi hij)
      · have hs' := hsame k (hlive k hk hkj) hkj
        rw [hs'.bottom, hs'.top]
        exact h.apart i k (hlive i hi hij) (hlive k hk hkj) hik
  · by_cases hij : i = j
    · rw [hij, hbot, htop]
      exact hcontexts k
    · have hs := hsame i (hlive i hi hij) hij
      rw [hs.bottom, hs.top]
      exact h.contexts i k (hlive i hi hij)
  · by_cases hij : i = j
    · rw [hij]
      intro a f haf
      rw [hin] at haf
      injection haf with haf
      injection haf with ha hf
      rw [hbot, htop, ← ha, ← hf]
      refine ⟨by omega, by omega, holds_frame.mpr ?_, iff_of_true (by decide) hidle⟩
      rw [frameAt_congr fun x h1 h2 => hoff x (by omega)]
      exact frameAt_initialStack (by omega) fun x h1 h2 => hzero x (by omega) h2
    · exact (hsame i (hlive i hi hij) hij).frameOk (h.inside i (hlive i hi hij))
  · by_cases hij : i = j
    · rw [hij] at hsv ⊢
      rw [← Option.some.inj (hsaved.symm.trans hsv)]
      refine ⟨?_, ?_, ?_, _, _, hin, le_refl _⟩
      · rw [hmem']
        exact (load_store_self _ _ _ _).trans (Nat.mod_eq_of_lt (by omega))
      · have hwords : Holds (initialStack L.trapReturn mem₀ (stack + stackSize))
            (stack + stackSize - trapFrameSize - 56) (savedWords keptRegs (fun _ => 0) L.trapReturn) :=
          holds_initialStack L.trapReturn_lt (by omega) fun x h1 h2 => hzero x (by omega) h2
        refine hwords.congr fun x h1 h2 => hoff x ?_
        rw [savedWords_length] at h2
        have hkept : keptRegs.length = 6 := rfl
        omega
      · rw [hbot]
        dsimp only
        omega
    · have hl : m.Live i := Or.inr fun hn => nomatch ((hsaved' i hij).trans hn).symm.trans hsv
      exact (hsame i hl hij).waits (h.inside i hl) (h.saved i sv (hsaved' i hij ▸ hsv))

theorem Good.reap (h : m.Good L) (hne : j ≠ m.current) : (m.reaped j).Good L := by
  have hlive : ∀ i, (m.reaped j).Live i → m.Live i ∧ i ≠ j := by
    intro i hi
    rcases hi with hi | hi
    · have hi : i = m.current := hi
      exact ⟨Or.inl hi, hi ▸ hne.symm⟩
    · have hij : i ≠ j := by
        rintro rfl
        exact hi (Function.update_self _ _ _)
      have hs : (m.reaped j).saved i = m.saved i := Function.update_of_ne hij _ _
      exact ⟨Or.inr (hs ▸ hi), hij⟩
  have hsame : ∀ i, i ≠ j → Same L m (m.reaped j) i := fun i hi =>
    ⟨rfl, Function.update_of_ne hi _ _, fun _ _ => rfl⟩
  refine ⟨h.wf, (Function.update_of_ne hne.symm _ _).trans h.running, h.rsp0, h.cr3, fun hx => ?_,
    fun i hi => h.bounds i (hlive i hi).1, fun i k hi hk => h.apart i k (hlive i hi).1 (hlive k hk).1,
    fun i k hi => h.contexts i k (hlive i hi).1, fun i hi => ?_, fun i sv hsv => ?_⟩
  · exact h.ring ((Function.update_of_ne hne.symm _ _).symm.trans hx)
  · exact (hsame i (hlive i hi).2).frameOk (h.inside i (hlive i hi).1)
  · have hi : (m.reaped j).Live i := Or.inr fun hn => nomatch hn.symm.trans hsv
    have hs : (m.reaped j).saved i = m.saved i := Function.update_of_ne (hlive i hi).2 _ _
    exact (hsame i (hlive i hi).2).waits (h.inside i (hlive i hi).1) (h.saved i sv (hs ▸ hsv))

/-! ## Runs -/

theorem step_good {act : Act ι} (h : m.Good L) (hs : Step L m act m') : m'.Good L := by
  cases hs with
  | program c hin hwf hmem hcs => exact h.program hin hwf hmem hcs
  | trap n errorcode entry hin hn he h0 hentry hzero => exact h.trap hin hn he h0 hentry hzero
  | handler c hin hwf hkeeps hmem => exact h.handler hin hwf hkeeps hmem
  | answer g hl hin hg hcs => exact h.answer hl hin hg hcs
  | switch mem hin hne hj hmem hrdi hrsi hroom hbelow =>
      exact h.switch hin hne hj hmem hrdi hrsi hroom hbelow
  | leave hin _ hsp => exact (h.leave hin hsp).2
  | create stack pageMap hj hidle hlo hhi hstacks hcontexts =>
      exact h.create hj hidle hlo hhi hstacks hcontexts
  | reap hne => exact h.reap hne

theorem run_good {as : List (Act ι)} (h : m.Good L) (hr : Runs L m as m') : m'.Good L := by
  induction hr with
  | nil => exact h
  | snoc _ hs ih => exact step_good ih hs

/-! ## From the start -/

/-- The processor in the hands of the idle process, which is the only one. -/
structure Booted (L : Labels ι) (m : Machine ι) : Prop where
  wf : m.cpu.Wf
  idle : m.current = L.idle
  alone : ∀ i, m.saved i = none
  outside : m.inside L.idle = none
  ring : m.cpu.cs % 4 ≠ 3
  cr3 : m.cr3 = v2p (m.pageMap L.idle)

theorem Booted.good (h : Booted L m) : m.Good L := by
  have hlive : ∀ i, m.Live i → i = L.idle := fun i hi => by
    rcases hi with hi | hi
    · exact hi.trans h.idle
    · exact absurd (h.alone i) hi
  have hbot : m.bottom L L.idle = L.bootBottom := if_pos rfl
  have htop : m.top L L.idle = L.bootTop := if_pos rfl
  refine ⟨h.wf, h.alone _, fun hne => absurd h.idle hne, h.idle ▸ h.cr3, fun _ => ?_, fun i hi => ?_,
    fun i k hi hk hik => ?_, fun i k hi => ?_, fun i hi => ?_, fun i sv hsv => ?_⟩
  · exact iff_of_false h.ring fun hne => hne h.idle
  · rw [hlive i hi, hbot, htop]
    exact L.boot_lt
  · exact absurd ((hlive i hi).trans (hlive k hk).symm) hik
  · rw [hlive i hi, hbot, htop]
    exact L.boot_apart k
  · intro a f haf
    rw [hlive i hi, h.outside] at haf
    exact nomatch haf
  · exact nomatch (h.alone i).symm.trans hsv

/-! ## Switches -/

/-- A `switch` to `j` goes on with what `j` waits with. -/
theorem switch_resumes {sv : Saved} (h : m.Good L) (hs : Step L m (.switch j) m')
    (hj : m.saved j = some sv) :
    (∀ r ∈ keptRegs, m'.cpu.reg r = sv.reg r) ∧ m'.cpu.rip = sv.rip ∧ m'.cpu.reg .rsp = sv.rsp ∧
      m'.cr3 = v2p (m.pageMap j) ∧ m'.current = j ∧
        (j ≠ L.idle → m'.rsp0 = m.stack j + stackSize) := by
  have hgood := step_good h hs
  cases hs with
  | switch mem hin hne hj' hmem hrdi hrsi hroom hbelow =>
      obtain ⟨hsw, hcell, hsp⟩ := h.switch_cpu hin hj hmem hrdi hrsi hroom hbelow
      have hrsp := hsw.rsp
      dsimp only at hrsp
      have hlen : keptRegs.length = 6 := rfl
      refine ⟨hsw.reg, hsw.rip, by omega, rfl, rfl, fun hidle => ?_⟩
      have htop : (m.switched j mem).top L j = m.stack j + stackSize := if_neg hidle
      exact (hgood.rsp0 hidle).trans htop

/-- Who leaves has its own page map and kernel stack loaded. -/
theorem leave_loads (h : m.Good L) (hs : Step L m (.leave i) m') {a : Nat} {f : TrapFrame}
    (hi : m.inside i = some (a, f)) :
    Left f m.cpu m'.cpu ∧ m'.cr3 = v2p (m.pageMap i) ∧ m'.current = i ∧
      (i ≠ L.idle → m'.rsp0 = m.stack i + stackSize) := by
  cases hs with
  | leave hin hrip hsp =>
      have hf : _ = f := (Prod.mk.inj (Option.some.inj (hin.symm.trans hi))).2
      rw [← hf]
      refine ⟨(h.leave hin hsp).1, h.cr3, rfl, fun hidle => ?_⟩
      have htop : m.top L m.current = m.stack m.current + stackSize := if_neg hidle
      exact (h.rsp0 hidle).trans htop

end Machine

end Os64
