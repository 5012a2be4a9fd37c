/-
  A machine can go on: its steps are possible.

  * `can_handle`, `can_switch`, `can_leave`: from any state, the kernel can switch to any process that
    waits, and return from any trap.
  * `tableLabels`: the labels of the kernel's `process_table`.
  * `round`: a new process starts, is interrupted, and the idle process returns.
-/
import Os64.Trap.Invariant

namespace Os64

open Os64.Lib

namespace Machine

variable {ι : Type} [DecidableEq ι] {L : Labels ι} {m m' : Machine ι} {i j : ι}

/-! ## Progress -/

/-- The kernel can go anywhere with any registers. -/
theorem Good.can_handle (h : m.Good L) {a rip : Nat} {f : TrapFrame} {regs : Reg → Nat}
    (hin : m.inside m.current = some (a, f)) (hregs : ∀ r, regs r < 2 ^ 64) (hrip : rip < 2 ^ 64) :
    Step L m .handler { m with cpu := { m.cpu with reg := regs, rip := rip } } :=
  .handler _ hin ⟨hregs, hrip, h.wf.rflags, h.wf.cs, h.wf.ss⟩ (fun _ _ _ _ => rfl) fun _ _ _ => rfl

/-- It can switch to any process that waits. -/
theorem Good.can_switch (h : m.Good L) {a : Nat} {f : TrapFrame} {sv : Saved}
    (hin : m.inside m.current = some (a, f)) (hroom : m.bottom L m.current + 56 ≤ a)
    (hne : j ≠ m.current) (hj : m.saved j = some sv) :
    ∃ regs, Step L m .handler { m with cpu := { m.cpu with reg := regs } } ∧
      Step L { m with cpu := { m.cpu with reg := regs } } (.switch j)
        (switched { m with cpu := { m.cpu with reg := regs } } j m.cpu.mem) := by
  obtain ⟨ha1, ha2, -, -⟩ := h.inside m.current (Or.inl rfl) a f hin
  have hlt := (h.bounds m.current (Or.inl rfl)).2
  have hctx := L.context_lt m.current
  let regs : Reg → Nat := fun r => match r with
    | .rdi => L.context m.current
    | .rsi => load m.cpu.mem (L.context j) 8
    | .rsp => m.bottom L m.current + 48
    | _ => 0
  have hregs : ∀ r, regs r < 2 ^ 64 := fun r => by
    cases r with
    | rdi =>
        change L.context m.current < 2 ^ 64
        omega
    | rsi => exact load_word_lt _ _
    | rsp =>
        change m.bottom L m.current + 48 < 2 ^ 64
        omega
    | _ => exact Nat.two_pow_pos 64
  refine ⟨regs, h.can_handle hin hregs h.wf.rip, ?_⟩
  refine .switch m.cpu.mem hin hne hj (fun _ _ => rfl) rfl rfl ?_ ?_
  · exact le_refl (m.bottom L m.current + 48)
  · change m.bottom L m.current + 48 + 8 ≤ a
    omega

/-- It can return from any trap. -/
theorem Good.can_leave (h : m.Good L) {a : Nat} {f : TrapFrame}
    (hin : m.inside m.current = some (a, f)) :
    ∃ regs, Step L m .handler { m with cpu := { m.cpu with reg := regs, rip := L.trapReturn } } ∧
      Step L { m with cpu := { m.cpu with reg := regs, rip := L.trapReturn } } (.leave m.current)
        (returned { m with cpu := { m.cpu with reg := regs, rip := L.trapReturn } }) := by
  obtain ⟨-, ha2, -, -⟩ := h.inside m.current (Or.inl rfl) a f hin
  have hlt := (h.bounds m.current (Or.inl rfl)).2
  refine ⟨fun _ => a, h.can_handle hin (fun _ => ?_) L.trapReturn_lt, .leave hin rfl rfl⟩
  omega

/-! ## process_table -/

/-- The labels of the kernel: a `struct Process` has 856 bytes, with `context` at 824, and kernel.asm
    sets the stack pointer to the end of the first 2 MB. -/
def tableLabels (table handler trapReturn bottom : Nat) (hh : handler < 2 ^ 64)
    (ht : trapReturn < 2 ^ 64) (hb : kernelBase ≤ bottom) (h1 : kernelBase + 0x200000 ≤ table)
    (h2 : table + 856 * numProc ≤ 2 ^ 64) : Labels Slot where
  context i := table + 856 * i + 824
  handler := handler
  trapReturn := trapReturn
  idle := 0
  bootBottom := bottom
  bootTop := kernelBase + 0x200000
  handler_lt := hh
  trapReturn_lt := ht
  context_lt i := by
    have hi := i.isLt
    omega
  context_apart i j hij := by
    have hne : i.val ≠ j.val := fun he => hij (Fin.ext he)
    omega
  boot_lt := by
    have hbase : kernelBase = 0xffff800000000000 := rfl
    omega
  boot_apart i :=
    Or.inr (Nat.le_trans h1 (Nat.le_trans (Nat.le_add_right table (856 * i)) (Nat.le_add_right _ 824)))

/-! ## A round -/

/-- The idle process makes a process and is interrupted; the new one starts, is interrupted, and the
    idle process returns. -/
theorem Booted.round {m₀ : Machine ι} (hb : Booted L m₀) (hj : j ≠ L.idle) (stack : Nat)
    (hrsp : L.bootBottom + trapFrameSize + 56 ≤ m₀.cpu.reg .rsp / 16 * 16 ∧
      m₀.cpu.reg .rsp / 16 * 16 ≤ L.bootTop)
    (hlo : kernelBase ≤ stack) (hhi : stack + stackSize < 2 ^ 64)
    (hstack : L.bootTop ≤ stack ∨ stack + stackSize ≤ L.bootBottom)
    (hcontexts : ∀ i, L.context i + 8 ≤ stack ∨ stack + stackSize ≤ L.context i) :
    ∃ m₁ m₂ m₃ m₄ m₅ m₆ m₇ m₈ m₉ m₁₀, Step L m₀ (.create j) m₁ ∧ Step L m₁ (.trap L.idle 32) m₂ ∧
      Step L m₂ .handler m₃ ∧ m₃.current = L.idle ∧ Step L m₃ (.switch j) m₄ ∧
        Step L m₄ (.leave j) m₅ ∧ Step L m₅ (.trap j 32) m₆ ∧ Step L m₆ .handler m₇ ∧
          Step L m₇ (.switch L.idle) m₈ ∧ Step L m₈ .handler m₉ ∧ Step L m₉ (.leave L.idle) m₁₀ := by
  have hsize : trapFrameSize = 176 := rfl
  have hss : stackSize = 2 * 1024 * 1024 := rfl
  have hnot : ¬ m₀.Live j := by
    rintro (he | hn)
    · exact hj (he.trans hb.idle)
    · exact hn (hb.alone j)
  have s₁ : Step L m₀ (.create j) (m₀.created L j stack 0) := by
    refine .create stack 0 hnot hj hlo hhi (fun i hi => ?_) hcontexts
    rcases hi with rfl | hn
    · rw [hb.idle]
      unfold top bottom
      rw [if_pos rfl, if_pos rfl]
      exact hstack
    · exact absurd (hb.alone i) hn
  have g₁ := step_good hb.good s₁
  obtain ⟨m₁, hm₁⟩ : ∃ m₁, m₀.created L j stack 0 = m₁ := ⟨_, rfl⟩
  rw [hm₁] at s₁ g₁
  have hcur₁ : m₁.current = L.idle := by
    rw [← hm₁]
    exact hb.idle
  have hin₁ : m₁.inside L.idle = none := by
    rw [← hm₁]
    exact (Function.update_of_ne hj.symm _ _).trans hb.outside
  have hbase₁ : m₁.base = m₀.cpu.reg .rsp / 16 * 16 := by
    rw [← hm₁]
    exact if_neg hb.ring
  have hsaved₁ : m₁.saved j = some ⟨fun _ => 0, L.trapReturn, stack + stackSize - trapFrameSize⟩ := by
    rw [← hm₁]
    exact Function.update_self _ _ _
  have hbot₁ : m₁.bottom L m₁.current = L.bootBottom := if_pos hcur₁
  have htop₁ : m₁.top L m₁.current = L.bootTop := if_pos hcur₁
  have s₂ : Step L m₁ (.trap m₁.current 32) (m₁.trapped L 32 0 0) := by
    refine .trap 32 0 0 (hcur₁ ▸ hin₁) (by decide) (by decide) (fun _ => rfl) (by decide) fun _ => ?_
    rw [hbot₁, htop₁, hbase₁]
    omega
  have g₂ := step_good g₁ s₂
  have hin₂ : (m₁.trapped L 32 0 0).inside m₁.current =
      some (m₁.base - trapFrameSize, cpuFrame m₁.cpu 32 0) := Function.update_self _ _ _
  have hroom₂ : (m₁.trapped L 32 0 0).bottom L m₁.current + 56 ≤ m₁.base - trapFrameSize := by
    change m₁.bottom L m₁.current + 56 ≤ _
    rw [hbot₁, hbase₁]
    omega
  obtain ⟨regs, s₃, s₄⟩ := g₂.can_switch hin₂ hroom₂ (hcur₁ ▸ hj) hsaved₁
  have g₃ := step_good g₂ s₃
  have g₄ := step_good g₃ s₄
  obtain ⟨m₃, hm₃⟩ : ∃ m₃, ({ m₁.trapped L 32 0 0 with
      cpu := { (m₁.trapped L 32 0 0).cpu with reg := regs } } : Machine ι) = m₃ := ⟨_, rfl⟩
  rw [hm₃] at s₃ s₄ g₃ g₄
  have hin₃ : m₃.inside L.idle = some (m₁.base - trapFrameSize, cpuFrame m₁.cpu 32 0) := by
    rw [← hm₃, ← hcur₁]
    exact hin₂
  have hcur₃ : m₃.current = L.idle := by
    rw [← hm₃]
    exact hcur₁
  have hsaved₃ : m₃.saved j = some ⟨fun _ => 0, L.trapReturn, stack + stackSize - trapFrameSize⟩ := by
    rw [← hm₃]
    exact hsaved₁
  have hinj₃ : m₃.inside j = some (stack + stackSize - trapFrameSize, entryTrap) := by
    have hinj₁ : m₁.inside j = some (stack + stackSize - trapFrameSize, entryTrap) := by
      rw [← hm₁]
      exact Function.update_self _ _ _
    rw [← hm₃, ← hinj₁]
    exact Function.update_of_ne (hcur₁ ▸ hj) _ _
  -- the new process
  obtain ⟨m₄, hm₄⟩ : ∃ m₄, m₃.switched j (m₁.trapped L 32 0 0).cpu.mem = m₄ := ⟨_, rfl⟩
  rw [hm₄] at s₄ g₄
  obtain ⟨-, hrip₄, hrsp₄, -, hcur₄, -⟩ := switch_resumes g₃ s₄ hsaved₃
  have hin₄ : ∀ i, m₄.inside i = m₃.inside i := fun i => by
    rw [← hm₄]
    rfl
  have hsaved₄ : m₄.saved L.idle = some ⟨m₃.cpu.reg, m₃.cpu.top, m₃.cpu.reg .rsp + 8⟩ := by
    rw [← hm₄, ← hcur₃]
    exact (Function.update_of_ne (hcur₃ ▸ hj.symm) _ _).trans (Function.update_self _ _ _)
  have s₅ : Step L m₄ (.leave m₄.current) m₄.returned :=
    .leave (by rw [hcur₄, hin₄, hinj₃]) hrip₄ hrsp₄
  have g₅ := step_good g₄ s₅
  have hin₅ : m₄.returned.inside m₄.current = none := Function.update_self _ _ _
  have hcs₅ : m₄.returned.cpu.cs % 4 = 3 := (g₅.ring hin₅).mpr (hcur₄ ▸ hj)
  have s₆ : Step L m₄.returned (.trap m₄.current 32) (m₄.returned.trapped L 32 0 0) :=
    .trap 32 0 0 hin₅ (by decide) (by decide) (fun _ => rfl) (by decide) fun hne => absurd hcs₅ hne
  have g₆ := step_good g₅ s₆
  have hin₆ : (m₄.returned.trapped L 32 0 0).inside m₄.current =
      some (m₄.returned.base - trapFrameSize, cpuFrame m₄.returned.cpu 32 0) :=
    Function.update_self _ _ _
  have hroom₆ : (m₄.returned.trapped L 32 0 0).bottom L m₄.current + 56 ≤
      m₄.returned.base - trapFrameSize := by
    have hbase : m₄.returned.base = m₄.returned.top L m₄.current :=
      (if_pos hcs₅).trans (g₅.rsp0 (hcur₄ ▸ hj))
    have htop : m₄.returned.top L m₄.current = m₄.stack m₄.current + stackSize :=
      if_neg (hcur₄ ▸ hj)
    have hbot : (m₄.returned.trapped L 32 0 0).bottom L m₄.current = m₄.stack m₄.current :=
      if_neg (hcur₄ ▸ hj)
    rw [hbase, htop, hbot]
    omega
  obtain ⟨regs', s₇, s₈⟩ := g₆.can_switch hin₆ hroom₆ (hcur₄ ▸ hj.symm) hsaved₄
  have g₈ := step_good (step_good g₆ s₇) s₈
  -- the idle process again
  have hin₈ : m₃.inside L.idle = some (m₁.base - trapFrameSize, cpuFrame m₁.cpu 32 0) := hin₃
  rw [← hin₄] at hin₈
  have hin₆' : (m₄.returned.trapped L 32 0 0).inside L.idle = m₄.inside L.idle :=
    (Function.update_of_ne (hcur₄ ▸ hj.symm) _ _).trans (Function.update_of_ne (hcur₄ ▸ hj.symm) _ _)
  obtain ⟨regs'', s₉, s₁₀⟩ := g₈.can_leave (hin₆'.trans hin₈)
  rw [hcur₁] at s₂
  rw [hcur₄] at s₅ s₆
  exact ⟨_, _, _, _, _, _, _, _, _, _, s₁, s₂, s₃, hcur₃, s₄, s₅, s₆, s₇, s₈, s₉, s₁₀⟩

/-- A kernel image with `process_table` at 0x210000 and the boot stack below it. -/
def imageLabels : Labels Slot :=
  tableLabels (kernelBase + 0x210000) (kernelBase + 0x200400) (kernelBase + 0x200500) kernelBase
    (by decide) (by decide) (by decide) (by decide) (by decide)

/-- The idle process of the image, about to make process 1 in the page at 4 MB. -/
theorem image_round : ∃ m₀ m₁ m₂ m₃ m₄ m₅ m₆ m₇ m₈ m₉ m₁₀ : Machine Slot,
    Booted imageLabels m₀ ∧ Step imageLabels m₀ (.create 1) m₁ ∧
      Step imageLabels m₁ (.trap 0 32) m₂ ∧ Step imageLabels m₂ .handler m₃ ∧ m₃.current = 0 ∧
        Step imageLabels m₃ (.switch 1) m₄ ∧ Step imageLabels m₄ (.leave 1) m₅ ∧
          Step imageLabels m₅ (.trap 1 32) m₆ ∧ Step imageLabels m₆ .handler m₇ ∧
            Step imageLabels m₇ (.switch 0) m₈ ∧ Step imageLabels m₈ .handler m₉ ∧
              Step imageLabels m₉ (.leave 0) m₁₀ := by
  let regs : Reg → Nat := fun r => if r = .rsp then kernelBase + 0x200000 else 0
  have hregs : ∀ r, regs r < 2 ^ 64 := fun r => by
    cases r <;> decide
  have hb : Booted imageLabels ⟨⟨regs, 0, 0, 8, 0, fun _ => 0⟩, 0, v2p 0, 0, fun _ => 0, fun _ => 0,
      fun _ => none, fun _ => none⟩ :=
    ⟨⟨hregs, by decide, by decide, by decide, by decide⟩, rfl, fun _ => rfl, rfl, by decide, rfl⟩
  obtain ⟨m₁, m₂, m₃, m₄, m₅, m₆, m₇, m₈, m₉, m₁₀, hsteps⟩ :=
    hb.round (by decide : (1 : Slot) ≠ 0) (kernelBase + 0x400000) (by decide) (by decide) (by decide)
      (by decide) (by decide)
  exact ⟨_, m₁, m₂, m₃, m₄, m₅, m₆, m₇, m₈, m₉, m₁₀, hb, hsteps⟩

end Machine

end Os64
