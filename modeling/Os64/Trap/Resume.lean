/-
  What a process finds when it goes on.

  * `run_saved`, `run_inside`: what is kept for a process while others run.
  * `run_resumes`: who called `swap` goes on with the registers that a C function keeps.
  * `run_returns`: who was interrupted goes on with all registers, but for what the kernel wrote to
    its frame.
  * `run_begins`: a new process comes to `TrapReturn` first, with the stack pointer at its frame.
  * `run_lossless`: all of it, for a machine from its boot on.
-/
import Os64.Trap.Progress

namespace Os64

open Os64.Lib

namespace Machine

variable {ι : Type} [DecidableEq ι] {L : Labels ι} {m m' : Machine ι} {i j : ι}

/-! ## What steps keep -/

/-- The frame of `i` after a step that found it at `f`. -/
def answer (i : ι) (f : TrapFrame) : Act ι → TrapFrame
  | .answer j g => if j = i then g else f
  | _ => f

/-- The frame of `i` after steps. -/
def answers (i : ι) (f : TrapFrame) (as : List (Act ι)) : TrapFrame := as.foldl (answer i) f

theorem answers_snoc (i : ι) (f : TrapFrame) (as : List (Act ι)) (act : Act ι) :
    answers i f (as ++ [act]) = answer i (answers i f as) act := List.foldl_concat ..

/-- Unwritten, a frame stays what it is. -/
theorem answers_same {f : TrapFrame} : ∀ {as : List (Act ι)}, (∀ g, Act.answer i g ∉ as) →
    answers i f as = f
  | [], _ => rfl
  | act :: as, h => by
      have hrest : answers i f as = f := answers_same fun g hg => h g (List.mem_cons_of_mem _ hg)
      have hone : answer i f act = f := by
        cases act with
        | answer j g =>
            refine if_neg fun hj => h g ?_
            rw [hj]
            exact List.mem_cons_self
        | _ => rfl
      change answers i (answer i f act) as = f
      rw [hone]
      exact hrest

section Steps

variable {act : Act ι} {sv : Saved}

/-- A process stays until it is reaped, with its stack and its page map. -/
theorem step_live (hs : Step L m act m') (hi : m.Live i) (hr : act ≠ .reap i) :
    m'.Live i ∧ m'.stack i = m.stack i ∧ m'.pageMap i = m.pageMap i := by
  cases hs with
  | program | trap | handler | answer | leave => exact ⟨hi, rfl, rfl⟩
  | @switch j _ _ sv mem hin hne hj =>
      refine ⟨?_, rfl, rfl⟩
      by_cases hij : i = j
      · exact Or.inl hij
      · have hsaved : (m.switched j mem).saved i = Function.update m.saved m.current
            (some ⟨m.cpu.reg, m.cpu.top, m.cpu.reg .rsp + 8⟩) i := Function.update_of_ne hij _ _
        refine Or.inr ?_
        rw [hsaved]
        by_cases hc : i = m.current
        · rw [hc, Function.update_self]
          exact nofun
        · rw [Function.update_of_ne hc]
          exact hi.resolve_left hc
  | @create j stack pageMap hj =>
      have hij : i ≠ j := fun he => hj (he ▸ hi)
      refine ⟨hi.imp id fun hn => ?_, Function.update_of_ne hij _ _, Function.update_of_ne hij _ _⟩
      have hsaved : (m.created L j stack pageMap).saved i = m.saved i := Function.update_of_ne hij _ _
      rw [hsaved]
      exact hn
  | @reap j hj =>
      have hij : i ≠ j := fun he => hr (he ▸ rfl)
      refine ⟨hi.imp id fun hn => ?_, rfl, rfl⟩
      have hsaved : (m.reaped j).saved i = m.saved i := Function.update_of_ne hij _ _
      rw [hsaved]
      exact hn

/-- What a process waits with is kept until it is switched to. -/
theorem step_saved (h : m.Good L) (hs : Step L m act m') (hi : m.saved i = some sv)
    (hw : act ≠ .switch i) (hr : act ≠ .reap i) : m'.saved i = some sv := by
  have hsome : m.saved i ≠ none := fun hn => nomatch hn.symm.trans hi
  cases hs with
  | program | trap | handler | answer | leave => exact hi
  | @switch j _ _ sv mem hin hne hj =>
      have hij : i ≠ j := fun he => hw (he ▸ rfl)
      exact (Function.update_of_ne hij _ _).trans
        ((Function.update_of_ne (h.ne_current hsome) _ _).trans hi)
  | @create j _ _ hj =>
      have hij : i ≠ j := fun he => hj (he ▸ Or.inr hsome)
      exact (Function.update_of_ne hij _ _).trans hi
  | @reap j hj =>
      have hij : i ≠ j := fun he => hr (he ▸ rfl)
      exact (Function.update_of_ne hij _ _).trans hi

/-- A frame is kept until its process leaves, but for what the kernel writes. -/
theorem step_inside {a : Nat} {f : TrapFrame} (hs : Step L m act m') (hl : m.Live i)
    (hi : m.inside i = some (a, f)) (hw : act ≠ .leave i) (hr : act ≠ .reap i) :
    m'.inside i = some (a, answer i f act) := by
  cases hs with
  | program | handler | switch => exact hi
  | trap n errorcode entry hin =>
      have hic : i ≠ m.current := fun he => nomatch (he ▸ hin).symm.trans hi
      exact (Function.update_of_ne hic _ _).trans hi
  | @answer j b f' g hj hb =>
      by_cases hij : j = i
      · have hab : a = b := (Prod.mk.inj (Option.some.inj (hi.symm.trans (hij ▸ hb)))).1
        have hself : (m.answered i b g).inside i = some (b, g) := Function.update_self _ _ _
        have hone : answer i f (.answer j g) = g := if_pos hij
        rw [hone, hij, hab]
        exact hself
      · have hone : answer i f (.answer j g) = f := if_neg hij
        rw [hone]
        exact (Function.update_of_ne (Ne.symm hij) _ _).trans hi
  | leave =>
      have hic : i ≠ m.current := fun he => hw (he ▸ rfl)
      exact (Function.update_of_ne hic _ _).trans hi
  | @create j _ _ hj =>
      have hij : i ≠ j := fun he => hj (he ▸ hl)
      exact (Function.update_of_ne hij _ _).trans hi
  | @reap j hj =>
      have hij : i ≠ j := fun he => hr (he ▸ rfl)
      exact (Function.update_of_ne hij _ _).trans hi

end Steps

/-! ## What runs keep -/

section Runs

variable {as : List (Act ι)} {sv : Saved}

theorem run_live (hr : Runs L m as m') (hi : m.Live i) (hno : ∀ act ∈ as, act ≠ .reap i) :
    m'.Live i ∧ m'.stack i = m.stack i ∧ m'.pageMap i = m.pageMap i := by
  induction hr with
  | nil => exact ⟨hi, rfl, rfl⟩
  | snoc _ hs ih =>
      obtain ⟨hl, hst, hpm⟩ := ih fun act ha => hno act (List.mem_append_left _ ha)
      obtain ⟨hl', hst', hpm'⟩ :=
        step_live hs hl (hno _ (List.mem_append_right _ (List.mem_singleton_self _)))
      exact ⟨hl', hst'.trans hst, hpm'.trans hpm⟩

theorem run_saved (h : m.Good L) (hr : Runs L m as m') (hi : m.saved i = some sv)
    (hno : ∀ act ∈ as, act ≠ .switch i ∧ act ≠ .reap i) : m'.saved i = some sv := by
  induction hr with
  | nil => exact hi
  | snoc hr hs ih =>
      have hold := ih fun act ha => hno act (List.mem_append_left _ ha)
      obtain ⟨hw, hreap⟩ := hno _ (List.mem_append_right _ (List.mem_singleton_self _))
      exact step_saved (run_good h hr) hs hold hw hreap

theorem run_inside {a : Nat} {f : TrapFrame} (hr : Runs L m as m') (hl : m.Live i)
    (hi : m.inside i = some (a, f)) (hno : ∀ act ∈ as, act ≠ .leave i ∧ act ≠ .reap i) :
    m'.inside i = some (a, answers i f as) := by
  induction hr with
  | nil => exact hi
  | snoc hr hs ih =>
      have hno' := fun act ha => hno act (List.mem_append_left _ ha)
      obtain ⟨hw, hreap⟩ := hno _ (List.mem_append_right _ (List.mem_singleton_self _))
      rw [answers_snoc]
      exact step_inside hs (run_live hr hl fun act ha => (hno' act ha).2).1 (ih hno') hw hreap

end Runs

/-! ## Who goes on -/

theorem Good.resumes {m₁ m₂ m₃ : Machine ι} {as : List (Act ι)} (hgood : m.Good L)
    (hs : Step L m (.switch j) m₁) (h₁ : Runs L m₁ as m₂)
    (hno : ∀ act ∈ as, act ≠ .switch m.current ∧ act ≠ .reap m.current)
    (hs' : Step L m₂ (.switch m.current) m₃) :
    (∀ r ∈ keptRegs, m₃.cpu.reg r = m.cpu.reg r) ∧ m₃.cpu.rip = m.cpu.top ∧
      m₃.cpu.reg .rsp = m.cpu.reg .rsp + 8 ∧ m₃.cr3 = m.cr3 ∧ m₃.current = m.current ∧
        (m.current ≠ L.idle → m₃.rsp0 = m.rsp0) := by
  have hgood₁ := step_good hgood hs
  have hsaved : m₁.saved m.current = some ⟨m.cpu.reg, m.cpu.top, m.cpu.reg .rsp + 8⟩ := by
    cases hs with
    | switch mem hin hne =>
        exact (Function.update_of_ne hne.symm _ _).trans (Function.update_self _ _ _)
  obtain ⟨hlive, hstack, hmap⟩ := step_live hs (Or.inl rfl : m.Live m.current) nofun
  obtain ⟨-, hstack₂, hmap₂⟩ := run_live h₁ hlive fun act ha => (hno act ha).2
  obtain ⟨hregs, hrip, hrsp, hcr3, hcur, hrsp0⟩ :=
    switch_resumes (run_good hgood₁ h₁) hs' (run_saved hgood₁ h₁ hsaved hno)
  refine ⟨hregs, hrip, hrsp, ?_, hcur, fun hidle => ?_⟩
  · rw [hcr3, hmap₂, hmap, hgood.cr3]
  · have htop : m.top L m.current = m.stack m.current + stackSize := if_neg hidle
    rw [hrsp0 hidle, hstack₂, hstack, hgood.rsp0 hidle, htop]

/-- Who called `swap` goes on after it with the registers that a C function keeps, its stack pointer,
    its page map and its kernel stack, whatever happened in between. -/
theorem run_resumes {m₀ m₁ m₂ m₃ : Machine ι} {as₀ as : List (Act ι)} (hb : Booted L m₀)
    (h₀ : Runs L m₀ as₀ m) (hs : Step L m (.switch j) m₁) (h₁ : Runs L m₁ as m₂)
    (hno : ∀ act ∈ as, act ≠ .switch m.current ∧ act ≠ .reap m.current)
    (hs' : Step L m₂ (.switch m.current) m₃) :
    (∀ r ∈ keptRegs, m₃.cpu.reg r = m.cpu.reg r) ∧ m₃.cpu.rip = m.cpu.top ∧
      m₃.cpu.reg .rsp = m.cpu.reg .rsp + 8 ∧ m₃.cr3 = m.cr3 ∧ m₃.current = m.current ∧
        (m.current ≠ L.idle → m₃.rsp0 = m.rsp0) :=
  (run_good hb.good h₀).resumes hs h₁ hno hs'

/-- The idle process switches to process 1, and is switched to when that is interrupted. -/
theorem run_resumes_idle : ∃ (m₀ m m₁ m₂ m₃ : Machine Slot) (as₀ as : List (Act Slot)),
    Booted imageLabels m₀ ∧ Runs imageLabels m₀ as₀ m ∧ Step imageLabels m (.switch 1) m₁ ∧
      Runs imageLabels m₁ as m₂ ∧ Step imageLabels m₂ (.switch m.current) m₃ ∧
        m₃.cpu.rip = m.cpu.top ∧ m₃.cpu.reg .rsp = m.cpu.reg .rsp + 8 := by
  obtain ⟨m₀, m₁, m₂, m₃, m₄, m₅, m₆, m₇, m₈, -, -, hb, s₁, s₂, s₃, hcur, s₄, s₅, s₆, s₇, s₈, -⟩ :=
    image_round
  have h₀ : Runs imageLabels m₀ ([] ++ [.create 1] ++ [.trap 0 32] ++ [.handler]) m₃ :=
    .snoc (.snoc (.snoc .nil s₁) s₂) s₃
  have h₁ : Runs imageLabels m₄ ([] ++ [.leave 1] ++ [.trap 1 32] ++ [.handler]) m₇ :=
    .snoc (.snoc (.snoc .nil s₅) s₆) s₇
  rw [← hcur] at s₈
  obtain ⟨-, hrip, hrsp, -⟩ := run_resumes hb h₀ s₄ h₁ (by rw [hcur]; decide) s₈
  exact ⟨m₀, m₃, m₄, m₇, m₈, _, _, hb, h₀, s₄, h₁, s₈, hrip, hrsp⟩

theorem Good.returns {m₁ m₂ m₃ : Machine ι} {as : List (Act ι)} {n : Nat} (hgood : m.Good L)
    (hs : Step L m (.trap i n) m₁) (h₁ : Runs L m₁ as m₂)
    (hno : ∀ act ∈ as, act ≠ .leave i ∧ act ≠ .reap i) (hs' : Step L m₂ (.leave i) m₃) :
    ∃ errorcode, Left (answers i (cpuFrame m.cpu n errorcode) as) m₂.cpu m₃.cpu ∧ m₃.cr3 = m.cr3 ∧
      m₃.current = m.current ∧ (i ≠ L.idle → m₃.rsp0 = m.rsp0) := by
  have hgood₁ := step_good hgood hs
  cases hs with
  | trap _ errorcode entry hin =>
      have hin₁ : (m.trapped L n errorcode entry).inside m.current =
          some (m.base - trapFrameSize, cpuFrame m.cpu n errorcode) := Function.update_self _ _ _
      have hlive : (m.trapped L n errorcode entry).Live m.current := Or.inl rfl
      obtain ⟨-, hstack, hmap⟩ := run_live h₁ hlive fun act ha => (hno act ha).2
      obtain ⟨hleft, hcr3, hcur, hrsp0⟩ :=
        leave_loads (run_good hgood₁ h₁) hs' (run_inside h₁ hlive hin₁ hno)
      refine ⟨errorcode, hleft, ?_, hcur, fun hidle => ?_⟩
      · rw [hcr3, hmap, hgood.cr3]
        rfl
      · have htop : m.top L m.current = m.stack m.current + stackSize := if_neg hidle
        rw [hrsp0 hidle, hstack, hgood.rsp0 hidle, htop]
        rfl

/-- Who was interrupted goes on with all its registers, but for what the kernel wrote to its frame,
    and with its page map and its kernel stack. -/
theorem run_returns {m₀ m₁ m₂ m₃ : Machine ι} {as₀ as : List (Act ι)} {n : Nat} (hb : Booted L m₀)
    (h₀ : Runs L m₀ as₀ m) (hs : Step L m (.trap i n) m₁) (h₁ : Runs L m₁ as m₂)
    (hno : ∀ act ∈ as, act ≠ .leave i ∧ act ≠ .reap i) (hs' : Step L m₂ (.leave i) m₃) :
    ∃ errorcode, Left (answers i (cpuFrame m.cpu n errorcode) as) m₂.cpu m₃.cpu ∧ m₃.cr3 = m.cr3 ∧
      m₃.current = m.current ∧ (i ≠ L.idle → m₃.rsp0 = m.rsp0) :=
  (run_good hb.good h₀).returns hs h₁ hno hs'

/-- The idle process is interrupted, and goes on after process 1 has run. -/
theorem run_returns_idle : ∃ (m₀ m m₁ m₂ m₃ : Machine Slot) (as₀ as : List (Act Slot)),
    Booted imageLabels m₀ ∧ Runs imageLabels m₀ as₀ m ∧ Step imageLabels m (.trap 0 32) m₁ ∧
      Runs imageLabels m₁ as m₂ ∧ Step imageLabels m₂ (.leave 0) m₃ ∧
        (∀ r, m₃.cpu.reg r = m.cpu.reg r) ∧ m₃.cpu.rip = m.cpu.rip := by
  obtain ⟨m₀, m₁, m₂, m₃, m₄, m₅, m₆, m₇, m₈, m₉, m₁₀, hb, s₁, s₂, s₃, -, s₄, s₅, s₆, s₇, s₈, s₉,
    s₁₀⟩ := image_round
  have h₀ : Runs imageLabels m₀ ([] ++ [.create 1]) m₁ := .snoc .nil s₁
  have h₁ : Runs imageLabels m₂ ([] ++ [.handler] ++ [.switch 1] ++ [.leave 1] ++ [.trap 1 32] ++
      [.handler] ++ [.switch 0] ++ [.handler]) m₉ :=
    .snoc (.snoc (.snoc (.snoc (.snoc (.snoc (.snoc .nil s₃) s₄) s₅) s₆) s₇) s₈) s₉
  obtain ⟨errorcode, hleft, -⟩ := run_returns hb h₀ s₂ h₁ (by decide) s₁₀
  exact ⟨m₀, m₁, m₂, m₉, m₁₀, _, _, hb, h₀, s₂, h₁, s₁₀,
    fun r => (hleft.reg r).trans (cpuFrame_reg m₁.cpu 32 errorcode r), hleft.rip⟩

theorem Good.begins {m₁ m₂ m₃ : Machine ι} {as : List (Act ι)} (hgood : m.Good L)
    (hs : Step L m (.create j) m₁) (h₁ : Runs L m₁ as m₂)
    (hno : ∀ act ∈ as, act ≠ .switch j ∧ act ≠ .leave j ∧ act ≠ .reap j)
    (hs' : Step L m₂ (.switch j) m₃) :
    m₃.cpu.rip = L.trapReturn ∧
      m₃.cpu.reg .rsp = m₁.stack j + stackSize - trapFrameSize ∧ m₃.cr3 = v2p (m₁.pageMap j) ∧
        m₃.rsp0 = m₁.stack j + stackSize ∧
          Step L m₃ (.leave j) m₃.returned ∧
            Left (answers j entryTrap as) m₃.cpu m₃.returned.cpu := by
  have hgood₁ := step_good hgood hs
  have hgood₂ := run_good hgood₁ h₁
  cases hs with
  | create stack pageMap hj hidle =>
      obtain ⟨m₁, hm₁⟩ : ∃ m₁, m.created L j stack pageMap = m₁ := ⟨_, rfl⟩
      rw [hm₁] at h₁ hgood₁ ⊢
      have hstack₁ : m₁.stack j = stack := by
        rw [← hm₁]
        exact Function.update_self _ _ _
      have hsaved : m₁.saved j =
          some ⟨fun _ => 0, L.trapReturn, stack + stackSize - trapFrameSize⟩ := by
        rw [← hm₁]
        exact Function.update_self _ _ _
      have hin : m₁.inside j = some (stack + stackSize - trapFrameSize, entryTrap) := by
        rw [← hm₁]
        exact Function.update_self _ _ _
      have hlive : m₁.Live j := Or.inr fun hn => nomatch hn.symm.trans hsaved
      obtain ⟨-, hstack, hmap⟩ := run_live h₁ hlive fun act ha => (hno act ha).2.2
      have hsaved₂ := run_saved hgood₁ h₁ hsaved fun act ha => ⟨(hno act ha).1, (hno act ha).2.2⟩
      have hin₂ := run_inside h₁ hlive hin fun act ha => (hno act ha).2
      obtain ⟨-, hrip, hrsp, hcr3, hcur, hrsp0⟩ := switch_resumes hgood₂ hs' hsaved₂
      have hin₃ : m₃.inside m₃.current =
          some (stack + stackSize - trapFrameSize, answers j entryTrap as) := by
        cases hs' with
        | switch => exact hin₂
      have hleave : Step L m₃ (.leave m₃.current) m₃.returned := .leave hin₃ hrip hrsp
      have hleft := (leave_loads (step_good hgood₂ hs') hleave hin₃).1
      rw [hcur] at hleave
      refine ⟨hrip, ?_, ?_, ?_, hleave, hleft⟩
      · rw [hrsp, hstack₁]
      · rw [hcr3, hmap]
      · rw [hrsp0 hidle, hstack]

/-- The first `switch` to a new process comes to `TrapReturn` with the stack pointer at its frame,
    which starts the program but for what the kernel wrote there. -/
theorem run_begins {m₀ m₁ m₂ m₃ : Machine ι} {as₀ as : List (Act ι)} (hb : Booted L m₀)
    (h₀ : Runs L m₀ as₀ m) (hs : Step L m (.create j) m₁) (h₁ : Runs L m₁ as m₂)
    (hno : ∀ act ∈ as, act ≠ .switch j ∧ act ≠ .leave j ∧ act ≠ .reap j)
    (hs' : Step L m₂ (.switch j) m₃) :
    m₃.cpu.rip = L.trapReturn ∧
      m₃.cpu.reg .rsp = m₁.stack j + stackSize - trapFrameSize ∧ m₃.cr3 = v2p (m₁.pageMap j) ∧
        m₃.rsp0 = m₁.stack j + stackSize ∧
          Step L m₃ (.leave j) m₃.returned ∧
            Left (answers j entryTrap as) m₃.cpu m₃.returned.cpu :=
  (run_good hb.good h₀).begins hs h₁ hno hs'

/-- Process 1 starts. -/
theorem run_begins_first : ∃ (m₀ m₁ m₂ m₃ : Machine Slot) (as : List (Act Slot)),
    Booted imageLabels m₀ ∧ Step imageLabels m₀ (.create 1) m₁ ∧ Runs imageLabels m₁ as m₂ ∧
      Step imageLabels m₂ (.switch 1) m₃ ∧ m₃.returned.cpu.rip = 0x400000 ∧
        m₃.rsp0 = m₁.stack 1 + stackSize := by
  obtain ⟨m₀, m₁, m₂, m₃, m₄, -, -, -, -, -, -, hb, s₁, s₂, s₃, -, s₄, -⟩ := image_round
  have h₁ : Runs imageLabels m₁ ([] ++ [.trap 0 32] ++ [.handler]) m₃ := .snoc (.snoc .nil s₂) s₃
  obtain ⟨-, -, -, hrsp0, -, hleft⟩ := run_begins hb .nil s₁ h₁ (by decide) s₄
  exact ⟨m₀, m₁, m₃, m₄, _, hb, s₁, h₁, s₄, hleft.rip, hrsp0⟩

/-! ## Runs as a whole -/

/-- Nobody leaves a trap without being switched to. -/
theorem run_elsewhere {as : List (Act ι)} (hr : Runs L m as m') (hj : m.current ≠ j)
    (hno : ∀ act ∈ as, act ≠ .switch j) : m'.current ≠ j ∧ ∀ act ∈ as, act ≠ .leave j := by
  induction hr with
  | nil => exact ⟨hj, nofun⟩
  | @snoc m₂ m₃ as act hr hs ih =>
      obtain ⟨hcur, hleave⟩ := ih fun act ha => hno act (List.mem_append_left _ ha)
      have hlast : act ≠ .switch j := hno act (List.mem_append_right _ (List.mem_singleton_self _))
      refine ⟨?_, fun act' ha => ?_⟩
      · cases hs with
        | switch => exact fun he => hlast (congrArg Act.switch he)
        | _ => exact hcur
      · rcases List.mem_append.mp ha with ha | ha
        · exact hleave act' ha
        · rw [List.mem_singleton.mp ha]
          rintro rfl
          cases hs with
          | leave => exact hcur rfl

/-- In the runs from `m₀` no process loses what it had when another got the processor. -/
structure Lossless (L : Labels ι) (m₀ : Machine ι) : Prop where
  /-- After its call of `swap`. -/
  resumes : ∀ {as₀ as : List (Act ι)} {m m₁ m₂ m₃ : Machine ι} {j : ι}, Runs L m₀ as₀ m →
    Step L m (.switch j) m₁ → Runs L m₁ as m₂ →
      (∀ act ∈ as, act ≠ .switch m.current ∧ act ≠ .reap m.current) →
        Step L m₂ (.switch m.current) m₃ →
          (∀ r ∈ keptRegs, m₃.cpu.reg r = m.cpu.reg r) ∧ m₃.cpu.rip = m.cpu.top ∧
            m₃.cpu.reg .rsp = m.cpu.reg .rsp + 8
  /-- At its first switch, and at the return that follows. -/
  begins : ∀ {as₀ as : List (Act ι)} {m m₁ m₂ m₃ : Machine ι} {j : ι}, Runs L m₀ as₀ m →
    Step L m (.create j) m₁ → Runs L m₁ as m₂ → (∀ act ∈ as, act ≠ .switch j ∧ act ≠ .reap j) →
      Step L m₂ (.switch j) m₃ →
        m₃.cpu.rip = L.trapReturn ∧ m₃.cpu.reg .rsp = m₃.stack j + stackSize - trapFrameSize ∧
          Left (answers j entryTrap as) m₃.cpu m₃.returned.cpu
  /-- At the return from a trap. -/
  returns : ∀ {as₀ as : List (Act ι)} {m m₁ m₂ m₃ : Machine ι} {i : ι} {n : Nat}, Runs L m₀ as₀ m →
    Step L m (.trap i n) m₁ → Runs L m₁ as m₂ → (∀ act ∈ as, act ≠ .leave i ∧ act ≠ .reap i) →
      Step L m₂ (.leave i) m₃ →
        ∃ errorcode, Left (answers i (cpuFrame m.cpu n errorcode) as) m₂.cpu m₃.cpu
  /-- The address space and `Tss.rsp0` are those of who runs. -/
  loaded : ∀ {as : List (Act ι)} {m : Machine ι}, Runs L m₀ as m →
    m.cr3 = v2p (m.pageMap m.current) ∧
      (m.current ≠ L.idle → m.rsp0 = m.stack m.current + stackSize)

theorem run_lossless {m₀ : Machine ι} (hb : Booted L m₀) : Lossless L m₀ where
  resumes h₀ hs h₁ hno hs' := by
    obtain ⟨hregs, hrip, hrsp, -⟩ := (run_good hb.good h₀).resumes hs h₁ hno hs'
    exact ⟨hregs, hrip, hrsp⟩
  begins h₀ hs h₁ hno hs' := by
    rename_i as₀ as m m₁ m₂ m₃ j
    have hcreated : m₁.current ≠ j ∧ m₁.Live j := by
      cases hs with
      | create stack pageMap hj =>
          refine ⟨fun he => hj (Or.inl he.symm), Or.inr ?_⟩
          rw [show (m.created L j stack pageMap).saved j = some _ from Function.update_self _ _ _]
          exact nofun
    have hleave := (run_elsewhere h₁ hcreated.1 fun act ha => (hno act ha).1).2
    obtain ⟨hrip, hrsp, -, -, -, hleft⟩ := (run_good hb.good h₀).begins hs h₁
      (fun act ha => ⟨(hno act ha).1, hleave act ha, (hno act ha).2⟩) hs'
    obtain ⟨hlive, hstack, -⟩ := run_live h₁ hcreated.2 fun act ha => (hno act ha).2
    obtain ⟨-, hstack', -⟩ := step_live hs' hlive nofun
    refine ⟨hrip, ?_, hleft⟩
    rw [hrsp, hstack', hstack]
  returns h₀ hs h₁ hno hs' := by
    obtain ⟨errorcode, hleft, -⟩ := (run_good hb.good h₀).returns hs h₁ hno hs'
    exact ⟨errorcode, hleft⟩
  loaded h₀ := by
    have hgood := run_good hb.good h₀
    refine ⟨hgood.cr3, fun hidle => ?_⟩
    rw [hgood.rsp0 hidle]
    exact if_neg hidle

/-- The idle process makes process 1 and is interrupted; process 1 starts and is interrupted, and the
    idle process goes on. -/
theorem run_lossless_round : ∃ (m₀ m₁ m₂ m₃ m₄ m₇ m₈ m₉ m₁₀ : Machine Slot),
    Booted imageLabels m₀ ∧ Lossless imageLabels m₀ ∧ Step imageLabels m₀ (.create 1) m₁ ∧
      Step imageLabels m₁ (.trap 0 32) m₂ ∧ Step imageLabels m₂ .handler m₃ ∧
        Step imageLabels m₃ (.switch 1) m₄ ∧ Step imageLabels m₇ (.switch 0) m₈ ∧
          Step imageLabels m₈ .handler m₉ ∧ Step imageLabels m₉ (.leave 0) m₁₀ ∧
            m₄.returned.cpu.rip = 0x400000 ∧ m₈.cpu.rip = m₃.cpu.top ∧
              (∀ r, m₁₀.cpu.reg r = m₁.cpu.reg r) ∧ m₁₀.cr3 = v2p (m₁₀.pageMap m₁₀.current) := by
  obtain ⟨m₀, m₁, m₂, m₃, m₄, m₅, m₆, m₇, m₈, m₉, m₁₀, hb, s₁, s₂, s₃, hcur, s₄, s₅, s₆, s₇, s₈, s₉,
    s₁₀⟩ := image_round
  have hl := run_lossless hb
  have r₁ : Runs imageLabels m₀ ([] ++ [.create 1]) m₁ := .snoc .nil s₁
  have r₃ : Runs imageLabels m₀ ([] ++ [.create 1] ++ [.trap 0 32] ++ [.handler]) m₃ :=
    .snoc (.snoc r₁ s₂) s₃
  have h₁ : Runs imageLabels m₁ ([] ++ [.trap 0 32] ++ [.handler]) m₃ := .snoc (.snoc .nil s₂) s₃
  have h₄ : Runs imageLabels m₄ ([] ++ [.leave 1] ++ [.trap 1 32] ++ [.handler]) m₇ :=
    .snoc (.snoc (.snoc .nil s₅) s₆) s₇
  have h₂ : Runs imageLabels m₂ ([] ++ [.handler] ++ [.switch 1] ++ [.leave 1] ++ [.trap 1 32] ++
      [.handler] ++ [.switch 0] ++ [.handler]) m₉ :=
    .snoc (.snoc (.snoc (.snoc (.snoc (.snoc (.snoc .nil s₃) s₄) s₅) s₆) s₇) s₈) s₉
  have r₁₀ : Runs imageLabels m₀ ([] ++ [.create 1] ++ [.trap 0 32] ++ [.handler] ++ [.switch 1] ++
      [.leave 1] ++ [.trap 1 32] ++ [.handler] ++ [.switch 0] ++ [.handler] ++ [.leave 0]) m₁₀ :=
    .snoc (.snoc (.snoc (.snoc (.snoc (.snoc (.snoc r₃ s₄) s₅) s₆) s₇) s₈) s₉) s₁₀
  have hback := s₈
  rw [← hcur] at hback
  obtain ⟨-, hrip, -⟩ := hl.resumes r₃ s₄ h₄ (by rw [hcur]; decide) hback
  obtain ⟨-, -, hleft⟩ := hl.begins .nil s₁ h₁ (by decide) s₄
  obtain ⟨errorcode, hleft'⟩ := hl.returns r₁ s₂ h₂ (by decide) s₁₀
  exact ⟨m₀, m₁, m₂, m₃, m₄, m₇, m₈, m₉, m₁₀, hb, hl, s₁, s₂, s₃, s₄, s₈, s₉, s₁₀, hleft.rip, hrip,
    fun r => (hleft'.reg r).trans (cpuFrame_reg m₁.cpu 32 errorcode r), (hl.loaded r₁₀).1⟩

end Machine

end Os64
