/-
  The part of an x86-64 processor that entry code, exit code and stack switches use.

  `Cpu` has the sixteen registers, the selectors and flags that an interrupt saves, and memory by
  virtual address. `runCode` runs straight-line code. The status flags that `add`, `sub` and `xor` set
  are not modelled.

  * `Holds m a ws`: the words `ws` are in memory from `a` on.
  * `Pushed ws c c'`: from `c` to `c'` the stack has grown by `ws`. `runCode_pushes`,
    `interrupt_pushed`: pushes and the entry into an interrupt do that, and `Pushed.trans` puts them
    together.
  * `runCode_pops`: what pops load. `runCode_stores`: what stores of registers leave in memory.
  * `switchCode`, `runCode_switch`: a routine that saves registers and the stack pointer, and goes on
    with those that were saved for another.
-/
import Os64.Lib.Bytes

namespace Os64.Lib

inductive Reg where
  | rax | rbx | rcx | rdx | rsi | rdi | rbp | rsp
  | r8 | r9 | r10 | r11 | r12 | r13 | r14 | r15
  deriving DecidableEq, Repr

structure Cpu where
  reg : Reg → Nat
  rip : Nat
  rflags : Nat
  cs : Nat
  ss : Nat
  mem : Mem

inductive Instr where
  | push (r : Reg)
  | pushImm (v : Nat)
  | pop (r : Reg)
  | mov (dst src : Reg)
  | movImm (dst : Reg) (v : Nat)
  /-- `mov [base + offset], src` -/
  | store (base : Reg) (offset : Nat) (src : Reg)
  | add (dst : Reg) (v : Nat)
  | sub (dst : Reg) (v : Nat)
  /-- A call of `target`; `next` is the address of the instruction after it. -/
  | call (target next : Nat)
  | ret
  | iretq
  deriving DecidableEq, Repr

/-- 64-bit values. -/
def word (n : Nat) : Nat := n % 2 ^ 64

namespace Cpu

def set (c : Cpu) (r : Reg) (v : Nat) : Cpu := { c with reg := Function.update c.reg r v }

theorem set_self (c : Cpu) (r : Reg) (v : Nat) : (c.set r v).reg r = v := by
  unfold set
  exact Function.update_self r v c.reg

theorem set_other (c : Cpu) {r r' : Reg} (h : r' ≠ r) (v : Nat) : (c.set r v).reg r' = c.reg r' := by
  unfold set
  exact Function.update_of_ne h v c.reg

def pushWord (c : Cpu) (v : Nat) : Cpu :=
  let sp := word (c.reg .rsp + (2 ^ 64 - 8))
  { c.set .rsp sp with mem := store c.mem sp 8 v }

/-- The word at the top of the stack. -/
def top (c : Cpu) : Nat := load c.mem (c.reg .rsp) 8

/-- The flags that an interrupt gate clears: TF, IF, NT, RF and VM. -/
def gateFlags : Nat := 0x34300

/-- The entry into an interrupt or exception through a gate of code segment 8, on the stack that
    begins at `base`; some exceptions push an error code. -/
def interrupt (c : Cpu) (base entry : Nat) (error : Option Nat) : Cpu :=
  let c' := (((((c.set .rsp base).pushWord c.ss).pushWord (c.reg .rsp)).pushWord c.rflags).pushWord
    c.cs).pushWord c.rip
  let c' := match error with
    | some e => c'.pushWord e
    | none => c'
  { c' with rip := entry, cs := 8, ss := 0, rflags := c.rflags &&& (2 ^ 64 - 1 - gateFlags) }

end Cpu

def Instr.run (c : Cpu) : Instr → Cpu
  | .push r => c.pushWord (c.reg r)
  | .pushImm v => c.pushWord v
  | .pop r => (c.set .rsp (word (c.reg .rsp + 8))).set r c.top
  | .mov dst src => c.set dst (c.reg src)
  | .movImm dst v => c.set dst v
  | .store base offset src =>
      { c with mem := Lib.store c.mem (word (c.reg base + offset)) 8 (c.reg src) }
  | .add dst v => c.set dst (word (c.reg dst + v))
  | .sub dst v => c.set dst (word (c.reg dst + (2 ^ 64 - v)))
  | .call target next => { c.pushWord next with rip := target }
  | .ret => { c.set .rsp (word (c.reg .rsp + 8)) with rip := c.top }
  | .iretq =>
      { c.set .rsp (load c.mem (c.reg .rsp + 24) 8) with
        rip := c.top
        cs := load c.mem (c.reg .rsp + 8) 8
        rflags := load c.mem (c.reg .rsp + 16) 8
        ss := load c.mem (c.reg .rsp + 32) 8 }

def runCode (code : List Instr) (c : Cpu) : Cpu := code.foldl Instr.run c

theorem runCode_append (code code' : List Instr) (c : Cpu) :
    runCode (code ++ code') c = runCode code' (runCode code c) := List.foldl_append

theorem runCode_cons (i : Instr) (code : List Instr) (c : Cpu) :
    runCode (i :: code) c = runCode code (i.run c) := rfl

/-! ## 64-bit values -/

/-- All values of the processor are 64-bit values. -/
structure Cpu.Wf (c : Cpu) : Prop where
  reg : ∀ r, c.reg r < 2 ^ 64
  rip : c.rip < 2 ^ 64
  rflags : c.rflags < 2 ^ 64
  cs : c.cs < 2 ^ 64
  ss : c.ss < 2 ^ 64

theorem word_lt (n : Nat) : word n < 2 ^ 64 := Nat.mod_lt _ (by decide)

theorem load_word_lt (m : Mem) (a : Nat) : load m a 8 < 2 ^ 64 := load_lt m a 8

theorem Cpu.Wf.set {c : Cpu} (h : c.Wf) {v : Nat} (hv : v < 2 ^ 64) (r : Reg) : (c.set r v).Wf := by
  refine ⟨fun r' => ?_, h.rip, h.rflags, h.cs, h.ss⟩
  by_cases hr : r' = r
  · rw [hr, c.set_self]
    exact hv
  · rw [c.set_other hr]
    exact h.reg r'

theorem Cpu.Wf.withMem {c : Cpu} (h : c.Wf) (m : Mem) : Cpu.Wf { c with mem := m } :=
  ⟨h.reg, h.rip, h.rflags, h.cs, h.ss⟩

theorem Cpu.Wf.pushWord {c : Cpu} (h : c.Wf) (v : Nat) : (c.pushWord v).Wf :=
  (h.set (word_lt _) .rsp).withMem _

/-- The constants of an instruction are 64-bit values. -/
def Instr.Fits : Instr → Prop
  | .pushImm v => v < 2 ^ 64
  | .movImm _ v => v < 2 ^ 64
  | .call target next => target < 2 ^ 64 ∧ next < 2 ^ 64
  | _ => True

instance : (i : Instr) → Decidable i.Fits
  | .pushImm v => inferInstanceAs (Decidable (v < 2 ^ 64))
  | .movImm _ v => inferInstanceAs (Decidable (v < 2 ^ 64))
  | .call target next => inferInstanceAs (Decidable (target < 2 ^ 64 ∧ next < 2 ^ 64))
  | .push _ | .pop _ | .mov _ _ | .store _ _ _ | .add _ _ | .sub _ _ | .ret | .iretq =>
      inferInstanceAs (Decidable True)

theorem Cpu.Wf.run {c : Cpu} (h : c.Wf) : ∀ {i : Instr}, i.Fits → (i.run c).Wf
  | .push r, _ => h.pushWord (c.reg r)
  | .pushImm v, _ => h.pushWord v
  | .pop r, _ => (h.set (word_lt _) .rsp).set (load_word_lt _ _) r
  | .mov dst src, _ => h.set (h.reg src) dst
  | .movImm dst _, hv => h.set hv dst
  | .store _ _ _, _ => h.withMem _
  | .add dst _, _ => h.set (word_lt _) dst
  | .sub dst _, _ => h.set (word_lt _) dst
  | .call _ next, ht => by
      have hp := h.pushWord next
      exact ⟨hp.reg, ht.1, hp.rflags, hp.cs, hp.ss⟩
  | .ret, _ => by
      have hs := h.set (word_lt (c.reg .rsp + 8)) .rsp
      exact ⟨hs.reg, load_word_lt _ _, hs.rflags, hs.cs, hs.ss⟩
  | .iretq, _ => by
      have hs := h.set (load_word_lt c.mem (c.reg .rsp + 24)) .rsp
      exact ⟨hs.reg, load_word_lt _ _, load_word_lt _ _, load_word_lt _ _, load_word_lt _ _⟩

theorem runCode_wf : ∀ {code : List Instr} {c : Cpu}, (∀ i ∈ code, i.Fits) → c.Wf →
    (runCode code c).Wf
  | [], _, _, h => h
  | i :: code, c, hi, h => by
      have hrest : (runCode code (i.run c)).Wf :=
        runCode_wf (fun j hm => hi j (List.mem_cons_of_mem _ hm)) (h.run (hi i List.mem_cons_self))
      exact hrest

/-- Only `iretq` loads the selectors. -/
theorem Instr.run_selectors {i : Instr} (h : i ≠ .iretq) (c : Cpu) :
    (i.run c).cs = c.cs ∧ (i.run c).ss = c.ss := by
  cases i with
  | iretq => exact absurd rfl h
  | _ => exact ⟨rfl, rfl⟩

theorem runCode_selectors : ∀ {code : List Instr} {c : Cpu}, .iretq ∉ code →
    (runCode code c).cs = c.cs ∧ (runCode code c).ss = c.ss
  | [], _, _ => ⟨rfl, rfl⟩
  | i :: code, c, h => by
      obtain ⟨hcs, hss⟩ := Instr.run_selectors (fun he => h (he ▸ List.mem_cons_self)) c
      obtain ⟨hcs', hss'⟩ := runCode_selectors (c := i.run c) fun hm => h (List.mem_cons_of_mem _ hm)
      exact ⟨hcs'.trans hcs, hss'.trans hss⟩

/-! ## Words in memory -/

/-- The words `ws` are in memory from `a` on. -/
def Holds (m : Mem) (a : Nat) : List Nat → Prop
  | [] => True
  | w :: ws => load m a 8 = w ∧ Holds m (a + 8) ws

theorem Holds.congr {m m' : Mem} : ∀ {ws : List Nat} {a : Nat}, Holds m a ws →
    (∀ x, a ≤ x → x < a + 8 * ws.length → m' x = m x) → Holds m' a ws
  | [], _, _, _ => trivial
  | w :: ws, a, h, heq => by
      rw [List.length_cons] at heq
      refine ⟨?_, h.2.congr fun x h1 h2 => heq x (by omega) (by omega)⟩
      exact (load_congr fun x h1 h2 => heq x h1 (by omega)).trans h.1

theorem holds_append {m : Mem} : ∀ {ws vs : List Nat} {a : Nat},
    Holds m a (ws ++ vs) ↔ Holds m a ws ∧ Holds m (a + 8 * ws.length) vs
  | [], _, _ => ⟨fun h => ⟨trivial, h⟩, fun h => h.2⟩
  | w :: ws, vs, a => by
      have haddr : a + 8 * (w :: ws).length = a + 8 + 8 * ws.length := by
        rw [List.length_cons]
        omega
      rw [haddr]
      change load m a 8 = w ∧ Holds m (a + 8) (ws ++ vs) ↔ (load m a 8 = w ∧ Holds m (a + 8) ws) ∧ _
      rw [holds_append, and_assoc]

theorem Holds.get {m : Mem} : ∀ {ws : List Nat} {a : Nat}, Holds m a ws → ∀ {k : Nat},
    k < ws.length → load m (a + 8 * k) 8 = ws.getD k 0
  | [], _, _, _, hk => absurd hk (Nat.not_lt_zero _)
  | w :: ws, a, h, 0, _ => h.1
  | w :: ws, a, h, k + 1, hk => by
      have haddr : a + 8 * (k + 1) = a + 8 + 8 * k := by omega
      rw [haddr, List.getD_cons_succ]
      exact h.2.get (Nat.lt_of_succ_lt_succ hk)

/-- The words of memory from `a` on. -/
theorem holds_iff {m : Mem} : ∀ {ws : List Nat} {a : Nat},
    Holds m a ws ↔ ∀ k < ws.length, load m (a + 8 * k) 8 = ws.getD k 0
  | [], _ => ⟨fun _ _ hk => absurd hk (Nat.not_lt_zero _), fun _ => trivial⟩
  | w :: ws, a => by
      refine ⟨fun h k hk => h.get hk, fun h => ⟨h 0 (Nat.succ_pos _), holds_iff.mpr fun k hk => ?_⟩⟩
      have hk' := h (k + 1) (Nat.succ_lt_succ hk)
      have haddr : a + 8 * (k + 1) = a + 8 + 8 * k := by omega
      rw [haddr, List.getD_cons_succ] at hk'
      exact hk'

/-! ## Pushes -/

/-- From `c` to `c'` the stack has grown by `ws`, the lowest first. -/
structure Pushed (ws : List Nat) (c c' : Cpu) : Prop where
  room : 8 * ws.length ≤ c.reg .rsp
  rsp : c'.reg .rsp = c.reg .rsp - 8 * ws.length
  reg : ∀ r, r ≠ .rsp → c'.reg r = c.reg r
  holds : Holds c'.mem (c.reg .rsp - 8 * ws.length) ws
  mem : ∀ x, x < c.reg .rsp - 8 * ws.length ∨ c.reg .rsp ≤ x → c'.mem x = c.mem x

theorem Pushed.nil (c : Cpu) : Pushed [] c c :=
  ⟨Nat.zero_le _, rfl, fun _ _ => rfl, trivial, fun _ _ => rfl⟩

theorem Pushed.trans {ws vs : List Nat} {c c' c'' : Cpu} (h : Pushed ws c c')
    (h' : Pushed vs c' c'') : Pushed (vs ++ ws) c c'' := by
  have hroom := h.room
  have hroom' := h'.room
  have hrsp := h.rsp
  have hlen : (vs ++ ws).length = vs.length + ws.length := List.length_append
  rw [hrsp] at hroom'
  refine ⟨by omega, ?_, fun r hr => (h'.reg r hr).trans (h.reg r hr), ?_, fun x hx => ?_⟩
  · rw [h'.rsp, hrsp, hlen]
    omega
  · have haddr : c.reg .rsp - 8 * (vs ++ ws).length = c'.reg .rsp - 8 * vs.length := by omega
    rw [haddr]
    refine holds_append.mpr ⟨h'.holds, ?_⟩
    have hbase : c'.reg .rsp - 8 * vs.length + 8 * vs.length = c.reg .rsp - 8 * ws.length := by omega
    rw [hbase]
    exact h.holds.congr fun x h1 _ => h'.mem x (Or.inr (by omega))
  · rw [h'.mem x (by omega), h.mem x (by omega)]

theorem word_sub {sp n : Nat} (h : n ≤ sp) (hn : n ≤ 2 ^ 64) (hlt : sp < 2 ^ 64) :
    word (sp + (2 ^ 64 - n)) = sp - n := by
  unfold word
  omega

theorem word_of_lt {n : Nat} (h : n < 2 ^ 64) : word n = n := Nat.mod_eq_of_lt h

theorem pushWord_pushed {c : Cpu} {v : Nat} (hroom : 8 ≤ c.reg .rsp) (hlt : c.reg .rsp < 2 ^ 64)
    (hv : v < 2 ^ 64) : Pushed [v] c (c.pushWord v) := by
  have hsp : word (c.reg .rsp + (2 ^ 64 - 8)) = c.reg .rsp - 8 := word_sub hroom (by decide) hlt
  have hmem : (c.pushWord v).mem = store c.mem (c.reg .rsp - 8) 8 v := by
    unfold Cpu.pushWord
    rw [hsp]
  refine ⟨hroom, ?_, fun r hr => Function.update_of_ne hr _ _, ⟨?_, trivial⟩, fun x hx => ?_⟩
  · have hreg : (c.pushWord v).reg = Function.update c.reg .rsp (word (c.reg .rsp + (2 ^ 64 - 8))) :=
      rfl
    rw [hreg, Function.update_self, hsp, List.length_singleton]
  · rw [hmem]
    exact (load_store_self _ _ _ _).trans (Nat.mod_eq_of_lt hv)
  · rw [hmem]
    refine store_of_outside _ _ _ _ ?_
    have hlen : [v].length = 1 := rfl
    rw [hlen] at hx
    omega

/-- Pushing registers. -/
theorem runCode_pushes : ∀ {rs : List Reg} {c : Cpu}, Reg.rsp ∉ rs → 8 * rs.length ≤ c.reg .rsp →
    c.reg .rsp < 2 ^ 64 → (∀ r ∈ rs, c.reg r < 2 ^ 64) →
    Pushed (rs.reverse.map c.reg) c (runCode (rs.map .push) c)
  | [], c, _, _, _, _ => .nil c
  | r :: rs, c, hsp, hroom, hlt, hv => by
      have hlen : (r :: rs).length = rs.length + 1 := rfl
      rw [hlen] at hroom
      have hone : Pushed [c.reg r] c (c.pushWord (c.reg r)) :=
        pushWord_pushed (by omega) hlt (hv r List.mem_cons_self)
      have hrsp : (c.pushWord (c.reg r)).reg .rsp = c.reg .rsp - 8 := hone.rsp
      have hsame : ∀ r' ∈ rs, (c.pushWord (c.reg r)).reg r' = c.reg r' := fun r' hr' =>
        hone.reg r' fun he => hsp (he ▸ List.mem_cons_of_mem _ hr')
      have hrest : Pushed (rs.reverse.map (c.pushWord (c.reg r)).reg) (c.pushWord (c.reg r))
          (runCode (rs.map .push) (c.pushWord (c.reg r))) := runCode_pushes
        (fun hm => hsp (List.mem_cons_of_mem _ hm)) (by omega) (by omega)
        fun r' hr' => by
          rw [hsame r' hr']
          exact hv r' (List.mem_cons_of_mem _ hr')
      have hmap : rs.reverse.map (c.pushWord (c.reg r)).reg = rs.reverse.map c.reg :=
        List.map_congr_left fun r' hr' => hsame r' (List.mem_reverse.mp hr')
      rw [hmap] at hrest
      rw [List.reverse_cons, List.map_append]
      exact hone.trans hrest

/-! ## Pops -/

/-- The registers after `rs` were loaded with the values that `f` gives them. -/
def loaded (rs : List Reg) (f : Reg → Nat) (c : Cpu) : Cpu :=
  { c with
    reg := fun r => if r ∈ rs then f r else if r = .rsp then c.reg .rsp + 8 * rs.length else c.reg r }

theorem runCode_pops : ∀ {rs : List Reg} {c : Cpu} {f : Reg → Nat}, Reg.rsp ∉ rs →
    c.reg .rsp + 8 * rs.length < 2 ^ 64 → Holds c.mem (c.reg .rsp) (rs.map f) →
    runCode (rs.map .pop) c = loaded rs f c
  | [], c, f, _, _, _ => by
      unfold loaded
      have hreg : (fun r => if r ∈ ([] : List Reg) then f r else
          if r = .rsp then c.reg .rsp + 8 * ([] : List Reg).length else c.reg r) = c.reg := by
        funext r
        rw [if_neg List.not_mem_nil]
        split
        · rename_i hr
          rw [hr]
          rfl
        · rfl
      rw [hreg]
      rfl
  | r :: rs, c, f, hsp, hroom, h => by
      have hlen : (r :: rs).length = rs.length + 1 := rfl
      rw [hlen] at hroom
      have hr : r ≠ .rsp := fun he => hsp (he ▸ List.mem_cons_self)
      have hrsp : ((Instr.pop r).run c).reg .rsp = c.reg .rsp + 8 := by
        change Function.update (Function.update c.reg .rsp (word (c.reg .rsp + 8))) r c.top .rsp = _
        rw [Function.update_of_ne hr.symm, Function.update_self]
        exact word_of_lt (by omega)
      have hself : ((Instr.pop r).run c).reg r = f r := (Function.update_self _ _ _).trans h.1
      have hother : ∀ r', r' ≠ r → r' ≠ .rsp → ((Instr.pop r).run c).reg r' = c.reg r' :=
        fun r' h1 h2 => (Function.update_of_ne h1 _ _).trans (Function.update_of_ne h2 _ _)
      have hrest : runCode (rs.map .pop) ((Instr.pop r).run c) = loaded rs f ((Instr.pop r).run c) :=
        runCode_pops (fun hm => hsp (List.mem_cons_of_mem _ hm)) (by omega) (by rw [hrsp]; exact h.2)
      rw [List.map_cons, runCode_cons, hrest]
      unfold loaded
      have hreg : (fun r' => if r' ∈ rs then f r' else if r' = .rsp then
          ((Instr.pop r).run c).reg .rsp + 8 * rs.length else ((Instr.pop r).run c).reg r') =
          fun r' => if r' ∈ r :: rs then f r' else
            if r' = .rsp then c.reg .rsp + 8 * (r :: rs).length else c.reg r' := by
        funext r'
        by_cases hm : r' ∈ rs
        · rw [if_pos hm, if_pos (List.mem_cons_of_mem _ hm)]
        · rw [if_neg hm]
          by_cases he : r' = r
          · rw [he, if_neg hr, hself, if_pos List.mem_cons_self]
          · rw [if_neg fun hc => (List.mem_cons.mp hc).elim he hm]
            by_cases hs : r' = .rsp
            · rw [if_pos hs, if_pos hs, hrsp, hlen]
              omega
            · rw [if_neg hs, if_neg hs, hother r' he hs]
      rw [hreg]
      rfl

/-! ## Stores -/

/-- Store `rs` one after the other, from `base + k` up. -/
def storeCode (base : Reg) (k : Nat) : List Reg → List Instr
  | [] => []
  | r :: rs => .store base k r :: storeCode base (k + 8) rs

theorem runCode_stores (base : Reg) : ∀ (rs : List Reg) (k : Nat) {c : Cpu},
    c.reg base + k + 8 * rs.length ≤ 2 ^ 64 → (∀ r ∈ rs, c.reg r < 2 ^ 64) →
    ∃ m, runCode (storeCode base k rs) c = { c with mem := m } ∧
      Holds m (c.reg base + k) (rs.map c.reg) ∧
      ∀ x, x < c.reg base + k ∨ c.reg base + k + 8 * rs.length ≤ x → m x = c.mem x
  | [], _, c, _, _ => ⟨c.mem, rfl, trivial, fun _ _ => rfl⟩
  | r :: rs, k, c, hroom, hv => by
      rw [List.length_cons] at hroom
      have hword : word (c.reg base + k) = c.reg base + k := word_of_lt (by omega)
      obtain ⟨c₁, hc₁⟩ : ∃ c₁ : Cpu, c₁ = { c with mem := store c.mem (c.reg base + k) 8 (c.reg r) } :=
        ⟨_, rfl⟩
      have hrun : (Instr.store base k r).run c = c₁ := by
        rw [hc₁, ← hword]
        rfl
      have hreg : c₁.reg = c.reg := by rw [hc₁]
      have hm₁ : c₁.mem = store c.mem (c.reg base + k) 8 (c.reg r) := by rw [hc₁]
      obtain ⟨m, hrest, hholds, hoff⟩ := runCode_stores base rs (k + 8) (c := c₁)
        (by rw [hreg]; omega) fun r' hr' => hreg ▸ hv r' (List.mem_cons_of_mem _ hr')
      rw [hreg] at hholds hoff
      refine ⟨m, ?_, ⟨?_, hholds⟩, fun x hx => ?_⟩
      · change runCode (storeCode base (k + 8) rs) ((Instr.store base k r).run c) = _
        rw [hrun, hrest, hc₁]
      · have hkept : load m (c.reg base + k) 8 = load c₁.mem (c.reg base + k) 8 :=
          load_congr fun x h1 h2 => hoff x (Or.inl (by omega))
        rw [hkept, hm₁, load_store_self]
        exact Nat.mod_eq_of_lt (hv r List.mem_cons_self)
      · rw [List.length_cons] at hx
        rw [hoff x (by omega), hm₁]
        exact store_of_outside _ _ _ _ (by omega)

/-! ## Interrupts -/

theorem interrupt_wf {c : Cpu} (h : c.Wf) {base entry : Nat} (hb : base < 2 ^ 64)
    (he : entry < 2 ^ 64) (error : Option Nat) : (c.interrupt base entry error).Wf := by
  have hfive := (((((h.set hb .rsp).pushWord c.ss).pushWord (c.reg .rsp)).pushWord c.rflags).pushWord
    c.cs).pushWord c.rip
  have hflags : c.rflags &&& (2 ^ 64 - 1 - Cpu.gateFlags) < 2 ^ 64 :=
    Nat.lt_of_le_of_lt Nat.and_le_left h.rflags
  have hcs : 8 < 2 ^ 64 := by decide
  have hss : 0 < 2 ^ 64 := by decide
  cases error with
  | none => exact ⟨hfive.reg, he, hflags, hcs, hss⟩
  | some e => exact ⟨(hfive.pushWord e).reg, he, hflags, hcs, hss⟩

/-- What the processor pushes, the lowest first. -/
def Cpu.interruptWords (c : Cpu) (error : Option Nat) : List Nat :=
  error.toList ++ [c.rip, c.cs, c.rflags, c.reg .rsp, c.ss]

theorem interrupt_pushed {c : Cpu} (hc : c.Wf) {base entry : Nat} {error : Option Nat}
    (hroom : 48 ≤ base) (hlt : base < 2 ^ 64) (he : ∀ e, error = some e → e < 2 ^ 64) :
    Pushed (c.interruptWords error) (c.set .rsp base) (c.interrupt base entry error) := by
  have hbase : (c.set .rsp base).reg .rsp = base := c.set_self .rsp base
  have h₁ := pushWord_pushed (c := c.set .rsp base) (by omega) (by omega) hc.ss
  have s₁ := h₁.rsp
  rw [hbase, List.length_singleton] at s₁
  have h₂ := pushWord_pushed (c := (c.set .rsp base).pushWord c.ss) (by omega) (by omega) (hc.reg .rsp)
  have s₂ := h₂.rsp
  rw [s₁, List.length_singleton] at s₂
  have h₃ := pushWord_pushed (c := ((c.set .rsp base).pushWord c.ss).pushWord (c.reg .rsp))
    (by omega) (by omega) hc.rflags
  have s₃ := h₃.rsp
  rw [s₂, List.length_singleton] at s₃
  have h₄ := pushWord_pushed
    (c := (((c.set .rsp base).pushWord c.ss).pushWord (c.reg .rsp)).pushWord c.rflags)
    (by omega) (by omega) hc.cs
  have s₄ := h₄.rsp
  rw [s₃, List.length_singleton] at s₄
  have h₅ := pushWord_pushed
    (c := ((((c.set .rsp base).pushWord c.ss).pushWord (c.reg .rsp)).pushWord c.rflags).pushWord c.cs)
    (by omega) (by omega) hc.rip
  have s₅ := h₅.rsp
  rw [s₄, List.length_singleton] at s₅
  have hfive := (((h₁.trans h₂).trans h₃).trans h₄).trans h₅
  cases error with
  | none => exact ⟨hfive.room, hfive.rsp, hfive.reg, hfive.holds, hfive.mem⟩
  | some e =>
      have hsix := hfive.trans (pushWord_pushed (v := e) (by omega) (by omega) (he e rfl))
      exact ⟨hsix.room, hsix.rsp, hsix.reg, hsix.holds, hsix.mem⟩

/-! ## Stack switches -/

/-- Save `rs` and the stack pointer in the cell at `rdi`, take the stack pointer `rsi`, and load
    what was saved there. -/
def switchCode (rs : List Reg) : List Instr :=
  rs.map .push ++ [.store .rdi 0 .rsp, .mov .rsp .rsi] ++ rs.reverse.map .pop ++ [.ret]

/-- What a switch leaves on the stack of who calls it: `regs` are its registers, and it goes on at
    `rip`. -/
def savedWords (rs : List Reg) (regs : Reg → Nat) (rip : Nat) : List Nat :=
  rs.reverse.map regs ++ [rip]

theorem savedWords_length (rs : List Reg) (regs : Reg → Nat) (rip : Nat) :
    (savedWords rs regs rip).length = rs.length + 1 := by
  unfold savedWords
  rw [List.length_append, List.length_map, List.length_reverse, List.length_singleton]

/-- After a switch from `c`, to whom was saved with `regs` and `rip`. -/
structure Switched (rs : List Reg) (regs : Reg → Nat) (rip : Nat) (c c' : Cpu) : Prop where
  reg : ∀ r ∈ rs, c'.reg r = regs r
  rip : c'.rip = rip
  rsp : c'.reg .rsp = c.reg .rsi + 8 * (rs.length + 1)
  saved : Holds c'.mem (c.reg .rsp - 8 * rs.length) (savedWords rs c.reg c.top)
  cell : load c'.mem (c.reg .rdi) 8 = c.reg .rsp - 8 * rs.length
  mem : ∀ x, (x < c.reg .rsp - 8 * rs.length ∨ c.reg .rsp ≤ x) →
    (x < c.reg .rdi ∨ c.reg .rdi + 8 ≤ x) → c'.mem x = c.mem x

/-- Two ranges of addresses have none in common. -/
def Separate (a n b k : Nat) : Prop := a + n ≤ b ∨ b + k ≤ a

/-- The second half of a switch: take the stack pointer of another, and load what it saved. -/
theorem runCode_loads {rs : List Reg} {c : Cpu} {regs : Reg → Nat} {rip : Nat} (hsp : Reg.rsp ∉ rs)
    (hroom : c.reg .rsi + 8 * (rs.length + 1) < 2 ^ 64)
    (hsaved : Holds c.mem (c.reg .rsi) (savedWords rs regs rip)) :
    ∃ c', runCode ([.mov .rsp .rsi] ++ rs.reverse.map .pop ++ [.ret]) c = c' ∧
      (∀ r ∈ rs, c'.reg r = regs r) ∧ c'.rip = rip ∧
      c'.reg .rsp = c.reg .rsi + 8 * (rs.length + 1) ∧ c'.mem = c.mem := by
  have hnot : Reg.rsp ∉ rs.reverse := fun hm => hsp (List.mem_reverse.mp hm)
  obtain ⟨hregs, hrip⟩ := holds_append.mp hsaved
  rw [List.length_map, List.length_reverse] at hrip
  have hr₁ : (c.set .rsp (c.reg .rsi)).reg .rsp = c.reg .rsi := Cpu.set_self _ _ _
  have hpops : runCode (rs.reverse.map .pop) (c.set .rsp (c.reg .rsi)) =
      loaded rs.reverse regs (c.set .rsp (c.reg .rsi)) := by
    refine runCode_pops hnot ?_ (by rw [hr₁]; exact hregs)
    rw [hr₁, List.length_reverse]
    omega
  obtain ⟨c₂, hc₂⟩ : ∃ c₂, c₂ = loaded rs.reverse regs (c.set .rsp (c.reg .rsi)) := ⟨_, rfl⟩
  have hsp₂ : c₂.reg .rsp = c.reg .rsi + 8 * rs.length := by
    rw [hc₂]
    unfold loaded
    dsimp only
    rw [if_neg hnot, if_pos rfl, hr₁, List.length_reverse]
  have hreg₂ : ∀ r ∈ rs, c₂.reg r = regs r := fun r hr => by
    rw [hc₂]
    unfold loaded
    exact if_pos (List.mem_reverse.mpr hr)
  have hmem₂ : c₂.mem = c.mem := by
    rw [hc₂]
    rfl
  have hrun : runCode ([.mov .rsp .rsi] ++ rs.reverse.map .pop ++ [.ret]) c = Instr.run c₂ .ret := by
    rw [runCode_append, runCode_append, hc₂, ← hpops]
    rfl
  have hret : (Instr.run c₂ .ret).reg = (c₂.set .rsp (word (c₂.reg .rsp + 8))).reg := rfl
  refine ⟨_, hrun, fun r hr => ?_, ?_, ?_, ?_⟩
  · have hne : r ≠ .rsp := fun he => hsp (he ▸ hr)
    rw [hret, c₂.set_other hne, hreg₂ r hr]
  · change load c₂.mem (c₂.reg .rsp) 8 = rip
    rw [hsp₂, hmem₂]
    exact hrip.1
  · rw [hret, c₂.set_self, hsp₂, word_of_lt (by omega)]
    omega
  · exact hmem₂

theorem runCode_switch {rs : List Reg} {c : Cpu} {regs : Reg → Nat} {rip : Nat} (hc : c.Wf)
    (hsp : Reg.rsp ∉ rs) (hroom : 8 * rs.length ≤ c.reg .rsp)
    (hcell : c.reg .rdi + 8 ≤ 2 ^ 64)
    (hown : Separate (c.reg .rdi) 8 (c.reg .rsp - 8 * rs.length) (8 * (rs.length + 1)))
    (hnext : c.reg .rsi + 8 * (rs.length + 1) < 2 ^ 64)
    (hstack : Separate (c.reg .rsi) (8 * (rs.length + 1)) (c.reg .rsp - 8 * rs.length) (8 * rs.length))
    (hother : Separate (c.reg .rsi) (8 * (rs.length + 1)) (c.reg .rdi) 8)
    (hsaved : Holds c.mem (c.reg .rsi) (savedWords rs regs rip)) :
    Switched rs regs rip c (runCode (switchCode rs) c) := by
  have hlt := hc.reg .rsp
  have hpush := runCode_pushes hsp hroom hlt fun r _ => hc.reg r
  have hlen : (rs.reverse.map c.reg).length = rs.length := by
    rw [List.length_map, List.length_reverse]
  obtain ⟨c₁, hc₁⟩ : ∃ c₁, runCode (rs.map .push) c = c₁ := ⟨_, rfl⟩
  rw [hc₁] at hpush
  have hrsp := hpush.rsp
  have hholds := hpush.holds
  have hmem := hpush.mem
  have hrdi : c₁.reg .rdi = c.reg .rdi := hpush.reg _ (by decide)
  have hrsi : c₁.reg .rsi = c.reg .rsi := hpush.reg _ (by decide)
  rw [hlen] at hrsp hholds hmem
  unfold Separate at hown hstack hother
  -- the stack pointer goes to the cell
  obtain ⟨c₂, hc₂⟩ : ∃ c₂, c₂ = Instr.run c₁ (.store .rdi 0 .rsp) := ⟨_, rfl⟩
  have hm₂ : c₂.mem = store c₁.mem (c.reg .rdi) 8 (c.reg .rsp - 8 * rs.length) := by
    rw [hc₂]
    change store c₁.mem (word (c₁.reg .rdi + 0)) 8 (c₁.reg .rsp) = _
    rw [hrdi, hrsp, Nat.add_zero, word_of_lt (by omega)]
  have hr₂ : c₂.reg .rsi = c.reg .rsi := by
    rw [hc₂]
    exact hrsi
  have hoff : ∀ x, (x < c.reg .rdi ∨ c.reg .rdi + 8 ≤ x) → c₂.mem x = c₁.mem x := fun x hx => by
    rw [hm₂]
    exact store_of_outside _ _ _ _ hx
  -- what the other one saved is still there
  have hkept : Holds c₂.mem (c₂.reg .rsi) (savedWords rs regs rip) := by
    rw [hr₂]
    refine hsaved.congr fun x h1 h2 => ?_
    rw [savedWords_length] at h2
    rw [hoff x (by omega), hmem x (by omega)]
  obtain ⟨c₃, hrun, hregs, hrip, hrsp₃, hmem₃⟩ := runCode_loads hsp (by omega) hkept
  have hall : runCode (switchCode rs) c = c₃ := by
    rw [← hrun, hc₂, ← hc₁]
    unfold switchCode
    rw [runCode_append, runCode_append, runCode_append, runCode_append, runCode_append]
    rfl
  rw [hall]
  refine ⟨hregs, hrip, by rw [hrsp₃, hr₂], ?_, ?_, fun x h1 h2 => ?_⟩
  · have hsave : Holds c₁.mem (c.reg .rsp - 8 * rs.length) (savedWords rs c.reg c.top) := by
      refine holds_append.mpr ⟨hholds, ?_, trivial⟩
      rw [hlen]
      have haddr : c.reg .rsp - 8 * rs.length + 8 * rs.length = c.reg .rsp := by omega
      rw [haddr]
      exact load_congr fun x h1 _ => hmem x (Or.inr h1)
    rw [hmem₃]
    refine hsave.congr fun x h1 h2 => hoff x ?_
    rw [savedWords_length] at h2
    omega
  · rw [hmem₃, hm₂]
    refine (load_store_self _ _ _ _).trans (Nat.mod_eq_of_lt ?_)
    omega
  · rw [hmem₃, hoff x h2, hmem x h1]

end Os64.Lib
