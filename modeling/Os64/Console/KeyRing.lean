/-
  The key ring is a bounded queue.

  `Unread s xs`: the key buffer of `s` holds the characters `xs`, oldest first.

  * `write_unread`, `read_unread`: what one call does to the queue.
  * `keyCalls_queue`: after any calls, with anything in between that leaves the buffer alone.
-/
import Os64.Kernel.Main
import Os64.Lib.Ring
import Os64.Sched.Growth

namespace Os64

open Os64.Lib

/-- The ring of 500 cells holds `xs`. -/
structure Unread (s : Kernel) (xs : List Nat) : Prop where
  size : s.keyBuffer.size = 500
  ring : Ring s.keyBuffer.buffer 500 s.keyBuffer.front s.keyBuffer.end_ xs

section Calls

variable {s s' : Kernel} {xs : List Nat}

theorem Unread.congr (h : Unread s xs) (hk : s'.keyBuffer = s.keyBuffer) : Unread s' xs := by
  obtain ⟨hsize, hring⟩ := h
  rw [← hk] at hsize hring
  exact ⟨hsize, hring⟩

theorem Unread.bounds (h : Unread s xs) :
    s.keyBuffer.front < 500 ∧ s.keyBuffer.end_ < 500 ∧ xs.length ≤ 499 := by
  have hlen := h.ring.length_lt
  refine ⟨h.ring.front_lt, ?_, by omega⟩
  rw [h.ring.stop_eq]
  exact Nat.mod_lt _ (by decide)

/-- A write appends, or finds 499 characters and changes nothing. -/
theorem write_unread (h : Unread s xs) (ch : Nat) : ∃ s', writeKeyBuffer ch s = .ok () s' ∧
    (xs.length = 499 ∧ s' = s ∨ xs.length < 499 ∧ Unread s' (xs ++ [ch])) := by
  have hfull := h.ring.full_iff
  unfold writeKeyBuffer
  rw [bind_run (get_run s), h.size]
  by_cases hf : (s.keyBuffer.end_ + 1) % 500 = s.keyBuffer.front
  · rw [if_pos hf]
    have := hfull.mp hf
    exact ⟨s, rfl, Or.inl ⟨by omega, rfl⟩⟩
  · rw [if_neg hf]
    have hlt := h.bounds.2.2
    refine ⟨_, rfl, Or.inr ⟨?_, h.size, h.ring.push hf ch⟩⟩
    have := mt hfull.mpr hf
    omega

/-- A read takes the oldest character. -/
theorem read_unread {x : Nat} (h : Unread s (x :: xs)) :
    ∃ s', readKeyBuffer s = .ok (some (x : Int)) s' ∧ Unread s' xs := by
  have hne : s.keyBuffer.front ≠ s.keyBuffer.end_ := fun he =>
    List.cons_ne_nil x xs (h.ring.empty_iff.mp he)
  obtain ⟨hx, hring⟩ := h.ring.pop
  refine ⟨s.take s.keyBuffer.front, ?_, h.size, ?_⟩
  · unfold readKeyBuffer
    rw [bind_run (get_run s), if_neg hne, bind_run (takeKey_run s _), hx]
    rfl
  · rw [← h.size] at hring ⊢
    exact hring

end Calls

/-! ## Runs -/

inductive KeyCall where
  | write (ch : Nat)
  | read
  deriving DecidableEq, Repr

/-- What a call leaves of the queue `xs`. -/
def KeyCall.act (xs : List Nat) : KeyCall → List Nat
  | .write ch => if xs.length = 499 then xs else xs ++ [ch]
  | .read => xs.tail

def unread (calls : List KeyCall) : List Nat := calls.foldl KeyCall.act []

/-- Calls on the key buffer, from `s₀` to a state; reads find it not empty. Other steps leave the
    buffer alone. -/
inductive KeyCalls (s₀ : Kernel) : List KeyCall → Kernel → Prop
  | start : KeyCalls s₀ [] s₀
  | other {calls : List KeyCall} {s s' : Kernel} (h : KeyCalls s₀ calls s)
      (hsame : s'.keyBuffer = s.keyBuffer) : KeyCalls s₀ calls s'
  | write {calls : List KeyCall} {s s' : Kernel} (h : KeyCalls s₀ calls s) (ch : Nat)
      (hrun : writeKeyBuffer ch s = .ok () s') : KeyCalls s₀ (calls ++ [.write ch]) s'
  | read {calls : List KeyCall} {s s' : Kernel} {v : Option Int} (h : KeyCalls s₀ calls s)
      (hne : s.keyBuffer.front ≠ s.keyBuffer.end_) (hrun : readKeyBuffer s = .ok v s') :
      KeyCalls s₀ (calls ++ [.read]) s'

theorem unread_concat (calls : List KeyCall) (c : KeyCall) :
    unread (calls ++ [c]) = c.act (unread calls) := by
  unfold unread
  rw [List.foldl_append]
  rfl

theorem KeyCalls.unread {s₀ s : Kernel} {calls : List KeyCall} (h₀ : Unread s₀ [])
    (h : KeyCalls s₀ calls s) : Unread s (unread calls) := by
  induction h with
  | start => exact h₀
  | other _ hsame ih => exact ih.congr hsame
  | write _ ch hrun ih =>
      obtain ⟨s', hrun', hact⟩ := write_unread ih ch
      obtain ⟨-, rfl⟩ := EStateM.Result.ok.inj (hrun'.symm.trans hrun)
      rw [unread_concat]
      unfold KeyCall.act
      dsimp only
      rcases hact with ⟨hfull, rfl⟩ | ⟨hlt, hu⟩
      · rw [if_pos hfull]
        exact ih
      · rw [if_neg (by omega)]
        exact hu
  | read _ hne hrun ih =>
      rw [unread_concat]
      cases hxs : Os64.unread _ with
      | nil =>
          rw [hxs] at ih
          exact absurd (ih.ring.empty_iff.mpr rfl) hne
      | cons x xs =>
          rw [hxs] at ih
          obtain ⟨s', hrun', hu⟩ := read_unread ih
          obtain ⟨-, rfl⟩ := EStateM.Result.ok.inj (hrun'.symm.trans hrun)
          exact hu

/-- After any calls the ring holds the queue of the unread characters, with both indices inside;
    the next write appends to it, or finds it full and changes nothing, and the next read takes the
    oldest character from it. -/
theorem keyCalls_queue {s₀ s : Kernel} {calls : List KeyCall}
    (h₀ : s₀.keyBuffer.front = 0 ∧ s₀.keyBuffer.end_ = 0 ∧ s₀.keyBuffer.size = 500)
    (h : KeyCalls s₀ calls s) :
    s.keyBuffer.front < 500 ∧ s.keyBuffer.end_ < 500 ∧ Unread s (unread calls) ∧
      (∀ ch, ∃ s', writeKeyBuffer ch s = .ok () s' ∧
        if (unread calls).length = 499 then s' = s else Unread s' (unread calls ++ [ch])) ∧
      ∀ x xs, unread calls = x :: xs →
        ∃ s', readKeyBuffer s = .ok (some (x : Int)) s' ∧ Unread s' xs := by
  obtain ⟨hf, he, hsize⟩ := h₀
  have hempty : Unread s₀ [] := ⟨hsize, by rw [hf, he]; exact .nil _ (by decide)⟩
  have hu := h.unread hempty
  obtain ⟨hfront, hend, hlen⟩ := hu.bounds
  refine ⟨hfront, hend, hu, fun ch => ?_, fun x xs hxs => ?_⟩
  · obtain ⟨s', hrun, hact⟩ := write_unread hu ch
    refine ⟨s', hrun, ?_⟩
    rcases hact with ⟨hfull, rfl⟩ | ⟨hlt, hu'⟩
    · rw [if_pos hfull]
    · rw [if_neg (by omega)]
      exact hu'
  · rw [hxs] at hu
    exact read_unread hu

/-- A further write finds its place or leaves things as they are. -/
theorem KeyCalls.write_more {s₀ s : Kernel} {calls : List KeyCall} (h₀ : Unread s₀ [])
    (h : KeyCalls s₀ calls s) (ch : Nat) : ∃ s', KeyCalls s₀ (calls ++ [.write ch]) s' := by
  obtain ⟨s', hrun, -⟩ := write_unread (h.unread h₀) ch
  exact ⟨s', h.write ch hrun⟩

/-- To write a character and read it, `n` times. -/
theorem keyCalls_cycles {s₀ : Kernel} (h₀ : Unread s₀ []) (n : Nat) :
    ∃ calls s, KeyCalls s₀ calls s ∧ calls.length = 2 * n ∧ unread calls = [] := by
  induction n with
  | zero => exact ⟨[], s₀, .start, rfl, rfl⟩
  | succ n ih =>
      obtain ⟨calls, s, hcalls, hlen, hempty⟩ := ih
      obtain ⟨s₁, hcalls₁⟩ := hcalls.write_more h₀ 97
      have hone : unread (calls ++ [.write 97]) = [97] := by
        rw [unread_concat, hempty]
        rfl
      have hu := hcalls₁.unread h₀
      rw [hone] at hu
      obtain ⟨s₂, hrun₂, -⟩ := read_unread hu
      refine ⟨_, s₂, hcalls₁.read (fun he => ?_) hrun₂, ?_, ?_⟩
      · exact List.cons_ne_nil 97 [] (hu.ring.empty_iff.mp he)
      · simp [hlen]
        omega
      · rw [unread_concat, hone]
        rfl

/-- From boot, with both indices past the end of the ring once. -/
theorem keyCalls_queue_wrapped : ∃ calls s, KeyCalls (bootKernel fun _ => 0) calls s ∧
    calls.length = 1202 ∧ unread calls = [98, 99] ∧
    s.keyBuffer.front < 500 ∧ s.keyBuffer.end_ < 500 ∧ Unread s (unread calls) ∧
      (∀ ch, ∃ s', writeKeyBuffer ch s = .ok () s' ∧
        if (unread calls).length = 499 then s' = s else Unread s' (unread calls ++ [ch])) ∧
      ∀ (x : Nat) xs, unread calls = x :: xs →
        ∃ s', readKeyBuffer s = .ok (some (x : Int)) s' ∧ Unread s' xs := by
  have h₀ : Unread (bootKernel fun _ => 0) [] := ⟨rfl, .nil _ (by decide)⟩
  obtain ⟨calls, s, hcalls, hlen, hempty⟩ := keyCalls_cycles h₀ 600
  obtain ⟨s₁, h₁⟩ := hcalls.write_more h₀ 98
  obtain ⟨s₂, h₂⟩ := h₁.write_more h₀ 99
  refine ⟨_, s₂, h₂, ?_, ?_, keyCalls_queue ⟨rfl, rfl, rfl⟩ h₂⟩
  · simp [hlen]
  · rw [unread_concat, unread_concat, hempty]
    rfl

end Os64
