/-
  The key buffer between the interrupt handler and its readers.

  * `KeysOk`: the ring holds the characters that were accepted and not yet returned.
  * `run_keys`: as long as every reader that goes on after `sleep` finds the oldest character
    in the cell it remembers, the characters returned are the first ones of those accepted.
  * `keys_returned_twice`: two sleeping readers get one and the same character.
-/
import Os64.Lib.Ring
import Os64.Sys.Moves

namespace Os64

open Os64.Lib

variable {K : Image}

def Obs.accepted? : Obs → Option Nat
  | .accepted ch => some ch
  | _ => none

def Obs.returned? : Obs → Option Nat
  | .returned ch => some ch
  | _ => none

/-- The characters taken into the key buffer, in order. -/
def acceptedKeys (h : List Obs) : List Nat := h.filterMap Obs.accepted?

/-- The characters handed to readers, in the order in which the reads returned. -/
def returnedKeys (h : List Obs) : List Nat := h.filterMap Obs.returned?

theorem keys_mute {os : List Obs} (h : ∀ o ∈ os, ¬ o.key) :
    acceptedKeys os = [] ∧ returnedKeys os = [] := by
  constructor
  · refine List.filterMap_eq_nil_iff.mpr fun o ho => ?_
    cases o with
    | accepted ch => exact absurd trivial (h _ ho)
    | _ => rfl
  · refine List.filterMap_eq_nil_iff.mpr fun o ho => ?_
    cases o with
    | returned ch => exact absurd trivial (h _ ho)
    | _ => rfl

/-- The ring holds what was accepted and not returned. -/
def KeysOk (s : Kernel) : Prop :=
  ∃ ks, acceptedKeys s.hist = returnedKeys s.hist ++ ks ∧
    Ring s.keyBuffer.buffer s.keyBuffer.size s.keyBuffer.front s.keyBuffer.end_ ks

theorem KeysOk.mute {s s' : Kernel} (h : KeysOk s) (os : List Obs)
    (hk : s'.keyBuffer = s.keyBuffer) (ho : s'.hist = s.hist ++ os) (hos : ∀ o ∈ os, ¬ o.key) :
    KeysOk s' := by
  obtain ⟨ks, hks, hring⟩ := h
  obtain ⟨ha, hr⟩ := keys_mute hos
  refine ⟨ks, ?_, by rw [hk]; exact hring⟩
  unfold acceptedKeys returnedKeys at *
  rw [ho, List.filterMap_append, List.filterMap_append, ha, hr, List.append_nil, List.append_nil]
  exact hks

theorem KeysOk.accept {s : Kernel} (h : KeysOk s) (ch : Nat)
    (hne : (s.keyBuffer.end_ + 1) % s.keyBuffer.size ≠ s.keyBuffer.front) : KeysOk (s.accept ch) := by
  obtain ⟨ks, hks, hring⟩ := h
  refine ⟨ks ++ [ch], ?_, hring.push hne ch⟩
  have ha : acceptedKeys (s.accept ch).hist = acceptedKeys s.hist ++ [ch] := List.filterMap_append
  have hr : returnedKeys (s.accept ch).hist = returnedKeys s.hist ++ [] := List.filterMap_append
  rw [ha, hr, hks, List.append_nil, List.append_assoc]

/-- A reader that takes the oldest character. -/
theorem KeysOk.take {s : Kernel} (h : KeysOk s) (hne : s.keyBuffer.front ≠ s.keyBuffer.end_) :
    KeysOk (s.take s.keyBuffer.front) := by
  obtain ⟨ks, hks, hring⟩ := h
  cases ks with
  | nil => exact absurd (hring.empty_iff.mpr rfl) hne
  | cons k ks =>
      obtain ⟨hk, hring'⟩ := hring.pop
      refine ⟨ks, ?_, hring'⟩
      have ha : acceptedKeys (s.take s.keyBuffer.front).hist = acceptedKeys s.hist ++ [] :=
        List.filterMap_append
      have hr : returnedKeys (s.take s.keyBuffer.front).hist =
          returnedKeys s.hist ++ [s.keyBuffer.buffer s.keyBuffer.front] := List.filterMap_append
      rw [ha, hr, hk, hks, List.append_nil, List.append_assoc]
      rfl

/-- The invariant, as a relation that the programs of the kernel keep. -/
instance keysChange : Change fun s s' => KeysOk s → KeysOk s' where
  trans h h' hs := h' (h hs)
  mute os hk ho hos h := h.mute os hk ho hos
  accept _ ch hne h := h.accept ch hne
  take _ hne h := h.take hne

/-- A reader that goes on after `sleep` finds the buffer's front where it was, and a character
    there. -/
def FreshRead (s : Kernel) : Event → Prop
  | .resume => ∀ front, s.current.kont = .readingKey front →
      front = s.keyBuffer.front ∧ front ≠ s.keyBuffer.end_
  | _ => True

theorem step_keys {s s' : Kernel} {e : Event} (h : KeysOk s) (hf : FreshRead s e)
    (hs : step K e s = .ok () s') : KeysOk s' := by
  refine step_grows (R := fun s s' => KeysOk s → KeysOk s') (fun he front hk t ht htok => ?_) hs h
  subst he
  obtain ⟨rfl, hne⟩ := hf front hk
  rw [← ht] at hne ⊢
  exact htok.take hne

theorem boot_keys {m : Mem} {s₀ : Kernel} (h₀ : kMain K (bootKernel m) = .ok () s₀) : KeysOk s₀ :=
  (grows_kMain (R := fun s s' => KeysOk s → KeysOk s').ends _).ok h₀
    ⟨[], rfl, Ring.nil (fun _ => 0) (show 0 < 500 by decide)⟩

/-- Characters are delivered once each and in order, while no reader is late. -/
theorem run_keys {m : Mem} {s₀ s : Kernel} (h₀ : kMain K (bootKernel m) = .ok () s₀)
    (h : Run K FreshRead s₀ s) : returnedKeys s.hist <+: acceptedKeys s.hist := by
  have hkeys : KeysOk s := by
    induction h with
    | refl => exact boot_keys h₀
    | step _ _ hok hs ih => exact step_keys ih hok hs
  obtain ⟨ks, hks, -⟩ := hkeys
  exact ⟨ks, hks.symm⟩

/-! ## Two readers -/

/-- The scan code of a digit yields a character, whatever the shift and lock keys, unless a
    prefix came before it. -/
theorem decode_digit {flag : Nat} (h : flag &&& e0Sign = 0) :
    (decodeScanCode flag 2).2 = 49 ∨ (decodeScanCode flag 2).2 = 33 := by
  have hflag : (flag ||| shiftCode 2) ^^^ lockCode 2 = flag := by
    rw [show shiftCode 2 = 0 from rfl, show lockCode 2 = 0 from rfl, Nat.or_zero, Nat.xor_zero]
  unfold decodeScanCode
  rw [if_neg (by decide), if_neg (by simpa using h), if_neg (by decide), hflag]
  by_cases hs : flag &&& shift ≠ 0
  · refine Or.inr ?_
    simp only [if_pos hs]
    split <;> rfl
  · refine Or.inl ?_
    simp only [if_neg hs]
    split <;> rfl

/-- After a prefix the code yields nothing and clears it. -/
theorem decode_prefixed {flag : Nat} (h : flag &&& e0Sign ≠ 0) :
    (decodeScanCode flag 2).2 = 0 ∧ (decodeScanCode flag 2).1 &&& e0Sign = 0 := by
  have hbit : flag &&& 1 = 1 := by
    unfold e0Sign at h
    rw [Nat.and_one_is_mod] at h ⊢
    omega
  unfold decodeScanCode
  rw [if_neg (by decide), if_pos h]
  refine ⟨rfl, ?_⟩
  change (flag ^^^ 1) &&& 1 = 0
  rw [Nat.and_xor_distrib_right, hbit]
  rfl

section Keys

variable {m : Mem} {Ok : Kernel → Event → Prop} {pool free : List Nat} {a : Sched} {S : Handles}
  {s : Kernel}

/-- Somebody presses the key of a digit, twice if need be. -/
theorem digit_move {s₀ : Kernel} (hrun : Run K Ok s₀ s) (h : Whole K pool free a S s)
    (hu : a.kont a.current = .user)
    (hOk : ∀ s code f, Whole K pool free a S s → Ok s (.keyboard code f)) :
    ∃ s' ch, (ch = 49 ∨ ch = 33) ∧ Run K Ok s₀ s' ∧
      Whole K pool free ((a.acceptKey ch).wake (-2)) S s' := by
  have he : ∀ {s : Kernel}, Whole K pool free a S s → Enabled s (.keyboard 2 (irqFrame 33)) :=
    fun h => ⟨h.kont.trans hu, irqFrame_ofUser (by decide), by decide⟩
  have press : ∀ {s : Kernel}, Run K Ok s₀ s → Whole K pool free a S s → s.flag &&& e0Sign = 0 →
      ∃ s' ch, (ch = 49 ∨ ch = 33) ∧ Run K Ok s₀ s' ∧
        Whole K pool free ((a.acceptKey ch).wake (-2)) S s' := by
    intro s hrun h hflag
    have hch := decode_digit hflag
    obtain ⟨s', hs, h'⟩ := key_move h 2 (irqFrame 33) (by omega)
    exact ⟨s', _, hch, hrun.step (he h) (hOk _ _ _ h) hs, h'⟩
  by_cases hflag : s.flag &&& e0Sign = 0
  · exact press hrun h hflag
  · obtain ⟨hch, hnext⟩ := decode_prefixed hflag
    obtain ⟨s', hs, h', hflag'⟩ := mute_key_move h 2 (irqFrame 33) hch
    exact press (hrun.step (he h) (hOk _ _ _ h) hs) h' (by rw [hflag']; exact hnext)

theorem At.key (h : At K m Ok pool free a S s) (hu : a.kont a.current = .user)
    (hOk : ∀ s code f, Ok s (.keyboard code f)) :
    ∃ s' ch, (ch = 49 ∨ ch = 33) ∧ At K m Ok pool free ((a.acceptKey ch).wake (-2)) S s' := by
  obtain ⟨s₀, h₀, hrun⟩ := h.reached
  obtain ⟨s', ch, hch, hrun', h'⟩ := digit_move hrun h.whole hu fun s code f _ => hOk s code f
  exact ⟨s', ch, hch, ⟨s₀, h₀, hrun'⟩, h'⟩

end Keys

/-- A process sleeps for a key, the key comes, and it goes on with it. -/
theorem run_keys_machine : ∃ s, Reached image (machineMem 20 []) FreshRead s ∧
    returnedKeys s.hist ≠ [] ∧ returnedKeys s.hist <+: acceptedKeys s.hist := by
  -- who goes back to user mode takes no key
  have hback : ∀ {pool free : List Nat} {a : Sched} {S : Handles} {s : Kernel},
      At image (machineMem 20 []) FreshRead pool free a S s → a.kont a.current = .trapReturn →
        FreshRead s .resume := by
    intro _ _ a _ s r hk front hread
    rw [r.whole.kont, hk] at hread
    cases hread
  obtain ⟨pool, free, s₀, hboot, hw₀, -⟩ := machine_boots (n := 20) (by decide) (by decide) []
  have r₀ : At image (machineMem 20 []) FreshRead pool free firstSched noHandles s₀ :=
    ⟨⟨s₀, hboot, .refl⟩, hw₀⟩
  obtain ⟨s₁, r₁, -⟩ := r₀.timer (by decide) trivial
  obtain ⟨s₂, r₂, -⟩ := r₁.back (by decide) (hback r₁ (by decide))
  obtain ⟨s₃, r₃⟩ := r₂.read (by decide) (by decide) (by decide) (by decide) trivial
  -- the idle process sees the key come
  obtain ⟨s₄, r₄, -⟩ := r₃.back (by decide) (hback r₃ (by decide))
  obtain ⟨s₅, ch, hch, r₅⟩ := r₄.key (by decide) fun _ _ _ => trivial
  obtain ⟨s₆, r₆, -⟩ := r₅.timer (by rcases hch with rfl | rfl <;> decide) trivial
  have hfresh : FreshRead s₆ .resume := by
    intro front hread
    rw [r₆.whole.kont] at hread
    rw [r₆.whole.rep.keys]
    rcases hch with rfl | rfl
    · obtain rfl : 0 = front := Kont.readingKey.inj hread
      decide
    · obtain rfl : 0 = front := Kont.readingKey.inj hread
      decide
  obtain ⟨s₇, r₇⟩ := r₆.take 0 (by rcases hch with rfl | rfl <;> decide) hfresh
  obtain ⟨t₀, h₀, hrun⟩ := r₇.reached
  refine ⟨s₇, r₇.reached, ?_, run_keys h₀ hrun⟩
  rw [r₇.whole.rep.hist]
  rcases hch with rfl | rfl <;> decide

/-- Two processes sleep for a key, one key comes, and both get it. -/
theorem keys_returned_twice : ∃ s, Reached image (machineMem 20 []) (fun _ _ => True) s ∧
    ¬ returnedKeys s.hist <+: acceptedKeys s.hist := by
  obtain ⟨pool, free, s₀, r₀, -, hfree, -⟩ := reached_user (n := 20) (by decide) (by decide) []
    (fun _ _ => True) fun _ _ _ => trivial
  -- the first program forks, and parent and child ask for a key
  obtain ⟨s₁, free₁, S₁, r₁, -⟩ := r₀.fork (by decide) (by decide) (by omega) (i := 2) (by decide)
    trivial
  obtain ⟨s₂, r₂⟩ := r₁.read (by decide) (by decide) (by decide) (by decide) trivial
  obtain ⟨s₃, r₃, -⟩ := r₂.back (by decide) trivial
  obtain ⟨s₄, r₄⟩ := r₃.read (by decide) (by decide) (by decide) (by decide) trivial
  -- the idle process sees the key come
  obtain ⟨s₅, r₅, -⟩ := r₄.back (by decide) trivial
  obtain ⟨s₆, ch, hch, r₆⟩ := r₅.key (by decide) fun _ _ _ => trivial
  -- both readers go on
  obtain ⟨s₇, r₇, -⟩ := r₆.timer (by rcases hch with rfl | rfl <;> decide) trivial
  obtain ⟨s₈, r₈⟩ := r₇.take 0 (by rcases hch with rfl | rfl <;> decide) trivial
  obtain ⟨s₉, r₉, -⟩ := r₈.timer (by rcases hch with rfl | rfl <;> decide) trivial
  obtain ⟨s₁₀, r₁₀⟩ := r₉.take 0 (by rcases hch with rfl | rfl <;> decide) trivial
  refine ⟨s₁₀, r₁₀.reached, ?_⟩
  rw [r₁₀.whole.rep.hist]
  rcases hch with rfl | rfl <;> decide

end Os64
