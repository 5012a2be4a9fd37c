/-
  user1/main.c: the shell.

  `readCmd` runs on the list of keys that `keyboard_readu` returns, and is `none` while it waits
  for another. Its calls `printf("%s", ch)` are recorded in `shown`, and `echo` is what such a
  call prints. `lineShown` reads the line off the screen: characters are appended, a backspace
  takes the last one away, and the newline at the end is dropped.

  * `readCmd_ends`: `readCmd` against `ending`, which says where a sequence of keys ends.
  * `readCmd_shows_iff`: the buffer holds the line that is shown when no key but a newline comes
    behind 81 characters.
  * `mainRound_exec`: the name that the shell then runs.
-/
import Os64.Console.Format

namespace Os64

open Os64.Lib

/-- A character from the keyboard; `keyboard_handler` keeps none that is 0. -/
structure Key where
  byte : UInt8
  ne_zero : byte ≠ 0
deriving DecidableEq

/-- `char ch[2]`. -/
def Key.string (k : Key) : CString := ⟨[k.byte], fun h => k.ne_zero (List.mem_singleton.mp h).symm⟩

/-- What `printf("%s", ch)` prints. -/
def echo (k : Key) : List UInt8 :=
  ((printf (fun _ => k.string) (fun _ => 0) (fun _ => 0) percentS).map fun r => r.1.1).getD []

theorem echo_eq (k : Key) : echo k = [k.byte] := by
  have h : formattedText (fun _ => k.string) (fun _ => 0) percentS = [k.byte] :=
    formattedText_percentS _ _
  rw [echo, printf_eq, h]
  rfl

structure CmdState where
  buffer : Mem
  size : Nat
  shown : List Key

/-- `read_cmd`, from any state of its loop. -/
def readCmd : List Key → CmdState → Option CmdState
  | [], _ => none
  | k :: keys, s =>
      if k.byte = 10 ∨ 80 < s.size then some { s with shown := s.shown ++ [k] }
      else if k.byte = 8 then
        if 0 < s.size then
          readCmd keys
            { buffer := Function.update s.buffer (s.size - 1) 0
              size := s.size - 1
              shown := s.shown ++ [k] }
        else readCmd keys s
      else
        readCmd keys
          { buffer := Function.update s.buffer s.size k.byte
            size := s.size + 1
            shown := s.shown ++ [k] }

/-- `memset(buffer, 0, 100)` and the call of `read_cmd`. -/
def readCommand (m : Mem) (keys : List Key) : Option CmdState :=
  readCmd keys ⟨fill m 0 100 0, 0, []⟩

/-! ## The line that is shown -/

def editChar (line : List UInt8) (c : UInt8) : List UInt8 :=
  if c = 8 then line.dropLast else line ++ [c]

def edited (text : List UInt8) : List UInt8 := text.foldl editChar []

def lineShown (text : List UInt8) : List UInt8 :=
  edited (if text.getLast? = some 10 then text.dropLast else text)

/-- What the shell shows, all calls together. -/
def CmdState.screen (s : CmdState) : List UInt8 := s.shown.flatMap echo

/-- The result of `read_cmd`, against the screen. -/
structure RunsShown (s : CmdState) : Prop where
  size_lt : s.size < 100
  ends : s.buffer s.size = 0
  inside : ∀ k < s.size, s.buffer k ≠ 0
  line : (List.range s.size).map s.buffer = lineShown s.screen

theorem screen_eq (s : CmdState) : s.screen = s.shown.map Key.byte := by
  unfold CmdState.screen
  rw [List.map_eq_flatMap]
  exact List.flatMap_congr fun k _ => echo_eq k

/-- Inside the loop: the buffer holds `line` in front of zeros, and `line` is on the screen. -/
structure Holds (line : List UInt8) (s : CmdState) : Prop where
  size_eq : s.size = line.length
  length_le : line.length ≤ 81
  bytes : ∀ k < 100, s.buffer k = line.getD k 0
  noNul : 0 ∉ line
  shown : edited (s.shown.map Key.byte) = line
  open_ : ∀ k ∈ s.shown, k.byte ≠ 10

theorem Holds.start (m : Mem) : Holds [] ⟨fill m 0 100 0, 0, []⟩ where
  size_eq := rfl
  length_le := by decide
  bytes := fun k hk => if_pos ⟨Nat.zero_le _, by omega⟩
  noNul := List.not_mem_nil
  shown := rfl
  open_ := nofun

/-- Where a sequence of keys ends the loop: the line then, and the key that ends it. -/
def ending (line : List UInt8) : List Key → Option (List UInt8 × Key)
  | [] => none
  | k :: keys =>
      if k.byte = 10 ∨ 80 < line.length then some (line, k)
      else ending (editChar line k.byte) keys

namespace Holds

variable {line : List UInt8} {s : CmdState} {k : Key}

theorem append (h : Holds line s) (hn : k.byte ≠ 10) (hlen : line.length ≤ 80) (hb : k.byte ≠ 8) :
    Holds (editChar line k.byte)
      { buffer := Function.update s.buffer s.size k.byte
        size := s.size + 1
        shown := s.shown ++ [k] } := by
  have hedit : editChar line k.byte = line ++ [k.byte] := if_neg hb
  rw [hedit]
  refine ⟨?_, ?_, fun j hj => ?_, ?_, ?_, ?_⟩
  · rw [List.length_append, List.length_singleton, h.size_eq]
  · rw [List.length_append, List.length_singleton]
    omega
  · dsimp only
    rw [List.getD_eq_getElem?_getD, h.size_eq]
    rcases Nat.lt_trichotomy j line.length with hlt | heq | hgt
    · rw [Function.update_of_ne (by omega), h.bytes j hj, List.getElem?_append_left hlt,
        List.getD_eq_getElem?_getD]
    · rw [heq, Function.update_self, List.getElem?_concat_length]
      rfl
    · rw [Function.update_of_ne (by omega), h.bytes j hj, List.getD_eq_getElem?_getD,
        List.getElem?_eq_none (by omega),
        List.getElem?_eq_none (by rw [List.length_append, List.length_singleton]; omega)]
  · intro h0
    rcases List.mem_append.mp h0 with hm | hm
    · exact h.noNul hm
    · exact k.ne_zero (List.mem_singleton.mp hm).symm
  · dsimp only
    rw [List.map_append, edited, List.foldl_append, ← edited, h.shown]
    exact hedit
  · intro j hj
    rcases List.mem_append.mp hj with hm | hm
    · exact h.open_ j hm
    · rw [List.mem_singleton.mp hm]
      exact hn

theorem backspace (h : Holds line s) (hb : k.byte = 8) (hpos : 0 < line.length) :
    Holds (editChar line k.byte)
      { buffer := Function.update s.buffer (s.size - 1) 0
        size := s.size - 1
        shown := s.shown ++ [k] } := by
  have hedit : editChar line k.byte = line.dropLast := if_pos hb
  have hle := h.length_le
  rw [hedit]
  refine ⟨?_, ?_, fun j hj => ?_, ?_, ?_, ?_⟩
  · rw [List.length_dropLast, h.size_eq]
  · rw [List.length_dropLast]
    omega
  · dsimp only
    rw [List.getD_eq_getElem?_getD, List.getElem?_dropLast, h.size_eq]
    rcases Nat.lt_trichotomy j (line.length - 1) with hlt | heq | hgt
    · rw [Function.update_of_ne (by omega), h.bytes j hj, if_pos hlt, List.getD_eq_getElem?_getD]
    · rw [heq, Function.update_self, if_neg (by omega)]
      rfl
    · rw [Function.update_of_ne (by omega), h.bytes j hj, if_neg (by omega),
        List.getD_eq_getElem?_getD, List.getElem?_eq_none (by omega)]
  · exact fun h0 => h.noNul (List.mem_of_mem_dropLast h0)
  · dsimp only
    rw [List.map_append, edited, List.foldl_append, ← edited, h.shown]
    exact hedit
  · intro j hj
    rcases List.mem_append.mp hj with hm | hm
    · exact h.open_ j hm
    · rw [List.mem_singleton.mp hm, hb]
      decide

end Holds

/-- The loop goes on with the edited line, and ends where `ending` says. -/
theorem readCmd_ends (keys : List Key) {line : List UInt8} {s : CmdState} (h : Holds line s) :
    (ending line keys = none → readCmd keys s = none) ∧
    ∀ l k, ending line keys = some (l, k) → ∃ s₁, Holds l s₁ ∧
      readCmd keys s = some { s₁ with shown := s₁.shown ++ [k] } := by
  induction keys generalizing line s with
  | nil => exact ⟨fun _ => rfl, nofun⟩
  | cons k keys ih =>
      rw [ending, readCmd]
      have hsize : (k.byte = 10 ∨ 80 < s.size) ↔ (k.byte = 10 ∨ 80 < line.length) := by
        rw [h.size_eq]
      by_cases hend : k.byte = 10 ∨ 80 < line.length
      · rw [if_pos hend, if_pos (hsize.mpr hend)]
        refine ⟨nofun, fun l k' heq => ?_⟩
        obtain ⟨rfl, rfl⟩ := Prod.mk.inj (Option.some.inj heq)
        exact ⟨s, h, rfl⟩
      · obtain ⟨hn, hlen⟩ := not_or.mp hend
        rw [if_neg hend, if_neg (mt hsize.mp hend)]
        by_cases hb : k.byte = 8
        · rw [if_pos hb]
          by_cases hpos : 0 < s.size
          · rw [if_pos hpos]
            exact ih (h.backspace hb (h.size_eq ▸ hpos))
          · -- a backspace on the empty line is neither stored nor shown
            have hnil : line = [] := List.length_eq_zero_iff.mp (by have := h.size_eq; omega)
            have hedit : editChar line k.byte = line := by
              rw [editChar, if_pos hb, hnil]
              rfl
            rw [if_neg hpos, hedit]
            exact ih h
        · rw [if_neg hb]
          exact ih (h.append hn (by omega) hb)

theorem Holds.text {line : List UInt8} {s : CmdState} (h : Holds line s) :
    (List.range s.size).map s.buffer = line := by
  have hle := h.length_le
  refine List.ext_getElem (by rw [List.length_map, List.length_range, h.size_eq]) fun k _ hk => ?_
  rw [List.getElem_map, List.getElem_range, h.bytes k (by omega), List.getD_eq_getElem?_getD,
    List.getElem?_eq_getElem hk]
  rfl

/-- The key that ends the loop is shown and not stored. -/
theorem Holds.runsShown_iff {line : List UInt8} {s : CmdState} (h : Holds line s) {k : Key}
    (hend : k.byte = 10 ∨ 80 < line.length) :
    RunsShown { s with shown := s.shown ++ [k] } ↔ k.byte = 10 := by
  have hle := h.length_le
  have hsize := h.size_eq
  have hscreen : CmdState.screen { s with shown := s.shown ++ [k] } =
      s.shown.map Key.byte ++ [k.byte] := by
    rw [screen_eq, List.map_append]
    rfl
  constructor
  · intro hr
    by_contra hk
    have hlong : 80 < line.length := hend.resolve_left hk
    have hline := hr.line
    have hlast : ¬ some k.byte = some 10 := fun he => hk (Option.some.inj he)
    rw [hscreen, lineShown, List.getLast?_concat, if_neg hlast, edited, List.foldl_append,
      ← edited, h.shown] at hline
    have hlength := congrArg List.length (h.text.symm.trans hline)
    rw [List.foldl_cons, List.foldl_nil, editChar] at hlength
    split at hlength
    · rw [List.length_dropLast] at hlength
      omega
    · rw [List.length_append, List.length_singleton] at hlength
      omega
  · intro hk
    refine ⟨?_, ?_, fun j hj => ?_, ?_⟩
    · dsimp only
      omega
    · dsimp only
      rw [h.bytes _ (by omega), hsize, List.getD_eq_getElem?_getD,
        List.getElem?_eq_none (Nat.le_refl _)]
      rfl
    · dsimp only at hj ⊢
      have hlt : j < line.length := by omega
      rw [h.bytes j (by omega), List.getD_eq_getElem?_getD, List.getElem?_eq_getElem hlt]
      exact fun h0 => h.noNul (h0 ▸ List.getElem_mem hlt)
    · rw [hscreen, hk, lineShown, List.getLast?_concat, if_pos rfl, List.dropLast_concat, h.shown]
      exact h.text

theorem ending_or {keys : List Key} {line l : List UInt8} {k : Key}
    (h : ending line keys = some (l, k)) : k.byte = 10 ∨ 80 < l.length := by
  induction keys generalizing line with
  | nil => cases h
  | cons k' keys ih =>
      rw [ending] at h
      split at h
      · obtain ⟨rfl, rfl⟩ := Prod.mk.inj (Option.some.inj h)
        assumption
      · exact ih h

/-- Whenever `read_cmd` returns on these keys, its buffer holds the line that is shown. -/
def ShowsLine (keys : List Key) : Prop :=
  ∀ m s, readCommand m keys = some s → RunsShown s

theorem showsLine_iff_ending (keys : List Key) :
    ShowsLine keys ↔ ∀ l k, ending [] keys = some (l, k) → k.byte = 10 := by
  constructor
  · intro hshows l k hend
    obtain ⟨s, hs, hrun⟩ := (readCmd_ends keys (Holds.start fun _ => 0)).2 l k hend
    exact (hs.runsShown_iff (ending_or hend)).mp (hshows _ _ hrun)
  · intro hall m s hrun
    have h := readCmd_ends keys (Holds.start m)
    cases hend : ending [] keys with
    | none =>
        rw [readCommand, h.1 hend] at hrun
        cases hrun
    | some p =>
        obtain ⟨s₁, hs, hrun'⟩ := h.2 p.1 p.2 hend
        rw [readCommand, hrun'] at hrun
        rw [← Option.some.inj hrun]
        exact (hs.runsShown_iff (ending_or hend)).mpr (hall p.1 p.2 hend)

/-- A line of 81 characters is followed by a newline. -/
def CapEndsInNewline (line : List UInt8) (keys : List Key) : Prop :=
  ∀ before k after, keys = before ++ k :: after → (∀ j ∈ before, j.byte ≠ 10) →
    ((before.map Key.byte).foldl editChar line).length = 81 → k.byte = 10

theorem editChar_length_le {line : List UInt8} (h : line.length ≤ 80) (c : UInt8) :
    (editChar line c).length ≤ 81 := by
  rw [editChar]
  split
  · rw [List.length_dropLast]
    omega
  · rw [List.length_append, List.length_singleton]
    omega

theorem CapEndsInNewline.cons_iff {line : List UInt8} {k : Key} {keys : List Key}
    (hk : k.byte ≠ 10) (hlen : line.length ≤ 80) :
    CapEndsInNewline line (k :: keys) ↔ CapEndsInNewline (editChar line k.byte) keys := by
  constructor
  · intro h before j after heq hopen hcap
    refine h (k :: before) j after (by rw [heq]; rfl) (fun i hi => ?_) hcap
    rcases List.mem_cons.mp hi with rfl | hm
    · exact hk
    · exact hopen i hm
  · intro h before j after heq hopen hcap
    cases before with
    | nil =>
        have hcap : line.length = 81 := hcap
        omega
    | cons i before =>
        obtain ⟨rfl, htail⟩ := List.cons.inj heq
        exact h before j after htail (fun j hj => hopen j (List.mem_cons_of_mem _ hj)) hcap

theorem ending_newline_iff (keys : List Key) {line : List UInt8} (hlen : line.length ≤ 81) :
    (∀ l k, ending line keys = some (l, k) → k.byte = 10) ↔ CapEndsInNewline line keys := by
  induction keys generalizing line with
  | nil => exact iff_of_true nofun fun before k after heq => by cases before <;> cases heq
  | cons k keys ih =>
      rw [ending]
      by_cases hk : k.byte = 10
      · rw [if_pos (Or.inl hk)]
        refine iff_of_true (fun l k' heq => ?_) fun before j after heq hopen _ => ?_
        · rw [← (Prod.mk.inj (Option.some.inj heq)).2]
          exact hk
        · cases before with
          | nil => rw [← (List.cons.inj heq).1, hk]
          | cons i before =>
              rw [← (List.cons.inj heq).1] at hopen
              exact absurd hk (hopen k List.mem_cons_self)
      · by_cases hcap : 80 < line.length
        · rw [if_pos (Or.inr hcap)]
          refine iff_of_false (fun h => hk (h line k rfl)) fun h => hk ?_
          exact h [] k keys rfl nofun (show line.length = 81 by omega)
        · rw [if_neg (not_or.mpr ⟨hk, hcap⟩), CapEndsInNewline.cons_iff hk (by omega)]
          exact ih (editChar_length_le (by omega) _)

theorem readCmd_shows_iff (keys : List Key) : ShowsLine keys ↔ CapEndsInNewline [] keys :=
  (showsLine_iff_ending keys).trans (ending_newline_iff keys (by decide))

/-- The 82nd key ends the line and is shown, but not stored. -/
theorem readCmd_drops_key :
    ¬ ShowsLine (List.replicate 81 ⟨97, by decide⟩ ++ [⟨98, by decide⟩]) := by
  intro h
  have hend := (showsLine_iff_ending _).mp h (List.replicate 81 97) ⟨98, by decide⟩
    (by decide +kernel)
  exact absurd hend (by decide)

/-! ## What is run -/

/-- The string at `buffer`, as `open_file` and `exec` read it. -/
def CmdState.name (s : CmdState) : List UInt8 :=
  ((List.range 100).map s.buffer).takeWhile fun c => c != 0

/-- How a round of `main` ends: with the next prompt, with `Command Not Found`, or with a child
that runs a program. -/
inductive Round where
  | again
  | notFound
  | run (name : List UInt8)

/-- A round of `main` behind its `read_cmd`, with what `open_file` returns for a name. -/
def mainRound (openFile : List UInt8 → Int) (s : CmdState) : Round :=
  if s.size = 0 then .again
  else if openFile s.name = -1 then .notFound
  else .run s.name

theorem RunsShown.name_eq {s : CmdState} (h : RunsShown s) : s.name = lineShown s.screen := by
  have hlt := h.size_lt
  obtain ⟨n, hn⟩ : ∃ n, 100 = s.size + (n + 1) := ⟨99 - s.size, by omega⟩
  rw [CmdState.name, ← h.line, hn, List.range_add, List.map_append, List.takeWhile_append_of_pos,
    List.range_succ_eq_map, List.map_cons, List.map_cons, List.takeWhile_cons_of_neg,
    List.append_nil]
  · rw [Nat.add_zero, h.ends]
    decide
  · intro c hc
    obtain ⟨k, hk, rfl⟩ := List.mem_map.mp hc
    exact bne_iff_ne.mpr (h.inside k (List.mem_range.mp hk))

/-- The program that is run is the one whose name is on the screen. -/
theorem mainRound_exec (openFile : List UInt8 → Int) {m : Mem} {keys : List Key} {s : CmdState}
    (hkeys : CapEndsInNewline [] keys) (hrun : readCommand m keys = some s) {name : List UInt8}
    (hround : mainRound openFile s = .run name) : name = lineShown s.screen ∧ name ≠ [] := by
  have hshows : RunsShown s :=
    (showsLine_iff_ending keys).mpr ((ending_newline_iff keys (by decide)).mpr hkeys) m s hrun
  unfold mainRound at hround
  split at hround
  · cases hround
  split at hround
  · cases hround
  · obtain rfl := Round.run.inj hround
    refine ⟨hshows.name_eq, fun hnil => ?_⟩
    have hlen := congrArg List.length (hshows.line.trans (hshows.name_eq.symm.trans hnil))
    rw [List.length_map, List.length_range] at hlen
    exact absurd hlen ‹¬ s.size = 0›

end Os64
