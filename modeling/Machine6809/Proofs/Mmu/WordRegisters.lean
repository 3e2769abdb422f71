import Machine6809.Proofs.Mmu.Carrying
import Machine6809.Proofs.Mmu.CommandRegister
import Machine6809.Proofs.Histories

/-!
# Word registers

The guest writes a word byte by byte, and anything may come between the two bytes: an interrupt
handler may write to other registers, run commands or write to payloads. The word that takes effect
with its low byte is made of that byte and of the last one written to the high half of the same
register since the unit was reset (`lastHigh`), whatever else has happened. The reason is a property
of one request (`latched_serve`): the latch of a register changes by writing its high byte and by a
reset, and in no other way.

`Mmu.Commits` says what a word does to the unit, register by register, and `Mmu.Accepts` which words
are not refused.
-/

namespace Machine6809

/-- The word registers, each with the offset of its high byte. -/
def wordRegisters : List (Word × WordRegister) :=
  [(0x00, .window 0), (0x02, .window 1), (0x04, .freeCount), (0x06, .allocatedCount),
    (0x08, .breakCount), (0x0A, .arg1), (0x0C, .arg2), (0x30, .root), (0x32, .prev), (0x34, .next),
    (0x36, .cursor)]

section Offsets

variable {offset : Word} {register : WordRegister}

/-- The even offset of a word register is its high byte. -/
theorem ofOffset_high (h : (offset, register) ∈ wordRegisters) :
    RegisterByte.ofOffset offset.toNat = .word register false := by
  have table : ∀ entry ∈ wordRegisters,
      RegisterByte.ofOffset entry.1.toNat = .word entry.2 false := by decide
  exact table _ h

/-- The odd one is its low byte. -/
theorem ofOffset_low (h : (offset, register) ∈ wordRegisters) :
    RegisterByte.ofOffset (offset + 1).toNat = .word register true := by
  have table : ∀ entry ∈ wordRegisters,
      RegisterByte.ofOffset (entry.1 + 1).toNat = .word entry.2 true := by decide
  exact table _ h

/-- A register that is found by its offset is in the table. -/
theorem mem_of_ofOffset? {k : ℕ} (h : WordRegister.ofOffset? k = some register) :
    (UInt16.ofNat k, register) ∈ wordRegisters := by
  unfold WordRegister.ofOffset? at h
  split at h <;> cases h <;> decide

/-- There are no other word registers. -/
theorem mem_wordRegisters (h : RegisterByte.ofOffset offset.toNat = .word register false) :
    (offset, register) ∈ wordRegisters := by
  unfold RegisterByte.ofOffset at h
  split_ifs at h
  split at h
  · rename_i hregister
    injection h with heq hlow
    -- what stands for a high byte has an even offset, which is its register's own
    have heven : offset.toNat % 2 = 0 := by
      have hodd : ¬offset.toNat % 2 = 1 := by simpa using hlow
      omega
    rw [heven, Nat.sub_zero] at hregister
    have hmem := mem_of_ofOffset? hregister
    rwa [UInt16.ofNat_toNat, heq] at hmem
  · cases h

/-- The latches of the word registers are different ones. -/
theorem slot_inj {offset' : Word} {register' : WordRegister}
    (h : (offset, register) ∈ wordRegisters) (h' : (offset', register') ∈ wordRegisters)
    (hslot : offset'.toNat / 2 = offset.toNat / 2) :
    offset' = offset := by
  have table : ∀ entry ∈ wordRegisters, ∀ entry' ∈ wordRegisters,
      entry'.1.toNat / 2 = entry.1.toNat / 2 → entry'.1 = entry.1 := by decide
  exact table _ h _ h' hslot

/-- Each register has a slot in the latch. -/
theorem slot_lt (h : (offset, register) ∈ wordRegisters) : offset.toNat / 2 < 32 := by
  have table : ∀ entry ∈ wordRegisters, entry.1.toNat / 2 < 32 := by decide
  exact table _ h

end Offsets

namespace Mmu

variable {n : ℕ}

/-! ### High bytes in a history -/

instance : DecidablePred Request.Resets := fun _ => inferInstanceAs (Decidable (_ ∨ _))

/-- The byte that a request writes to an offset of the register block. -/
def Request.byteAt? (offset : Word) : Request → Option Byte
  | .writeRegister o value => if o = offset then some value else none
  | _ => none

/-- The requests since the unit was last reset. -/
def sinceReset (rs : List Request) : List Request :=
  (rs.reverse.takeWhile fun r => ¬r.Resets).reverse

/-- The last byte written to an offset since the unit was last reset, or zero. -/
def lastHigh (offset : Word) (rs : List Request) : Byte :=
  (lastValue? (·.byteAt? offset) (sinceReset rs)).getD 0

/-- One request more: it resets, or it comes after the others. -/
theorem sinceReset_concat (rs : List Request) (r : Request) :
    sinceReset (rs ++ [r]) = if r.Resets then [] else sinceReset rs ++ [r] := by
  unfold sinceReset
  rw [List.reverse_append, List.reverse_singleton, List.singleton_append, List.takeWhile_cons]
  split_ifs <;> simp_all

/-- The last high byte after one request more. -/
theorem lastHigh_concat (offset : Word) (rs : List Request) (r : Request) :
    lastHigh offset (rs ++ [r])
      = if r.Resets then 0 else (r.byteAt? offset).getD (lastHigh offset rs) := by
  unfold lastHigh
  rw [sinceReset_concat]
  split_ifs with h
  · rfl
  · rw [lastValue?_concat, Option.getD_or]

/-- A high byte stays the last one until the next is written to its place, or the unit is reset. -/
theorem lastHigh_of_write (offset : Word) (before : List Request) (u : Byte)
    {between : List Request}
    (h : ∀ r ∈ between, ¬r.Resets ∧ r.byteAt? offset = none)
    (hreset : ¬(Request.writeRegister offset u).Resets) :
    lastHigh offset (before ++ .writeRegister offset u :: between) = u := by
  induction between using List.reverseRecOn with
  | nil =>
    rw [lastHigh_concat, if_neg hreset]
    show (if offset = offset then some u else none).getD _ = u
    rw [if_pos rfl]
    rfl
  | append_singleton between r ih =>
    -- the last request in between does not touch the byte, so it is as it was before
    obtain ⟨hr, hnone⟩ := h r (by simp)
    rw [← List.cons_append, ← List.append_assoc, lastHigh_concat, if_neg hr, hnone]
    exact ih fun s hs => h s (by simp [hs])

/-! ### The latches -/

section Latch

variable {m : Mmu n}

/-- A command leaves the latches alone unless it is RESET. -/
theorem latch_run {code : Byte} (h : Command.ofCode? code ≠ some .reset) :
    (m.run code).latch = m.latch := by
  unfold run
  split
  · rfl
  · rename_i command hcode
    have hcommand : command ≠ .reset := by
      rintro rfl
      exact h hcode
    rw [conclude_latch]
    exact congrArg Prod.snd (front_perform (m := m.announce command) hcommand)

/-- Of the writes to the register block only those of a high byte and of the reset command change
a latch. -/
theorem latch_writeRegister {offset : Word} {value : Byte}
    (hhigh : ∀ register, (offset, register) ∉ wordRegisters)
    (hreset : ¬(Request.writeRegister offset value).Resets) :
    (m.writeRegister offset value).latch = m.latch := by
  unfold writeRegister
  split
  · -- a command, which is not RESET
    rename_i hcommand
    refine latch_run fun hcode => hreset (.inr ?_)
    show (if _ then _ else _ : Option Command) = _
    rw [if_pos hcommand, hcode]
  · exact congrArg Prod.snd (m.front_writeCursorPayload _ _)
  · -- half of a word: only the high one would be latched
    rename_i register low hword
    split_ifs with hlow
    · exact congrArg Prod.snd (m.front_writeWord _ _ _)
    · rw [Bool.not_eq_true] at hlow
      exact absurd (mem_wordRegisters (hlow ▸ hword)) (hhigh register)
  all_goals rfl

/-- A high byte goes to its slot of the latch and does nothing else. -/
theorem writeRegister_high {offset : Word} {register : WordRegister}
    (h : (offset, register) ∈ wordRegisters) (value : Byte) : m.writeRegister offset value
      = { m with latch := m.latch.setIfInBounds (offset.toNat / 2) value } := by
  unfold writeRegister
  rw [ofOffset_high h]
  rfl

/-- The latch of a word register. -/
def latched (m : Mmu n) (offset : Word) : Byte := m.latch.getD (offset.toNat / 2) 0

/-- An empty latch holds zeros. -/
theorem latched_eq_zero {offset : Word} (h : m.latch = Vector.replicate 32 0) :
    m.latched offset = 0 := by
  unfold latched
  rw [h]
  show (Vector.replicate 32 (0 : Byte)).toArray.getD _ 0 = 0
  rw [Vector.toArray_replicate, Array.getD_eq_getD_getElem?, Array.getElem?_replicate]
  split_ifs <;> rfl

theorem latched_congr {m' : Mmu n} (h : m'.latch = m.latch) (offset : Word) :
    m'.latched offset = m.latched offset := by
  unfold latched
  rw [h]

/-- Each register has a slot of its own. -/
theorem latched_writeRegister_high {offset offset' : Word} {register register' : WordRegister}
    (h : (offset, register) ∈ wordRegisters) (h' : (offset', register') ∈ wordRegisters)
    (value : Byte) : (m.writeRegister offset' value).latched offset
      = if offset' = offset then value else m.latched offset := by
  have hslot := slot_lt h
  unfold latched
  rw [writeRegister_high h']
  dsimp only
  split_ifs with heq
  · rw [heq]
    simp [Vector.getD, hslot]
  · -- each word register has a latch of its own
    have hne : offset'.toNat / 2 ≠ offset.toNat / 2 := fun hs => heq (slot_inj h h' hs)
    simp [Vector.getD, hslot, hne]

/-- **What one request does to a latch.** Only the high byte of the register and a reset change
it. -/
theorem latched_serve {offset : Word} {register : WordRegister}
    (h : (offset, register) ∈ wordRegisters) (m : Mmu n) (r : Request) :
    (m.serve r).latched offset
      = if r.Resets then 0 else (r.byteAt? offset).getD (m.latched offset) := by
  by_cases hreset : r.Resets
  · rw [if_pos hreset]
    refine latched_eq_zero ?_
    rcases hreset with rfl | hcommand
    · rfl
    · rw [serve_of_command hcommand]
      rfl
  · rw [if_neg hreset]
    -- only writes to the register block come near a latch
    have behind {m' : Mmu n} (h : m'.front = m.front) : m'.latched offset = m.latched offset :=
      latched_congr (congrArg Prod.snd h) offset
    cases r with
    | writeRegister o value =>
      dsimp only [serve, Request.byteAt?]
      by_cases hhigh : ∃ register', (o, register') ∈ wordRegisters
      · obtain ⟨register', h'⟩ := hhigh
        rw [latched_writeRegister_high h h']
        split_ifs <;> rfl
      · -- neither this high byte nor another one
        have hne : o ≠ offset := by
          rintro rfl
          exact hhigh ⟨register, h⟩
        rw [if_neg hne]
        rw [not_exists] at hhigh
        exact latched_congr (latch_writeRegister hhigh hreset) offset
    -- the other requests leave the latches alone
    | command code =>
      have hcode : Command.ofCode? code ≠ some .reset := fun hcode => hreset (.inr hcode)
      exact latched_congr (latch_run hcode) offset
    | setCursor position => exact behind (front_settle fun _ => front_of_setCursor)
    | select w handle => exact behind (front_settle fun _ => front_of_select)
    | allocate count template => exact behind (m.front_allocate count template)
    | free position => exact behind (m.front_free position)
    | readWindow w o => exact behind (m.front_readWindow w o)
    | writeWindow w o value => exact behind (m.front_writeWindow w o value)
    | writePayload position o value => exact behind (m.front_writePayload position o value)
    | setArg1 value | setArg2 value => rfl
    | reset => exact absurd (.inl rfl) hreset

/-- **The latches after a run** hold the high bytes that its history says. -/
theorem latched_serveAll {offset : Word} {register : WordRegister}
    (h : (offset, register) ∈ wordRegisters) (nonempty : 0 < n) (rs : List Request) :
    ((initial nonempty).serveAll rs).latched offset = lastHigh offset rs := by
  induction rs using List.reverseRecOn with
  | nil => exact latched_eq_zero rfl
  | append_singleton rs r ih => rw [serveAll_concat, latched_serve h, lastHigh_concat, ih]

end Latch

/-! ### What a word does -/

/-- From `m` to `m'` a word register has been given a word. Its offset is that of the high byte. -/
def Commits (m : Mmu n) (offset word : Word) (register : WordRegister) (m' : Mmu n) : Prop :=
  match register with
  | .arg1 => m' = { m with arg1 := word }
  | .arg2 => m' = { m with arg2 := word }
  | .cursor =>
    (∀ h : word.toNat < n, m' = { m with cursor := ⟨word.toNat, h⟩ }) ∧
      (n ≤ word.toNat → m' = m.fail .index)
  | .window w =>
    (word = 0xFFFF → m' = { m with windows := m.windows.setIfInBounds w none }) ∧
      (word ≠ 0xFFFF →
        (∀ h : Fin n, h.val = word.toNat → m.pool.isHandle h = true →
          m' = { m with windows := m.windows.setIfInBounds w (some h) }) ∧
        ((∀ h : Fin n, h.val = word.toNat → m.pool.isHandle h = false) → m' = m.fail .bank))
  | .freeCount | .allocatedCount | .breakCount | .root | .prev | .next =>
    m' = m.note (.wordIgnored word offset)

/-- The unit takes over a word that is written to a register. -/
def Accepts (m : Mmu n) (word : Word) : WordRegister → Prop
  | .arg1 | .arg2 => True
  | .cursor => word.toNat < n
  | .window _ => word = 0xFFFF ∨ ∃ h : Fin n, h.val = word.toNat ∧ m.pool.isHandle h = true
  | .freeCount | .allocatedCount | .breakCount | .root | .prev | .next => False

/-- A word is written byte by byte, the high byte first. -/
def wordRequests (offset word : Word) : List Request :=
  [.writeRegister offset (highByte word), .writeRegister (offset + 1) (lowByte word)]

section Commits

variable {m : Mmu n} {offset word : Word} {register : WordRegister}

/-- A word names a chain if it is the position of a handle. -/
theorem handle?_eq_some_iff {p : Pool n} {h : Fin n} :
    p.handle? word = some h ↔ h.val = word.toNat ∧ p.isHandle h = true := by
  unfold Pool.handle? Pool.index?
  rw [Option.filter_eq_some_iff]
  refine and_congr_left fun _ => ?_
  split_ifs with hlt
  · rw [Option.some_inj, Fin.ext_iff, eq_comm]
  · refine iff_of_false (by simp) fun hval => hlt ?_
    rw [← hval]
    exact h.isLt

/-- For a window that exists, checked and unchecked setting agree. -/
theorem set_eq_setIfInBounds {w : ℕ} (hw : w < windowCount) (shown : Option (Fin n)) :
    m.windows.set w shown = m.windows.setIfInBounds w shown := by
  ext j hj
  rw [Vector.getElem_set, Vector.getElem_setIfInBounds]

/-- The windows of the register block exist. -/
theorem window_lt {w : ℕ} (h : (offset, .window w) ∈ wordRegisters) : w < windowCount := by
  have hw : w = 0 ∨ w = 1 := by
    simp only [wordRegisters, List.mem_cons, Prod.mk.injEq, WordRegister.window.injEq,
      reduceCtorEq, and_false, List.not_mem_nil, or_false] at h
    exact h.imp And.right And.right
  rcases hw with rfl | rfl <;> decide

/-- Writing a high byte resets nothing. -/
theorem not_resets_high (h : (offset, register) ∈ wordRegisters) (u : Byte) :
    ¬(Request.writeRegister offset u).Resets := by
  rintro (hreset | hreset)
  · cases hreset
  · dsimp only [Request.command?] at hreset
    rw [ofOffset_high h] at hreset
    cases hreset

/-- **What each word register does with a word.** -/
theorem commits_writeWord (h : (offset, register) ∈ wordRegisters) (m : Mmu n) (word : Word) :
    m.Commits offset word register (m.writeWord register offset word) := by
  cases register with
  | window w =>
    have hw := window_lt h
    dsimp only [Commits, writeWord]
    unfold select linkOfWord noPosition
    rw [dif_pos hw]
    simp only [set_eq_setIfInBounds hw]
    refine ⟨fun hword => ?_, fun hword => ⟨fun i hi hhandle => ?_, fun hnone => ?_⟩⟩
    · -- the empty link closes the window
      rw [if_pos hword]
      rfl
    · -- a handle opens it
      rw [if_neg hword]
      dsimp only
      rw [handle?_eq_some_iff.mpr ⟨hi, hhandle⟩]
      rfl
    · -- and any other word is an error
      rw [if_neg hword]
      dsimp only
      cases hi : m.pool.handle? word with
      | none => rfl
      | some i =>
        obtain ⟨hval, hhandle⟩ := handle?_eq_some_iff.mp hi
        exact absurd hhandle (by rw [hnone i hval]; exact Bool.false_ne_true)
  | cursor =>
    dsimp only [Commits, writeWord, setCursor, Pool.index?]
    refine ⟨fun hlt => ?_, fun hle => ?_⟩
    · rw [dif_pos hlt]
      rfl
    · rw [dif_neg (by omega)]
      rfl
  | _ => rfl

/-- A window shows what it has been set to. -/
theorem window?_setIfInBounds {w : ℕ} (hw : w < windowCount) (shown : Option (Fin n)) :
    { m with windows := m.windows.setIfInBounds w shown }.window? w = shown := by
  unfold window?
  dsimp only
  rw [Vector.getElem?_setIfInBounds_self_of_lt hw]
  rfl

/-- **A word that has been taken over can be read back.** -/
theorem Commits.readWord_eq {m' : Mmu n} (h : (offset, register) ∈ wordRegisters)
    (hcommits : m.Commits offset word register m') (haccepts : m.Accepts word register) :
    m'.readWord register = word := by
  cases register with
  -- the registers that take any word
  | arg1 | arg2 =>
    obtain rfl := hcommits
    rfl
  | cursor =>
    obtain rfl := hcommits.1 haccepts
    exact UInt16.ofNat_toNat
  | window w =>
    have hw := window_lt h
    show linkWord (m'.window? w) = word
    -- a closed window reads as the empty link, an open one as its handle
    by_cases hword : word = 0xFFFF
    · obtain rfl := hcommits.1 hword
      rw [window?_setIfInBounds hw, hword]
      rfl
    · obtain ⟨i, hi, hhandle⟩ := haccepts.resolve_left hword
      obtain rfl := (hcommits.2 hword).1 i hi hhandle
      rw [window?_setIfInBounds hw]
      show UInt16.ofNat i.val = word
      rw [hi]
      exact UInt16.ofNat_toNat
  -- the others take none
  | _ => exact absurd haccepts id

/-- A low byte commits the word that it completes. -/
theorem writeRegister_low (h : (offset, register) ∈ wordRegisters) (m : Mmu n) (value : Byte) :
    m.writeRegister (offset + 1) value
      = m.writeWord register offset (wordOf (m.latched offset) value) := by
  have hslot : (offset + 1).toNat / 2 = offset.toNat / 2 := by
    have table : ∀ entry ∈ wordRegisters, (entry.1 + 1).toNat / 2 = entry.1.toNat / 2 := by decide
    exact table _ h
  unfold writeRegister
  rw [ofOffset_low h]
  dsimp only
  rw [if_pos rfl, hslot, UInt16.add_sub_cancel]
  rfl

/-- The even offset reads the high byte of the register's word. -/
theorem readRegister_high (h : (offset, register) ∈ wordRegisters) (m : Mmu n) :
    m.readRegister offset = highByte (m.readWord register) := by
  unfold readRegister
  rw [ofOffset_high h]
  rfl

/-- The odd one reads its low byte. -/
theorem readRegister_low (h : (offset, register) ∈ wordRegisters) (m : Mmu n) :
    m.readRegister (offset + 1) = lowByte (m.readWord register) := by
  unfold readRegister
  rw [ofOffset_low h]
  rfl

end Commits

/-- The unit `m`, which the requests `rs` have made out of a new one, takes over the words that a
guest writes. -/
structure TakesWords (m : Mmu n) (rs : List Request) : Prop where
  /-- A low byte takes effect together with the last high byte. -/
  low {offset : Word} {register : WordRegister} (h : (offset, register) ∈ wordRegisters)
    (v : Byte) :
    m.Commits offset (wordOf (lastHigh offset rs) v) register
      (m.serve (.writeRegister (offset + 1) v))
  /-- A high byte alone cannot be noticed in the register block. -/
  high {offset : Word} {register : WordRegister} (h : (offset, register) ∈ wordRegisters) (v : Byte)
    (o : Word) : (m.serve (.writeRegister offset v)).readRegister o = m.readRegister o
  /-- What is asked between the two bytes of a word does not matter. -/
  interleaved {offset : Word} {register : WordRegister} (h : (offset, register) ∈ wordRegisters)
    (u v : Byte) {between : List Request}
    (hbetween : ∀ r ∈ between, ¬r.Resets ∧ r.byteAt? offset = none) :
    let m' := m.serveAll (.writeRegister offset u :: between)
    m'.Commits offset (wordOf u v) register (m'.serve (.writeRegister (offset + 1) v))
  /-- A word that is formed and accepted can be read. -/
  readBack {offset : Word} {register : WordRegister} (h : (offset, register) ∈ wordRegisters)
    (v : Byte) (haccepts : m.Accepts (wordOf (lastHigh offset rs) v) register) :
    let m' := m.serve (.writeRegister (offset + 1) v)
    m'.readRegister offset = lastHigh offset rs ∧ m'.readRegister (offset + 1) = v
  /-- A word that is written as a whole and accepted can be read. -/
  readBackWord {offset : Word} {register : WordRegister} (h : (offset, register) ∈ wordRegisters)
    {word : Word} (haccepts : m.Accepts word register) :
    let m' := m.serveAll (wordRequests offset word)
    wordOf (m'.readRegister offset) (m'.readRegister (offset + 1)) = word

/-- **Word registers take their words over with the low byte, under any interleaving.** After any
requests to a new unit, the low byte of a word takes effect together with the last high byte of the
same register. -/
theorem takesWords (nonempty : 0 < n) (rs : List Request) :
    ((initial nonempty).serveAll rs).TakesWords rs := by
  -- the word is formed of the latch, and the latch is what the history says
  have hlow : ∀ {offset register}, (offset, register) ∈ wordRegisters → ∀ (v : Byte) (rs),
      ((initial nonempty).serveAll rs).Commits offset (wordOf (lastHigh offset rs) v) register
        (((initial nonempty).serveAll rs).serve (.writeRegister (offset + 1) v)) := by
    intro offset register h v rs
    show Commits _ _ _ _ (writeRegister _ _ _)
    rw [writeRegister_low h, latched_serveAll h]
    exact commits_writeWord h _ _
  have hinterleaved : ∀ {offset register}, (offset, register) ∈ wordRegisters → ∀ (u v : Byte)
      {between : List Request}, (∀ r ∈ between, ¬r.Resets ∧ r.byteAt? offset = none) →
      let m' := ((initial nonempty).serveAll rs).serveAll (.writeRegister offset u :: between)
      m'.Commits offset (wordOf u v) register (m'.serve (.writeRegister (offset + 1) v)) := by
    intro offset register h u v between hbetween
    -- an interleaving is a history like any other
    have hlast := lastHigh_of_write offset rs u hbetween (not_resets_high h u)
    have hcommits := hlow h v (rs ++ .writeRegister offset u :: between)
    rwa [hlast, serveAll_append] at hcommits
  refine ⟨fun h v => hlow h v rs, fun h v o => ?_, hinterleaved, fun h v haccepts => ?_,
    fun {offset register} h word haccepts => ?_⟩
  · show (writeRegister _ _ _).readRegister o = _
    rw [writeRegister_high h]
    rfl
  · -- what the register has taken can be read from it
    have hword := (hlow h v rs).readWord_eq h haccepts
    refine ⟨?_, ?_⟩
    · rw [readRegister_high h, hword, highByte_wordOf]
    · rw [readRegister_low h, hword, lowByte_wordOf]
  · have hcommits := hinterleaved h (highByte word) (lowByte word)
      (fun r (hr : r ∈ []) => absurd hr List.not_mem_nil)
    rw [wordOf_highByte_lowByte] at hcommits
    -- the high byte in the latch changes nothing in what the unit accepts
    have haccepts' : (((initial nonempty).serveAll rs).serveAll
        [.writeRegister offset (highByte word)]).Accepts word register := by
      show (writeRegister _ _ _).Accepts word register
      rw [writeRegister_high h]
      exact haccepts
    have hword := hcommits.readWord_eq h haccepts'
    dsimp only
    rw [readRegister_high h, readRegister_low h]
    refine (congrArg (fun w => wordOf (highByte w) (lowByte w)) hword).trans ?_
    exact wordOf_highByte_lowByte word

/-- A reset takes a high byte of the second argument back. Then other registers, a payload and a
command come between the two bytes of the first one. -/
def interruptedRequests : List Request :=
  [.writeRegister 0x0C 0x34, .writeRegister 0x0E Command.reset.code, .writeRegister 0x0A 0x12,
    .writeRegister 0x00 0x56, .writeRegister 0x10 0x78, .writeRegister 0x0D 0x01,
    .writeRegister 0x0E Command.alloc.code, .writeWindow 0 3 0x9A]

theorem interruptedRequests_takesWords :
    0 < poolNodes ∧
      ((initial poolNodes_pos).serveAll interruptedRequests).TakesWords interruptedRequests ∧
      lastHigh 0x0A interruptedRequests = 0x12 ∧ lastHigh 0x0C interruptedRequests = 0 ∧
      (((initial poolNodes_pos).serveAll interruptedRequests).serve
        (.writeRegister 0x0B 0x56)).arg1 = 0x1256 := by
  have htakes := takesWords poolNodes_pos interruptedRequests
  have hlast : lastHigh 0x0A interruptedRequests = 0x12 := by decide
  refine ⟨poolNodes_pos, htakes, hlast, by decide, ?_⟩
  have hcommits := htakes.low (show (0x0A, .arg1) ∈ wordRegisters by decide) 0x56
  rw [hlast] at hcommits
  exact (congrArg Mmu.arg1 hcommits).trans (by decide)

end Mmu

end Machine6809
