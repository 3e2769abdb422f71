import Machine6809.Proofs.Bus.Chips
import Machine6809.Proofs.Machine.Actions
import Machine6809.Proofs.Machine.Stacks
import Mathlib.Data.List.Induction
import Mathlib.Data.Nat.Notation

/-!
# Chips as one flat memory

A bus with nothing on it but RAM and ROM is a memory of 64K bytes. At each address it gives the last
byte that was accepted there since the address was given to a chip, or the byte that such a chip is
filled with if there was none, or the open bus if no chip has the address. Who gave the byte decides
whether it is accepted: the processor and the debugger reach RAM only, the loader reaches ROM as
well. Where one chip ends and the next begins does not matter, not even to words and runs of bytes
that go across (`Bus.FlatMemory`).

Requests other than attaching are bytes given one after the other, or none at all (`stores_serve`).
What a request does to an address follows (`answers_serve`), and what a history of them does is the
induction over it (`answers_serveAll`).
-/

namespace Machine6809

namespace Bus

/-! ### Requests -/

/-- What can be asked of a bus of chips. -/
inductive Request where
  | attach (chip : Chip) (name : String) (size : ℕ)
  | read (address : Word)
  | write (address : Word) (value : Byte)
  | loadWord (address : Word)
  | storeWord (address value : Word)
  | load (address : Word) (n : ℕ)
  | store (address : Word) (bytes : List Byte)
  | debugRead (address : Word)
  | debugWrite (address : Word) (value : Byte)
  | loaderWrite (address : Word) (value : Byte)

/-- An action of the processor on the bus as its memory. -/
def through {α : Type} (bus : Bus) (x : Exec Bus α) : α × Bus :=
  ((Machine.ofMemory bus).gives x, ((Machine.ofMemory bus).after x).memory)

/-- Answer a request. -/
def serve (bus : Bus) : Request → Bus
  | .attach chip name size =>
    match chip.new? name size with
    | some device => (bus.attach device).2
    | none => bus
  | .read a => (bus.read a).2
  | .write a v => bus.write a v
  | .loadWord a => (bus.through (Machine.loadWord a)).2
  | .storeWord a w => (bus.through (Machine.storeWord a w)).2
  | .load a n => (bus.through (Machine.loadBytes a n)).2
  | .store a bytes => (bus.through (Machine.storeBytes a bytes)).2
  | .debugRead a => (bus.debugRead a).2
  | .debugWrite a v => (bus.debugWrite a v).2
  | .loaderWrite a v => (bus.loaderWrite a v).2

/-- Answer requests one after the other. -/
def serveAll (bus : Bus) (requests : List Request) : Bus := requests.foldl serve bus

theorem serveAll_append (bus : Bus) (before after : List Request) :
    bus.serveAll (before ++ after) = (bus.serveAll before).serveAll after :=
  List.foldl_append

/-- Bytes at ascending addresses, which go around at the end of memory. -/
def runOf (a : Word) : List Byte → List (Word × Byte)
  | [] => []
  | v :: bytes => (a, v) :: runOf (a + 1) bytes

namespace Request

/-- The bytes that a request gives to the bus, the first one first. -/
def stores : Request → List (Word × Byte)
  | .write a v | .debugWrite a v | .loaderWrite a v => [(a, v)]
  | .storeWord a w => [(a, highByte w), (a + 1, lowByte w)]
  | .store a bytes => runOf a bytes
  | .attach .. | .read _ | .loadWord _ | .load .. | .debugRead _ => []

/-- The devices that take bytes from a request. -/
def taker : Request → DeviceKind → Bool
  | .loaderWrite .. => fun _ => true
  | _ => takesBytes

/-- The bytes that a chip accepts from a request, as far as they are meant for it. -/
def accepted (chip : Chip) (r : Request) : List (Word × Byte) :=
  if r.taker chip.kind then r.stores else []

end Request

/-- After the requests `before`, attaching a chip succeeds and gives it the address. -/
def Given (before : List Request) (a : Word) (chip : Chip) (name : String) (size : ℕ) : Prop :=
  ∃ device base, chip.new? name size = some device ∧
    ((empty.serveAll before).attach device).1 = .ok base ∧
    base.toNat ≤ a.toNat ∧ a.toNat < base.toNat + size

/-- Among the requests `rs` is one that gave the address to a chip, and `since` is what has been
asked after it. -/
def Covered (rs : List Request) (a : Word) (chip : Chip) (since : List Request) : Prop :=
  ∃ before name size, rs = before ++ .attach chip name size :: since ∧
    Given before a chip name size

/-- The last byte that a chip has accepted for an address, or the one it is filled with. -/
def remembered (chip : Chip) (a : Word) (since : List Request) : Byte :=
  (lastValue? (byteFor? a) (since.flatMap (Request.accepted chip))).getD chip.blank

section Serving

variable {bus bus' : Bus} {a b : Word} {chip chip' : Chip} {v w : Byte} {r : Request}
  {device : Device} {base : Word} {name : String} {size : ℕ}

/-! ### Attaching -/

/-- The bus got a device of some size behind those it had. -/
structure Grown (device : Device) (size : ℕ) (bus bus' : Bus) : Prop where
  pos : 0 < size
  room : bus.nextFree + size ≤ addressSpace
  places_eq : bus'.places = bus.places.push ⟨bus.nextFree, device⟩
  nextFree_eq : bus'.nextFree = bus.nextFree + size

/-- A new chip has the size that was asked for. -/
theorem size_of_new? (h : chip.new? name size = some device) : device.size = size := by
  rw [Chip.eq_of_new? h, Chip.size_holding, Array.size_replicate]

/-- A chip that is attached next covers the addresses from the first free one upward. -/
theorem covers_behind (h : chip.new? name size = some device) :
    (⟨bus.nextFree, device⟩ : Place).covers a = true ↔
      bus.nextFree ≤ a.toNat ∧ a.toNat < bus.nextFree + size := by
  unfold Place.covers
  rw [size_of_new? h, Bool.and_eq_true, decide_eq_true_eq, decide_eq_true_eq]

/-- A chip is attached if there is room for it, and else nothing happens. -/
theorem attach_chip (bus : Bus) (h : chip.new? name size = some device) :
    ((bus.attach device).1 = .ok (UInt16.ofNat bus.nextFree) ∧
      Grown device size bus (bus.attach device).2) ∨
    ((∃ e, (bus.attach device).1 = .error e) ∧ (bus.attach device).2 = bus) := by
  -- chips do not report that they are attached
  have hattach : bus.attach device =
      if device.size = 0 then
        (.error (.zeroSizeDevice device.name (bus.nextFree % addressSpace)), bus)
      else if addressSpace < bus.nextFree + device.size then
        (.error (.spaceExhausted device.name bus.nextFree device.size), bus)
      else (.ok (UInt16.ofNat bus.nextFree),
        { bus.note (.attached device.name bus.nextFree (bus.nextFree + device.size - 1)) with
          places := bus.places.push ⟨bus.nextFree, device⟩,
          nextFree := bus.nextFree + device.size }) := by
    rw [Chip.eq_of_new? h]
    cases chip <;> rfl
  rw [hattach, size_of_new? h]
  split_ifs with hzero hroom
  · exact .inr ⟨⟨_, rfl⟩, rfl⟩
  · exact .inr ⟨⟨_, rfl⟩, rfl⟩
  · exact .inl ⟨rfl, Nat.pos_of_ne_zero hzero, Nat.not_lt.mp hroom, rfl, rfl⟩

/-- The first address of the new device. -/
theorem Grown.toNat_nextFree (hg : Grown device size bus bus') :
    (UInt16.ofNat bus.nextFree).toNat = bus.nextFree := by
  have hlt : bus.nextFree < addressSpace := by
    have := hg.pos
    have := hg.room
    omega
  exact UInt16.toNat_ofNat_of_lt hlt

/-- With one chip more it is a bus of chips still. -/
theorem Grown.ofChips (hg : Grown device size bus bus') (hnew : chip.new? name size = some device)
    (h : bus.OfChips) : bus'.OfChips := by
  refine ⟨fun place hplace => ?_, fun a => ?_⟩
  · rw [hg.places_eq, Array.mem_push] at hplace
    obtain hold | rfl := hplace
    · exact h.chip place hold
    · exact ⟨chip, name, _, Chip.eq_of_new? hnew⟩
  · rw [find?_push_eq_none_iff hg.places_eq, h.find?_eq_none_iff, hg.nextFree_eq,
      ← Bool.not_eq_true, covers_behind hnew]
    omega

/-- What an address shows does not change when another device is attached. -/
theorem Grown.answers (hg : Grown device size bus bus') (ha : bus.Answers a chip v) :
    bus'.Answers a chip v := by
  obtain ⟨i, name, contents, hfind, hdevice, hget⟩ := ha
  have hi : i.val < bus'.places.size := by
    rw [hg.places_eq, Array.size_push]
    omega
  obtain ⟨hfind', hplace⟩ := find?_push hg.places_eq hi hfind
  refine ⟨⟨i, hi⟩, name, contents, hfind', ?_, ?_⟩
  · -- the device found is the one that was found before, with the bytes it had
    rw [hplace]
    exact hdevice
  · rw [hplace]
    exact hget

/-- The addresses of a new chip show what it is filled with. -/
theorem Grown.answers_blank (hg : Grown device size bus bus')
    (hnew : chip.new? name size = some device) (h : bus.OfChips) (hle : bus.nextFree ≤ a.toNat)
    (hlt : a.toNat < bus.nextFree + size) : bus'.Answers a chip chip.blank := by
  have hi : bus.places.size < bus'.places.size := by
    rw [hg.places_eq, Array.size_push]
    omega
  have hcovers := (covers_behind hnew).mpr ⟨hle, hlt⟩
  obtain ⟨hfind, hplace⟩ :=
    find?_push_of_none hg.places_eq hi ((h.find?_eq_none_iff a).mpr hle) hcovers
  refine ⟨_, name, Array.replicate size chip.blank, hfind, ?_, ?_⟩
  · rw [hplace]
    exact Chip.eq_of_new? hnew
  · -- the address is within the chip, which has been filled
    rw [hplace, Array.getElem?_replicate, if_pos]
    exact size_of_new? hnew ▸ Place.offset_lt hcovers

/-! ### The processor's own requests -/

section Machine

variable {m : Machine Bus}

/-- What a load leaves. -/
theorem sameDevices_load (h : m.memory.OfChips) (a : Word) :
    SameDevices m.memory (m.after (Machine.load a)).memory := by
  have hread := SameDevices.of_eq (h.read_eq a).1
  exact ⟨hread.places_eq, hread.nextFree_eq⟩

/-- A store by the processor gives one byte to the bus. -/
theorem puts_store (h : m.memory.OfChips) (a : Word) (v : Byte) :
    Puts takesBytes a v m.memory (m.after (Machine.store a v)).memory := by
  obtain ⟨hnext, hmissed, htaken, hrefused⟩ := h.puts_write a v
  exact ⟨hnext, hmissed, htaken, hrefused⟩

/-- A word is given as two bytes, the high one first. -/
theorem stores_storeWord (h : m.memory.OfChips) (a w : Word) :
    Stores takesBytes [(a, highByte w), (a + 1, lowByte w)] m.memory
      (m.after (Machine.storeWord a w)).memory := by
  have hhigh := puts_store h a (highByte w)
  have hlow := puts_store (hhigh.ofChips h) (a + 1) (lowByte w)
  exact .put hhigh (.put hlow (.done ⟨rfl, rfl⟩))

/-- A run is given byte by byte. -/
theorem stores_storeBytes (h : m.memory.OfChips) (a : Word) (bytes : List Byte) :
    Stores takesBytes (runOf a bytes) m.memory
      (m.after (Machine.storeBytes a bytes)).memory := by
  induction bytes generalizing m a with
  | nil => exact .done ⟨rfl, rfl⟩
  | cons v bytes ih =>
    have hfirst := puts_store h a v
    exact .put hfirst (ih (hfirst.ofChips h) (a + 1))

/-- A word is read as its two bytes. -/
theorem gives_loadWord (h : m.memory.OfChips) (a : Word) :
    m.gives (Machine.loadWord a) = wordOf (m.memory.read a).1 (m.memory.read (a + 1)).1 := by
  show wordOf _ ((m.after (Machine.load a)).memory.read (a + 1)).1 = _
  rw [h.read_congr (sameDevices_load h a)]
  rfl

theorem sameDevices_loadBytes (h : m.memory.OfChips) (a : Word) (n : ℕ) :
    SameDevices m.memory (m.after (Machine.loadBytes a n)).memory := by
  induction n generalizing m a with
  | zero => exact ⟨rfl, rfl⟩
  | succ n ih =>
    have hfirst := sameDevices_load h a
    exact hfirst.trans (ih (h.congr hfirst) (a + 1))

/-- A run is read byte by byte, around the end of memory if need be. -/
theorem gives_loadBytes (h : m.memory.OfChips) (a : Word) (n : ℕ) :
    m.gives (Machine.loadBytes a n) =
      (List.range n).map fun k => (m.memory.read (a + UInt16.ofNat k)).1 := by
  induction n generalizing m a with
  | zero => rfl
  | succ n ih =>
    have hfirst := sameDevices_load h a
    -- the rest is read after the first load, which has left all bytes as they were
    show (m.memory.read a).1 :: (m.after (Machine.load a)).gives (Machine.loadBytes (a + 1) n) = _
    rw [ih (h.congr hfirst), List.range_succ_eq_map, List.map_cons, List.map_map]
    congr 1
    · rw [show a + UInt16.ofNat 0 = a by simp]
    · refine List.map_congr_left fun k _ => ?_
      show _ = (m.memory.read (a + UInt16.ofNat (k + 1))).1
      rw [h.read_congr hfirst, add_ofNat_succ]

end Machine

/-! ### Histories of requests -/

/-- A request that attaches nothing gives the bus the bytes it is made of. -/
theorem stores_serve (h : bus.OfChips) (hr : ∀ chip name size, r ≠ .attach chip name size) :
    Stores r.taker r.stores bus (bus.serve r) := by
  -- by the request: reads change nothing, and the others give one byte after the other
  cases r with
  | attach chip name size => exact absurd rfl (hr chip name size)
  | read a => exact .done (.of_eq (h.read_eq a).1)
  | write a v => exact .put (h.puts_write a v) (.done ⟨rfl, rfl⟩)
  | loadWord a =>
    have hfirst := sameDevices_load (m := .ofMemory bus) h a
    exact .done (hfirst.trans (sameDevices_load (h.congr hfirst) (a + 1)))
  | storeWord a w => exact stores_storeWord (m := .ofMemory bus) h a w
  | load a n => exact .done (sameDevices_loadBytes (m := .ofMemory bus) h a n)
  | store a bytes => exact stores_storeBytes (m := .ofMemory bus) h a bytes
  | debugRead a =>
    obtain ⟨hread, hdebug⟩ := h.read_eq a
    exact .done (.of_eq ((congrArg Prod.snd hdebug).trans hread))
  | debugWrite a v => exact .put (h.puts_debugWrite a v).1 (.done ⟨rfl, rfl⟩)
  | loaderWrite a v => exact .put (h.puts_loaderWrite a v).1 (.done ⟨rfl, rfl⟩)

/-- A request for a chip that can be made attaches it. -/
theorem serve_attach_of_new? (bus : Bus) (h : chip.new? name size = some device) :
    bus.serve (.attach chip name size) = (bus.attach device).2 := by
  simp only [serve, h]

/-- A request to attach a chip attaches it, or changes nothing. -/
theorem serve_attach (bus : Bus) (chip : Chip) (name : String) (size : ℕ) :
    (∃ device, chip.new? name size = some device ∧
      (bus.attach device).1 = .ok (UInt16.ofNat bus.nextFree) ∧
      Grown device size bus (bus.serve (.attach chip name size))) ∨
    bus.serve (.attach chip name size) = bus := by
  cases hnew : chip.new? name size with
  | none => exact .inr (by simp only [serve, hnew])
  | some device =>
    rw [serve_attach_of_new? bus hnew]
    obtain ⟨hok, hg⟩ | ⟨-, hsame⟩ := attach_chip bus hnew
    · exact .inl ⟨device, rfl, hok, hg⟩
    · exact .inr hsame

theorem OfChips.serve (h : bus.OfChips) (r : Request) : (bus.serve r).OfChips := by
  cases r with
  | attach chip name size =>
    obtain ⟨device, hnew, -, hg⟩ | hsame := serve_attach bus chip name size
    · exact hg.ofChips hnew h
    · rwa [hsame]
  | _ => exact (stores_serve h (by simp)).ofChips h

/-- **One request.** An address shows the last byte that its chip accepted from the request, or what
it has shown before. -/
theorem answers_serve (h : bus.OfChips) (ha : bus.Answers a chip v) (r : Request) :
    (bus.serve r).Answers a chip ((lastValue? (byteFor? a) (r.accepted chip)).getD v) := by
  cases r with
  | attach chip' name size =>
    -- no byte is given, and the new device is behind the address
    have hnone : Request.accepted chip (.attach chip' name size) = [] := ite_self _
    rw [hnone, lastValue?_nil, Option.getD_none]
    obtain ⟨device, -, -, hg⟩ | hsame := serve_attach bus chip' name size
    · exact hg.answers ha
    · rwa [hsame]
  | _ => exact (stores_serve h (by simp)).answers ha

/-- Any number of them does. -/
theorem ofChips_serveAll (h : bus.OfChips) (rs : List Request) : (bus.serveAll rs).OfChips := by
  induction rs generalizing bus with
  | nil => exact h
  | cons r rs ih => exact ih (h.serve r)

/-- The last byte that was accepted is the one shown, or the one from before. -/
theorem answers_serveAll (h : bus.OfChips) (ha : bus.Answers a chip v) (rs : List Request) :
    (bus.serveAll rs).Answers a chip
      ((lastValue? (byteFor? a) (rs.flatMap (Request.accepted chip))).getD v) := by
  induction rs generalizing bus v with
  | nil => exact ha
  | cons r rs ih =>
    rw [List.flatMap_cons, lastValue?_append, Option.getD_or]
    exact ih (h.serve r) (answers_serve h ha r)

/-- The device that an attempt to attach a chip has put on the bus. -/
theorem grown_of_ok (hnew : chip.new? name size = some device)
    (hok : (bus.attach device).1 = .ok base) :
    base.toNat = bus.nextFree ∧ Grown device size bus (bus.attach device).2 := by
  obtain ⟨hbase, hg⟩ | ⟨⟨e, hfailed⟩, -⟩ := attach_chip bus hnew
  · obtain rfl := Except.ok.inj (hbase.symm.trans hok)
    exact ⟨hg.toNat_nextFree, hg⟩
  · exact absurd (hfailed.symm.trans hok) (by simp)

section Covered

variable {rs since since' : List Request}

/-- An address that was given to a chip shows the last byte that the chip has accepted since. -/
theorem Covered.answers (h : Covered rs a chip since) :
    (empty.serveAll rs).Answers a chip (remembered chip a since) := by
  obtain ⟨before, name, size, rfl, device, base, hnew, hok, hle, hlt⟩ := h
  have hbefore := ofChips_serveAll ofChips_empty before
  obtain ⟨hbase, hg⟩ := grown_of_ok hnew hok
  rw [hbase] at hle hlt
  rw [serveAll_append]
  -- the address shows a blank when it is given to the chip, and from there the history goes on
  show (((empty.serveAll before).serve _).serveAll since).Answers a chip _
  rw [serve_attach_of_new? _ hnew]
  exact answers_serveAll (hg.ofChips hnew hbefore) (hg.answers_blank hnew hbefore hle hlt) since

/-- What was given to a chip is below the first free address. -/
theorem Covered.lt_nextFree (h : Covered rs a chip since) :
    a.toNat < (empty.serveAll rs).nextFree :=
  h.answers.lt_nextFree (ofChips_serveAll ofChips_empty rs)

/-- What was given to a chip stays its own when another request is served. -/
theorem Covered.concat (h : Covered rs a chip since) (r : Request) :
    Covered (rs ++ [r]) a chip (since ++ [r]) := by
  obtain ⟨before, name, size, rfl, hgiven⟩ := h
  exact ⟨before, name, size, by simp, hgiven⟩

/-- Every address below the first free one was given to a chip. -/
theorem exists_covered (ha : a.toNat < (empty.serveAll rs).nextFree) :
    ∃ chip since, Covered rs a chip since := by
  -- over the requests, the last one at the end
  induction rs using List.reverseRecOn with
  | nil => exact absurd ha (Nat.not_lt_zero _)
  | append_singleton rs r ih =>
    by_cases hbefore : a.toNat < (empty.serveAll rs).nextFree
    · obtain ⟨chip, since, h⟩ := ih hbefore
      exact ⟨chip, since ++ [r], h.concat r⟩
    · -- the address was given to a chip by the last request
      rw [serveAll_append] at ha
      change a.toNat < ((empty.serveAll rs).serve r).nextFree at ha
      cases r with
      | attach chip name size =>
        obtain ⟨device, hnew, hok, hg⟩ | hsame := serve_attach (empty.serveAll rs) chip name size
        · rw [hg.nextFree_eq] at ha
          refine ⟨chip, [], rs, name, size, rfl, device, _, hnew, hok, ?_, ?_⟩
          · rw [hg.toNat_nextFree]
            exact Nat.not_lt.mp hbefore
          · rwa [hg.toNat_nextFree]
        · rw [hsame] at ha
          exact absurd ha hbefore
      | _ =>
        -- other requests use up no addresses
        have hchips := ofChips_serveAll ofChips_empty rs
        rw [(stores_serve hchips (by simp)).nextFree_eq] at ha
        exact absurd ha hbefore

/-- An address that was given away is below the first one that is free. -/
theorem Covered.not_given (h : Covered rs a chip since) : ¬Given rs a chip' name size := by
  rintro ⟨device, base, hnew, hok, hle, -⟩
  rw [(grown_of_ok hnew hok).1] at hle
  exact absurd h.lt_nextFree (Nat.not_lt.mpr hle)

/-- An address is given to a chip only once. -/
theorem Covered.unique (h : Covered rs a chip since) (h' : Covered rs a chip' since') :
    chip = chip' ∧ since = since' := by
  obtain ⟨before, name, size, rfl, hgiven⟩ := h
  obtain ⟨before', name', size', hrs, hgiven'⟩ := h'
  -- one of the two requests would have come before the other
  obtain ⟨between, rfl, hsince⟩ | ⟨between, rfl, hsince⟩ := List.append_eq_append_iff.mp hrs
  · cases between with
    | nil =>
      -- they are the same request
      obtain ⟨hattach, rfl⟩ := List.cons.inj hsince
      exact ⟨(Request.attach.inj hattach).1, rfl⟩
    | cons r later =>
      obtain ⟨rfl, -⟩ := List.cons.inj hsince
      -- the address had been given away by then
      have first : Covered _ a chip later := ⟨before, name, size, rfl, hgiven⟩
      exact absurd hgiven' first.not_given
  · cases between with
    | nil =>
      obtain ⟨hattach, rfl⟩ := List.cons.inj hsince
      exact ⟨(Request.attach.inj hattach).1.symm, rfl⟩
    | cons r later =>
      obtain ⟨rfl, -⟩ := List.cons.inj hsince
      have first : Covered _ a chip' later := ⟨before', name', size', rfl, hgiven'⟩
      exact absurd hgiven first.not_given

end Covered

/-! ### What a request changes -/

/-- A request changes what is read at the addresses it stores to and nowhere else. -/
theorem OfChips.read_serve_of_not_stored (h : bus.OfChips)
    (hr : ∀ chip name size, r ≠ .attach chip name size) (ha : ∀ store ∈ r.stores, store.1 ≠ a) :
    ((bus.serve r).read a).1 = (bus.read a).1 := by
  have hstores := stores_serve h hr
  by_cases hlt : a.toNat < bus.nextFree
  · -- a chip answers there, and none of the bytes accepted were for this address
    obtain ⟨chip, v, hv⟩ := h.exists_answers hlt
    have hnone : lastValue? (byteFor? a) (r.accepted chip) = none := by
      rw [lastValue?_eq_none_iff]
      intro store hstore
      refine if_neg (ha store ?_)
      unfold Request.accepted at hstore
      split_ifs at hstore
      · exact hstore
      · exact absurd hstore List.not_mem_nil
    have hserved := answers_serve h hv r
    rw [hnone] at hserved
    rw [hserved.read, hv.read]
    rfl
  · -- nothing is there, before and after
    have hle := Nat.not_lt.mp hlt
    rw [h.read_of_le hle, (h.serve r).read_of_le (hstores.nextFree_eq ▸ hle)]

/-- Attaching a chip does not change what the others show. -/
theorem OfChips.read_serve_attach (h : bus.OfChips) (ha : a.toNat < bus.nextFree)
    (chip : Chip) (name : String) (size : ℕ) :
    ((bus.serve (.attach chip name size)).read a).1 = (bus.read a).1 := by
  obtain ⟨device, -, -, hg⟩ | hsame := serve_attach bus chip name size
  · obtain ⟨chip, v, hv⟩ := h.exists_answers ha
    rw [hv.read, (hg.answers hv).read]
  · rw [hsame]

end Serving

/-! ### The flat memory -/

/-- After the requests `rs` the bus is a flat memory. -/
structure FlatMemory (rs : List Request) (bus : Bus) : Prop where
  /-- The addresses below the first free one are those that were given to a chip. -/
  covered_iff : ∀ a, (∃ chip since, Covered rs a chip since) ↔ a.toNat < bus.nextFree
  /-- No address was given to two chips. -/
  covered_unique : ∀ a chip chip' since since', Covered rs a chip since →
    Covered rs a chip' since' → chip = chip' ∧ since = since'
  /-- The processor and the debugger read the last byte accepted, and reading changes nothing. -/
  shown : ∀ a chip since, Covered rs a chip since →
    bus.read a = (remembered chip a since, bus) ∧ bus.debugRead a = (remembered chip a since, bus)
  /-- Where no chip is, they read the open bus. -/
  shown_above : ∀ a, bus.nextFree ≤ a.toNat →
    bus.read a = (openBus, bus) ∧ bus.debugRead a = (openBus, bus)
  /-- A word is read as its two bytes. -/
  loadWord : ∀ a, (bus.through (Machine.loadWord a)).1
    = wordOf (bus.read a).1 (bus.read (a + 1)).1
  /-- A run is read byte by byte. -/
  load : ∀ a n, (bus.through (Machine.loadBytes a n)).1
    = (List.range n).map fun k => (bus.read (a + UInt16.ofNat k)).1
  /-- A byte is seen where it was accepted, and one that is refused leaves no trace. -/
  stored : ∀ r a v chip since, r.stores = [(a, v)] → Covered rs a chip since →
    ((bus.serve r).read a).1 = if r.taker chip.kind then v else (bus.read a).1
  /-- The debugger is told whether RAM has taken the byte. -/
  debugWrite_iff : ∀ a v, (bus.debugWrite a v).1 = true ↔ ∃ since, Covered rs a .ram since
  /-- The loader is told whether there is a chip. -/
  loaderWrite_iff : ∀ a v, (bus.loaderWrite a v).1 = true ↔ a.toNat < bus.nextFree
  /-- No other address changes. -/
  elsewhere : ∀ r a, (∀ chip name size, r ≠ .attach chip name size) →
    (∀ store ∈ r.stores, store.1 ≠ a) → ((bus.serve r).read a).1 = (bus.read a).1
  /-- Nor do those that have a chip when another one is attached. -/
  attached : ∀ a chip name size, a.toNat < bus.nextFree →
    ((bus.serve (.attach chip name size)).read a).1 = (bus.read a).1

/-- **Chips as one memory.** Whatever has been asked of a bus of chips, it is a flat memory. -/
theorem chips_refine_flat_memory (rs : List Request) : FlatMemory rs (empty.serveAll rs) := by
  have h := ofChips_serveAll ofChips_empty rs
  -- where the bus comes from matters only for what its addresses show
  generalize hbus : empty.serveAll rs = bus at h
  -- for each address given to a chip, the chip and the byte that it remembers
  have answers : ∀ {a chip since}, Covered rs a chip since →
      bus.Answers a chip (remembered chip a since) := fun hc => hbus ▸ hc.answers
  have covered_iff : ∀ a, (∃ chip since, Covered rs a chip since) ↔ a.toNat < bus.nextFree := by
    intro a
    exact ⟨fun ⟨_, _, hc⟩ => (answers hc).lt_nextFree h, fun ha => exists_covered (hbus ▸ ha)⟩
  constructor
  case covered_iff => exact covered_iff
  case covered_unique =>
    intro a chip chip' since since'
    exact Covered.unique
  case shown =>
    intro a chip since hc
    exact ⟨(answers hc).read, (answers hc).debugRead⟩
  case shown_above =>
    intro a ha
    exact ⟨h.read_of_le ha, h.debugRead_of_le ha⟩
  case loadWord =>
    intro a
    exact gives_loadWord (m := .ofMemory bus) h a
  case load =>
    intro a n
    exact gives_loadBytes (m := .ofMemory bus) h a n
  case stored =>
    intro r a v chip since hr hc
    -- the chip takes the byte or refuses it
    have hserved := (answers_serve h (answers hc) r).read
    rw [hserved, (answers hc).read]
    unfold Request.accepted
    rw [hr]
    split_ifs with htaken
    · simp [lastValue?, byteFor?]
    · rfl
  case debugWrite_iff =>
    intro a v
    -- the kind of the device decides, and it is that of the chip the address was given to
    rw [(h.puts_debugWrite a v).2]
    constructor
    · rintro ⟨i, hi, hkind⟩
      obtain ⟨chip, since, hc⟩ := (covered_iff a).mpr (h.lt_nextFree hi)
      rw [(answers hc).kind_eq hi] at hkind
      cases chip with
      | ram => exact ⟨since, hc⟩
      | rom => exact absurd hkind (by decide)
    · rintro ⟨since, hc⟩
      obtain ⟨i, -, -, hi, -⟩ := answers hc
      refine ⟨i, hi, ?_⟩
      rw [(answers hc).kind_eq hi]
      rfl
  case loaderWrite_iff =>
    intro a v
    exact (h.puts_loaderWrite a v).2
  case elsewhere =>
    intro r a hr ha
    exact h.read_serve_of_not_stored hr ha
  case attached =>
    intro a chip name size ha
    exact h.read_serve_attach ha chip name size

/-- RAM with ROM behind it, a word stored across the border, a byte loaded into the ROM, and a chip
that is refused because it has no bytes. -/
def borderRequests : List Request :=
  [.attach .ram "low" 2, .attach .rom "high" 2, .storeWord 1 0xABCD, .loaderWrite 3 0x77,
    .attach .ram "nothing" 0]

/-- A word across the border of two chips: RAM takes its byte, and ROM does not. -/
theorem chips_refine_flat_memory_border :
    Covered borderRequests 1 .ram (borderRequests.drop 1) ∧
      Covered borderRequests 2 .rom (borderRequests.drop 2) ∧
      Covered borderRequests 3 .rom (borderRequests.drop 2) ∧
      ((empty.serveAll borderRequests).read 1).1 = 0xAB ∧
      ((empty.serveAll borderRequests).debugRead 2).1 = 0xFF ∧
      ((empty.serveAll borderRequests).read 3).1 = 0x77 ∧
      ((empty.serveAll borderRequests).read 4).1 = openBus := by
  have h := chips_refine_flat_memory borderRequests
  -- the first chip has addresses 0 and 1
  have low : Covered borderRequests 1 .ram (borderRequests.drop 1) :=
    ⟨[], "low", 2, rfl, _, 0, rfl, rfl, by decide, by decide⟩
  have high : ∀ a : Word, 2 ≤ a.toNat → a.toNat < 4 →
      Covered borderRequests a .rom (borderRequests.drop 2) := by
    intro a hle hlt
    exact ⟨borderRequests.take 1, "high", 2, rfl, _, 2, rfl, rfl, hle, hlt⟩
  have above := h.shown_above 4 (by decide +kernel)
  exact ⟨low, high 2 (by decide) (by decide), high 3 (by decide) (by decide),
    congrArg Prod.fst (h.shown 1 _ _ low).1,
    congrArg Prod.fst (h.shown 2 _ _ (high 2 (by decide) (by decide))).2,
    congrArg Prod.fst (h.shown 3 _ _ (high 3 (by decide) (by decide))).1,
    congrArg Prod.fst above.1⟩

end Bus

end Machine6809
