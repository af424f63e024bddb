import SikMimuw.Lib.Run
import SikMimuw.Model.Connection

/-!
# What a connection sends

`send` of a vector takes `where` before `flush` empties the buffer. If the buffer was not empty, the
second pass stores a full buffer behind the bytes of the first, beyond the array. And the last part
of a vector may fill the buffer up to the last byte without a `flush`: then `send` of a byte stores
behind the array.

* `Preserved`: the stores are inside the buffer and what was written and is pending is what was sent.
* `Chop.Ok`: the invariant of the loop. `Chop.Ok.pass` keeps it.
* `stream_ok`: runs of calls that fit keep the stream, and any other call breaks it.
-/

namespace SikMimuw.Zad1

open Lts

variable {c c' : ConnectionBuffer} {size : UInt32} {sent bytes : List UInt8} {l : Chop} {n : ℕ}

/-- **The stream is preserved.** -/
structure Preserved (size : UInt32) (sent : List UInt8) (c : ConnectionBuffer) : Prop where
  stores : ∀ i ∈ c.stores, i < size.toNat
  stream : c.written ++ c.pending = sent

/-- The call finds the room that it takes for granted: for a byte there is a place, and a vector
that comes to a second pass finds the buffer empty. -/
def Fits (c : ConnectionBuffer) : Call → Prop
  | .sendByte _ => c.bufferPointer ≠ c.bufferSize
  | .sendBytes bytes => c.bufferPointer = 0 ∨ bytes.length ≤ c.room + c.bufferSize.toNat
  | .flush => True

/-- **The invariant.** -/
structure Ok (size : UInt32) (sent : List UInt8) (c : ConnectionBuffer) : Prop
    extends Preserved size sent c where
  size_eq : c.bufferSize = size
  pointer_le : c.bufferPointer.toNat ≤ size.toNat

theorem init_ok (size : UInt32) (memory : ℕ → UInt8) : Ok size [] (ConnectionBuffer.init size memory) :=
  ⟨⟨fun _ h => (nomatch h), rfl⟩, rfl, Nat.zero_le _⟩

theorem Ok.flush (h : Ok size sent c) : Ok size sent c.flush where
  stores := h.stores
  stream := by
    show (c.written ++ c.pending) ++ [] = sent
    rw [List.append_nil, h.stream]
  size_eq := h.size_eq
  pointer_le := Nat.zero_le _

/-- The room that is left. -/
theorem Ok.room_add (h : Ok size sent c) : c.bufferPointer.toNat + c.room = size.toNat := by
  have hle := h.pointer_le
  unfold ConnectionBuffer.room
  rw [h.size_eq, UInt32.toNat_sub_of_le _ _ hle]
  omega

/-- **A store at `buffer_pointer`** of what there is room for. -/
theorem Ok.store {p : UInt32} {b : List UInt8} (h : Ok size sent c)
    (hp : p.toNat = c.bufferPointer.toNat + b.length) (hle : p.toNat ≤ size.toNat) :
    Ok size (sent ++ b) { c.store c.bufferPointer.toNat b with bufferPointer := p } where
  stores i hi := by
    rcases List.mem_append.1 hi with hi | hi
    · exact h.stores i hi
    · have := List.mem_range'_1.1 hi
      omega
  stream := by
    show c.written ++ Memory.slice (Memory.copy c.buffer c.bufferPointer.toNat b) p.toNat = _
    rw [hp, Memory.slice_copy, ← List.append_assoc]
    exact congrArg (· ++ b) h.stream
  size_eq := h.size_eq
  pointer_le := hle

theorem Ok.sendByte (h : Ok size sent c) (hf : c.bufferPointer ≠ c.bufferSize) (byte : UInt8) :
    Ok size (sent ++ [byte]) (c.sendByte byte) := by
  have hlt : c.bufferPointer.toNat < size.toNat := by
    apply Nat.lt_of_le_of_ne h.pointer_le
    intro he
    exact hf (by rw [h.size_eq, UInt32.toNat_inj.1 he])
  have hsize := size.toNat_lt
  have hp : (c.bufferPointer + 1).toNat = c.bufferPointer.toNat + 1 := by
    rw [UInt32.toNat_add, UInt32.toNat_one]
    omega
  have hs := h.store (b := [byte]) hp (by omega)
  unfold ConnectionBuffer.sendByte
  dsimp only
  by_cases hfull : c.bufferPointer + 1 = c.bufferSize
  · rw [if_pos (by exact hfull)]
    exact hs.flush
  · rw [if_neg (by exact hfull)]
    exact hs

/-! ### The loop of `send` -/

/-- **The invariant of the loop**: `where` is the place of `buffer_pointer`, and another pass leaves it
there, or there is no other pass. -/
structure Chop.Ok (size : UInt32) (sent : List UInt8) (l : Chop) : Prop where
  sent_eq : ∃ s, Zad1.Ok size s l.conn ∧ s ++ l.rest = sent
  howMany_eq : l.howMany = l.rest.length
  next : l.place = l.conn.bufferPointer.toNat ∧
      (l.conn.bufferPointer = 0 ∨ l.rest.length ≤ l.conn.room + size.toNat) ∨
    l.rest.length ≤ l.conn.room

theorem Chop.Ok.pass (h : l.Ok size sent) (hc : l.howMany > l.conn.room) : l.pass.Ok size sent := by
  obtain ⟨s, hs, hsent⟩ := h.sent_eq
  rw [h.howMany_eq] at hc
  obtain ⟨hplace, hnext⟩ := h.next.resolve_right (by omega)
  obtain rfl := hs.size_eq
  have hroom := hs.room_add
  have hlen : (l.rest.take l.conn.room).length = l.conn.room := by
    rw [List.length_take]
    omega
  have hfull := hs.store (b := l.rest.take l.conn.room) (p := l.conn.bufferSize)
    (by omega) (Nat.le_refl _)
  rw [← hplace] at hfull
  have hroom' : l.pass.conn.room = l.conn.bufferSize.toNat := ConnectionBuffer.room_eq rfl
  refine ⟨⟨s ++ l.rest.take l.conn.room, hfull.flush, ?_⟩, ?_, ?_⟩
  · show (s ++ l.rest.take l.conn.room) ++ l.rest.drop l.conn.room = sent
    rw [List.append_assoc, List.take_append_drop, hsent]
  · show l.howMany - l.conn.room = (l.rest.drop l.conn.room).length
    rw [List.length_drop, h.howMany_eq]
  · rcases hnext with h0 | hle
    · refine Or.inl ⟨?_, Or.inl rfl⟩
      show l.conn.bufferPointer.toNat = 0
      rw [h0]
      rfl
    · refine Or.inr ?_
      rw [hroom']
      show (l.rest.drop l.conn.room).length ≤ _
      rw [List.length_drop]
      omega

/-- **The rule of the loop**: what each pass keeps holds behind it. -/
theorem Chop.loop_inv {P : Chop → Prop} (hpass : ∀ l, P l → l.howMany > l.conn.room → P l.pass) :
    ∀ {n : ℕ} {l l' : Chop}, P l → l.loop n = some l' → P l' ∧ l'.howMany ≤ l'.conn.room := by
  intro n
  induction n with
  | zero => intro l l' _ hl; cases hl
  | succ n ih =>
    intro l l' h hl
    rw [Chop.loop] at hl
    by_cases hc : l.howMany > l.conn.room
    · rw [if_pos hc] at hl
      exact ih (hpass l h hc) hl
    · rw [if_neg hc] at hl
      obtain rfl := Option.some.inj hl
      exact ⟨h, Nat.le_of_not_lt hc⟩

/-- **The loop** leaves a part that fits. -/
theorem Chop.Ok.loop {n : ℕ} {l l' : Chop} (h : l.Ok size sent) (hl : l.loop n = some l') :
    l'.Ok size sent ∧ l'.rest.length ≤ l'.conn.room := by
  obtain ⟨h', hle⟩ := Chop.loop_inv (fun _ hok hc => Chop.Ok.pass hok hc) h hl
  rw [h'.howMany_eq] at hle
  exact ⟨h', hle⟩

/-- **The last part**. -/
theorem Chop.Ok.finish (h : l.Ok size sent) (hle : l.rest.length ≤ l.conn.room) :
    Zad1.Ok size sent l.finish := by
  obtain ⟨s, hs, hsent⟩ := h.sent_eq
  have hroom := hs.room_add
  have hsize := size.toNat_lt
  have hp : (l.conn.bufferPointer + UInt32.ofNat l.rest.length).toNat =
      l.conn.bufferPointer.toNat + l.rest.length := by
    rw [UInt32.toNat_add, UInt32.toNat_ofNat']
    omega
  rw [← hsent]
  exact hs.store hp (by omega)

theorem Ok.sendBytes (h : Ok size sent c) (hf : Fits c (.sendBytes bytes))
    (hc : c.sendBytes bytes = some c') : Ok size (sent ++ bytes) c' := by
  obtain ⟨l, hl, rfl⟩ := Option.map_eq_some_iff.1 hc
  have h0 : Chop.Ok size (sent ++ bytes) ⟨c, c.bufferPointer.toNat, bytes.length, bytes⟩ := by
    refine ⟨⟨sent, h, rfl⟩, rfl, Or.inl ⟨rfl, ?_⟩⟩
    rw [← h.size_eq]
    exact hf
  have hok := h0.loop hl
  exact hok.1.finish hok.2

/-- **A call that fits**. -/
theorem Ok.call {e : Call} (h : Ok size sent c) (hf : Fits c e) (hc : c.call e = some c') :
    Ok size (sent ++ e.bytes) c' := by
  cases e with
  | sendByte byte =>
    obtain rfl := Option.some.inj hc
    exact h.sendByte hf byte
  | sendBytes bytes => exact h.sendBytes hf hc
  | flush =>
    obtain rfl := Option.some.inj hc
    rw [show sent ++ Call.bytes .flush = sent from List.append_nil sent]
    exact h.flush

/-! ### Calls that do not fit -/

theorem Chop.mem_pass {i : ℕ} (h : i ∈ l.conn.stores) : i ∈ l.pass.conn.stores :=
  List.mem_append_left _ h

/-- What was stored stays recorded. -/
theorem Chop.mem_loop {i n : ℕ} {l l' : Chop} (h : i ∈ l.conn.stores) (hl : l.loop n = some l') :
    i ∈ l'.finish.stores := by
  have hkept := Chop.loop_inv (P := fun l => i ∈ l.conn.stores) (fun _ hi _ => Chop.mem_pass hi) h hl
  exact List.mem_append_left _ hkept.1

/-- **A full buffer** takes a byte behind its end. -/
theorem sendByte_breaks (hf : c.bufferPointer = c.bufferSize) (byte : UInt8) :
    c.bufferSize.toNat ∈ (c.sendByte byte).stores := by
  have hm : c.bufferSize.toNat ∈ (c.store c.bufferPointer.toNat [byte]).stores := by
    rw [hf]
    exact List.mem_append_right _ (List.mem_range'_1.2 ⟨Nat.le_refl _, Nat.lt_succ_self _⟩)
  unfold ConnectionBuffer.sendByte
  dsimp only
  split
  · exact hm
  · exact hm

/-- **The second pass** goes on where the first began. -/
theorem sendBytes_breaks (hsize : 0 < c.bufferSize.toNat) (hp : c.bufferPointer ≠ 0)
    (hlong : c.room + c.bufferSize.toNat < bytes.length) (hc : c.sendBytes bytes = some c') :
    c.bufferPointer.toNat + c.bufferSize.toNat - 1 ∈ c'.stores := by
  obtain ⟨l', hl, rfl⟩ := Option.map_eq_some_iff.1 hc
  generalize hl0 : (⟨c, c.bufferPointer.toNat, bytes.length, bytes⟩ : Chop) = l at hl
  have h1 : l.howMany > l.conn.room := by
    subst hl0
    show c.room < bytes.length
    omega
  have hroom : l.pass.conn.room = c.bufferSize.toNat := by
    rw [ConnectionBuffer.room_eq rfl]
    subst hl0
    rfl
  have h2 : l.pass.howMany > l.pass.conn.room := by
    rw [hroom]
    subst hl0
    show c.bufferSize.toNat < bytes.length - c.room
    omega
  rw [Chop.loop, if_pos h1, Chop.loop, if_pos h2] at hl
  apply Chop.mem_loop _ hl
  -- the second pass stores a full buffer from the old `buffer_pointer` on
  apply List.mem_append_right
  rw [List.mem_range'_1, hroom]
  subst hl0
  show c.bufferPointer.toNat ≤ _ ∧ _ < c.bufferPointer.toNat +
    ((bytes.drop c.room).take c.bufferSize.toNat).length
  rw [List.length_take, List.length_drop, Nat.min_eq_left (by omega)]
  have hpos : 0 < c.bufferPointer.toNat := by
    apply Nat.pos_of_ne_zero
    intro h0
    exact hp (UInt32.toNat_inj.1 h0)
  omega

theorem Ok.returns (hsize : 0 < size.toNat) (h : Ok size sent c) (e : Call) :
    ∃ c', c.call e = some c' := by
  cases e with
  | sendByte byte => exact ⟨_, rfl⟩
  | sendBytes bytes => exact ConnectionBuffer.sendBytes_returns (by rw [h.size_eq]; exact hsize) bytes
  | flush => exact ⟨_, rfl⟩

/-- **A call keeps the stream** exactly if it fits. -/
theorem Ok.call_iff (hsize : 0 < size.toNat) (h : Ok size sent c) (e : Call) :
    (∃ c', c.call e = some c' ∧ Preserved size (sent ++ e.bytes) c') ↔ Fits c e := by
  constructor
  · rintro ⟨c', hc, hok⟩
    cases e with
    | sendByte byte =>
      intro hp
      obtain rfl := Option.some.inj hc
      have := hok.stores _ (sendByte_breaks hp byte)
      rw [h.size_eq] at this
      exact absurd this (Nat.lt_irrefl _)
    | sendBytes bytes =>
      by_contra hn
      simp only [Fits, not_or, Nat.not_le] at hn
      have := hok.stores _ (sendBytes_breaks (by rw [h.size_eq]; exact hsize) hn.1 hn.2 hc)
      rw [h.size_eq] at this
      have hp : c.bufferPointer.toNat ≠ 0 := fun h0 => hn.1 (UInt32.toNat_inj.1 h0)
      omega
    | flush => trivial
  · intro hf
    obtain ⟨c', hc⟩ := h.returns hsize e
    exact ⟨c', hc, (h.call hf hc).toPreserved⟩

/-- **The stream over a run.** In every run of calls that fit, the stores are inside the buffer and
the bytes written and pending are the bytes sent, and the next call returns and keeps that exactly
if it fits. -/
theorem stream_ok {size : UInt32} {memory : ℕ → UInt8} {es : List Call} {c : ConnectionBuffer}
    (hsize : 1 ≤ size)
    (h : Run (Guarded (Fires ConnectionBuffer.call) Fits) (ConnectionBuffer.init size memory) es c) :
    Preserved size (es.flatMap Call.bytes) c ∧
      ∀ e, (∃ c', c.call e = some c' ∧ Preserved size ((es ++ [e]).flatMap Call.bytes) c') ↔
        Fits c e := by
  have hok : Ok size (es.flatMap Call.bytes) c := by
    induction h with
    | nil => exact init_ok size memory
    | @snoc es s e t _ hst ih =>
      rw [List.flatMap_append, List.flatMap_singleton]
      exact ih.call hst.2 hst.1
  refine ⟨hok.toPreserved, fun e => ?_⟩
  rw [List.flatMap_append, List.flatMap_singleton]
  exact hok.call_iff hsize e

instance instDecidableFits (c : ConnectionBuffer) : ∀ e, Decidable (Fits c e)
  | .sendByte _ => inferInstanceAs (Decidable (_ ≠ _))
  | .sendBytes _ => inferInstanceAs (Decidable (_ ∨ _))
  | .flush => .isTrue trivial

/-- A buffer of three bytes: a vector in two passes, a byte, a vector that fills the buffer and
another one. -/
theorem stream_ok_three : ∃ c, c.written = [1, 2, 3, 4, 5, 6] ∧ c.pending = [7] ∧
    Preserved 3 [1, 2, 3, 4, 5, 6, 7] c := by
  have h : ∃ c, exec (guarded ConnectionBuffer.call Fits) (ConnectionBuffer.init 3 fun _ => 0)
      [.sendBytes [1, 2, 3, 4], .sendByte 5, .sendBytes [6], .sendBytes [7]] = some c ∧
      c.written = [1, 2, 3, 4, 5, 6] ∧ c.pending = [7] := ⟨_, rfl, rfl, rfl⟩
  obtain ⟨c, hc, hw, hp⟩ := h
  exact ⟨c, hw, hp, (stream_ok (by decide) (exec_guarded hc)).1⟩

/-- A buffer of two bytes: after one byte, a vector of four overruns it. -/
theorem stream_overrun : ¬ ∀ (size : UInt32) (memory : ℕ → UInt8) (es : List Call)
    (c : ConnectionBuffer), 1 ≤ size →
    Run (Fires ConnectionBuffer.call) (ConnectionBuffer.init size memory) es c →
    Preserved size (es.flatMap Call.bytes) c := by
  intro hall
  have h : ∃ c, exec ConnectionBuffer.call (ConnectionBuffer.init 2 fun _ => 0)
      [.sendByte 1, .sendBytes [2, 3, 4, 5]] = some c ∧ c.written ++ c.pending = [1, 2, 1, 3, 5] :=
    ⟨_, rfl, rfl⟩
  obtain ⟨c, hc, hs⟩ := h
  have hok := (hall 2 _ _ c (by decide) (exec_run hc)).stream
  rw [hs] at hok
  exact absurd hok (by decide)

end SikMimuw.Zad1
