import SikMimuw.Model.Output
import SikMimuw.Proof.Connection

/-!
# What the second server sends

`write` of a byte is the only store, and it empties a buffer that it fills, so there is always room
for the next byte. `output_ok`: after any calls the stream is what was written, and nothing of a
vector or a string is left in the buffer.
-/

namespace SikMimuw.Ver2

open Zad1

variable {c : ConnectionBuffer} {size : UInt32} {sent : List UInt8}

/-- **The invariant**: that of `zad1`, with room for a byte. -/
structure Roomy (size : UInt32) (sent : List UInt8) (c : ConnectionBuffer) : Prop
    extends Zad1.Ok size sent c where
  pointer_lt : c.bufferPointer < size

/-- A vector or a string was written last. -/
def Call.Whole : Call → Prop
  | .writeBytes _ => True
  | .writeString _ => True
  | _ => False

theorem init_roomy (hsize : 1 ≤ size) (memory : ℕ → UInt8) :
    Roomy size [] (Zad1.ConnectionBuffer.init size memory) where
  toOk := init_ok size memory
  pointer_lt := hsize

theorem Roomy.flush (h : Roomy size sent c) : Roomy size sent c.flush where
  toOk := h.toOk.flush
  pointer_lt := by
    have hlt := h.pointer_lt
    rw [UInt32.lt_iff_toNat_lt] at hlt ⊢
    exact Nat.zero_lt_of_lt hlt

theorem pending_flush (c : ConnectionBuffer) : c.flush.pending = [] := rfl

/-- **A byte** is stored where there is room, and a buffer that is full is sent. -/
theorem Roomy.writeByte (h : Roomy size sent c) (byte : UInt8) :
    Roomy size (sent ++ [byte]) (ConnectionBuffer.writeByte c byte) := by
  have hne : c.bufferPointer ≠ c.bufferSize := by
    rw [h.size_eq]
    exact UInt32.ne_of_lt h.pointer_lt
  have hok := h.toOk.sendByte hne byte
  refine ⟨hok, ?_⟩
  have hle := hok.pointer_le
  unfold Zad1.ConnectionBuffer.sendByte at hle
  unfold ConnectionBuffer.writeByte Zad1.ConnectionBuffer.sendByte
  dsimp only at hle ⊢
  by_cases hfull : c.bufferPointer + 1 = c.bufferSize
  · rw [if_pos (by exact hfull)]
    exact h.flush.pointer_lt
  · rw [if_neg (by exact hfull)] at hle ⊢
    rw [UInt32.lt_iff_toNat_lt]
    apply Nat.lt_of_le_of_ne hle
    intro he
    exact hfull ((UInt32.toNat_inj.1 he).trans h.size_eq.symm)

/-- **Bytes in a row.** -/
theorem Roomy.writeAll (bytes : List UInt8) (h : Roomy size sent c) :
    Roomy size (sent ++ bytes) (bytes.foldl ConnectionBuffer.writeByte c) := by
  induction bytes generalizing sent c with
  | nil =>
    rw [List.append_nil]
    exact h
  | cons byte bytes ih =>
    rw [List.foldl_cons, ← List.singleton_append, ← List.append_assoc]
    exact ih (h.writeByte byte)

/-- **A call.** -/
theorem Roomy.call (h : Roomy size sent c) (e : Call) :
    Roomy size (sent ++ e.bytes) (ConnectionBuffer.call c e) := by
  cases e with
  | writeByte byte => exact h.writeByte byte
  | writeBytes bytes => exact (h.writeAll bytes).flush
  | writeString str =>
    have hs := (h.writeAll (str.map Int8.toUInt8)).flush
    rw [List.foldl_map] at hs
    exact hs
  | flush =>
    rw [Call.bytes, List.append_nil]
    exact h.flush

/-- Nothing of a vector or a string stays in the buffer. -/
theorem pending_whole {e : Call} (he : e.Whole) : (ConnectionBuffer.call c e).pending = [] := by
  cases e with
  | writeBytes bytes => exact pending_flush _
  | writeString str => exact pending_flush _
  | writeByte byte => cases he
  | flush => cases he

/-- **Calls in a row.** -/
theorem Roomy.calls (h : Roomy size sent c) (es : List Call) :
    Roomy size (sent ++ es.flatMap Call.bytes) (ConnectionBuffer.calls c es) := by
  unfold ConnectionBuffer.calls
  induction es generalizing sent c with
  | nil =>
    rw [List.flatMap_nil, List.append_nil]
    exact h
  | cons e es ih =>
    rw [List.foldl_cons, List.flatMap_cons, ← List.append_assoc]
    exact ih (h.call e)

/-- **The stream over any calls**: the stores are inside the buffer, there is room for a byte, the
bytes sent and pending are the bytes written, and after a vector or a string nothing is pending. -/
theorem output_ok (size : UInt32) (memory : ℕ → UInt8) (es : List Call) (hsize : 1 ≤ size) :
    Preserved size (es.flatMap Call.bytes)
        (ConnectionBuffer.calls (Zad1.ConnectionBuffer.init size memory) es) ∧
      (ConnectionBuffer.calls (Zad1.ConnectionBuffer.init size memory) es).bufferPointer < size ∧
      ∀ e ∈ es.getLast?, e.Whole →
        (ConnectionBuffer.calls (Zad1.ConnectionBuffer.init size memory) es).pending = [] := by
  have h := (init_roomy hsize memory).calls es
  rw [List.nil_append] at h
  refine ⟨h.toPreserved, h.pointer_lt, fun e he hw => ?_⟩
  obtain ⟨es, rfl⟩ := List.getLast?_eq_some_iff.1 he
  unfold ConnectionBuffer.calls
  rw [List.foldl_append]
  exact pending_whole hw

/-- A buffer of three bytes: a byte, a vector that fills the buffer twice, and a string. -/
theorem output_ok_three : (ConnectionBuffer.calls (Zad1.ConnectionBuffer.init 3 fun _ => 0)
    [.writeByte 1, .writeBytes [2, 3, 4, 5, 6, 7], .writeString [-1, 65]]).written =
      [1, 2, 3, 4, 5, 6, 7, 255, 65] := by
  have h := output_ok 3 (fun _ => 0) [.writeByte 1, .writeBytes [2, 3, 4, 5, 6, 7],
    .writeString [-1, 65]] (by decide)
  have hstream := h.1.stream
  rw [h.2.2 _ rfl trivial, List.append_nil] at hstream
  exact hstream

end SikMimuw.Ver2
