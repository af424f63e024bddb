import SikMimuw.Model.Ctrl
import SikMimuw.Model.Discovery

/-!
# The discovery handshake

The receiver's `LOOKUP` ends with a newline and the sender's does not, so `strcmp` tells them
apart and the receiver's lookup is never answered (`lookup_unanswered`). The rest of the
handshake works: the sender's own text would be answered, and the receiver would accept the
answer (`own_lookup_answered`).
-/

namespace SikMimuw

open CStr Transmitter

variable {params : Parameters} {c : Ctrl}

/-- The receiver's lookup is answered, and the answer is one that `recieve_lookup` accepts. -/
def Answered (params : Parameters) (c : Ctrl) : Prop :=
  ∃ c', c.handle params Receiver.lookup = some (some params.replay, c') ∧
    Receiver.reply <:+: params.replay

/-- Whatever was in the buffer, the string at its start is not the sender's `LOOKUP`. -/
theorem read_lookup (buffer : List UInt8) :
    read (recvfrom buffer Receiver.lookup) ≠ some Transmitter.lookup := by
  intro h
  have hp := prefix_of_read h
  have hlen : 19 ≤ (recvfrom buffer Receiver.lookup).length := hp.length_le
  have hl : Receiver.lookup.length = 19 := rfl
  -- a string of 18 characters and its NUL need 19 bytes
  have hb : 19 ≤ buffer.length := by
    unfold recvfrom at hlen
    rw [List.length_append, List.length_take, List.length_drop, hl] at hlen
    omega
  -- byte 18 is the newline of the datagram, and the NUL of `LOOKUP`
  have hnl : (recvfrom buffer Receiver.lookup)[18]? = some 10 := by
    unfold recvfrom
    rw [List.take_of_length_le (by rw [hl]; exact hb), List.getElem?_append_left (by rw [hl]; omega)]
    rfl
  have hnul : (recvfrom buffer Receiver.lookup)[18]? = some 0 := by
    obtain ⟨t, ht⟩ := hp
    rw [← ht, List.getElem?_append_left (by decide)]
    rfl
  rw [hnl] at hnul
  cases hnul

/-- `ctrl_loop` sends nothing back for the receiver's lookup. -/
theorem not_answered (params : Parameters) (c : Ctrl) : ¬ Answered params c := by
  rintro ⟨c', h, -⟩
  unfold Ctrl.handle at h
  have hne := read_lookup c.ctrlBuffer
  cases hr : read (recvfrom c.ctrlBuffer Receiver.lookup) with
  | none => simp [hr] at h
  | some s =>
    rw [hr, Ne, Option.some.injEq] at hne
    simp only [hr, Option.bind_eq_bind, Option.bind_some, if_neg hne] at h
    split_ifs at h
    · simp [Option.bind_eq_some_iff] at h
    · simp at h

/-- With its own text the sender answers, and the receiver accepts the answer. -/
theorem own_lookup_answered (hc : c.ctrlBuffer = zeroBuffer) :
    c.handle params Transmitter.lookup = some (some params.replay, c) ∧
      Receiver.reply <:+: params.replay := by
  have hr : read (recvfrom c.ctrlBuffer Transmitter.lookup) = some Transmitter.lookup := by
    rw [hc, recvfrom_zeroBuffer (by decide),
      show ctrlBufSize - Transmitter.lookup.length = 65517 + 1 from rfl, List.replicate_succ]
    exact read_append (by decide) _
  refine ⟨?_, List.infix_append' [] _ _⟩
  unfold Ctrl.handle
  simp [hr, ← hc]

/-- **The handshake** fails for every configuration, after every history of datagrams. -/
theorem lookup_unanswered (params : Parameters) (c : Ctrl) (history : List (List UInt8)) :
    ¬ ∃ c', c.handleAll params history = some c' ∧ Answered params c' := by
  rintro ⟨c', -, h⟩
  exact not_answered params c' h

/-- The default data port, before any other datagram. -/
theorem first_lookup_unanswered : ¬ ∀ (params : Parameters) (c : Ctrl) (history : List (List UInt8)),
    c.ctrlBuffer.length = ctrlBufSize → (∀ d ∈ history, d.length < ctrlBufSize) →
      ∃ c', c.handleAll params history = some c' ∧ Answered params c' := by
  intro h
  obtain ⟨c', -, ha⟩ := h ⟨bytes "239.10.11.12", 26851, 512, 131072, bytes "Radio"⟩
    ⟨zeroBuffer, OrdMap.empty⟩ [] List.length_replicate (by simp)
  exact not_answered _ c' ha

end SikMimuw
