import SikMimuw.Model.Wire

/-!
# The order of sessions

`session_id` is `htonl` of the start time, so on a little-endian host its bytes are those of the
time in reverse, and the seconds of the clock are the high byte of the id. Of two senders the
newer one has the greater id only if its time has the greater byte at the first place,
from the low end, where the two times differ (`session_order_iff`). About every four minutes
the low byte starts again from 0 and a restarted sender is ignored (`restart_ignored`).
-/

namespace SikMimuw

open Endian Word

variable {t₁ t₂ : ℕ}

/-- The first byte that differs, from the low end, is greater in `t₂`. -/
def LowByteGrows (t₁ t₂ : ℕ) : Prop :=
  ∃ k < 4, t₁ % 256 ^ k = t₂ % 256 ^ k ∧ t₁ / 256 ^ k % 256 < t₂ / 256 ^ k % 256

instance (t₁ t₂ : ℕ) : Decidable (LowByteGrows t₁ t₂) :=
  inferInstanceAs (Decidable (∃ k < 4, _))

/-- `data_loop` does not ignore a datagram: it ends for a newer session, or the datagram is of the
session that it plays from then on. -/
def Receiver.Follows (s : State) (d : Datagram) : Prop :=
  ∀ W leave, ∃ s', stepData W s leave (some d) = some s' ∧
    (s'.data matches .lockReset ∨ s'.session = d.session)

/-- **The newer session wins**: its datagrams carry the greater id, and a receiver of the older
session follows them. -/
def SessionOrder (e : Endian) (t₁ t₂ : ℕ) : Prop :=
  ∀ num₁ num₂ data₁ data₂ d₁ d₂,
    Receiver.decode e (Transmitter.sendMcast e (Transmitter.sessionId e (UInt64.ofNat t₁)) num₁ data₁)
      = some d₁ →
    Receiver.decode e (Transmitter.sendMcast e (Transmitter.sessionId e (UInt64.ofNat t₂)) num₂ data₂)
      = some d₂ →
    d₁.session < d₂.session ∧
      ∀ s : Receiver.State, s.data matches .recv → s.session = d₁.session → Receiver.Follows s d₂

theorem toNat_sessionId {t : ℕ} (ht : t < 2 ^ 32) :
    (Transmitter.sessionId little (UInt64.ofNat t)).toNat = reverseBytes 4 t := by
  have hn : (UInt64.ofNat t).toUInt32.toNat = t := by
    rw [UInt64.toNat_toUInt32, UInt64.toNat_ofNat']
    omega
  unfold Transmitter.sessionId
  rw [UInt32.toNat_toUInt64, toNat_htonl_little, hn]

/-- A greater id is followed. -/
theorem Receiver.follows_of_lt {s : State} {d : Datagram} (hs : s.data matches .recv)
    (h : s.session < d.session) : Follows s d := by
  intro W leave
  have hpc : s.data = .recv := by cases hd : s.data <;> simp_all
  unfold stepData
  rw [hpc]
  dsimp only
  by_cases h0 : s.session = 0
  · rw [if_pos h0]
    exact ⟨_, rfl, Or.inr rfl⟩
  · rw [if_neg h0, if_neg (not_lt.2 h.le), if_pos h]
    exact ⟨_, rfl, Or.inl rfl⟩

/-- **The exact condition** for two start times, on a little-endian host. -/
theorem session_order_iff (t₁ t₂ : ℕ) (h : t₁ < t₂) (h₂ : t₂ < 2 ^ 32) :
    SessionOrder little t₁ t₂ ↔ LowByteGrows t₁ t₂ := by
  have hlt : Transmitter.sessionId little (UInt64.ofNat t₁) <
      Transmitter.sessionId little (UInt64.ofNat t₂) ↔ LowByteGrows t₁ t₂ := by
    rw [UInt64.lt_iff_toNat_lt, toNat_sessionId (h.trans h₂), toNat_sessionId h₂,
      reverseBytes_lt_iff]
    rfl
  rw [← hlt]
  unfold SessionOrder
  simp only [Receiver.decode_sendMcast, Option.some.injEq]
  constructor
  · intro ho
    exact (ho 0 0 [] [] _ _ rfl rfl).1
  -- `data_loop` compares the ids that it decoded, which are those that were sent
  · rintro hid num₁ num₂ data₁ data₂ _ _ rfl rfl
    exact ⟨hid, fun s hs he => Receiver.follows_of_lt hs (by rw [he]; exact hid)⟩

/-- One second later, within a period of the low byte. -/
theorem session_order_next_second : SessionOrder little 1528000200 1528000201 :=
  (session_order_iff 1528000200 1528000201 (by decide) (by decide)).2 (by decide)

/-- One second later, at its end. -/
theorem restart_ignored : ¬ ∀ t₁ t₂ : ℕ, t₁ < t₂ → t₂ < 2 ^ 32 → SessionOrder little t₁ t₂ := by
  intro h
  have ho := (h 1528000255 1528000256 (by decide) (by decide) 0 0 [] [] _ _
    (Receiver.decode_sendMcast ..) (Receiver.decode_sendMcast ..)).1
  exact absurd ho (by decide)

end SikMimuw
