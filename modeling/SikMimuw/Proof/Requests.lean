import SikMimuw.Model.Ctrl
import SikMimuw.Model.Discovery

/-!
# The datagrams of `requesting_loop`, and what `ctrl_loop` makes of them

`requesting_loop` sends a datagram for every ten numbers and one for what is left. The last one
is sent also when nothing is left: then its message is `REXMIT` alone, and the `- 1` that
drops the last comma elsewhere drops the space that the sender looks for.

* `requestDatagrams_eq`: the datagrams are the batches of `batches`.
* `understood_iff`: all of them are as the sender expects if and only if the number of
  missing packages is not a multiple of ten.
* `ten_missing`: ten of them.
-/

namespace SikMimuw.Receiver

open CStr

variable {nums fields batch : List UInt64}

/-- The message with the given numbers. -/
def message (fields : List UInt64) : List UInt8 :=
  rexmit ++ fields.flatMap fun num => decimal num.toNat ++ [44]

/-- The numbers of each datagram, from a message on that has `fields` in it. -/
def batches (fields : List UInt64) : List UInt64 → List (List UInt64)
  | [] => [fields]
  | num :: nums =>
    if fields.length = 9 then (fields ++ [num]) :: batches [] nums
    else batches (fields ++ [num]) nums

theorem message_append (fields : List UInt64) (num : UInt64) :
    message (fields ++ [num]) = message fields ++ decimal num.toNat ++ [44] := by
  simp [message]

/-- What is sent from a message on. -/
theorem sent_from (nums : List UInt64) : ∀ fields sent, fields.length < 10 →
    (nums.foldl Requesting.add ⟨message fields, fields.length, sent⟩).sendto.sent =
      sent ++ (batches fields nums).map fun b => (message b).dropLast := by
  induction nums with
  | nil => intro fields sent _; simp [Requesting.sendto, batches]
  | cons num nums ih =>
    intro fields sent hlen
    rw [List.foldl_cons, batches]
    by_cases h9 : fields.length = 9
    -- the tenth number: the message is sent and starts anew
    · have hadd : Requesting.add ⟨message fields, fields.length, sent⟩ num =
          ⟨message [], ([] : List UInt64).length, sent ++ [(message (fields ++ [num])).dropLast]⟩ := by
        unfold Requesting.add Requesting.sendto
        dsimp only
        rw [if_pos (by omega), message_append]
        simp [message]
      rw [hadd, ih [] _ (by simp), if_pos h9]
      simp
    · have hadd : Requesting.add ⟨message fields, fields.length, sent⟩ num =
          ⟨message (fields ++ [num]), (fields ++ [num]).length, sent⟩ := by
        unfold Requesting.add
        dsimp only
        rw [if_neg (by omega), message_append]
        simp
      rw [hadd, ih _ _ (by rw [List.length_append, List.length_singleton]; omega), if_neg h9]

/-- **The datagrams** are the messages of the batches without their last character. -/
theorem requestDatagrams_eq (h : nums ≠ []) :
    requestDatagrams nums = (batches [] nums).map fun b => (message b).dropLast := by
  unfold requestDatagrams
  rw [if_neg h]
  have hs := sent_from nums [] [] (by simp)
  simpa [message] using hs

theorem flatten_batches (nums : List UInt64) : ∀ fields, (batches fields nums).flatten = fields ++ nums := by
  induction nums with
  | nil => intro fields; simp [batches]
  | cons num nums ih =>
    intro fields
    rw [batches]
    split
    · rw [List.flatten_cons, ih]; simp
    · rw [ih]; simp

/-- Only the last batch can be empty, and it is if the numbers come out even. -/
theorem nil_mem_batches (nums : List UInt64) : ∀ fields, fields.length < 10 →
    ([] ∈ batches fields nums ↔ (fields.length + nums.length) % 10 = 0) := by
  induction nums with
  | nil =>
    intro fields hlen
    rw [batches, List.mem_singleton, List.length_nil, eq_comm, ← List.length_eq_zero_iff]
    omega
  | cons num nums ih =>
    intro fields hlen
    rw [batches, List.length_cons]
    by_cases h9 : fields.length = 9
    · rw [if_pos h9, List.mem_cons, ih [] (by simp), List.length_nil]
      simp only [List.nil_eq_append_iff, List.cons_ne_nil, and_false, false_or]
      omega
    · rw [if_neg h9, ih _ (by rw [List.length_append, List.length_singleton]; omega), List.length_append,
        List.length_singleton]
      omega

theorem flatMap_append_intercalate {α β : Type*} (f : α → List β) (c : β) (a : α) (l : List α) :
    (l.flatMap fun x => f x ++ [c]) ++ f a = [c].intercalate ((l ++ [a]).map f) := by
  induction l with
  | nil => simp
  | cons x l ih =>
    obtain ⟨y, l', hl⟩ := List.exists_cons_of_ne_nil (l := (l ++ [a]).map f) (by simp)
    rw [List.flatMap_cons, List.append_assoc, ih, List.cons_append, List.map_cons, hl,
      List.intercalate_cons_cons]

/-- The numbers are written after `REXMIT`, with commas between them. -/
theorem dropLast_message (h : fields ≠ []) : (message fields).dropLast =
    rexmit ++ [44].intercalate (fields.map fun num => decimal num.toNat) := by
  obtain ⟨fs, num, rfl⟩ := List.eq_nil_or_concat fields |>.resolve_left h
  rw [List.concat_eq_append, message_append, List.dropLast_concat, message, List.append_assoc,
    flatMap_append_intercalate (fun num : UInt64 => decimal num.toNat)]

/-- **The sender understands a datagram**: it holds the keyword and one or more of the missing
numbers, and the scan for a space ends inside it. -/
structure Understood (nums : List UInt64) (d : List UInt8) : Prop where
  numbers : ∃ fields ≠ [], fields ⊆ nums ∧
    d = rexmit ++ [44].intercalate (fields.map fun num => decimal num.toNat)
  keyword : Transmitter.rexmit <:+: d
  space : ∃ ptr < d.length, scan 32 (Transmitter.recvfrom Transmitter.zeroBuffer d) = some ptr

/-- A datagram that starts with the receiver's `REXMIT`. -/
theorem scan_rexmit (t : List UInt8) :
    scan 32 (Transmitter.recvfrom Transmitter.zeroBuffer (rexmit ++ t)) = some 13 := by
  -- the keyword and its space fit the buffer, however long the rest is
  have htake : (rexmit ++ t).take Transmitter.ctrlBufSize =
      Transmitter.rexmit ++ 32 :: t.take (Transmitter.ctrlBufSize - 14) := by
    rw [List.take_append, List.take_of_length_le (by decide)]
    exact List.append_assoc Transmitter.rexmit [32] _
  unfold Transmitter.recvfrom Transmitter.zeroBuffer
  rw [List.length_replicate, htake, List.append_assoc, List.cons_append, scan_append (by decide)]
  rfl

/-- Every batch with a number in it is understood. -/
theorem understood_message (hne : fields ≠ []) (hs : fields ⊆ nums) :
    Understood nums (message fields).dropLast := by
  rw [dropLast_message hne]
  refine ⟨⟨fields, hne, hs, rfl⟩, ?_, 13, ?_, scan_rexmit _⟩
  · exact ⟨[], [32] ++ _, by rw [List.nil_append, ← List.append_assoc]; rfl⟩
  · rw [List.length_append]
    exact Nat.lt_of_lt_of_le (by decide) (Nat.le_add_right _ _)

/-- The message without numbers is not: the scan goes past it and leaves the buffer. -/
theorem scan_message_nil :
    scan 32 (Transmitter.recvfrom Transmitter.zeroBuffer (message []).dropLast) = none := by
  have hm : (message []).dropLast = Transmitter.rexmit := rfl
  rw [hm, scan_eq_none, Transmitter.recvfrom_zeroBuffer (by decide), List.mem_append, not_or]
  refine ⟨by decide, fun h => ?_⟩
  exact absurd (List.eq_of_mem_replicate h) (by decide)

/-- **The two programs agree** on the datagrams for a non-empty set exactly if its size is not a
multiple of ten. -/
theorem understood_iff (nums : List UInt64) (h : nums ≠ []) :
    (∀ d ∈ requestDatagrams nums, Understood nums d) ↔ nums.length % 10 ≠ 0 := by
  have hnil := nil_mem_batches nums [] (by simp)
  rw [List.length_nil, Nat.zero_add] at hnil
  rw [requestDatagrams_eq h, Ne, ← hnil, List.forall_mem_map]
  constructor
  -- the last message has no number, and its scan fails
  · intro hall hmem
    obtain ⟨ptr, -, hptr⟩ := (hall [] hmem).space
    rw [scan_message_nil] at hptr
    cases hptr
  · intro hmem batch hb
    refine understood_message (fun he => hmem (he ▸ hb)) fun num hnum => ?_
    have hf := List.mem_flatten_of_mem hb hnum
    rwa [flatten_batches, List.nil_append] at hf

/-- Two missing packages. -/
theorem understood_iff_two : Understood [7, 9] (bytes "LOUDER_PLEASE 7,9") := by
  have hu := (understood_iff [7, 9] (by decide)).2 (by decide)
  exact hu _ (List.mem_singleton_self _)

/-- Ten missing packages. -/
theorem ten_missing : ¬ ∀ nums : List UInt64, nums ≠ [] → nums.Nodup →
    ∀ d ∈ requestDatagrams nums, Understood nums d := by
  intro h
  have hu := (understood_iff [0, 1, 2, 3, 4, 5, 6, 7, 8, 9] (by decide)).1
    (h _ (by decide) (by decide))
  exact hu rfl

end SikMimuw.Receiver
