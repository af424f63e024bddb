import SikMimuw.Model.Datagram
import SikMimuw.Proof.Requests

/-!
# What one program writes and the other reads

Audio datagrams are built by the sender on one host and taken apart by the receiver on another:
`roundTrip`, for hosts of any two byte orders. Requests go the other way, as texts of at most ten
numerals: `requests_codec`.
-/

namespace SikMimuw

open CStr Endian

/-! ### Audio datagrams -/

/-- A datagram is the same bytes whatever host builds it: both numbers are in big-endian order. -/
theorem Transmitter.sendMcast_eq (e : Endian) (sessionId byteNum : UInt64) (audioData : List UInt8) :
    sendMcast e sessionId byteNum audioData =
      big.store 8 sessionId.toNat ++ big.store 8 byteNum.toNat ++ audioData := by
  rw [sendMcast, store_htonll, store_htonll]

/-- **A datagram read on any host**, in whatever was in the buffer: the session, the number of the
first byte, and the payload up to the received length. -/
theorem roundTrip (e e' : Endian) (sessionId byteNum : UInt64) (audioData buffor : List UInt8)
    (hlen : audioData.length < 2 ^ 63) :
    let datagram := Transmitter.sendMcast e sessionId byteNum audioData
    let received := Receiver.recv buffor datagram
    datagram.take 16 = big.store 8 sessionId.toNat ++ big.store 8 byteNum.toNat ∧
    Receiver.sessionIdOf e' received = sessionId ∧
    Receiver.firstByteNumOf e' received = byteNum ∧
    Receiver.payload received (UInt64.ofNat datagram.length - 2 * 8) = audioData := by
  intro datagram received
  have hlens : datagram.length = 16 + audioData.length := by
    simp [datagram, Transmitter.sendMcast]
    omega
  have h16 : 16 ≤ datagram.length := by omega
  -- the receiver's host could have built it
  have hhost : datagram = Transmitter.sendMcast e' sessionId byteNum audioData := by
    unfold datagram
    rw [Transmitter.sendMcast_eq, Transmitter.sendMcast_eq]
  have hdec : Receiver.decode e' datagram = some ⟨Receiver.sessionIdOf e' received,
      Receiver.firstByteNumOf e' received, datagram.drop 16⟩ := Receiver.decode_recv e' h16
  rw [hhost, Receiver.decode_sendMcast, ← hhost, Option.some.injEq] at hdec
  refine ⟨?_, ?_, ?_, ?_⟩
  · unfold datagram
    rw [Transmitter.sendMcast_eq]
    apply List.take_left'
    rw [List.length_append, length_store, length_store]
  · exact (congrArg Receiver.Datagram.session hdec).symm
  · exact (congrArg Receiver.Datagram.num hdec).symm
  · rw [Receiver.payload_recv h16 (by omega)]
    exact (congrArg Receiver.Datagram.data hdec).symm

/-- Four bytes of audio, between hosts of different byte orders. -/
theorem roundTrip_four :
    Receiver.firstByteNumOf little (Receiver.recv [] (Transmitter.sendMcast big 7 4 [1, 2, 3, 4])) = 4 :=
  (roundTrip big little 7 4 [1, 2, 3, 4] [] (by decide)).2.2.1

/-! ### Requests -/

namespace Receiver

variable {nums fields : List UInt64} {num : UInt64} {R : OrdSet UInt64}

/-- The text after the first space of a datagram. -/
def afterSpace (d : List UInt8) : List UInt8 := (d.dropWhile (· ≠ 32)).tail

/-- The fields of a datagram: what stands between commas after the first space, if there is one. -/
def fieldsOf (d : List UInt8) : List (List UInt8) := if 32 ∈ d then (afterSpace d).splitOn 44 else []

/-- A datagram carries a number if the decimal numeral of it is one of the fields. -/
def Carries (d : List UInt8) (num : UInt64) : Prop := decimal num.toNat ∈ fieldsOf d

instance (d : List UInt8) (num : UInt64) : Decidable (Carries d num) :=
  inferInstanceAs (Decidable (decimal num.toNat ∈ fieldsOf d))

theorem decimal_injective : Function.Injective fun num : UInt64 => decimal num.toNat := by
  intro a b h
  have hv := congrArg value h
  dsimp only at hv
  rw [value_decimal, value_decimal] at hv
  exact UInt64.toNat_inj.1 hv

theorem comma_notMem_decimal (n : ℕ) : (44 : UInt8) ∉ decimal n := by
  intro h
  exact absurd (isdigit_of_mem_decimal h) (by decide)

/-- The numerals with commas between them are split into the same numerals. -/
theorem splitOn_numerals (h : fields ≠ []) :
    ([44].intercalate (fields.map fun num => decimal num.toNat)).splitOn 44 =
      fields.map fun num => decimal num.toNat := by
  apply List.splitOn_intercalate
  · rw [List.forall_mem_map]
    intro num _
    exact comma_notMem_decimal _
  · simpa using h

theorem afterSpace_message (h : fields ≠ []) : afterSpace (message fields).dropLast =
    [44].intercalate (fields.map fun num => decimal num.toNat) := by
  rw [dropLast_message h]
  unfold afterSpace
  have hr : rexmit = Transmitter.rexmit ++ [32] := rfl
  rw [hr, List.append_assoc, List.singleton_append, dropWhile_append_cons _ (by simp), List.tail_cons]
  exact List.all_eq_true.1 (by decide : Transmitter.rexmit.all fun c => decide (c ≠ 32))

/-- **The fields of a datagram** are the numerals of its batch. -/
theorem fieldsOf_message (fields : List UInt64) :
    fieldsOf (message fields).dropLast = fields.map fun num => decimal num.toNat := by
  by_cases h : fields = []
  · subst h
    rfl
  · have hs : 32 ∈ (message fields).dropLast := by
      rw [dropLast_message h]
      exact List.mem_append_left _ (by decide)
    unfold fieldsOf
    rw [if_pos hs, afterSpace_message h, splitOn_numerals h]

theorem carries_message : Carries (message fields).dropLast num ↔ num ∈ fields := by
  unfold Carries
  rw [fieldsOf_message]
  exact List.mem_map_of_injective decimal_injective

theorem length_of_mem_batches (nums : List UInt64) : ∀ fields, fields.length < 10 →
    ∀ b ∈ batches fields nums, b.length ≤ 10 := by
  induction nums with
  | nil =>
    intro fields hlen b hb
    rw [batches, List.mem_singleton] at hb
    subst hb
    omega
  | cons num nums ih =>
    intro fields hlen b hb
    have hnext : (fields ++ [num]).length = fields.length + 1 := by simp
    rw [batches] at hb
    split at hb
    · rcases List.mem_cons.1 hb with rfl | hb
      · omega
      · exact ih [] (by simp) b hb
    · exact ih _ (by omega) b hb

/-- An element of lists that have no element twice, not even in two of them, is in one of them. -/
theorem countP_mem_of_nodup {α : Type*} [DecidableEq α] {a : α} {bs : List (List α)}
    (hnd : bs.flatten.Nodup) (ha : a ∈ bs.flatten) : bs.countP (a ∈ ·) = 1 := by
  induction bs with
  | nil => simp at ha
  | cons b bs ih =>
    rw [List.flatten_cons, List.nodup_append'] at hnd
    rw [List.flatten_cons, List.mem_append] at ha
    by_cases hb : a ∈ b
    · have hnot : ∀ c ∈ bs, ¬ a ∈ c := by
        intro c hc hac
        exact hnd.2.2 hb (List.mem_flatten_of_mem hc hac)
      have h0 : bs.countP (a ∈ ·) = 0 := by
        rw [List.countP_eq_zero]
        simpa using hnot
      rw [List.countP_cons, h0]
      simp [hb]
    · rw [List.countP_cons, ih hnd.2.1 (ha.resolve_left hb)]
      simp [hb]

theorem strtol_decimal {n : ℕ} (h : n < 2 ^ 63) : strtol (decimal n) = n := by
  have hn := number_append (t := []) (decimal_ne_nil n) (fun c hc => isdigit_of_mem_decimal hc) (by simp)
  rw [List.append_nil, value_decimal] at hn
  unfold strtol
  rw [hn]
  dsimp only
  omega

/-- **The sender's set** after one datagram: the numbers of its batch are added. -/
theorem mem_addToSet_message (hne : fields ≠ []) (hlt : ∀ num ∈ fields, num.toNat < 2 ^ 63) :
    num ∈ (Transmitter.addToSet R (afterSpace (message fields).dropLast)).keys ↔
      num ∈ R.keys ∨ num ∈ fields := by
  have htok : strtok 44 (afterSpace (message fields).dropLast) =
      fields.map fun num => decimal num.toNat := by
    unfold strtok
    rw [afterSpace_message hne, splitOn_numerals hne, List.filter_eq_self, List.forall_mem_map]
    intro num _
    simpa using decimal_ne_nil _
  unfold Transmitter.addToSet
  rw [htok, List.foldl_map]
  clear htok hne
  induction fields generalizing R with
  | nil => simp
  | cons x xs ih =>
    have hx : strtol (decimal x.toNat) = x.toNat := strtol_decimal (hlt x (by simp))
    have hof : UInt64.ofInt (x.toNat : ℤ) = x := by
      have h64 := x.toNat_lt
      apply UInt64.toNat_inj.1
      simp only [UInt64.ofInt, UInt64.toNat_ofNat']
      omega
    have hxs : ∀ num ∈ xs, num.toNat < 2 ^ 63 := fun num hn => hlt num (by simp [hn])
    rw [List.foldl_cons, hx, if_pos (by omega), hof]
    refine (ih hxs).trans ?_
    rw [OrdSet.mem_keys_insert, List.mem_cons]
    tauto

/-- The sender's set after the datagrams of several batches. -/
theorem mem_foldl_addToSet {bs : List (List UInt64)} (hne : ∀ b ∈ bs, b ≠ [])
    (hlt : ∀ b ∈ bs, ∀ num ∈ b, num.toNat < 2 ^ 63) :
    num ∈ (bs.foldl (fun R b => Transmitter.addToSet R (afterSpace (message b).dropLast)) R).keys ↔
      num ∈ R.keys ∨ num ∈ bs.flatten := by
  induction bs generalizing R with
  | nil => simp
  | cons b bs ih =>
    rw [List.foldl_cons, ih (fun c hc => hne c (by simp [hc])) fun c hc => hlt c (by simp [hc]),
      mem_addToSet_message (hne b (by simp)) (hlt b (by simp)), List.flatten_cons, List.mem_append, or_assoc]

theorem flatten_batches_nil (nums : List UInt64) : (batches [] nums).flatten = nums :=
  flatten_batches nums []

theorem mem_of_mem_batches {b : List UInt64} (hb : b ∈ batches [] nums) (hn : num ∈ b) : num ∈ nums := by
  rw [← flatten_batches_nil nums]
  exact List.mem_flatten_of_mem hb hn

/-- **Every missing number goes out in one datagram.** -/
theorem requested_once (hnd : nums.Nodup) (hnum : num ∈ nums) :
    (requestDatagrams nums).countP (Carries · num) = 1 := by
  have hone : (batches [] nums).countP (num ∈ ·) = 1 :=
    countP_mem_of_nodup ((flatten_batches_nil nums).symm ▸ hnd) ((flatten_batches_nil nums).symm ▸ hnum)
  rw [requestDatagrams_eq (List.ne_nil_of_mem hnum), List.countP_map, ← hone]
  apply List.countP_congr
  intro b _
  simp [carries_message]

/-- **No datagram has more than ten.** -/
theorem requests_short (h : nums ≠ []) : ∀ d ∈ requestDatagrams nums, (fieldsOf d).length ≤ 10 := by
  rw [requestDatagrams_eq h, List.forall_mem_map]
  intro b hb
  rw [fieldsOf_message, List.length_map]
  exact length_of_mem_batches nums [] (by simp) b hb

/-- The datagrams with a number are those of the batches that are not empty. -/
theorem filter_requests (nums : List UInt64) : ((batches [] nums).map fun b => (message b).dropLast).filter
    (fun d => nums.any (Carries d ·)) =
      ((batches [] nums).filter fun b => b ≠ []).map fun b => (message b).dropLast := by
  rw [List.filter_map]
  congr 1
  apply List.filter_congr
  intro b hb
  rw [Bool.eq_iff_iff]
  simp only [Function.comp_apply, List.any_eq_true, decide_eq_true_eq, carries_message]
  constructor
  · rintro ⟨n, -, hn⟩
    exact List.ne_nil_of_mem hn
  · intro hne
    obtain ⟨n, hn⟩ := List.exists_mem_of_ne_nil b hne
    exact ⟨n, mem_of_mem_batches hb hn, hn⟩

/-- **The sender gets the missing numbers**, besides what it had. -/
theorem requests_union (h : nums ≠ []) (hlt : ∀ num ∈ nums, num.toNat < 2 ^ 63) (R : OrdSet UInt64)
    (num : UInt64) : num ∈ (((requestDatagrams nums).filter fun d => nums.any (Carries d ·)).foldl
      (fun R d => Transmitter.addToSet R (afterSpace d)) R).keys ↔ num ∈ R.keys ∨ num ∈ nums := by
  have hflat : ((batches [] nums).filter fun b => b ≠ []).flatten = nums := by
    have hne := List.flatten_filter_ne_nil (L := batches [] nums)
    rwa [flatten_batches_nil] at hne
  rw [requestDatagrams_eq h, filter_requests, List.foldl_map, mem_foldl_addToSet, hflat]
  · intro b hb
    simpa using List.of_mem_filter hb
  · intro b hb num hn
    exact hlt num (mem_of_mem_batches (List.mem_of_mem_filter hb) hn)

/-- **The request codec**: every missing number goes out in one datagram, no datagram has more
than ten, and the sender that adds the texts of those with a number has the numbers, and no others,
besides what it had. -/
theorem requests_codec (nums : List UInt64) (hnd : nums.Nodup) (hlt : ∀ num ∈ nums, num.toNat < 2 ^ 63)
    (R : OrdSet UInt64) :
    (∀ num ∈ nums, (requestDatagrams nums).countP (Carries · num) = 1) ∧
    (∀ d ∈ requestDatagrams nums, (fieldsOf d).length ≤ 10) ∧
    ∀ num, num ∈ (((requestDatagrams nums).filter fun d => nums.any (Carries d ·)).foldl
      (fun R d => Transmitter.addToSet R (afterSpace d)) R).keys ↔ num ∈ R.keys ∨ num ∈ nums := by
  by_cases hnil : nums = []
  · subst hnil
    simp [requestDatagrams]
  exact ⟨fun num => requested_once hnd, requests_short hnil, requests_union hnil hlt R⟩

/-- Eleven missing packages, and a sender that has one of them. -/
theorem requests_codec_eleven :
    (requestDatagrams [0, 1, 2, 3, 4, 5, 6, 7, 8, 9, 10]).countP (Carries · 10) = 1 :=
  (requests_codec [0, 1, 2, 3, 4, 5, 6, 7, 8, 9, 10] (by decide) (by simp) .empty).1 10 (by decide)

end Receiver

end SikMimuw
