import SikMimuw.Model.Datagram
import SikMimuw.Proof.Loop

/-!
# The length of the payload

A datagram shorter than its header has a payload length that wraps. A datagram that ends with its
header has length 0, and `add_to_buffor` divides by it, unless it returns before it comes to a
division.

* `Undivided`: the calls without a division. `divides_iff`: there are no others (`evicts_of_gap`).
* `length_ok_iff`: the exact condition, in every state of the buffer.
-/

namespace SikMimuw.Receiver

variable {W : Wild} {num : UInt64} {b : Buffer} {e : Endian} {session : UInt64}
  {buffor datagram : List UInt8} {back : Package}

/-- **The length is right**: what comes to `add_to_buffor` is the number of bytes behind the header,
and the call does not divide by zero. -/
def LengthOk (W : Wild) (e : Endian) (session : UInt64) (buffor datagram : List UInt8)
    (b : Buffer) : Prop :=
  ∀ num len, addArguments e session (recv buffor datagram) datagram.length = some (num, len) →
    len.toNat = (datagram.drop 16).length ∧
    ∀ n, ∀ d ∈ divisors W b num (payload (recv buffor datagram) len) n, d ≠ 0

/-- A call with length 0 that executes no division: the packet is missing, or the buffer is not empty
and full, or the packet is older than the front, or it has the number of the back. -/
def Undivided (b : Buffer) (num : UInt64) : Prop :=
  (∃ it, (num, it) ∈ b.set.entries) ∨
    b.packages.values ≠ [] ∧ ((b.size.toNat ≤ b.packages.size ∨
      ∃ front ∈ b.packages.values.head?, num < front.num) ∨
        ∃ back ∈ b.packages.values.getLast?, num = back.num)

/-- The datagram has a payload, or the call for its number executes no division. -/
def Measured (e : Endian) (session : UInt64) (buffor datagram : List UInt8) (b : Buffer) : Prop :=
  ∀ num len, addArguments e session (recv buffor datagram) datagram.length = some (num, len) →
    16 < datagram.length ∨ datagram.length = 16 ∧ Undivided b num

theorem length_no_payload : ([] : List UInt8).length = (0 : UInt64).toNat := rfl

/-- With length 0 the place behind the back is that of the back, and the list fills up. -/
theorem evicts_of_gap {front back : Package} (he : Enters b num back)
    (hf : b.packages.values.head? = some front) (hge : front.num ≤ num) (hne : num ≠ back.num) :
    ∃ n, (addToBuffor W b num [] n).evictions ≠ [] := by
  have hroom := he.room
  have hgap : ∀ j : ℕ, back.num + UInt64.ofNat (j + 1) * 0 ≠ num := by
    intro j
    rw [UInt64.mul_zero, UInt64.add_zero]
    exact hne.symm
  have hin : ∀ j, b.packages.size + j ≤ b.size.toNat →
      InLoop 0 b back j (addToBuffor W b num [] j) := by
    intro j
    induction j with
    | zero =>
      intro _
      exact he.inLoop W 0 []
    | succ j ih =>
      intro hj
      have h := ih (by omega)
      -- the front has not gone yet
      have hfront : (addToBuffor W b num [] j).buf.packages.values.head? = some front := by
        rw [h.values, Window.rtake_of_length_le (by rw [length_grown]; omega), Buffer.grown,
          List.head?_append, hf]
        rfl
      have hc := h.succ he length_no_payload
      generalize addToBuffor W b num [] (j + 1) = c' at hc
      cases hc with
      | older hf' hlt =>
        rw [hfront, Option.some.injEq] at hf'
        subst hf'
        exact absurd hlt (not_lt.2 hge)
      | next _ _ hnext => exact absurd hnext (hgap j)
      | goesOn _ _ _ hc => exact hc
  have hlast := (hin (b.size.toNat - b.packages.size) (by omega)).evictions
  refine ⟨b.size.toNat - b.packages.size, fun h0 => ?_⟩
  rw [h0, List.length_nil] at hlast
  omega

/-- The packet with the number of the back is appended at once, or is older than the front. -/
theorem no_evictions_back (he : Enters b num back) (heq : num = back.num) :
    ∀ n, (addToBuffor W b num [] n).evictions = [] := by
  have hin := he.inLoop W 0 []
  have hc := hin.succ he length_no_payload
  have hnone : (addToBuffor W b num [] 0).evictions = [] := by
    rw [addToBuffor_cons he.key he.ne_nil]
  generalize addToBuffor W b num [] 0 = c at hin hc hnone
  have hone : (addToBuffor W b num [] (0 + 1)).done = true ∧
      (addToBuffor W b num [] (0 + 1)).evictions = [] := by
    generalize addToBuffor W b num [] (0 + 1) = c' at hc
    cases hc with
    | older => exact ⟨rfl, hnone⟩
    | next => exact ⟨rfl, hnone⟩
    | goesOn _ _ hgap _ =>
      rw [UInt64.mul_zero, UInt64.add_zero] at hgap
      exact absurd heq.symm hgap
  exact no_evictions hone.1 hone.2

/-- Every divisor is the length. -/
theorem mem_divisors {W : Wild} {b : Buffer} {num d : UInt64} {bytes : List UInt8} {n : ℕ}
    (hd : d ∈ divisors W b num bytes n) : d = UInt64.ofNat bytes.length := by
  unfold divisors at hd
  rcases List.mem_append.1 hd with hd | hd
  · split at hd
    · exact List.mem_singleton.1 hd
    · cases hd
  · obtain ⟨_, -, rfl⟩ := List.mem_map.1 hd
    rfl

/-- With length 0 every division fails. -/
theorem divisors_iff (W : Wild) (b : Buffer) (num : UInt64) :
    (∀ n, ∀ d ∈ divisors W b num [] n, d ≠ 0) ↔
      ¬ (b.set.find? num = none ∧ b.packages.values = []) ∧
        ∀ n, (addToBuffor W b num [] n).evictions = [] := by
  constructor
  · intro h
    have hnone : ∀ n, divisors W b num [] n = [] := by
      intro n
      exact List.eq_nil_iff_forall_not_mem.2 fun d hd => h n d hd (mem_divisors hd)
    refine ⟨fun hc => ?_, fun n => ?_⟩
    · have h0 := hnone 0
      rw [divisors, if_pos hc] at h0
      cases h0
    · exact List.map_eq_nil_iff.1 (List.append_eq_nil_iff.1 (hnone n)).2
  · rintro ⟨hc, he⟩ n d hd
    rw [divisors, if_neg hc, he n] at hd
    cases hd

/-- **A call with length 0** divides by it exactly if it is not `Undivided`. -/
theorem divides_iff (W : Wild) (b : Buffer) (num : UInt64) :
    (∀ n, ∀ d ∈ divisors W b num [] n, d ≠ 0) ↔ Undivided b num := by
  rw [divisors_iff]
  have hno : b.set.find? num = none → ¬ ∃ it, (num, it) ∈ b.set.entries := by
    rintro hkey ⟨it, hit⟩
    exact OrdMap.find?_eq_none.1 hkey it hit
  cases entry_cases b num with
  | @missing it hkey =>
    refine iff_of_true ⟨fun hc => ?_, ?_⟩ (Or.inl ⟨it, OrdMap.find?_eq_some.1 hkey⟩)
    · rw [hkey] at hc
      cases hc.1
    · exact no_evictions (n := 0) (by rw [addToBuffor_key hkey]) (by rw [addToBuffor_key hkey])
  | first hkey hnil =>
    refine iff_of_false (fun h => h.1 ⟨hkey, hnil⟩) ?_
    rintro (hk | ⟨hne, -⟩)
    · exact hno hkey hk
    · exact hne hnil
  | atOnce hkey hne honce =>
    have hone : addToBuffor W b num [] 1 = ⟨b, [], true⟩ := addToBuffor_at_once hkey hne honce
    refine iff_of_true ⟨fun hc => hne hc.2, ?_⟩ (Or.inr ⟨hne, Or.inl honce⟩)
    exact no_evictions (n := 1) (by rw [hone]) (by rw [hone])
  | @loop front back he hf hge =>
    by_cases heq : num = back.num
    · refine iff_of_true ⟨fun hc => he.ne_nil hc.2, no_evictions_back he heq⟩ ?_
      exact Or.inr ⟨he.ne_nil, Or.inr ⟨back, he.last, heq⟩⟩
    · refine iff_of_false (fun h => ?_) ?_
      · obtain ⟨n, hn⟩ := evicts_of_gap (W := W) he hf hge heq
        exact hn (h.2 n)
      · rintro (hk | ⟨-, (hfull | ⟨front', hf', hlt⟩) | ⟨back', hb, hnum⟩⟩)
        · exact hno he.key hk
        · exact absurd he.room (not_lt.2 hfull)
        · rw [hf, Option.mem_some_iff] at hf'
          subst hf'
          exact absurd hlt (not_lt.2 hge)
        · rw [he.last, Option.mem_some_iff] at hb
          subst hb
          exact heq hnum

/-- The length of a datagram less that of the header. -/
theorem toNat_len (hle : datagram.length ≤ 65507) :
    (UInt64.ofNat datagram.length - 2 * 8).toNat =
      if 16 ≤ datagram.length then datagram.length - 16 else 2 ^ 64 + datagram.length - 16 := by
  have h16 : (2 * 8 : UInt64).toNat = 16 := rfl
  rw [Word.toNat_sub', h16, UInt64.toNat_ofNat', Nat.mod_eq_of_lt (by omega)]

/-- **The length of the payload.** In every state of the buffer, and whatever `buffor` held, the
length of a datagram's payload is right exactly if the datagram has a payload, or ends with its
header and the call executes no division, or does not come to `add_to_buffor`. -/
theorem length_ok_iff (W : Wild) (e : Endian) (session : UInt64) (buffor : List UInt8)
    {datagram : List UInt8} (hpos : 1 ≤ datagram.length) (hle : datagram.length ≤ 65507)
    (b : Buffer) :
    LengthOk W e session buffor datagram b ↔ Measured e session buffor datagram b := by
  refine forall_congr' fun num => forall_congr' fun len => imp_congr_right fun hcall => ?_
  have hlen : len = UInt64.ofNat datagram.length - 2 * 8 := by
    unfold addArguments at hcall
    dsimp only at hcall
    split at hcall
    · rw [Option.some.injEq, Prod.mk.injEq] at hcall
      exact hcall.2.symm
    · cases hcall
  have hnat := toNat_len hle
  rw [← hlen] at hnat
  rcases Nat.lt_trichotomy datagram.length 16 with hlt | heq | hgt
  · -- the length wraps
    refine iff_of_false (fun h => ?_) (by omega)
    have h1 := h.1
    rw [hnat, if_neg (by omega), List.length_drop] at h1
    omega
  · have hpay : payload (recv buffor datagram) len = [] := by
      rw [hlen, payload_recv (by omega) (by omega), List.drop_eq_nil_iff]
      omega
    rw [hpay, divides_iff]
    constructor
    · exact fun h => Or.inr ⟨heq, h.2⟩
    · rintro (h | h)
      · omega
      · refine ⟨?_, h.2⟩
        rw [hnat, if_pos (by omega), List.length_drop]
  · refine iff_of_true ⟨?_, fun n d hd => ?_⟩ (Or.inl hgt)
    · rw [hnat, if_pos (by omega), List.length_drop]
    · -- every divisor is the length
      have hpay : payload (recv buffor datagram) len = datagram.drop 16 := by
        rw [hlen, payload_recv (by omega) (by omega)]
      have hdl : d = UInt64.ofNat (datagram.drop 16).length := by
        rw [hpay] at hd
        exact mem_divisors hd
      intro h0
      have hz := congrArg UInt64.toNat (hdl.symm.trans h0)
      rw [UInt64.toNat_ofNat', List.length_drop, Nat.mod_eq_of_lt (by omega)] at hz
      have : (0 : UInt64).toNat = 0 := rfl
      omega

/-- A datagram with a payload of one byte. -/
theorem length_ok_one : LengthOk ⟨fun _ _ => 0, fun _ _ => 0⟩ .little 0
    (List.replicate (64 * 1024) 0) (List.replicate 17 0) (Buffer.init 3) :=
  (length_ok_iff _ _ _ _ (by decide) (by decide) _).2 fun _ _ _ => Or.inl (by decide)

/-- A datagram that ends with its header comes to the empty buffer. -/
theorem header_divides_by_zero : ¬ ∀ (W : Wild) (e : Endian) (session : UInt64)
    (buffor datagram : List UInt8) (b : Buffer), buffor.length = 64 * 1024 →
      1 ≤ datagram.length → datagram.length ≤ 65507 → LengthOk W e session buffor datagram b := by
  intro h
  have hok := h ⟨fun _ _ => 0, fun _ _ => 0⟩ .little 0 (List.replicate (64 * 1024) 0)
    (List.replicate 16 0) (Buffer.init 3) List.length_replicate (by decide) (by decide)
  obtain ⟨-, hd⟩ := hok _ _ rfl
  exact hd 0 0 (List.mem_singleton_self _) rfl

end SikMimuw.Receiver
