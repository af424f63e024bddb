import Mathlib.Order.Lattice
import Mathlib.Data.Nat.Bitwise
import Mathlib.Tactic.Ring
import Mathlib.Tactic.Common

/-!
# Machine words, their bytes and the byte order of the host

* the linear order of `UInt64`, and subtraction with its borrow (`toNat_sub'`);
* `leBytes w n` and `ofLe`: the `w` bytes of `n`, least significant first, and back
  (`ofLe_leBytes`, `leBytes_ofLe`);
* `Endian.store` and `Endian.load`: how a host of either byte order keeps a word in
  memory;
* `reverseBytes`, and the order of reversed words (`reverseBytes_lt_iff`);
* `htonl` and `ntohl`, and the 64-bit conversion that C programs build from them
  (`htonll`). `store_htonll`: whatever the host, it puts the most significant byte first.
-/

instance instLinearOrderUInt64 : LinearOrder UInt64 where
  le := (· ≤ ·)
  lt := (· < ·)
  le_refl := UInt64.le_refl
  le_trans _ _ _ := UInt64.le_trans
  le_antisymm _ _ := UInt64.le_antisymm
  le_total := UInt64.le_total
  lt_iff_le_not_ge a b := by grind
  toDecidableLE := inferInstance
  toDecidableLT := inferInstance
  toDecidableEq := inferInstance

namespace Word

/-- Subtraction of 64-bit words, with the borrow written out. -/
theorem toNat_sub' (a b : UInt64) :
    (a - b).toNat = if b.toNat ≤ a.toNat then a.toNat - b.toNat else 2 ^ 64 + a.toNat - b.toNat := by
  have ha := a.toNat_lt
  have hb := b.toNat_lt
  rw [UInt64.toNat_sub]
  split <;> omega

/-- The `w` bytes of `n`, least significant first. -/
def leBytes : ℕ → ℕ → List UInt8
  | 0, _ => []
  | w + 1, n => UInt8.ofNat (n % 256) :: leBytes w (n / 256)

/-- The number with the given bytes, least significant first. -/
def ofLe : List UInt8 → ℕ
  | [] => 0
  | b :: bs => b.toNat + 256 * ofLe bs

@[simp] theorem length_leBytes (w n : ℕ) : (leBytes w n).length = w := by
  induction w generalizing n with
  | zero => rfl
  | succ w ih => simp [leBytes, ih]

theorem ofLe_leBytes (w n : ℕ) : ofLe (leBytes w n) = n % 256 ^ w := by
  induction w generalizing n with
  | zero => simp [leBytes, ofLe, Nat.mod_one]
  | succ w ih =>
    have h : (UInt8.ofNat (n % 256)).toNat = n % 256 := by simp
    rw [leBytes, ofLe, ih, h, pow_succ', Nat.mod_mul]

theorem ofLe_lt (bs : List UInt8) : ofLe bs < 256 ^ bs.length := by
  induction bs with
  | nil => simp [ofLe]
  | cons b bs ih =>
    have hb := b.toNat_lt
    rw [ofLe, List.length_cons, pow_succ]
    omega

theorem leBytes_ofLe (bs : List UInt8) : leBytes bs.length (ofLe bs) = bs := by
  induction bs with
  | nil => rfl
  | cons b bs ih =>
    have hb := b.toNat_lt
    have h1 : (b.toNat + 256 * ofLe bs) % 256 = b.toNat := by omega
    have h2 : (b.toNat + 256 * ofLe bs) / 256 = ofLe bs := by omega
    rw [ofLe, List.length_cons, leBytes, h1, h2, ih, UInt8.ofNat_toNat]

theorem ofLe_append (as bs : List UInt8) :
    ofLe (as ++ bs) = ofLe as + 256 ^ as.length * ofLe bs := by
  induction as with
  | nil => simp [ofLe]
  | cons a as ih =>
    rw [List.cons_append, ofLe, ofLe, ih, List.length_cons, pow_succ]
    ring

/-- The number whose bytes are the low `w` bytes of `n` in reverse. -/
def reverseBytes (w n : ℕ) : ℕ := ofLe (leBytes w n).reverse

theorem reverseBytes_succ (w n : ℕ) :
    reverseBytes (w + 1) n = reverseBytes w (n / 256) + 256 ^ w * (n % 256) := by
  unfold reverseBytes
  rw [leBytes, List.reverse_cons, ofLe_append, List.length_reverse, length_leBytes]
  simp [ofLe]

theorem reverseBytes_lt (w n : ℕ) : reverseBytes w n < 256 ^ w := by
  unfold reverseBytes
  simpa using ofLe_lt (leBytes w n).reverse

/-- **Reversed words are compared from their low bytes**: the first byte that differs decides. -/
theorem reverseBytes_lt_iff (w : ℕ) : ∀ m n, reverseBytes w m < reverseBytes w n ↔
    ∃ k < w, m % 256 ^ k = n % 256 ^ k ∧ m / 256 ^ k % 256 < n / 256 ^ k % 256 := by
  induction w with
  | zero => intro m n; simp [reverseBytes, leBytes]
  | succ w ih =>
    intro m n
    -- the bytes above the low one are those of the quotient by 256
    have hstep : ∀ k, (m % 256 ^ (k + 1) = n % 256 ^ (k + 1) ∧
        m / 256 ^ (k + 1) % 256 < n / 256 ^ (k + 1) % 256) ↔ m % 256 = n % 256 ∧
        (m / 256 % 256 ^ k = n / 256 % 256 ^ k ∧ m / 256 / 256 ^ k % 256 < n / 256 / 256 ^ k % 256) := by
      intro k
      rw [pow_succ', Nat.mod_mul, Nat.mod_mul, Nat.div_div_eq_div_mul, Nat.div_div_eq_div_mul]
      omega
    rw [reverseBytes_succ, reverseBytes_succ]
    have hm := reverseBytes_lt w (m / 256)
    have hn := reverseBytes_lt w (n / 256)
    rcases lt_trichotomy (m % 256) (n % 256) with h | h | h
    · refine iff_of_true ?_ ⟨0, by omega, by simp [Nat.mod_one], by simpa using h⟩
      have hle : 256 ^ w * (m % 256 + 1) ≤ 256 ^ w * (n % 256) := Nat.mul_le_mul_left _ h
      rw [Nat.mul_succ] at hle
      omega
    · rw [h, Nat.add_lt_add_iff_right, ih]
      constructor
      · rintro ⟨k, hk, hb⟩
        exact ⟨k + 1, by omega, (hstep k).2 ⟨h, hb⟩⟩
      · rintro ⟨k, hk, hb⟩
        cases k with
        | zero =>
          simp only [pow_zero, Nat.div_one] at hb
          omega
        | succ k => exact ⟨k, by omega, ((hstep k).1 hb).2⟩
    · refine iff_of_false ?_ ?_
      · have hle : 256 ^ w * (n % 256 + 1) ≤ 256 ^ w * (m % 256) := Nat.mul_le_mul_left _ h
        rw [Nat.mul_succ] at hle
        omega
      · rintro ⟨k, -, hb⟩
        cases k with
        | zero =>
          simp only [pow_zero, Nat.div_one] at hb
          omega
        | succ k =>
          have := ((hstep k).1 hb).1
          omega

end Word

/-- The byte order of the host. -/
inductive Endian
  | little
  | big
deriving DecidableEq

namespace Endian

open Word

/-- A `w`-byte word in host memory. -/
def store : Endian → ℕ → ℕ → List UInt8
  | little, w, n => leBytes w n
  | big, w, n => (leBytes w n).reverse

/-- The word that host memory holds. -/
def load : Endian → List UInt8 → ℕ
  | little, bs => ofLe bs
  | big, bs => ofLe bs.reverse

@[simp] theorem length_store (e : Endian) (w n : ℕ) : (e.store w n).length = w := by
  cases e <;> simp [store]

theorem load_store (e : Endian) (w n : ℕ) : e.load (e.store w n) = n % 256 ^ w := by
  cases e <;> simp [store, load, ofLe_leBytes]

theorem load_lt (e : Endian) (bs : List UInt8) : e.load bs < 256 ^ bs.length := by
  cases e
  · exact ofLe_lt bs
  · simpa [load] using ofLe_lt bs.reverse

theorem store_load (e : Endian) (bs : List UInt8) : e.store bs.length (e.load bs) = bs := by
  cases e
  · exact leBytes_ofLe bs
  · have := leBytes_ofLe bs.reverse
    rw [List.length_reverse] at this
    simp [store, load, this]

/-- `htonl`: the word whose bytes in host memory are the big-endian bytes of `x`. -/
def htonl (e : Endian) (x : UInt32) : UInt32 := UInt32.ofNat (e.load (big.store 4 x.toNat))

/-- `htons`, the same for two bytes. -/
def htons (e : Endian) (x : UInt16) : UInt16 := UInt16.ofNat (e.load (big.store 2 x.toNat))

/-- `ntohl`: the word of which host memory holds the bytes of `x`, read as big-endian. -/
def ntohl (e : Endian) (x : UInt32) : UInt32 := UInt32.ofNat (big.load (e.store 4 x.toNat))

/-- `((1==htonl(1)) ? (x) : ((uint64_t)htonl((x) & 0xFFFFFFFF) << 32) | htonl((x) >> 32))`. -/
def htonll (e : Endian) (x : UInt64) : UInt64 :=
  if htonl e 1 = 1 then x
  else ((htonl e (x &&& 0xFFFFFFFF).toUInt32).toUInt64 <<< 32) |||
    (htonl e (x >>> 32).toUInt32).toUInt64

/-- `((1==ntohl(1)) ? (x) : ((uint64_t)ntohl((x) & 0xFFFFFFFF) << 32) | ntohl((x) >> 32))`. -/
def ntohll (e : Endian) (x : UInt64) : UInt64 :=
  if ntohl e 1 = 1 then x
  else ((ntohl e (x &&& 0xFFFFFFFF).toUInt32).toUInt64 <<< 32) |||
    (ntohl e (x >>> 32).toUInt32).toUInt64

theorem toNat_htonl (e : Endian) (x : UInt32) :
    (htonl e x).toNat = e.load (big.store 4 x.toNat) := by
  have h := load_lt e (big.store 4 x.toNat)
  rw [length_store] at h
  exact Nat.mod_eq_of_lt h

theorem toNat_htons (e : Endian) (x : UInt16) :
    (htons e x).toNat = e.load (big.store 2 x.toNat) := by
  have h := load_lt e (big.store 2 x.toNat)
  rw [length_store] at h
  exact Nat.mod_eq_of_lt h

/-- Every host sends the same four bytes. -/
theorem store_htonl (e : Endian) (x : UInt32) : e.store 4 (htonl e x).toNat = big.store 4 x.toNat := by
  have h := store_load e (big.store 4 x.toNat)
  rw [length_store] at h
  rw [toNat_htonl, h]

theorem store_htons (e : Endian) (x : UInt16) : e.store 2 (htons e x).toNat = big.store 2 x.toNat := by
  have h := store_load e (big.store 2 x.toNat)
  rw [length_store] at h
  rw [toNat_htons, h]

/-- On a little-endian host `htonl` reverses the four bytes. -/
theorem toNat_htonl_little (x : UInt32) : (htonl little x).toNat = reverseBytes 4 x.toNat :=
  toNat_htonl little x

/-- Two 32-bit halves put together. -/
theorem toNat_halves (a b : UInt32) :
    ((a.toUInt64 <<< 32) ||| b.toUInt64).toNat = a.toNat * 2 ^ 32 + b.toNat := by
  have ha := a.toNat_lt
  have hb := b.toNat_lt
  have hs : (a.toUInt64 <<< 32).toNat = a.toNat <<< 32 := by
    rw [UInt64.toNat_shiftLeft]
    have : a.toNat <<< 32 < 2 ^ 64 := by rw [Nat.shiftLeft_eq]; omega
    simpa using Nat.mod_eq_of_lt this
  rw [UInt64.toNat_or, hs, UInt32.toNat_toUInt64, ← Nat.shiftLeft_add_eq_or_of_lt hb,
    Nat.shiftLeft_eq]

theorem toNat_low (x : UInt64) : (x &&& 0xFFFFFFFF).toUInt32.toNat = x.toNat % 2 ^ 32 := by
  have h : (0xFFFFFFFF : UInt64).toNat = 2 ^ 32 - 1 := rfl
  rw [UInt64.toNat_toUInt32, UInt64.toNat_and, h, Nat.and_two_pow_sub_one_eq_mod, Nat.mod_mod]

theorem toNat_high (x : UInt64) : (x >>> 32).toUInt32.toNat = x.toNat / 2 ^ 32 := by
  have hx := x.toNat_lt
  rw [UInt64.toNat_toUInt32, UInt64.toNat_shiftRight]
  have h : (32 : UInt64).toNat % 64 = 32 := rfl
  rw [h, Nat.shiftRight_eq_div_pow]
  omega

theorem leBytes_four_four (n : ℕ) :
    leBytes 8 n = leBytes 4 (n % 2 ^ 32) ++ leBytes 4 (n / 2 ^ 32) := by
  have h : ofLe (leBytes 4 (n % 2 ^ 32) ++ leBytes 4 (n / 2 ^ 32)) = n % 256 ^ 8 := by
    rw [ofLe_append, ofLe_leBytes, ofLe_leBytes, length_leBytes]
    omega
  have h8 := leBytes_ofLe (leBytes 4 (n % 2 ^ 32) ++ leBytes 4 (n / 2 ^ 32))
  rw [h, ← ofLe_leBytes] at h8
  have h' := leBytes_ofLe (leBytes 8 n)
  rw [length_leBytes] at h'
  simpa [h'] using h8

/-- **`htonll` puts the most significant byte first**, whatever the host. -/
theorem store_htonll (e : Endian) (x : UInt64) :
    e.store 8 (htonll e x).toNat = big.store 8 x.toNat := by
  cases e with
  | big =>
    have h1 : htonl big 1 = 1 := by decide
    rw [htonll, if_pos h1]
  | little =>
    have h1 : htonl little 1 ≠ 1 := by decide
    rw [htonll, if_neg h1, toNat_halves, toNat_htonl, toNat_htonl, toNat_low, toNat_high]
    -- each half is reversed, and the halves change places
    have key : ∀ n, little.store 4 (little.load (big.store 4 n)) = big.store 4 n := fun n => by
      have := store_load little (big.store 4 n)
      rwa [length_store] at this
    -- the low half of the result is the reversed high half
    have hlt := load_lt little (big.store 4 (x.toNat / 2 ^ 32))
    rw [length_store] at hlt
    set a := little.load (big.store 4 (x.toNat % 2 ^ 32)) with ha
    set b := little.load (big.store 4 (x.toNat / 2 ^ 32)) with hb
    have hm : (a * 2 ^ 32 + b) % 2 ^ 32 = b := by omega
    have hd : (a * 2 ^ 32 + b) / 2 ^ 32 = a := by omega
    have h8 := leBytes_four_four (a * 2 ^ 32 + b)
    rw [hm, hd] at h8
    have hka := key (x.toNat % 2 ^ 32)
    have hkb := key (x.toNat / 2 ^ 32)
    rw [← ha] at hka
    rw [← hb] at hkb
    simp only [store] at hka hkb ⊢
    rw [h8, hka, hkb, leBytes_four_four x.toNat, List.reverse_append]

theorem ntohl_eq_htonl (e : Endian) (x : UInt32) : ntohl e x = htonl e x := by
  cases e <;> simp [ntohl, htonl, load, store]

/-- On every host `ntohll` is the same function as `htonll`. -/
theorem ntohll_eq_htonll (e : Endian) (x : UInt64) : ntohll e x = htonll e x := by
  simp only [ntohll, htonll, ntohl_eq_htonl]

/-- **What was converted and stored is read back** as it was. -/
theorem ntohll_load_store (e : Endian) (x : UInt64) :
    ntohll e (UInt64.ofNat (e.load (e.store 8 (htonll e x).toNat))) = x := by
  have hx := x.toNat_lt
  have hl : e.load (e.store 8 (htonll e x).toNat) = (htonll e x).toNat := by
    rw [load_store]; exact Nat.mod_eq_of_lt (htonll e x).toNat_lt
  rw [hl, UInt64.ofNat_toNat, ntohll_eq_htonll]
  apply UInt64.toNat_inj.1
  have h1 := load_store e 8 (htonll e (htonll e x)).toNat
  have hy : (htonll e (htonll e x)).toNat < 256 ^ 8 := (htonll e (htonll e x)).toNat_lt
  rw [store_htonll, Nat.mod_eq_of_lt hy] at h1
  have h2 := store_htonll e x
  cases e with
  | big =>
    have h1 : htonl big 1 = 1 := by decide
    simp only [htonll, if_pos h1]
  | little =>
    simp only [store] at h2
    rw [← h1]
    simp only [load, store, h2, List.reverse_reverse, ofLe_leBytes]
    exact Nat.mod_eq_of_lt hx

end Endian
