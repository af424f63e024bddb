import SikMimuw.Lib.Words
import Mathlib.Data.Int.GCD
import Mathlib.Data.List.Chain
import Mathlib.Data.Nat.ModEq
import Mathlib.Tactic.Linarith
import Mathlib.Tactic.Ring

/-!
# Arithmetic progressions of machine words

`Progression len l`: each number of `l` is `len` above the one before it, modulo `2 ^ 64`.
As long as the list spans less than `2 ^ 64`, its numbers are distinct.

A progression that goes on wraps, and comes to `top` again and again, the greatest number of its
residue modulo the greatest power of two in `len`. It comes to no number above that.
-/

/-- Each number is `len` above the one before it, modulo `2 ^ 64`. -/
def Progression (len : UInt64) (l : List UInt64) : Prop := l.IsChain fun a b => b = a + len

namespace Progression

variable {len a x y : UInt64} {l : List UInt64}

theorem nil : Progression len [] := List.isChain_nil

theorem singleton (a : UInt64) : Progression len [a] := List.isChain_singleton a

theorem tail (h : Progression len l) : Progression len l.tail := List.IsChain.tail h

/-- **One more number at the end.** -/
theorem snoc (h : Progression len l) (hy : l.getLast? = some y) : Progression len (l ++ [y + len]) := by
  refine List.isChain_append.2 ⟨h, List.isChain_singleton _, ?_⟩
  intro p hp q hq
  rw [hy, Option.mem_some_iff] at hp
  simp only [List.head?_cons, Option.mem_some_iff] at hq
  rw [← hp, ← hq]

theorem getElem : ∀ {l : List UInt64} {a : UInt64}, Progression len (a :: l) →
    ∀ (i : ℕ) (hi : i < (a :: l).length), (a :: l)[i].toNat = (a.toNat + i * len.toNat) % 2 ^ 64 := by
  intro l
  induction l with
  | nil =>
    intro a _ i hi
    have : i = 0 := by simpa using hi
    subst this
    have := a.toNat_lt
    simp [Nat.mod_eq_of_lt this]
  | cons b l ih =>
    intro a h i hi
    rcases i with _ | i
    · have := a.toNat_lt
      simp [Nat.mod_eq_of_lt this]
    · obtain ⟨hb, hl⟩ := List.isChain_cons_cons.1 h
      have := ih hl i (by simpa using hi)
      rw [List.getElem_cons_succ, this, hb, UInt64.toNat_add, Nat.succ_mul]
      omega

/-- **The last number**, from the first and the length. -/
theorem getLast (h : Progression len (a :: l)) (hy : (a :: l).getLast? = some y) :
    y.toNat = (a.toNat + l.length * len.toNat) % 2 ^ 64 := by
  have hi : l.length < (a :: l).length := by simp
  rw [← h.getElem l.length hi]
  rw [List.getLast?_eq_getElem?] at hy
  simp only [List.length_cons, Nat.add_sub_cancel] at hy
  rw [List.getElem?_eq_getElem hi, Option.some.injEq] at hy
  rw [hy]

/-- **The numbers are distinct** while they span less than `2 ^ 64`. -/
theorem nodup (h : Progression len l) (hlen : 0 < len.toNat)
    (hspan : (l.length - 1) * len.toNat < 2 ^ 64) : l.Nodup := by
  rcases l with _ | ⟨a, l⟩
  · exact List.nodup_nil
  rw [List.Nodup, List.pairwise_iff_getElem]
  intro i j hi hj hij heq
  have h1 := h.getElem i hi
  have h2 := h.getElem j hj
  rw [heq, h2] at h1
  -- equal numbers at `i < j` would be a multiple of `2 ^ 64` apart
  have hlt : i * len.toNat < j * len.toNat := Nat.mul_lt_mul_of_pos_right hij hlen
  have hle : j * len.toNat ≤ ((a :: l).length - 1) * len.toNat := Nat.mul_le_mul_right _ (by omega)
  have ha := a.toNat_lt
  set p := i * len.toNat
  set q := j * len.toNat
  set r := ((a :: l).length - 1) * len.toNat
  omega

/-- **The next number is new** while the numbers with it span less than `2 ^ 64`. -/
theorem nodup_snoc (h : Progression len l) (hlen : 0 < len.toNat) (hy : l.getLast? = some y)
    (hspan : l.length * len.toNat < 2 ^ 64) : (l ++ [y + len]).Nodup := by
  apply (h.snoc hy).nodup hlen
  rwa [List.length_append, List.length_singleton, Nat.add_sub_cancel]

/-! ### Going on past `2 ^ 64` -/

/-- The `i`-th number of the progression. -/
theorem toNat_nth (a len : UInt64) (i : ℕ) :
    (a + UInt64.ofNat i * len).toNat = (a.toNat + i * len.toNat) % 2 ^ 64 := by
  rw [UInt64.toNat_add, UInt64.toNat_mul, UInt64.toNat_ofNat', Nat.mod_mul_mod, Nat.add_mod_mod]

/-- **The greatest 64-bit number** that a progression from `a` on comes to. -/
def top (a len : UInt64) : ℕ :=
  2 ^ 64 - Nat.gcd len.toNat (2 ^ 64) + a.toNat % Nat.gcd len.toNat (2 ^ 64)

theorem top_lt {a len : UInt64} : top a len < 2 ^ 64 := by
  have hpos : 0 < Nat.gcd len.toNat (2 ^ 64) := Nat.gcd_pos_of_pos_right _ (by norm_num)
  have hle : Nat.gcd len.toNat (2 ^ 64) ≤ 2 ^ 64 := Nat.gcd_le_right _ (by norm_num)
  have hmod := Nat.mod_lt a.toNat hpos
  unfold top
  omega

theorem nth_mod_gcd (a len : UInt64) (i : ℕ) :
    (a + UInt64.ofNat i * len).toNat % Nat.gcd len.toNat (2 ^ 64) =
      a.toNat % Nat.gcd len.toNat (2 ^ 64) := by
  have hlen : Nat.gcd len.toNat (2 ^ 64) ∣ i * len.toNat := (Nat.gcd_dvd_left _ _).mul_left i
  rw [toNat_nth, Nat.mod_mod_of_dvd _ (Nat.gcd_dvd_right _ _), Nat.add_mod,
    Nat.mod_eq_zero_of_dvd hlen, Nat.add_zero, Nat.mod_mod]

/-- A 64-bit number of the residue of `a` is at most `top`. -/
theorem le_top {a len x : UInt64}
    (h : x.toNat % Nat.gcd len.toNat (2 ^ 64) = a.toNat % Nat.gcd len.toNat (2 ^ 64)) :
    x.toNat ≤ top a len := by
  unfold top
  rw [← h]
  have hpos : 0 < Nat.gcd len.toNat (2 ^ 64) := Nat.gcd_pos_of_pos_right _ (by norm_num)
  obtain ⟨q, hq⟩ := Nat.gcd_dvd_right len.toNat (2 ^ 64)
  generalize Nat.gcd len.toNat (2 ^ 64) = g at hpos hq ⊢
  have hx := x.toNat_lt
  have hdiv := Nat.div_add_mod x.toNat g
  have hlt : x.toNat / g < q := by
    rw [Nat.div_lt_iff_lt_mul hpos, Nat.mul_comm, ← hq]
    exact hx
  have hle : g * (x.toNat / g + 1) ≤ g * q := Nat.mul_le_mul_left g hlt
  rw [Nat.mul_succ, ← hq] at hle
  omega

/-- No number of the progression is above `top`. -/
theorem nth_le_top (a len : UInt64) (i : ℕ) :
    (a + UInt64.ofNat i * len).toNat ≤ top a len :=
  le_top (nth_mod_gcd a len i)

theorem top_mod_gcd (a len : UInt64) :
    top a len % Nat.gcd len.toNat (2 ^ 64) = a.toNat % Nat.gcd len.toNat (2 ^ 64) := by
  have hdvd : Nat.gcd len.toNat (2 ^ 64) ∣ 2 ^ 64 - Nat.gcd len.toNat (2 ^ 64) :=
    Nat.dvd_sub (Nat.gcd_dvd_right _ _) dvd_rfl
  rw [top, Nat.add_mod, Nat.mod_eq_zero_of_dvd hdvd, Nat.zero_add, Nat.mod_mod, Nat.mod_mod]

/-- **It comes there**, again and again. -/
theorem reaches_top {a len : UInt64} (hlen : 0 < len.toNat) (m : ℕ) :
    ∃ i, m ≤ i ∧ (a + UInt64.ofNat i * len).toNat = top a len := by
  have hlt : Nat.gcd len.toNat (2 ^ 64) < 2 ^ 64 :=
    lt_of_le_of_lt (Nat.gcd_le_left _ hlen) len.toNat_lt
  obtain ⟨n, -, hn⟩ := Nat.exists_mul_mod_eq_gcd hlt
  -- from `a` to `top` it is a multiple of the gcd, and `n` steps make one of it
  obtain ⟨q, hq⟩ := (Nat.modEq_iff_dvd' (le_top rfl)).1 (top_mod_gcd a len).symm
  refine ⟨n * q + 2 ^ 64 * m, ?_, ?_⟩
  · have hm : m ≤ 2 ^ 64 * m := Nat.le_mul_of_pos_left m (by norm_num)
    omega
  · have hsteps : (n * q + 2 ^ 64 * m) * len.toNat ≡ top a len - a.toNat [MOD 2 ^ 64] := by
      have hone : len.toNat * n ≡ Nat.gcd len.toNat (2 ^ 64) [MOD 2 ^ 64] := by
        rw [Nat.ModEq, hn, Nat.mod_eq_of_lt hlt]
      have hall : (n * q + 2 ^ 64 * m) * len.toNat =
          len.toNat * n * q + 2 ^ 64 * (m * len.toNat) := by ring
      rw [hall, hq]
      have hz : 2 ^ 64 * (m * len.toNat) ≡ 0 [MOD 2 ^ 64] := Nat.modEq_zero_iff_dvd.2 (dvd_mul_right _ _)
      exact (hone.mul_right q).add hz
    have hsum : a.toNat + (n * q + 2 ^ 64 * m) * len.toNat ≡ top a len [MOD 2 ^ 64] := by
      have hs := Nat.ModEq.add_left a.toNat hsteps
      rwa [Nat.add_sub_cancel' (le_top rfl)] at hs
    rw [toNat_nth, hsum, Nat.mod_eq_of_lt top_lt]

end Progression
