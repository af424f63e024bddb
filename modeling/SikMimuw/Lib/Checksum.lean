import SikMimuw.Lib.Words

/-!
# The Internet checksum

A message is taken as 16-bit words of the host, an odd last byte with a zero behind it. Their sum,
with its carries added back (`fold`), is the number from 1 to `2 ^ 16 - 1` that agrees with it modulo
`2 ^ 16 - 1`, or 0 if all words are (`fold_eq`).

* `complement_spec`: a message with the complement of its sum in one of its words sums up to
  `2 ^ 16 - 1`.
* `store_fold`: hosts of either byte order come to the same two bytes.
* `fold_set_ne`: the sum of a message tells whether one of its bytes has changed.
-/

namespace Checksum

open Word Endian

variable {e e' : Endian} {l m pre post : List UInt8} {s t : ℕ}

/-- The 16-bit words of a message. -/
def words (e : Endian) : List UInt8 → List ℕ
  | a :: b :: l => e.load [a, b] :: words e l
  | [a] => [e.load [a, 0]]
  | [] => []

def total (e : Endian) (l : List UInt8) : ℕ := (words e l).sum

/-- The high half is added to the low half, twice. -/
def fold (s : ℕ) : ℕ := (s / 65536 + s % 65536 + (s / 65536 + s % 65536) / 65536) % 65536

/-- **The sum with its carries.** -/
theorem fold_eq (h : s < 2 ^ 31) : fold s = if s = 0 then 0 else (s - 1) % 65535 + 1 := by
  unfold fold
  have hs := Nat.div_add_mod s 65536
  have hr := Nat.mod_lt s (y := 65536) (by decide)
  generalize s / 65536 = q at *
  generalize s % 65536 = r at *
  subst hs
  have hcarry : (q + r) / 65536 = if q + r < 65536 then 0 else 1 := by split <;> omega
  have hres : (65536 * q + r - 1) % 65535 = (q + r - 1) % 65535 := by omega
  rw [hcarry, hres]
  split <;> split <;> omega

theorem fold_le (s : ℕ) : fold s ≤ 65535 := by
  unfold fold
  omega

theorem fold_mod (h : s < 2 ^ 31) : fold s % 65535 = s % 65535 := by
  rw [fold_eq h]
  split <;> omega

theorem fold_eq_zero (h : s < 2 ^ 31) : fold s = 0 ↔ s = 0 := by
  rw [fold_eq h]
  split <;> omega

/-- A sum that is not 0 is known from its residue. -/
theorem fold_eq_iff (h : s < 2 ^ 31) (hs : s ≠ 0) (n : ℕ) (hn : n ≤ 65535) :
    fold s = n ↔ n ≠ 0 ∧ n % 65535 = s % 65535 := by
  rw [fold_eq h, if_neg hs]
  omega

/-! ### Messages -/

theorem load_pair (a b : UInt8) : e.load [a, b] =
    if e = little then a.toNat + 256 * b.toNat else b.toNat + 256 * a.toNat := by
  cases e <;> simp [load, ofLe]

theorem total_cons (a b : UInt8) (l : List UInt8) : total e (a :: b :: l) = e.load [a, b] + total e l := by
  unfold total
  rw [words, List.sum_cons]

theorem total_append (h : pre.length % 2 = 0) : total e (pre ++ l) = total e pre + total e l := by
  induction pre using words.induct with
  | case1 a b pre ih =>
    have hlen : pre.length % 2 = 0 := by
      rw [List.length_cons, List.length_cons] at h
      omega
    rw [List.cons_append, List.cons_append, total_cons, total_cons, ih hlen, Nat.add_assoc]
  | case2 a =>
    rw [List.length_singleton] at h
    omega
  | case3 =>
    rw [List.nil_append]
    exact (Nat.zero_add _).symm

/-- A word adds 65535 at most. -/
theorem total_le (e : Endian) (l : List UInt8) : total e l ≤ (l.length + 1) / 2 * 65535 := by
  induction l using words.induct with
  | case1 a b l ih =>
    have ha := a.toNat_lt
    have hb := b.toNat_lt
    rw [total_cons, load_pair, List.length_cons, List.length_cons]
    split <;> omega
  | case2 a =>
    have ha := a.toNat_lt
    have h : total e [a] = e.load [a, 0] := List.sum_singleton
    rw [h, load_pair, List.length_singleton]
    simp only [UInt8.toNat_zero]
    split <;> omega
  | case3 => exact Nat.le_refl 0

/-- A message whose sum is an `int`. -/
theorem total_lt (h : l.length ≤ 65536) (e : Endian) : total e l < 2 ^ 31 := by
  have hle := total_le e l
  omega

/-- **The byte order**: the sum of the swapped words is 256 times the sum, modulo `2 ^ 16 - 1`. -/
theorem total_big (l : List UInt8) : total big l % 65535 = 256 * total little l % 65535 ∧
    (total big l = 0 ↔ total little l = 0) := by
  induction l using words.induct with
  | case1 a b l ih =>
    obtain ⟨ih, h0⟩ := ih
    rw [total_cons, total_cons, load_pair, load_pair, if_pos rfl, if_neg (by decide)]
    constructor <;> omega
  | case2 a =>
    have hb : total big [a] = 256 * a.toNat := by simp [total, words, load, ofLe]
    have hl : total little [a] = a.toNat := by simp [total, words, load, ofLe]
    rw [hb, hl]
    omega
  | case3 => exact ⟨rfl, Iff.rfl⟩

theorem reverseBytes_two (n : ℕ) (h : n < 65536) : reverseBytes 2 n = 256 * (n % 256) + n / 256 := by
  unfold reverseBytes
  simp [leBytes, ofLe]
  omega

/-- The sums of two hosts have the same bytes. -/
theorem reverseBytes_fold (h : l.length ≤ 65536) :
    reverseBytes 2 (fold (total little l)) = fold (total big l) := by
  obtain ⟨hmod, h0⟩ := total_big l
  have hl := total_lt h little
  have hb := total_lt h big
  have hle := fold_le (total little l)
  have hfm := fold_mod hl
  rw [reverseBytes_two _ (by omega)]
  by_cases hz : total little l = 0
  · rw [(fold_eq_zero hl).2 hz, (fold_eq_zero hb).2 (h0.2 hz)]
  · have hne : fold (total little l) ≠ 0 := fun hf => hz ((fold_eq_zero hl).1 hf)
    refine ((fold_eq_iff hb (fun hf => hz (h0.1 hf)) _ (by omega)).2 ⟨by omega, ?_⟩).symm
    rw [hmod, Nat.mul_mod, ← hfm, ← Nat.mul_mod]
    omega

/-- The bytes of the reversed word, from the other end. -/
theorem leBytes_reverse_two (n : ℕ) : (leBytes 2 (reverseBytes 2 n)).reverse = leBytes 2 n := by
  have h := leBytes_ofLe (leBytes 2 n).reverse
  rw [List.length_reverse, length_leBytes] at h
  rw [reverseBytes, h, List.reverse_reverse]

/-- **Either host writes the same two bytes.** -/
theorem store_fold (h : l.length ≤ 65536) (e e' : Endian) :
    e.store 2 (65535 - fold (total e l)) = e'.store 2 (65535 - fold (total e' l)) := by
  have hlb : little.store 2 (65535 - fold (total little l)) = big.store 2 (65535 - fold (total big l)) := by
    have hle := fold_le (total little l)
    rw [← reverseBytes_fold h, reverseBytes_two _ (by omega)]
    generalize fold (total little l) = n at hle
    have h1 := reverseBytes_two (65535 - n) (by omega)
    have hrev : 65535 - (256 * (n % 256) + n / 256) = reverseBytes 2 (65535 - n) := by omega
    rw [hrev]
    exact (leBytes_reverse_two (65535 - n)).symm
  cases e <;> cases e'
  · rfl
  · exact hlb
  · exact hlb.symm
  · rfl

/-- **A message with the complement of its sum** in place of a word that was 0. -/
theorem complement_spec (hlen : pre.length + post.length + 2 ≤ 65536) (hpre : pre.length % 2 = 0)
    (e e' : Endian) : fold (total e'
      (pre ++ e.store 2 (65535 - fold (total e (pre ++ [0, 0] ++ post))) ++ post)) = 65535 := by
  have hl : (pre ++ [0, 0] ++ post).length ≤ 65536 := by
    simp only [List.length_append, List.length_cons, List.length_nil]
    omega
  rw [store_fold hl e e']
  have hsum := total_lt hl e'
  have hle := fold_le (total e' (pre ++ [0, 0] ++ post))
  have hmod := fold_mod hsum
  have hzero := fold_eq_zero hsum
  -- the field was 0 when the sum was taken
  have hsplit : ∀ w : List UInt8, w.length = 2 → total e' (pre ++ w ++ post) =
      total e' pre + e'.load w + total e' post := by
    intro w hw
    match w, hw with
    | [a, b], _ =>
      rw [List.append_assoc, total_append hpre]
      show _ + total e' (a :: b :: post) = _
      rw [total_cons, Nat.add_assoc]
  have h0 : e'.load [0, 0] = 0 := by cases e' <;> rfl
  rw [hsplit [0, 0] rfl, h0, Nat.add_zero] at hsum hle hmod hzero ⊢
  generalize hf : fold (total e' pre + total e' post) = f at hle hmod hzero
  have hw := hsplit (e'.store 2 (65535 - f)) (length_store _ _ _)
  have hload := load_store e' 2 (65535 - f)
  have hbig : total e' (pre ++ e'.store 2 (65535 - f) ++ post) < 2 ^ 31 := by
    refine total_lt ?_ e'
    simp only [List.length_append, length_store]
    omega
  rw [hw, hload] at hbig ⊢
  refine (fold_eq_iff hbig ?_ _ le_rfl).2 ⟨by omega, ?_⟩
  · omega
  · omega

/-! ### Changes -/

/-- **One changed byte** changes the sum. -/
theorem fold_set_ne (hlen : l.length ≤ 65536) {i : ℕ} (hi : i < l.length) {b : UInt8}
    (hb : l[i] ≠ b) (e : Endian) : fold (total e (l.set i b)) ≠ fold (total e l) := by
  have hmod : ∀ (l : List UInt8) (i : ℕ) (hi : i < l.length), l[i] ≠ b →
      total e (l.set i b) % 65535 ≠ total e l % 65535 := by
    intro l
    induction l using words.induct with
    | case1 x y l ih =>
      intro i hi hb
      have hx := x.toNat_lt
      have hy := y.toNat_lt
      have hlt := b.toNat_lt
      match i, hi with
      | 0, _ =>
        have hne : x.toNat ≠ b.toNat := fun h => hb (UInt8.toNat_inj.1 h)
        rw [List.set_cons_zero, total_cons, total_cons, load_pair, load_pair]
        split <;> omega
      | 1, _ =>
        have hne : y.toNat ≠ b.toNat := fun h => hb (UInt8.toNat_inj.1 h)
        rw [List.set_cons_succ, List.set_cons_zero, total_cons, total_cons, load_pair, load_pair]
        split <;> omega
      | i + 2, hi =>
        have hrest := ih i (by simpa using hi) (by simpa using hb)
        rw [List.set_cons_succ, List.set_cons_succ, total_cons, total_cons]
        omega
    | case2 x =>
      intro i hi hb
      obtain rfl : i = 0 := by simpa using hi
      have hx := x.toNat_lt
      have hlt := b.toNat_lt
      have hne : x.toNat ≠ b.toNat := fun h => hb (UInt8.toNat_inj.1 h)
      have htotal : ∀ a : UInt8, total e [a] = e.load [a, 0] := fun _ => List.sum_singleton
      rw [List.set_cons_zero, htotal, htotal, load_pair, load_pair]
      simp only [UInt8.toNat_zero]
      split <;> omega
    | case3 =>
      intro i hi
      exact absurd hi (Nat.not_lt_zero _)
  intro h
  apply hmod l i hi hb
  rw [← fold_mod (total_lt (by rwa [List.length_set]) e), ← fold_mod (total_lt hlen e), h]

end Checksum
