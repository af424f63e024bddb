import Mathlib.Algebra.Order.Ring.Int
import Mathlib.Data.List.Basic
import Mathlib.Data.List.TakeWhile
import Mathlib.Tactic.Common

/-!
# C strings

Memory is a list of bytes. A read that C gives no meaning (a string without its NUL, a scan that
leaves the memory) is `none`.

* `read`: the string at the start of a memory; `read_append` reads back what was written;
* `scan`: how far the first byte of a kind is;
* `decimal`, `long`: the numerals that `printf` and `std::to_string` write, and `number`,
  which reads one (`number_append`, `value_decimal`);
* `strtol`, `strtok`.
-/

namespace CStr

/-- The bytes of an ASCII text. -/
def bytes (s : String) : List UInt8 := s.toList.map fun c => UInt8.ofNat c.toNat

/-- The string at the start of a memory: what stands before its first NUL. -/
def read (mem : List UInt8) : Option (List UInt8) :=
  if 0 ∈ mem then some (mem.takeWhile (· ≠ 0)) else none

theorem takeWhile_append_cons {α : Type*} {p : α → Bool} {l t : List α} {a : α}
    (hl : ∀ x ∈ l, p x) (ha : p a = false) : (l ++ a :: t).takeWhile p = l := by
  simp [List.takeWhile_append_of_pos hl, ha]

theorem dropWhile_append_cons {α : Type*} {p : α → Bool} {l t : List α} {a : α}
    (hl : ∀ x ∈ l, p x) (ha : p a = false) : (l ++ a :: t).dropWhile p = a :: t := by
  simp [List.dropWhile_append_of_pos hl, ha]

/-- **Reading back a string** from where it was written. -/
theorem read_append {s : List UInt8} (h : 0 ∉ s) (t : List UInt8) : read (s ++ 0 :: t) = some s := by
  unfold read
  rw [if_pos (by simp), takeWhile_append_cons _ (by simp)]
  intro c hc
  simp only [decide_eq_true_eq]
  exact ne_of_mem_of_not_mem hc h

/-- A string stands in memory with its NUL. -/
theorem prefix_of_read {s mem : List UInt8} (h : read mem = some s) : s ++ [0] <+: mem := by
  unfold read at h
  split at h
  · rename_i hm
    rw [Option.some.injEq] at h
    -- the first byte dropped is the NUL
    have hd : mem.dropWhile (· ≠ 0) ≠ [] := by
      rw [Ne, List.dropWhile_eq_nil_iff]
      intro hall
      simpa using hall 0 hm
    obtain ⟨c, t, ht⟩ := List.exists_cons_of_ne_nil hd
    have hc : c = 0 := by
      have hhead := List.head_dropWhile_not (fun x : UInt8 => decide (x ≠ 0)) hd
      simp only [ht, List.head_cons] at hhead
      simpa using hhead
    subst hc
    refine ⟨t, ?_⟩
    rw [← h, List.append_assoc, List.singleton_append, ← ht, List.takeWhile_append_dropWhile]
  · cases h

/-- The index of the first byte `c`, where `while (*ptr != c) ptr++` stops. -/
def scan (c : UInt8) (mem : List UInt8) : Option ℕ := mem.findIdx? (· = c)

theorem scan_append {c : UInt8} {s : List UInt8} (h : c ∉ s) (t : List UInt8) :
    scan c (s ++ c :: t) = some s.length := by
  unfold scan
  have hs : s.findIdx? (· = c) = none := by
    rw [List.findIdx?_eq_none_iff]
    intro x hx
    simpa using ne_of_mem_of_not_mem hx h
  rw [List.findIdx?_append, hs, List.findIdx?_cons]
  simp

theorem scan_eq_none {c : UInt8} {mem : List UInt8} : scan c mem = none ↔ c ∉ mem := by
  unfold scan
  rw [List.findIdx?_eq_none_iff]
  refine ⟨fun h hc => ?_, fun h x hx => ?_⟩
  · simpa using h c hc
  · simpa using ne_of_mem_of_not_mem hx h

/-! ### Numerals -/

def isspace (c : UInt8) : Bool := c = 32 ∨ (9 ≤ c ∧ c ≤ 13)

def isdigit (c : UInt8) : Bool := 48 ≤ c ∧ c ≤ 57

theorem isspace_of_isdigit {c : UInt8} (h : isdigit c) : isspace c = false := by
  unfold isdigit isspace at *
  simp only [decide_eq_true_eq, decide_eq_false_iff_not, UInt8.le_iff_toNat_le,
    ← UInt8.toNat_inj] at *
  simp at *
  omega

/-- The decimal numeral of `n`. -/
def decimal (n : ℕ) : List UInt8 := (Nat.toDigits 10 n).map fun c => UInt8.ofNat c.toNat

/-- `%ld`. -/
def long : ℤ → List UInt8
  | .ofNat n => decimal n
  | .negSucc n => 45 :: decimal (n + 1)

/-- The number that a string of digits denotes. -/
def value (ds : List UInt8) : ℕ := ds.foldl (fun v c => 10 * v + (c.toNat - 48)) 0

theorem decimal_ne_nil (n : ℕ) : decimal n ≠ [] := by
  unfold decimal
  simp [Nat.toDigits_ne_nil]

theorem toNat_ofNat_digit {d : Char} (h : d.isDigit) : (UInt8.ofNat d.toNat).toNat = d.toNat := by
  have hd : d.toNat ≤ 57 := (Char.isDigit_iff_toNat.1 h).2
  rw [UInt8.toNat_ofNat', Nat.mod_eq_of_lt (by omega)]

theorem isdigit_of_mem_decimal {n : ℕ} {c : UInt8} (h : c ∈ decimal n) : isdigit c := by
  obtain ⟨d, hd, rfl⟩ := List.mem_map.1 h
  have hdig := Nat.isDigit_of_mem_toDigits (by decide) (by decide) hd
  have hb : 48 ≤ d.toNat ∧ d.toNat ≤ 57 := Char.isDigit_iff_toNat.1 hdig
  unfold isdigit
  simpa [UInt8.le_iff_toNat_le, toNat_ofNat_digit hdig] using hb

theorem value_decimal (n : ℕ) : value (decimal n) = n := by
  have hn : Nat.ofDigitChars 10 (Nat.toDigits 10 n) 0 = n := Nat.ofDigitChars_ten_toDigits
  unfold value decimal
  rw [List.foldl_map]
  refine Eq.trans (List.foldl_ext _ _ _ fun v d hd => ?_) (Nat.ofDigitChars_eq_foldl.symm.trans hn)
  rw [toNat_ofNat_digit (Nat.isDigit_of_mem_toDigits (by decide) (by decide) hd)]
  rfl

/-- The number at the start of a string, after white space and a sign, and what follows it. -/
def number (s : List UInt8) : Option (ℤ × List UInt8) :=
  let s := s.dropWhile isspace
  let neg := s.head? = some 45
  let s := if neg ∨ s.head? = some 43 then s.tail else s
  if s.takeWhile isdigit = [] then none
  else
    let v : ℤ := value (s.takeWhile isdigit)
    some (if neg then -v else v, s.dropWhile isdigit)

/-- **Reading a numeral back.** -/
theorem number_append {ds t : List UInt8} (hne : ds ≠ []) (hd : ∀ c ∈ ds, isdigit c)
    (ht : ∀ c ∈ t.head?, isdigit c = false) : number (ds ++ t) = some (↑(value ds), t) := by
  obtain ⟨d, ds', rfl⟩ := List.exists_cons_of_ne_nil hne
  have h0 : isdigit d := hd d (by simp)
  have hspace : (d :: ds' ++ t).dropWhile isspace = d :: ds' ++ t := by
    simp [isspace_of_isdigit h0]
  -- a digit is not a sign
  have hsign : ∀ c : UInt8, isdigit c = false → some d ≠ some c := by
    rintro c hc ⟨⟩
    rw [h0] at hc
    cases hc
  have htake : (d :: ds' ++ t).takeWhile isdigit = d :: ds' := by
    rw [List.takeWhile_append_of_pos hd]
    cases t <;> simp_all
  have hdrop : (d :: ds' ++ t).dropWhile isdigit = t := by
    rw [List.dropWhile_append_of_pos hd]
    cases t <;> simp_all
  unfold number
  rw [hspace]
  simp only [List.cons_append, List.head?_cons, hsign 45 (by decide), hsign 43 (by decide),
    or_self, if_false]
  rw [← List.cons_append, htake, hdrop, if_neg (by simp)]

/-- `strtol(s, nullptr, 10)`. -/
def strtol (s : List UInt8) : ℤ :=
  match number s with
  | none => 0
  | some (v, _) => max (-2 ^ 63) (min v (2 ^ 63 - 1))

/-- What the calls of `strtok(s, c)`, `strtok(nullptr, c)`, ... return before the null pointer. -/
def strtok (c : UInt8) (s : List UInt8) : List (List UInt8) := (s.splitOn c).filter (· ≠ [])

end CStr
