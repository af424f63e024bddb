import SikMimuw.Lib.CString

/-!
# `sscanf`

A format is a list of directives. `sscanf` returns the conversions made before the first
directive that fails; the arguments of the others keep their values. Integers are read as
`strtol` and `strtoul` read them and cut to the width of the argument.

`sscanf_literal` matches a literal text; `sscanf_str`, `sscanf_int` and `sscanf_ushort` read back
a word and a numeral, each up to the byte that ends it.
-/

namespace CStr

inductive Directive
  | char (c : UInt8)
  | space
  | str      -- `%s`
  | int      -- `%d`
  | ushort   -- `%hu`

inductive Conversion
  | str (s : List UInt8)
  | int (v : ℤ)
  | ushort (v : UInt16)
deriving DecidableEq

/-- The value of `strtol` as an `int`. -/
def toInt (v : ℤ) : ℤ := Int.bmod (max (-2 ^ 63) (min v (2 ^ 63 - 1))) (2 ^ 32)

/-- The value of `strtoul` as an `unsigned short`. -/
def toUShort (v : ℤ) : UInt16 := UInt16.ofInt (if v.natAbs < 2 ^ 64 then v else 2 ^ 64 - 1)

def sscanf : List Directive → List UInt8 → List Conversion
  | [], _ => []
  | .char _ :: _, [] => []
  | .char c :: fmt, c' :: s => if c' = c then sscanf fmt s else []
  | .space :: fmt, s => sscanf fmt (s.dropWhile isspace)
  | .str :: fmt, s =>
    let s := s.dropWhile isspace
    if s = [] then []
    else .str (s.takeWhile fun c => ¬ isspace c) :: sscanf fmt (s.dropWhile fun c => ¬ isspace c)
  | .int :: fmt, s =>
    match number s with
    | none => []
    | some (v, s) => .int (toInt v) :: sscanf fmt s
  | .ushort :: fmt, s =>
    match number s with
    | none => []
    | some (v, s) => .ushort (toUShort v) :: sscanf fmt s

/-- The directives of a text without white space and `%`. -/
def literal (s : List UInt8) : List Directive := s.map .char

variable {fmt : List Directive} {s t ds w : List UInt8}

theorem sscanf_literal (s : List UInt8) : sscanf (literal s ++ fmt) (s ++ t) = sscanf fmt t := by
  induction s with
  | nil => rfl
  | cons c s ih => simpa [literal, sscanf] using ih

/-- **A literal text in front**: it is matched, or nothing is converted. -/
theorem sscanf_literal_eq (s t : List UInt8) :
    sscanf (literal s ++ fmt) t = if s <+: t then sscanf fmt (t.drop s.length) else [] := by
  induction s generalizing t with
  | nil => simp [literal]
  | cons c s ih =>
    cases t with
    | nil => simp [literal, sscanf]
    | cons c' t =>
      have hcons : sscanf (literal (c :: s) ++ fmt) (c' :: t) =
          if c' = c then sscanf (literal s ++ fmt) t else [] := rfl
      rw [hcons, ih t]
      by_cases hc : c' = c
      · simp [hc]
      · simp [hc, Ne.symm hc]

/-- A space and a word that white space ends. -/
theorem sscanf_str {c : UInt8} (hne : w ≠ []) (hw : ∀ c ∈ w, isspace c = false) (hc : isspace c) :
    sscanf (.space :: .str :: fmt) (32 :: w ++ c :: t) = .str w :: sscanf fmt (c :: t) := by
  obtain ⟨d, w', rfl⟩ := List.exists_cons_of_ne_nil hne
  have hd : isspace d = false := hw d (by simp)
  have hspace : (32 :: (d :: w') ++ c :: t).dropWhile isspace = d :: w' ++ c :: t := by
    simp [show isspace 32 from rfl, hd]
  have hword : (d :: w' ++ c :: t).dropWhile isspace = d :: w' ++ c :: t := by simp [hd]
  have hnot : ∀ x ∈ d :: w', decide (¬ isspace x) = true := by
    intro x hx
    simp [hw x hx]
  rw [sscanf, hspace, sscanf, hword, if_neg (by simp), takeWhile_append_cons hnot (by simp [hc]),
    dropWhile_append_cons hnot (by simp [hc])]

theorem sscanf_int (hne : ds ≠ []) (hd : ∀ c ∈ ds, isdigit c)
    (ht : ∀ c ∈ t.head?, isdigit c = false) :
    sscanf (.int :: fmt) (ds ++ t) = .int (toInt (value ds)) :: sscanf fmt t := by
  rw [sscanf, number_append hne hd ht]

/-- A space and a numeral. -/
theorem sscanf_ushort (hne : ds ≠ []) (hd : ∀ c ∈ ds, isdigit c)
    (ht : ∀ c ∈ t.head?, isdigit c = false) :
    sscanf (.space :: .ushort :: fmt) (32 :: ds ++ t) =
      .ushort (toUShort (value ds)) :: sscanf fmt t := by
  obtain ⟨d, ds', rfl⟩ := List.exists_cons_of_ne_nil hne
  have hspace : (32 :: (d :: ds') ++ t).dropWhile isspace = d :: ds' ++ t := by
    simp [show isspace 32 from rfl, isspace_of_isdigit (hd d (by simp))]
  rw [sscanf, hspace, sscanf, number_append hne hd ht]

/-- A small number keeps its value. -/
theorem toInt_of_lt {n : ℕ} (h : n < 2 ^ 31) : toInt n = n := by
  have hn : max (-2 ^ 63) (min (n : ℤ) (2 ^ 63 - 1)) = n := by omega
  unfold toInt
  rw [hn]
  exact Int.bmod_eq_of_le (by omega) (by omega)

theorem toUShort_of_lt {n : ℕ} (h : n < 2 ^ 64) : toUShort n = UInt16.ofNat n := by
  unfold toUShort
  rw [if_pos (by simpa using h)]
  apply UInt16.toNat_inj.1
  simp only [UInt16.ofInt, UInt16.toNat_ofNat']
  omega

end CStr
