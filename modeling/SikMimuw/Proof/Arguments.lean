import SikMimuw.Model.Arguments

/-!
# Accepted sender parameters

`strtol` takes a text with a numeral in front, or with none, and cuts what is too large, and the
sign test lets zero pass. So a command line that is not rejected gives usable parameters only if
its numeric texts are numerals that fit and the last `-p` is not zero (`usable_iff`).
-/

namespace SikMimuw.Arguments

open CStr Getopt

variable {s s' : Parsing} {founds : List (Found Letter)} {l k : Letter} {text : List UInt8}
  {params : Parameters} {posix : Bool} {args : List (List UInt8)}

/-- The options that take a number. -/
def Letter.Numeric (l : Letter) : Prop := l ≠ .a ∧ l ≠ .d ∧ l ≠ .n

/-- The options that take an address. -/
def Letter.Address (l : Letter) : Prop := l = .a ∨ l = .d

/-- The field of a numeric option. -/
def Parameters.number (params : Parameters) : Letter → ℤ
  | .C => params.ctrlPort
  | .U => params.uiPort
  | .p => params.psize
  | .b => params.bsize
  | .f => params.fsize
  | .R => params.rtime
  | .a | .d | .n => 0

/-- A decimal numeral, and nothing else. -/
def IsNumeral (text : List UInt8) : Prop := text ≠ [] ∧ ∀ c ∈ text, isdigit c

instance (text : List UInt8) : Decidable (IsNumeral text) :=
  have : Decidable (∀ c ∈ text, isdigit c) := List.decidableBAll _ _
  inferInstanceAs (Decidable (_ ∧ _))

/-- **Usable parameters**: every numeric text is a numeral, the numbers stored are those that
stand last, the capacity of the queue is defined, `audio_data` has a positive length and `read` is
asked for as many bytes, and `audio_buffer` has room for the two numbers and a packet. -/
structure Usable (founds : List (Found Letter)) (params : Parameters) : Prop where
  numeral : ∀ l text, l.Numeric → .option l text ∈ founds → IsNumeral text
  stored : ∀ l text, l.Numeric → lastText l founds = some text → params.number l = value text
  psize : 1 ≤ params.psize
  capacity : (maxCount params).isSome
  read : (readSize params).toNat = params.psize
  buffer : (audioBufferSize params).toNat = params.psize + 16

/-- A command line that is accepted: it does not end in `syserr`. -/
def Accepted (posix : Bool) (args : List (List UInt8)) : Prop :=
  ∀ msg, parseArgumentsTransmiter posix args ≠ .error (.syserr msg)

/-- **What accepted texts must be like.** -/
structure Sound (founds : List (Found Letter)) : Prop where
  address : ∀ l text, l.Address → .option l text ∈ founds → text.length < 64
  numeral : ∀ l text, l.Numeric → .option l text ∈ founds → IsNumeral text
  fits : ∀ l text, l.Numeric → lastText l founds = some text → value text < 2 ^ 63
  psize : ∀ text, lastText .p founds = some text → value text ≠ 0

theorem strtol_numeral (h : IsNumeral text) : strtol text = min (value text) (2 ^ 63 - 1) := by
  have hn := number_append (t := []) h.1 h.2 (by simp)
  rw [List.append_nil] at hn
  unfold strtol
  rw [hn]
  dsimp only
  omega

theorem strtol_le (text : List UInt8) : strtol text ≤ 2 ^ 63 - 1 := by
  unfold strtol
  split <;> omega

theorem bind_ok {α β : Type} {x : Except Failure α} {f : α → Except Failure β} {r : β}
    (h : x >>= f = .ok r) : ∃ a, x = .ok a ∧ f a = .ok r := by
  cases x with
  | error e => cases h
  | ok a => exact ⟨a, rfl, h⟩

theorem strcpy_ok {size : ℕ} {t : List UInt8} (h : strcpy size text = .ok t) : text.length < size := by
  unfold strcpy at h
  split at h
  · assumption
  · cases h

theorem convertPort_ok {v : ℤ} (h : convertPort text = .ok v) : v = strtol text := by
  unfold convertPort syserr at h
  dsimp only at h
  split_ifs at h
  exact (Except.ok.inj h).symm

theorem convertNumber_ok {v : ℤ} (h : convertNumber text = .ok v) : v = strtol text := by
  unfold convertNumber syserr at h
  dsimp only at h
  split_ifs at h
  exact (Except.ok.inj h).symm

/-- An address that passes fits its array. -/
theorem handle_address (h : s.handle (.option l text) = .ok s') (hl : l.Address) :
    text.length < 64 := by
  rcases hl with rfl | rfl
  · obtain ⟨t, ht, -⟩ := bind_ok h
    exact strcpy_ok ht
  · obtain ⟨t, ht, -⟩ := bind_ok h
    exact strcpy_ok ht

/-- **One option that passes**: the field of a numeric option gets the value of `strtol`. -/
theorem handle_number (h : s.handle (.option l text) = .ok s') (hk : k.Numeric) :
    s'.params.number k = if l = k then strtol text else s.params.number k := by
  cases l with
  | a =>
    obtain ⟨t, -, hs⟩ := bind_ok h
    rw [← Except.ok.inj hs, if_neg hk.1.symm]
    cases k <;> rfl
  | d =>
    obtain ⟨t, -, hs⟩ := bind_ok h
    rw [← Except.ok.inj hs, if_neg hk.2.1.symm]
    cases k <;> rfl
  | n =>
    simp only [Parsing.handle, syserr] at h
    split at h
    · cases h
    · obtain ⟨t, -, hs⟩ := bind_ok h
      rw [← Except.ok.inj hs, if_neg hk.2.2.symm]
      cases k <;> rfl
  | C | U =>
    obtain ⟨v, hv, hs⟩ := bind_ok h
    rw [← Except.ok.inj hs, convertPort_ok hv]
    cases k <;> rfl
  | p | b | f | R =>
    obtain ⟨v, hv, hs⟩ := bind_ok h
    rw [← Except.ok.inj hs, convertNumber_ok hv]
    cases k <;> rfl

/-- Nothing is written past the end of an array. -/
def Safe {α : Type} (x : Except Failure α) : Prop := x ≠ .error .overrun

theorem safe_ok {α : Type} (a : α) : Safe (.ok a) := by
  intro h
  cases h

theorem safe_syserr {α : Type} (msg : List UInt8) : Safe (syserr msg : Except Failure α) := by
  intro h
  cases h

theorem Safe.bind {α β : Type} {x : Except Failure α} {f : α → Except Failure β} (hx : Safe x)
    (hf : ∀ a, Safe (f a)) : Safe (x >>= f) := by
  cases x with
  | error e =>
    intro h
    cases h
    exact hx rfl
  | ok a => exact hf a

theorem safe_strcpy {size : ℕ} (h : text.length < size) : Safe (strcpy size text) := by
  unfold strcpy
  rw [if_pos h]
  exact safe_ok _

theorem safe_convertPort (optarg : List UInt8) : Safe (convertPort optarg) := by
  unfold convertPort
  dsimp only
  split_ifs
  · exact safe_syserr _
  · exact safe_syserr _
  · exact safe_ok _

theorem safe_convertNumber (optarg : List UInt8) : Safe (convertNumber optarg) := by
  unfold convertNumber
  dsimp only
  split_ifs
  · exact safe_syserr _
  · exact safe_ok _

/-- **Only an address can be too long**: a name is looked at first. -/
theorem safe_handle {found : Found Letter}
    (h : ∀ l text, l.Address → found = .option l text → text.length < 64) : Safe (s.handle found) := by
  cases found with
  | option l text =>
    cases l with
    | a => exact (safe_strcpy (h .a text (Or.inl rfl) rfl)).bind fun _ => safe_ok _
    | d => exact (safe_strcpy (h .d text (Or.inr rfl) rfl)).bind fun _ => safe_ok _
    | C | U => exact (safe_convertPort text).bind fun _ => safe_ok _
    | p | b | f | R => exact (safe_convertNumber text).bind fun _ => safe_ok _
    | n =>
      rw [Parsing.handle]
      split
      · exact safe_syserr _
      · exact (safe_strcpy (by omega)).bind fun _ => safe_ok _
  | unknown c =>
    rw [Parsing.handle]
    split
    · exact safe_syserr _
    · exact safe_syserr _
  | missing c => exact safe_syserr _

/-! ### The whole command line -/

theorem safe_foldlM (h : ∀ l text, l.Address → .option l text ∈ founds → text.length < 64) :
    Safe (founds.foldlM Parsing.handle s) := by
  induction founds generalizing s with
  | nil => exact safe_ok s
  | cons found founds ih =>
    rw [List.foldlM_cons]
    apply Safe.bind
    · apply safe_handle
      rintro l text hl rfl
      exact h l text hl (by simp)
    · intro t
      exact ih fun l text hl hm => h l text hl (by simp [hm])

/-- All addresses fit when all options pass. -/
theorem foldlM_address (h : founds.foldlM Parsing.handle s = .ok s') :
    ∀ l text, l.Address → .option l text ∈ founds → text.length < 64 := by
  induction founds generalizing s with
  | nil => simp
  | cons found founds ih =>
    intro l text hl hm
    rw [List.foldlM_cons] at h
    obtain ⟨t, ht, hrest⟩ := bind_ok h
    rcases List.mem_cons.1 hm with rfl | hm
    · exact handle_address ht hl
    · exact ih hrest l text hl hm

/-- **The numbers stored** are those of the last texts. -/
theorem foldlM_number (h : founds.foldlM Parsing.handle s = .ok s') (hk : k.Numeric) :
    s'.params.number k = ((lastText k founds).map strtol).getD (s.params.number k) := by
  induction founds generalizing s with
  | nil =>
    cases h
    rfl
  | cons found founds ih =>
    rw [List.foldlM_cons] at h
    obtain ⟨t, ht, hrest⟩ := bind_ok h
    rw [ih hrest]
    cases found with
    | option l text =>
      rw [lastText, handle_number ht hk]
      cases lastText k founds with
      | some t => rfl
      | none => by_cases hl : l = k <;> simp [hl]
    | unknown c =>
      rw [Parsing.handle] at ht
      split at ht <;> cases ht
    | missing c => cases ht

/-- The parameters of a command line that passes. -/
theorem parse_ok (h : parseArgumentsTransmiter posix args = .ok params) : ∃ s' : Parsing,
    (getopt posix Letter.ofChar args).foldlM Parsing.handle ⟨defaullParams, false⟩ = .ok s' ∧
      s'.params = params := by
  obtain ⟨s', hs, hp⟩ := bind_ok h
  refine ⟨s', hs, ?_⟩
  split at hp
  · cases hp
  · exact Except.ok.inj hp

theorem numeric_p : Letter.Numeric .p := ⟨by decide, by decide, by decide⟩

/-- **Usable parameters** come from texts that are as they must be. -/
theorem Usable.sound (hparse : parseArgumentsTransmiter posix args = .ok params)
    (husable : Usable (getopt posix Letter.ofChar args) params) :
    Sound (getopt posix Letter.ofChar args) := by
  obtain ⟨s', hfold, rfl⟩ := parse_ok hparse
  have hfits : ∀ l text, l.Numeric → lastText l (getopt posix Letter.ofChar args) = some text →
      value text < 2 ^ 63 := by
    intro l text hl hlast
    have hstored := husable.stored l text hl hlast
    rw [foldlM_number hfold hl, hlast] at hstored
    have hle := strtol_le text
    change strtol text = _ at hstored
    omega
  refine ⟨foldlM_address hfold, husable.numeral, hfits, fun text hlast => ?_⟩
  have hstored := husable.stored .p text numeric_p hlast
  have hpsize := husable.psize
  change s'.params.psize = _ at hstored
  omega

/-- A command line with such texts is parsed, unless it ends in `syserr`. -/
theorem Sound.parses (hsound : Sound (getopt posix Letter.ofChar args)) (hacc : Accepted posix args) :
    ∃ params, parseArgumentsTransmiter posix args = .ok params := by
  have hsafe : Safe (parseArgumentsTransmiter posix args) := by
    apply (safe_foldlM hsound.address).bind
    intro t
    split
    · exact safe_syserr _
    · exact safe_ok _
  cases hparse : parseArgumentsTransmiter posix args with
  | ok params => exact ⟨params, rfl⟩
  | error e =>
    cases e with
    | syserr msg => exact absurd hparse (hacc msg)
    | overrun => exact absurd hparse hsafe

/-- The number stored is that of the text. -/
theorem Sound.stored (hsound : Sound (getopt posix Letter.ofChar args))
    (hparse : parseArgumentsTransmiter posix args = .ok params) {l : Letter} (hl : l.Numeric)
    (hlast : lastText l (getopt posix Letter.ofChar args) = some text) :
    params.number l = value text := by
  obtain ⟨s', hfold, rfl⟩ := parse_ok hparse
  have hfit := hsound.fits l text hl hlast
  rw [foldlM_number hfold hl, hlast]
  change strtol text = _
  rw [strtol_numeral (hsound.numeral l text hl (mem_of_lastText hlast))]
  omega

/-- The packet size is a positive number of 64 bits, given or not. -/
theorem Sound.psize_pos (hsound : Sound (getopt posix Letter.ofChar args))
    (hparse : parseArgumentsTransmiter posix args = .ok params) :
    1 ≤ params.psize ∧ params.psize < 2 ^ 63 := by
  cases hlast : lastText .p (getopt posix Letter.ofChar args) with
  | none =>
    obtain ⟨s', hfold, rfl⟩ := parse_ok hparse
    have hn := foldlM_number hfold numeric_p
    rw [hlast] at hn
    change s'.params.psize = 512 at hn
    omega
  | some text =>
    have hn := hsound.stored hparse numeric_p hlast
    have hfit := hsound.fits .p text numeric_p hlast
    have hne := hsound.psize text hlast
    change params.psize = _ at hn
    omega

/-- A size of 63 bits is not cut by the conversion. -/
theorem toNat_readSize (h : 1 ≤ params.psize ∧ params.psize < 2 ^ 63) :
    (readSize params).toNat = params.psize := by
  simp only [readSize, UInt64.ofInt, UInt64.toNat_ofNat']
  omega

/-- Nor by the header. -/
theorem toNat_audioBufferSize (h : 1 ≤ params.psize ∧ params.psize < 2 ^ 63) :
    (audioBufferSize params).toNat = params.psize + 16 := by
  have hread := toNat_readSize h
  have hsum : (audioBufferSize params).toNat = ((readSize params).toNat + 16) % 2 ^ 64 := rfl
  omega

/-- The division of `main` has a quotient. -/
theorem maxCount_isSome (h : 1 ≤ params.psize ∧ params.psize < 2 ^ 63) : (maxCount params).isSome := by
  have hne : UInt64.ofInt params.psize ≠ 0 := by
    intro h0
    have hz : (readSize params).toNat = 0 := congrArg UInt64.toNat h0
    have hread := toNat_readSize h
    omega
  unfold maxCount
  rw [if_neg hne]
  rfl

/-- **When an accepted command line gives usable parameters.** -/
theorem usable_iff (posix : Bool) (args : List (List UInt8)) (hacc : Accepted posix args) :
    (∃ params, parseArgumentsTransmiter posix args = .ok params ∧
      Usable (getopt posix Letter.ofChar args) params) ↔ Sound (getopt posix Letter.ofChar args) := by
  constructor
  · rintro ⟨params, hparse, husable⟩
    exact husable.sound hparse
  · intro hsound
    obtain ⟨params, hparse⟩ := hsound.parses hacc
    have hpsize := hsound.psize_pos hparse
    exact ⟨params, hparse, hsound.numeral, fun l text hl => hsound.stored hparse hl, hpsize.1,
      maxCount_isSome hpsize, toNat_readSize hpsize, toNat_audioBufferSize hpsize⟩

theorem accepted_of_isOk (h : (parseArgumentsTransmiter posix args).isOk = true) :
    Accepted posix args := by
  intro msg hmsg
  rw [hmsg] at h
  cases h

/-- A sender with packets of 1024 bytes. -/
theorem usable_iff_1024 : ∃ params, parseArgumentsTransmiter false
    [bytes "-a", bytes "239.10.11.12", bytes "-p1024"] = .ok params ∧
      Usable (getopt false Letter.ofChar [bytes "-a", bytes "239.10.11.12", bytes "-p1024"]) params := by
  have hfounds : getopt false Letter.ofChar [bytes "-a", bytes "239.10.11.12", bytes "-p1024"] =
      [.option .a (bytes "239.10.11.12"), .option .p (bytes "1024")] := by decide
  refine (usable_iff false _ (accepted_of_isOk (by decide))).2 ?_
  rw [hfounds]
  have hlast : ∀ l text, l.Numeric → lastText l [.option Letter.a (bytes "239.10.11.12"),
      .option .p (bytes "1024")] = some text → text = bytes "1024" := by
    intro l text hl h
    have hm := mem_of_lastText h
    simp only [List.mem_cons, List.not_mem_nil, or_false, Found.option.injEq] at hm
    rcases hm with ⟨rfl, -⟩ | ⟨-, rfl⟩
    · exact absurd rfl hl.1
    · rfl
  refine ⟨?_, ?_, fun l text hl h => ?_, fun text h => ?_⟩
  · intro l text _ hm
    simp only [List.mem_cons, List.not_mem_nil, or_false, Found.option.injEq] at hm
    rcases hm with ⟨-, rfl⟩ | ⟨-, rfl⟩ <;> decide
  · intro l text hl hm
    simp only [List.mem_cons, List.not_mem_nil, or_false, Found.option.injEq] at hm
    rcases hm with ⟨rfl, -⟩ | ⟨-, rfl⟩
    · exact absurd rfl hl.1
    · decide
  · rw [hlast l text hl h]
    decide
  · rw [hlast .p text ⟨by decide, by decide, by decide⟩ h]
    decide

/-- `-p 0` is accepted, and the capacity divides by zero. -/
theorem zero_psize : ¬ ∀ posix args, Accepted posix args →
    ∃ params, parseArgumentsTransmiter posix args = .ok params ∧
      Usable (getopt posix Letter.ofChar args) params := by
  intro h
  obtain ⟨params, hp, hu⟩ := h false [bytes "-a", bytes "239.10.11.12", bytes "-p", bytes "0"]
    (accepted_of_isOk (by decide))
  have hz : parseArgumentsTransmiter false [bytes "-a", bytes "239.10.11.12", bytes "-p", bytes "0"] =
      .ok { defaullParams with mcastAddr := bytes "239.10.11.12", psize := 0 } := by decide
  rw [hz] at hp
  cases hp
  exact absurd hu.psize (by decide)

end SikMimuw.Arguments
