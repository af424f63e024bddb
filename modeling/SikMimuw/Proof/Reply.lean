import SikMimuw.Model.Ctrl
import SikMimuw.Model.Discovery

/-!
# A station's reply, written by `ctrl_loop` and read by `parse_recv`

The address and the port come back as they were sent. The name does up to 44 characters:
`memcpy(name, p + 1, 45)` copies 45 bytes, and of a longer name it does not copy the NUL.

* `parseRecv_replay`: what `parse_recv` makes of a reply, for every name.
* `roundTrip_iff`: the exact condition. `name_of_45`: a name it loses.
-/

namespace SikMimuw

open CStr Transmitter

variable {params : Parameters} {a rest name address s t : List UInt8} {n : ℕ}

/-- A number of a dotted quad. -/
structure Octet (ds : List UInt8) : Prop where
  ne_nil : ds ≠ []
  digits : ∀ c ∈ ds, isdigit c
  le : value ds ≤ 255

def DottedQuad (a : List UInt8) : Prop :=
  ∃ w x y z, Octet w ∧ Octet x ∧ Octet y ∧ Octet z ∧
    a = w ++ 46 :: (x ++ 46 :: (y ++ 46 :: z))

/-- **The round trip**: whatever was in the out parameters and behind the reply, `parse_recv`
returns 0 and the three values. -/
def RoundTrip (params : Parameters) : Prop :=
  ∀ (rest name address : List UInt8) (port : UInt16) (temp : List ℤ),
    45 ≤ rest.length → name.length = 65 → address.length = 65 → temp.length = 4 →
    ∃ out, Receiver.parseRecv (params.replay ++ 0 :: rest) ⟨name, port, address⟩ temp = some (0, out) ∧
      read out.address = some params.mcastAddr ∧ (out.port.toNat : ℤ) = params.dataPort ∧
      read out.name = some params.nazwa

/-! ### The parts of a reply -/

theorem not_mem_of_digits {ds : List UInt8} {c : UInt8} (h : ∀ c ∈ ds, isdigit c)
    (hc : isdigit c = false) : c ∉ ds := by
  intro hm
  rw [h c hm] at hc
  cases hc

theorem DottedQuad.ne_nil (h : DottedQuad a) : a ≠ [] := by
  obtain ⟨w, x, y, z, -, -, -, -, rfl⟩ := h
  simp

/-- What is neither a digit nor a dot is not in a dotted quad. -/
theorem DottedQuad.not_mem (h : DottedQuad a) {c : UInt8} (hc : isdigit c = false) (hdot : c ≠ 46) :
    c ∉ a := by
  obtain ⟨w, x, y, z, hw, hx, hy, hz, rfl⟩ := h
  simp only [List.mem_append, List.mem_cons, not_or]
  exact ⟨not_mem_of_digits hw.digits hc, hdot, not_mem_of_digits hx.digits hc, hdot,
    not_mem_of_digits hy.digits hc, hdot, not_mem_of_digits hz.digits hc⟩

theorem DottedQuad.isspace (h : DottedQuad a) {c : UInt8} (hc : c ∈ a) : isspace c = false := by
  by_contra hs
  rw [Bool.not_eq_false] at hs
  refine h.not_mem ?_ ?_ hc
  · by_contra hd
    rw [Bool.not_eq_false] at hd
    rw [isspace_of_isdigit hd] at hs
    cases hs
  · rintro rfl
    exact absurd hs (by decide)

/-- One number of a dotted quad is read. -/
theorem sscanf_octet {fmt : List Directive} (h : Octet s) (ht : ∀ c ∈ t.head?, isdigit c = false) :
    sscanf (.int :: fmt) (s ++ t) = .int (value s) :: sscanf fmt t := by
  have hle := h.le
  rw [sscanf_int h.ne_nil h.digits ht, toInt_of_lt (by omega)]

/-- All four numbers are read, and all are in range. -/
theorem scanQuad_quad (h : DottedQuad a) {temp : List ℤ} (ht : temp.length = 4) :
    ∀ t ∈ Receiver.scanQuad a temp, 0 ≤ t ∧ t ≤ 255 := by
  obtain ⟨w, x, y, z, hw, hx, hy, hz, rfl⟩ := h
  have hdot : ∀ s : List UInt8, ∀ c ∈ (46 :: s).head?, isdigit c = false := by
    rintro s c ⟨⟩
    rfl
  have hend : sscanf [.int] z = [.int (value z)] := by
    have hz' : sscanf (.int :: []) (z ++ []) = _ := sscanf_octet hz (by simp)
    rwa [List.append_nil] at hz'
  have hchar : ∀ (fmt : List Directive) (s : List UInt8),
      sscanf (.char 46 :: fmt) (46 :: s) = sscanf fmt s := fun fmt s => by simp [sscanf]
  have hvs : Receiver.scanQuad (w ++ 46 :: (x ++ 46 :: (y ++ 46 :: z))) temp =
      [(value w : ℤ), (value x : ℤ), (value y : ℤ), (value z : ℤ)] := by
    unfold Receiver.scanQuad
    rw [sscanf_octet hw (hdot _), hchar, sscanf_octet hx (hdot _), hchar, sscanf_octet hy (hdot _),
      hchar, hend]
    simp [ht]
  intro v hv
  have hw' := hw.le
  have hx' := hx.le
  have hy' := hy.le
  have hz' := hz.le
  rw [hvs] at hv
  simp only [List.mem_cons, List.not_mem_nil, or_false] at hv
  omega

/-- One space more. -/
theorem skipSpaces_append {k : ℕ} (h : 32 ∉ s) :
    Receiver.skipSpaces (k + 1) (s ++ 32 :: t) = Receiver.skipSpaces k t := by
  induction s with
  | nil => simp [Receiver.skipSpaces]
  | cons c s ih =>
    rw [List.mem_cons, not_or] at h
    rw [List.cons_append, Receiver.skipSpaces, if_neg (Ne.symm h.1), ih h.2]

/-! ### The whole reply -/

/-- **A reply**: `BOREWICZ_HERE <a> <ds> <name>` with a dotted quad and the numeral of a port. -/
structure IsReply (text a ds name : List UInt8) : Prop where
  text_eq : text = reply ++ (32 :: a ++ 32 :: (ds ++ 32 :: name))
  quad : DottedQuad a
  ne_nil : ds ≠ []
  digits : ∀ c ∈ ds, isdigit c
  le : value ds ≤ 65535

/-- What `sscanf` reads in it. -/
theorem IsReply.sscanf {ds : List UInt8} (h : IsReply text a ds name) :
    sscanf (literal Receiver.reply ++ [.space, .str, .space, .ushort]) text =
      [.str a, .ushort (UInt16.ofNat (value ds))] := by
  have hle := h.le
  rw [h.text_eq, show reply = Receiver.reply from rfl, sscanf_literal,
    sscanf_str h.quad.ne_nil (fun c hc => h.quad.isspace hc) rfl, ← List.cons_append,
    sscanf_ushort h.ne_nil h.digits, toUShort_of_lt (by omega), CStr.sscanf]
  rintro c ⟨⟩
  rfl

/-- The address and the port, if the address fits its array. -/
theorem IsReply.scanReply {ds : List UInt8} (h : IsReply text a ds name) (out : Receiver.Parsed) :
    Receiver.scanReply text out = if a.length < out.address.length then
      some ⟨out.name, UInt16.ofNat (value ds), a ++ 0 :: out.address.drop (a.length + 1)⟩
      else none := by
  unfold Receiver.scanReply Receiver.store
  rw [h.sscanf]
  dsimp only
  split <;> rfl

/-- The third space is the one before the name. -/
theorem IsReply.skipSpaces {ds : List UInt8} (h : IsReply text a ds name) (t : List UInt8) :
    Receiver.skipSpaces 3 (text ++ t).tail = some (name ++ t) := by
  have htail : (text ++ t).tail =
      bytes "OREWICZ_HERE" ++ 32 :: (a ++ 32 :: (ds ++ 32 :: (name ++ t))) := by
    rw [h.text_eq]
    show bytes "OREWICZ_HERE" ++ (32 :: a ++ 32 :: (ds ++ 32 :: name)) ++ t = _
    simp
  rw [htail, skipSpaces_append (by decide), skipSpaces_append (h.quad.not_mem rfl (by decide)),
    skipSpaces_append (not_mem_of_digits h.digits rfl), Receiver.skipSpaces]

/-- **`parse_recv` of a reply**: the address, the port, and 45 bytes from the name on, if there is
room for them. -/
theorem IsReply.parseRecv {ds : List UInt8} {out : Receiver.Parsed} (h : IsReply text a ds name)
    (hnul : 0 ∉ text) {temp : List ℤ} (ht : temp.length = 4) :
    Receiver.parseRecv (text ++ 0 :: rest) out temp =
      if a.length < out.address.length ∧ 45 ≤ (name ++ 0 :: rest).length ∧ 45 ≤ out.name.length then
        some (0, ⟨(name ++ 0 :: rest).take 45 ++ out.name.drop 45, UInt16.ofNat (value ds),
          a ++ 0 :: out.address.drop (a.length + 1)⟩)
      else none := by
  have hread := read_append (h.quad.not_mem (c := 0) rfl (by decide))
    (out.address.drop (a.length + 1))
  have hrange : ¬ (Receiver.scanQuad a temp).any fun t => t < 0 ∨ t > 255 := by
    simp only [List.any_eq_true, decide_eq_true_eq, not_exists, not_and]
    intro t ht'
    have hr := scanQuad_quad h.quad ht t ht'
    omega
  unfold Receiver.parseRecv
  simp only [read_append hnul, Option.bind_eq_bind, Option.bind_some, h.scanReply]
  by_cases hstore : a.length < out.address.length
  · simp only [if_pos hstore, Option.bind_some, hread, if_neg hrange, h.skipSpaces]
    by_cases hroom : 45 ≤ (name ++ 0 :: rest).length ∧ 45 ≤ out.name.length
    · rw [if_neg (by omega), if_pos ⟨hstore, hroom⟩]
      rfl
    · rw [if_pos (by omega), if_neg fun hc => hroom hc.2]
      rfl
  · simp [hstore]

/-- An address in the dotted notation that fits `MCAST_ADDR`, a port,
and a name without NUL that `-n` accepts. -/
structure ReplyOk (params : Parameters) (n : ℕ) : Prop where
  quad : DottedQuad params.mcastAddr
  addrLe : params.mcastAddr.length ≤ 63
  port : params.dataPort = n
  portLe : n ≤ 65535
  nul : 0 ∉ params.nazwa
  nameLe : params.nazwa.length ≤ 64

theorem replay_append (h : params.dataPort = n) (t : List UInt8) : params.replay ++ t =
    reply ++ (32 :: params.mcastAddr ++ 32 :: (decimal n ++ 32 :: (params.nazwa ++ t))) := by
  have hl : long params.dataPort = decimal n := by rw [h]; rfl
  unfold Parameters.replay
  simp [hl]

theorem ReplyOk.isReply (h : ReplyOk params n) :
    IsReply params.replay params.mcastAddr (decimal n) params.nazwa where
  text_eq := by rw [← List.append_nil params.replay, replay_append h.port, List.append_nil]
  quad := h.quad
  ne_nil := decimal_ne_nil n
  digits _ := isdigit_of_mem_decimal
  le := by rw [value_decimal]; exact h.portLe

theorem ReplyOk.notMem (h : ReplyOk params n) : 0 ∉ params.replay := by
  rw [h.isReply.text_eq]
  simp only [List.cons_append, List.mem_append, List.mem_cons, not_or]
  refine ⟨by decide, by decide, h.quad.not_mem rfl (by decide), by decide, ?_, by decide, h.nul⟩
  exact not_mem_of_digits (fun c => isdigit_of_mem_decimal) rfl

/-- The string that `sscanf` reads. -/
theorem read_replay (h : ReplyOk params n) :
    read (params.replay ++ 0 :: rest) = some params.replay := read_append h.notMem rest

/-- **`parse_recv` of a station's reply.** -/
theorem parseRecv_replay (h : ReplyOk params n) (hrest : 45 ≤ rest.length)
    (hname : name.length = 65) (haddr : address.length = 65) {temp : List ℤ} (ht : temp.length = 4)
    (port : UInt16) :
    Receiver.parseRecv (params.replay ++ 0 :: rest) ⟨name, port, address⟩ temp =
      some (0, ⟨(params.nazwa ++ 0 :: rest).take 45 ++ name.drop 45, UInt16.ofNat n,
        params.mcastAddr ++ 0 :: address.drop (params.mcastAddr.length + 1)⟩) := by
  have hle := h.addrLe
  rw [h.isReply.parseRecv h.notMem ht, if_pos, value_decimal]
  rw [List.length_append, List.length_cons]
  simp only
  omega

/-- Of a longer name no NUL is copied, and what was in the array decides where it ends. -/
theorem name_lost (h : ReplyOk params n) (hlong : 45 ≤ params.nazwa.length) : ¬ RoundTrip params := by
  intro hr
  obtain ⟨out, hp, -, -, hname⟩ := hr (List.replicate 45 0) (List.replicate 65 1)
    (List.replicate 65 0) 0 [0, 0, 0, 0] (by simp) (by simp) (by simp) rfl
  rw [parseRecv_replay h (by simp) (by simp) (by simp) rfl, Option.some.injEq, Prod.mk.injEq] at hp
  obtain ⟨-, rfl⟩ := hp
  -- the array was full of ones, so the NUL would have to be a byte of the name
  have hmem := (prefix_of_read hname).subset (List.mem_append_right _ (List.mem_singleton_self 0))
  rw [List.take_append_of_le_length hlong, List.mem_append] at hmem
  rcases hmem with hm | hm
  · exact h.nul (List.mem_of_mem_take hm)
  · exact absurd hm (by decide)

/-- **The round trip** works for every content of the memory around it exactly if the name has at
most 44 characters. -/
theorem roundTrip_iff (params : Parameters) (n : ℕ) (h : ReplyOk params n) :
    RoundTrip params ↔ params.nazwa.length ≤ 44 := by
  constructor
  · intro hr
    by_contra hlong
    exact name_lost h (by omega) hr
  · intro hshort rest name address port temp hrest hname haddr ht
    refine ⟨_, parseRecv_replay h hrest hname haddr ht port, ?_, ?_, ?_⟩
    · exact read_append (h.quad.not_mem rfl (by decide)) _
    · have hport := h.portLe
      rw [h.port, UInt16.toNat_ofNat', Nat.mod_eq_of_lt (by omega)]
    -- the NUL behind the name is among the 45 bytes
    · have htake : (params.nazwa ++ 0 :: rest).take 45 =
          params.nazwa ++ 0 :: rest.take (44 - params.nazwa.length) := by
        rw [List.take_append, List.take_of_length_le (by omega),
          show 45 - params.nazwa.length = 44 - params.nazwa.length + 1 by omega, List.take_succ_cons]
      rw [htake, List.append_assoc, List.cons_append]
      exact read_append h.nul _

theorem octet_decimal (hn : n ≤ 255) : Octet (decimal n) :=
  ⟨decimal_ne_nil n, fun _ => isdigit_of_mem_decimal, by rwa [value_decimal]⟩

/-- A station at 239.10.11.12, port 26851. -/
def station (nazwa : List UInt8) : Parameters := ⟨bytes "239.10.11.12", 26851, 512, 131072, nazwa⟩

theorem replyOk_station (nazwa : List UInt8) (hnul : 0 ∉ nazwa) (hle : nazwa.length ≤ 64) :
    ReplyOk (station nazwa) 26851 where
  quad := ⟨decimal 239, decimal 10, decimal 11, decimal 12, octet_decimal (by decide),
    octet_decimal (by decide), octet_decimal (by decide), octet_decimal (by decide),
    show bytes "239.10.11.12" = _ by decide⟩
  addrLe := show (bytes "239.10.11.12").length ≤ 63 by decide
  port := rfl
  portLe := by decide
  nul := hnul
  nameLe := hle

/-- A name with a space in it. -/
theorem roundTrip_radio_seven : RoundTrip (station (bytes "Radio Seven")) :=
  (roundTrip_iff _ 26851 (replyOk_station _ (by decide) (by decide))).2 (by decide)

/-- A name of 45 characters. -/
theorem name_of_45 : ¬ ∀ (params : Parameters) (n : ℕ), ReplyOk params n → RoundTrip params := by
  intro h
  have hok := replyOk_station (List.replicate 45 97) (by decide) (by decide)
  exact name_lost hok (by decide) (h _ _ hok)

end SikMimuw
