import SikMimuw.Proof.Lookup

/-!
# The texts that `parse_recv` accepts

`parse_recv` looks at neither `sscanf`'s result. A text that is not a reply is only rejected if the
word behind the keyword has a number out of range in it; of other texts it takes what was in the
arrays, or a number that wrapped round, and looks for a third space that may not come.

* `IsReply.parseRecv` is what it does with a reply, `Misquoted.parseRecv` with a word that is
  rejected, and `Misquoted.of_neg` says that it rejects no other text for sure.
* `parses_iff`: the buffers that are parsed as they should.
-/

namespace SikMimuw.Receiver

open CStr

variable {e : Endian} {inetAton : List UInt8 → Option UInt32} {buffer text a ds name rest : List UInt8}
  {out parsed : Parsed} {temp : List ℤ} {r : ℤ}

/-- The format of line 385. -/
def replyFormat : List Directive := literal reply ++ [.space, .str, .space, .ushort]

/-- **The result for a text**: 0 for a reply, with its port and with an address that `inet_aton`
takes, and the third space inside the text; else -1. -/
inductive Parses (e : Endian) (inetAton : List UInt8 → Option UInt32) (text : List UInt8) :
    ℤ × Parsed → Prop
  | reply {a ds name : List UInt8} {parsed : Parsed} (h : IsReply text a ds name)
      (spaces : 3 ≤ text.tail.count 32) (port : parsed.port.toNat = value ds)
      (address : (parsed.sockaddr e inetAton).isSome) : Parses e inetAton text (0, parsed)
  | other {parsed : Parsed} (h : ∀ a ds name, ¬ IsReply text a ds name) :
      Parses e inetAton text (-1, parsed)

/-- A buffer is parsed as it should, whatever was in the arrays of `recieve_lookup` and in `temp`. -/
def ParsedWell (e : Endian) (inetAton : List UInt8 → Option UInt32) (buffer text : List UInt8) : Prop :=
  ∀ out temp, out.name.length = 65 → out.address.length = 65 → temp.length = 4 →
    ∃ r, parseRecv buffer out temp = some r ∧ Parses e inetAton text r

/-- The word behind the keyword fits the array, and of the numbers read from it one is out of
range. -/
def Misquoted (text : List UInt8) : Prop :=
  ∃ a rest, sscanf replyFormat text = .str a :: rest ∧ a.length ≤ 64 ∧
    ∃ v ∈ scanQuad a [], v < 0 ∨ v > 255

theorem toUShort_eq {n : ℕ} (h : n ≤ 65535) : (UInt16.ofNat n).toNat = n := by
  rw [UInt16.toNat_ofNat', Nat.mod_eq_of_lt (by omega)]

/-- **The conversions of line 385**: none, or a word of the text, with or without a port. -/
theorem sscanf_replyFormat (text : List UInt8) : sscanf replyFormat text = [] ∨
    ∃ a ⊆ text, sscanf replyFormat text = [.str a] ∨
      ∃ p, sscanf replyFormat text = [.str a, .ushort p] := by
  unfold replyFormat
  rw [sscanf_literal_eq]
  split
  · rw [sscanf, sscanf]
    split
    · exact Or.inl rfl
    · refine Or.inr ⟨(((text.drop reply.length).dropWhile isspace).dropWhile isspace).takeWhile
        fun c => ¬ isspace c, ?_, ?_⟩
      · exact fun c hc => List.mem_of_mem_drop (List.dropWhile_subset _ (List.dropWhile_subset _
          (List.takeWhile_subset _ hc)))
      · rw [sscanf, sscanf]
        split
        · exact Or.inl rfl
        · exact Or.inr ⟨_, rfl⟩
  · exact Or.inl rfl

/-- What `scanQuad` reads does not depend on what was in `temp`. -/
theorem mem_scanQuad {v : ℤ} (h : v ∈ scanQuad a []) : v ∈ scanQuad a temp := by
  unfold scanQuad at *
  simp only [List.drop_nil, List.append_nil] at h
  exact List.mem_append_left _ h

/-- With zeros in `temp`, a number out of range was read. -/
theorem of_mem_scanQuad {v : ℤ} (h : v ∈ scanQuad a [0, 0, 0, 0]) (hv : v < 0 ∨ v > 255) :
    v ∈ scanQuad a [] := by
  unfold scanQuad at *
  simp only [List.drop_nil, List.append_nil]
  rcases List.mem_append.1 h with h | h
  · exact h
  · have h0 := List.mem_of_mem_drop h
    simp only [List.mem_cons, List.not_mem_nil, or_false, or_self] at h0
    omega

theorem zero_notMem (h : read buffer = some text) : 0 ∉ text := by
  unfold CStr.read at h
  split at h
  · rw [Option.some.injEq] at h
    subst h
    intro h0
    simpa using List.mem_takeWhile_imp h0
  · cases h

/-- Without a word the arrays stay as they are. -/
theorem scanReply_nil (h : sscanf replyFormat text = []) : scanReply text out = some out := by
  unfold replyFormat at h
  unfold scanReply
  rw [h]

/-- A word is stored if it fits, with or without a port. -/
theorem scanReply_word {convs : List Conversion} (h : sscanf replyFormat text = .str a :: convs)
    (out : Parsed) :
    ∃ port, scanReply text out = if a.length < out.address.length then
      some ⟨out.name, port, a ++ 0 :: out.address.drop (a.length + 1)⟩ else none := by
  rcases sscanf_replyFormat text with h0 | ⟨b, -, hb | ⟨p, hb⟩⟩
  · rw [h] at h0
    cases h0
  · rw [h] at hb
    cases hb
    refine ⟨out.port, ?_⟩
    unfold replyFormat at h
    unfold scanReply store
    rw [h]
    dsimp only
    split <;> rfl
  · rw [h] at hb
    cases hb
    refine ⟨p, ?_⟩
    unfold replyFormat at h
    unfold scanReply store
    rw [h]
    dsimp only
    split <;> rfl

/-- The word is a part of the text, and has no NUL in it. -/
theorem zero_notMem_word {convs : List Conversion} (hread : read buffer = some text)
    (h : sscanf replyFormat text = .str a :: convs) : 0 ∉ a := by
  have hsub : a ⊆ text := by
    rcases sscanf_replyFormat text with h0 | ⟨b, hb, h1 | ⟨p, h1⟩⟩
    · rw [h] at h0
      cases h0
    · rw [h] at h1
      cases h1
      exact hb
    · rw [h] at h1
      cases h1
      exact hb
  exact fun h0 => zero_notMem hread (hsub h0)

/-! ### A text that is rejected -/

theorem Misquoted.parseRecv (h : Misquoted text) (hread : read buffer = some text)
    (haddr : out.address.length = 65) (temp : List ℤ) : ∃ parsed, parseRecv buffer out temp = some (-1, parsed) := by
  obtain ⟨a, convs, hscan, hlen, v, hv, hrange⟩ := h
  obtain ⟨port, hword⟩ := scanReply_word hscan out
  have hany : (scanQuad a temp).any (fun t => t < 0 ∨ t > 255) = true := by
    rw [List.any_eq_true]
    exact ⟨v, mem_scanQuad hv, by simpa using hrange⟩
  unfold Receiver.parseRecv
  rw [if_pos (by omega)] at hword
  simp only [hread, Option.bind_eq_bind, Option.bind_some, hword,
    read_append (zero_notMem_word hread hscan), if_pos hany]
  exact ⟨_, rfl⟩

theorem Misquoted.not_isReply (h : Misquoted text) : ¬ IsReply text a ds name := by
  intro hr
  obtain ⟨b, convs, hscan, -, v, hv, hrange⟩ := h
  have hreply : sscanf replyFormat text = _ := hr.sscanf
  rw [hscan] at hreply
  cases hreply
  have hfour : ([0, 0, 0, 0] : List ℤ).length = 4 := rfl
  have := scanQuad_quad hr.quad hfour v (mem_scanQuad hv)
  omega

/-- A text that is rejected has a number out of range in what `sscanf` sees of the address. -/
theorem parseRecv_neg (hread : read buffer = some text)
    (h : parseRecv buffer out temp = some (-1, parsed)) : ∃ out' s, scanReply text out = some out' ∧
      read out'.address = some s ∧ ∃ v ∈ scanQuad s temp, v < 0 ∨ v > 255 := by
  unfold Receiver.parseRecv at h
  simp only [hread, Option.bind_eq_bind, Option.bind_some, Option.bind_eq_some_iff] at h
  obtain ⟨out', hout, s, hs, h⟩ := h
  split at h
  · rename_i hany
    obtain ⟨v, hv, hr⟩ := List.any_eq_true.1 hany
    exact ⟨out', s, hout, hs, v, hv, by simpa using hr⟩
  · simp only [Option.bind_eq_some_iff] at h
    obtain ⟨p, -, h⟩ := h
    split at h <;> simp_all

/-- **No other text is rejected for sure**: not with zeros in the arrays and in `temp`. -/
theorem Misquoted.of_neg (hread : read buffer = some text)
    (h : Receiver.parseRecv buffer arrays [0, 0, 0, 0] = some (-1, parsed)) : Misquoted text := by
  obtain ⟨out', s, hout, hs, v, hv, hrange⟩ := parseRecv_neg hread h
  rcases sscanf_replyFormat text with h0 | ⟨a, -, hw⟩
  · rw [scanReply_nil h0, Option.some.injEq] at hout
    subst hout
    have hnil : s = [] := by
      have h65 : read arrays.address = some [] := by decide
      rw [h65, Option.some.injEq] at hs
      exact hs.symm
    subst hnil
    have hz := of_mem_scanQuad hv hrange
    have hnone : scanQuad [] [] = [] := by decide
    rw [hnone] at hz
    cases hz
  · obtain ⟨convs, hscan⟩ : ∃ convs, sscanf replyFormat text = .str a :: convs := by
      rcases hw with hw | ⟨p, hw⟩
      · exact ⟨_, hw⟩
      · exact ⟨_, hw⟩
    obtain ⟨port, hword⟩ := scanReply_word hscan arrays
    rw [hword] at hout
    split at hout
    · rename_i hlen
      rw [Option.some.injEq] at hout
      subst hout
      dsimp only at hs
      rw [read_append (zero_notMem_word hread hscan), Option.some.injEq] at hs
      subst hs
      have h65 : arrays.address.length = 65 := by decide
      exact ⟨a, convs, hscan, by omega, v, of_mem_scanQuad hv hrange, hrange⟩
    · cases hout

/-! ### A reply -/

/-- A reply that is taken apart in full: the address fits its array and `inet_aton` takes it, and
the buffer goes on for 45 bytes from the name. -/
def Replies (inetAton : List UInt8 → Option UInt32) (buffer text : List UInt8) : Prop :=
  ∃ a ds name, IsReply text a ds name ∧ a.length ≤ 64 ∧ (inetAton a).isSome ∧
    text.length + 45 ≤ buffer.length + name.length

/-- All three spaces are in the text. -/
theorem three_spaces (h : IsReply text a ds name) : 3 ≤ text.tail.count 32 := by
  have htail : text.tail = bytes "OREWICZ_HERE" ++ 32 :: (a ++ 32 :: (ds ++ 32 :: name)) := by
    rw [h.text_eq]
    rfl
  rw [htail]
  simp only [List.count_append, List.count_cons_self]
  omega

theorem length_of_read (h : read buffer = some text) : ∃ rest, buffer = text ++ 0 :: rest := by
  obtain ⟨rest, hrest⟩ := prefix_of_read h
  exact ⟨rest, by rw [← hrest, List.append_assoc]; rfl⟩

/-- The socket address, if the array holds a string. -/
theorem sockaddr_isSome (h : read parsed.address = some a) :
    (parsed.sockaddr e inetAton).isSome = (inetAton a).isSome := by
  unfold Parsed.sockaddr
  rw [h]
  cases ha : inetAton a <;> simp [ha]

theorem Replies.parses (h : Replies inetAton buffer text) (hread : read buffer = some text)
    (hname : out.name.length = 65) (haddr : out.address.length = 65) (htemp : temp.length = 4) :
    ∃ r, parseRecv buffer out temp = some r ∧ Parses e inetAton text r := by
  obtain ⟨a, ds, name, hr, hlen, haton, hroom⟩ := h
  obtain ⟨rest, rfl⟩ := length_of_read hread
  have hle : 45 ≤ (name ++ 0 :: rest).length := by
    rw [List.length_append, List.length_cons] at *
    omega
  have hp : parseRecv (text ++ 0 :: rest) out temp = _ := hr.parseRecv (zero_notMem hread) htemp
  rw [if_pos ⟨by omega, hle, by omega⟩] at hp
  refine ⟨_, hp, .reply hr (three_spaces hr) ?_ ?_⟩
  · exact toUShort_eq hr.le
  · rw [sockaddr_isSome (read_append (hr.quad.not_mem rfl (by decide)) _)]
    exact haton

/-- **The buffers that are parsed as they should.** -/
theorem parses_iff (e : Endian) (inetAton : List UInt8 → Option UInt32) (buffer text : List UInt8)
    (hread : read buffer = some text) :
    ParsedWell e inetAton buffer text ↔ Replies inetAton buffer text ∨ Misquoted text := by
  constructor
  · intro hall
    obtain ⟨⟨r, parsed⟩, hparse, hp⟩ := hall arrays [0, 0, 0, 0] (by decide) (by decide) rfl
    by_cases hreply : ∃ a ds name, IsReply text a ds name
    · left
      obtain ⟨a, ds, name, hr⟩ := hreply
      obtain ⟨rest, rfl⟩ := length_of_read hread
      rw [hr.parseRecv (zero_notMem hread) rfl] at hparse
      split at hparse
      · rename_i hroom
        have h65 : arrays.address.length = 65 := by decide
        rw [List.length_append, List.length_cons] at hroom
        rw [Option.some.injEq, Prod.mk.injEq] at hparse
        obtain ⟨rfl, rfl⟩ := hparse
        refine ⟨a, ds, name, hr, by omega, ?_, ?_⟩
        · cases hp with
          | reply _ _ _ haddr =>
            rwa [sockaddr_isSome (read_append (hr.quad.not_mem rfl (by decide)) _)] at haddr
        · rw [List.length_append, List.length_cons]
          omega
      · cases hparse
    · right
      cases hp with
      | reply h => exact absurd ⟨_, _, _, h⟩ hreply
      | other _ => exact Misquoted.of_neg hread hparse
  · rintro (h | h) out temp hname haddr htemp
    · exact h.parses hread hname haddr htemp
    · obtain ⟨parsed, hp⟩ := h.parseRecv hread haddr temp
      exact ⟨_, hp, .other fun a ds name => h.not_isReply⟩

/-- The reply of "Radio Seven". -/
theorem parses_iff_seven : ParsedWell .little atonSeven radioSeven
    (station (bytes "Radio Seven")).replay := by
  have hok := replyOk_station (bytes "Radio Seven") (by decide) (by decide)
  refine (parses_iff .little atonSeven _ _ (read_replay hok)).2 (Or.inl ?_)
  exact ⟨_, _, _, hok.isReply, by decide, by decide, by decide⟩

/-- A reply without a name is not rejected, and the scan for the third space leaves it. -/
theorem scan_leaves_text : ¬ ∀ (e : Endian) (inetAton : List UInt8 → Option UInt32)
    (buffer text : List UInt8), read buffer = some text → reply <:+: text →
      ParsedWell e inetAton buffer text := by
  intro h
  have hread := read_append (s := bytes "BOREWICZ_HERE 1.2.3.4 5") (by decide)
    (List.replicate (64 * 1024 - 24) 0)
  obtain ⟨⟨r, parsed⟩, hparse, hp⟩ := h .little (fun _ => some 0) _ _ hread
    ⟨[], bytes " 1.2.3.4 5", rfl⟩ arrays [0, 0, 0, 0] (by decide) (by decide) rfl
  cases hp with
  | reply _ hspaces => exact absurd hspaces (by decide)
  | other _ =>
    obtain ⟨a, convs, hscan, -, v, hv, hrange⟩ := Misquoted.of_neg hread hparse
    have hconvs : sscanf replyFormat (bytes "BOREWICZ_HERE 1.2.3.4 5") =
        [.str (bytes "1.2.3.4"), .ushort 5] := by decide
    rw [hconvs] at hscan
    cases hscan
    have hquad : scanQuad (bytes "1.2.3.4") [] = [1, 2, 3, 4] := by decide
    rw [hquad] at hv
    simp only [List.mem_cons, List.not_mem_nil, or_false] at hv
    omega

end SikMimuw.Receiver
