import SikMimuw.Lib.Framing
import SikMimuw.Model.Nums
import SikMimuw.Proof.Ping

/-!
# The numbers that arrive

The server is a framer of structures (`Frames`). So it prints the numbers of a client in order, with
their places, however the stream was cut into reads and whatever the byte orders of the hosts are; what
has come of a structure when a connection ends does not get into the next one (`numbers_ok`).
-/

namespace SikMimuw.Nums

open Endian Ping

variable {e e' : Endian} {s t : Server} {printed : List (UInt16 × UInt32)} {bytes stream : List UInt8}
  {pieces : List (List UInt8)} {numbers : List Int32} {f : Framer UInt8 sizeofData}

/-- What is printed for a structure. -/
def decode (e : Endian) (mem : List UInt8) : UInt16 × UInt32 :=
  (ntohs e (DataStructure.ofBytes e mem).seqNo, ntohl e (DataStructure.ofBytes e mem).number)

/-- **The server is a framer.** -/
structure Frames (e : Endian) (printed : List (UInt16 × UInt32)) (s : Server)
    (f : Framer UInt8 sizeofData) : Prop where
  prevLen : s.prevLen = f.part.length
  part : s.dataRead.take s.prevLen = f.part
  length : s.dataRead.length = sizeofData
  printed : s.printed = printed ++ f.records.map (decode e)

theorem Frames.read (h : Frames e printed s f) (hle : f.part.length + bytes.length ≤ sizeofData) :
    Frames e printed (s.read e bytes) (f.feed bytes hle) := by
  have hlen : (f.part ++ bytes).length = s.prevLen + bytes.length := by
    rw [List.length_append, h.prevLen]
  have hlength : (f.part ++ bytes ++ s.dataRead.drop (s.prevLen + bytes.length)).length = sizeofData := by
    rw [List.length_append, hlen, List.length_drop, h.length, h.prevLen]
    omega
  unfold Server.read Framer.feed
  dsimp only
  rw [h.part]
  by_cases hfull : f.part.length + bytes.length = sizeofData
  · have hdrop : s.dataRead.drop (s.prevLen + bytes.length) = [] := by
      apply List.drop_eq_nil_of_le
      rw [h.length, h.prevLen]
      omega
    rw [if_pos (by rw [h.prevLen]; exact hfull), dif_pos hfull]
    refine ⟨rfl, rfl, hlength, ?_⟩
    dsimp only
    rw [hdrop, List.append_nil, h.printed, List.map_append, List.append_assoc]
    rfl
  · rw [if_neg (by rw [h.prevLen]; exact hfull), dif_neg hfull]
    exact ⟨hlen.symm, List.take_left' hlen, hlength, h.printed⟩

/-- **A connection.** -/
theorem Frames.reads : ∀ {reads : List (List UInt8)} {s : Server} {f : Framer UInt8 sizeofData},
    Frames e printed s f → Server.reads e reads s = some t →
      ∃ g, Frames e printed t g ∧ g.content = f.content ++ reads.flatten := by
  intro reads
  induction reads with
  | nil =>
    intro s f h ht
    obtain rfl := Option.some.inj ht
    exact ⟨f, h, by simp⟩
  | cons bytes reads ih =>
    intro s f h ht
    rw [Server.reads] at ht
    split at ht
    case isFalse => cases ht
    rename_i hread
    have hshort := f.short
    have hle : f.part.length + bytes.length ≤ sizeofData := by
      have hrest := hread.2
      rw [h.prevLen] at hrest
      omega
    obtain ⟨g, hg, hcontent⟩ := ih (h.read hle) ht
    refine ⟨g, hg, ?_⟩
    rw [hcontent, f.content_feed, List.flatten_cons, List.append_assoc]

/-! ### What is sent -/

/-- The structures of a client. -/
def structures (e : Endian) (seqNo : ℕ) (numbers : List Int32) : List (List UInt8) :=
  (numbers.zipIdx seqNo).map fun p =>
    DataStructure.bytes e ⟨htons e (UInt16.ofNat p.2), htonl e p.1.toUInt32⟩

theorem length_structures {seqNo : ℕ} : ∀ r ∈ structures e seqNo numbers, r.length = sizeofData := by
  intro r hr
  obtain ⟨p, -, rfl⟩ := List.mem_map.1 hr
  rw [DataStructure.bytes, List.length_append, length_store, length_store]
  rfl

theorem send_eq : ∀ {numbers : List Int32} {seqNo : ℕ} {stream : List UInt8},
    send e seqNo numbers = some stream → stream = (structures e seqNo numbers).flatten := by
  intro numbers
  induction numbers with
  | nil =>
    intro seqNo stream h
    exact (Option.some.inj h).symm
  | cons number numbers ih =>
    intro seqNo stream h
    rw [send] at h
    split at h
    case isFalse => cases h
    obtain ⟨rest, hrest, rfl⟩ := Option.map_eq_some_iff.1 h
    rw [ih hrest]
    rfl

theorem ntohl_load (e : Endian) (x : UInt32) :
    ntohl e (UInt32.ofNat (e.load (big.store 4 x.toNat))) = x := by
  have hx : x.toNat % 256 ^ 4 = x.toNat := Nat.mod_eq_of_lt x.toNat_lt
  rw [← toNat_htonl, UInt32.ofNat_toNat, ntohl, store_htonl, load_store, hx, UInt32.ofNat_toNat]

/-- **A structure comes over**, from a host to another. -/
theorem decode_bytes (e e' : Endian) (x : UInt16) (y : UInt32) :
    decode e (DataStructure.bytes e' ⟨htons e' x, htonl e' y⟩) = (x, y) := by
  unfold decode DataStructure.ofBytes DataStructure.bytes
  dsimp only
  rw [store_htons, store_htonl, List.take_left' (length_store _ _ _), List.drop_left' (length_store _ _ _),
    List.take_of_length_le (by rw [length_store]), ntohs_load, ntohl_load]

/-- What is printed for a client's numbers. -/
theorem map_decode_structures : (structures e' 0 numbers).map (decode e) =
    numbers.zipIdx.map fun p => (UInt16.ofNat p.2, p.1.toUInt32) := by
  rw [structures, List.map_map]
  refine List.map_congr_left fun p _ => ?_
  exact decode_bytes e e' _ _

/-- **A connection that has brought a beginning of a client's stream.** -/
theorem reads_printed (hs : s.dataRead.length = sizeofData) (hsend : send e' 0 numbers = some stream)
    (hpre : pieces.flatten <+: stream) (ht : Server.reads e pieces { s with prevLen := 0 } = some t) :
    t.dataRead.length = sizeofData ∧ t.printed = s.printed ++
      (numbers.zipIdx.map fun p => (UInt16.ofNat p.2, p.1.toUInt32)).take (pieces.flatten.length / 6) := by
  have h0 : Frames e s.printed { s with prevLen := 0 } (Framer.empty (by decide)) :=
    ⟨rfl, rfl, hs, (List.append_nil _).symm⟩
  obtain ⟨g, hg, hcontent⟩ := h0.reads ht
  have hc : g.content = pieces.flatten := hcontent
  rw [send_eq hsend, ← hc] at hpre
  have hrec := Framer.records_of_content length_structures hpre
  refine ⟨hg.length, ?_⟩
  rw [hg.printed, hrec, List.map_take, map_decode_structures, hc]
  rfl

/-- **The numbers that arrive.** Each connection brings a beginning of what some client sends, on a host
of any byte order, cut into reads in any way. Then the server prints, connection after connection,
the numbers of the client as far as their structures have come whole, each with its place modulo
`2 ^ 16`; what was in `data_read` before makes no difference. -/
theorem numbers_ok (e : Endian) {conns : List (List Int32 × List (List UInt8))}
    (hs : s.dataRead.length = sizeofData)
    (hsend : ∀ c ∈ conns, ∃ e' stream, send e' 0 c.1 = some stream ∧ c.2.flatten <+: stream)
    (ht : Server.accepts e (conns.map Prod.snd) s = some t) :
    t.printed = s.printed ++ conns.flatMap fun c =>
      (c.1.zipIdx.map fun p => (UInt16.ofNat p.2, p.1.toUInt32)).take (c.2.flatten.length / 6) := by
  induction conns generalizing s with
  | nil =>
    obtain rfl := Option.some.inj ht
    exact (List.append_nil _).symm
  | cons c conns ih =>
    rw [List.map_cons, Server.accepts] at ht
    obtain ⟨u, hu, ht⟩ := Option.bind_eq_some_iff.1 ht
    obtain ⟨e', stream, hstream, hpre⟩ := hsend c List.mem_cons_self
    obtain ⟨hlen, hprinted⟩ := reads_printed hs hstream hpre hu
    rw [ih hlen (fun c hc => hsend c (List.mem_cons_of_mem _ hc)) ht, hprinted, List.flatMap_cons,
      List.append_assoc]

/-- The first connection ends in the second structure. -/
theorem numbers_ok_two : ∃ t, Server.accepts little
    [[[0, 0, 0], [0, 0, 5], [0, 1]], [[0, 0, 0, 0, 0, 7]]] ⟨0, List.replicate 6 9, []⟩ = some t ∧
      t.printed = [(0, 5), (0, 7)] := by
  obtain ⟨t, ht⟩ := Option.isSome_iff_exists.1 (show (Server.accepts little
    [[[0, 0, 0], [0, 0, 5], [0, 1]], [[0, 0, 0, 0, 0, 7]]] ⟨0, List.replicate 6 9, []⟩).isSome by decide)
  have hsend : ∀ c ∈ [([5, -1], [[0, 0, 0], [0, 0, 5], [0, 1]]), ([7], [[0, 0, 0, 0, 0, 7]])],
      ∃ e' stream, send e' 0 c.1 = some stream ∧ c.2.flatten <+: stream := by
    intro c hc
    simp only [List.mem_cons, List.not_mem_nil, or_false] at hc
    rcases hc with rfl | rfl
    · exact ⟨big, [0, 0, 0, 0, 0, 5, 0, 1, 255, 255, 255, 255], by decide, by decide⟩
    · exact ⟨little, [0, 0, 0, 0, 0, 7], by decide, by decide⟩
  exact ⟨t, ht, numbers_ok little rfl hsend ht⟩

end SikMimuw.Nums
