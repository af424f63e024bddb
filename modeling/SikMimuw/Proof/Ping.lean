import SikMimuw.Lib.Checksum
import SikMimuw.Model.Ping

/-!
# The checksum of a ping, and its reply

* `inCksum_eq`: `in_cksum` is the complement of the sum of the words, as long as that is an `int`.
* `checksum_ok`: a message that carries its checksum passes the test of every host, and no longer
  once one of its bytes has changed.
* `ping_ok`: the request passes that test, and its reply is taken exactly if the process number has
  16 bits: `icmp_id` has no more, but is compared with the whole number.
-/

namespace SikMimuw.Ping

open Checksum CStr Endian

variable {e : Endian} {pid : UInt32} {l pre post : List UInt8}

theorem sumWords_eq : ∀ {sum : ℕ}, sum + total e l < 2 ^ 31 →
    sumWords e l sum = some (sum + total e l) := by
  induction l using words.induct with
  | case1 a b l ih =>
    intro sum h
    rw [total_cons, ← Nat.add_assoc] at h
    rw [sumWords, addInt, if_pos (by omega), Option.bind_some, ih h, total_cons, Nat.add_assoc]
  | case2 a =>
    intro sum h
    have htotal : total e [a] = e.load [a, 0] := List.sum_singleton
    rw [htotal] at h ⊢
    rw [sumWords, addInt, if_pos h]
  | case3 =>
    intro sum _
    rfl

/-- **`in_cksum`.** -/
theorem inCksum_eq (h : l.length ≤ 65536) (e : Endian) :
    ∃ c, inCksum e l = some c ∧ c.toNat = 65535 - fold (total e l) := by
  have hlt := total_lt h e
  refine ⟨_, by rw [inCksum, sumWords_eq (by omega), Nat.zero_add]; rfl, ?_⟩
  have hand : total e l &&& 0xffff = total e l % 65536 := Nat.and_two_pow_sub_one_eq_mod _ 16
  rw [UInt16.toNat_not, UInt16.toNat_ofNat', hand, Nat.shiftRight_eq_div_pow,
    Nat.shiftRight_eq_div_pow]
  rfl

theorem inCksum_eq_zero (h : l.length ≤ 65536) (e : Endian) :
    inCksum e l = some 0 ↔ fold (total e l) = 65535 := by
  obtain ⟨c, hc, hn⟩ := inCksum_eq h e
  have hle := fold_le (total e l)
  rw [hc, Option.some.injEq, ← UInt16.toNat_inj, hn]
  have h0 : (0 : UInt16).toNat = 0 := rfl
  omega

/-- The checksum of a message, as either host writes it, makes the sum of the words `2 ^ 16 - 1`. -/
theorem exists_field (hlen : pre.length + post.length + 2 ≤ 65536) (hpre : pre.length % 2 = 0) :
    ∃ field : List UInt8, field.length = 2 ∧
      (∀ e, ∃ c, inCksum e (pre ++ [0, 0] ++ post) = some c ∧ e.store 2 c.toNat = field) ∧
      ∀ e, fold (total e (pre ++ field ++ post)) = 65535 := by
  have hl : (pre ++ [0, 0] ++ post).length ≤ 65536 := by
    simp only [List.length_append, List.length_cons, List.length_nil]
    omega
  obtain ⟨c, hc, hn⟩ := inCksum_eq hl little
  refine ⟨little.store 2 c.toNat, length_store _ _ _, ?_, ?_⟩
  · intro e
    obtain ⟨c', hc', hn'⟩ := inCksum_eq hl e
    exact ⟨c', hc', by rw [hn, hn', store_fold hl e little]⟩
  · intro e
    rw [hn]
    exact complement_spec hlen hpre little e

/-- **A message that carries its checksum.** With a field of two bytes at an even place, which are 0
while the checksum is computed, hosts of either byte order write the same bytes into the field, each
of them finds the message correct, and none does if one of its bytes has changed. -/
theorem checksum_ok (pre post : List UInt8) (hlen : pre.length + post.length + 2 ≤ 65536)
    (hpre : pre.length % 2 = 0) : ∃ field : List UInt8, field.length = 2 ∧
      (∀ e, ∃ c, inCksum e (pre ++ [0, 0] ++ post) = some c ∧ e.store 2 c.toNat = field) ∧
      (∀ e, inCksum e (pre ++ field ++ post) = some 0) ∧
      ∀ e i b, (pre ++ field ++ post)[i]? ≠ none → (pre ++ field ++ post)[i]? ≠ some b →
        inCksum e ((pre ++ field ++ post).set i b) ≠ some 0 := by
  obtain ⟨field, hfield, hc, hok⟩ := exists_field hlen hpre
  have hl : (pre ++ field ++ post).length ≤ 65536 := by
    simp only [List.length_append, hfield]
    omega
  refine ⟨field, hfield, hc, fun e => (inCksum_eq_zero hl e).2 (hok e), ?_⟩
  intro e i b hi hb h
  have hi : i < (pre ++ field ++ post).length := by
    by_contra hge
    exact hi (List.getElem?_eq_none (not_lt.1 hge))
  rw [List.getElem?_eq_getElem hi, ne_eq, Option.some.injEq] at hb
  rw [inCksum_eq_zero (by rwa [List.length_set])] at h
  exact fold_set_ne hl hi hb e (h.trans (hok e).symm)

/-- A message of five bytes, with the field behind the second. -/
theorem checksum_ok_five : inCksum little [1, 2, 0xfb, 0xfd, 3] = some 0 := by
  obtain ⟨field, -, hc, hok, -⟩ := checksum_ok [1, 2] [3] (by decide) (by decide)
  obtain ⟨c, hc, hf⟩ := hc little
  have he : inCksum little ([1, 2] ++ [0, 0] ++ [3]) = some 0xfdfb := by decide
  obtain rfl := Option.some.inj (he.symm.trans hc)
  have hfield : field = [0xfb, 0xfd] := hf.symm
  have h := hok little
  rw [hfield] at h
  exact h

/-! ### The reply -/

/-- A datagram whose IP header is followed by an ICMP message. -/
structure Carries (datagram header message : List UInt8) : Prop where
  split : datagram = header ++ message
  length : header.length = (header.getD 0 0).toNat % 16 * 4
  nonempty : 0 < header.length
  message : 8 ≤ message.length
  fits : datagram.length ≤ bsize

/-- **What is made of such a datagram.** -/
theorem Carries.receive {datagram header message : List UInt8} (h : Carries datagram header message)
    (e : Endian) (pid : UInt32) : receivePingReply e pid (some datagram) =
      if message.getD 0 0 ≠ icmpEchoreply then .strange (message.getD 0 0)
      else
        let id := ntohs e (UInt16.ofNat (e.load ((message.drop 4).take 2)))
        if id.toNat ≠ pid.toNat then .otherId id
        else .correct (message.length - 8) ((message.drop 8).takeWhile (· ≠ 0)) := by
  obtain ⟨rfl, hheader, hne, hmessage, hfits⟩ := h
  have hreceived : (header ++ message).take bsize = header ++ message := List.take_of_length_le hfits
  have hfirst : ∀ zeros : List UInt8, (header ++ message ++ zeros).getD 0 0 = header.getD 0 0 := by
    intro zeros
    obtain ⟨b, l, rfl⟩ := List.exists_cons_of_ne_nil (List.length_pos_iff.1 hne)
    rfl
  have hdrop : ∀ zeros : List UInt8, (header ++ message ++ zeros).drop header.length =
      message ++ zeros := by
    intro zeros
    rw [List.append_assoc, List.drop_left]
  unfold receivePingReply
  simp only [Option.getD_some, hreceived, Option.isSome_some, if_true, hfirst, ← hheader, hdrop]
  generalize List.replicate (bsize - (header ++ message).length) (0 : UInt8) = zeros
  have hlen : ((header ++ message).length : ℤ) - header.length = message.length := by
    rw [List.length_append]
    omega
  have hlong : ¬ (message.length : ℤ) < icmpHeaderLen := by
    unfold icmpHeaderLen
    omega
  have htype : (message ++ zeros).getD 0 0 = message.getD 0 0 :=
    List.getD_append _ _ _ _ (by omega)
  have hid : ((message ++ zeros).drop 4).take 2 = (message.drop 4).take 2 := by
    rw [List.drop_append_of_le_length (by omega),
      List.take_append_of_le_length (by rw [List.length_drop]; omega)]
  have hdata : ((message ++ zeros).drop icmpHeaderLen).take
      ((message.length : ℤ) - icmpHeaderLen).toNat = message.drop 8 := by
    have hto : ((message.length : ℤ) - icmpHeaderLen).toNat = message.length - 8 := by
      unfold icmpHeaderLen
      omega
    rw [hto, icmpHeaderLen, List.drop_append_of_le_length hmessage, List.take_left' (by simp)]
  rw [hlen, if_neg hlong, htype, hid, hdata]
  rfl

/-- The length that an IP header gives itself. -/
def headerLen (datagram : List UInt8) : ℕ := (datagram.getD 0 0).toNat % 16 * 4

/-- A datagram with a whole ICMP header that is of no echo reply. -/
structure Foreign (datagram : List UInt8) : Prop where
  whole : headerLen datagram + icmpHeaderLen ≤ datagram.length
  type : datagram.getD (headerLen datagram) 0 ≠ icmpEchoreply

/-- The bytes of the buffer are those of the datagram. -/
theorem getD_rcvBuffer (datagram : List UInt8) {i : ℕ} (hi : i < bsize) :
    (datagram.take bsize ++ List.replicate (bsize - (datagram.take bsize).length) (0 : UInt8)).getD i 0 =
      datagram.getD i 0 := by
  by_cases hlt : i < datagram.length
  · rw [List.getD_append _ _ _ _ (by rw [List.length_take]; omega), List.getD_eq_getElem?_getD,
      List.getElem?_take_of_lt hi, ← List.getD_eq_getElem?_getD]
  · rw [List.take_of_length_le (by omega), List.getD_append_right _ _ _ _ (by omega),
      List.getD_replicate 0 (by omega), List.getD_eq_default _ _ (by omega)]

/-- **Any other datagram**, in full or cut to the size of the buffer. -/
theorem receive_eq (e : Endian) (pid : UInt32) (datagram : List UInt8) :
    (datagram.length < headerLen datagram + icmpHeaderLen →
      receivePingReply e pid (some datagram) = .short) ∧
    (Foreign datagram →
      receivePingReply e pid (some datagram) = .strange (datagram.getD (headerLen datagram) 0)) := by
  have hheader : headerLen datagram ≤ 60 := by
    unfold headerLen
    omega
  have hfirst := getD_rcvBuffer datagram (i := 0) (by decide)
  have htype := getD_rcvBuffer datagram (i := headerLen datagram) (by unfold bsize; omega)
  have hlen : (datagram.take bsize).length = min bsize datagram.length := List.length_take
  unfold receivePingReply
  simp only [Option.getD_some, Option.isSome_some, if_true, hfirst]
  rw [show (datagram.getD 0 0).toNat % 16 * 4 = headerLen datagram from rfl]
  generalize List.replicate (bsize - (datagram.take bsize).length) (0 : UInt8) = zeros at htype ⊢
  have hget : ((datagram.take bsize ++ zeros).drop (headerLen datagram)).getD 0 0 =
      datagram.getD (headerLen datagram) 0 := by
    rw [← htype, List.getD_eq_getElem?_getD, List.getElem?_drop, Nat.add_zero, List.getD_eq_getElem?_getD]
  constructor
  · intro hshort
    rw [if_pos]
    rw [hlen]
    unfold bsize icmpHeaderLen at *
    omega
  · rintro ⟨hwhole, hne⟩
    rw [if_neg, hget, if_pos hne]
    rw [hlen]
    unfold bsize icmpHeaderLen at *
    omega

/-- A `recvfrom` that fails leaves a buffer of zeros. -/
theorem receive_none (e : Endian) (pid : UInt32) : receivePingReply e pid none = .short := by
  have hzero : ((List.replicate (bsize - 0) (0 : UInt8)).getD 0 0).toNat % 16 * 4 = 0 := rfl
  unfold receivePingReply
  simp only [Option.getD_none, List.take_nil, List.length_nil, List.nil_append, Option.isSome_none, hzero]
  rfl

/-- A number of 16 bits comes back from the wire. -/
theorem ntohs_load (e : Endian) (x : UInt16) :
    ntohs e (UInt16.ofNat (e.load (big.store 2 x.toNat))) = x := by
  have hx : x.toNat % 256 ^ 2 = x.toNat := Nat.mod_eq_of_lt x.toNat_lt
  rw [← toNat_htons, UInt16.ofNat_toNat, ntohs, store_htons, load_store, hx, UInt16.ofNat_toNat]

/-- The loop goes on over messages that are no echo replies. -/
theorem loop_append {others : List (List UInt8)} {datagrams : List (Option (List UInt8))}
    (h : ∀ d ∈ others, Foreign d) :
    loop e pid (others.map some ++ datagrams) = loop e pid datagrams := by
  induction others with
  | nil => rfl
  | cons d others ih =>
    rw [List.map_cons, List.cons_append, loop, (receive_eq e pid d).2 (h d List.mem_cons_self)]
    exact ih fun d hd => h d (List.mem_cons_of_mem _ hd)

/-- **The reply to a request**, whatever is in its checksum and its IP header. -/
theorem receive_reply (e : Endian) (pid : UInt32) (c : UInt16) {header cksum : List UInt8}
    (hheader : header.length = (header.getD 0 0).toNat % 16 * 4) (hne : 0 < header.length)
    (hcksum : cksum.length = 2) :
    receivePingReply e pid (some (header ++ ([icmpEchoreply, 0] ++ cksum ++ (icmp e pid c).drop 4))) =
      if pid.toNat < 2 ^ 16 then .correct 11 (bytes "BASIC PING!") else .otherId pid.toUInt16 := by
  have hdrop : (icmp e pid c).drop 4 = e.store 2 (htons e pid.toUInt16).toNat ++
      e.store 2 (htons e 0).toNat ++ bytes "BASIC PING!" := by
    unfold icmp
    exact List.drop_left' (by simp)
  have htext : (bytes "BASIC PING!").takeWhile (· ≠ 0) = bytes "BASIC PING!" := by decide
  have hlen : (bytes "BASIC PING!").length = 11 := by decide
  rw [hdrop]
  generalize hid : e.store 2 (htons e pid.toUInt16).toNat = id
  generalize hseq : e.store 2 (htons e 0).toNat = seq
  have hidlen : id.length = 2 := by rw [← hid, length_store]
  have hseqlen : seq.length = 2 := by rw [← hseq, length_store]
  have hcar : Carries (header ++ ([icmpEchoreply, 0] ++ cksum ++ (id ++ seq ++ bytes "BASIC PING!")))
      header ([icmpEchoreply, 0] ++ cksum ++ (id ++ seq ++ bytes "BASIC PING!")) := by
    have h15 : header.length ≤ 60 := by omega
    refine ⟨rfl, hheader, hne, ?_, ?_⟩
    · simp only [List.length_append, List.length_cons, List.length_nil, hcksum, hidlen, hseqlen, hlen]
      decide
    · simp only [List.length_append, List.length_cons, List.length_nil, hcksum, hidlen, hseqlen, hlen]
      unfold bsize
      omega
  have hgot : ntohs e (UInt16.ofNat (e.load ((([icmpEchoreply, 0] ++ cksum ++
      (id ++ seq ++ bytes "BASIC PING!")).drop 4).take 2))) = pid.toUInt16 := by
    rw [List.drop_left' (by simp [hcksum]), List.append_assoc, List.take_left' hidlen, ← hid,
      store_htons, ntohs_load]
  have hdata : ([icmpEchoreply, 0] ++ cksum ++ (id ++ seq ++ bytes "BASIC PING!")).drop 8 =
      bytes "BASIC PING!" := by
    rw [← List.append_assoc]
    exact List.drop_left' (by simp [hcksum, hidlen, hseqlen])
  have hsize : (([icmpEchoreply, 0] ++ cksum ++ (id ++ seq ++ bytes "BASIC PING!")).length : ℤ) - 8 =
      11 := by
    simp only [List.length_append, List.length_cons, List.length_nil, hcksum, hidlen, hseqlen, hlen]
    decide
  rw [hcar.receive]
  dsimp only
  rw [hgot, hdata, hsize, htext, if_neg (by simp [icmpEchoreply])]
  have hpid : pid.toUInt16.toNat = pid.toNat % 2 ^ 16 := UInt32.toNat_toUInt16 pid
  have hlt := pid.toNat_lt
  by_cases hp : pid.toNat < 2 ^ 16
  · rw [if_pos hp, if_neg (by rw [hpid, Nat.mod_eq_of_lt hp]; exact fun h => h rfl)]
  · rw [if_neg hp, if_pos (by rw [hpid]; omega)]

/-- **A ping.** The request passes the test of every host. The loop goes over datagrams with a whole
ICMP header that are of no echo reply, and any shorter one, or a failed `recvfrom`, ends the program.
When the reply to the request comes, whatever is in its checksum and its IP header, it is taken exactly
if the process number has 16 bits; otherwise the program ends, as if it were another one's. -/
theorem ping_ok (e : Endian) (pid : UInt32) {others : List (List UInt8)}
    (hothers : ∀ d ∈ others, Foreign d) :
    ∃ request, sendPingRequest e pid = some request ∧ (∀ e', inCksum e' request = some 0) ∧
      (∀ header cksum : List UInt8, header.length = headerLen header → 0 < header.length →
        cksum.length = 2 →
        loop e pid (others.map some ++
            [some (header ++ ([icmpEchoreply, 0] ++ cksum ++ request.drop 4))]) =
          some (if pid.toNat < 2 ^ 16 then .correct 11 (bytes "BASIC PING!")
            else .otherId pid.toUInt16)) ∧
      (∀ d rest, d.length < headerLen d + icmpHeaderLen →
        loop e pid (others.map some ++ some d :: rest) = some .short) ∧
      ∀ rest, loop e pid (others.map some ++ none :: rest) = some .short := by
  have hbody : [icmpEcho, 0].length + (e.store 2 (htons e pid.toUInt16).toNat ++
      e.store 2 (htons e 0).toNat ++ bytes "BASIC PING!").length + 2 = 19 := by
    simp only [List.length_append, length_store]
    decide
  obtain ⟨field, hfield, hc, hok⟩ := exists_field (by rw [hbody]; decide) (by decide)
  obtain ⟨c, hck, rfl⟩ := hc e
  have h0 : e.store 2 (0 : UInt16).toNat = [0, 0] := by cases e <;> rfl
  have hreq : sendPingRequest e pid = some (icmp e pid c) := by
    rw [sendPingRequest, icmp, h0, hck]
    rfl
  refine ⟨icmp e pid c, hreq, fun e' => (inCksum_eq_zero ?_ e').2 (hok e'),
    fun header cksum hheader hne hcksum => ?_, fun d rest hshort => ?_, fun rest => ?_⟩
  · simp only [icmp, List.length_append, length_store] at hbody ⊢
    omega
  · rw [loop_append hothers, loop, receive_reply e pid c hheader hne hcksum]
    by_cases hp : pid.toNat < 2 ^ 16
    · rw [if_pos hp]
    · rw [if_neg hp]
  · rw [loop_append hothers, loop, (receive_eq e pid d).1 hshort]
  · rw [loop_append hothers, loop, receive_none]

/-- Process 7, whose first datagram says that a port cannot be reached. -/
theorem ping_ok_seven : ∃ request, sendPingRequest little 7 = some request ∧
    loop little 7 [some (0x45 :: List.replicate 19 0 ++ [3, 3, 0, 0, 0, 0, 0, 0]),
      some (0x45 :: List.replicate 19 0 ++ ([0, 0] ++ [0, 0] ++ request.drop 4))] =
      some (.correct 11 (bytes "BASIC PING!")) := by
  have hothers : ∀ d ∈ [0x45 :: List.replicate 19 0 ++ [3, 3, 0, 0, 0, 0, 0, 0]], Foreign d := by
    intro d hd
    rw [List.mem_singleton.1 hd]
    exact ⟨by decide, by decide⟩
  obtain ⟨request, hreq, -, h, -⟩ := ping_ok little 7 hothers
  have hreply := h (0x45 :: List.replicate 19 0) [0, 0] (by decide) (by decide) rfl
  rw [if_pos (by decide)] at hreply
  exact ⟨request, hreq, hreply⟩

end SikMimuw.Ping
