import SikMimuw.Lib.Run
import SikMimuw.Model.Big.Fifo

/-!
# What the ring buffer holds

`Layout q stream`: the ring holds the end of the stream, cyclically up to index `last`. A block
that fits behind `last`, comes when the ring is full up to its end, or is one byte longer than the
ring keeps it (`Fits`); any other block breaks it (`ring_ok`): where the copy wraps round the end,
its second part starts before the block, and a longer block leaves `last` outside the ring.

`retrieve` copies into the ring and never into the output buffer, so it does what it should only
where it returns -1 (`retrieve_ok_iff`).
-/

namespace SikMimuw.Big

open Memory Lts

/-! ### Adding blocks -/

/-- A block of at least one byte at a pointer. -/
structure Block where
  data : ℤ → UInt8
  len : UInt64
  pos : 0 < len.toNat

/-- The bytes of a block. -/
def Block.bytes (b : Block) : List UInt8 := (List.range b.len.toNat).map fun i : ℕ => b.data i

/-- The index of the byte `k` places before the last one. -/
def place (last size : UInt64) (k : ℕ) : ℤ := ((last.toNat : ℤ) - 1 - k) % size.toNat

/-- **The ring holds the end of the stream.** -/
structure Layout (q : Queue) (stream : List UInt8) : Prop where
  last_le : q.last.toNat ≤ q.size.toNat
  total : q.lastDataNum.toNat = stream.length
  contents : ∀ k < min stream.length q.size.toNat, some (q.fifo (place q.last q.size k)) = stream.reverse[k]?

/-- The ring, the blocks added so far, and the copies made, with the lengths of their blocks. -/
structure Filling where
  queue : Queue
  stream : List UInt8
  copied : List (Copy × ℕ)

/-- An empty ring. -/
def Filling.init (fifo : ℤ → UInt8) (size : UInt64) : Filling := ⟨createQueue fifo size, [], []⟩

/-- One call of `add_to_queue`. -/
def Filling.add (f : Filling) (b : Block) : Filling :=
  let r := addToQueue f.queue b.data b.len
  ⟨r.1, f.stream ++ b.bytes, f.copied ++ r.2.map fun c => (c, b.len.toNat)⟩

/-- **What a ring should be**: it holds the end of the stream, and every byte was copied from inside
its block to inside the ring. -/
structure Filling.Ok (f : Filling) : Prop where
  layout : Layout f.queue f.stream
  inside : ∀ p ∈ f.copied, p.1.Inside f.queue.size.toNat p.2

/-- The blocks that are added as they should. -/
def Fits (f : Filling) (b : Block) : Prop :=
  f.stream.length + b.len.toNat < 2 ^ 64 ∧
    (f.queue.last.toNat + b.len.toNat ≤ f.queue.size.toNat ∨
      f.queue.last = f.queue.size ∧ b.len.toNat ≤ f.queue.size.toNat ∨
      b.len.toNat = f.queue.size.toNat + 1)

variable {q : Queue} {data buffer : ℤ → UInt8} {len last size num : UInt64} {stream : List UInt8}
  {f g : Filling} {b : Block} {k : ℕ}

@[simp] theorem Block.length_bytes (b : Block) : b.bytes.length = b.len.toNat := by simp [bytes]

theorem Block.reverse_bytes (b : Block) (h : k < b.len.toNat) :
    b.bytes.reverse[k]? = some (b.data ((b.len.toNat : ℤ) - 1 - k)) := by
  have hk : b.len.toNat - 1 - k < b.len.toNat := by omega
  have hcast : ((b.len.toNat - 1 - k : ℕ) : ℤ) = (b.len.toNat : ℤ) - 1 - k := by omega
  rw [List.getElem?_reverse (by rwa [length_bytes]), length_bytes, Block.bytes, List.getElem?_map,
    List.getElem?_range hk, Option.map_some, hcast]

theorem place_of_lt (hl : last.toNat ≤ size.toNat) (h : k < last.toNat) :
    place last size k = (last.toNat : ℤ) - 1 - k := by
  unfold place
  exact Int.emod_eq_of_lt (by omega) (by omega)

theorem place_of_le (hk : k < size.toNat) (h : last.toNat ≤ k) :
    place last size k = (last.toNat : ℤ) + size.toNat - 1 - k := by
  unfold place
  rw [← Int.add_emod_right, Int.emod_eq_of_lt (by omega) (by omega)]
  omega

/-- A block that fits behind `last`. -/
theorem addToQueue_fits (h : q.last.toNat + len.toNat ≤ q.size.toNat) : addToQueue q data len =
    (⟨memcpy q.fifo data ⟨q.last.toNat, 0, len.toNat⟩, q.last + len, q.size, q.lastDataNum + len⟩,
      [⟨q.last.toNat, 0, len.toNat⟩]) := by
  have h1 : ¬ len > q.size := by
    rw [gt_iff_lt, UInt64.lt_iff_toNat_lt]
    omega
  have h2 : len ≤ q.size - q.last := by
    rw [UInt64.le_iff_toNat_le, Word.toNat_sub']
    split <;> omega
  unfold addToQueue
  rw [if_neg h1, if_pos h2]
  rfl

/-- A block for a ring that is full up to its end. -/
theorem addToQueue_full (h : q.last = q.size) (hle : len.toNat ≤ q.size.toNat) (hpos : 0 < len.toNat) :
    addToQueue q data len =
      (⟨memcpy q.fifo data ⟨0, 0, len.toNat⟩, len, q.size, q.lastDataNum + len⟩,
        [⟨q.last.toNat, 0, 0⟩, ⟨0, 0, len.toNat⟩]) := by
  have h0 : q.size - q.size = 0 := by
    rw [← UInt64.toNat_inj, Word.toNat_sub', if_pos le_rfl]
    simp
  have h1 : ¬ len > q.size := by
    rw [gt_iff_lt, UInt64.lt_iff_toNat_lt]
    omega
  have h2 : ¬ len ≤ q.size - q.last := by
    rw [h, h0, UInt64.le_iff_toNat_le]
    have : (0 : UInt64).toNat = 0 := rfl
    omega
  unfold addToQueue
  rw [if_neg h1, if_neg h2, h, h0]
  simp [Queue.memcpys, memcpy_zero]

/-- A block one byte longer than the ring. -/
theorem addToQueue_over (h : len.toNat = q.size.toNat + 1) : addToQueue q data len =
    (⟨memcpy q.fifo data ⟨0, 1, q.size.toNat⟩, q.size, q.size, q.lastDataNum + len⟩,
      [⟨0, 1, q.size.toNat⟩]) := by
  have h1 : len > q.size := by
    rw [gt_iff_lt, UInt64.lt_iff_toNat_lt]
    omega
  have hsub : (len - q.size).toNat = 1 := by
    rw [Word.toNat_sub']
    split <;> omega
  have hlast : len - 1 = q.size := by
    have h01 : (1 : UInt64).toNat = 1 := rfl
    rw [← UInt64.toNat_inj, Word.toNat_sub', h01]
    split <;> omega
  unfold addToQueue
  rw [if_pos h1, hsub, hlast]
  rfl

/-- **A block goes into the ring** with a copy of its end up to the new `last`: of all of it, from
the old `last` on, or of as much as the ring has room for. -/
theorem Layout.copy {q' : Queue} (h : Layout q stream) (c : Copy)
    (hfifo : q'.fifo = memcpy q.fifo b.data c) (hsize : q'.size = q.size)
    (htotal : q'.lastDataNum = q.lastDataNum + b.len) (hlt : stream.length + b.len.toNat < 2 ^ 64)
    (hdest : 0 ≤ c.dest ∧ c.dest + c.count = q'.last.toNat) (hlast : q'.last.toNat ≤ q.size.toNat)
    (hsrc : 0 ≤ c.src ∧ c.src + c.count = b.len.toNat)
    (hcount : c.count = q.size.toNat ∨
      c.src = 0 ∧ (c.dest = q.last.toNat ∨ c.dest = 0 ∧ q.last = q.size)) :
    Layout q' (stream ++ b.bytes) where
  last_le := by rwa [hsize]
  total := by
    rw [htotal, UInt64.toNat_add, h.total, Nat.mod_eq_of_lt hlt, List.length_append, Block.length_bytes]
  contents k hk := by
    rw [hsize, List.length_append, Block.length_bytes] at hk
    rw [hfifo, hsize, List.reverse_append]
    by_cases hkc : k < c.count
    -- a byte of the block
    · rw [place_of_lt hlast (by omega), memcpy_of_mem (by omega) (by omega),
        List.getElem?_append_left (by rw [List.length_reverse, Block.length_bytes]; omega),
        b.reverse_bytes (by omega)]
      congr 2
      omega
    -- a byte that was there before: the whole block was copied, and not over it
    · obtain ⟨h0, hd⟩ := hcount.resolve_left (by omega)
      obtain ⟨j, rfl⟩ : ∃ j, k = b.len.toNat + j := ⟨k - b.len.toNat, by omega⟩
      have hlj := h.last_le
      have hold := h.contents j (by omega)
      have hplace : place q'.last q.size (b.len.toNat + j) = place q.last q.size j := by
        unfold place
        rcases hd with hd | ⟨hd, hfull⟩
        · congr 1
          omega
        · rw [hfull, ← Int.add_emod_right]
          congr 1
          omega
      have hout : place q.last q.size j < c.dest ∨ c.dest + c.count ≤ place q.last q.size j := by
        by_cases hj : j < q.last.toNat
        · rw [place_of_lt hlj hj]
          rcases hd with hd | ⟨hd, hfull⟩
          · omega
          · rw [hfull] at hj ⊢
            omega
        · rw [place_of_le (by omega) (by omega)]
          omega
      rw [hplace, memcpy_of_notMem hout, hold,
        List.getElem?_append_right (by rw [List.length_reverse, Block.length_bytes]; omega),
        List.length_reverse, Block.length_bytes, Nat.add_sub_cancel_left]

theorem Filling.Ok.inside_append (h : f.Ok) {n : ℕ} {cs : List Copy}
    (hcs : ∀ c ∈ cs, c.Inside f.queue.size.toNat n) :
    ∀ p ∈ f.copied ++ cs.map fun c => (c, n), p.1.Inside f.queue.size.toNat p.2 := by
  intro p hp
  rcases List.mem_append.1 hp with hp | hp
  · exact h.inside p hp
  · obtain ⟨c, hc, rfl⟩ := List.mem_map.1 hp
    exact hcs c hc

/-- **A block that fits is added as it should.** -/
theorem Filling.Ok.add (h : f.Ok) (hfit : Fits f b) : (f.add b).Ok := by
  obtain ⟨hlt, hcase⟩ := hfit
  have hpos := b.pos
  have hlast := h.layout.last_le
  unfold Filling.add
  rcases hcase with hfit | ⟨hfull, hle⟩ | hover
  · have hl : (f.queue.last + b.len).toNat = f.queue.last.toNat + b.len.toNat := by
      have := f.queue.size.toNat_lt
      rw [UInt64.toNat_add, Nat.mod_eq_of_lt (by omega)]
    rw [addToQueue_fits hfit]
    refine ⟨h.layout.copy ⟨f.queue.last.toNat, 0, b.len.toNat⟩ rfl rfl rfl hlt ?_ ?_ ?_ ?_,
      h.inside_append ?_⟩
    · simp only [hl]
      omega
    · simp only [hl]
      omega
    · simp
    · simp
    · rw [List.forall_mem_singleton]
      right
      simp only
      omega
  · rw [addToQueue_full hfull hle hpos]
    refine ⟨h.layout.copy ⟨0, 0, b.len.toNat⟩ rfl rfl rfl hlt ?_ hle ?_ ?_, h.inside_append ?_⟩
    · simp
    · simp
    · simp [hfull]
    · rw [List.forall_mem_cons, List.forall_mem_singleton]
      constructor
      · left
        rfl
      · right
        simp only
        omega
  · rw [addToQueue_over hover]
    refine ⟨h.layout.copy ⟨0, 1, f.queue.size.toNat⟩ rfl rfl rfl hlt ?_ le_rfl ?_ ?_,
      h.inside_append ?_⟩
    · simp
    · simp only
      omega
    · exact Or.inl rfl
    · rw [List.forall_mem_singleton]
      right
      simp only
      omega

/-- **A block that does not fit breaks the ring**: the total wraps round, or `last` leaves the ring,
or a copy starts before the block. -/
theorem Filling.Ok.fits (h : f.Ok) (h' : (f.add b).Ok) : Fits f b := by
  have hpos := b.pos
  have hlast := h.layout.last_le
  have hsize := f.queue.size.toNat_lt
  have htotal := h'.layout.total
  have hlast' := h'.layout.last_le
  have hin := h'.inside
  have hsum : (f.add b).queue.lastDataNum = f.queue.lastDataNum + b.len := by
    unfold Filling.add addToQueue
    dsimp only
    split_ifs <;> rfl
  have hstream : (f.add b).stream.length = f.stream.length + b.len.toNat := by simp [Filling.add]
  rw [hsum, hstream, UInt64.toNat_add, h.layout.total] at htotal
  refine ⟨by omega, ?_⟩
  unfold Filling.add addToQueue at hlast' hin
  dsimp only at hlast' hin
  split_ifs at hlast' hin with h1 h2
  · rw [gt_iff_lt, UInt64.lt_iff_toNat_lt] at h1
    have h01 : (1 : UInt64).toNat = 1 := rfl
    simp only at hlast'
    rw [Word.toNat_sub', h01, if_pos (by omega)] at hlast'
    omega
  · rw [UInt64.le_iff_toNat_le, Word.toNat_sub', if_pos hlast] at h2
    omega
  · rw [gt_iff_lt, UInt64.lt_iff_toNat_lt] at h1
    rw [UInt64.le_iff_toNat_le, Word.toNat_sub', if_pos hlast] at h2
    -- the second copy of the wrap: it starts `size - last` bytes before the block
    have hc := hin _ (List.mem_append_right _ (List.mem_map_of_mem
      (List.mem_cons_of_mem _ (List.mem_singleton_self _))))
    simp only [Copy.Inside] at hc
    rw [Word.toNat_sub', Word.toNat_sub', if_pos hlast, if_pos (by omega)] at hc
    rw [← UInt64.toNat_inj]
    omega

/-- The step relation: the next block is added. -/
def Adds (f : Filling) (b : Block) (g : Filling) : Prop := g = f.add b

theorem Filling.init_ok (fifo : ℤ → UInt8) (size : UInt64) : (Filling.init fifo size).Ok where
  layout := {
    last_le := Nat.zero_le _
    total := rfl
    contents := by simp [init] }
  inside := by simp [init]

theorem add_size (f : Filling) (b : Block) : (f.add b).queue.size = f.queue.size := by
  unfold Filling.add addToQueue
  dsimp only
  split_ifs <;> rfl

/-- **The ring after any blocks that fit**, and the blocks that may come next. -/
theorem ring_ok {fifo : ℤ → UInt8} {size : UInt64} {bs : List Block} {f : Filling}
    (hrun : Run (Guarded Adds Fits) (Filling.init fifo size) bs f) :
    f.queue.size = size ∧ f.stream = bs.flatMap Block.bytes ∧ f.Ok ∧ ∀ b, (f.add b).Ok ↔ Fits f b := by
  have hok : f.queue.size = size ∧ f.stream = bs.flatMap Block.bytes ∧ f.Ok := by
    induction hrun with
    | nil => exact ⟨rfl, rfl, Filling.init_ok fifo size⟩
    | snoc _ hst ih =>
      obtain ⟨rfl, hfit⟩ := hst
      obtain ⟨hsize, hstream, hf⟩ := ih
      refine ⟨(add_size _ _).trans hsize, ?_, hf.add hfit⟩
      rw [List.flatMap_append, List.flatMap_singleton, ← hstream]
      rfl
  exact ⟨hok.1, hok.2.1, hok.2.2, fun b => ⟨hok.2.2.fits, hok.2.2.add⟩⟩

/-- A block of three bytes. -/
def three : Block := ⟨fun i => UInt8.ofNat i.toNat + 1, 3, by decide⟩

/-- Three bytes in a ring of four. -/
theorem ring_ok_three : ((Filling.init (fun _ => 0) 4).add three).stream = [1, 2, 3] :=
  (ring_ok (Run.single ⟨rfl, by decide, by decide⟩)).2.1

/-- Three more: the second copy reads the byte before the block. -/
theorem wrap_reads_before : ¬ ∀ (fifo : ℤ → UInt8) (size : UInt64) (bs : List Block) (f : Filling),
    1 ≤ size → Run Adds (Filling.init fifo size) bs f → f.Ok := by
  intro h
  have hrun : Run Adds (Filling.init (fun _ => 0) 4) [three, three]
      (((Filling.init (fun _ => 0) 4).add three).add three) := (Run.single rfl).snoc rfl
  have hok := h _ _ _ _ (by decide) hrun
  exact absurd (hok.inside (⟨0, -1, 2⟩, 3) (by decide)) (by decide)

/-! ### Retrieving a range -/

/-- The range `[num, num + size)` lies within what the ring holds. -/
def InRange (q : Queue) (stream : List UInt8) (size num : UInt64) : Prop :=
  stream.length - min stream.length q.size.toNat ≤ num.toNat ∧
    num.toNat + size.toNat ≤ stream.length

/-- **What `retrieve` is for**: it returns 0 exactly for a range in the ring, then the output buffer
holds the bytes of the range, and the queue is never changed. -/
structure Retrieved (q : Queue) (stream : List UInt8) (buffer : ℤ → UInt8) (size num : UInt64) :
    Prop where
  returns : (retrieve q buffer size num).1 = 0 ↔ InRange q stream size num
  bytes : InRange q stream size num →
    ∀ i < size.toNat, stream[num.toNat + i]? = some ((retrieve q buffer size num).2.2 i)
  queue : (retrieve q buffer size num).2.1 = q

/-- The admission test in numbers. -/
theorem outOfRange_iff (h : Layout q stream) : outOfRange q size num ↔
    stream.length < (num.toNat + size.toNat) % 2 ^ 64 ∨
      num.toNat = 0 ∧ q.size.toNat < stream.length ∧ (2 ^ 64 - q.size.toNat) % 2 ^ 64 < stream.length := by
  have htotal := h.total
  have hneg : (-q.size).toNat = (2 ^ 64 - q.size.toNat) % 2 ^ 64 := UInt64.toNat_neg _
  have h1 : (1 : UInt64).toNat = 1 := rfl
  have h0 : (0 : UInt64).toNat = 0 := rfl
  unfold outOfRange
  rw [Bool.or_eq_true, decide_eq_true_eq, decide_eq_true_eq, gt_iff_lt, UInt64.lt_iff_toNat_lt,
    UInt64.toNat_add, htotal]
  split_ifs with hfull hbound
  · rw [gt_iff_lt, UInt64.lt_iff_toNat_lt, htotal] at hfull hbound
    rw [UInt64.lt_iff_toNat_lt, h1]
    omega
  · rw [gt_iff_lt, UInt64.lt_iff_toNat_lt, htotal] at hfull hbound
    rw [UInt64.lt_iff_toNat_lt, h0]
    omega
  · rw [gt_iff_lt, UInt64.lt_iff_toNat_lt, htotal] at hfull
    rw [UInt64.lt_iff_toNat_lt, h0]
    omega

/-- **`retrieve` does what it is for**, whatever the output buffer held, exactly where its test
rejects the range; then the range is not in the ring. -/
theorem retrieve_ok_iff (q : Queue) (stream : List UInt8) (size num : UInt64) (h : Layout q stream)
    (hsize : 0 < size.toNat) :
    (∀ buffer, Retrieved q stream buffer size num) ↔
      stream.length < (num.toNat + size.toNat) % 2 ^ 64 ∨
        num.toNat = 0 ∧ q.size.toNat < stream.length ∧ (2 ^ 64 - q.size.toNat) % 2 ^ 64 < stream.length := by
  have htotal := h.total
  have hlt := q.lastDataNum.toNat_lt
  rw [← outOfRange_iff h]
  constructor
  · intro hall
    by_contra hout
    have hret : ∀ buffer, (retrieve q buffer size num).1 = 0 ∧
        (retrieve q buffer size num).2.2 = buffer := by
      intro buffer
      unfold retrieve
      rw [if_neg hout]
      exact ⟨rfl, rfl⟩
    -- a buffer that differs from the first byte of the range stays as it is
    have hin := (hall fun _ => 0).returns.1 (hret _).1
    have hnum : num.toNat < stream.length := by
      have := hin.2
      omega
    have hbytes := (hall fun _ => stream[num.toNat] + 1).bytes hin 0 hsize
    rw [(hret _).2, Nat.add_zero, List.getElem?_eq_getElem hnum, Option.some.injEq] at hbytes
    simp at hbytes
  · intro hout buffer
    have hret : retrieve q buffer size num = (-1, q, buffer) := by
      unfold retrieve
      rw [if_pos hout]
    have hnot : ¬ InRange q stream size num := by
      rintro ⟨h1, h2⟩
      rw [outOfRange_iff h] at hout
      omega
    refine ⟨?_, fun hin => absurd hin hnot, ?_⟩
    · rw [hret]
      exact iff_of_false (by simp) hnot
    · rw [hret]

/-- A ring with three bytes, asked for more than it has. -/
theorem retrieve_ok_iff_three :
    Retrieved ((Filling.init (fun _ => 0) 4).add three).queue [1, 2, 3] (fun _ => 0) 2 2 :=
  (retrieve_ok_iff _ _ 2 2 ⟨by decide, by decide, by decide⟩ (by decide)).2 (by decide) _

/-- Asked for two bytes that it has, it says so, and gives none of them. -/
theorem retrieves_nothing : ¬ ∀ (q : Queue) (stream : List UInt8) (buffer : ℤ → UInt8)
    (size num : UInt64),
    Layout q stream → 0 < q.size.toNat → 0 < size.toNat → Retrieved q stream buffer size num := by
  intro h
  have hr := h ((Filling.init (fun _ => 0) 4).add three).queue [1, 2, 3] (fun _ => 0) 2 1
    ⟨by decide, by decide, by decide⟩ (by decide) (by decide)
  exact absurd (hr.bytes ⟨by decide, by decide⟩ 0 (by decide)) (by decide)

end SikMimuw.Big
