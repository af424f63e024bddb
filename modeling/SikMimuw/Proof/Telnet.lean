import SikMimuw.Lib.Transducer
import SikMimuw.Model.Telnet

/-!
# The key reader is an automaton

`Mode.step` is an automaton with three states, one for each function that can ask for the next byte.

* `Reads q s r`: a call returns `r` for what the automaton does from `q` with the bytes it takes.
* `reads`: each call returns, by induction on its fuel for all the functions at once. What
  `readAsciEscape` drops as `DUMMY`, `readCommand` does not let out.
* `reader_is_automaton`: the keys are what the automaton puts out, and every byte is taken once.
-/

namespace SikMimuw.Zad1

open Transducer

/-- What the next byte belongs to. -/
inductive Mode
  | ground
  | afterEsc
  | afterCsi
deriving DecidableEq

/-- **The automaton.** -/
def Mode.step : Mode → UInt8 → Mode × List Keys
  | .ground, byte =>
    if isPrintable byte then (.ground, [.print])
    else if byte = cr then (.ground, [.enter])
    else if byte = escape then (.afterEsc, [])
    else (.ground, [])
  | .afterEsc, byte => if byte = 91 then (.afterCsi, []) else (.ground, [])
  | .afterCsi, byte =>
    if byte = 65 then (.ground, [.up])
    else if byte = 66 then (.ground, [.down])
    else (.ground, [])

variable {s t u : Stream} {q q' : Mode} {used more : List UInt8} {byte : UInt8}
  {r : Keys × Stream} {n m : ℕ}

/-- From `s` to `t` the bytes `used` are taken. -/
structure Takes (s : Stream) (used : List UInt8) (t : Stream) : Prop where
  unread : s.unread = used ++ t.unread
  taken : t.taken = s.taken ++ used

/-- **A call** that returns a key which the automaton puts out, or `STREAM_END` behind all bytes. -/
inductive Reads (q : Mode) (s : Stream) : Keys × Stream → Prop
  | key {used : List UInt8} {key : Keys} {t : Stream} (takes : Takes s used t)
      (key_ne : key ≠ .streamEnd ∧ key ≠ .dummy) (mode : after Mode.step q used = .ground)
      (keys : output Mode.step q used = [key]) : Reads q s (key, t)
  | ends {used : List UInt8} {t : Stream} (takes : Takes s used t) (unread : t.unread = [])
      (keys : output Mode.step q used = []) : Reads q s (.streamEnd, t)

/-- A call that has dropped a sequence. -/
structure Drops (q : Mode) (s : Stream) (r : Keys × Stream) : Prop where
  dummy : r.1 = .dummy
  takes : ∃ used, Takes s used r.2 ∧ after Mode.step q used = .ground ∧ output Mode.step q used = []

/-! ### One byte -/

theorem Takes.trans (h : Takes s used t) (h' : Takes t more u) : Takes s (used ++ more) u where
  unread := by rw [h.unread, h'.unread, List.append_assoc]
  taken := by rw [h'.taken, h.taken, List.append_assoc]

theorem Takes.length_le (h : Takes s used t) : t.unread.length ≤ s.unread.length := by
  rw [h.unread, List.length_append]
  omega

theorem takes_nil (s : Stream) : Takes s [] s := ⟨rfl, (List.append_nil _).symm⟩

/-- **`recieve`** takes a byte, or there is none. -/
theorem recieve_cases (s : Stream) : s.recieve = none ∧ s.unread = [] ∨
    ∃ byte t, s.recieve = some (byte, t) ∧ Takes s [byte] t ∧ t.unread.length < s.unread.length := by
  obtain ⟨unread, taken⟩ := s
  cases unread with
  | nil => exact Or.inl ⟨rfl, rfl⟩
  | cons byte unread =>
    exact Or.inr ⟨byte, ⟨unread, taken ++ [byte]⟩, rfl, ⟨rfl, rfl⟩, Nat.lt_succ_self _⟩

/-- What is taken before a call counts for it. -/
theorem Reads.prepend (ht : Takes s used t) (hmode : after Mode.step q used = q')
    (hkeys : output Mode.step q used = []) (h : Reads q' t r) : Reads q s r := by
  cases h with
  | key takes key_ne mode keys =>
    refine .key (ht.trans takes) key_ne ?_ ?_
    · rw [after_append, hmode, mode]
    · rw [output_append, hkeys, hmode, keys, List.nil_append]
  | ends takes unread keys =>
    refine .ends (ht.trans takes) unread ?_
    rw [output_append, hkeys, hmode, keys, List.nil_append]

theorem Drops.prepend (ht : Takes s used t) (hmode : after Mode.step q used = q')
    (hkeys : output Mode.step q used = []) (h : Drops q' t r) : Drops q s r := by
  obtain ⟨hd, more, hm, hafter, hout⟩ := h
  refine ⟨hd, used ++ more, ht.trans hm, ?_, ?_⟩
  · rw [after_append, hmode, hafter]
  · rw [output_append, hkeys, hmode, hout, List.nil_append]

theorem Reads.takes (h : Reads q s r) : ∃ used, Takes s used r.2 := by
  cases h with
  | key takes => exact ⟨_, takes⟩
  | ends takes => exact ⟨_, takes⟩

theorem Reads.ne_dummy (h : Reads q s r) : r.1 ≠ .dummy := by
  cases h with
  | key _ key_ne => exact key_ne.2
  | ends => exact fun hd => nomatch hd

/-- The stream has ended. -/
theorem reads_end (h : s.unread = []) : Reads q s (.streamEnd, s) := .ends (takes_nil s) h rfl

/-- One byte makes a key. -/
theorem reads_key {key : Keys} (ht : Takes s [byte] t) (hkey : key ≠ .streamEnd ∧ key ≠ .dummy)
    (hstep : Mode.step q byte = (.ground, [key])) : Reads q s (key, t) := by
  refine .key ht hkey ?_ ?_
  · rw [after_singleton, hstep]
  · rw [output_singleton, hstep]

/-- One byte makes none. -/
theorem Reads.skip (h : Reads q' t r) (ht : Takes s [byte] t) (hstep : Mode.step q byte = (q', [])) :
    Reads q s r := by
  refine h.prepend ht ?_ ?_
  · rw [after_singleton, hstep]
  · rw [output_singleton, hstep]

theorem Drops.skip (h : Drops q' t r) (ht : Takes s [byte] t) (hstep : Mode.step q byte = (q', [])) :
    Drops q s r := by
  refine h.prepend ht ?_ ?_
  · rw [after_singleton, hstep]
  · rw [output_singleton, hstep]

/-! ### The functions -/

theorem processCsiSequence_reads (s : Stream) :
    Reads .afterCsi s (processCsiSequence s) ∨ Drops .afterCsi s (processCsiSequence s) := by
  unfold processCsiSequence
  rcases recieve_cases s with ⟨hr, hend⟩ | ⟨byte, t, hr, ht, -⟩
  · rw [hr]
    exact Or.inl (reads_end hend)
  · rw [hr]
    dsimp only
    split_ifs with ha hb
    · exact Or.inl (reads_key ht (by decide) (if_pos ha))
    · exact Or.inl (reads_key ht (by decide) ((if_neg ha).trans (if_pos hb)))
    · refine Or.inr ⟨rfl, [byte], ht, ?_, ?_⟩
      · rw [after_singleton, Mode.step, if_neg ha, if_neg hb]
      · rw [output_singleton, Mode.step, if_neg ha, if_neg hb]

/-- **Every call returns**, with fuel for each byte that is left. -/
theorem reads (n : ℕ) :
    (∀ s : Stream, s.unread.length < n → ∃ r, readCommand n s = some r ∧ Reads .ground s r) ∧
      ∀ s : Stream, s.unread.length < n →
        ∃ r, readAsciEscape n s = some r ∧ (Reads .afterEsc s r ∨ Drops .afterEsc s r) := by
  induction n with
  | zero =>
    exact ⟨fun s hs => absurd hs (Nat.not_lt_zero _), fun s hs => absurd hs (Nat.not_lt_zero _)⟩
  | succ n ih =>
    refine ⟨fun s hs => ?_, fun s hs => ?_⟩
    · unfold readCommand
      rcases recieve_cases s with ⟨hr, hend⟩ | ⟨byte, t, hr, ht, hlt⟩
      · rw [hr]
        exact ⟨_, rfl, reads_end hend⟩
      · rw [hr]
        dsimp only
        split_ifs with hprint hesc hcr
        · exact ⟨_, rfl, reads_key ht (by decide) (if_pos hprint)⟩
        · -- behind ESC: what comes back as `DUMMY` was dropped, and the reader goes on
          have hstep : Mode.step .ground byte = (.afterEsc, []) := by
            rw [hesc]
            rfl
          obtain ⟨r, hcall, hreads | hdrops⟩ := ih.2 t (by omega)
          · rw [hcall, Option.bind_some, if_neg hreads.ne_dummy]
            exact ⟨_, rfl, hreads.skip ht hstep⟩
          · obtain ⟨hdummy, used, hu, hmode, hkeys⟩ := hdrops
            have hle := hu.length_le
            obtain ⟨r', hcall', hreads⟩ := ih.1 r.2 (by omega)
            rw [hcall, Option.bind_some, if_pos hdummy]
            exact ⟨r', hcall', (hreads.prepend hu hmode hkeys).skip ht hstep⟩
        · refine ⟨_, rfl, reads_key ht (by decide) ?_⟩
          rw [Mode.step, if_neg hprint, if_pos hcr]
        · obtain ⟨r, hcall, hreads⟩ := ih.1 t (by omega)
          refine ⟨r, hcall, hreads.skip ht ?_⟩
          rw [Mode.step, if_neg hprint, if_neg hcr, if_neg hesc]
    · unfold readAsciEscape
      rcases recieve_cases s with ⟨hr, hend⟩ | ⟨byte, t, hr, ht, hlt⟩
      · rw [hr]
        exact ⟨_, rfl, Or.inl (reads_end hend)⟩
      · rw [hr]
        dsimp only
        split_ifs with hcsi
        · refine ⟨_, rfl, ?_⟩
          have hstep : Mode.step .afterEsc byte = (.afterCsi, []) := if_pos hcsi
          exact (processCsiSequence_reads t).imp (·.skip ht hstep) (·.skip ht hstep)
        · obtain ⟨r, hcall, hreads⟩ := ih.1 t (by omega)
          exact ⟨r, hcall, Or.inl (hreads.skip ht (if_neg hcsi))⟩

/-- **The calls in a row** return what the automaton puts out, and take all bytes. -/
theorem readKeys_eq (n m : ℕ) (s : Stream) (hn : s.unread.length < n) (hm : s.unread.length < m) :
    readKeys n m s =
      some (output Mode.step .ground s.unread, ⟨[], s.taken ++ s.unread⟩) := by
  induction m generalizing s with
  | zero => exact absurd hm (Nat.not_lt_zero _)
  | succ m ih =>
    obtain ⟨r, hcall, hreads⟩ := (reads n).1 s hn
    rw [readKeys, hcall, Option.bind_eq_bind, Option.bind_some]
    cases hreads with
    | @ends used t takes unread keys =>
      have hused : s.unread = used := by rw [takes.unread, unread, List.append_nil]
      dsimp only
      rw [if_pos rfl, hused, keys, ← takes.taken, ← unread]
      rfl
    | @key used key t takes key_ne mode keys =>
      -- a key has taken a byte
      have hpos : used ≠ [] := by
        rintro rfl
        exact List.cons_ne_nil _ _ keys.symm
      have hlt : t.unread.length < s.unread.length := by
        rw [takes.unread, List.length_append]
        have := List.length_pos_iff.2 hpos
        omega
      dsimp only
      rw [if_neg key_ne.1, ih t (by omega) (by omega), takes.unread, output_append, keys, mode,
        takes.taken, List.append_assoc]
      rfl

/-- **The key reader is the automaton**, run once over the bytes. Each call returns, is never `DUMMY`,
and takes the bytes that it reads off the front of the stream. -/
theorem reader_is_automaton (bytes : List UInt8) (n : ℕ) (hn : bytes.length < n) :
    (∀ s : Stream, s.unread.length < n → ∃ key t, readCommand n s = some (key, t) ∧ key ≠ .dummy ∧
      ∃ used, s.unread = used ++ t.unread ∧ t.taken = s.taken ++ used) ∧
      readKeys n n ⟨bytes, []⟩ = some (output Mode.step .ground bytes, ⟨[], bytes⟩) := by
  refine ⟨fun s hs => ?_, readKeys_eq n n ⟨bytes, []⟩ hn hn⟩
  obtain ⟨⟨key, t⟩, hcall, hreads⟩ := (reads n).1 s hs
  obtain ⟨used, takes⟩ := hreads.takes
  exact ⟨key, t, hcall, hreads.ne_dummy, used, takes.unread, takes.taken⟩

/-- ESC `[` A, a sequence that is dropped, and CR. -/
theorem reader_is_automaton_arrow :
    (([27, 91, 65, 27, 91, 67, 13] : List UInt8).length < 8) ∧
      readKeys 8 8 ⟨[27, 91, 65, 27, 91, 67, 13], []⟩ =
        some ([.up, .enter], ⟨[], [27, 91, 65, 27, 91, 67, 13]⟩) :=
  ⟨by decide, (reader_is_automaton [27, 91, 65, 27, 91, 67, 13] 8 (by decide)).2⟩

end SikMimuw.Zad1
