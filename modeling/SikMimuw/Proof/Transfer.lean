import SikMimuw.Lib.Run
import SikMimuw.Model.Transfer

/-!
# What becomes of the files

If every client finds its file, every name came whole with the first read: a part of a longest name
would be the path of nobody's file, and so on down to the shorter names. After the last of these
reads all that comes goes to the file of that client, and its own NUL is among it.

* `Inv`: the invariant. A file has the path that a connection was opened for, and what the last
  one of them has sent since is in its file.
* `whole_names`: the first part of the argument.
* `delivered_none`: the content of the files after all streams were read.
-/

namespace SikMimuw.Transfer

open Lts

variable {clients : List Client} {s t : Server} {e : Event} {i : ℕ} {k : Connection}
  {path filename rest buf name : List UInt8} {offset : ℕ}

/-- Every client finds its content in its file. -/
def Delivered (clients : List Client) (s : Server) : Prop :=
  ∀ c ∈ clients, s.files (copyPath c.name) = some c.content

/-- The connection is at the end of its stream, or was refused. -/
def Connection.Done : Connection → Prop
  | .receiving _ rest => rest = []
  | .closed => True
  | _ => False

/-- All streams were read. -/
def Done (s : Server) : Prop := ∀ k ∈ s.connections, k.Done

/-- A connection of client `c`. -/
def Connection.Of (c : Client) : Connection → Prop
  | .waiting rest | .naming rest => rest = c.stream
  | .receiving filename _ => ∃ name, filename = copyPath name ∧ name <+: c.name
  | .closed => True

/-- **The last name**: `filedesc` is the file of a client, and holds what was read of its stream
behind the name. -/
structure Last (clients : List Client) (s : Server) (path : List UInt8) (offset i : ℕ)
    (rest : List UInt8) : Prop where
  filedesc : s.filedesc = some (path, offset)
  file : ∃ content, s.files path = some content ∧ offset ≤ content.length
  connection : s.connections[i]? = some (.receiving path rest)
  sent : ∀ c, clients[i]? = some c → ∀ name, path = copyPath name →
    c.stream.length ≤ name.length + offset + rest.length

/-- **The invariant.** -/
structure Inv (clients : List Client) (s : Server) : Prop where
  length : s.connections.length = clients.length
  of : ∀ (i : ℕ) (c : Client) (k : Connection),
    clients[i]? = some c → s.connections[i]? = some k → k.Of c
  opened : ∀ path, s.files path ≠ none → ∃ (i : ℕ) (rest : List UInt8),
    s.connections[i]? = some (.receiving path rest)
  last : (s.filedesc = none ∧ ∀ path, s.files path = none) ∨
    ∃ path offset i rest, Last clients s path offset i rest

theorem copyPath_inj {name name' : List UInt8} (h : copyPath name = copyPath name') : name = name' :=
  List.append_cancel_left h

theorem init_inv (clients : List Client) : Inv clients (init clients) where
  length := List.length_map _
  of i c k hc hk := by
    have hk' : (clients.map fun c => Connection.waiting c.stream)[i]? = some k := hk
    rw [List.getElem?_map, hc] at hk'
    obtain rfl := Option.some.inj hk'
    rfl
  opened _ h := absurd rfl h
  last := Or.inl ⟨rfl, fun _ => rfl⟩

theorem getElem?_set_self (h : s.connections[i]? = some k) (k' : Connection) :
    (s.setConnection i k').connections[i]? = some k' := by
  obtain ⟨hi, -⟩ := List.getElem?_eq_some_iff.1 h
  exact List.getElem?_set_self hi

theorem getElem?_set_ne {j : ℕ} (h : j ≠ i) (k' : Connection) :
    (s.setConnection i k').connections[j]? = s.connections[j]? := List.getElem?_set_ne h.symm

/-- The connections stay those of their clients. -/
theorem Inv.of_set (h : Inv clients s) {k' : Connection} (hk : s.connections[i]? = some k)
    (hof : ∀ c, clients[i]? = some c → k'.Of c) : ∀ (j : ℕ) (c : Client) (k : Connection),
    clients[j]? = some c → (s.setConnection i k').connections[j]? = some k → k.Of c := by
  intro j c k1 hc hj
  by_cases hji : j = i
  · subst hji
    rw [getElem?_set_self hk, Option.some.injEq] at hj
    subst hj
    exact hof c hc
  · rw [getElem?_set_ne hji] at hj
    exact h.of j c k1 hc hj

/-- **A connection without a file** changes to another. -/
theorem Inv.set (h : Inv clients s) {k' : Connection} (hk : s.connections[i]? = some k)
    (hfile : ∀ filename rest, k ≠ .receiving filename rest)
    (hof : ∀ c, clients[i]? = some c → k'.Of c) : Inv clients (s.setConnection i k') := by
  have hne : ∀ {j : ℕ} {path rest : List UInt8}, s.connections[j]? = some (.receiving path rest) →
      j ≠ i := by
    rintro j path rest hj rfl
    rw [hk, Option.some.injEq] at hj
    exact hfile _ _ hj
  refine ⟨?_, h.of_set hk hof, fun path hp => ?_, ?_⟩
  · show (s.connections.set i k').length = _
    rw [List.length_set, h.length]
  · obtain ⟨j, rest, hj⟩ := h.opened path hp
    exact ⟨j, rest, by rw [getElem?_set_ne (hne hj), hj]⟩
  · rcases h.last with hnone | ⟨path, offset, j, rest, hl⟩
    · exact Or.inl hnone
    · refine Or.inr ⟨path, offset, j, rest, hl.filedesc, hl.file, ?_, hl.sent⟩
      rw [getElem?_set_ne (hne hl.connection), hl.connection]

theorem length_overwrite {content b : List UInt8} (h : offset ≤ content.length) :
    offset + b.length ≤ (overwrite content offset b).length := by
  unfold overwrite
  rw [List.length_append, List.length_append, List.length_take, Nat.min_eq_left h]
  omega

theorem write_none {bytes : List UInt8} (h : s.filedesc = none) :
    s.write bytes = { s with exited := true } := by
  unfold Server.write
  rw [h]

theorem write_some {bytes : List UInt8} (h : s.filedesc = some (path, offset)) :
    s.write bytes = { s with
      files := Function.update s.files path ((s.files path).map fun c => overwrite c offset bytes)
      filedesc := some (path, offset + bytes.length) } := by
  unfold Server.write
  rw [h]

/-- **A read of a connection with a file** goes to `filedesc`, whatever that is. -/
theorem Inv.receive (h : Inv clients s) {r : ℕ}
    (hk : s.connections[i]? = some (.receiving filename rest)) (hr : r ≤ rest.length) :
    Inv clients ((s.write (rest.take r)).setConnection i (.receiving filename (rest.drop r))) := by
  have hlen : (rest.take r).length = r := by
    rw [List.length_take, Nat.min_eq_left hr]
  have hof : ∀ c, clients[i]? = some c → (Connection.receiving filename (rest.drop r)).Of c :=
    fun c hc => h.of i c (.receiving filename rest) hc hk
  -- a connection with a file keeps it
  have hkeep : ∀ {path : List UInt8}, (∃ (j : ℕ) (rest : List UInt8),
      s.connections[j]? = some (.receiving path rest)) → ∃ (j : ℕ) (rest' : List UInt8),
      (s.setConnection i (.receiving filename (rest.drop r))).connections[j]? =
        some (.receiving path rest') := by
    rintro path ⟨j, rest', hj⟩
    by_cases hji : j = i
    · subst hji
      rw [hk, Option.some.injEq, Connection.receiving.injEq] at hj
      obtain ⟨rfl, -⟩ := hj
      exact ⟨j, _, getElem?_set_self hk _⟩
    · exact ⟨j, rest', by rw [getElem?_set_ne hji, hj]⟩
  have hlength : (s.setConnection i (.receiving filename (rest.drop r))).connections.length =
      clients.length := by
    rw [← h.length]
    exact List.length_set
  rcases h.last with ⟨hfd, hnone⟩ | ⟨path, offset, j, rest', hl⟩
  · rw [write_none hfd]
    exact ⟨hlength, h.of_set hk hof, fun path hp => absurd (hnone path) hp, Or.inl ⟨hfd, hnone⟩⟩
  · rw [write_some hl.filedesc]
    obtain ⟨content, hfile, hoff⟩ := hl.file
    refine ⟨hlength, h.of_set hk hof, fun p hp => hkeep (h.opened p ?_), Or.inr ?_⟩
    · by_cases hpp : p = path
      · subst hpp
        rw [hfile]
        exact fun hc => (nomatch hc)
      · change Function.update s.files path _ p ≠ none at hp
        rwa [Function.update_of_ne hpp] at hp
    · have hfile' : ∃ content', Function.update s.files path ((s.files path).map fun c =>
          overwrite c offset (rest.take r)) path = some content' ∧
          offset + (rest.take r).length ≤ content'.length := by
        rw [Function.update_self, hfile]
        exact ⟨_, rfl, length_overwrite hoff⟩
      by_cases hji : j = i
      · -- the client of `filedesc` itself
        subst hji
        have hsame := hl.connection
        rw [hk, Option.some.injEq, Connection.receiving.injEq] at hsame
        obtain ⟨rfl, rfl⟩ := hsame
        refine ⟨_, _, j, rest.drop r, rfl, hfile', getElem?_set_self hk _, fun c hc name hn => ?_⟩
        have := hl.sent c hc name hn
        rw [hlen, List.length_drop]
        omega
      · refine ⟨_, _, j, rest', rfl, hfile', ?_, fun c hc name hn => ?_⟩
        · show (s.setConnection i _).connections[j]? = _
          rw [getElem?_set_ne hji, hl.connection]
        · have := hl.sent c hc name hn
          omega

/-- The string in a buffer that holds the beginning of a stream. -/
theorem bufString_prefix (c : Client) (r : ℕ) : bufString (c.stream.take r) <+: c.name := by
  have hname : c.stream.takeWhile (· ≠ 0) = c.name := by
    apply CStr.takeWhile_append_cons
    · intro b hb
      rw [decide_eq_true_eq]
      exact ne_of_mem_of_not_mem hb c.name_ne
    · exact decide_eq_false (fun h => h rfl)
  rw [← hname]
  unfold bufString
  generalize c.stream = l
  induction l generalizing r with
  | nil => simp
  | cons b l ih =>
    cases r with
    | zero => exact List.nil_prefix
    | succ r =>
      rw [List.take_succ_cons, List.takeWhile_cons, List.takeWhile_cons]
      split
      · exact List.cons_prefix_cons.2 ⟨rfl, ih r⟩
      · exact List.prefix_refl _

/-- What `read_filename` does to the files. -/
theorem readFilename_eq (s : Server) (i : ℕ) (buf rest : List UInt8) : ∃ content : List UInt8,
    buf.length - (bufString buf).length ≤ content.length ∧
    s.readFilename i buf rest = ({ s with
      files := Function.update s.files (copyPath (bufString buf)) (some content)
      filedesc := some (copyPath (bufString buf), buf.length - (bufString buf).length) } :
        Server).setConnection i (.receiving (copyPath (bufString buf)) rest) := by
  have hle : (bufString buf).length ≤ buf.length := (List.takeWhile_prefix _).length_le
  unfold Server.readFilename
  dsimp only
  by_cases hn : (bufString buf).length ≠ buf.length
  · rw [if_pos hn, write_some rfl]
    refine ⟨overwrite ((s.files (copyPath (bufString buf))).getD []) 0
      (buf.drop (bufString buf).length), ?_, ?_⟩
    · have := length_overwrite (b := buf.drop (bufString buf).length)
        (Nat.zero_le ((s.files (copyPath (bufString buf))).getD []).length)
      rwa [Nat.zero_add, List.length_drop] at this
    · unfold Server.openFile
      dsimp only
      rw [Function.update_self, Function.update_idem, Option.map_some, Nat.zero_add, List.length_drop]
  · rw [if_neg hn]
    rw [not_not] at hn
    refine ⟨(s.files (copyPath (bufString buf))).getD [], ?_, ?_⟩
    · omega
    · rw [hn, Nat.sub_self]
      rfl

/-- **The first read of a connection** opens a file, and what it has read behind the name goes
there. -/
theorem Inv.readFilename (h : Inv clients s) {r : ℕ} (hk : s.connections[i]? = some (.naming rest))
    (hr : r ≤ rest.length) : Inv clients (s.readFilename i (rest.take r) (rest.drop r)) := by
  obtain ⟨content, hlen, heq⟩ := readFilename_eq s i (rest.take r) (rest.drop r)
  have hrest : ∀ c, clients[i]? = some c → rest = c.stream :=
    fun c hc => h.of i c (.naming rest) hc hk
  rw [heq]
  refine ⟨?_, h.of_set hk fun c hc => ?_, fun p hp => ?_, Or.inr ?_⟩
  · show (s.connections.set i _).length = _
    rw [List.length_set, h.length]
  · obtain rfl := hrest c hc
    exact ⟨_, rfl, bufString_prefix c r⟩
  · by_cases hpp : p = copyPath (bufString (rest.take r))
    · subst hpp
      exact ⟨i, _, getElem?_set_self hk _⟩
    · change Function.update s.files _ _ p ≠ none at hp
      rw [Function.update_of_ne hpp] at hp
      obtain ⟨j, rest', hj⟩ := h.opened p hp
      refine ⟨j, rest', ?_⟩
      show (s.setConnection i _).connections[j]? = _
      rw [getElem?_set_ne _, hj]
      rintro rfl
      rw [hk] at hj
      cases hj
  · refine ⟨_, _, i, rest.drop r, rfl, ⟨content, Function.update_self _ _ _, hlen⟩,
      getElem?_set_self hk _, fun c hc name hn => ?_⟩
    obtain rfl := copyPath_inj hn
    obtain rfl := hrest c hc
    rw [List.length_drop, List.length_take, Nat.min_eq_left hr]
    omega

/-- What a callback does. -/
inductive StepCase (s : Server) : Server → Prop
  | accept {i : ℕ} {rest : List UInt8} (hk : s.connections[i]? = some (.waiting rest)) :
      StepCase s (s.setConnection i (.naming rest))
  | refuse {i : ℕ} {rest : List UInt8} (hk : s.connections[i]? = some (.waiting rest)) :
      StepCase s (s.setConnection i .closed)
  | leave {i : ℕ} (hk : s.connections[i]? = some (.naming [])) :
      StepCase s (s.setConnection i .closed)
  | name {i r : ℕ} {rest : List UInt8} (hk : s.connections[i]? = some (.naming rest))
      (hr : r ≤ rest.length) : StepCase s (s.readFilename i (rest.take r) (rest.drop r))
  | exit : StepCase s { s with exited := true }
  | receive {i r : ℕ} {filename rest : List UInt8}
      (hk : s.connections[i]? = some (.receiving filename rest)) (hr : r ≤ rest.length) :
      StepCase s
        ((s.write (rest.take r)).setConnection i (.receiving filename (rest.drop r)))

theorem step_case (hst : step s e = some t) : StepCase s t := by
  unfold step at hst
  by_cases hex : s.exited = true
  · rw [if_pos hex] at hst
    cases hst
  rw [if_neg hex] at hst
  cases e with
  | accept i =>
    cases hk : s.connections[i]? with
    | none => simp only [hk] at hst; cases hst
    | some k =>
      simp only [hk] at hst
      cases k with
      | waiting rest =>
        dsimp only at hst
        split at hst
        · obtain rfl := Option.some.inj hst
          exact .accept hk
        · obtain rfl := Option.some.inj hst
          exact .refuse hk
      | naming => cases hst
      | receiving => cases hst
      | closed => cases hst
  | read i r =>
    cases hk : s.connections[i]? with
    | none => simp only [hk] at hst; cases hst
    | some k =>
      simp only [hk] at hst
      cases k with
      | waiting => cases hst
      | closed => cases hst
      | naming rest =>
        dsimp only at hst
        by_cases hnil : rest = []
        · rw [if_pos hnil] at hst
          obtain rfl := Option.some.inj hst
          subst hnil
          exact .leave hk
        · rw [if_neg hnil] at hst
          split at hst
          · rename_i hr
            obtain rfl := Option.some.inj hst
            exact .name hk hr.2.2
          · cases hst
      | receiving filename rest =>
        dsimp only at hst
        by_cases hnil : rest = []
        · rw [if_pos hnil] at hst
          obtain rfl := Option.some.inj hst
          exact .exit
        · rw [if_neg hnil] at hst
          split at hst
          · rename_i hr
            obtain rfl := Option.some.inj hst
            exact .receive hk hr.2.2
          · cases hst

/-- **A callback** keeps the invariant. -/
theorem Inv.step (h : Inv clients s) (hst : step s e = some t) : Inv clients t := by
  cases step_case hst with
  | @accept i rest hk =>
    exact h.set hk (fun _ _ hc => (nomatch hc)) fun c hc => h.of i c (.waiting rest) hc hk
  | refuse hk => exact h.set hk (fun _ _ hc => (nomatch hc)) fun _ _ => trivial
  | leave hk => exact h.set hk (fun _ _ hc => (nomatch hc)) fun _ _ => trivial
  | name hk hr => exact h.readFilename hk hr
  | receive hk hr => exact h.receive hk hr
  | exit =>
    refine ⟨h.length, h.of, h.opened, h.last.imp id ?_⟩
    rintro ⟨path, offset, j, rest, hl⟩
    exact ⟨path, offset, j, rest, hl.filedesc, hl.file, hl.connection, hl.sent⟩

/-! ### Whose file is whose -/

/-- **Every name came whole**: the connection that was opened for the name of a client is its own. -/
theorem whole_names (h : Inv clients s) (hd : Delivered clients s)
    (hnodup : (clients.map Client.name).Nodup) : ∀ (n i : ℕ) (c : Client), 15 - c.name.length = n →
    clients[i]? = some c → ∃ rest, s.connections[i]? = some (.receiving (copyPath c.name) rest) := by
  intro n
  induction n using Nat.strong_induction_on with
  | _ n ih =>
    intro i c hn hc
    have hfile : s.files (copyPath c.name) ≠ none := by
      rw [hd c (List.mem_of_getElem? hc)]
      exact fun hc => (nomatch hc)
    obtain ⟨j, rest, hj⟩ := h.opened _ hfile
    have hjlen : j < clients.length := by
      rw [← h.length]
      exact (List.getElem?_eq_some_iff.1 hj).1
    obtain ⟨d, hdj⟩ : ∃ d, clients[j]? = some d := ⟨_, List.getElem?_eq_getElem hjlen⟩
    obtain ⟨name, hname, hpre⟩ := h.of j d _ hdj hj
    obtain rfl := copyPath_inj hname
    by_cases hij : j = i
    · subst hij
      exact ⟨rest, hj⟩
    · -- the connection is another client's, whose name is longer and came whole
      exfalso
      have hne : c.name ≠ d.name := by
        intro he
        apply hij
        apply (List.getElem?_inj (by rwa [List.length_map]) hnodup).1
        rw [List.getElem?_map, List.getElem?_map, hdj, hc, Option.map_some, Option.map_some, he]
      have hlt : c.name.length < d.name.length := by
        rcases Nat.lt_or_ge c.name.length d.name.length with hlt | hge
        · exact hlt
        · exact absurd (hpre.eq_of_length_le hge) hne
      have hle := d.name_le
      obtain ⟨rest', hrest'⟩ := ih (15 - d.name.length) (by omega) j d rfl hdj
      rw [hj, Option.some.injEq, Connection.receiving.injEq] at hrest'
      exact hne (copyPath_inj hrest'.1)

/-- **The last name gets its NUL**: a server that has read all streams of some clients has not
delivered all of their files. -/
theorem not_delivered (h : Inv clients s) (hdone : Done s)
    (hnodup : (clients.map Client.name).Nodup) (hne : clients ≠ []) : ¬ Delivered clients s := by
  intro hd
  rcases h.last with ⟨-, hnone⟩ | ⟨path, offset, i, rest, hl⟩
  · obtain ⟨c, hc⟩ := List.exists_mem_of_ne_nil clients hne
    have := hd c hc
    rw [hnone] at this
    cases this
  · have hilen : i < clients.length := by
      rw [← h.length]
      exact (List.getElem?_eq_some_iff.1 hl.connection).1
    obtain ⟨c, hc⟩ : ∃ c, clients[i]? = some c := ⟨_, List.getElem?_eq_getElem hilen⟩
    obtain ⟨rest', hwhole⟩ := whole_names h hd hnodup _ i c rfl hc
    rw [hl.connection, Option.some.injEq, Connection.receiving.injEq] at hwhole
    obtain ⟨rfl, -⟩ := hwhole
    have hrest : rest = [] := hdone _ (List.mem_of_getElem? hl.connection)
    subst hrest
    obtain ⟨content, hfile, hoff⟩ := hl.file
    rw [hd c (List.mem_of_getElem? hc), Option.some.injEq] at hfile
    subst hfile
    have hsent := hl.sent c hc _ rfl
    have hstream : c.stream.length = c.name.length + (c.content.length + 1) := by
      rw [Client.stream, List.length_append, List.length_cons]
    rw [hstream, List.length_nil] at hsent
    omega

/-- **The delivered files.** However the streams are split and the callbacks come in turn, when
all streams were read the files are delivered exactly if there are no clients. -/
theorem delivered_none {clients : List Client} {es : List Event} {s : Server}
    (hnodup : (clients.map Client.name).Nodup) (h : Run (Fires step) (init clients) es s)
    (hdone : Done s) : Delivered clients s ↔ clients = [] := by
  have hinv : Inv clients s := h.inv (init_inv clients) fun s e t hI hst => hI.step hst
  constructor
  · intro hd
    by_contra hne
    exact not_delivered hinv hdone hnodup hne hd
  · rintro rfl c hc
    cases hc

/-- Clients with the files `a` and `b`. -/
def twoClients : List Client :=
  [⟨[97], [1], by decide, by decide, by decide⟩, ⟨[98], [2, 3], by decide, by decide, by decide⟩]

/-- Both streams are read, and the second file is open all the while. -/
theorem delivered_none_two : ∃ s : Server, s.files (copyPath [98]) = some [0, 2, 0, 1, 3] ∧
    ¬ Delivered twoClients s := by
  have h : ∃ s, exec step (init twoClients)
      [.accept 0, .accept 1, .read 0 1, .read 1 3, .read 0 2, .read 1 1] = some s ∧
      s.files (copyPath [98]) = some [0, 2, 0, 1, 3] ∧
      s.connections = [.receiving (copyPath [97]) [], .receiving (copyPath [98]) []] :=
    ⟨_, rfl, rfl, rfl⟩
  obtain ⟨s, hs, hf, hk⟩ := h
  have hdone : Done s := by
    intro k hmem
    rw [hk] at hmem
    simp only [List.mem_cons, List.not_mem_nil, or_false] at hmem
    rcases hmem with rfl | rfl
    · rfl
    · rfl
  refine ⟨s, hf, fun hd => ?_⟩
  have hnil := (delivered_none (by decide) (exec_run hs) hdone).1 hd
  cases hnil

/-- One client with the file `a`, in one read. -/
theorem nul_added : ¬ ∀ (clients : List Client) (es : List Event) (s : Server),
    (clients.map Client.name).Nodup → Run (Fires step) (init clients) es s → Done s →
    Delivered clients s := by
  intro hall
  have h : ∃ s, exec step (init [⟨[97], [1], by decide, by decide, by decide⟩])
      [.accept 0, .read 0 3] = some s ∧ s.files (copyPath [97]) = some [0, 1] ∧
      s.connections = [.receiving (copyPath [97]) []] := ⟨_, rfl, rfl, rfl⟩
  obtain ⟨s, hs, hf, hk⟩ := h
  have hdone : Done s := by
    intro k hmem
    rw [hk, List.mem_singleton] at hmem
    subst hmem
    rfl
  have hd := hall _ _ _ (by decide) (exec_run hs) hdone _ (List.mem_singleton_self _)
  rw [hf] at hd
  exact absurd hd (by decide)

end SikMimuw.Transfer
