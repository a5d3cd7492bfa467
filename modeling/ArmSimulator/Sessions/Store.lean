import ArmSimulator.Sessions.Damage

/-! # The link as a byte store

A debugger that only reads and writes memory sees a store of bytes with the addresses of
the memory. Its requests may come in any division into reads, with acknowledgements
between them; each is answered once, in order, with what the store says, and neither the
registers nor the rest of the memory change.
-/

namespace ArmSimulator.Sessions

open Machine Machine.Gdb Scanning Debugger Foundation.LongestMatch Foundation.ExceptRun

/-! ## Stores -/

/-- A byte for some of the addresses. -/
abbrev Store := ℕ → Option Byte

namespace Store

/-- The bytes from an address on, as far as there are any. -/
def fetch (c : Store) : ℕ → ℕ → List Byte
  | _, 0 => []
  | a, n + 1 =>
    match c a with
    | some b => b :: fetch c (a + 1) n
    | none => []

/-- Replaces bytes from an address on, as far as there are any. -/
def put (c : Store) (a : ℕ) (bs : List Byte) : Store := fun i =>
  (c i).map fun b => if a ≤ i then bs.getD (i - a) b else b

/-- The address is one of the store, and so are those of `n` bytes from there. -/
def Covers (c : Store) (a n : ℕ) : Prop := (c a).isSome ∧ ∀ k < n, (c (a + k)).isSome

instance (c : Store) (a n : ℕ) : Decidable (c.Covers a n) := inferInstanceAs (Decidable (_ ∧ _))

section Laws

variable {c c' : Store} {a : ℕ} {bs : List Byte}

theorem fetch_congr (n : ℕ) : ∀ {a : ℕ}, (∀ k < n, c (a + k) = c' (a + k)) →
    c.fetch a n = c'.fetch a n := by
  induction n with
  | zero => exact fun _ => rfl
  | succ n ih =>
    intro a h
    have hrest : c.fetch (a + 1) n = c'.fetch (a + 1) n := ih fun k hk => by
      rw [Nat.add_assoc, Nat.add_comm 1]
      exact h (k + 1) (by omega)
    have hfirst : c a = c' a := h 0 (by omega)
    rw [fetch, fetch, hfirst, hrest]

theorem isSome_put (i : ℕ) : (c.put a bs i).isSome = (c i).isSome := Option.isSome_map

theorem put_outside {i : ℕ} (hi : i < a ∨ a + bs.length ≤ i) : c.put a bs i = c i := by
  have hkeep : a ≤ i → bs[i - a]? = none := fun h => List.getElem?_eq_none (by omega)
  rw [put]
  cases c i with
  | none => rfl
  | some b =>
    rw [Option.map_some, List.getD]
    split_ifs with h
    · rw [hkeep h]
      rfl
    · rfl

theorem put_inside {k : ℕ} (hk : k < bs.length) (hcell : (c (a + k)).isSome) :
    c.put a bs (a + k) = some bs[k] := by
  obtain ⟨b, hb⟩ := Option.isSome_iff_exists.mp hcell
  rw [put, hb]
  simp [List.getD, hk]

theorem fetch_put : ∀ (bs : List Byte) (c : Store) (a : ℕ), (∀ k < bs.length, (c (a + k)).isSome) →
    (c.put a bs).fetch a bs.length = bs
  | [], _, _, _ => rfl
  | b :: bs, c, a, h => by
    have hpos : 0 < (b :: bs).length := Nat.succ_pos _
    have hfirst : c.put a (b :: bs) a = some b := put_inside hpos (h 0 hpos)
    have hcell (k : ℕ) (hk : k < bs.length) : (c (a + 1 + k)).isSome := by
      rw [Nat.add_assoc, Nat.add_comm 1]
      exact h (k + 1) (Nat.succ_lt_succ hk)
    have hrest : (c.put a (b :: bs)).fetch (a + 1) bs.length =
        (c.put (a + 1) bs).fetch (a + 1) bs.length := fetch_congr _ fun k hk => by
      have hk' : k + 1 < (b :: bs).length := Nat.succ_lt_succ hk
      have hinside := put_inside (c := c) (a := a) hk' (h (k + 1) hk')
      rw [put_inside hk (hcell k hk), Nat.add_assoc, Nat.add_comm 1, hinside]
      rfl
    rw [List.length_cons, fetch, hfirst]
    simp only [hrest, fetch_put bs c (a + 1) hcell]

end Laws

end Store

inductive Request where
  | read (a n : Word)
  | write (a : Word) (bs : List Byte)

/-- The store after a request, and the payload of the answer. -/
def serve (c : Store) : Request → Store × List Byte
  | .read a n => (c, (c.fetch a.toNat n.toNat).flatMap sprintf02x)
  | .write a bs =>
    (c.put a.toNat bs, if c.Covers a.toNat bs.length then ascii "OK" else ascii "E02")

def serveAll (c : Store) : List Request → Store × List (List Byte)
  | [] => (c, [])
  | q :: qs => ((serveAll (serve c q).1 qs).1, (serve c q).2 :: (serveAll (serve c q).1 qs).2)

/-- The request writes none of the cells from `a` up to `a + n`. -/
def Request.Spares (a n : ℕ) : Request → Prop
  | .read _ _ => True
  | .write a' bs => ∀ k < n, a + k < a'.toNat ∨ a'.toNat + bs.length ≤ a + k

section Serving

variable {c : Store} {qs qs' : List Request} {a n : ℕ}

theorem serveAll_append : serveAll c (qs ++ qs') =
    ((serveAll (serveAll c qs).1 qs').1,
      (serveAll c qs).2 ++ (serveAll (serveAll c qs).1 qs').2) := by
  induction qs generalizing c with
  | nil => rfl
  | cons q qs ih => rw [List.cons_append, serveAll, ih]; rfl

theorem isSome_serveAll (i : ℕ) : ((serveAll c qs).1 i).isSome = (c i).isSome := by
  induction qs generalizing c with
  | nil => rfl
  | cons q qs ih =>
    rw [serveAll, ih]
    cases q with
    | read a n => rfl
    | write a bs => exact Store.isSome_put i

theorem serveAll_spared (h : ∀ q ∈ qs, q.Spares a n) :
    ∀ k < n, (serveAll c qs).1 (a + k) = c (a + k) := by
  induction qs generalizing c with
  | nil => exact fun _ _ => rfl
  | cons q qs ih =>
    obtain ⟨hq, hqs⟩ := List.forall_mem_cons.mp h
    intro k hk
    rw [serveAll, ih hqs k hk]
    cases q with
    | read a n => rfl
    | write a bs => exact Store.put_outside (hq k hk)

/-- What has been written is read later, if no write in between has touched it. -/
theorem serveAll_kept (before : List Request) {between : List Request} {a n : Word}
    {bs : List Byte}
    (hn : n.toNat = bs.length) (hcells : ∀ k < bs.length, (c (a.toNat + k)).isSome)
    (hspared : ∀ q ∈ between, q.Spares a.toNat bs.length) :
    ∃ replies, (serveAll c (before ++ .write a bs :: (between ++ [.read a n]))).2 =
      replies ++ [bs.flatMap sprintf02x] := by
  have hfetch : ((serveAll (((serveAll c before).1).put a.toNat bs) between).1).fetch a.toNat
      n.toNat = bs := by
    have hcells' : ∀ k < bs.length, ((serveAll c before).1 (a.toNat + k)).isSome := fun k hk => by
      rw [isSome_serveAll]
      exact hcells k hk
    rw [hn, Store.fetch_congr _ (serveAll_spared hspared), Store.fetch_put bs _ _ hcells']
  rw [serveAll_append, serveAll, serveAll_append]
  refine ⟨(serveAll c before).2 ++ (serve (serveAll c before).1 (.write a bs)).2 ::
    (serveAll (((serveAll c before).1).put a.toNat bs) between).2, ?_⟩
  simp only [List.append_assoc, List.cons_append]
  congr 3
  simp only [serveAll, serve, hfetch]

end Serving

/-! ## The memory as a store -/

/-- The store that a memory is. -/
def contents (mem : Memory) : Store := fun i => mem.values[i]?

section Memory

variable (mem : Memory)

theorem fetch_contents (n : ℕ) : ∀ a, (contents mem).fetch a n =
    (mem.values.toList.drop a).take n := by
  induction n with
  | zero => exact fun _ => (List.take_zero ..).symm
  | succ n ih =>
    intro a
    by_cases ha : a < mem.values.size
    · have hcell : contents mem a = some mem.values[a] := Array.getElem?_eq_getElem ha
      rw [Store.fetch, hcell, List.drop_eq_getElem_cons (by rwa [Array.length_toList]),
        List.take_succ_cons, Array.getElem_toList, ih]
    · have hcell : contents mem a = none := Array.getElem?_eq_none (Nat.le_of_not_lt ha)
      rw [Store.fetch, hcell, List.drop_eq_nil_of_le (by rw [Array.length_toList]; omega),
        List.take_nil]

theorem put_contents (a : Word) (bs : List Byte) :
    contents (stored mem a bs).1 = (contents mem).put a.toNat bs := by
  have hwritten := written_stored mem a bs
  funext i
  by_cases hi : a.toNat ≤ i ∧ i < a.toNat + bs.length
  · obtain ⟨k, rfl⟩ := Nat.exists_eq_add_of_le hi.1
    have hk : k < bs.length := by omega
    by_cases hmem : a.toNat + k < mem.values.size
    · have hcell : contents mem (a.toNat + k) = some mem.values[a.toNat + k] :=
        Array.getElem?_eq_getElem hmem
      rw [contents, hwritten.inside k hk hmem, Store.put_inside hk (by rw [hcell]; rfl)]
    · have hcell : contents mem (a.toNat + k) = none :=
        Array.getElem?_eq_none (Nat.le_of_not_lt hmem)
      rw [contents, Store.put, hcell, Array.getElem?_eq_none (by rw [hwritten.size]; omega)]
      rfl
  · rw [Store.put_outside (by omega)]
    exact hwritten.outside i (by omega)

theorem covers_contents (a n : ℕ) : (contents mem).Covers a n ↔
    a < memoryGetSize mem ∧ a + n ≤ memoryGetSize mem := by
  have hcell (i : ℕ) : (contents mem i).isSome ↔ i < mem.values.size := by
    rw [contents]
    simp
  unfold Store.Covers memoryGetSize
  simp only [hcell]
  constructor
  · rintro ⟨ha, h⟩
    refine ⟨ha, ?_⟩
    rcases Nat.eq_zero_or_pos n with rfl | hn
    · omega
    · have := h (n - 1) (by omega)
      omega
  · exact fun h => ⟨h.1, fun k hk => by omega⟩

end Memory

/-! ## Requests on the line -/

/-- The packet makes the request, in one of the spellings of its numbers and bytes. A read
asks for no more than a reply has room for. -/
inductive Asks (t : PacketText) : Request → Prop where
  | read {a n : Word} {text : List Byte} (hn : n.toNat ≤ 509) (htext : IsBlock a n text)
      (hbody : t.body = char 'm' :: text) : Asks t (.read a n)
  | write {a n : Word} {bs text enc : List Byte} (hn : n.toNat = bs.length)
      (htext : IsBlock a n text) (henc : Encodes bs enc)
      (hbody : t.body = char 'X' :: (text ++ char ':' :: enc)) : Asks t (.write a bs)

/-- What may stand between packets: acknowledgements and ends of lines. -/
def IsIdle (c : Byte) : Prop := c = char '+' ∨ c = newline

/-- The bytes make the requests one after another. -/
inductive Spoken : List Request → List Byte → Prop where
  | done {idle : List Byte} (hidle : ∀ c ∈ idle, IsIdle c) : Spoken [] idle
  | request {q : Request} {qs : List Request} {idle bytes : List Byte} {t : PacketText}
      (hidle : ∀ c ∈ idle, IsIdle c) (ht : Accepted t) (hq : Asks t q) (hrest : Spoken qs bytes) :
      Spoken (q :: qs) (idle ++ (t.text ++ bytes))

theorem cuts_singles {bytes : List Byte} (h : ∀ c ∈ bytes, c ≠ char '$') :
    rules.Cuts bytes (bytes.map fun c => (single c, [c])) := by
  induction bytes with
  | nil => exact .nil
  | cons c bytes ih =>
    obtain ⟨hc, h⟩ := List.forall_mem_cons.mp h
    exact .cons (longest_single hc bytes) (ih h)

theorem makes_idle {idle : List Byte} (hidle : ∀ c ∈ idle, IsIdle c) {tokens : List Token}
    (h : Makes idle tokens) : ∀ t ∈ tokens, t = .plus := by
  obtain ⟨lexemes, hcuts, htokens⟩ := h
  have hdollar : ∀ c ∈ idle, c ≠ char '$' := by
    intro c hc
    rcases hidle c hc with rfl | rfl <;> decide
  obtain rfl := hcuts.unique (cuts_singles hdollar)
  clear hcuts hdollar
  induction idle generalizing tokens with
  | nil =>
    cases htokens
    exact List.forall_mem_nil _
  | cons c idle ih =>
    obtain ⟨hc, hidle'⟩ := List.forall_mem_cons.mp hidle
    rw [List.map_cons] at htokens
    rcases hc with rfl | rfl
    · cases htokens with
      | cons hlexeme hrest =>
        cases hlexeme
        exact List.forall_mem_cons.mpr ⟨rfl, ih hidle' hrest⟩
    · cases htokens with
      | echo hrest => exact ih hidle' hrest
      | cons hlexeme => cases hlexeme

/-! ## One request -/

section Run

variable [Host] [ByteOrder]

/-- The request has been answered as the store says. -/
structure Served (data data' : ParserData) (c : Store) (replies : List (List Byte)) : Prop where
  len : data'.len = 0
  arm : data'.gdb.arm = { data.gdb.arm with mem := data'.gdb.arm.mem }
  isBigEndian : data'.gdb.arm.mem.isBigEndian = data.gdb.arm.mem.isBigEndian
  size : memoryGetSize data'.gdb.arm.mem = memoryGetSize data.gdb.arm.mem
  store : contents data'.gdb.arm.mem = c
  written : data'.gdb.written = data.gdb.written ++
    replies.flatMap fun payload => [ascii "+", frame payload]

theorem handleRequest_served {gdb : GdbProtocolData} (hmem : memoryGetSize gdb.arm.mem < 2 ^ 32)
    {t : PacketText} {q : Request} (hq : Asks t q) (beyond : List Byte) (u : HandlerLocals)
    (turns : ℕ) : ∃ gdb' mem, handleRequest gdb u turns (requestText t beyond) = .ok gdb' ∧
      Answered { gdb with arm := { gdb.arm with mem } } (serve (contents gdb.arm.mem) q).2 gdb' ∧
      mem.isBigEndian = gdb.arm.mem.isBigEndian ∧ memoryGetSize mem = memoryGetSize gdb.arm.mem ∧
      contents mem = (serve (contents gdb.arm.mem) q).1 := by
  cases hq with
  | @read a n text hn htext hbody =>
    obtain ⟨gdb', hread, hanswered⟩ := readMemory_answered gdb
      (htext.sscanfXX (c := 0) (by decide) (t.high :: t.low :: 0 :: beyond) u.address u.size)
      ((length_bytesRead _ _ _).trans hn)
    refine ⟨gdb', gdb.arm.mem, ?_, ?_, rfl, rfl, rfl⟩
    · rw [requestText, hbody]
      exact lift_eq_ok.mpr hread
    · rw [serve, fetch_contents]
      rwa [bytesRead_eq hmem] at hanswered
  | @write a n bs text enc hn htext henc hbody =>
    obtain ⟨gdb', hwrite, hanswered⟩ := writeMemoryBinary_answered gdb hmem hn htext henc
      (0 :: t.high :: t.low :: 0 :: beyond) u
    refine ⟨gdb', (stored gdb.arm.mem a bs).1, ?_, ?_, rfl,
      (written_stored gdb.arm.mem a bs).size, put_contents _ _ _⟩
    · rw [requestText, hbody, List.cons_append, List.append_assoc, List.cons_append]
      exact lift_eq_ok.mpr hwrite
    · have hreply : writeReply gdb.arm.mem a bs = (serve (contents gdb.arm.mem) (.write a bs)).2 :=
        if_congr (covers_contents _ _ _).symm rfl rfl
      rwa [hreply] at hanswered

theorem scan_served {data : ParserData} (hlen : data.len = 0)
    (hmem : memoryGetSize data.gdb.arm.mem < 2 ^ 32) {r : Reception} (hr : Accepted r.packet)
    {q : Request} (hq : Asks r.packet q) :
    Returns (scan data (.packet r)) fun data' =>
      Served data data' (serve (contents data.gdb.arm.mem) q).1
        [(serve (contents data.gdb.arm.mem) q).2] := by
  have hack : memoryGetSize (gdbSendAck data.gdb).arm.mem < 2 ^ 32 := hmem
  obtain ⟨gdb', mem, hrun, hanswered, horder, hsize, hstore⟩ :=
    handleRequest_served hack hq r.beyond r.u r.turns
  have hmem' : gdb'.arm.mem = mem := congrArg ArmCore.mem hanswered.arm
  refine ⟨{ data with gdb := gdb' }, ?_, hlen, ?_, ?_, ?_, ?_, ?_⟩
  · have hgive : (liftM (handleError data) : Except Halt ParserData) = .ok data :=
      giveUp_of_len hlen
    rw [scan_packet, receive, hgive, ok_bind, answer, if_pos hr, hrun]
    rfl
  · rw [hmem', hanswered.arm]
    rfl
  · exact (congrArg Memory.isBigEndian hmem').trans horder
  · exact (congrArg memoryGetSize hmem').trans hsize
  · exact (congrArg contents hmem').trans hstore
  · rw [hanswered.written]
    simp [gdbSendAck, rioWriten]

/-! ## All requests -/

theorem foldlM_served {requests : List Request} {bytes : List Byte}
    (hspoken : Spoken requests bytes) {tokens : List Token} (htokens : Makes bytes tokens)
    {data : ParserData} (hlen : data.len = 0)
    (hmem : memoryGetSize data.gdb.arm.mem < 2 ^ 32) :
    Returns (tokens.foldlM scan data) fun data' =>
      Served data data' (serveAll (contents data.gdb.arm.mem) requests).1
        (serveAll (contents data.gdb.arm.mem) requests).2 := by
  have hplus : scan data .plus = .ok data := giveUp_of_len hlen
  induction hspoken generalizing tokens data with
  | done hidle =>
    refine ⟨data, foldlM_idle fun t ht => ?_, hlen, rfl, rfl, rfl, rfl, by simp [serveAll]⟩
    rw [makes_idle hidle htokens t ht, hplus]
  | @request q qs idle bytes t hidle ht hq hrest ih =>
    obtain ⟨t₁, r, t₂, h₁, rfl, h₂, rfl⟩ := htokens.packet
    have hfront : t₁.foldlM scan data = .ok data := foldlM_idle fun t ht => by
      rw [makes_idle hidle h₁ t ht, hplus]
    obtain ⟨data₁, hscan, hserved⟩ := scan_served hlen hmem ht hq
    obtain ⟨data₂, hrun, hserved₂⟩ := ih h₂ hserved.len (hserved.size ▸ hmem)
      (giveUp_of_len hserved.len)
    rw [hserved.store] at hserved₂
    refine ⟨data₂, ?_, hserved₂.len, ?_, hserved₂.isBigEndian.trans hserved.isBigEndian,
      hserved₂.size.trans hserved.size, hserved₂.store, ?_⟩
    · rw [List.foldlM_append, hfront, ok_bind, List.foldlM_cons, hscan, ok_bind, hrun]
    · rw [hserved₂.arm, hserved.arm]
    · rw [hserved₂.written, hserved.written, List.append_assoc, ← List.flatMap_append]
      rfl

theorem yylex_served {requests : List Request} {input : List Chunk}
    (hspoken : Spoken requests (received input)) {data : ParserData} (hlen : data.len = 0)
    (hmem : memoryGetSize data.gdb.arm.mem < 2 ^ 32) (last : LastAccepting)
    (env : ℕ → Surroundings) {steps turns : ℕ}
    (hsteps : 4 * (received input).length + 3 ≤ steps) (hturns : (received input).length < turns) :
    Returns (yylex steps turns env (yylexInit input last) data) fun data' =>
      Served data data' (serveAll (contents data.gdb.arm.mem) requests).1
        (serveAll (contents data.gdb.arm.mem) requests).2 := by
  obtain ⟨tokens, hmakes, -, hrun⟩ := yylex_tokens steps turns (g := yylexInit input last) env
    (proper_init input last) hsteps hturns
  obtain ⟨data', hfold, hserved⟩ := foldlM_served hspoken hmakes hlen hmem
  refine ⟨data', ?_, hserved⟩
  rw [hrun data, List.foldlM_append, hfold, ok_bind, List.foldlM_cons]
  have heof : scan data' .eof = .ok data' := giveUp_of_len hserved.len
  rw [heof]
  rfl

variable {arm : ArmCore} {blank : Packet} {errors : CharArray maxErrorSize} {input : List Chunk}
  {last : LastAccepting} {env : ℕ → Surroundings} {steps turns : ℕ}

/-- A session of reads and writes, however it is divided, is a run of the store. -/
theorem session_refines_store {requests : List Request} (hspoken : Spoken requests (received input))
    (hmem : memoryGetSize arm.mem < 2 ^ 32) (hsteps : 4 * (received input).length + 3 ≤ steps)
    (hturns : (received input).length < turns) :
    Returns (yylex steps turns env (yylexInit input last) (gdbScanner arm blank errors)) fun s =>
      s.gdb.arm = { arm with mem := s.gdb.arm.mem } ∧
      s.gdb.arm.mem.isBigEndian = arm.mem.isBigEndian ∧
      contents s.gdb.arm.mem = (serveAll (contents arm.mem) requests).1 ∧
      s.gdb.written = (serveAll (contents arm.mem) requests).2.flatMap
        fun payload => [ascii "+", frame payload] := by
  have hlen : (gdbScanner arm blank errors).len = 0 := rfl
  refine (yylex_served hspoken hlen hmem last env hsteps hturns).mono fun s hs =>
    ⟨hs.arm, hs.isBigEndian, hs.store, ?_⟩
  rw [hs.written]
  exact List.nil_append _

/-- What has been written is read later in the session, whatever is written elsewhere and
read anywhere in between. -/
theorem session_reads_written {before between : List Request} {a n : Word} {bs : List Byte}
    (hspoken : Spoken (before ++ .write a bs :: (between ++ [.read a n])) (received input))
    (hmem : memoryGetSize arm.mem < 2 ^ 32) (hn : n.toNat = bs.length)
    (hrange : a.toNat + bs.length ≤ memoryGetSize arm.mem)
    (hspared : ∀ q ∈ between, q.Spares a.toNat bs.length)
    (hsteps : 4 * (received input).length + 3 ≤ steps) (hturns : (received input).length < turns) :
    Returns (yylex steps turns env (yylexInit input last) (gdbScanner arm blank errors)) fun s =>
      ∃ log, s.gdb.written = log ++ [ascii "+", frame (bs.flatMap sprintf02x)] := by
  have hcells : ∀ k < bs.length, (contents arm.mem (a.toNat + k)).isSome := by
    intro k hk
    have hlt : a.toNat + k < arm.mem.values.size := lt_of_lt_of_le (by omega) hrange
    rw [contents, Array.getElem?_eq_getElem hlt]
    rfl
  obtain ⟨replies, hreplies⟩ := serveAll_kept before hn hcells hspared
  have hlen : (gdbScanner arm blank errors).len = 0 := rfl
  refine (yylex_served hspoken hlen hmem last env hsteps hturns).mono fun s hs =>
    ⟨replies.flatMap fun payload => [ascii "+", frame payload], ?_⟩
  have hstart : (gdbScanner arm blank errors).gdb.arm.mem = arm.mem := rfl
  rw [hs.written, hstart, hreplies, List.flatMap_append]
  exact List.nil_append _

end Run

/-! ## A write and a read -/

def eightBytes : ArmCore := ⟨0, fun _ => 0, ⟨#[0, 0, 0, 0, 0, 0, 0, 0], true⟩⟩

/-- Stores `a#.` at 3, with the second byte escaped, and reads it back. -/
def writeThenRead : List Chunk :=
  [⟨ascii "$X3,3:a" ++ [0x7d, 3], by decide⟩, ⟨ascii ".#33+$m3", by decide⟩,
    ⟨ascii ",3#ff", by decide⟩]

theorem plain_write : ∀ c ∈ ascii "X3,3:a" ++ [0x7d, 3, char '.'], c ≠ char '$' ∧ c ≠ char '#' := by
  decide

def writePacket : PacketText :=
  ⟨ascii "X3,3:a" ++ [0x7d, 3, char '.'], char '3', char '3', plain_write, reasonPacket.high_hex,
    reasonPacket.high_hex⟩

theorem plain_read : ∀ c ∈ ascii "m3,3", c ≠ char '$' ∧ c ≠ char '#' := by decide

def readPacket : PacketText :=
  ⟨ascii "m3,3", char 'f', char 'f', plain_read, reasonPacket.low_hex, reasonPacket.low_hex⟩

theorem isBlock_threeThree : IsBlock 3 3 (ascii "3,3") :=
  ⟨ascii "3", ascii "3", ⟨by decide, by decide⟩, ⟨by decide, by decide⟩, by decide⟩

theorem spoken_writeThenRead :
    Spoken [.write 3 (ascii "a#."), .read 3 3] (received writeThenRead) := by
  have hwrite : Asks writePacket (.write 3 (ascii "a#.")) :=
    .write (n := 3) (by decide) isBlock_threeThree
      (.plain (by decide) (.escaped (char '#') (.plain (by decide) .nil))) (by decide)
  have hread : Asks readPacket (.read 3 3) := .read (by decide) isBlock_threeThree (by decide)
  have hbytes : received writeThenRead =
      [] ++ (writePacket.text ++ (ascii "+" ++ (readPacket.text ++ []))) := by decide
  rw [hbytes]
  refine .request (List.forall_mem_nil _) (by decide) hwrite ?_
  refine .request (fun c hc => Or.inl ?_) (by decide) hread (.done (List.forall_mem_nil _))
  exact List.mem_singleton.mp hc

theorem eightBytes_refines_store : Returns (@yylex Host.x86 .x86 91 23 noSurroundings
    (yylexInit writeThenRead (0, 0)) (gdbScanner eightBytes blankPacket blankError)) fun s =>
      s.gdb.arm = { eightBytes with mem := s.gdb.arm.mem } ∧
      s.gdb.arm.mem.isBigEndian = eightBytes.mem.isBigEndian ∧
      contents s.gdb.arm.mem =
        (serveAll (contents eightBytes.mem) [.write 3 (ascii "a#."), .read 3 3]).1 ∧
      s.gdb.written =
        (serveAll (contents eightBytes.mem) [.write 3 (ascii "a#."), .read 3 3]).2.flatMap
          fun payload => [ascii "+", frame payload] :=
  @session_refines_store Host.x86 .x86 _ _ _ _ _ _ _ _ _ spoken_writeThenRead (by decide)
    (by decide) (by decide)

theorem eightBytes_reads_written : Returns (@yylex Host.x86 .x86 91 23 noSurroundings
    (yylexInit writeThenRead (0, 0)) (gdbScanner eightBytes blankPacket blankError)) fun s =>
      ∃ log, s.gdb.written = log ++ [ascii "+", frame ((ascii "a#.").flatMap sprintf02x)] :=
  @session_reads_written Host.x86 .x86 _ _ _ _ _ _ _ _ [] [] 3 3 (ascii "a#.") spoken_writeThenRead
    (by decide) (by decide) (by decide) (List.forall_mem_nil _) (by decide) (by decide)

end ArmSimulator.Sessions
