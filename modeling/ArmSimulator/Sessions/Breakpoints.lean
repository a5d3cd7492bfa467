import ArmSimulator.Footprint.Frame
import ArmSimulator.Sessions.Store

/-! # Breakpoints in memory

To stop a program in front of an instruction a debugger stores a breakpoint over it, lets
the program continue and stores the old bytes again. A program that does not access these
bytes is then where it would have come to without a debugger, in every register and every
byte of memory.
-/

namespace ArmSimulator.Sessions

open Machine Machine.Gdb Storage Decoding Exceptions Scanning Debugger Footprint
  Foundation.Overlay Foundation.ExceptRun

variable {s : Cover Byte} {p p' : ArmCore}

/-! ## The loop up to a breakpoint -/

section Loop

variable [Host]

theorem read_of_armStep {u : Locals} {r : Int × ArmCore} (h : armStep u p = .ok r) (old : Word) :
    ∃ pc, armReadRegister p 15 = .ok pc ∧
      Returns (armReadWord p (pc - 4) old) fun _ => True := by
  obtain ⟨res, inst, p₁, hfetch, -⟩ := armStep_returns h
  obtain ⟨pc, hpc, hfetch⟩ := bind_eq_ok.mp hfetch
  obtain ⟨⟨res', word⟩, hread, -⟩ := bind_eq_ok.mp hfetch
  refine ⟨pc, hpc, ?_⟩
  by_cases hin : Admitted p.mem .word (pc - 4)
  · exact ⟨_, (memoryRead_admitted (n := .word) hin old u.inst).trans hread, trivial⟩
  · exact ⟨_, memoryRead_rejected (n := .word) hin old, trivial⟩

theorem contLoop_of_stepsTo {k turns : ℕ} {steps : ℕ → Locals} (hk : k < turns)
    (h : StepsTo k steps p p') (hbreak : AtBreakpoint p') {instruction : Word}
    (hpeek : ¬ IsBreakpoint instruction ∨ ∃ w, Fetches p w) (e : Int) :
    ∃ e', contLoop turns steps instruction p e = .ok (p', e') := by
  induction k generalizing turns steps p instruction e with
  | zero =>
    obtain ⟨turns, rfl⟩ := Nat.exists_eq_add_of_lt hk
    obtain rfl : p = p' := Except.ok.inj h.run
    rw [Nat.zero_add]
    exact ⟨e, contLoop_atBreakpoint steps instruction e hbreak⟩
  | succ k ih =>
    obtain ⟨turns, rfl⟩ : ∃ n, turns = n + 1 := ⟨turns - 1, by omega⟩
    obtain ⟨hclear, ⟨e₁, p₁⟩, hstep, hrest⟩ := stepsTo_inv h
    obtain ⟨pc, hpc, ⟨r, w⟩, hread, -⟩ := read_of_armStep hstep instruction
    have ha : fetchAddress p = .ok (pc - 4) := by
      rw [fetchAddress, hpc]
      rfl
    have hw : ¬ IsBreakpoint w := by
      rcases read_next ha hread with hfetch | ⟨rfl, hnone⟩
      · exact fun hw => hclear ⟨w, hfetch, hw⟩
      · rcases hpeek with hstale | ⟨x, hx⟩
        · exact hstale
        · exact absurd hx (hnone x)
    obtain ⟨e', hloop⟩ := ih (Nat.lt_of_succ_lt_succ hk) hrest (Or.inl hw) e₁
    exact ⟨e', (contLoop_step hpc hread hw hstep e).trans hloop⟩

/-! ## Under a cover -/

omit [Host] in
theorem fetches_cover {w : Word}
    (h : Ensures (fetchAddress p) fun a => Admitted p.mem .word a → Apart s .word a) :
    Fetches (cover s p) w ↔ Fetches p w := by
  refine exists_congr fun a => and_congr_right fun ha => forall_congr' fun old => ?_
  have hread : armReadWord (cover s p) a old = armReadWord p a old :=
    armReadWord_recode (recoding_covered s) (h a ha) old
  rw [hread]

theorem stepsTo_cover {k : ℕ} {steps : ℕ → Locals} (h : StepsTo k steps p p')
    (hspares : RunFits (Apart s) (stepEvents k steps) p) :
    StepsTo k steps (cover s p) (cover s p') := by
  induction k generalizing steps p with
  | zero =>
    obtain rfl : p = p' := Except.ok.inj h.run
    exact stepsTo_zero _ _
  | succ k ih =>
    obtain ⟨hclear, ⟨e, q⟩, hr, hrest⟩ := stepsTo_inv h
    have hstep : armStep (steps 0) (cover s p) = .ok (e, cover s q) := by
      rw [armStep_cover hspares.1, hr]
      rfl
    refine stepsTo_succ ?_ hstep (ih hrest (hspares.2 q (map_eq_ok.mpr ⟨_, hr, rfl⟩)))
    rintro ⟨w, hw, hbreak⟩
    exact hclear ⟨w, (fetches_cover hspares.1.fetch).mp hw, hbreak⟩

/-- A program that keeps clear of the covered bytes continues up to the first breakpoint among
them. -/
theorem contLoop_cover {k turns : ℕ} {steps : ℕ → Locals} (hk : k < turns)
    (h : StepsTo k steps p p') (hspares : RunFits (Apart s) (stepEvents k steps) p)
    (hbreak : AtBreakpoint (cover s p')) (hfirst : ∃ w, Fetches (cover s p) w)
    (instruction : Word) (e : Int) :
    ∃ e', contLoop turns steps instruction (cover s p) e = .ok (cover s p', e') :=
  contLoop_of_stepsTo hk (stepsTo_cover h hspares) hbreak (Or.inr hfirst) e

end Loop

/-! ## Requests as covers -/

/-- The bytes that requests leave in the memory. -/
def edits : List Request → Cover Byte
  | [] => fun _ => none
  | .read _ _ :: requests => edits requests
  | .write a bs :: requests =>
    (edits requests).upon fun i => if a.toNat ≤ i then bs[i - a.toNat]? else none

theorem edits_append (before after : List Request) :
    edits (before ++ after) = (edits after).upon (edits before) := by
  induction before with
  | nil =>
    funext i
    exact (Option.or_none).symm
  | cons q before ih =>
    cases q with
    | read a n => exact ih
    | write a bs =>
      rw [List.cons_append, edits, ih, edits]
      funext i
      exact Option.or_assoc

theorem serveAll_edits (requests : List Request) (c : Store) (i : ℕ) :
    (serveAll c requests).1 i = (c i).map (edits requests i).getD := by
  induction requests generalizing c with
  | nil => cases hc : c i <;> simp [serveAll, edits, hc]
  | cons q requests ih =>
    rw [serveAll, ih]
    cases q with
    | read a n => rfl
    | write a bs =>
      simp only [serve, Store.put, Option.map_map, edits, Cover.upon]
      congr 1
      funext b
      cases edits requests i with
      | some x => rfl
      | none =>
        simp only [Function.comp_apply, Option.getD_none, Option.none_or]
        split_ifs
        · exact List.getD_eq_getElem?_getD
        · rfl

theorem Served.cover {data data' : ParserData} {requests : List Request}
    {replies : List (List Byte)}
    (h : Served data data' (serveAll (contents data.gdb.arm.mem) requests).1 replies) :
    data'.gdb.arm = cover (edits requests) data.gdb.arm := by
  have hvalues : data'.gdb.arm.mem.values = (edits requests).overlay data.gdb.arm.mem.values := by
    apply Array.ext_getElem?
    intro i
    rw [Cover.getElem?_overlay]
    exact (congrFun h.store i).trans (serveAll_edits requests _ i)
  have hmem : data'.gdb.arm.mem = covered (edits requests) data.gdb.arm.mem := by
    rw [covered, ← hvalues, ← h.isBigEndian]
  rw [h.arm, hmem]
  rfl

theorem cover_cover (s t : Cover Byte) (p : ArmCore) :
    cover t (cover s p) = cover (t.upon s) p := by
  rw [cover, cover, cover, covered, covered, covered, Cover.overlay_overlay]

section Session

variable [Host] [ByteOrder]

/-- The run of a program up to where a debugger wants it to stop: `plant` stores the
breakpoints, `lift` the old bytes, and the run does not access any of them. -/
structure StopsAt (plant lift : List Request) (k : ℕ) (steps : ℕ → Locals) (p p' : ArmCore) :
    Prop where
  run : StepsTo k steps p p'
  spares : RunFits (Apart (edits (plant ++ lift))) (stepEvents k steps) p
  planted : AtBreakpoint (cover (edits plant) p')
  first : ∃ w, Fetches (cover (edits plant) p) w
  lifted : (serveAll (contents p.mem) (plant ++ lift)).1 = contents p.mem

variable {plant lift : List Request} {k : ℕ} {steps : ℕ → Locals}

omit [ByteOrder] in
theorem StopsAt.cover_lift (h : StopsAt plant lift k steps p p') :
    cover (edits lift) (cover (edits plant) p') = p' := by
  have hvalues : cover (edits (plant ++ lift)) p = p := cover_eq_self_iff.mpr fun i b hb hi => by
    have hcell := serveAll_edits (plant ++ lift) (contents p.mem) i
    rw [h.lifted, hb, contents, Array.getElem?_eq_getElem hi] at hcell
    rw [Array.getElem?_eq_getElem hi, hcell]
    rfl
  have hrun := happen_cover h.spares
  rw [← armSteps_events, ← armSteps_events, hvalues, h.run.run] at hrun
  rw [cover_cover, ← edits_append]
  exact (Except.ok.inj hrun).symm

omit [ByteOrder] in
theorem StopsAt.contLoop (h : StopsAt plant lift k steps p p') {turns : ℕ} (hk : k < turns)
    (instruction : Word) (e : Int) :
    ∃ e', contLoop turns steps instruction (cover (edits plant) p) e =
      .ok (cover (edits plant) p', e') := by
  refine contLoop_cover hk h.run (h.spares.mono fun n a hapart => hapart.mono fun i hi => ?_)
    h.planted h.first instruction e
  rw [edits_append] at hi
  exact (Option.or_eq_none_iff.mp hi).2

theorem handleRequest_continue (gdb : GdbProtocolData) {gdb' : GdbProtocolData} {r : Reception}
    {e : Int} (hbody : r.packet.body.head? = some (char 'c'))
    (hloop : contLoop r.turns r.u.steps r.u.instruction gdb.arm gdb.targetException = .ok (p', e))
    (hreason : gdbSendStopReason { gdb with arm := p', targetException := e } = .ok gdb') :
    handleRequest gdb r.u r.turns (requestText r.packet r.beyond) = .ok gdb' := by
  obtain ⟨body, hbody⟩ := List.head?_eq_some_iff.mp hbody
  have hcont : Gdb.cont gdb r.u r.turns = .ok gdb' := by
    rw [Gdb.cont]
    exact bind_eq_ok.mpr ⟨_, hloop, lift_eq_ok.mpr hreason⟩
  rw [requestText, hbody, List.cons_append]
  exact hcont

theorem scan_continue {data : ParserData} {gdb' : GdbProtocolData} (hlen : data.len = 0)
    {r : Reception} {e : Int} (hr : Accepted r.packet)
    (hbody : r.packet.body.head? = some (char 'c'))
    (hloop : contLoop r.turns r.u.steps r.u.instruction data.gdb.arm data.gdb.targetException =
      .ok (p', e))
    (hreason : gdbSendStopReason { gdbSendAck data.gdb with arm := p', targetException := e } =
      .ok gdb') :
    scan data (.packet r) = .ok { data with gdb := gdb' } := by
  have hgive : (liftM (handleError data) : Except Halt ParserData) = .ok data :=
    giveUp_of_len hlen
  have hrequest : handleRequest (gdbSendAck data.gdb) r.u r.turns
      (requestText r.packet r.beyond) = .ok gdb' :=
    handleRequest_continue (gdbSendAck data.gdb) hbody hloop hreason
  rw [scan_packet, receive, hgive, ok_bind, answer, if_pos hr, hrequest]
  rfl

variable {arm : ArmCore} {blank : Packet} {errors : CharArray maxErrorSize} {input : List Chunk}
  {last : LastAccepting} {env : ℕ → Surroundings} {scans turns : ℕ}

theorem yylex_around {first second : List Request} {before after : List Byte} {t : PacketText}
    {P : ParserData → ParserData → Prop} (hfirst : Spoken first before)
    (hsecond : Spoken second after) (hinput : received input = before ++ (t.text ++ after))
    (hmem : memoryGetSize arm.mem < 2 ^ 32)
    (hpacket : ∀ i (r : Reception) data, r.packet = t → r.u = (env i).u →
      r.turns = (env i).turns →
      Served (gdbScanner arm blank errors) data (serveAll (contents arm.mem) first).1
        (serveAll (contents arm.mem) first).2 →
      Returns (scan data (.packet r)) fun data' => data'.len = 0 ∧
        memoryGetSize data'.gdb.arm.mem < 2 ^ 32 ∧ P data data')
    (hscans : 4 * (received input).length + 3 ≤ scans)
    (hturns : (received input).length < turns) :
    Returns (yylex scans turns env (yylexInit input last) (gdbScanner arm blank errors)) fun s =>
      ∃ data data', Served (gdbScanner arm blank errors) data
          (serveAll (contents arm.mem) first).1 (serveAll (contents arm.mem) first).2 ∧
        P data data' ∧ Served data' s (serveAll (contents data'.gdb.arm.mem) second).1
          (serveAll (contents data'.gdb.arm.mem) second).2 := by
  obtain ⟨tokens, hmakes, hfinds, hrun⟩ := yylex_tokens scans turns (g := yylexInit input last) env
    (proper_init input last) hscans hturns
  have hpending : pending (yylexInit input last) = _ := hinput
  rw [hpending] at hmakes
  obtain ⟨t₁, r, t₂, h₁, hr, h₂, rfl⟩ := hmakes.packet
  obtain ⟨i, hu, hn⟩ := hfinds (.packet r) (by simp)
  have hempty : (gdbScanner arm blank errors).len = 0 := rfl
  obtain ⟨data₁, hfold₁, hserved₁⟩ := foldlM_served hfirst h₁ hempty hmem
  obtain ⟨data₂, hscan, hlen₂, hmem₂, hP⟩ := hpacket i r data₁ hr hu hn hserved₁
  obtain ⟨data₃, hfold₃, hserved₃⟩ := foldlM_served hsecond h₂ hlen₂ hmem₂
  refine ⟨data₃, ?_, data₁, data₂, hserved₁, hP, hserved₃⟩
  have heof : scan data₃ .eof = .ok data₃ := giveUp_of_len hserved₃.len
  rw [hrun, List.append_assoc, List.foldlM_append, hfold₁, ok_bind, List.cons_append,
    List.foldlM_cons, hscan, ok_bind, List.foldlM_append, hfold₃, ok_bind, List.foldlM_cons, heof]
  rfl

/-- Breakpoints are stored, the program continues and the old bytes are stored again: the
processor is where the program comes to by itself. -/
theorem session_stops {before after : List Byte} {t : PacketText}
    (hplant : Spoken plant before) (ht : Accepted t) (hbody : t.body.head? = some (char 'c'))
    (hlift : Spoken lift after) (hinput : received input = before ++ (t.text ++ after))
    (hmem : memoryGetSize arm.mem < 2 ^ 32)
    (hstops : ∀ i, StopsAt plant lift k (env i).u.steps arm p' ∧ k < (env i).turns)
    (hscans : 4 * (received input).length + 3 ≤ scans)
    (hturns : (received input).length < turns) :
    Returns (yylex scans turns env (yylexInit input last) (gdbScanner arm blank errors))
      fun s => s.gdb.arm = p' := by
  have hsize : memoryGetSize (cover (edits plant) p').mem = memoryGetSize arm.mem := by
    rw [cover, memoryGetSize_covered]
    exact (happen_steady _ arm p' ((armSteps_events ..).symm.trans (hstops 0).1.run.run)).size
  have hpacket (i : ℕ) (r : Reception) (data : ParserData) (hr : r.packet = t)
      (hu : r.u = (env i).u) (hn : r.turns = (env i).turns)
      (hserved : Served (gdbScanner arm blank errors) data
        (serveAll (contents arm.mem) plant).1 (serveAll (contents arm.mem) plant).2) :
      Returns (scan data (.packet r)) fun data' => data'.len = 0 ∧
        memoryGetSize data'.gdb.arm.mem < 2 ^ 32 ∧ data'.gdb.arm = cover (edits plant) p' := by
    obtain ⟨hstops, hk⟩ := hstops i
    obtain ⟨e, hloop⟩ := hstops.contLoop hk r.u.instruction data.gdb.targetException
    obtain ⟨gdb', hreason, harm'⟩ := gdbSendStopReason_arm
      { gdbSendAck data.gdb with arm := cover (edits plant) p', targetException := e }
    have harm : data.gdb.arm = cover (edits plant) arm := hserved.cover
    subst hr
    rw [← hu, ← hn, ← harm] at hloop
    have harm' : gdb'.arm = cover (edits plant) p' := harm'
    refine ⟨_, scan_continue hserved.len ht hbody hloop hreason, hserved.len, ?_, harm'⟩
    have hmem' : memoryGetSize gdb'.arm.mem = memoryGetSize arm.mem := by
      rw [harm', hsize]
    exact hmem' ▸ hmem
  refine (yylex_around hplant hlift hinput hmem hpacket hscans hturns).mono ?_
  rintro s ⟨-, data', -, harm, hserved⟩
  have hdone := hserved.cover
  rwa [harm, (hstops 0).1.cover_lift] at hdone

end Session

/-! ## A breakpoint behind a store -/

def storeEnd : RegisterFile.Processor := Transfers.store (fetched storeProgram) 0 [0]

theorem storeProgram_step [Host] (u : Locals) :
    armStep u storeProgram.core = .ok (0, storeEnd.core) := by
  have haddress : Transfers.plainAddress storeProgram 0xE5810000 = 0 := by decide
  have hread : memoryReadWord storeProgram.mem (pcAddress storeProgram) u.inst =
      .ok (0, 0xE5810000) := memoryReadWord_program .usr rfl
  rw [Transfers.armStep_str ⟨by decide, by decide, by decide, by decide, by decide⟩ hread
    (by decide) (by rw [haddress]; decide) (by rw [haddress]; decide), haddress]
  rfl

def plantSecond : List Request := [.write 4 [0xF0, 6, 0xF0, 0xE7]]

def liftSecond : List Request := [.write 4 [1, 2, 3, 7]]

theorem storeProgram_stops [Host] (steps : ℕ → Locals) :
    StopsAt plantSecond liftSecond 1 steps storeProgram.core storeEnd.core := by
  have hfetch : Fetches storeProgram.core 0xE5810000 :=
    ⟨0, storeProgram_address, fun _ => rfl⟩
  have hapart : Apart (edits (plantSecond ++ liftSecond)) .word 0 := by decide
  have hclear : ¬ AtBreakpoint storeProgram.core := by
    rintro ⟨w, hw, hbreak⟩
    rw [hw.unique hfetch] at hbreak
    exact absurd hbreak (by decide)
  refine ⟨stepsTo_succ hclear (storeProgram_step _) (stepsTo_zero _ _),
    ⟨storeProgram_fits hapart _, fun _ _ => trivial⟩, ?_, ?_, ?_⟩
  · have haddress : fetchAddress storeEnd.core = .ok 4 := by
      rw [fetchAddress_core]
      exact congrArg _ (by decide)
    exact ⟨0xE7F006F0, ⟨4, haddress, fun _ => rfl⟩, by decide⟩
  · exact ⟨0xE5810000, 0, storeProgram_address, fun _ => rfl⟩
  · funext i
    rw [serveAll_edits]
    rcases Nat.lt_or_ge i 8 with hi | hi
    · revert i
      decide
    · have hnone : contents storeProgram.core.mem i = none := Array.getElem?_eq_none hi
      rw [hnone]
      rfl

theorem plain_plant : ∀ c ∈ ascii "X4,4:" ++ [0xF0, 6, 0xF0, 0xE7],
    c ≠ char '$' ∧ c ≠ char '#' := by
  decide

def plantPacket : PacketText :=
  ⟨ascii "X4,4:" ++ [0xF0, 6, 0xF0, 0xE7], char 'f', char '3', plain_plant, reasonPacket.low_hex,
    reasonPacket.high_hex⟩

theorem plain_lift : ∀ c ∈ ascii "X4,4:" ++ [1, 2, 3, 7], c ≠ char '$' ∧ c ≠ char '#' := by
  decide

def liftPacket : PacketText :=
  ⟨ascii "X4,4:" ++ [1, 2, 3, 7], char '3', char '3', plain_lift, reasonPacket.high_hex,
    reasonPacket.high_hex⟩

theorem plain_continue : ∀ c ∈ [char 'c'], c ≠ char '$' ∧ c ≠ char '#' := by decide

theorem isSome_six : (hexValue (char '6')).isSome := by decide

def continuePacket : PacketText :=
  ⟨[char 'c'], char '6', char '3', plain_continue, isSome_six, reasonPacket.high_hex⟩

/-- The breakpoint is stored, the program continues, the old word is stored again. -/
def stopInput : List Chunk :=
  [⟨ascii "$X4,4:" ++ [0xF0, 6, 0xF0, 0xE7], by decide⟩, ⟨ascii "#f3+$c#", by decide⟩,
    ⟨ascii "63+$X4,4:" ++ [1, 2, 3, 7], by decide⟩, ⟨ascii "#33+", by decide⟩]

theorem isBlock_fourFour : IsBlock 4 4 (ascii "4,4") :=
  ⟨ascii "4", ascii "4", ⟨by decide, by decide⟩, ⟨by decide, by decide⟩, by decide⟩

theorem spoken_plant : Spoken plantSecond (plantPacket.text ++ ascii "+") := by
  have hplant : Asks plantPacket (.write 4 [0xF0, 6, 0xF0, 0xE7]) :=
    .write (n := 4) (by decide) isBlock_fourFour (.plain (by decide) (.plain (by decide)
      (.plain (by decide) (.plain (by decide) .nil)))) (by decide)
  have hdone : Spoken [] (ascii "+") := .done fun c hc => Or.inl (List.mem_singleton.mp hc)
  exact .request (List.forall_mem_nil _) (by decide) hplant hdone

theorem spoken_lift : Spoken liftSecond (ascii "+" ++ (liftPacket.text ++ ascii "+")) := by
  have hlift : Asks liftPacket (.write 4 [1, 2, 3, 7]) :=
    .write (n := 4) (by decide) isBlock_fourFour (.plain (by decide) (.plain (by decide)
      (.plain (by decide) (.plain (by decide) .nil)))) (by decide)
  exact .request (fun c hc => Or.inl (List.mem_singleton.mp hc)) (by decide) hlift
    (.done fun c hc => Or.inl (List.mem_singleton.mp hc))

def twoTurns : ℕ → Surroundings := fun _ => ⟨noLocals, 2⟩

theorem storeProgram_session : Returns (@yylex Host.x86 .x86 143 36 twoTurns
    (yylexInit stopInput (0, 0)) (gdbScanner storeProgram.core blankPacket blankError))
      fun s => s.gdb.arm = storeEnd.core :=
  @session_stops storeEnd.core Host.x86 .x86 plantSecond liftSecond 1 _ _ _ _ _ _ _ _ _ _
    continuePacket spoken_plant (by decide) (by decide) spoken_lift (by decide) (by decide)
    (fun _ => ⟨@storeProgram_stops Host.x86 _, Nat.one_lt_two⟩) (by decide) (by decide)

end ArmSimulator.Sessions
