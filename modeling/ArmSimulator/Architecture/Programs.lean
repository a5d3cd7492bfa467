import ArmSimulator.Architecture.Refinement
import ArmSimulator.Sessions.Breakpoints

/-! # Programs run from a debugger

A debugger stores a program, lets it continue to a breakpoint in it and reads memory. What it
is told is what the programmer's model computes from the stored bytes.
-/

namespace ArmSimulator.Architecture

open Machine Machine.Gdb RegisterFile Storage Decoding Exceptions Scanning Debugger Footprint
  Sessions Foundation.ExceptRun

variable {q : Processor} {s : State} {w : Word} {n : ℕ}

section Loop

variable [Host]

/-- The loop takes the steps of the model up to a breakpoint. -/
theorem contLoop_refines {turns : ℕ} (hn : n < turns) (steps : ℕ → Locals) (instruction : Word)
    (e : Int) (h : (view q).run n = some s) (hfetch : s.fetch = some w) (hbreak : IsBreakpoint w) :
    ∃ q' : Processor, contLoop turns steps instruction q.core e =
        .ok (q'.core, if n = 0 then e else 0) ∧
      q'.file.mode = q.file.mode ∧ view q' = s := by
  induction n generalizing q turns steps instruction e with
  | zero =>
    obtain ⟨turns, rfl⟩ := Nat.exists_eq_add_of_lt hn
    obtain rfl : view q = s := Option.some.inj h
    refine ⟨q, ?_, rfl, rfl⟩
    rw [Nat.zero_add, if_pos rfl]
    exact contLoop_atBreakpoint steps instruction e ⟨w, fetches_view hfetch, hbreak⟩
  | succ n ih =>
    obtain ⟨turns, rfl⟩ : ∃ m, turns = m + 1 := ⟨turns - 1, by omega⟩
    obtain ⟨s₁, hstep, hrest⟩ := Option.bind_eq_some_iff.mp h
    obtain ⟨w₁, hfetch₁, hclear⟩ := exists_fetch hstep
    obtain ⟨q₁, hrun, hstays, rfl⟩ := step_leads (u := steps 0) hstep
    obtain ⟨q', hloop, hmode', hview⟩ :=
      ih (Nat.lt_of_succ_lt_succ hn) (fun i => steps (i + 1)) w₁ 0 hrest
    rw [ite_self] at hloop
    refine ⟨q', ?_, hmode'.trans hstays.mode, hview⟩
    rw [if_neg n.succ_ne_zero, contLoop_step q.armReadRegister_pc
      (read_of_fetch hfetch₁ instruction) hclear hrun, hloop]

theorem run_size (h : (view q).run n = some s) : memoryGetSize s.mem = memoryGetSize q.mem := by
  obtain ⟨q', hsteps, -, rfl⟩ := run_leads (fun _ => ⟨0, 0, 0, 0, 0, 0⟩) h
  exact (happen_steady _ q.core q'.core ((armSteps_events ..).symm.trans hsteps.run)).size

end Loop

section Session

variable [Host] [ByteOrder] {load inspect : List Request} {before after : List Byte}
  {t : PacketText} {blank : Packet} {errors : CharArray maxErrorSize} {input : List Chunk}
  {last : LastAccepting} {env : ℕ → Surroundings} {scans turns : ℕ}

omit [Host] [ByteOrder] in
/-- A stop without an exception. -/
theorem gdbSendStopReason_trap (gdb : GdbProtocolData) (h : gdb.targetException = 0) :
    ∃ gdb', gdbSendStopReason gdb = .ok gdb' ∧ Answered gdb (ascii "S05") gdb' := by
  obtain ⟨gdb', hsend, hanswered⟩ := gdbSendData_answered gdb (s := ascii "S05") (by decide)
    (by decide)
  refine ⟨gdb', ?_, hanswered⟩
  rw [gdbSendStopReason, h, if_neg (by decide), if_neg (by decide), hsend]

/-- What the request to continue leaves where the model runs to a breakpoint. -/
structure Continued (q : Processor) (s : State) (data data' : ParserData) : Prop where
  arm : ∃ q' : Processor, data'.gdb.arm = q'.core ∧ q'.file.mode = q.file.mode ∧ view q' = s
  written : data'.gdb.written = data.gdb.written ++ [ascii "+", frame (ascii "S05")]

theorem scan_program {data : ParserData} {r : Reception} (hlen : data.len = 0)
    (hr : Accepted r.packet) (hbody : r.packet.body.head? = some (char 'c'))
    (harm : data.gdb.arm = q.core) (hrun : (view q).run n = some s) (hn : 0 < n)
    (hfetch : s.fetch = some w) (hbreak : IsBreakpoint w) (hturns : n < r.turns) :
    Returns (scan data (.packet r)) fun data' => data'.len = 0 ∧ Continued q s data data' := by
  obtain ⟨q', hloop, hmode, hview⟩ := contLoop_refines hturns r.u.steps r.u.instruction
    data.gdb.targetException hrun hfetch hbreak
  rw [if_neg hn.ne', ← harm] at hloop
  obtain ⟨gdb', hreason, hanswered⟩ := gdbSendStopReason_trap
    { gdbSendAck data.gdb with arm := q'.core, targetException := 0 } rfl
  refine ⟨_, scan_continue hlen hr hbody hloop hreason, hlen, ⟨q', hanswered.arm, hmode, hview⟩,
    ?_⟩
  rw [hanswered.written]
  exact List.append_assoc _ _ _

/-- Loading a program, continuing and reading memory is a run of the model. -/
theorem session_runs_program (hload : Spoken load before) (ht : Accepted t)
    (hbody : t.body.head? = some (char 'c')) (hinspect : Spoken inspect after)
    (hinput : received input = before ++ (t.text ++ after))
    (hmem : memoryGetSize q.mem < 2 ^ 32)
    (hrun : State.run n { view q with mem := covered (edits load) q.mem } = some s)
    (hn : 0 < n) (hfetch : s.fetch = some w) (hbreak : IsBreakpoint w)
    (henv : ∀ i, n < (env i).turns) (hscans : 4 * (received input).length + 3 ≤ scans)
    (hturns : (received input).length < turns) :
    Returns (yylex scans turns env (yylexInit input last) (gdbScanner q.core blank errors))
      fun data => (∃ q' : Processor, data.gdb.arm = q'.core ∧ q'.file.mode = q.file.mode ∧
          view q' = { s with mem := covered (edits inspect) s.mem }) ∧
        data.gdb.written = ((serveAll (contents q.mem) load).2 ++
          ascii "S05" :: (serveAll (contents s.mem) inspect).2).flatMap
            fun payload => [ascii "+", frame payload] := by
  let loaded : Processor := { q with mem := covered (edits load) q.mem }
  have hrun : (view loaded).run n = some s := hrun
  have hsize : memoryGetSize s.mem = memoryGetSize q.mem :=
    (run_size hrun).trans memoryGetSize_covered
  have hpacket (i : ℕ) (r : Reception) (data : ParserData) (hr : r.packet = t)
      (_ : r.u = (env i).u) (hr' : r.turns = (env i).turns)
      (hserved : Served (gdbScanner q.core blank errors) data
        (serveAll (contents q.mem) load).1 (serveAll (contents q.mem) load).2) :
      Returns (scan data (.packet r)) fun data' => data'.len = 0 ∧
        memoryGetSize data'.gdb.arm.mem < 2 ^ 32 ∧ Continued loaded s data data' := by
    subst hr
    have harm : data.gdb.arm = loaded.core := hserved.cover
    refine (scan_program hserved.len ht hbody harm hrun hn hfetch hbreak (hr' ▸ henv i)).mono ?_
    rintro data' ⟨hlen, hcontinued⟩
    obtain ⟨q', harm, -, rfl⟩ := hcontinued.arm
    have hmem' : memoryGetSize data'.gdb.arm.mem = memoryGetSize q.mem :=
      (congrArg (fun p => memoryGetSize p.mem) harm).trans hsize
    exact ⟨hlen, hmem' ▸ hmem, hcontinued⟩
  refine (yylex_around hload hinspect hinput hmem hpacket hscans hturns).mono ?_
  rintro data ⟨data₁, data₂, hserved₁, ⟨⟨q', harm, hmode, rfl⟩, hwritten⟩, hserved₂⟩
  have hmem₂ : data₂.gdb.arm.mem = (view q').mem := congrArg ArmCore.mem harm
  constructor
  · refine ⟨{ q' with mem := covered (edits inspect) q'.mem }, ?_, hmode, rfl⟩
    rw [hserved₂.cover, harm]
    rfl
  · rw [hserved₂.written, hwritten, hserved₁.written, hmem₂, List.flatMap_append,
      List.flatMap_cons, List.append_assoc, List.append_assoc]
    rfl

end Session

/-! ## A sum -/

theorem encodes_plain {bs : List Byte} (h : ∀ b ∈ bs, b ≠ 0x23 ∧ b ≠ 0x24 ∧ b ≠ 0x7d) :
    Debugger.Encodes bs bs := by
  induction bs with
  | nil => exact .nil
  | cons b bs ih =>
    obtain ⟨hb, h⟩ := List.forall_mem_cons.mp h
    exact .plain hb (ih h)

theorem plain_load : ∀ c ∈ ascii "X0,18:" ++ sumImage,
    c ≠ char '$' ∧ c ≠ char '#' := by decide

theorem isSome_two : (hexValue (char '2')).isSome := by decide

theorem isSome_c : (hexValue (char 'c')).isSome := by decide

def loadPacket : PacketText :=
  ⟨ascii "X0,18:" ++ sumImage, char '2', char 'c', plain_load, isSome_two, isSome_c⟩

theorem plain_inspect : ∀ c ∈ ascii "m18,4", c ≠ char '$' ∧ c ≠ char '#' := by decide

def inspectPacket : PacketText :=
  ⟨ascii "m18,4", char '3', char '6', plain_inspect, reasonPacket.high_hex, isSome_six⟩

def loadSum : List Request := [.write 0 sumImage]

def inspectSum : List Request := [.read 24 4]

/-- The program is loaded into an empty memory and run, and its result is read. -/
def sumInput : List Chunk :=
  [⟨ascii "$X0,18:" ++ sumImage, by decide⟩, ⟨ascii "#2c+$c#", by decide⟩,
    ⟨ascii "63+$m18,4#36+", by decide⟩]

theorem isBlock_load : IsBlock 0 24 (ascii "0,18") :=
  ⟨ascii "0", ascii "18", ⟨by decide, by decide⟩, ⟨by decide, by decide⟩, by decide⟩

theorem isBlock_inspect : IsBlock 24 4 (ascii "18,4") :=
  ⟨ascii "18", ascii "4", ⟨by decide, by decide⟩, ⟨by decide, by decide⟩, by decide⟩

theorem spoken_load : Spoken loadSum (loadPacket.text ++ ascii "+") := by
  have hload : Asks loadPacket (.write 0 sumImage) :=
    .write (n := 24) (by decide) isBlock_load (encodes_plain (by decide)) (by decide)
  have hdone : Spoken [] (ascii "+") := .done fun c hc => Or.inl (List.mem_singleton.mp hc)
  exact .request (List.forall_mem_nil _) (by decide) hload hdone

theorem spoken_inspect : Spoken inspectSum (ascii "+" ++ (inspectPacket.text ++ ascii "+")) := by
  have hinspect : Asks inspectPacket (.read 24 4) :=
    .read (by decide) isBlock_inspect (by decide)
  exact .request (fun c hc => Or.inl (List.mem_singleton.mp hc)) (by decide) hinspect
    (.done fun c hc => Or.inl (List.mem_singleton.mp hc))

/-- User mode and a memory of zeros. -/
def blankProcessor : Processor := program .usr (Array.replicate 28 0)

theorem loadSum_run : ∃ s, State.run 8
      { view blankProcessor with mem := covered (edits loadSum) blankProcessor.mem } = some s ∧
    s.fetch = some 0xE7F000F0 ∧ (serveAll (contents s.mem) inspectSum).2 = [ascii "03000000"] :=
  ⟨(State.run 8 _).get (by decide +kernel), (Option.some_get _).symm,
    by decide +kernel, by decide +kernel⟩

def nineTurns : ℕ → Surroundings := fun _ => ⟨noLocals, 9⟩

theorem sum_session : Returns (@yylex Host.x86 .x86 223 56 nineTurns
    (yylexInit sumInput (0, 0)) (gdbScanner blankProcessor.core blankPacket blankError))
      fun data => data.gdb.written = [ascii "+", frame (ascii "OK"), ascii "+",
        frame (ascii "S05"), ascii "+", frame (ascii "03000000")] := by
  obtain ⟨s, hrun, hfetch, hreply⟩ := loadSum_run
  have hloaded : (serveAll (contents blankProcessor.mem) loadSum).2 = [ascii "OK"] := by
    decide +kernel
  refine (@session_runs_program blankProcessor s 0xE7F000F0 8 Host.x86 .x86 loadSum inspectSum
    _ _ continuePacket _ _ _ _ _ _ _ spoken_load (by decide) (by decide) spoken_inspect
    (by decide) (by decide) hrun (by decide) hfetch (by decide) (fun _ => Nat.lt_succ_self 8)
    (by decide) (by decide)).mono ?_
  rintro data ⟨-, hwritten⟩
  rw [hwritten, hloaded, hreply]
  rfl

end ArmSimulator.Architecture
