import ArmSimulator.Debugger.Continue
import ArmSimulator.Debugger.Robustness
import ArmSimulator.Sessions.Server

/-! # What moves the processor

Five requests and the exceptions move the processor: to step, to continue, and to write
registers or memory. Everything else that may come over the two connections leaves it
alone, so that it ends a session as these make it, in their order.
-/

namespace ArmSimulator.Sessions

open Machine Machine.Gdb RegisterFile Decoding Debugger Foundation.ExceptRun
  Foundation.Simulation
open Exceptions (fetched pcAddress)

/-- The handlers that may change the processor. -/
def commanding : GdbHandler → Bool
  | .cont | .step | .writeGeneralRegisters | .writeMemoryBinary | .writeRegister => true
  | _ => false

/-- The handler of a packet and the text behind its letter. -/
def request (t : PacketText) : Option (GdbHandler × List Byte) :=
  match t.body with
  | [] => none
  | c :: data => (handler c).map fun h => (h, data)

/-- What a session is told to do. -/
inductive Command where
  | irq (irq : Byte)
  | packet (t : PacketText)

/-- An exception, or an accepted packet whose handler may change the processor. -/
def command : Event → Option Command
  | .irq irq => some (.irq irq)
  | .token (.packet r) =>
    if Accepted r.packet ∧ (request r.packet).any fun q => commanding q.1 then
      some (.packet r.packet)
    else none
  | _ => none

def commands (e : Event) : Bool := (command e).isSome

/-- What stands behind the text of a request in the scanner's buffer. -/
def behind (r : Reception) : List Byte := r.packet.high :: r.packet.low :: 0 :: r.beyond

theorem request_cons {t : PacketText} {c : Byte} {data : List Byte} (h : t.body = c :: data) :
    request t = (handler c).map fun f => (f, data) := by
  rw [request, h]

theorem eq_irq_of_command {e : Event} {irq : Byte} (h : command e = some (.irq irq)) :
    e = .irq irq := by
  cases e with
  | irq irq' =>
    cases h
    rfl
  | token t => cases t <;> simp [command] at h

theorem exists_reception {e : Event} {t : PacketText} (h : command e = some (.packet t)) :
    ∃ r, e = .token (.packet r) ∧ r.packet = t := by
  cases e with
  | irq irq => cases h
  | token token =>
    cases token with
    | packet r =>
      rw [command] at h
      split_ifs at h
      cases h
      exact ⟨r, rfl, rfl⟩
    | _ => cases h

theorem finish_arm (s : Server) (outcome : Outcome) : (s.finish outcome).arm = outcome.1 := by
  rw [Server.finish]
  cases outcome.2.2 <;> rfl

theorem complain_arm (s : Server) : s.complain.arm = s.arm := by
  rw [Server.complain]
  split_ifs <;> rfl

section Commands

variable [Host] [ByteOrder]

/-- What a request makes of the processor. -/
def carryOut (arm : ArmCore) (data : List Byte) (u : HandlerLocals) (turns : ℕ) :
    GdbHandler → Except Halt ArmCore
  | .cont => Prod.fst <$> contLoop turns u.steps u.instruction arm 0
  | .step => Prod.snd <$> (liftM (armStep (u.steps 0) arm) : Except Halt _)
  | .writeGeneralRegisters => liftM (loadRegisters arm data u)
  | .writeMemoryBinary => Prod.fst <$> (liftM (storeBytes arm data u) : Except Halt _)
  | .writeRegister => liftM (loadRegister arm data u)
  | _ => .ok arm

/-- What an event makes of the processor. -/
def move (arm : ArmCore) : Event → Except Halt ArmCore
  | .irq irq => irqListener arm irq
  | .token (.packet r) =>
    match request r.packet with
    | some (h, data) => carryOut arm (data ++ 0 :: behind r) r.u r.turns h
    | none => .ok arm
  | _ => .ok arm

omit [ByteOrder] in
theorem contLoop_exception (turns : ℕ) : ∀ (steps : ℕ → Locals) (instruction : Word)
    (arm : ArmCore) (e e' : Int), Prod.fst <$> contLoop turns steps instruction arm e =
      Prod.fst <$> contLoop turns steps instruction arm e' := by
  cases turns with
  | zero => exact fun _ _ _ _ _ => rfl
  | succ turns =>
    intro steps instruction arm e e'
    rw [contLoop, contLoop, map_bind, map_bind]
    refine congrArg _ (funext fun pc => ?_)
    rw [map_bind, map_bind]
    refine congrArg _ (funext fun r => ?_)
    dsimp only
    split_ifs <;> rfl

theorem respond_carriesOut (arm : ArmCore) (e : Int) (data : List Byte) (u : HandlerLocals)
    (turns : ℕ) (h : GdbHandler) : Ensures (respond arm e data u turns h) fun outcome =>
      carryOut arm data u turns h = .ok outcome.1 := by
  cases h with
  | cont =>
    intro outcome ho
    obtain ⟨r, hr, ho⟩ := bind_eq_ok.mp ho
    rw [pure_eq_ok] at ho
    rw [carryOut, contLoop_exception turns u.steps u.instruction arm 0 e, hr, ← ho]
    rfl
  | readGeneralRegisters => exact ensures_bind fun _ => ensures_pure rfl
  | readMemory =>
    rw [respond]
    dsimp only
    split_ifs
    · exact ensures_pure rfl
    · exact ensures_error _
  | readRegister =>
    refine ensures_bind fun value => ?_
    dsimp only
    split_ifs
    · exact ensures_pure rfl
    · exact ensures_error _
  | setThread =>
    cases data with
    | nil => exact ensures_error _
    | cons type data => exact ensures_pure rfl
  | step | writeMemoryBinary =>
    intro outcome ho
    obtain ⟨r, hr, ho⟩ := bind_eq_ok.mp ho
    rw [pure_eq_ok] at ho
    rw [carryOut, hr, ← ho]
    rfl
  | writeGeneralRegisters | writeRegister =>
    intro outcome ho
    obtain ⟨r, hr, ho⟩ := bind_eq_ok.mp ho
    rw [pure_eq_ok] at ho
    rw [carryOut, hr, ← ho]
  | killRequest | query | reason => exact ensures_pure rfl

theorem handle_move (s : Server) (r : Reception) :
    Ensures (s.handle r.u r.turns (requestText r.packet r.beyond)) fun t =>
      move s.arm (.token (.packet r)) = .ok t.arm := by
  have hnone : handler 0 = none := by decide
  cases hbody : r.packet.body with
  | nil =>
    have hrequest : request r.packet = none := by rw [request, hbody]
    rw [move, hrequest, requestText, hbody, List.nil_append, Server.handle, hnone]
    exact ensures_ok rfl
  | cons c data =>
    rw [move, request_cons hbody, requestText, hbody, List.cons_append, Server.handle]
    cases handler c with
    | none => exact ensures_ok rfl
    | some h =>
      refine Ensures.map ((respond_carriesOut s.arm s.exception _ r.u r.turns h).mono ?_)
      intro outcome ho
      rw [finish_arm]
      exact ho

theorem move_of_not_commands {r : Reception} (hr : Accepted r.packet)
    (h : ¬ commands (.token (.packet r))) (arm : ArmCore) :
    move arm (.token (.packet r)) = .ok arm := by
  rw [move]
  cases hq : request r.packet with
  | none => rfl
  | some q =>
    obtain ⟨f, data⟩ := q
    have hf : ¬ commanding f := by simpa [commands, command, hr, hq] using h
    cases f <;> first | rfl | exact absurd rfl hf

theorem step_commands (s : Server) (e : Event) (h : commands e) :
    Ensures (s.step e) fun t => move s.arm e = .ok t.arm := by
  cases e with
  | irq irq =>
    intro t ht
    obtain ⟨arm, harm, ht⟩ := bind_eq_ok.mp ht
    rw [pure_eq_ok] at ht
    rw [move, harm, ← ht]
  | token t =>
    cases t with
    | packet r =>
      have hr : Accepted r.packet := by
        by_contra hr
        simp [commands, command, hr] at h
      rw [Server.step, if_pos hr]
      have hmove := handle_move (s.complain.send (ascii "+")) r
      have harm : (s.complain.send (ascii "+")).arm = s.arm := complain_arm s
      rwa [harm] at hmove
    | _ => cases h

theorem step_others (s : Server) (e : Event) (h : ¬ commands e) :
    Ensures (s.step e) fun t => t.arm = s.arm := by
  cases e with
  | irq irq => exact absurd rfl h
  | token t =>
    cases t with
    | packet r =>
      rw [Server.step]
      split_ifs with hr
      · have harm : (s.complain.send (ascii "+")).arm = s.arm := complain_arm s
        refine (handle_move (s.complain.send (ascii "+")) r).mono fun t ht => ?_
        rw [move_of_not_commands hr h, Except.ok.injEq, harm] at ht
        exact ht.symm
      · exact ensures_ok (complain_arm s)
    | stray c =>
      refine ensures_ok ?_
      rw [Server.wait]
      split_ifs
      · exact complain_arm s
      · rfl
    | _ => exact ensures_ok (complain_arm s)

/-- The processor of a session is moved by its commands alone. -/
theorem events_commands {data : ParserData} (hlen : data.len < maxErrorSize)
    (events : List Event) : Ensures (events.foldlM react data) fun s =>
      (events.filter commands).foldlM move data.gdb.arm = .ok s.gdb.arm := by
  have hserver := ensures_foldlM_filter Server.arm step_commands step_others events (observe data)
  exact (mirrors_events events hlen).ensures hserver

end Commands

/-! ## What the packets say -/

/-- The request says all that it makes of the processor: its numbers and its content are in
its text, and the steps it takes use no variable that they have not assigned. -/
def Determined [Host] (arm : ArmCore) (data : List Byte) : GdbHandler → Prop
  | .cont => (∃ w, Fetches arm w) ∧ StepsAssign arm
  | .step => Ignores fun u => armStep u arm
  | .writeMemoryBinary => ∃ a n, (∀ u v, sscanfXX data u v = (a, n)) ∧
      (index (char ':') data).isSome ∧ HasBytes n.toNat (afterIndex (char ':') data)
  | .writeGeneralRegisters => ∀ i < 42, WordParsed (data.drop (8 * i))
  | .writeRegister => (sscanfX data).isSome ∧ (index (char '=') data).isSome ∧
      WordParsed (afterIndex (char '=') data)
  | _ => True

/-- The request of a packet is determined. -/
def Says [Host] (arm : ArmCore) : Event → Prop
  | .token (.packet r) => ∀ q, request r.packet = some q → Determined arm q.2 q.1
  | _ => True

section Texts

variable {data : List Byte} (r : List Byte)

theorem readBytes_terminated (is : List (Fin 4)) : ∀ {data : List Byte} (v v' : Word)
    (bytes : Fin 4 → Byte), (∀ j < is.length, (sscanf02x (data.drop (2 * j))).isSome) →
      readBytes is (data ++ 0 :: r) v bytes = readBytes is data v' bytes := by
  induction is with
  | nil => exact fun _ _ _ _ => rfl
  | cons i is ih =>
    intro data v v' bytes h
    obtain ⟨w, hw⟩ := Option.isSome_iff_exists.mp (h 0 (Nat.zero_lt_succ _))
    have hw : sscanf02x data = some w := hw
    have hne : data ≠ [] := ne_nil_of_parsed (h 0 (Nat.zero_lt_succ _))
    have hnext (j : ℕ) (hj : j < is.length) : (sscanf02x ((data.drop 2).drop (2 * j))).isSome := by
      rw [List.drop_drop]
      exact (Nat.mul_succ 2 j ▸ Nat.add_comm 2 (2 * j)) ▸ h (j + 1) (Nat.succ_lt_succ hj)
    rw [readBytes, readBytes, if_neg (List.append_ne_nil_of_left_ne_nil hne _), if_neg hne,
      sscanf02x_terminated, hw]
    cases is with
    | nil => rfl
    | cons i' is =>
      have hrest : data.drop 2 ≠ [] := ne_nil_of_parsed (hnext 0 (Nat.zero_lt_succ _))
      rw [List.drop_append_of_le_length (le_of_drop_ne_nil hrest)]
      exact ih _ _ _ hnext

theorem readUint32_terminated [ByteOrder] (h : WordParsed data) (v v' : Word) :
    readUint32 (data ++ 0 :: r) v = readUint32 data v' := by
  rw [readUint32, readUint32, readBytes_terminated r byteIndices v v' _ ?_]
  rw [length_byteIndices]
  exact h

theorem drop_terminated {k : ℕ} (h : WordParsed (data.drop k)) :
    (data ++ 0 :: r).drop k = data.drop k ++ 0 :: r :=
  List.drop_append_of_le_length (le_of_drop_ne_nil (h.drop_ne_nil 0 (by decide)))

theorem writeBinaryLoop_append (n : ℕ) : ∀ {content : List Byte}, HasBytes n content →
    ∀ (mem : Memory) (a : Word) (writeOk : Bool),
      writeBinaryLoop n mem a (content ++ r) writeOk = writeBinaryLoop n mem a content writeOk := by
  induction n with
  | zero => exact fun _ _ _ _ => rfl
  | succ n ih =>
    rintro content ⟨⟨b, rest⟩, htake, hrest⟩ mem a writeOk
    rw [writeBinaryLoop, writeBinaryLoop, takeBinary_append r htake, htake]
    split_ifs
    · rw [ok_bind, ok_bind]
      exact congrArg _ (funext fun w : Int × Memory => ih hrest w.2 _ _)
    · rfl

end Texts

section Determined

variable [Host] [ByteOrder] {arm : ArmCore} {data : List Byte}

omit [Host] in
theorem loadRegisters_terminated (r : List Byte) (u u' : HandlerLocals)
    (h : ∀ i < 42, WordParsed (data.drop (8 * i))) :
    loadRegisters arm (data ++ 0 :: r) u = loadRegisters arm data u' := by
  have hread {i : ℕ} (hi : i < 42) (v v' : Word) :
      readUint32 ((data ++ 0 :: r).drop (8 * i)) v = readUint32 (data.drop (8 * i)) v' := by
    rw [drop_terminated r (h i hi)]
    exact readUint32_terminated r (h i hi) v v'
  have hskip (u : HandlerLocals) (data' : List Byte) (h' : ∀ i < 42, ∀ j < 4,
      (data'.drop (8 * i)).drop (2 * j) ≠ []) : (List.range (8 * 3 + 1)).forM (fun i => discard
        (readUint32 (data'.drop (8 * (16 + i))) (u.value (16 + i)))) = .ok ⟨⟩ :=
    discard_readUint32 (fun i hi => h' (16 + i) (by omega)) fun i => u.value (16 + i)
  have hne (i : ℕ) (hi : i < 42) (j : ℕ) (hj : j < 4) :
      ((data ++ 0 :: r).drop (8 * i)).drop (2 * j) ≠ [] := by
    rw [drop_terminated r (h i hi)]
    exact (wordParsed_terminated r (h i hi)).drop_ne_nil j hj
  rw [loadRegisters, loadRegisters, hskip u _ hne, hskip u' _ fun i hi => (h i hi).drop_ne_nil,
    foldlM_congr (List.range 16) (fun arm i hi =>
      congrArg (· >>= _) (hread (by have hlt := List.mem_range.mp hi; omega) _ (u'.value i))) arm,
    hread (show 41 < 42 by decide) (u.value 41) (u'.value 41)]

theorem carryOut_terminated {h : GdbHandler} (hcont : h ≠ .cont) (hdet : Determined arm data h)
    (r : List Byte) (u u' : HandlerLocals) (turns turns' : ℕ) :
    carryOut arm (data ++ 0 :: r) u turns h = carryOut arm data u' turns' h := by
  cases h with
  | cont => exact absurd rfl hcont
  | step =>
    have hsame : armStep (u.steps 0) arm = armStep (u'.steps 0) arm := hdet _ _
    rw [carryOut, carryOut, hsame]
  | writeGeneralRegisters =>
    rw [carryOut, carryOut, loadRegisters_terminated r u u' hdet]
  | writeMemoryBinary =>
    obtain ⟨a, n, hscan, hfound, hbytes⟩ := hdet
    rw [carryOut, carryOut, storeBytes, storeBytes, sscanfXX_terminated, hscan, hscan,
      afterIndex_terminated _ r (by decide) hfound]
    dsimp only
    rw [writeBinaryLoop_append _ _ hbytes]
  | writeRegister =>
    obtain ⟨hnumber, hfound, hword⟩ := hdet
    obtain ⟨n, hn⟩ := Option.isSome_iff_exists.mp hnumber
    rw [carryOut, carryOut, loadRegister, loadRegister, sscanfX_value_terminated, hn,
      afterIndex_terminated _ r (by decide) hfound,
      readUint32_terminated r hword (u.value 0) (u'.value 0)]
    rfl
  | _ => rfl

omit [ByteOrder] in
theorem contLoop_determined {turns turns' : ℕ} {steps steps' : ℕ → Locals}
    {instruction instruction' : Word} {e e' : Int} (hfirst : ∃ w, Fetches arm w)
    (hassign : StepsAssign arm) : Ensures (contLoop turns steps instruction arm e) fun q =>
      Ensures (contLoop turns' steps' instruction' arm e') fun q' => q.1 = q'.1 := by
  rintro ⟨p, x⟩ h ⟨p', x'⟩ h'
  obtain ⟨k, -, hsteps, hp⟩ := contLoop_stepsTo (Or.inr hfirst) h
  obtain ⟨k', -, hsteps', hp'⟩ := contLoop_stepsTo (Or.inr hfirst) h'
  exact stepsTo_unique hassign hsteps hp hsteps' hp'

/-- Events with the same command make the same of a processor for which it is determined. -/
theorem move_determined {e e' : Event} (hevent : Says arm e)
    (hsame : ∃ c, command e = some c ∧ command e' = some c) :
    Ensures (move arm e) fun t => Ensures (move arm e') fun t' => t = t' := by
  obtain ⟨c, he, he'⟩ := hsame
  cases c with
  | irq irq =>
    obtain rfl := eq_irq_of_command he
    obtain rfl := eq_irq_of_command he'
    exact fun t ht t' ht' => Except.ok.inj (ht.symm.trans ht')
  | packet t =>
    obtain ⟨r, rfl, rfl⟩ := exists_reception he
    obtain ⟨r', rfl, hpacket⟩ := exists_reception he'
    rw [move, move, hpacket]
    cases hq : request r.packet with
    | none => exact ensures_ok (ensures_ok rfl)
    | some q =>
      obtain ⟨h, data⟩ := q
      have hdet : Determined arm data h := hevent _ hq
      by_cases hcont : h = .cont
      · subst hcont
        exact Ensures.map ((contLoop_determined hdet.1 hdet.2).mono fun _ hq => Ensures.map hq)
      · dsimp only
        rw [carryOut_terminated hcont hdet _ r.u r'.u r.turns r'.turns,
          carryOut_terminated hcont hdet _ r'.u r'.u r'.turns r'.turns]
        exact fun t ht t' ht' => Except.ok.inj (ht.symm.trans ht')

end Determined

/-- Two sessions with the same commands end with the same processor, whatever else comes in
between - acknowledgements, noise, damaged packets, repetitions and requests to look at the
machine - and whatever stands behind the packets in the scanner's buffer. -/
theorem sessions_same_commands [Host] [ByteOrder] {data data' : ParserData}
    (hlen : data.len < maxErrorSize) (hlen' : data'.len < maxErrorSize)
    (harm : data.gdb.arm = data'.gdb.arm) {events events' : List Event}
    (hcommands : events.filterMap command = events'.filterMap command)
    (halong : Along move Says data.gdb.arm (events.filter commands)) :
    Ensures (events.foldlM react data) fun s => Ensures (events'.foldlM react data') fun s' =>
      s.gdb.arm = s'.gdb.arm := by
  intro s hs s' hs'
  have h := events_commands hlen events s hs
  have h' := events_commands hlen' events' s' hs'
  rw [← harm] at h'
  have hsame : List.Forall₂ (fun e e' => ∃ c, command e = some c ∧ command e' = some c)
      (events.filter commands) (events'.filter commands) := forall₂_of_filterMap_eq hcommands
  have hmoves (arm : ArmCore) (e e' : Event) (hevent : Says arm e)
      (hsame : ∃ c, command e = some c ∧ command e' = some c) :
      Ensures (move arm e) fun t => Ensures (move arm e') fun t' => t = t' :=
    move_determined hevent hsame
  exact foldlM_agree hmoves hsame halong _ h _ h'

theorem plain_writeByte : ∀ c ∈ ascii "X4,1:a", c ≠ char '$' ∧ c ≠ char '#' := by decide

theorem isSome_eight : (hexValue (char '8')).isSome := by decide

theorem isSome_four : (hexValue (char '4')).isSome := by decide

/-- `$X4,1:a#84` -/
def writeBytePacket : PacketText :=
  ⟨ascii "X4,1:a", char '8', char '4', plain_writeByte, isSome_eight, isSome_four⟩

theorem plain_stepOnce : ∀ c ∈ ascii "s", c ≠ char '$' ∧ c ≠ char '#' := by decide

theorem isSome_seven : (hexValue (char '7')).isSome := by decide

/-- `$s#73` -/
def stepPacket : PacketText :=
  ⟨ascii "s", char '7', char '3', plain_stepOnce, isSome_seven, reasonRequest.packet.high_hex⟩

def writeReception (beyond : List Byte) (u : HandlerLocals) : Reception :=
  ⟨writeBytePacket, beyond, u, 0⟩

def stepReception (u : HandlerLocals) : Reception := ⟨stepPacket, [], u, 0⟩

def onesLocals : HandlerLocals := ⟨1, 1, 1, 1, 1, 1, fun _ => 1, fun _ => ⟨1, 1, 1, 1, 1, 1⟩⟩

def plainEvents : List Event :=
  [.token (.packet (writeReception [] noLocals)), .token (.packet (stepReception noLocals)),
    .irq 6]

def noisyEvents : List Event :=
  [.token .plus, .token (.packet (writeReception (ascii "bc") onesLocals)),
    .token (.stray (char 'x')), .token (.packet reasonRequest),
    .token (.packet (stepReception onesLocals)), .irq 6, .token .eof]

def writtenProgram : Processor :=
  Decoding.program .svc #[0x01, 0x10, 0xB0, 0xE3, 0x61, 0x00, 0xF0, 0xE7]

theorem writtenProgram_ignores : Ignores fun u => @armStep Host.x86 u writtenProgram.core := by
  let host := Host.x86
  have hpass : Passes (readCpsr writtenProgram.file.cells) 0xE3B01001 := Or.inl (by decide)
  have hdispatch : dispatch 0xE3B01001 = .dataProcessingImmediateMsr := by decide
  have hstep (u : Locals) : armStep u writtenProgram.core =
      (armDataProcessingImmediateMsr (fetched writtenProgram).core 0xE3B01001 >>=
        raiseResult) := by
    have hread : memoryReadWord writtenProgram.mem (pcAddress writtenProgram) u.inst =
        .ok (0, 0xE3B01001) := memoryReadWord_program .svc rfl
    rw [armStep_run hread hpass, hdispatch]
    rfl
  exact fun u u' => (hstep u).trans (hstep u').symm

theorem noisyEvents_determined : Along (@move Host.x86 .x86) (@Says Host.x86) breakProgram.core
    (noisyEvents.filter commands) := by
  let host := Host.x86
  let order := ByteOrder.x86
  have hfilter : noisyEvents.filter commands =
      [.token (.packet (writeReception (ascii "bc") onesLocals)),
        .token (.packet (stepReception onesLocals)), .irq 6] := rfl
  have hwrite : move breakProgram.core
      (.token (.packet (writeReception (ascii "bc") onesLocals))) = .ok writtenProgram.core := rfl
  rw [hfilter]
  refine (along_cons_ok hwrite).mpr ⟨?_, ?_, fun _ _ => ⟨trivial, fun _ _ => trivial⟩⟩
  · intro q hq
    obtain rfl : (.writeMemoryBinary, ascii "4,1:a") = q := Option.some.inj hq
    exact ⟨4, 1, fun _ _ => rfl, rfl, (char 'a', []), rfl, trivial⟩
  · intro q hq
    obtain rfl : (.step, []) = q := Option.some.inj hq
    exact writtenProgram_ignores

def startingOnBreak : ParserData := gdbScanner breakProgram.core blankPacket Scanning.blankError

theorem breakProgram_same_commands : ∃ s s' : ParserData,
    noisyEvents.foldlM (@react Host.x86 .x86) startingOnBreak = .ok s ∧
      plainEvents.foldlM (@react Host.x86 .x86) startingOnBreak = .ok s' ∧
      s.gdb.arm = s'.gdb.arm := by
  obtain ⟨s, hs⟩ : ∃ s, noisyEvents.foldlM (@react Host.x86 .x86) startingOnBreak = .ok s :=
    exists_of_isOk (by decide +kernel)
  obtain ⟨s', hs'⟩ : ∃ s, plainEvents.foldlM (@react Host.x86 .x86) startingOnBreak = .ok s :=
    exists_of_isOk (by decide +kernel)
  exact ⟨s, s', hs, hs', @sessions_same_commands Host.x86 .x86 startingOnBreak startingOnBreak
    (by decide) (by decide) rfl noisyEvents plainEvents rfl noisyEvents_determined s hs s' hs'⟩

end ArmSimulator.Sessions
