import ArmSimulator.Debugger.ErrorBuffer
import ArmSimulator.Foundation.Simulation
import ArmSimulator.Machine.System
import ArmSimulator.Scanning.Packets

/-! # A server without buffers

What the debugger sees of the simulator is a server that answers requests with values:
a reply is the frame of a payload, bytes that no packet claims are counted, and the reply
sent last is kept for repetition. The simulator, which builds its replies in place in one
buffer and collects unclaimed bytes in another, does what this server does in every run.
-/

namespace ArmSimulator.Sessions

open Machine Machine.Gdb Scanning Debugger Foundation.ExceptRun Foundation.Simulation

/-! ## The server -/

/-- The processor, the exception that stopped it, the reply sent last, how many bytes wait
to be complained of, and all that has been sent. -/
structure Server where
  arm : ArmCore
  exception : Int
  last : List Byte
  strays : ℕ
  sent : List (List Byte)

namespace Server

def send (s : Server) (w : List Byte) : Server := { s with sent := s.sent ++ [w] }

def reply (s : Server) (payload : List Byte) : Server :=
  { s with last := frame payload, sent := s.sent ++ [frame payload] }

/-- Bytes that wait are complained of. -/
def complain (s : Server) : Server :=
  if s.strays ≠ 0 then { s.send (ascii "-") with strays := 0 } else s

/-- One more byte waits, up to 1023 of them. -/
def wait (s : Server) : Server :=
  if maxErrorSize - 2 < s.strays then { s.complain with strays := 1 }
  else { s with strays := s.strays + 1 }

end Server

/-! ## Answers -/

def stopReason (exception : Int) : List Byte :=
  if exception = Exception.undefinedInstruction then ascii "S04"
  else if exception = Exception.prefetchAbort ∨ exception = Exception.dataAbort then ascii "S10"
  else ascii "S05"

def queryAnswer (data : List Byte) : List Byte :=
  if cString data = ascii "Offsets" then ascii "Text=0;Data=0;Bss=0"
  else if (cString data).take 9 = ascii "Supported" then ascii "PacketSize=400"
  else if cString data = ascii "TStatus" then ascii "T0;tnotrun:0"
  else ascii ""

def threadAnswer (type : Byte) (data : List Byte) : List Byte :=
  if (type = char 'c' ∨ type = char 'g') ∧ (atoi data).toInt < 1 ∧ -2 < (atoi data).toInt then
    ascii "OK"
  else ascii "E01"

def registerValues (arm : ArmCore) : Except Stop (ℕ → Word) :=
  if 16 ≤ getMode arm.reg then .ok fun reg => (armReadRegister arm reg).toOption.getD 0
  else .error .wild

section Answers

variable [ByteOrder]

def loadRegisters (arm : ArmCore) (data : List Byte) (u : HandlerLocals) :
    Except Stop ArmCore := do
  let arm ← (List.range 16).foldlM (fun arm i => do
    let value ← readUint32 (data.drop (8 * i)) (u.value i)
    armWriteRegister arm i value) arm
  (List.range (8 * 3 + 1)).forM fun i =>
    discard (readUint32 (data.drop (8 * (16 + i))) (u.value (16 + i)))
  let value ← readUint32 (data.drop (8 * 41)) (u.value 41)
  return armWriteCpsr arm value

def loadRegister (arm : ArmCore) (data : List Byte) (u : HandlerLocals) : Except Stop ArmCore := do
  let reg := (((sscanfX data).map Prod.fst).getD u.reg).toNat
  let value ← readUint32 (afterIndex (char '=') data) (u.value 0)
  if reg < 16 then armWriteRegister arm reg value else .error .assertion

omit [ByteOrder] in
def storeBytes (arm : ArmCore) (data : List Byte) (u : HandlerLocals) :
    Except Stop (ArmCore × Bool) := do
  let (address, size) := sscanfXX data u.address u.size
  let (mem, writeOk) ← writeBinaryLoop size.toNat arm.mem address (afterIndex (char ':') data)
    (address.toNat < memoryGetSize arm.mem)
  return ({ arm with mem }, writeOk)

/-- The processor and its exception after a request, and the payload of the answer if there
is one. -/
abbrev Outcome := ArmCore × Int × Option (List Byte)

variable [Host]

def respond (arm : ArmCore) (exception : Int) (data : List Byte) (u : HandlerLocals) (turns : ℕ) :
    GdbHandler → Except Halt Outcome
  | .cont => do
    let (arm, exception) ← contLoop turns u.steps u.instruction arm exception
    return (arm, exception, some (stopReason exception))
  | .killRequest => return (arm, exception, none)
  | .query => return (arm, exception, some (queryAnswer data))
  | .readGeneralRegisters => do
    let value ← registerValues arm
    return (arm, exception, some (fields value (armReadCpsr arm)).flatten)
  | .readMemory =>
    let (address, size) := sscanfXX data u.address u.size
    let bytes := bytesRead arm.mem size.toNat address
    if bytes.length ≤ 509 then return (arm, exception, some (bytes.flatMap sprintf02x))
    else .error (.stopped .wild)
  | .readRegister => do
    let value ← registerValues arm
    let reg := (atoi data).toNat
    if reg < 16 then return (arm, exception, some (wordText (shown value reg)))
    else .error (.stopped .assertion)
  | .reason => return (arm, exception, some (stopReason exception))
  | .setThread =>
    match data with
    | [] => .error (.stopped .wild)
    | type :: data => return (arm, exception, some (threadAnswer type data))
  | .step => do
    let (exception, arm) ← armStep (u.steps 0) arm
    return (arm, exception, some (stopReason exception))
  | .writeGeneralRegisters => do
    let arm ← loadRegisters arm data u
    return (arm, exception, some (ascii "OK"))
  | .writeMemoryBinary => do
    let (arm, writeOk) ← storeBytes arm data u
    return (arm, exception, some (if writeOk then ascii "OK" else ascii "E02"))
  | .writeRegister => do
    let arm ← loadRegister arm data u
    return (arm, exception, some (ascii "OK"))

namespace Server

/-- The server once a request is answered. -/
def finish (s : Server) (outcome : Outcome) : Server :=
  let s := { s with arm := outcome.1, exception := outcome.2.1 }
  match outcome.2.2 with
  | some payload => s.reply payload
  | none => s

/-- The text of a request; those without a handler are answered with nothing. -/
def handle (s : Server) (u : HandlerLocals) (turns : ℕ) : List Byte → Except Halt Server
  | [] => .error (.stopped .wild)
  | c :: data =>
    match handler c with
    | some h => s.finish <$> respond s.arm s.exception data u turns h
    | none => .ok (s.reply (ascii ""))

def step (s : Server) : Event → Except Halt Server
  | .token .plus => .ok s.complain
  | .token .minus => .ok (s.complain.send s.complain.last)
  | .token (.packet r) =>
    if Accepted r.packet then
      (s.complain.send (ascii "+")).handle r.u r.turns (requestText r.packet r.beyond)
    else .ok (s.complain.send (ascii "-"))
  | .token (.stray _) => .ok s.wait
  | .token .eof => .ok s.complain
  | .irq irq => do
    let arm ← irqListener s.arm irq
    return { s with arm }

end Server

end Answers

/-! ## The simulator as the server -/

def view (strays : ℕ) (gdb : GdbProtocolData) : Server :=
  ⟨gdb.arm, gdb.targetException, gdb.packet.cells.take gdb.len, strays, gdb.written⟩

section Sending

variable {gdb gdb' : GdbProtocolData} {payload : List Byte} {strays : ℕ}

theorem gdbSendBuffer_exception (gdb : GdbProtocolData) :
    Ensures (gdbSendBuffer gdb) fun gdb' => gdb'.targetException = gdb.targetException :=
  ensures_bind fun _ => ensures_bind fun _ => ensures_bind fun _ => ensures_bind fun _ =>
    ensures_bind fun _ => ensures_pure rfl

theorem view_answered (h : Answered gdb payload gdb')
    (hexception : gdb'.targetException = gdb.targetException) :
    view strays gdb' = (view strays gdb).reply payload := by
  rw [view, h.arm, hexception, h.held, h.written]
  rfl

theorem mirrors_gdbSendData (gdb : GdbProtocolData) (hpayload : IsPayload payload)
    (hlen : payload.length + 5 ≤ maxPacketSize) :
    Mirrors (view strays) (gdbSendData gdb payload)
      (.ok ((view strays gdb).reply payload) : Except Halt Server) := by
  obtain ⟨gdb', hsend, hanswered⟩ := gdbSendData_answered gdb hpayload hlen
  have hexception : Ensures (gdbSendData gdb payload) fun gdb' =>
      gdb'.targetException = gdb.targetException :=
    ensures_bind fun packet => gdbSendBuffer_exception { gdb with packet }
  rw [hsend]
  exact mirrors_ok (view_answered hanswered (hexception gdb' hsend))

theorem mirrors_gdbSendStopReason (gdb : GdbProtocolData) :
    Mirrors (view strays) (gdbSendStopReason gdb)
      (.ok ((view strays gdb).reply (stopReason gdb.targetException)) : Except Halt Server) := by
  unfold gdbSendStopReason stopReason
  split_ifs
  all_goals exact mirrors_gdbSendData gdb (by decide) (by decide)

theorem mirrors_query (gdb : GdbProtocolData) (data : List Byte) :
    Mirrors (view strays) (query gdb data)
      (.ok ((view strays gdb).reply (queryAnswer data)) : Except Halt Server) := by
  unfold query queryAnswer
  split_ifs
  all_goals
    refine mirrors_gdbSendData gdb ?_ ?_
    · simp [ascii, IsPayload, char]
    · simp [ascii, maxPacketSize]

theorem mirrors_setThread (gdb : GdbProtocolData) (type : Byte) (data : List Byte) :
    Mirrors (view strays) (setThread gdb (type :: data))
      (.ok ((view strays gdb).reply (threadAnswer type data)) : Except Halt Server) := by
  unfold setThread threadAnswer
  dsimp only
  split_ifs
  all_goals exact mirrors_gdbSendData gdb (by decide) (by decide)

end Sending

section Handlers

variable {gdb : GdbProtocolData} {data : List Byte} {u : HandlerLocals} {strays : ℕ}

theorem mirrors_lift {α γ : Type} {f : α → γ} {x : Except Stop α} {y : Except Halt γ}
    (h : Mirrors f x y) : Mirrors f (liftM x : Except Halt α) y :=
  fun c => (h c).trans (exists_congr fun _ => and_congr_left fun _ => lift_eq_ok.symm)

theorem mirrors_bind_lift {α β γ : Type} {f : β → γ} {x : Except Stop α} {g : α → Except Stop β}
    {g' : α → Except Halt γ} (h : ∀ a, Mirrors f (g a) (g' a)) :
    Mirrors f (x >>= g) ((liftM x : Except Halt α) >>= g') := by
  have hx : Mirrors id x (liftM x : Except Halt α) := fun a =>
    lift_eq_ok.trans ⟨fun ha => ⟨a, ha, rfl⟩, fun ⟨_, ha, h⟩ => h ▸ ha⟩
  exact hx.bind fun a _ => h a

theorem registerValues_ok (hmode : 16 ≤ getMode gdb.arm.reg) :
    ∃ value, registerValues gdb.arm = .ok value ∧
      ∀ i < 16, armReadRegister gdb.arm i = .ok (value i) := by
  refine ⟨_, if_pos hmode, fun i hi => ?_⟩
  obtain ⟨x, hx⟩ := armReadRegister_ok hmode (Nat.le_of_lt_succ hi)
  rw [hx]
  rfl

variable [ByteOrder]

theorem readGeneralRegisters_exception (gdb : GdbProtocolData) :
    Ensures (readGeneralRegisters gdb) fun gdb' => gdb'.targetException = gdb.targetException :=
  ensures_bind fun _ => ensures_bind fun _ => ensures_bind fun _ => ensures_bind fun _ =>
    ensures_bind fun _ => ensures_bind fun packet => gdbSendBuffer_exception { gdb with packet }

theorem mirrors_readGeneralRegisters (gdb : GdbProtocolData) :
    Mirrors (view strays) (readGeneralRegisters gdb)
      ((liftM (registerValues gdb.arm) : Except Halt _) >>= fun value =>
        .ok ((view strays gdb).reply (fields value (armReadCpsr gdb.arm)).flatten)) := by
  by_cases hmode : 16 ≤ getMode gdb.arm.reg
  · obtain ⟨value, hvalues, hread⟩ := registerValues_ok hmode
    obtain ⟨gdb', hrun, hanswered⟩ := readGeneralRegisters_answered hread
    rw [hrun, hvalues]
    exact mirrors_ok (view_answered hanswered (readGeneralRegisters_exception gdb gdb' hrun))
  · rw [registerValues, if_neg hmode]
    exact mirrors_of_not_returns (fun gdb' h => hmode (readGeneralRegisters_mode h))
      fun _ h => by cases h

theorem mirrors_readRegister (gdb : GdbProtocolData) (data : List Byte) :
    Mirrors (view strays) (Gdb.readRegister gdb data)
      ((liftM (registerValues gdb.arm) : Except Halt _) >>= fun value =>
        if (atoi data).toNat < 16 then
          .ok ((view strays gdb).reply (wordText (shown value (atoi data).toNat)))
        else .error (.stopped .assertion)) := by
  by_cases h : (atoi data).toNat < 16 ∧ 16 ≤ getMode gdb.arm.reg
  · obtain ⟨value, hvalues, hread⟩ := registerValues_ok h.2
    obtain ⟨gdb', hrun, hanswered⟩ := readRegister_answered rfl h.1 (hread _ h.1)
    have hexception : Ensures (Gdb.readRegister gdb data) fun gdb' =>
        gdb'.targetException = gdb.targetException := by
      simp only [Gdb.readRegister, h.1, not_true_eq_false, if_false]
      exact ensures_bind fun _ => ensures_bind fun packet =>
        gdbSendBuffer_exception { gdb with packet }
    rw [hrun, hvalues]
    change Mirrors _ _ (if _ then _ else _)
    rw [if_pos h.1]
    exact mirrors_ok (view_answered hanswered (hexception gdb' hrun))
  · refine mirrors_of_not_returns (fun gdb' hrun => h (readRegister_bounds hrun)) fun c hc => ?_
    obtain ⟨value, hvalues, hc⟩ := bind_eq_ok.mp hc
    rw [lift_eq_ok, registerValues] at hvalues
    split_ifs at hvalues hc with hmode hreg
    exact h ⟨hreg, hmode⟩

omit [ByteOrder] in
theorem readMemory_ensures (gdb : GdbProtocolData) (data : List Byte) (u : HandlerLocals) :
    Ensures (readMemory gdb data u) fun gdb' =>
      (bytesRead gdb.arm.mem (sscanfXX data u.address u.size).2.toNat
        (sscanfXX data u.address u.size).1).length ≤ 509 ∧
      gdb'.targetException = gdb.targetException := by
  intro gdb' h
  obtain ⟨p₁, h₁, hs₁⟩ := put_prefixed (t := []) (prefixed_nil gdb.packet) (by decide)
  have h₁ : gdb.packet.set buffer 0 = .ok p₁ := h₁
  simp only [readMemory, h₁, ok_bind] at h
  obtain ⟨r, hr, hsend⟩ := bind_eq_ok.mp h
  have hholds := readMemoryLoop_ensures gdb.arm.mem _ hs₁ r hr
  rw [List.nil_append, List.nil_append] at hholds
  have hroom := gdbSendBuffer_room { gdb with packet := r.1 } hholds
    (fun c hc => (IsPayload.flatMap (fun b _ => isPayload_sprintf02x b) c hc).1) _ hsend
  rw [length_flatMap_sprintf02x, maxPacketSize] at hroom
  exact ⟨by omega, gdbSendBuffer_exception { gdb with packet := r.1 } gdb' hsend⟩

omit [ByteOrder] in
theorem mirrors_readMemory (gdb : GdbProtocolData) (data : List Byte) (u : HandlerLocals)
    {a n : Word} (hscan : sscanfXX data u.address u.size = (a, n)) :
    Mirrors (view strays) (readMemory gdb data u)
      (if (bytesRead gdb.arm.mem n.toNat a).length ≤ 509 then
        .ok ((view strays gdb).reply ((bytesRead gdb.arm.mem n.toNat a).flatMap sprintf02x))
      else .error (.stopped .wild) : Except Halt Server) := by
  have hensures := readMemory_ensures gdb data u
  rw [hscan] at hensures
  split_ifs with hlen
  · obtain ⟨gdb', hrun, hanswered⟩ := readMemory_answered gdb hscan hlen
    rw [hrun]
    exact mirrors_ok (view_answered hanswered (hensures gdb' hrun).2)
  · exact mirrors_of_not_returns (fun gdb' hrun => hlen (hensures gdb' hrun).1)
      fun _ h => by cases h

theorem writeGeneralRegisters_eq (gdb : GdbProtocolData) (data : List Byte) (u : HandlerLocals) :
    writeGeneralRegisters gdb data u = loadRegisters gdb.arm data u >>= fun arm =>
      gdbSendData { gdb with arm } (ascii "OK") := by
  simp only [writeGeneralRegisters, loadRegisters, bind_assoc, pure_bind]

omit [ByteOrder] in
theorem writeMemoryBinary_eq (gdb : GdbProtocolData) (data : List Byte) (u : HandlerLocals) :
    writeMemoryBinary gdb data u = storeBytes gdb.arm data u >>= fun r =>
      gdbSendData { gdb with arm := r.1 } (if r.2 then ascii "OK" else ascii "E02") := by
  simp only [writeMemoryBinary, storeBytes, bind_assoc, pure_bind]
  refine congrArg _ (funext fun r => ?_)
  split_ifs <;> rfl

theorem writeRegister_eq (gdb : GdbProtocolData) (data : List Byte) (u : HandlerLocals) :
    Gdb.writeRegister gdb data u = loadRegister gdb.arm data u >>= fun arm =>
      gdbSendData { gdb with arm } (ascii "OK") := by
  simp only [Gdb.writeRegister, loadRegister, bind_assoc]
  refine congrArg _ (funext fun value => ?_)
  split_ifs <;> rfl

/-- A handler does what the server's answer to it says. -/
theorem mirrors_run [Host] (gdb : GdbProtocolData) {data : List Byte} (hdata : data ≠ [])
    (u : HandlerLocals) (turns : ℕ) (h : GdbHandler) :
    Mirrors (view strays) (h.run gdb data u turns)
      ((view strays gdb).finish <$> respond gdb.arm gdb.targetException data u turns h) := by
  cases h with
  | cont =>
    rw [respond, map_bind]
    refine mirrors_bind_same fun r _ => mirrors_lift ?_
    exact mirrors_gdbSendStopReason { gdb with arm := r.1, targetException := r.2 }
  | killRequest => exact mirrors_ok rfl
  | query => exact mirrors_lift (mirrors_query gdb data)
  | readGeneralRegisters =>
    rw [respond, map_bind]
    exact mirrors_lift (mirrors_readGeneralRegisters gdb)
  | readMemory =>
    rcases hscan : sscanfXX data u.address u.size with ⟨a, n⟩
    simp only [respond, hscan]
    rw [apply_ite ((view strays gdb).finish <$> ·)]
    exact mirrors_lift (mirrors_readMemory gdb data u hscan)
  | readRegister =>
    rw [respond, map_bind]
    simp only [apply_ite ((view strays gdb).finish <$> ·)]
    exact mirrors_lift (mirrors_readRegister gdb data)
  | reason => exact mirrors_lift (mirrors_gdbSendStopReason gdb)
  | setThread =>
    obtain ⟨type, data, rfl⟩ := List.exists_cons_of_ne_nil hdata
    exact mirrors_lift (mirrors_setThread gdb type data)
  | step =>
    rw [respond, map_bind]
    refine mirrors_lift (mirrors_bind_lift fun r => ?_)
    exact mirrors_gdbSendStopReason { gdb with arm := r.2, targetException := r.1 }
  | writeGeneralRegisters =>
    rw [respond, map_bind]
    change Mirrors _ (liftM (writeGeneralRegisters gdb data u)) _
    rw [writeGeneralRegisters_eq]
    refine mirrors_lift (mirrors_bind_lift fun arm => ?_)
    exact mirrors_gdbSendData { gdb with arm } (by decide) (by decide)
  | writeMemoryBinary =>
    rw [respond, map_bind]
    change Mirrors _ (liftM (writeMemoryBinary gdb data u)) _
    rw [writeMemoryBinary_eq]
    refine mirrors_lift (mirrors_bind_lift fun r => ?_)
    exact mirrors_gdbSendData { gdb with arm := r.1 } (by split_ifs <;> decide)
      (by split_ifs <;> decide)
  | writeRegister =>
    rw [respond, map_bind]
    change Mirrors _ (liftM (Gdb.writeRegister gdb data u)) _
    rw [writeRegister_eq]
    refine mirrors_lift (mirrors_bind_lift fun arm => ?_)
    exact mirrors_gdbSendData { gdb with arm } (by decide) (by decide)

theorem mirrors_handleRequest [Host] (gdb : GdbProtocolData) (u : HandlerLocals) (turns : ℕ)
    (t : PacketText) (beyond : List Byte) :
    Mirrors (view strays) (handleRequest gdb u turns (requestText t beyond))
      ((view strays gdb).handle u turns (requestText t beyond)) := by
  obtain ⟨c, data, htext, hdata⟩ := requestText_eq t beyond
  rw [htext, handleRequest, Server.handle]
  cases handler c with
  | none => exact mirrors_lift (mirrors_gdbSendData gdb (by decide) (by decide))
  | some h => exact mirrors_run gdb hdata u turns h

end Handlers

/-! ## Events -/

/-- The scanner between two tokens. -/
def observe (data : ParserData) : Server := view data.len data.gdb

section Events

variable [Host] [ByteOrder] {data : ParserData}

omit [Host] [ByteOrder] in
theorem observe_complaint {data' : ParserData} (hlen : data'.len = 0)
    (hgdb : data'.gdb = { data.gdb with written := data.gdb.written ++ complaint data }) :
    observe data' = (observe data).complain := by
  have hstrays : (observe data).strays = data.len := rfl
  rw [observe, hlen, hgdb, Server.complain, complaint, hstrays]
  split_ifs with h
  · rfl
  · rw [observe, List.append_nil, not_not.mp h]

theorem mirrors_act (hlen : data.len = 0) {t : Token} (ht : ¬ IsStray t) {s : Server}
    (hs : s.complain = observe data) :
    Mirrors observe (act data t) (s.step (.token t)) := by
  cases t with
  | plus => exact mirrors_ok hs.symm
  | minus =>
    refine mirrors_ok ?_
    rw [hs]
    rfl
  | packet r =>
    change Mirrors _ (gdbPacketAnalysis _ _ _ _ _ >>= _) _
    rw [gdbPacketAnalysis_text, Server.step, hs, observe, hlen]
    split_ifs
    · rw [bind_pure_comp]
      exact (mirrors_handleRequest (gdbSendAck data.gdb) r.u r.turns r.packet r.beyond).map
        fun gdb => rfl
    · exact mirrors_ok rfl
  | stray c => exact absurd trivial ht
  | eof => exact mirrors_ok hs.symm

theorem mirrors_react (hlen : data.len < maxErrorSize) (e : Event) :
    Mirrors observe (react data e) ((observe data).step e) := by
  cases e with
  | irq irq => exact (mirrors_refl _).bind fun arm _ => mirrors_ok rfl
  | token t =>
    by_cases hstray : IsStray t
    · cases t with
      | stray c =>
        obtain ⟨s', hs', hkept⟩ := addCharacterToError_ok hlen c
        have hadd : react data (.token (.stray c)) = .ok s' := lift_eq_ok.mpr hs'
        have hstrays : (observe data).strays = data.len := rfl
        rw [hadd, Server.step, Server.wait, hstrays]
        refine mirrors_ok ?_
        unfold maxErrorSize at *
        split_ifs at hkept ⊢ with hfull
        · rw [observe, hkept.1, hkept.2, Server.complain, hstrays, if_pos (by omega)]
          rfl
        · rw [observe, hkept.1, hkept.2]
          rfl
      | _ => exact hstray.elim
    · obtain ⟨s₁, hs₁, hlen₁, hgdb⟩ := scan_act hlen hstray
      have hobserve : (observe data).complain = observe s₁ := (observe_complaint hlen₁ hgdb).symm
      rw [react, hs₁]
      exact mirrors_act hlen₁ hstray hobserve

theorem react_len (hlen : data.len < maxErrorSize) (e : Event) :
    Ensures (react data e) fun data' => data'.len < maxErrorSize := by
  cases e with
  | token t => exact (scan_len hlen t).mono fun _ => And.left
  | irq irq => exact ensures_bind fun arm => ensures_pure hlen

theorem mirrors_events (events : List Event) (hlen : data.len < maxErrorSize) :
    Mirrors observe (events.foldlM react data) (events.foldlM Server.step (observe data)) :=
  mirrors_foldlM (fun _ e h => mirrors_react h e) (fun _ e h => react_len h e) events hlen

end Events

end ArmSimulator.Sessions
