import ArmSimulator.Machine.Scanner

/-! # The generated scanner (`scanner.c`)

`yylex` runs the automaton of the tables below over its buffer, remembers the last
accepting state it went through, and backs up to it where the automaton jams. Two
NUL characters end the buffer; a NUL of the input is told from them by its position.
Reads may cut the input anywhere. The buffer is modelled from `yytext_ptr` on, so
that moving a token to its start is nothing; its capacity, the failures of `read` and
of the allocator, and `yy_hold_char` are left out.
-/

namespace ArmSimulator.Machine.Gdb

/-! ## Tables -/

def yyAccept : List Nat := [0, 0, 0, 6, 4, 5, 4, 1, 2, 0, 0, 0, 3, 0]

def yyEc : List Nat :=
  [0, 1, 1, 1, 1, 1, 1, 1, 1, 1, 2, 1, 1, 1, 1, 1, 1, 1, 1, 1, 1, 1, 1, 1, 1, 1, 1, 1, 1, 1, 1, 1,
   1, 1, 1, 3, 4, 1, 1, 1, 1, 1, 1, 5, 1, 6, 1, 1, 7, 7, 7, 7, 7, 7, 7, 7, 7, 7, 1, 1, 1, 1, 1, 1,
   1, 7, 7, 7, 7, 7, 7, 1, 1, 1, 1, 1, 1, 1, 1, 1, 1, 1, 1, 1, 1, 1, 1, 1, 1, 1, 1, 1, 1, 1, 1, 1,
   1, 7, 7, 7, 7, 7, 7, 1, 1, 1, 1, 1, 1, 1, 1, 1, 1, 1, 1, 1, 1, 1, 1, 1, 1, 1, 1, 1, 1, 1, 1, 1,
   1, 1, 1, 1, 1, 1, 1, 1, 1, 1, 1, 1, 1, 1, 1, 1, 1, 1, 1, 1, 1, 1, 1, 1, 1, 1, 1, 1, 1, 1, 1, 1,
   1, 1, 1, 1, 1, 1, 1, 1, 1, 1, 1, 1, 1, 1, 1, 1, 1, 1, 1, 1, 1, 1, 1, 1, 1, 1, 1, 1, 1, 1, 1, 1,
   1, 1, 1, 1, 1, 1, 1, 1, 1, 1, 1, 1, 1, 1, 1, 1, 1, 1, 1, 1, 1, 1, 1, 1, 1, 1, 1, 1, 1, 1, 1, 1,
   1, 1, 1, 1, 1, 1, 1, 1, 1, 1, 1, 1, 1, 1, 1, 1, 1, 1, 1, 1, 1, 1, 1, 1, 1, 1, 1, 1, 1, 1, 1, 1]

def yyMeta : List Nat := [0, 1, 1, 1, 2, 1, 1, 1]

def yyBase : List Nat := [0, 0, 0, 13, 14, 14, 9, 14, 14, 8, 3, 2, 14, 14, 7]

def yyDef : List Nat := [0, 13, 1, 13, 13, 13, 14, 13, 13, 14, 13, 13, 13, 0, 13]

def yyNxt : List Nat :=
  [0, 4, 5, 4, 6, 7, 8, 4, 9, 12, 11, 10, 10, 13, 3, 13, 13, 13, 13, 13, 13, 13]

def yyChk : List Nat :=
  [0, 1, 1, 1, 1, 1, 1, 1, 14, 11, 10, 9, 6, 3, 13, 13, 13, 13, 13, 13, 13, 13]

/-- `table[i]` -/
def entry (table : List Nat) (i : Nat) : Except Halt Nat :=
  match table[i]? with
  | some n => .ok n
  | none => .error (.stopped .wild)

/-! ## Transitions -/

/-- The loop down the chain of default states, for `turns` iterations at most. -/
def yyTransition : Nat → Nat → Nat → Except Halt Nat
  | 0, _, _ => .error .running
  | turns + 1, state, yyC => do
    let base ← entry yyBase state
    if (← entry yyChk (base + yyC)) = state then entry yyNxt (base + yyC)
    else
      let state ← entry yyDef state
      yyTransition turns state (← if 14 ≤ state then entry yyMeta yyC else pure yyC)

/-- There are 15 states. -/
def yyNextState (state yyC : Nat) : Except Halt Nat := yyTransition 15 state yyC

/-- The state and the position of the last accepting state, `yy_last_accepting_state` and
`yy_last_accepting_cpos - yytext_ptr`. -/
abbrev LastAccepting := Nat × Nat

def noteAccepting (state cp : Nat) (last : LastAccepting) : Except Halt LastAccepting := do
  return if (← entry yyAccept state) ≠ 0 then (state, cp) else last

/-- The loop at `yy_match` over the cells from `yy_cp` on. -/
def yyMatch : List Byte → Nat → Nat → LastAccepting → Except Halt (Nat × Nat × LastAccepting)
  | [], _, _, _ => .error (.stopped .wild)
  | c :: cells, state, cp, last => do
    let yyC ← entry yyEc c.toNat
    let last ← noteAccepting state cp last
    let state ← yyNextState state yyC
    if (← entry yyBase state) ≠ 14 then yyMatch cells state (cp + 1) last
    else return (state, cp + 1, last)

/-- `*yy_cp ? yy_ec[*yy_cp] : 1` -/
def textClass (c : Byte) : Except Halt Nat := if c ≠ 0 then entry yyEc c.toNat else .ok 1

/-- The loop of `yy_get_previous_state`, in which NUL is a character as others are. -/
def previousStateLoop : List Byte → Nat → Nat → LastAccepting → Except Halt (Nat × LastAccepting)
  | [], _, state, last => .ok (state, last)
  | c :: text, cp, state, last => do
    let yyC ← textClass c
    let last ← noteAccepting state cp last
    let state ← yyNextState state yyC
    previousStateLoop text (cp + 1) state last

def yyGetPreviousState (text : List Byte) (last : LastAccepting) :
    Except Halt (Nat × LastAccepting) := previousStateLoop text 0 1 last

def yyTryNulTrans (state cp : Nat) (last : LastAccepting) : Except Halt (Nat × LastAccepting) := do
  let last ← noteAccepting state cp last
  let state ← yyNextState state 1
  return (if state = 13 then 0 else state, last)

/-! ## The buffer -/

/-- What a call of `read` gets before the end of the input. -/
abbrev Chunk := { bytes : List Byte // bytes ≠ [] }

/-- `yy_buffer_status` -/
inductive BufferStatus where
  | new | normal | eofPending
  deriving DecidableEq, Repr

/-- The scanner's state. `chars` are the characters from `yytext_ptr` up to `yy_n_chars`,
`input` is what the next calls of `read` get. -/
structure Yyguts where
  chars : List Byte
  status : BufferStatus
  input : List Chunk
  last : LastAccepting

inductive EobAct where
  | endOfFile | continueScan | lastMatch
  deriving DecidableEq, Repr

/-- Keeps the characters up to the first end-of-buffer character and reads on. -/
def yyGetNextBuffer (g : Yyguts) (cBufP : Nat) : EobAct × Yyguts :=
  let moved := g.chars.take (cBufP - 1)
  let read : List Byte × List Chunk :=
    if g.status = .eofPending then ([], g.input)
    else match g.input with
      | [] => ([], [])
      | chunk :: input => (chunk.val, input)
  if read.1 = [] then
    -- `yyrestart`
    if moved = [] then (.endOfFile, { g with chars := [], status := .new, input := read.2 })
    else (.lastMatch, { g with chars := moved, status := .eofPending, input := read.2 })
  else (.continueScan, { g with chars := moved ++ read.1, input := read.2 })

/-! ## Tokens -/

/-- The labels of `yylex` at which the scanning of a token goes on. -/
inductive Label where
  | yyMatch (state cp : Nat)
  | yyFindAction (state cp : Nat)

/-- `YY_END_OF_BUFFER` -/
def yyEndOfBuffer : Nat := 6

/-- `YY_STATE_EOF(INITIAL)` -/
def yyStateEof : Nat := 7

/-- A buffer is new up to its first end. -/
def leaveNew (g : Yyguts) : Yyguts := if g.status = .new then { g with status := .normal } else g

/-- The case `YY_END_OF_BUFFER` of `yylex`, at `yy_cp`: where to go on, `none` at the end
of the input. -/
def endOfBuffer (g : Yyguts) (cp : Nat) : Except Halt (Yyguts × Option Label) := do
  let amount := cp - 1
  let g := leaveNew g
  if cp ≤ g.chars.length then
    -- a NUL of the input
    let (state, last) ← yyGetPreviousState (g.chars.take amount) g.last
    let (next, last) ← yyTryNulTrans state amount last
    let g := { g with last }
    return (g, some (if next ≠ 0 then .yyMatch next (amount + 1) else .yyFindAction state amount))
  else
    match yyGetNextBuffer g cp with
    | (.endOfFile, g) => return (g, none)
    | (.continueScan, g) =>
      let (state, last) ← yyGetPreviousState (g.chars.take amount) g.last
      return ({ g with last }, some (.yyMatch state amount))
    | (.lastMatch, g) =>
      let (state, last) ← yyGetPreviousState g.chars g.last
      return ({ g with last }, some (.yyFindAction state g.chars.length))

/-- One token: the number of its rule or `yyStateEof`, and `yyleng`; in `turns` steps from
label to label at most. -/
def yyScan : Nat → Yyguts → Label → Except Halt (Nat × Nat × Yyguts)
  | 0, _, _ => .error .running
  | turns + 1, g, .yyMatch state cp => do
    let (state, cp, last) ← yyMatch ((g.chars ++ [0, 0]).drop cp) state cp g.last
    yyScan turns { g with last } (.yyFindAction state cp)
  | turns + 1, g, .yyFindAction state cp => do
    let act ← entry yyAccept state
    let cp := if act = 0 then g.last.2 else cp
    let act ← if act = 0 then entry yyAccept g.last.1 else pure act
    if act = 0 then yyScan turns g (.yyFindAction g.last.1 g.last.2)
    else if act = yyEndOfBuffer then
      match ← endOfBuffer g cp with
      | (g, some label) => yyScan turns g label
      | (g, none) => return (yyStateEof, 0, g)
    else return (act, cp, g)

/-! ## Rules -/

section Rules

variable [Host] [ByteOrder]

/-- The action of a rule. `beyond` is what follows the terminator of `yytext` in the buffer,
`u` and `turns` are for the handler of a packet. -/
def yyAction (data : ParserData) (act : Nat) (yytext beyond : List Byte) (u : HandlerLocals)
    (turns : Nat) : Except Halt ParserData :=
  match act with
  | 1 => handleError data
  | 2 => do
    let data ← handleError data
    return { data with gdb := gdbTransmitPacket data.gdb }
  | 3 => do
    let data ← handleError data
    let gdb ← gdbPacketAnalysis data.gdb (yytext ++ 0 :: beyond) yytext.length u turns
    return { data with gdb }
  | 4 => addCharacterToError data (yytext.headD 0)
  -- `ECHO`
  | 5 => return data
  -- `YY_FATAL_ERROR`
  | _ => .error (.stopped (.exit 2))

/-- What the actions of a token find besides it: the locals of a handler and the bound on
the loop of `cont`. -/
structure Surroundings where
  u : HandlerLocals
  turns : Nat

/-- `yylex` up to the end of the input, for `turns` tokens at most, each in `steps` steps at
most. -/
def yylex (steps : Nat) : Nat → (Nat → Surroundings) → Yyguts → ParserData → Except Halt ParserData
  | 0, _, _, _ => .error .running
  | turns + 1, env, g, data => do
    let (act, yyleng, g) ← yyScan steps g (.yyMatch 1 0)
    if act = yyStateEof then handleError data
    else
      let data ← yyAction data act (g.chars.take yyleng) ((g.chars ++ [0, 0]).drop (yyleng + 1))
        (env 0).u (env 0).turns
      yylex steps turns (fun k => env (k + 1)) { g with chars := g.chars.drop yyleng } data

end Rules

/-- The scanner `gdb_scanner` starts on its input; `last` is what the allocator leaves. -/
def yylexInit (input : List Chunk) (last : LastAccepting) : Yyguts := ⟨[], .new, input, last⟩

end ArmSimulator.Machine.Gdb
